import KristaTech.Masternode.Undoable

/-!
# Undoing a block's masternode activity

The disconnection of a block that can be undone, half by half: the heights are erased and the new
keys marked (`Grown.eraseHeights`, `Marked`), and the search for the marked keys finds nothing
(`Silent.restore`). So the registry answers as it did before the block was connected
(`registry_restored`). A block that binds an active key to another collateral cannot be undone: the
key keeps the new one (`registry_not_restored`).
-/

namespace KristaTech.Masternode

open Llmq List

variable {E : ActivityEnv} {view : CoinLookup} {readBlock : ℤ → Option CBlock}
  {s : MasternodeState} {block : CBlock} {nHeight : ℤ} {k : CPubKey} {o : COutPoint}

/-! ### Searching silent blocks -/

/-- A search for a key and a collateral, or for a key only, in a block that is silent about them
finds nothing. -/
theorem Silent.restore {x : ℤ} (h : Silent E k o block) {target : COutPoint}
    (htarget : target.isNull = true ∨ target = o ∧ DelegatedTo s.delegations nHeight k o) :
    restoreMasternodeActivityFromBlock E view block x k target s = (none, s) := by
  have hpings : block.vtx.tryEach (restorePing E view x k target) s = (none, s) := by
    refine tryEach_eq_none fun tx htx ↦ ?_
    rw [restorePing]
    split
    · rename_i ping hping
      obtain ⟨hk, ho⟩ := h.pings tx htx ping hping
      refine if_neg ?_
      rintro (hk' | ⟨hnull, ho'⟩)
      · exact hk hk'
      · rcases htarget with hnull' | ⟨rfl, -⟩
        · simp [hnull'] at hnull
        · exact ho ho'
    · rfl
  rw [restoreMasternodeActivityFromBlock, hpings]
  split_ifs with hstop
  · rfl
  obtain ⟨rfl, hd⟩ := htarget.resolve_left fun hnull ↦ hstop (Or.inr hnull)
  have hsolutions : (minersToVerify block).tryEach (restoreSolution E view block x k target) s =
      (none, s) := by
    refine tryEach_eq_none fun m hm ↦ ?_
    rw [restoreSolution, if_neg]
    intro hcond
    simp only [Bool.and_eq_true, Bool.or_eq_true, beq_iff_eq, Bool.not_eq_true',
      isEmpty_eq_false_iff] at hcond
    refine h.solutions m hm hcond.1.1.1.1 ?_
    rcases hcond.1.1.2 with hk | hk
    · exact hk
    · exact hd.eq_of_delegateKey hk
  have hcoordinator : restoreCoordinator E view block x k target s = (none, s) := by
    rw [restoreCoordinator]
    split
    · rename_i signedData _ hparse
      have hk := h.coordinator signedData hparse
      have hdelegate : (delegateKey s target).filter (fun k' ↦ k'.verify E.crypto
          (E.crypto.hash signedData.blsPubKey.data) signedData.ecdsaSig) = none := by
        refine Option.filter_eq_none_iff.mpr fun k' hk' ↦ ?_
        rw [hd.eq_of_delegateKey hk', hk]
        exact Bool.false_ne_true
      simp only [hk, Bool.and_false, Bool.false_eq_true, if_false, hdelegate]
    · rfl
  simp only [hsolutions, hcoordinator]
  exact tryEach_eq_none fun sigPair hmem ↦ by
    rw [restoreShare, if_pos (h.shares sigPair hmem)]

/-- A registry without the last active height and the collateral of a key. -/
def Registry.drop (R : Registry) (k : CPubKey) : Registry :=
  { R with
    mapMasternodeLastActiveHeight := R.mapMasternodeLastActiveHeight.erase k
    mapMasternodeCollateralOutpoints := R.mapMasternodeCollateralOutpoints.erase k }

theorem Registry.entry_drop (R : Registry) (k k' : CPubKey) : (R.drop k).entry k' =
      if k' = k then (R.mapMasternodeActiveHeights[k']?, none, none) else R.entry k' := by
  by_cases hk : k' = k
  · subst hk
    simp [drop, entry]
  · simp [drop, entry, hk, Std.ExtTreeMap.getElem?_erase, Ne.symm hk]

/-- A key that was new, in a state in which it is to be restored: no collateral it may be restored
with says anything about it in the blocks to be searched. -/
structure Forgotten (E : ActivityEnv) (readBlock : ℤ → Option CBlock) (s : MasternodeState)
    (nHeight : ℤ) (coll : Std.ExtTreeMap CPubKey COutPoint) (s' : MasternodeState) (k : CPubKey) :
    Prop where
  firstTime : ∃ o, FirstTime E readBlock s nHeight k o
  collateral : ∀ o, coll[k]? = some o ∨ s'.registry.mapMasternodeCollateralOutpoints[k]? = some o →
    FirstTime E readBlock s nHeight k o ∧ DelegatedTo s'.delegations nHeight k o

variable {s' : MasternodeState} {coll : Std.ExtTreeMap CPubKey COutPoint}

theorem Forgotten.restoreKey (h : Forgotten E readBlock s nHeight coll s' k) :
    Masternode.restoreKey E view readBlock nHeight coll s' k =
      { s' with registry := s'.registry.drop k } := by
  obtain ⟨o, hf, ho⟩ : ∃ o, FirstTime E readBlock s nHeight k o ∧
      (((coll[k]?.or s'.registry.mapMasternodeCollateralOutpoints[k]?).getD COutPoint.null).isNull = true ∨
      (coll[k]?.or s'.registry.mapMasternodeCollateralOutpoints[k]?).getD COutPoint.null = o ∧
        DelegatedTo s'.delegations nHeight k o) := by
    cases hor : coll[k]?.or s'.registry.mapMasternodeCollateralOutpoints[k]? with
    | none =>
      obtain ⟨o, hf⟩ := h.firstTime
      exact ⟨o, hf, Or.inl rfl⟩
    | some o =>
      obtain ⟨hf, hd⟩ := h.collateral o (by
        rcases Option.or_eq_some_iff.mp hor with hc | ⟨-, hC⟩
        · exact Or.inl hc
        · exact Or.inr hC)
      exact ⟨o, hf, Or.inr ⟨rfl, hd⟩⟩
  rw [Masternode.restoreKey]
  refine congrArg Prod.snd (tryEach_eq_none (s := { s' with registry := s'.registry.drop k }) fun x hx ↦ ?_)
  have hscan : scanBlock E view readBlock k
      ((coll[k]?.or s'.registry.mapMasternodeCollateralOutpoints[k]?).getD COutPoint.null)
      { s' with registry := s'.registry.drop k } x =
        (none, { s' with registry := s'.registry.drop k }) := by
    rw [scanBlock]
    split
    · rfl
    · exact (hf.silent x hx _ ‹_›).restore ho
  rw [scanAndRescan, hscan]

theorem foldl_restoreKey_of_forgotten {ks : List CPubKey}
    (h : ∀ k ∈ ks, Forgotten E readBlock s nHeight coll s' k) (k : CPubKey) :
    (ks.foldl (restoreKey E view readBlock nHeight coll) s').registry.entry k =
      if k ∈ ks then (s'.registry.mapMasternodeActiveHeights[k]?, none, none)
      else s'.registry.entry k := by
  induction ks generalizing s' with
  | nil => simp
  | cons k₀ ks ih =>
    rw [foldl_cons, (h k₀ mem_cons_self).restoreKey, ih]
    · have he := Registry.entry_drop s'.registry k₀ k
      by_cases hk : k = k₀
      · subst hk
        rw [if_pos rfl] at he
        simp only [mem_cons, true_or, if_true]
        split_ifs
        · rfl
        · exact he
      · rw [if_neg hk] at he
        simp only [mem_cons, hk, false_or]
        split_ifs
        · rfl
        · exact he
    · intro k hk
      obtain ⟨hf, hc⟩ := h k (mem_cons_of_mem k₀ hk)
      refine ⟨hf, fun o ho ↦ hc o (ho.imp_right fun hC ↦ ?_)⟩
      rw [Registry.drop, Std.ExtTreeMap.getElem?_erase] at hC
      split at hC
      · simp at hC
      · exact hC

/-! ### Disconnecting -/

theorem Grown.eraseHeights (hs : s.Inv (nHeight - 1) noPending)
    (h : Grown E readBlock s block nHeight s') (k : CPubKey) : let a := eraseHeights nHeight s'
    a.atKey k = (s.registry.entry k, false, none) ∨
    (∃ S₀ S m o, s.registry.mapMasternodeActiveHeights[k]? = some S₀ ∧ S₀.last = some m ∧
      s.registry.mapMasternodeCollateralOutpoints[k]? = some o ∧ S.last = some m ∧
      a.atKey k = ((some S, some m, some o), false, none)) ∨
    (∃ o, Participates E block k o ∧ FirstTime E readBlock s nHeight k o ∧
      a.atKey k = ((none, none, some o), true, some o)) := by
  intro a
  have hcases := eraseHeights_cases nHeight s' k
  cases h.registry k with
  | same he =>
    have hA : s'.registry.mapMasternodeActiveHeights[k]? =
        s.registry.mapMasternodeActiveHeights[k]? := congrArg Prod.fst he
    have hbelow : ∀ S, s'.registry.mapMasternodeActiveHeights[k]? = some S → nHeight ∉ S := by
      intro S hS hmem
      have := (hs.registry.heights k S (hA ▸ hS)).2 nHeight hmem
      omega
    obtain ⟨-, ha⟩ | ⟨S, -, hS, hmem, -⟩ | ⟨S, hS, hmem, -⟩ := hcases
    · exact Or.inl (he ▸ ha)
    · exact absurd hmem (hbelow S hS)
    · exact absurd hmem (hbelow S hS)
  | @refreshed S₀ S m o hA hm hC he hS hmS hh _ =>
    simp only [Registry.entry, Prod.mk.injEq] at he
    obtain ⟨hm₀, hmax₀⟩ := Heights.last_eq_some_iff.mp hm
    have hlt := (hs.registry.heights k S₀ hA).2 m hm₀
    have hmax : Heights.last (S.erase nHeight) = some m := by
      refine Heights.last_eq_some_iff.mpr ⟨Heights.mem_erase.mpr ⟨by omega, hmS⟩, fun x hx ↦ ?_⟩
      obtain ⟨hne, hx⟩ := Heights.mem_erase.mp hx
      exact hmax₀ x ((hS x hx).resolve_left hne)
    obtain ⟨hnot, -⟩ | ⟨S', m', hS', -, hm', ha⟩ | ⟨S', hS', -, hm', -⟩ := hcases
    · exact absurd hh (hnot S he.1)
    · obtain rfl : S = S' := Option.some.inj (he.1.symm.trans hS')
      obtain rfl : m = m' := Option.some.inj (hmax.symm.trans hm')
      exact Or.inr (Or.inl ⟨S₀, _, m, o, hA, hm, hC, hmax, he.2.2 ▸ ha⟩)
    · obtain rfl : S = S' := Option.some.inj (he.1.symm.trans hS')
      simp [hmax] at hm'
  | @new S o hp hf he hS =>
    simp only [Registry.entry, Prod.mk.injEq] at he
    obtain ⟨hnot, -⟩ | ⟨S', m', hS', -, hm', -⟩ | ⟨S', hS', -, -, ha⟩ := hcases
    · exact absurd ((hS nHeight).mpr rfl) (hnot S he.1)
    · obtain rfl : S = S' := Option.some.inj (he.1.symm.trans hS')
      obtain ⟨hne, hmem⟩ := Heights.mem_erase.mp (Heights.last_eq_some_iff.mp hm').1
      exact absurd ((hS m').mp hmem) hne
    · exact Or.inr (Or.inr ⟨o, hp, hf, he.2.2 ▸ ha⟩)

/-- What the undoing of a block that can be undone carries along while it reverts the pings: a
registry, and marks on new keys only. -/
structure Marked (E : ActivityEnv) (readBlock : ℤ → Option CBlock) (s : MasternodeState)
    (block : CBlock) (nHeight : ℤ) (R : Registry) (a : Emptied) : Prop where
  registry : a.state.registry = R
  wellFormed : a.state.delegations.WellFormed
  delegated : ∀ k o, Participates E block k o → DelegatedTo a.state.delegations nHeight k o
  marks : ∀ k, a.setEmptiedMasternodes.contains k = true →
    ∃ o, Participates E block k o ∧ FirstTime E readBlock s nHeight k o
  collaterals : ∀ (k : CPubKey) o, a.mapEmptiedCollaterals[k]? = some o →
    Participates E block k o ∧ FirstTime E readBlock s nHeight k o

namespace Marked

variable {R : Registry} {a : Emptied}

theorem markInactive (h : Marked E readBlock s block nHeight R a) (hp : Participates E block k o)
    (hf : R.mapMasternodeActiveHeights[k]? = none → FirstTime E readBlock s nHeight k o) :
    Marked E readBlock s block nHeight R (a.markInactive k o) := by
  rw [Emptied.markInactive]
  split_ifs with hcontains
  · exact h
  · have hf : FirstTime E readBlock s nHeight k o := hf (by simpa [h.registry] using hcontains)
    refine ⟨h.registry, h.wellFormed, h.delegated, fun k' hk' ↦ ?_, fun k' o' ho' ↦ ?_⟩
    · simp only [Emptied.mark, Std.ExtTreeSet.contains_insert, Bool.or_eq_true, beq_iff_eq] at hk'
      rcases hk' with hk' | hk'
      · obtain rfl : k = k' := by simpa using hk'
        exact ⟨o, hp, hf⟩
      · exact h.marks k' hk'
    · simp only [Emptied.mark] at ho'
      split_ifs at ho'
      · exact h.collaterals k' o' ho'
      · rw [Std.ExtTreeMap.getElem?_insert] at ho'
        split at ho'
        · rename_i hk'
          obtain rfl : k = k' := by simpa using hk'
          obtain rfl : o = o' := Option.some.inj ho'
          exact ⟨hp, hf⟩
        · exact h.collaterals k' o' ho'

theorem revertDelegation (h : Marked E readBlock s block nHeight R a) {ping : MasternodePing}
    (hp : Participates E block ping.pubKeyMasternode ping.collateralOutpoint) :
    Marked E readBlock s block nHeight R (revertDelegation nHeight a ping) := by
  have hinvalid := (h.delegated _ _ hp).revert_snd h.wellFormed
  simp only [Masternode.revertDelegation, hinvalid]
  split_ifs with hdel hvalid
  · exact absurd hvalid (by decide)
  · exact ⟨h.registry, h.wellFormed.revert,
      fun k o hp ↦ (h.delegated k o hp).revert h.wellFormed _ _, h.marks, h.collaterals⟩
  · exact h

theorem revertPing (h : Marked E readBlock s block nHeight R a)
    (hR : ∀ k o, Participates E block k o → R.mapMasternodeActiveHeights[k]? = none →
      FirstTime E readBlock s nHeight k o) {tx : CTransaction} (htx : tx ∈ block.vtx) :
    Marked E readBlock s block nHeight R (revertPing E nHeight a tx) := by
  rw [Masternode.revertPing]
  split
  · exact h
  · rename_i ping hping
    have hp : Participates E block ping.pubKeyMasternode ping.collateralOutpoint := .ping htx hping
    exact (h.revertDelegation hp).markInactive hp (hR _ _ hp)

end Marked

theorem FirstTime.entry_eq (hf : FirstTime E readBlock s nHeight k o)
    (hs : s.Inv (nHeight - 1) noPending) : s.registry.entry k = (none, none, none) := by
  have hL : s.registry.mapMasternodeLastActiveHeight[k]? = none := by
    by_contra hne
    obtain ⟨l, hl⟩ := Option.ne_none_iff_exists'.mp hne
    obtain ⟨S, hS, -⟩ := hs.registry.last k l hl
    simp [hf.inactive] at hS
  have hC : s.registry.mapMasternodeCollateralOutpoints[k]? = none := by
    by_contra hne
    obtain ⟨o', ho'⟩ := Option.ne_none_iff_exists'.mp hne
    obtain ⟨S, hS⟩ := (hs.registry.bound k o' ho').resolve_right id
    simp [hf.inactive] at hS
  rw [Registry.entry, hf.inactive, hL, hC]

/-- An entry that answers as another one does: the same, or one with the same collateral and the
same newest height, which is also the last active height. -/
inductive SameAnswers (e : Option Heights × Option ℤ × Option COutPoint) :
    Option Heights × Option ℤ × Option COutPoint → Prop
  | same : SameAnswers e e
  | newest {S₀ S m o} : e.1 = some S₀ → S₀.last = some m → e.2.2 = some o → S.last = some m →
    SameAnswers e (some S, some m, some o)

theorem active_of_bound (hs : s.Inv (nHeight - 1) noPending)
    (ho : s.registry.mapMasternodeCollateralOutpoints[k]? = some o) :
    s.registry.mapMasternodeActiveHeights[k]? ≠ none := by
  obtain ⟨S, hS⟩ := (hs.registry.bound k o ho).resolve_right id
  simp [hS]

section Halves

variable {s' : MasternodeState} (hs : s.Inv (nHeight - 1) noPending)
  (h : Grown E readBlock s block nHeight s')

include hs h

/-- After the first half only new keys are marked. -/
theorem Grown.marked : Marked E readBlock s block nHeight
    (Masternode.eraseHeights nHeight s').state.registry (Masternode.eraseHeights nHeight s') := by
  have herase := h.eraseHeights hs
  simp only [Emptied.atKey, Prod.mk.injEq] at herase
  have hdel := eraseHeights_state nHeight s'
  refine ⟨rfl, hdel ▸ h.inv.delegations, hdel ▸ h.delegated, fun k hk ↦ ?_, fun k o ho ↦ ?_⟩
  · obtain ⟨-, hnot, -⟩ | ⟨_, _, _, _, -, -, -, -, -, hnot, -⟩ | ⟨o, hp, hf, -⟩ := herase k
    · simp [hk] at hnot
    · simp [hk] at hnot
    · exact ⟨o, hp, hf⟩
  · obtain ⟨-, -, hnot⟩ | ⟨_, _, _, _, -, -, -, -, -, -, hnot⟩ | ⟨o', hp, hf, -, -, ho'⟩ := herase k
    · simp [ho] at hnot
    · simp [ho] at hnot
    · obtain rfl : o = o' := Option.some.inj (ho.symm.trans ho')
      exact ⟨hp, hf⟩

theorem Grown.firstTime_of_inactive (hu : Undoable E readBlock s block nHeight)
    (hp : Participates E block k o)
    (hnone : (Masternode.eraseHeights nHeight s').state.registry.mapMasternodeActiveHeights[k]? =
      none) : FirstTime E readBlock s nHeight k o := by
  have herase := h.eraseHeights hs k
  simp only [Emptied.atKey, Prod.mk.injEq] at herase
  refine (hu.participants k o hp).resolve_left fun ho ↦ ?_
  obtain ⟨he, -⟩ | ⟨_, _, _, _, -, -, -, -, he, -⟩ | ⟨_, -, hf, -⟩ := herase
  · exact active_of_bound hs ho ((congrArg Prod.fst he).symm.trans hnone)
  · have := (congrArg Prod.fst he).symm.trans hnone
    simp at this
  · exact active_of_bound hs ho hf.inactive

theorem Grown.forgotten {a : Emptied}
    (ha : Marked E readBlock s block nHeight (Masternode.eraseHeights nHeight s').state.registry a)
    (hk : a.setEmptiedMasternodes.contains k = true) :
    Forgotten E readBlock s nHeight a.mapEmptiedCollaterals a.state k := by
  have herase := h.eraseHeights hs k
  simp only [Emptied.atKey, Prod.mk.injEq] at herase
  obtain ⟨o₀, hp₀, hf₀⟩ := ha.marks k hk
  refine ⟨⟨o₀, hf₀⟩, fun o ho ↦ ?_⟩
  obtain ⟨hp, hf⟩ : Participates E block k o ∧ FirstTime E readBlock s nHeight k o := by
    rcases ho with ho | ho
    · exact ha.collaterals k o ho
    · rw [ha.registry] at ho
      obtain ⟨he, -⟩ | ⟨S₀, _, _, _, hA, -⟩ | ⟨o', hp, hf, he, -⟩ := herase
      · exact absurd hf₀.inactive (active_of_bound hs ((congrArg (·.2.2) he).symm.trans ho))
      · simp [hf₀.inactive] at hA
      · obtain rfl : o' = o := Option.some.inj ((congrArg (·.2.2) he).symm.trans ho)
        exact ⟨hp, hf⟩
  exact ⟨hf, ha.delegated k o hp⟩

end Halves

variable (view) in
theorem Undoable.sameAnswers (hs : s.Inv (nHeight - 1) noPending)
    (hu : Undoable E readBlock s block nHeight) (view' : CoinLookup) (k : CPubKey) :
    SameAnswers (s.registry.entry k) ((disconnectMasternodes E view' readBlock
      (registerBlockMasternodeActivity E view s block nHeight) block nHeight).registry.entry k) := by
  have hg₀ := hu.grown view hs
  rw [disconnectMasternodes]
  generalize registerBlockMasternodeActivity E view s block nHeight = s₁ at hg₀
  -- the pins play no part
  have hg : Grown E readBlock s block nHeight { s₁ with pins := s₁.pins.unpinBLSPubKeysAtHeight nHeight } :=
    ⟨⟨hg₀.inv.registry, hg₀.inv.delegations⟩, hg₀.registry, hg₀.delegated⟩
  generalize { s₁ with pins := s₁.pins.unpinBLSPubKeysAtHeight nHeight } = s₂ at hg
  have ha : Marked E readBlock s block nHeight (eraseHeights nHeight s₂).state.registry
      (block.vtx.foldl (revertPing E nHeight) (eraseHeights nHeight s₂)) :=
    foldl_invariant (hg.marked hs) fun tx htx _ h ↦
      h.revertPing (fun k o hp ↦ hg.firstTime_of_inactive hs hu hp) htx
  have hmono : ∀ k, (eraseHeights nHeight s₂).setEmptiedMasternodes.contains k = true →
      (block.vtx.foldl (revertPing E nHeight)
        (eraseHeights nHeight s₂)).setEmptiedMasternodes.contains k = true :=
    fun k hk ↦ foldl_invariant (motive := fun a : Emptied ↦ a.setEmptiedMasternodes.contains k = true) hk
      fun tx _ a h ↦ (revertPing_frame E nHeight a tx).2.1 k h
  have herase := hg.eraseHeights hs k
  simp only [Emptied.atKey, Prod.mk.injEq] at herase
  rw [foldl_restoreKey_of_forgotten (fun k hk ↦ hg.forgotten hs ha (by simpa using hk)) k, ha.registry]
  split_ifs with hk
  · obtain ⟨o, -, hf⟩ := ha.marks k (by simpa using hk)
    have hnone : (eraseHeights nHeight s₂).state.registry.mapMasternodeActiveHeights[k]? = none := by
      obtain ⟨he, -⟩ | ⟨S₀, _, _, _, hA, -⟩ | ⟨_, -, -, he, -⟩ := herase
      · exact (congrArg Prod.fst he).trans hf.inactive
      · simp [hf.inactive] at hA
      · exact congrArg Prod.fst he
    rw [hf.entry_eq hs, hnone]
    exact .same
  · obtain ⟨he, -⟩ | ⟨S₀, S, m, o, hA, hm, hC, hS, he, -⟩ | ⟨_, -, -, -, hmark, -⟩ := herase
    · rw [he]
      exact .same
    · rw [he]
      exact .newest hA hm hC hS
    · exact absurd (by simpa using hmono k hmark) hk

/-! ### What is asked of the registry -/

theorem isMasternodeActiveAtHeight_of_newest {R : Registry} {S : Heights} {m q w : ℤ}
    (hA : R.mapMasternodeActiveHeights[k]? = some S) (hm : S.last = some m)
    (hL : ∀ l, R.mapMasternodeLastActiveHeight[k]? = some l → l = m) (hq : m ≤ q) :
    R.isMasternodeActiveAtHeight k q w = (k.isValid && decide (q - m ≤ w)) := by
  obtain ⟨hmem, hmax⟩ := Heights.last_eq_some_iff.mp hm
  have hfilter : Heights.last (S.filter (· ≤ q)) = some m :=
    Heights.last_eq_some_iff.mpr ⟨by simp [hmem, hq], fun x hx ↦ hmax x (by simp at hx; exact hx.1)⟩
  simp only [Registry.isMasternodeActiveAtHeight, hA, Option.bind_some, hfilter, Option.any_some,
    hq, decide_true, Bool.true_and]
  cases hl : R.mapMasternodeLastActiveHeight[k]? with
  | none => simp
  | some l => simp [hL l hl, hq]

/-- **Connecting a block and disconnecting it again** gives back every key's collateral and activity
at and above the restored tip, if the block can be undone. -/
theorem registry_restored {s : MasternodeState} {nHeight : ℤ} (hs : Reachable s (nHeight - 1))
    (E : ActivityEnv) (view view' : CoinLookup) (readBlock : ℤ → Option CBlock) (block : CBlock)
    (hu : Undoable E readBlock s block nHeight) (k : CPubKey) :
    let s' := disconnectMasternodes E view' readBlock
      (registerBlockMasternodeActivity E view s block nHeight) block nHeight
    s'.registry.mapMasternodeCollateralOutpoints[k]? = s.registry.mapMasternodeCollateralOutpoints[k]? ∧
      ∀ q, nHeight - 1 ≤ q →
        s'.registry.isMasternodeActiveAtHeight k q = s.registry.isMasternodeActiveAtHeight k q := by
  intro s'
  have h := hu.sameAnswers view hs.inv view' k
  change SameAnswers _ (s'.registry.entry k) at h
  generalize hv : s'.registry.entry k = v at h
  cases h with
  | same =>
    simp only [Registry.entry, Prod.mk.injEq] at hv
    exact ⟨hv.2.2, fun q _ ↦ by
      simp only [Registry.isMasternodeActiveAtHeight, hv.1, hv.2.1]⟩
  | @newest S₀ S m o hA hm hC hS =>
    simp only [Registry.entry, Prod.mk.injEq] at hv hA hC
    refine ⟨hv.2.2.trans hC.symm, fun q hq ↦ ?_⟩
    have hle := (hs.inv.registry.heights k S₀ hA).2 m (Heights.last_eq_some_iff.mp hm).1
    rw [isMasternodeActiveAtHeight_of_newest hv.1 hS (by simp [hv.2.1]) (by omega),
      isMasternodeActiveAtHeight_of_newest hA hm ?_ (by omega)]
    intro l hl
    obtain ⟨S', hS', hl'⟩ := hs.inv.registry.last k l hl
    obtain rfl : S₀ = S' := Option.some.inj (hA.symm.trans hS')
    exact Option.some.inj (hl'.symm.trans hm)

/-! ### A key that changes its collateral -/

def exampleEnv : ActivityEnv where
  crypto := default
  checkSignature _ _ := false
  getAdamSeed _ := 0
  verifyAdamSolution _ _ _ _ _ _ _ _ _ := false
  selectAdamNodes _ _ _ _ := none
  getAdamMinerPool _ _ _ := []
  getActiveQuorum _ _ _ _ := ⟨[]⟩

def exampleKey : CPubKey := CPubKey.set (2 :: List.replicate 32 1)

def exampleCollateral (i : ℕ) : COutPoint := ⟨BitVec.ofNat 256 i, 0⟩

def exampleView : CoinLookup := fun _ ↦
  some ⟨false, false, ⟨getMasternodeNodeCollateral 0,
    getScriptForDestination (.keyID (exampleKey.getID exampleEnv.crypto))⟩, 0⟩

def examplePingTx (i : ℕ) : CTransaction where
  nVersion := 1
  vin := [⟨⟨9, 0⟩, 36 :: 33 :: exampleKey.vch ++
    [Opcode.OP_CHECKSIGVERIFY.toByte, Opcode.OP_1.toByte, 1, 0xC0], sequenceFinal⟩]
  vout := [⟨0, Opcode.OP_RETURN.toByte :: 36 :: Writer.outPoint (exampleCollateral i)⟩]
  nLockTime := 0

def examplePingBlock (i : ℕ) : CBlock where
  nVersion := 10
  hashPrevBlock := 0
  hashMerkleRoot := 0
  nTime := 0
  nBits := 0
  nNonce := 0
  vtx := [examplePingTx i]

/-- The state after a first block in which the key pings for the first collateral. -/
def exampleBound : MasternodeState :=
  registerBlockMasternodeActivity exampleEnv exampleView
    ⟨Registry.empty, Delegations.empty, ∅⟩ (examplePingBlock 1) 1

/-- **A block that is not undone.** The key pings for a second collateral in the second block. When
that block is disconnected the key still has a height, so nothing is searched for and the second
collateral stays. -/
theorem registry_not_restored : Reachable exampleBound 1 ∧
      exampleBound.registry.mapMasternodeCollateralOutpoints[exampleKey]? = some (exampleCollateral 1) ∧
      (disconnectMasternodes exampleEnv exampleView (fun _ ↦ some (examplePingBlock 1))
        (registerBlockMasternodeActivity exampleEnv exampleView exampleBound (examplePingBlock 2) 2)
        (examplePingBlock 2) 2).registry.mapMasternodeCollateralOutpoints[exampleKey]? =
        some (exampleCollateral 2) :=
  ⟨Reachable.start.connect exampleEnv exampleView (examplePingBlock 1), by decide +kernel, by decide +kernel⟩

theorem participates_examplePingBlock (h : Participates exampleEnv (examplePingBlock 1) k o) :
    k = exampleKey ∧ o = exampleCollateral 1 := by
  have hping : extractOnChainMasternodePing exampleEnv.toPingChecks (examplePingTx 1) =
      some ⟨exampleKey, exampleCollateral 1, none⟩ := by decide
  generalize hb : examplePingBlock 1 = b at h
  cases h with
  | @ping tx ping htx hextract =>
    obtain rfl : tx = examplePingTx 1 := by
      rw [← hb] at htx
      exact mem_singleton.mp htx
    rw [hping, Option.some.injEq] at hextract
    exact hextract ▸ ⟨rfl, rfl⟩
  | share hversion _ _ =>
    rw [← hb] at hversion
    exact absurd hversion (by decide)

/-- A first ping of a key, in the first block, is undone. -/
theorem registry_restored_first :
    (registerBlockMasternodeActivity exampleEnv exampleView ⟨Registry.empty, Delegations.empty, ∅⟩
        (examplePingBlock 1) 1).registry.mapMasternodeCollateralOutpoints[exampleKey]? =
        some (exampleCollateral 1) ∧
      (disconnectMasternodes exampleEnv exampleView (fun _ ↦ none)
        (registerBlockMasternodeActivity exampleEnv exampleView
          ⟨Registry.empty, Delegations.empty, ∅⟩ (examplePingBlock 1) 1)
        (examplePingBlock 1) 1).registry.mapMasternodeCollateralOutpoints[exampleKey]? = none := by
  have hu : Undoable exampleEnv (fun _ ↦ none) ⟨Registry.empty, Delegations.empty, ∅⟩
      (examplePingBlock 1) 1 := by
    refine ⟨fun k o hp ↦ Or.inr ⟨?_, ?_, ?_⟩, fun k o k' o' hp hp' ↦ ?_, fun k o _ ↦ Or.inl ?_, ?_⟩
    · simp [Registry.empty]
    · simp [Registry.empty]
    · simp
    · obtain ⟨rfl, rfl⟩ := participates_examplePingBlock hp
      obtain ⟨rfl, rfl⟩ := participates_examplePingBlock hp'
      simp
    · simp [Delegations.empty]
    · simp [Registry.empty]
  refine ⟨by decide +kernel, ?_⟩
  have hstart : Reachable ⟨Registry.empty, Delegations.empty, ∅⟩ (1 - 1) := Reachable.start
  rw [(registry_restored hstart exampleEnv exampleView exampleView _ _ hu exampleKey).1]
  simp [Registry.empty]

end KristaTech.Masternode
