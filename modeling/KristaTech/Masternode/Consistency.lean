import KristaTech.Masternode.Activity

/-!
# What block activity can do to the registry

Connecting a block changes the masternode state through a handful of registrations, of the block's
pings, of keys with the collateral they are bound to, and of the shares' keys, and through pins
(`registerBlock_induction`); searching an earlier block does nothing but register
(`restore_induction`). From these two rules and the effect of one registration follows what holds of
the registry along every run of connected and disconnected blocks, whatever the blocks, the coins
and the elections (`Reachable.inv`).
-/

namespace KristaTech.Masternode

open Llmq List

variable {E : ActivityEnv} {view : CoinLookup}

/-! ### Rules -/

section Rules

variable {motive : MasternodeState → Prop} {block : CBlock} {nHeight : ℤ} {s : MasternodeState}

theorem pinSigned_induction {vchSig : Bytes} (hpin : ∀ s k pk,
      extractBLSPubKeyFromSignedData vchSig = some pk → motive s → motive (s.pin k pk nHeight))
    (hs : motive s) (k : CPubKey) : motive (s.pinSigned k vchSig nHeight) := by
  rw [MasternodeState.pinSigned]
  split
  · exact hpin s k _ ‹_› hs
  · exact hs

theorem refresh_induction
    (hrefresh : ∀ s k o, s.registry.mapMasternodeCollateralOutpoints[k]? = some o → motive s →
      motive (registerOnChainMasternodePing E.toPingChecks view s k o nHeight none).2)
    (hs : motive s) (k : CPubKey) : motive (s.refresh E view k nHeight) := by
  rw [MasternodeState.refresh]
  split
  · exact hrefresh s k _ ‹_› hs
  · exact hs

/-- The signed data of a block: in its solutions, its coordinator's signature and its certificate. -/
def CarriesSigned (E : ActivityEnv) (block : CBlock) (vchSig : Bytes) : Prop :=
  (∃ m ∈ minersToVerify block, solutionSig m.1.2 = some vchSig) ∨ vchSig = block.vAdamCoordinatorSig ∨
    ∃ sigPair ∈ blockShares E block, vchSig = sigPair.2

/-- **The rule for connecting.** A property of the state survives the activity of a block if it
survives pins of keys that the block carries, the registration of the block's pings, that of a key with its own collateral, and
that of a key that signed a share of the block's certificate with the share's outpoint. -/
theorem registerBlock_induction (hs : motive s) (hpin : ∀ s k pk vchSig, CarriesSigned E block vchSig →
      extractBLSPubKeyFromSignedData vchSig = some pk → motive s → motive (s.pin k pk nHeight))
    (hping : ∀ s tx ping, tx ∈ block.vtx →
      extractOnChainMasternodePing E.toPingChecks tx = some ping → motive s →
      motive (registerOnChainMasternodePing E.toPingChecks view s ping.pubKeyMasternode
        ping.collateralOutpoint nHeight ping.inlineDel).2)
    (hrefresh : ∀ s k o, s.registry.mapMasternodeCollateralOutpoints[k]? = some o → motive s →
      motive (registerOnChainMasternodePing E.toPingChecks view s k o nHeight none).2)
    (hshare : ∀ s k sigPair, 11 ≤ block.nVersion → sigPair ∈ blockShares E block →
      verifyBLSWithECDSAFallback E.crypto s.pins (block.getHash E.crypto) k sigPair.2 = true →
      motive s →
      motive (registerOnChainMasternodePing E.toPingChecks view s k sigPair.1 nHeight none).2) :
    motive (registerBlockMasternodeActivity E view s block nHeight) := by
  have hpings : motive (block.vtx.foldl (registerPing E view nHeight) s) := by
    refine foldl_invariant hs fun tx htx s hs ↦ ?_
    rw [registerPing]
    split
    · exact hping s tx _ htx ‹_› hs
    · exact hs
  rw [registerBlockMasternodeActivity]
  split_ifs with hversion
  · have hsolutions : ∀ s, motive s →
        motive ((minersToVerify block).foldl (registerSolution E view block nHeight) s) := by
      intro s hs
      refine foldl_invariant hs fun m hm s hs ↦ ?_
      rw [registerSolution]
      split_ifs
      · exact hs
      · refine refresh_induction hrefresh ?_ _
        split
        · exact pinSigned_induction (fun s k pk ↦ hpin s k pk _ (.inl ⟨m, hm, ‹_›⟩)) hs _
        · exact hs
    have hcoordinator : ∀ s, motive s → motive (registerCoordinator E view block nHeight s) := by
      intro s hs
      rw [registerCoordinator]
      split
      · split
        · split_ifs
          · exact refresh_induction hrefresh (hpin s _ _ _ (.inr (.inl rfl)) ‹_› hs) _
          · exact hs
        · exact hs
      · exact hs
    have hquorum : ∀ s, motive s → motive (registerQuorum E view block nHeight s) := by
      intro s hs
      refine foldl_invariant hs fun sigPair hmem s hs ↦ ?_
      rw [registerShare]
      split
      · split_ifs with hverified
        · exact pinSigned_induction (fun s k pk ↦ hpin s k pk _ (.inr (.inr ⟨sigPair, hmem, rfl⟩)))
            (hshare s _ sigPair hversion hmem hverified hs) _
        · exact hs
      · exact hs
    exact hquorum _ (hcoordinator _ (hsolutions _ hpings))
  · exact hpings

/-- **The rule for searching.** A property of the state that survives registrations survives the
search of an earlier block. -/
theorem restore_induction (hs : motive s) (hregister : ∀ s k o inlineDel, motive s →
      motive (registerOnChainMasternodePing E.toPingChecks view s k o nHeight inlineDel).2)
    (k : CPubKey) (o : COutPoint) :
    motive (restoreMasternodeActivityFromBlock E view block nHeight k o s).2 := by
  have hrestored : ∀ s k o inlineDel, motive s →
      motive (registerRestored E view s k o nHeight inlineDel).2 := by
    intro s k o inlineDel hs
    have h := hregister s k o inlineDel hs
    rw [registerRestored]
    split <;> rename_i heq <;> rw [heq] at h <;> exact h
  have hpings : motive (block.vtx.tryEach (restorePing E view nHeight k o) s).2 := by
    refine tryEach_invariant hs fun tx _ s hs ↦ ?_
    rw [restorePing]
    split
    · split_ifs
      · exact hrestored s _ _ _ hs
      · exact hs
    · exact hs
  have hsolutions : ∀ s, motive s →
      motive ((minersToVerify block).tryEach (restoreSolution E view block nHeight k o) s).2 := by
    intro s hs
    refine tryEach_invariant hs fun m _ s hs ↦ ?_
    rw [restoreSolution]
    split_ifs
    · exact hrestored s _ _ _ hs
    · exact hs
  have hcoordinator : ∀ s, motive s → motive (restoreCoordinator E view block nHeight k o s).2 := by
    intro s hs
    simp only [restoreCoordinator]
    repeat' split
    all_goals first | exact hrestored s _ _ _ hs | exact hs
  have hshares : ∀ s quorum, motive s →
      motive ((blockShares E block).tryEach (restoreShare E view block nHeight k o quorum) s).2 := by
    intro s quorum hs
    refine tryEach_invariant hs fun sigPair _ s hs ↦ ?_
    simp only [restoreShare]
    repeat' split
    all_goals first | exact hrestored s _ _ _ hs | exact hs
  rw [restoreMasternodeActivityFromBlock]
  split
  · rename_i heq
    simpa only [heq] using hpings
  · rename_i s₁ heq
    rw [heq] at hpings
    split_ifs
    · exact hpings
    · have h₂ := hsolutions s₁ hpings
      split
      · rename_i heq
        simpa only [heq] using h₂
      · rename_i s₂ heq
        rw [heq] at h₂
        have h₃ := hcoordinator s₂ h₂
        split
        · rename_i heq
          simpa only [heq] using h₃
        · rename_i s₃ heq
          rw [heq] at h₃
          exact hshares s₃ _ h₃

/-- **The rule for restoring a key.** A property of the state that survives registrations at the
heights that are searched survives the search of the blocks below. -/
theorem scanAndRescan_induction (hs : motive s)
    (hregister : ∀ x ∈ scanHeights nHeight, ∀ s k o inlineDel, motive s →
      motive (registerOnChainMasternodePing E.toPingChecks view s k o x inlineDel).2)
    (readBlock : ℤ → Option CBlock) (k : CPubKey) (o : COutPoint) {x : ℤ}
    (hx : x ∈ scanHeights nHeight) :
    motive (scanAndRescan E view readBlock nHeight k o s x).2 := by
  have hscan : ∀ (k : CPubKey), ∀ x ∈ scanHeights nHeight, ∀ s, motive s →
      motive (scanBlock E view readBlock k o s x).2 := by
    intro k x hx s hs
    rw [scanBlock]
    split
    · exact hs
    · exact restore_induction hs (hregister x hx) k o
  have h₁ := hscan k x hx s hs
  rw [scanAndRescan]
  split
  · rename_i heq
    simpa only [heq] using h₁
  · rename_i restoredKey s₁ heq
    rw [heq] at h₁
    split_ifs
    · exact tryEach_invariant h₁ fun y hy s hs ↦ hscan restoredKey y (mem_of_mem_filter hy) s hs
    · exact h₁

end Rules

/-! ### Taking a height out -/

/-- What the undoing of a block holds for a key: its entry, whether it is to be restored, and the
collateral it is to be restored with. -/
def Emptied.atKey (a : Emptied) (k : CPubKey) :
    (Option Heights × Option ℤ × Option COutPoint) × Bool × Option COutPoint :=
  (a.state.registry.entry k, a.setEmptiedMasternodes.contains k, a.mapEmptiedCollaterals[k]?)

/-- `eraseHeight`, as it acts on what is held for its key. -/
def eraseAtKey (nHeight : ℤ)
    (v : (Option Heights × Option ℤ × Option COutPoint) × Bool × Option COutPoint) :
    (Option Heights × Option ℤ × Option COutPoint) × Bool × Option COutPoint :=
  match v.1.1 with
  | none => v
  | some setHeights =>
    if setHeights.contains nHeight then
      match Heights.last (setHeights.erase nHeight) with
      | some m => ((some (setHeights.erase nHeight), some m, v.1.2.2), v.2)
      | none => ((none, none, v.1.2.2), true, v.1.2.2.or v.2.2)
    else v

theorem atKey_eraseHeight_self (nHeight : ℤ) (a : Emptied) (k : CPubKey) :
    (eraseHeight nHeight a k).atKey k = eraseAtKey nHeight (a.atKey k) := by
  cases hA : a.state.registry.mapMasternodeActiveHeights[k]? with
  | none => simp [eraseHeight, eraseAtKey, Emptied.atKey, Registry.entry, hA]
  | some setHeights =>
    by_cases hmem : setHeights.contains nHeight = true
    · cases hmax : Heights.last (setHeights.erase nHeight) with
      | some m => simp [eraseHeight, eraseAtKey, Emptied.atKey, Registry.entry, hA, hmem, hmax]
      | none =>
        cases hC : a.state.registry.mapMasternodeCollateralOutpoints[k]? <;>
          simp [eraseHeight, eraseAtKey, Emptied.atKey, Registry.entry, hA, hmem, hmax, hC]
    · simp [eraseHeight, eraseAtKey, Emptied.atKey, Registry.entry, hA, hmem]

theorem atKey_eraseHeight_other (nHeight : ℤ) (a : Emptied) {k k' : CPubKey} (hk : k' ≠ k) :
    (eraseHeight nHeight a k).atKey k' = a.atKey k' := by
  have hk' := Ne.symm hk
  simp only [eraseHeight]
  split
  · rfl
  · split_ifs
    · split
      · simp [Emptied.atKey, Registry.entry, Std.ExtTreeMap.getElem?_insert, hk']
      · split <;> simp [Emptied.atKey, Registry.entry, Std.ExtTreeMap.getElem?_insert,
          Std.ExtTreeMap.getElem?_erase, Std.ExtTreeSet.contains_insert, hk']
    · rfl

theorem atKey_foldl_eraseHeight (nHeight : ℤ) (s : MasternodeState) (k : CPubKey) :
    (s.registry.mapMasternodeActiveHeights.keys.foldl (eraseHeight nHeight) ⟨s, ∅, ∅⟩).atKey k =
      eraseAtKey nHeight (s.registry.entry k, false, none) := by
  have hnodup : s.registry.mapMasternodeActiveHeights.keys.Nodup :=
    s.registry.mapMasternodeActiveHeights.distinct_keys.imp fun h heq ↦ h (by simp [heq])
  rw [foldl_local Emptied.atKey (atKey_eraseHeight_self nHeight)
    (fun a _ _ hk ↦ atKey_eraseHeight_other nHeight a hk) hnodup]
  have hinit : (⟨s, ∅, ∅⟩ : Emptied).atKey k = (s.registry.entry k, false, none) := by
    simp [Emptied.atKey]
  rw [hinit]
  split_ifs with hmem
  · rfl
  · have hA : s.registry.mapMasternodeActiveHeights[k]? = none := by
      simpa using hmem
    simp [eraseAtKey, Registry.entry, hA]

/-- What the first half does to a key: nothing if it was not active at the height; else it loses the
height, and if that was its only one it is marked together with its collateral. -/
theorem eraseHeights_cases (nHeight : ℤ) (s : MasternodeState) (k : CPubKey) :
    let a := eraseHeights nHeight s
    ((∀ S, s.registry.mapMasternodeActiveHeights[k]? = some S → nHeight ∉ S) ∧
      a.atKey k = (s.registry.entry k, false, none)) ∨
    (∃ S m, s.registry.mapMasternodeActiveHeights[k]? = some S ∧ nHeight ∈ S ∧
      Heights.last (S.erase nHeight) = some m ∧
      a.atKey k = ((some (S.erase nHeight), some m,
        s.registry.mapMasternodeCollateralOutpoints[k]?), false, none)) ∨
    (∃ S, s.registry.mapMasternodeActiveHeights[k]? = some S ∧ nHeight ∈ S ∧
      Heights.last (S.erase nHeight) = none ∧
      a.atKey k = ((none, none, s.registry.mapMasternodeCollateralOutpoints[k]?), true,
        s.registry.mapMasternodeCollateralOutpoints[k]?)) := by
  have h := atKey_foldl_eraseHeight nHeight s k
  intro a
  show (_ ∧ a.atKey k = _) ∨ _
  change a.atKey k = _ at h
  cases hA : s.registry.mapMasternodeActiveHeights[k]? with
  | none => exact Or.inl ⟨by simp, by simpa [eraseAtKey, Registry.entry, hA] using h⟩
  | some S =>
    by_cases hmem : nHeight ∈ S
    · cases hmax : Heights.last (S.erase nHeight) with
      | some m =>
        exact Or.inr (Or.inl ⟨S, m, rfl, hmem, hmax,
          by simpa [eraseAtKey, Registry.entry, hA, hmem, hmax] using h⟩)
      | none =>
        exact Or.inr (Or.inr ⟨S, rfl, hmem, hmax,
          by simpa [eraseAtKey, Registry.entry, hA, hmem, hmax] using h⟩)
    · exact Or.inl ⟨by rintro _ ⟨⟩; exact hmem, by simpa [eraseAtKey, Registry.entry, hA, hmem] using h⟩

theorem eraseHeights_state (nHeight : ℤ) (s : MasternodeState) :
    (eraseHeights nHeight s).state.delegations = s.delegations := by
  refine foldl_invariant (motive := fun a : Emptied ↦ a.state.delegations = s.delegations) rfl
    fun k _ a ha ↦ ?_
  simp only [eraseHeight]
  split
  · exact ha
  · split_ifs
    · split <;> exact ha
    · exact ha

/-! ### What holds along every run -/

/-- The invariant of the masternode state at a tip. -/
structure MasternodeState.Inv (s : MasternodeState) (nTip : ℤ) (pending : CPubKey → Prop) : Prop
    where
  registry : s.registry.Inv nTip pending
  delegations : s.delegations.WellFormed

def noPending : CPubKey → Prop := fun _ ↦ False

section Kept

variable {s : MasternodeState} {nHeight nTip : ℤ} {pending : CPubKey → Prop}

theorem MasternodeState.Inv.register (h : s.Inv nTip pending) (hle : nHeight ≤ nTip) (k : CPubKey)
    (o : COutPoint) (inlineDel : Option COnChainMasternodeDelegation) :
    (registerOnChainMasternodePing E.toPingChecks view s k o nHeight inlineDel).2.Inv nTip
      pending := by
  rw [registerOnChainMasternodePing]
  split_ifs
  · refine ⟨h.registry.bind hle k o, ?_⟩
    show (recordInlineDelegation E.toPingChecks view s.delegations k o nHeight inlineDel).WellFormed
    cases inlineDel with
    | none => exact h.delegations
    | some del =>
      rw [recordInlineDelegation]
      split_ifs
      · exact h.delegations.record
      · exact h.delegations
  · exact h

theorem MasternodeState.Inv.mono (h : s.Inv nTip pending) {nTip' : ℤ} (hle : nTip ≤ nTip') :
    s.Inv nTip' pending where
  registry :=
    { h.registry with
      heights := fun k S hS ↦
        ⟨(h.registry.heights k S hS).1, fun x hx ↦ ((h.registry.heights k S hS).2 x hx).trans hle⟩ }
  delegations := h.delegations

theorem MasternodeState.Inv.registerBlock (h : s.Inv (nHeight - 1) pending) (block : CBlock) :
    (registerBlockMasternodeActivity E view s block nHeight).Inv nHeight pending :=
  registerBlock_induction (motive := fun s ↦ s.Inv nHeight pending) (h.mono (by omega))
    (fun _ _ _ _ _ _ h ↦ ⟨h.registry, h.delegations⟩) (fun _ _ _ _ _ h ↦ h.register le_rfl _ _ _)
    (fun _ _ _ _ h ↦ h.register le_rfl _ _ _) (fun _ _ _ _ _ _ h ↦ h.register le_rfl _ _ _)

theorem mem_scanHeights {x : ℤ} (hx : x ∈ scanHeights nHeight) :
    0 < x ∧ nHeight - 2880 ≤ x ∧ x < nHeight := by
  simp only [scanHeights, mem_map, mem_range] at hx
  obtain ⟨i, hi, rfl⟩ := hx
  omega

theorem MasternodeState.Inv.scanAndRescan (h : s.Inv (nHeight - 1) pending)
    (readBlock : ℤ → Option CBlock) (k : CPubKey) (o : COutPoint) {x : ℤ}
    (hx : x ∈ scanHeights nHeight) :
    (scanAndRescan E view readBlock nHeight k o s x).2.Inv (nHeight - 1) pending := by
  refine scanAndRescan_induction (motive := fun s ↦ s.Inv (nHeight - 1) pending) h ?_ readBlock k o hx
  intro x hx s k o inlineDel h
  exact h.register (by have := (mem_scanHeights hx).2.2; omega) k o inlineDel

variable (E view) in
theorem MasternodeState.Inv.restoreKey (h : s.Inv (nHeight - 1) pending)
    (readBlock : ℤ → Option CBlock) (mapEmptiedCollaterals : Std.ExtTreeMap CPubKey COutPoint)
    (k : CPubKey) :
    (restoreKey E view readBlock nHeight mapEmptiedCollaterals s k).Inv (nHeight - 1)
      fun k' ↦ pending k' ∧ k' ≠ k := by
  refine tryEach_invariant
    (motive := fun s : MasternodeState ↦ s.Inv (nHeight - 1) fun k' ↦ pending k' ∧ k' ≠ k) ?_
    fun x hx s h ↦ h.scanAndRescan readBlock _ _ hx
  refine ⟨⟨h.registry.heights, ?_, ?_, ?_⟩, h.delegations⟩
  · intro k' l hl
    rw [Std.ExtTreeMap.getElem?_erase] at hl
    split at hl
    · simp at hl
    · exact h.registry.last k' l hl
  · intro k' o ho
    rw [Std.ExtTreeMap.getElem?_erase] at ho
    split at ho
    · simp at ho
    · rename_i hne
      refine (h.registry.bound k' o ho).imp id fun hp ↦ ⟨hp, ?_⟩
      rintro rfl
      simp at hne
  · intro k₁ k₂ o h₁ h₂
    rw [Std.ExtTreeMap.getElem?_erase] at h₁ h₂
    split at h₁
    · simp at h₁
    · split at h₂
      · simp at h₂
      · exact h.registry.injective k₁ k₂ o h₁ h₂

theorem MasternodeState.Inv.eraseHeights (h : s.Inv nHeight noPending) :
    (eraseHeights nHeight s).state.Inv (nHeight - 1)
      fun k ↦ (Masternode.eraseHeights nHeight s).setEmptiedMasternodes.contains k = true := by
  have hcases := eraseHeights_cases nHeight s
  have hdel := eraseHeights_state nHeight s
  generalize Masternode.eraseHeights nHeight s = a at hcases hdel
  refine ⟨⟨?_, ?_, ?_, ?_⟩, hdel ▸ h.delegations⟩
  · intro k S hS
    obtain ⟨hnot, ha⟩ | ⟨S', m, hS', -, hmax, ha⟩ | ⟨S', -, -, -, ha⟩ := hcases k <;>
      simp only [Emptied.atKey, Registry.entry, Prod.mk.injEq] at ha
    · obtain ⟨hne, hle⟩ := h.registry.heights k S (ha.1.1 ▸ hS)
      refine ⟨hne, fun x hx ↦ ?_⟩
      have := hle x hx
      have : x ≠ nHeight := fun heq ↦ hnot S (ha.1.1 ▸ hS) (heq ▸ hx)
      omega
    · rw [ha.1.1, Option.some.injEq] at hS
      subst hS
      refine ⟨⟨m, (Heights.last_eq_some_iff.mp hmax).1⟩, fun x hx ↦ ?_⟩
      obtain ⟨hne, hx⟩ := Heights.mem_erase.mp hx
      have := (h.registry.heights k S' hS').2 x hx
      omega
    · simp [ha.1.1] at hS
  · intro k l hl
    obtain ⟨-, ha⟩ | ⟨S, m, -, -, hmax, ha⟩ | ⟨S, -, -, -, ha⟩ := hcases k <;>
      simp only [Emptied.atKey, Registry.entry, Prod.mk.injEq] at ha
    · rw [ha.1.1]
      exact h.registry.last k l (ha.1.2.1 ▸ hl)
    · rw [ha.1.2.1, Option.some.injEq] at hl
      exact ⟨_, ha.1.1, hl ▸ hmax⟩
    · simp [ha.1.2.1] at hl
  · intro k o ho
    obtain ⟨-, ha⟩ | ⟨S, m, -, -, -, ha⟩ | ⟨S, -, -, -, ha⟩ := hcases k <;>
      simp only [Emptied.atKey, Registry.entry, Prod.mk.injEq] at ha
    · rw [ha.1.1]
      exact (h.registry.bound k o (ha.1.2.2 ▸ ho)).imp id False.elim
    · exact Or.inl ⟨_, ha.1.1⟩
    · exact Or.inr ha.2.1
  · have hC : ∀ k : CPubKey, a.state.registry.mapMasternodeCollateralOutpoints[k]? =
        s.registry.mapMasternodeCollateralOutpoints[k]? := by
      intro k
      obtain ⟨-, ha⟩ | ⟨S, m, -, -, -, ha⟩ | ⟨S, -, -, -, ha⟩ := hcases k <;>
        simp only [Emptied.atKey, Registry.entry, Prod.mk.injEq] at ha <;> exact ha.1.2.2
    intro k₁ k₂ o h₁ h₂
    exact h.registry.injective k₁ k₂ o (hC k₁ ▸ h₁) (hC k₂ ▸ h₂)

theorem Emptied.state_markInactive (a : Emptied) (k : CPubKey) (o : COutPoint) :
    (a.markInactive k o).state = a.state := by
  rw [markInactive]
  split_ifs <;> rfl

theorem Emptied.contains_markInactive (a : Emptied) (k : CPubKey) (o : COutPoint) {k' : CPubKey}
    (h : a.setEmptiedMasternodes.contains k' = true) :
    (a.markInactive k o).setEmptiedMasternodes.contains k' = true := by
  rw [markInactive]
  split_ifs
  · exact h
  · simp only [mark, Std.ExtTreeSet.contains_insert, h, Bool.or_true]

theorem revertDelegation_frame (nHeight : ℤ) (a : Emptied) (ping : MasternodePing) :
    (revertDelegation nHeight a ping).state.registry = a.state.registry ∧
    (∀ k, a.setEmptiedMasternodes.contains k = true →
      (revertDelegation nHeight a ping).setEmptiedMasternodes.contains k = true) ∧
    (a.state.delegations.WellFormed → (revertDelegation nHeight a ping).state.delegations.WellFormed) := by
  simp only [revertDelegation]
  split_ifs
  · simp only [Emptied.state_markInactive]
    exact ⟨trivial, fun _ h ↦ Emptied.contains_markInactive _ _ _ h, fun h ↦ h.revert⟩
  · exact ⟨rfl, fun _ h ↦ h, fun h ↦ h.revert⟩
  · exact ⟨rfl, fun _ h ↦ h, id⟩

variable (E) in
theorem revertPing_frame (nHeight : ℤ) (a : Emptied) (tx : CTransaction) :
    (revertPing E nHeight a tx).state.registry = a.state.registry ∧
    (∀ k, a.setEmptiedMasternodes.contains k = true →
      (revertPing E nHeight a tx).setEmptiedMasternodes.contains k = true) ∧
    (a.state.delegations.WellFormed → (revertPing E nHeight a tx).state.delegations.WellFormed) := by
  rw [revertPing]
  split
  · exact ⟨rfl, fun _ h ↦ h, id⟩
  · rename_i ping _
    obtain ⟨hR, hmono, hwf⟩ := revertDelegation_frame nHeight a ping
    rw [Emptied.state_markInactive]
    exact ⟨hR, fun k h ↦ Emptied.contains_markInactive _ _ _ (hmono k h), hwf⟩

variable (E view) in
theorem MasternodeState.Inv.foldl_restoreKey (h : s.Inv (nHeight - 1) pending)
    (readBlock : ℤ → Option CBlock) (mapEmptiedCollaterals : Std.ExtTreeMap CPubKey COutPoint)
    (ks : List CPubKey) :
    (ks.foldl (Masternode.restoreKey E view readBlock nHeight mapEmptiedCollaterals) s).Inv
      (nHeight - 1) fun k ↦ pending k ∧ k ∉ ks := by
  induction ks generalizing s pending with
  | nil => simpa using h
  | cons k ks ih =>
    have hk := ih (h.restoreKey E view readBlock mapEmptiedCollaterals k)
    refine ⟨{ hk.registry with bound := fun k' o ho ↦ ?_ }, hk.delegations⟩
    refine (hk.registry.bound k' o ho).imp id fun hp ↦ ⟨hp.1.1, ?_⟩
    simp [hp.1.2, hp.2]

theorem MasternodeState.Inv.disconnect (h : s.Inv nHeight noPending)
    (readBlock : ℤ → Option CBlock) (block : CBlock) :
    (disconnectMasternodes E view readBlock s block nHeight).Inv (nHeight - 1) noPending := by
  rw [disconnectMasternodes]
  have h₀ : MasternodeState.Inv { s with pins := s.pins.unpinBLSPubKeysAtHeight nHeight } nHeight
      noPending := ⟨h.registry, h.delegations⟩
  have h₁ := h₀.eraseHeights
  generalize Masternode.eraseHeights nHeight _ = a at h₁
  have h₂ : (block.vtx.foldl (revertPing E nHeight) a).state.Inv (nHeight - 1) fun k ↦
      (block.vtx.foldl (revertPing E nHeight) a).setEmptiedMasternodes.contains k = true := by
    refine foldl_invariant (motive := fun a : Emptied ↦ a.state.Inv (nHeight - 1) fun k ↦
      a.setEmptiedMasternodes.contains k = true) h₁ fun tx _ a h ↦ ?_
    obtain ⟨hR, hmono, hwf⟩ := revertPing_frame E nHeight a tx
    refine ⟨?_, hwf h.delegations⟩
    rw [hR]
    exact { h.registry with bound := fun k o ho ↦ (h.registry.bound k o ho).imp id (hmono k) }
  generalize block.vtx.foldl (revertPing E nHeight) a = a' at h₂
  have h₃ := h₂.foldl_restoreKey E view readBlock a'.mapEmptiedCollaterals a'.setEmptiedMasternodes.toList
  refine ⟨{ h₃.registry with bound := fun k o ho ↦ ?_ }, h₃.delegations⟩
  refine (h₃.registry.bound k o ho).imp id fun hp ↦ hp.2 ?_
  simpa using hp.1

end Kept

/-- The states a node can be in at a tip: from a chain of the genesis block only, blocks are
connected on top and the top block is disconnected, each time with whatever coins, elections and
blocks on disk there are. -/
inductive Reachable : MasternodeState → ℤ → Prop
  | start : Reachable ⟨Registry.empty, Delegations.empty, ∅⟩ 0
  | connect {s nTip} (E : ActivityEnv) (view : CoinLookup) (block : CBlock) : Reachable s nTip →
    Reachable (registerBlockMasternodeActivity E view s block (nTip + 1)) (nTip + 1)
  | disconnect {s nTip} (E : ActivityEnv) (view : CoinLookup) (readBlock : ℤ → Option CBlock)
    (block : CBlock) : Reachable s nTip →
    Reachable (disconnectMasternodes E view readBlock s block nTip) (nTip - 1)

theorem Reachable.inv {s : MasternodeState} {nTip : ℤ} (h : Reachable s nTip) : s.Inv nTip noPending := by
  induction h with
  | start => exact ⟨Registry.inv_empty 0, Delegations.wellFormed_empty⟩
  | @connect s nTip E view block _ ih =>
    refine MasternodeState.Inv.registerBlock ?_ block
    rwa [add_sub_cancel_right]
  | disconnect E view readBlock block _ ih => exact ih.disconnect readBlock block

end KristaTech.Masternode
