import KristaTech.Masternode.Consistency

/-!
# Blocks whose masternode activity can be undone

Disconnecting a block does not look up what the block changed: it takes the block's height out of
the registry and searches old blocks for the keys that are left without one. A block can be undone
in this way (`Undoable`) if it only refreshes keys with the collateral they are bound to, or
registers keys and collaterals that nothing in the searched blocks speaks for. What connecting such
a block makes of the state is said key by key (`Undoable.grown`).
-/

namespace KristaTech.Masternode

open Llmq UndoStack Option

/-! ### The condition -/

/-- A block speaks for a key with a collateral: in a ping, or in a share of its certificate that the
key signed. -/
inductive Participates (E : ActivityEnv) (block : CBlock) : CPubKey → COutPoint → Prop
  | ping {tx ping} : tx ∈ block.vtx → extractOnChainMasternodePing E.toPingChecks tx = some ping →
    Participates E block ping.pubKeyMasternode ping.collateralOutpoint
  | share {k sigPair} : 11 ≤ block.nVersion → sigPair ∈ blockShares E block →
    verifyBLSWithECDSAFallback E.crypto ∅ (block.getHash E.crypto) k sigPair.2 = true →
    Participates E block k sigPair.1

/-- Nothing in an earlier block is a sign of life of the key or of the collateral. -/
structure Silent (E : ActivityEnv) (k : CPubKey) (o : COutPoint) (block : CBlock) : Prop where
  pings : ∀ tx ∈ block.vtx, ∀ ping, extractOnChainMasternodePing E.toPingChecks tx = some ping →
    ping.pubKeyMasternode ≠ k ∧ ping.collateralOutpoint ≠ o
  solutions : ∀ m ∈ minersToVerify block, m.1.2 ≠ [] → m.1.1 ≠ k
  coordinator : ∀ signedData, CBLSSignedData.parse block.vAdamCoordinatorSig = some signedData →
    k.verify E.crypto (E.crypto.hash signedData.blsPubKey.data) signedData.ecdsaSig = false
  shares : ∀ sigPair ∈ blockShares E block, sigPair.1 ≠ o

/-- A key and a collateral that the registry does not know and that the blocks to be searched are
silent about. -/
structure FirstTime (E : ActivityEnv) (readBlock : ℤ → Option CBlock) (s : MasternodeState)
    (nHeight : ℤ) (k : CPubKey) (o : COutPoint) : Prop where
  inactive : s.registry.mapMasternodeActiveHeights[k]? = none
  unbound : ∀ k' : CPubKey, s.registry.mapMasternodeCollateralOutpoints[k']? ≠ some o
  silent : ∀ x ∈ scanHeights nHeight, ∀ b, readBlock x = some b → Silent E k o b

/-- A block at a height that can be undone from a state. -/
structure Undoable (E : ActivityEnv) (readBlock : ℤ → Option CBlock) (s : MasternodeState)
    (block : CBlock) (nHeight : ℤ) : Prop where
  /-- Every key the block speaks for is bound to the collateral already, or both are new. -/
  participants : ∀ k o, Participates E block k o →
    s.registry.mapMasternodeCollateralOutpoints[k]? = some o ∨ FirstTime E readBlock s nHeight k o
  /-- The block does not speak for a key with two collaterals or for a collateral with two keys. -/
  oneToOne : ∀ k o k' o', Participates E block k o → Participates E block k' o' → (k = k' ↔ o = o')
  /-- The collateral is not delegated, or has been delegated to this key by an earlier block. -/
  delegated : ∀ k o, Participates E block k o → s.delegations.mapOnChainCollateralDelegations[o]? = none ∨
    ∃ del f, s.delegations.mapOnChainCollateralDelegations[o]? = some del ∧
      del.pubKeyMasternode = k ∧ s.delegations.mapCollateralDelegationFirstHeight[o]? = some f ∧
      f < nHeight
  /-- Trimming does not drop the newest height of a bound key. -/
  kept : ∀ (k : CPubKey) o S m, s.registry.mapMasternodeCollateralOutpoints[k]? = some o →
    s.registry.mapMasternodeActiveHeights[k]? = some S → S.last = some m →
    S.size < 64 ∨ nHeight - 5760 ≤ m

variable {E : ActivityEnv} {view : CoinLookup} {readBlock : ℤ → Option CBlock}
  {s : MasternodeState} {block : CBlock} {nHeight : ℤ} {k : CPubKey} {o : COutPoint}

theorem verifyBLS_of_pins {C : Crypto} {pins : PinnedBLSPubKeys} {hash : Uint256} {sig : Bytes}
    (h : verifyBLSWithECDSAFallback C pins hash k sig = true) :
    verifyBLSWithECDSAFallback C ∅ hash k sig = true := by
  have hnone : PinnedBLSPubKeys.getPinnedBLSPubKey ∅ k = none := by
    simp [PinnedBLSPubKeys.getPinnedBLSPubKey]
  simp only [verifyBLSWithECDSAFallback, Bool.and_eq_true] at h ⊢
  refine ⟨h.1, ?_⟩
  have h₂ := h.2
  split at h₂
  · simp at h₂
  · simp only [Bool.and_eq_true, hnone, all_none] at h₂ ⊢
    exact ⟨⟨h₂.1.1, trivial⟩, h₂.2⟩

/-! ### Delegations -/

/-- The outpoint's delegation, if any, is to `k`, and either older than the height or the first
one. -/
def DelegatedTo (S : Delegations) (nHeight : ℤ) (k : CPubKey) (o : COutPoint) : Prop :=
  S.stack o = [] ∨ ∃ f del rest, S.stack o = (f, del) :: rest ∧ del.pubKeyMasternode = k ∧
    (f < nHeight ∨ rest = [])

namespace DelegatedTo

variable {S : Delegations}

theorem record (hS : S.WellFormed) (h : DelegatedTo S nHeight k o)
    {del : COnChainMasternodeDelegation} (hdel : del.pubKeyMasternode = k) :
    DelegatedTo (S.recordCollateralDelegationWithHistory o del nHeight) nHeight k o := by
  rw [DelegatedTo, Delegations.stack_record hS, if_pos rfl]
  right
  obtain hnil | ⟨f, d, rest, hstack, hkey, hor⟩ := h
  · exact ⟨nHeight, del, [], by simp [hnil, put], hdel, Or.inr rfl⟩
  · refine ⟨min f nHeight, del, rest.take 16, by simp [hstack, put, hkey, hdel], hdel, ?_⟩
    rcases hor with hlt | rfl
    · exact Or.inl (by omega)
    · exact Or.inr rfl

theorem record_other (hS : S.WellFormed) (h : DelegatedTo S nHeight k o) {o' : COutPoint}
    (ho : o' ≠ o) (del : COnChainMasternodeDelegation) :
    DelegatedTo (S.recordCollateralDelegationWithHistory o' del nHeight) nHeight k o := by
  rwa [DelegatedTo, Delegations.stack_record hS, if_neg ho]

theorem revert (hS : S.WellFormed) (h : DelegatedTo S nHeight k o) (k' : CPubKey) (o' : COutPoint) :
    DelegatedTo (S.revertOnChainCollateralDelegation o' k' nHeight).1 nHeight k o := by
  rw [DelegatedTo, Delegations.stack_revert hS]
  split_ifs with ho
  · subst ho
    obtain hnil | ⟨f, d, rest, hstack, hkey, hor⟩ := h
    · exact Or.inl (by rw [hnil, undo])
    · rw [hstack, undo]
      split_ifs with hundo
      · rcases hor with hlt | rfl
        · omega
        · exact Or.inl rfl
      · exact Or.inr ⟨f, d, rest, rfl, hkey, hor⟩
  · exact h

theorem revert_snd (hS : S.WellFormed) (h : DelegatedTo S nHeight k o) :
    (S.revertOnChainCollateralDelegation o k nHeight).2 = CPubKey.invalid := by
  simp only [Delegations.revertOnChainCollateralDelegation]
  split
  · rfl
  · rename_i del hdel
    obtain ⟨f', hf'⟩ := hS.first o del hdel
    obtain hnil | ⟨f, d, rest, hstack, -, hor⟩ := h
    · simp [Delegations.stack, hdel] at hnil
    · simp only [Delegations.stack, hdel, hf', getD_some, List.cons.injEq, Prod.mk.injEq] at hstack
      simp only [hf', getD_some]
      split_ifs with hrev
      · have hhist : S.mapCollateralDelegationHistory[o]?.getD [] = [] := by
          rcases hor with hlt | rfl
          · omega
          · simpa [Delegations.history] using hstack.2
        rw [hhist]
        rfl
      · rfl

/-- The delegate of a collateral that is delegated to `k` is `k`. -/
theorem eq_of_delegateKey (h : DelegatedTo s.delegations nHeight k o) {k' : CPubKey}
    (hk' : delegateKey s o = some k') : k' = k := by
  simp only [delegateKey, filter_eq_some_iff, map_eq_some_iff] at hk'
  obtain ⟨⟨del, hdel, rfl⟩, -⟩ := hk'
  obtain hnil | ⟨f, d, rest, hstack, hkey, -⟩ := h
  · simp [Delegations.stack, hdel] at hnil
  · simp only [Delegations.stack, hdel, List.cons.injEq, Prod.mk.injEq] at hstack
    rw [hstack.1.2, hkey]

end DelegatedTo

/-! ### Connecting -/

/-- What a block that can be undone has made of a key's entry so far. -/
inductive GrownAt (E : ActivityEnv) (readBlock : ℤ → Option CBlock) (s : MasternodeState)
    (block : CBlock) (nHeight : ℤ) (R : Registry) (k : CPubKey) : Prop
  /-- Nothing. -/
  | same : R.entry k = s.registry.entry k → GrownAt E readBlock s block nHeight R k
  /-- The height was added for the key's own collateral, and its newest height is still there. -/
  | refreshed {S₀ S m o} : s.registry.mapMasternodeActiveHeights[k]? = some S₀ →
    S₀.last = some m → s.registry.mapMasternodeCollateralOutpoints[k]? = some o →
    R.entry k = (some S, S.last, some o) → (∀ x ∈ S, x = nHeight ∨ x ∈ S₀) → m ∈ S →
    nHeight ∈ S → ((S.insert nHeight).size ≤ 64 ∨ nHeight - 5760 ≤ m) →
    GrownAt E readBlock s block nHeight R k
  /-- A new key was registered with a new collateral. -/
  | new {S o} : Participates E block k o → FirstTime E readBlock s nHeight k o →
    R.entry k = (some S, S.last, some o) → (∀ x, x ∈ S ↔ x = nHeight) →
    GrownAt E readBlock s block nHeight R k

/-- What connecting a block that can be undone has made of the state so far. -/
structure Grown (E : ActivityEnv) (readBlock : ℤ → Option CBlock) (s : MasternodeState)
    (block : CBlock) (nHeight : ℤ) (s' : MasternodeState) : Prop where
  inv : s'.Inv nHeight noPending
  registry : ∀ k, GrownAt E readBlock s block nHeight s'.registry k
  delegated : ∀ k o, Participates E block k o → DelegatedTo s'.delegations nHeight k o

theorem record_of_size_le {S : Heights} (h : (S.insert nHeight).size ≤ 64) :
    S.record nHeight = S.insert nHeight := by
  simp only [Heights.record, if_neg (by omega : ¬ 64 < (S.insert nHeight).size)]

theorem kept_record {S : Heights} {m : ℤ} (hm : m ∈ S)
    (h : (S.insert nHeight).size ≤ 64 ∨ nHeight - 5760 ≤ m) :
    m ∈ S.record nHeight ∧ (((S.record nHeight).insert nHeight).size ≤ 64 ∨ nHeight - 5760 ≤ m) := by
  rcases h with hsize | hle
  · have hrec := record_of_size_le hsize
    have hins : (S.insert nHeight).insert nHeight = S.insert nHeight :=
      Std.ExtTreeSet.ext_mem fun x ↦ by simp only [Heights.mem_insert]; tauto
    exact ⟨hrec ▸ Heights.mem_insert.mpr (Or.inr hm), Or.inl (by rwa [hrec, hins])⟩
  · exact ⟨Heights.mem_record hm (Or.inr hle), Or.inr hle⟩

variable {R : Registry}

theorem GrownAt.congr {R' : Registry} (h : GrownAt E readBlock s block nHeight R k)
    (he : R'.entry k = R.entry k) : GrownAt E readBlock s block nHeight R' k := by
  cases h with
  | same h => exact .same (he.trans h)
  | refreshed hA hm hC h hS hmS hh hkeep =>
    exact .refreshed hA hm hC (he.trans h) hS hmS hh hkeep
  | new hp hf h hS => exact .new hp hf (he.trans h) hS

/-- A key and a collateral that may be registered: bound to each other before the block, or both
new. -/
def Registrable (E : ActivityEnv) (readBlock : ℤ → Option CBlock) (s : MasternodeState)
    (block : CBlock) (nHeight : ℤ) (k : CPubKey) (o : COutPoint) : Prop :=
  s.registry.mapMasternodeCollateralOutpoints[k]? = some o ∨
    Participates E block k o ∧ FirstTime E readBlock s nHeight k o

theorem GrownAt.bound (h : GrownAt E readBlock s block nHeight R k)
    (ho : R.mapMasternodeCollateralOutpoints[k]? = some o) :
    Registrable E readBlock s block nHeight k o := by
  cases h with
  | same he =>
    simp only [Registry.entry, Prod.mk.injEq] at he
    exact Or.inl (he.2.2 ▸ ho)
  | refreshed _ _ hC he _ _ _ _ =>
    simp only [Registry.entry, Prod.mk.injEq] at he
    exact Or.inl (by rw [hC, ← ho, he.2.2])
  | new hp hf he _ =>
    simp only [Registry.entry, Prod.mk.injEq] at he
    rw [he.2.2, Option.some.injEq] at ho
    exact Or.inr (ho ▸ ⟨hp, hf⟩)

theorem Registrable.unique (hs : s.Inv (nHeight - 1) noPending)
    (hu : Undoable E readBlock s block nHeight) {k' : CPubKey}
    (h : Registrable E readBlock s block nHeight k o)
    (h' : Registrable E readBlock s block nHeight k' o) : k = k' := by
  rcases h with hC | ⟨hp, hf⟩ <;> rcases h' with hC' | ⟨hp', hf'⟩
  · exact hs.registry.injective k k' o hC hC'
  · exact absurd hC (hf'.unbound k)
  · exact absurd hC' (hf.unbound k')
  · exact (hu.oneToOne k o k' o hp hp').mpr rfl

theorem GrownAt.bind_self (hs : s.Inv (nHeight - 1) noPending)
    (hu : Undoable E readBlock s block nHeight) {R' : Registry}
    (h : GrownAt E readBlock s block nHeight R k)
    (hko : Registrable E readBlock s block nHeight k o)
    (he' : R'.entry k = (let S := (R.mapMasternodeActiveHeights[k]?.getD ∅).record nHeight
      (some S, S.last, some o))) : GrownAt E readBlock s block nHeight R' k := by
  -- a bound key has been active, so it is not one of the new keys
  have hactive : ∀ o, s.registry.mapMasternodeCollateralOutpoints[k]? = some o →
      ∃ S, s.registry.mapMasternodeActiveHeights[k]? = some S :=
    fun o ho ↦ (hs.registry.bound k o ho).resolve_right id
  cases h with
  | same he =>
    simp only [Registry.entry, Prod.mk.injEq] at he
    rw [he.1] at he'
    rcases hko with hC | ⟨hp, hf⟩
    · obtain ⟨S, hS⟩ := hactive o hC
      obtain ⟨x, hx⟩ := (hs.registry.heights k S hS).1
      obtain ⟨m, hm⟩ := Heights.exists_last hx
      have hkeep : (S.insert nHeight).size ≤ 64 ∨ nHeight - 5760 ≤ m := by
        refine (hu.kept k o S m hC hS hm).imp_left fun hlt ↦ ?_
        have := Std.ExtTreeSet.size_insert_le (t := S) (k := nHeight)
        omega
      rw [hS, getD_some] at he'
      obtain ⟨hmem, hkeep'⟩ := kept_record (Heights.last_eq_some_iff.mp hm).1 hkeep
      exact .refreshed hS hm hC he' (fun x hx ↦ Heights.mem_of_mem_record hx) hmem
        (Heights.self_mem_record S nHeight) hkeep'
    · rw [hf.inactive, getD_none] at he'
      refine .new hp hf he' fun x ↦ ⟨fun hx ↦ ?_, fun hx ↦ hx ▸ Heights.self_mem_record _ _⟩
      simpa using Heights.mem_of_mem_record hx
  | @refreshed S₀ S m o₁ hA hm hC he hS hmS hh hkeep =>
    simp only [Registry.entry, Prod.mk.injEq] at he
    rw [he.1, getD_some] at he'
    rcases hko with hC' | ⟨-, hf⟩
    · rw [hC, Option.some.injEq] at hC'
      subst hC'
      obtain ⟨hmem, hkeep'⟩ := kept_record hmS hkeep
      refine .refreshed hA hm hC he' (fun x hx ↦ ?_) hmem (Heights.self_mem_record S nHeight) hkeep'
      rcases Heights.mem_of_mem_record hx with hx | hx
      · exact Or.inl hx
      · exact hS x hx
    · simp [hf.inactive] at hA
  | @new S o₁ hp hf he hS =>
    simp only [Registry.entry, Prod.mk.injEq] at he
    rw [he.1, getD_some] at he'
    rcases hko with hC | ⟨hp', -⟩
    · obtain ⟨S, hS⟩ := hactive o hC
      simp [hf.inactive] at hS
    · obtain rfl : o₁ = o := (hu.oneToOne k o₁ k o hp hp').mp rfl
      refine .new hp hf he' fun x ↦ ⟨fun hx ↦ ?_, fun hx ↦ hx ▸ Heights.self_mem_record _ _⟩
      rcases Heights.mem_of_mem_record hx with hx | hx
      · exact hx
      · exact (hS x).mp hx

/-- **One registration** of a registrable key. -/
theorem GrownAt.bind (hs : s.Inv (nHeight - 1) noPending)
    (hu : Undoable E readBlock s block nHeight) (h : ∀ k, GrownAt E readBlock s block nHeight R k)
    (hko : Registrable E readBlock s block nHeight k o) (k' : CPubKey) :
    GrownAt E readBlock s block nHeight (R.bind k o nHeight) k' := by
  have he := Registry.entry_bind R k o nHeight k'
  split_ifs at he with hk ho
  · subst hk
    exact (h k').bind_self hs hu hko he
  · exact absurd (Registrable.unique hs hu ((h k').bound ho) hko) hk
  · exact (h k').congr he

theorem Grown.register (hs : s.Inv (nHeight - 1) noPending)
    (hu : Undoable E readBlock s block nHeight) {s' : MasternodeState}
    (h : Grown E readBlock s block nHeight s')
    (hko : Registrable E readBlock s block nHeight k o)
    {inlineDel : Option COnChainMasternodeDelegation}
    (hdel : inlineDel = none ∨ Participates E block k o) :
    Grown E readBlock s block nHeight
      (registerOnChainMasternodePing E.toPingChecks view s' k o nHeight inlineDel).2 := by
  refine ⟨h.inv.register le_rfl k o inlineDel, ?_, ?_⟩ <;> rw [registerOnChainMasternodePing] <;> split_ifs
  · exact fun k' ↦ GrownAt.bind hs hu h.registry hko k'
  · exact h.registry
  · intro k' o' hp
    show DelegatedTo (recordInlineDelegation E.toPingChecks view s'.delegations k o nHeight
      inlineDel) nHeight k' o'
    cases inlineDel with
    | none => exact h.delegated k' o' hp
    | some del =>
      have hp' := hdel.resolve_left (by simp)
      rw [recordInlineDelegation]
      split_ifs with hauth
      · by_cases ho : o = o'
        · subst ho
          obtain rfl : k' = k := (hu.oneToOne k' o k o hp hp').mpr rfl
          -- a delegation is recorded for the key that is registered only
          have hkey : del.pubKeyMasternode = k' := by
            obtain ⟨coin, -, hcoin⟩ := (any_eq_true ..).mp hauth
            simp only [delegates, Bool.and_eq_true, beq_iff_eq] at hcoin
            exact hcoin.2.1.1.1
          exact (h.delegated k' o hp).record h.inv.delegations hkey
        · exact (h.delegated k' o' hp).record_other h.inv.delegations ho del
      · exact h.delegated k' o' hp
  · exact h.delegated

variable (view) in
theorem Undoable.grown (hs : s.Inv (nHeight - 1) noPending) (hu : Undoable E readBlock s block nHeight) :
    Grown E readBlock s block nHeight (registerBlockMasternodeActivity E view s block nHeight) := by
  have hparticipant : ∀ k o, Participates E block k o →
      Registrable E readBlock s block nHeight k o := fun k o hp ↦
    (hu.participants k o hp).imp_right fun hf ↦ ⟨hp, hf⟩
  refine registerBlock_induction (motive := fun s' ↦ Grown E readBlock s block nHeight s')
    ⟨hs.mono (by omega), fun k ↦ .same rfl, fun k o hp ↦ ?_⟩
    (fun s' k pk _ _ _ h ↦ ⟨⟨h.inv.registry, h.inv.delegations⟩, h.registry, h.delegated⟩)
    (fun s' tx ping htx hping h ↦ ?_) (fun s' k o hC h ↦ ?_) (fun s' k sigPair hv hmem hsig h ↦ ?_)
  · obtain hnone | ⟨del, f, hdel, hkey, hf, hlt⟩ := hu.delegated k o hp
    · exact Or.inl (by simp [Delegations.stack, hnone])
    · exact Or.inr ⟨f, del, (s.delegations.history o).reverse,
        by simp [Delegations.stack, hdel, hf], hkey, Or.inl hlt⟩
  · have hp : Participates E block ping.pubKeyMasternode ping.collateralOutpoint := .ping htx hping
    exact h.register hs hu (hparticipant _ _ hp) (Or.inr hp)
  · exact h.register hs hu ((h.registry k).bound hC) (Or.inl rfl)
  · exact h.register hs hu (hparticipant _ _ (.share hv hmem (verifyBLS_of_pins hsig))) (Or.inl rfl)

end KristaTech.Masternode
