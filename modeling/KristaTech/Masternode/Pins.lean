import KristaTech.Masternode.ActivityUndo

/-!
# The pinned BLS keys

The BLS key that a masternode key first signs with in a block is pinned to it, at the height of the block, and
disconnecting a block takes out the pins of its height. So the table of pins depends on the blocks of the
chain alone: it has, for every key, the first BLS key that one of them asked for, however often blocks were
connected and disconnected on the way (`pinned_to_first`).
-/

namespace KristaTech.Masternode

open Llmq List Option

/-! ### Disconnecting -/

section Disconnecting

variable (E : ActivityEnv) (view : CoinLookup) (readBlock : ℤ → Option CBlock)

theorem pins_restoreKey (nHeight : ℤ) (m : Std.ExtTreeMap CPubKey COutPoint) (s : MasternodeState)
    (k : CPubKey) : (restoreKey E view readBlock nHeight m s k).pins = s.pins := by
  refine tryEach_invariant (motive := fun s' : MasternodeState ↦ s'.pins = s.pins) rfl fun x hx s' hs' ↦ ?_
  refine scanAndRescan_induction (motive := fun s' ↦ s'.pins = s.pins) hs' ?_ readBlock _ _ hx
  intro x _ s' k o inlineDel hs'
  rw [registerOnChainMasternodePing]
  split_ifs <;> exact hs'

theorem pins_revertPing (nHeight : ℤ) (a : Emptied) (tx : CTransaction) :
    (revertPing E nHeight a tx).state.pins = a.state.pins := by
  rw [revertPing]
  split
  · rfl
  · simp only [Emptied.state_markInactive, revertDelegation]
    split_ifs <;> simp [Emptied.state_markInactive]

theorem pins_eraseHeights (nHeight : ℤ) (s : MasternodeState) :
    (eraseHeights nHeight s).state.pins = s.pins := by
  refine foldl_invariant (motive := fun a : Emptied ↦ a.state.pins = s.pins) rfl fun k _ a ha ↦ ?_
  simp only [eraseHeight]
  repeat' split
  all_goals exact ha

theorem pins_disconnectMasternodes (s : MasternodeState) (block : CBlock) (nHeight : ℤ) :
    (disconnectMasternodes E view readBlock s block nHeight).pins =
      s.pins.unpinBLSPubKeysAtHeight nHeight := by
  simp only [disconnectMasternodes]
  set s₀ : MasternodeState := { s with pins := s.pins.unpinBLSPubKeysAtHeight nHeight }
  have h₁ : (block.vtx.foldl (revertPing E nHeight) (eraseHeights nHeight s₀)).state.pins =
      s₀.pins :=
    foldl_invariant (motive := fun a : Emptied ↦ a.state.pins = s₀.pins)
      (pins_eraseHeights nHeight s₀) fun tx _ a ha ↦ (pins_revertPing E nHeight a tx).trans ha
  exact foldl_invariant (motive := fun s' : MasternodeState ↦ s'.pins = s₀.pins) h₁
    fun k _ s' hs' ↦ (pins_restoreKey E view readBlock nHeight _ s' k).trans hs'

theorem getElem?_unpin (nHeight : ℤ) (pins : PinnedBLSPubKeys) (k : CPubKey) :
    (pins.unpinBLSPubKeysAtHeight nHeight)[k]? = pins[k]?.filter (·.2 ≠ nHeight) := by
  rw [PinnedBLSPubKeys.unpinBLSPubKeysAtHeight, Std.ExtTreeMap.getElem?_filter']

end Disconnecting

/-! ### The pins that a block asks for -/

/-- A loop with the values that its turns emit. -/
def foldLog {σ α β : Type} (step : σ → α → σ) (emit : σ → α → Option β) : List α → σ → List β
  | [], _ => []
  | a :: as, s => (emit s a).toList ++ foldLog step emit as (step s a)

/-- The pin of the BLS key in signed data. -/
def askedPin (k : CPubKey) (vchSig : Bytes) : Option (CPubKey × CBLSPubKey) :=
  ((extractBLSPubKeyFromSignedData vchSig).filter fun pk ↦ k.isValid && pk.fValid).map (k, ·)

section Asked

variable (E : ActivityEnv) (view : CoinLookup) (block : CBlock) (nHeight : ℤ)

/-- The pin of a solution that is registered. -/
def solutionPin (s : MasternodeState) (m : (CPubKey × Bytes) × ℕ) : Option (CPubKey × CBLSPubKey) :=
  if m.1.2.isEmpty || !m.1.1.isValid || E.getAdamSeed block.hashPrevBlock == 0 ||
    !verifyBlockSolution E block nHeight s.pins m then none
  else (solutionSig m.1.2).bind (askedPin m.1.1)

/-- The pin of the coordinator. -/
def coordinatorPin (s : MasternodeState) : Option (CPubKey × CBLSPubKey) := do
  let signedData ← CBLSSignedData.parse block.vAdamCoordinatorSig
  let k ← matchedCoordKey E block nHeight s signedData
  guard (verifyBLSWithECDSAFallback E.crypto s.pins (block.getHash E.crypto) k block.vAdamCoordinatorSig)
  askedPin k block.vAdamCoordinatorSig

/-- The pin of a share of the certificate. -/
def sharePin (quorum : CQuorum) (s : MasternodeState) (sigPair : COutPoint × Bytes) :
    Option (CPubKey × CBLSPubKey) := do
  let k ← shareKey quorum s sigPair.1
  guard (verifyBLSWithECDSAFallback E.crypto s.pins (block.getHash E.crypto) k sigPair.2)
  askedPin k sigPair.2

/-- The pins that `RegisterBlockMasternodeActivity` asks for, in their order. -/
def blockPins (s : MasternodeState) : List (CPubKey × CBLSPubKey) :=
  if 11 ≤ block.nVersion then
    let s₁ := block.vtx.foldl (registerPing E view nHeight) s
    let s₂ := (minersToVerify block).foldl (registerSolution E view block nHeight) s₁
    let s₃ := registerCoordinator E view block nHeight s₂
    let quorum := E.getActiveQuorum none s₃ nHeight (some block.hashPrevBlock)
    foldLog (registerSolution E view block nHeight) (solutionPin E block nHeight) (minersToVerify block) s₁ ++
      ((coordinatorPin E block nHeight s₂).toList ++
        foldLog (registerShare E view block nHeight quorum) (sharePin E block quorum) (blockShares E block) s₃)
  else []

end Asked

/-- The pins, one after the other. -/
def pinAll (nHeight : ℤ) (asked : List (CPubKey × CBLSPubKey)) (pins : PinnedBLSPubKeys) : PinnedBLSPubKeys :=
  asked.foldl (fun pins p ↦ (pins.pinBLSPubKey p.1 p.2 nHeight).2) pins

section Connecting

variable {E : ActivityEnv} {view : CoinLookup} {block : CBlock} {nHeight : ℤ} {s : MasternodeState}
  {k : CPubKey} {asked : List (CPubKey × CBLSPubKey)} {pins : PinnedBLSPubKeys}

theorem pins_register (o : COutPoint) (inlineDel : Option COnChainMasternodeDelegation) :
    (registerOnChainMasternodePing E.toPingChecks view s k o nHeight inlineDel).2.pins = s.pins := by
  rw [registerOnChainMasternodePing]
  split_ifs <;> rfl

theorem pins_refresh : (s.refresh E view k nHeight).pins = s.pins := by
  rw [MasternodeState.refresh]
  split
  · exact pins_register _ _
  · rfl

theorem pins_pinSigned (vchSig : Bytes) :
    (s.pinSigned k vchSig nHeight).pins = pinAll nHeight (askedPin k vchSig).toList s.pins := by
  rw [MasternodeState.pinSigned, askedPin]
  cases extractBLSPubKeyFromSignedData vchSig with
  | none => rfl
  | some pk =>
    rw [filter_some]
    split_ifs with hvalid
    · rfl
    · show (s.pins.pinBLSPubKey k pk nHeight).2 = s.pins
      rw [PinnedBLSPubKeys.pinBLSPubKey, if_pos]
      cases hk : k.isValid <;> simp_all

theorem pins_foldLog {α : Type} {step : MasternodeState → α → MasternodeState}
    {emit : MasternodeState → α → Option (CPubKey × CBLSPubKey)}
    (hstep : ∀ s a, (step s a).pins = pinAll nHeight (emit s a).toList s.pins) (as : List α)
    (s : MasternodeState) : (as.foldl step s).pins = pinAll nHeight (foldLog step emit as s) s.pins := by
  induction as generalizing s with
  | nil => rfl
  | cons a as ih => rw [foldl_cons, ih, hstep, pinAll, pinAll, pinAll, foldLog, foldl_append]

theorem pins_registerSolution (s : MasternodeState) (m : (CPubKey × Bytes) × ℕ) :
    (registerSolution E view block nHeight s m).pins =
      pinAll nHeight (solutionPin E block nHeight s m).toList s.pins := by
  rw [registerSolution, solutionPin]
  split_ifs
  · rfl
  · rw [pins_refresh]
    cases solutionSig m.1.2 with
    | none => rfl
    | some vchSig => exact pins_pinSigned vchSig

theorem pins_registerCoordinator : (registerCoordinator E view block nHeight s).pins =
    pinAll nHeight (coordinatorPin E block nHeight s).toList s.pins := by
  rw [registerCoordinator, coordinatorPin]
  cases CBLSSignedData.parse block.vAdamCoordinatorSig with
  | none => cases extractBLSPubKeyFromSignedData block.vAdamCoordinatorSig <;> rfl
  | some signedData =>
    cases hextract : extractBLSPubKeyFromSignedData block.vAdamCoordinatorSig with
    | none => simp [askedPin, hextract, pinAll]
    | some pk =>
      dsimp only [bind_eq_bind, bind_some]
      cases matchedCoordKey E block nHeight s signedData with
      | none => rfl
      | some k =>
        have hsigned : (s.pinSigned k block.vAdamCoordinatorSig nHeight).pins = _ := pins_pinSigned _
        rw [MasternodeState.pinSigned, hextract] at hsigned
        dsimp only
        split_ifs with hverified
        · simpa [hverified, pins_refresh] using hsigned
        · simp [hverified, pinAll]

theorem pins_registerShare (quorum : CQuorum) (s : MasternodeState) (sigPair : COutPoint × Bytes) :
    (registerShare E view block nHeight quorum s sigPair).pins =
      pinAll nHeight (sharePin E block quorum s sigPair).toList s.pins := by
  rw [registerShare, sharePin]
  cases shareKey quorum s sigPair.1 with
  | none => rfl
  | some k =>
    dsimp only
    split_ifs with hverified
    · simp [hverified, pins_pinSigned, pins_register]
    · simp [hverified, pinAll]

/-- **What a block pins.** -/
theorem pins_registerBlock : (registerBlockMasternodeActivity E view s block nHeight).pins =
    pinAll nHeight (blockPins E view block nHeight s) s.pins := by
  have hpings : (block.vtx.foldl (registerPing E view nHeight) s).pins = s.pins := by
    refine foldl_invariant (motive := fun s' : MasternodeState ↦ s'.pins = s.pins) rfl fun tx _ s' hs' ↦ ?_
    rw [registerPing]
    split
    · exact (pins_register _ _).trans hs'
    · exact hs'
  rw [registerBlockMasternodeActivity, blockPins]
  split_ifs
  · simp only [registerQuorum]
    rw [pins_foldLog (pins_registerShare _), pins_registerCoordinator, pins_foldLog pins_registerSolution, hpings,
      pinAll, pinAll, pinAll, ← foldl_append, ← foldl_append, pinAll]
  · exact hpings

variable {p : CPubKey × CBLSPubKey}

/-- What is asked for is valid. -/
theorem valid_of_mem_askedPin {vchSig : Bytes} (h : askedPin k vchSig = some p) :
    p.1.isValid = true ∧ p.2.fValid = true := by
  simp only [askedPin, map_eq_some_iff, filter_eq_some_iff, Bool.and_eq_true] at h
  obtain ⟨pk, ⟨-, hvalid⟩, rfl⟩ := h
  exact hvalid

theorem valid_of_mem_foldLog {α : Type} {step : MasternodeState → α → MasternodeState}
    {emit : MasternodeState → α → Option (CPubKey × CBLSPubKey)} {as : List α}
    (hemit : ∀ s a p, emit s a = some p → p.1.isValid = true ∧ p.2.fValid = true)
    (hp : p ∈ foldLog step emit as s) : p.1.isValid = true ∧ p.2.fValid = true := by
  induction as generalizing s with
  | nil => exact absurd hp not_mem_nil
  | cons a as ih =>
    rcases mem_append.1 hp with hp | hp
    · exact hemit s a p (mem_toList.1 hp)
    · exact ih hp

theorem valid_of_mem_blockPins (hp : p ∈ blockPins E view block nHeight s) :
    p.1.isValid = true ∧ p.2.fValid = true := by
  rw [blockPins] at hp
  split_ifs at hp
  · simp only [mem_append, mem_toList] at hp
    rcases hp with hp | hp | hp
    · refine valid_of_mem_foldLog (fun s m p hp ↦ ?_) hp
      rw [solutionPin] at hp
      split_ifs at hp
      obtain ⟨_, -, hp⟩ := bind_eq_some_iff.1 hp
      exact valid_of_mem_askedPin hp
    · simp only [coordinatorPin, bind_eq_bind, bind_eq_some_iff] at hp
      obtain ⟨_, -, _, -, _, -, hp⟩ := hp
      exact valid_of_mem_askedPin hp
    · refine valid_of_mem_foldLog (fun s m p hp ↦ ?_) hp
      simp only [sharePin, bind_eq_bind, bind_eq_some_iff] at hp
      obtain ⟨_, -, _, -, hp⟩ := hp
      exact valid_of_mem_askedPin hp
  · exact absurd hp not_mem_nil

/-- The first pin of a key stays. -/
theorem getElem?_pinAll (hvalid : ∀ p ∈ asked, p.1.isValid = true ∧ p.2.fValid = true) (k : CPubKey) :
    (pinAll nHeight asked pins)[k]? =
      pins[k]?.or ((asked.find? (·.1 == k)).map fun p ↦ (p.2, nHeight)) := by
  induction asked generalizing pins with
  | nil => exact or_none.symm
  | cons p asked ih =>
    obtain ⟨⟨hk, hpk⟩, hvalid⟩ := forall_mem_cons.1 hvalid
    have hpin : (pins.pinBLSPubKey p.1 p.2 nHeight).2[k]? =
        pins[k]?.or (if p.1 = k then some (p.2, nHeight) else none) := by
      simp only [PinnedBLSPubKeys.pinBLSPubKey, hk, hpk, Bool.not_true, Bool.or_self, Bool.false_eq_true,
        if_false]
      cases hold : pins[p.1]? with
      | some old =>
        by_cases heq : p.1 = k
        · simp [← heq, hold]
        · simp [heq]
      | none =>
        rw [Std.ExtTreeMap.getElem?_insert]
        by_cases heq : p.1 = k
        · simp [← heq, hold]
        · simp [heq]
    show (pinAll nHeight asked (pins.pinBLSPubKey p.1 p.2 nHeight).2)[k]? = _
    rw [ih hvalid, hpin, Option.or_assoc, find?_cons]
    by_cases heq : p.1 = k
    · simp [heq]
    · simp [heq, beq_false_of_ne heq]

end Connecting

/-! ### Runs -/

/-- A run of connected and disconnected blocks, with the pins that the blocks of the chain have asked for, last
block first. Heights count from the genesis block. -/
inductive PinRun : List (List (CPubKey × CBLSPubKey)) → MasternodeState → Prop
  | start {s : MasternodeState} : s.pins = ∅ → PinRun [] s
  | connect {blocks : List (List (CPubKey × CBLSPubKey))} {s : MasternodeState} (E : ActivityEnv)
    (view : CoinLookup) (block : CBlock) : PinRun blocks s →
    PinRun (blockPins E view block (blocks.length + 1) s :: blocks)
      (registerBlockMasternodeActivity E view s block (blocks.length + 1))
  | disconnect {asked : List (CPubKey × CBLSPubKey)} {blocks : List (List (CPubKey × CBLSPubKey))}
    {s : MasternodeState} (E : ActivityEnv) (view : CoinLookup) (readBlock : ℤ → Option CBlock)
    (block : CBlock) : PinRun (asked :: blocks) s →
    PinRun blocks (disconnectMasternodes E view readBlock s block (blocks.length + 1))

/-- The registrations of a chain, first one first: the key, its BLS key and the height. -/
def chainPins : List (List (CPubKey × CBLSPubKey)) → List (CPubKey × CBLSPubKey × ℤ)
  | [] => []
  | asked :: blocks => chainPins blocks ++ asked.map fun p ↦ (p.1, p.2, (blocks.length + 1 : ℤ))

section Runs

variable {blocks : List (List (CPubKey × CBLSPubKey))} {s : MasternodeState}

theorem le_of_mem_chainPins {p : CPubKey × CBLSPubKey × ℤ} (hp : p ∈ chainPins blocks) :
    p.2.2 ≤ blocks.length := by
  induction blocks with
  | nil => exact absurd hp not_mem_nil
  | cons asked blocks ih =>
    rw [length_cons, Nat.cast_add_one]
    rcases mem_append.1 hp with hp | hp
    · exact (ih hp).trans (Int.le_add_one le_rfl)
    · obtain ⟨q, -, rfl⟩ := mem_map.1 hp
      exact le_rfl

theorem PinRun.fValid (h : PinRun blocks s) : ∀ p ∈ chainPins blocks, p.2.1.fValid = true := by
  induction h with
  | start => exact forall_mem_nil _
  | connect E view block _ ih =>
    refine forall_mem_append.2 ⟨ih, fun p hp ↦ ?_⟩
    obtain ⟨q, hq, rfl⟩ := mem_map.1 hp
    exact (valid_of_mem_blockPins hq).2
  | disconnect E view readBlock block _ ih => exact (forall_mem_append.1 ih).1

theorem find?_chainPins_cons (asked : List (CPubKey × CBLSPubKey)) (k : CPubKey) :
    ((chainPins (asked :: blocks)).find? (·.1 == k)).map (·.2) =
      (((chainPins blocks).find? (·.1 == k)).map (·.2)).or
        ((asked.find? (·.1 == k)).map fun p ↦ (p.2, (blocks.length + 1 : ℤ))) := by
  rw [chainPins, find?_append, Option.map_or, find?_map, Option.map_map]
  rfl

theorem PinRun.getElem?_pins (h : PinRun blocks s) (k : CPubKey) :
    s.pins[k]? = ((chainPins blocks).find? (·.1 == k)).map (·.2) := by
  induction h with
  | start hs =>
    rw [hs]
    exact Std.ExtTreeMap.getElem?_empty
  | connect E view block _ ih =>
    rw [pins_registerBlock, getElem?_pinAll fun p ↦ valid_of_mem_blockPins, find?_chainPins_cons, ih]
  | @disconnect asked blocks s E view readBlock block _ ih =>
    rw [pins_disconnectMasternodes, getElem?_unpin, ih, find?_chainPins_cons]
    cases hfind : (chainPins blocks).find? (·.1 == k) with
    | none =>
      cases asked.find? (·.1 == k) with
      | none => rfl
      | some p => simp
    | some p =>
      have hle := le_of_mem_chainPins (mem_of_find?_eq_some hfind)
      have hne : p.2.2 ≠ blocks.length + 1 := by omega
      simp [hne]

/-- **Every key is pinned to its first BLS key.** In every state of a run a key has the pin of its first
registration in the current chain and no other; signed data with another BLS key is not accepted for it; and the
pins are those of every other state with this chain, so that disconnecting blocks brings the pins of the lower
tip back. -/
theorem pinned_to_first (h : PinRun blocks s) :
    (∀ k, s.pins[k]? = ((chainPins blocks).find? (·.1 == k)).map (·.2)) ∧
      (∀ C hash k pk nHeight vchSig, s.pins[k]? = some (pk, nHeight) →
        verifyBLSWithECDSAFallback C s.pins hash k vchSig = true →
        ∃ d, CBLSSignedData.parse vchSig = some d ∧ d.blsPubKey = pk) ∧
      ∀ s', PinRun blocks s' → s'.pins = s.pins := by
  refine ⟨h.getElem?_pins, fun C hash k pk nHeight vchSig hpin hverified ↦ ?_, fun s' hs' ↦ ?_⟩
  · obtain ⟨-, hk, d, hd, -, -, -, hpinned, -⟩ := verifyBLSWithECDSAFallback_eq_true_iff.1 hverified
    refine ⟨d, hd, hpinned pk ?_⟩
    have hfirst := hpin
    rw [h.getElem?_pins, map_eq_some_iff] at hfirst
    obtain ⟨p, hp, heq⟩ := hfirst
    have hvalid : p.2.1.fValid = true := h.fValid p (mem_of_find?_eq_some hp)
    rw [heq] at hvalid
    simpa [PinnedBLSPubKeys.getPinnedBLSPubKey, hk, hpin] using hvalid
  · exact Std.ExtTreeMap.ext_getElem? fun k ↦ (hs'.getElem?_pins k).trans (h.getElem?_pins k).symm

/-- A coordinator's signature of the example key. -/
def exampleSignedBlock : CBlock :=
  { examplePingBlock 1 with
    nVersion := 12, vAdamMiners := [exampleKey], vAdamCoordinatorSig := List.replicate 144 1 ++ [1, 1] }

/-- The example key is pinned by the first of two blocks, also after the second was disconnected. -/
theorem pinned_to_first_example :
    let s := registerBlockMasternodeActivity exampleEnv exampleView ⟨.empty, .empty, ∅⟩ exampleSignedBlock 1
    let s' := disconnectMasternodes exampleEnv exampleView (fun _ ↦ none)
      (registerBlockMasternodeActivity exampleEnv exampleView s exampleSignedBlock 2) exampleSignedBlock 2
    (∃ pk, s.pins[exampleKey]? = some (pk, 1)) ∧ s'.pins = s.pins := by
  have hrun := PinRun.connect exampleEnv exampleView exampleSignedBlock
    (PinRun.start (s := ⟨.empty, .empty, ∅⟩) rfl)
  obtain ⟨hfirst, -, hsame⟩ := pinned_to_first hrun
  refine ⟨?_, hsame _ (.disconnect exampleEnv exampleView (fun _ ↦ none) exampleSignedBlock
    (.connect exampleEnv exampleView exampleSignedBlock hrun))⟩
  exact ⟨⟨List.replicate 48 1, true, by decide⟩, (hfirst exampleKey).trans (by decide +kernel)⟩

end Runs

end KristaTech.Masternode
