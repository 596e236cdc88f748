import KristaTech.Library.Accounts
import KristaTech.Masternode.ActivityUndo

/-!
# The masternode state after a restart

`InitializeOnChainMasternodePings` of `adam.cpp` makes the masternode state anew when the node starts:
from a saved state, if it was saved at a block of the active chain, and the blocks after it, otherwise
from all blocks from the activation of ADAM on. A running node has judged every block with the
coins as they were after it. The scan judges all of them with the coins of the tip.

The scan comes to the state of the running node if each block finds the same collaterals and the same
elections at the tip as it found when it was connected (`PingStart.AgreesAt`), and if nothing was
registered before the blocks that are scanned.
-/

namespace KristaTech.Masternode

open Llmq List Option

/-! ### The running node -/

/-- A block, and what it was judged by when it was connected. The election functions read the coins
of the tip of that time. -/
structure Connection where
  block : CBlock
  nHeight : ℤ
  view : CoinLookup
  env : ActivityEnv

def MasternodeState.empty : MasternodeState := ⟨Registry.empty, Delegations.empty, ∅⟩

def Connection.connect (s : MasternodeState) (b : Connection) : MasternodeState :=
  registerBlockMasternodeActivity b.env b.view s b.block b.nHeight

def Consecutive : ℤ → List Connection → Prop
  | _, [] => True
  | n, b :: bs => b.nHeight = n + 1 ∧ Consecutive (n + 1) bs

instance decidableConsecutive : ∀ n bs, Decidable (Consecutive n bs)
  | _, [] => isTrue trivial
  | n, _ :: bs =>
    have := decidableConsecutive (n + 1) bs
    inferInstanceAs (Decidable (_ ∧ _))

/-! ### The start -/

/-- The heights up to that of the saved state are taken over, for valid keys. Keys with a last
active height only get that one. -/
def Registry.load (R : Registry) (nCachedHeight : ℤ) : Registry :=
  let heights := R.mapMasternodeActiveHeights.filterMap fun k setHeights ↦
    let validHeights := setHeights.filter (· ≤ nCachedHeight)
    if k.isValid && !validHeights.isEmpty then some validHeights else none
  R.mapMasternodeLastActiveHeight.toList.foldl (fun R p ↦
      if p.1.isValid && p.2 ≤ nCachedHeight && !R.mapMasternodeLastActiveHeight.contains p.1 then
        { R with
          mapMasternodeLastActiveHeight := R.mapMasternodeLastActiveHeight.insert p.1 p.2
          mapMasternodeActiveHeights := R.mapMasternodeActiveHeights.insert p.1
            ((R.mapMasternodeActiveHeights[p.1]?.getD ∅).insert p.2) }
      else R)
    { mapMasternodeActiveHeights := heights
      mapMasternodeLastActiveHeight := heights.map fun _ setHeights ↦ (Heights.last setHeights).getD 0
      mapMasternodeCollateralOutpoints := R.mapMasternodeCollateralOutpoints }

/-- A delegation without a first height gets the height 1. -/
def Delegations.load (S : Delegations) : Delegations :=
  S.mapOnChainCollateralDelegations.toList.foldl (fun S p ↦
    if S.mapCollateralDelegationFirstHeight.contains p.1 then S
    else { S with mapCollateralDelegationFirstHeight := S.mapCollateralDelegationFirstHeight.insert p.1 1 }) S

def MasternodeState.load (s : MasternodeState) (nCachedHeight : ℤ) : MasternodeState where
  registry := s.registry.load nCachedHeight
  delegations := s.delegations.load
  pins := s.pins.filter fun k pin ↦ k.isValid && pin.1.fValid && pin.2 ≤ nCachedHeight

/-- What the start reads, besides the chain. -/
structure PingStart where
  /-- The election functions read the coins of the tip. -/
  env : ActivityEnv
  /-- `pcoinsTip`. -/
  view : CoinLookup
  hashGenesisBlock : Uint256
  /-- `vUpgrades[UPGRADE_ADAM].nActivationHeight`. -/
  nAdamActivationHeight : ℤ
  fForceRescan : Bool
  /-- `ReadMasternodePingState`: the block at which the state was saved, and the state. -/
  cachedState : Option (Uint256 × MasternodeState)

namespace PingStart

variable (P : PingStart) (bs : List Connection)

/-- The saved state and the height of its block, if it is used. -/
def usedState : Option (MasternodeState × ℤ) := do
  guard (!P.fForceRescan)
  let (hashBestBlock, s) ← P.cachedState
  if hashBestBlock = P.hashGenesisBlock then return (s, 0)
  else
    let b ← bs.find? fun b ↦ b.block.getHash P.env.crypto = hashBestBlock
    return (s, b.nHeight)

/-- `nStartHeight`. -/
def nStartHeight : ℤ :=
  match P.usedState bs with
  | some (_, nCachedHeight) => nCachedHeight + 1
  | none => max 1 P.nAdamActivationHeight

def scan (s : MasternodeState) (b : Connection) : MasternodeState :=
  registerBlockMasternodeActivity P.env P.view s b.block b.nHeight

/-- `InitializeOnChainMasternodePings`. -/
def initializeOnChainMasternodePings : MasternodeState :=
  if bs.isEmpty then .empty
  else
    let s : MasternodeState := match P.usedState bs with
      | some (s, nCachedHeight) => s.load nCachedHeight
      | none => .empty
    (bs.filter fun b ↦ P.nStartHeight bs ≤ b.nHeight).foldl P.scan s

end PingStart

/-! ### Saved states -/

/-- What holds of a state that blocks up to a height have made: it can be saved and loaded. -/
structure MasternodeState.Complete (s : MasternodeState) (nTip : ℤ) : Prop where
  inv : s.Inv nTip noPending
  active : ∀ (k : CPubKey) S, s.registry.mapMasternodeActiveHeights[k]? = some S →
    k.isValid = true ∧ ∃ l, s.registry.mapMasternodeLastActiveHeight[k]? = some l
  pins : ∀ (k : CPubKey) pin, s.pins[k]? = some pin → k.isValid = true ∧ pin.1.fValid = true ∧ pin.2 ≤ nTip

namespace MasternodeState.Complete

variable {E : ActivityEnv} {view : CoinLookup} {s : MasternodeState} {nTip nHeight : ℤ}

theorem empty (nTip : ℤ) : MasternodeState.empty.Complete nTip where
  inv := ⟨Registry.inv_empty nTip, Delegations.wellFormed_empty⟩
  active := by simp [MasternodeState.empty, Registry.empty]
  pins := by simp [MasternodeState.empty]

theorem register (h : s.Complete nTip) (hle : nHeight ≤ nTip) (k : CPubKey) (o : COutPoint)
    (inlineDel : Option COnChainMasternodeDelegation) :
    (registerOnChainMasternodePing E.toPingChecks view s k o nHeight inlineDel).2.Complete nTip := by
  refine ⟨h.inv.register hle k o inlineDel, fun k' S hS ↦ ?_, ?_⟩
  · rw [registerOnChainMasternodePing] at hS ⊢
    split_ifs at hS ⊢ with hvalid
    case neg => exact h.active k' S hS
    have hk : k.isValid = true := by
      rw [isValidMasternodeCollateralAndAuth, Bool.and_eq_true, Bool.and_eq_true] at hvalid
      exact hvalid.1.1
    rcases Registry.bind_cases s.registry k o nHeight k' with
      ⟨rfl, setHeights, hrecord, -, hlast, -⟩ | ⟨-, -, hheights, -⟩ | ⟨-, -, hheights, hlast, -⟩
    · obtain ⟨l, hl⟩ := Heights.exists_last (hrecord ▸ Heights.self_mem_record _ nHeight)
      exact ⟨hk, l, hlast.trans hl⟩
    · rw [hheights] at hS
      cases hS
    · rw [hheights] at hS
      obtain ⟨hk', l, hl⟩ := h.active k' S hS
      exact ⟨hk', l, hlast.trans hl⟩
  · rw [registerOnChainMasternodePing]
    split_ifs <;> exact h.pins

theorem pin (h : s.Complete nTip) (hle : nHeight ≤ nTip) (k : CPubKey) (pk : CBLSPubKey) :
    (s.pin k pk nHeight).Complete nTip := by
  refine ⟨⟨h.inv.registry, h.inv.delegations⟩, h.active, fun k' pin hpin ↦ ?_⟩
  rw [MasternodeState.pin] at hpin
  simp only [PinnedBLSPubKeys.pinBLSPubKey] at hpin
  split_ifs at hpin with hvalid
  · exact h.pins k' pin hpin
  · split at hpin
    · exact h.pins k' pin hpin
    · rw [Std.ExtTreeMap.getElem?_insert] at hpin
      simp only [Std.LawfulEqOrd.compare_eq_iff_eq] at hpin
      split_ifs at hpin with hk
      · obtain rfl := Option.some.inj hpin
        simp only [Bool.or_eq_true, Bool.not_eq_true', not_or, Bool.not_eq_false] at hvalid
        exact hk ▸ ⟨hvalid.1, hvalid.2, hle⟩
      · exact h.pins k' pin hpin

theorem registerBlock (h : s.Complete nTip) (hle : nHeight ≤ nTip) (block : CBlock) :
    (registerBlockMasternodeActivity E view s block nHeight).Complete nTip := by
  refine registerBlock_induction (motive := fun s ↦ s.Complete nTip) h ?_ ?_ ?_ ?_
  · exact fun s k pk _ _ _ hs ↦ hs.pin hle k pk
  · exact fun s tx ping _ _ hs ↦ hs.register hle _ _ _
  · exact fun s k o _ hs ↦ hs.register hle _ _ _
  · exact fun s k sigPair _ _ _ hs ↦ hs.register hle _ _ _

end MasternodeState.Complete

variable {n : ℤ} {s : MasternodeState} {P : PingStart} {bs : List Connection}

theorem Heights.filter_eq_self {S : Heights} (h : ∀ x ∈ S, x ≤ n) : S.filter (· ≤ n) = S := by
  refine Std.ExtTreeSet.ext_mem fun x ↦ ?_
  rw [Std.ExtTreeSet.mem_filter]
  exact ⟨fun hx ↦ hx.1, fun hx ↦ ⟨hx, by simpa using h _ hx⟩⟩

theorem Registry.load_eq_self (h : s.Complete n) : s.registry.load n = s.registry := by
  have hheights : s.registry.mapMasternodeActiveHeights.filterMap (fun k setHeights ↦
      let validHeights := setHeights.filter (· ≤ n)
      if k.isValid && !validHeights.isEmpty then some validHeights else none) =
      s.registry.mapMasternodeActiveHeights := by
    refine Std.ExtTreeMap.ext_getElem? fun k ↦ ?_
    simp only [Std.ExtTreeMap.getElem?_filterMap, Std.ExtTreeMap.getKey_eq, pbind_eq_bind]
    cases hS : s.registry.mapMasternodeActiveHeights[k]? with
    | none => simp
    | some S =>
      obtain ⟨⟨x, hx⟩, hle⟩ := h.inv.registry.heights k S hS
      have hne : S ≠ ∅ := by
        rintro rfl
        exact Std.ExtTreeSet.not_mem_empty hx
      simp [(h.active k S hS).1, Heights.filter_eq_self hle, hne]
  have hlast : (s.registry.mapMasternodeActiveHeights.map fun _ setHeights ↦
      (Heights.last setHeights).getD 0) = s.registry.mapMasternodeLastActiveHeight := by
    refine Std.ExtTreeMap.ext_getElem? fun k ↦ ?_
    rw [Std.ExtTreeMap.getElem?_map]
    cases hS : s.registry.mapMasternodeActiveHeights[k]? with
    | none =>
      cases hl : s.registry.mapMasternodeLastActiveHeight[k]? with
      | none => rfl
      | some l =>
        obtain ⟨S, hS', -⟩ := h.inv.registry.last k l hl
        rw [hS] at hS'
        cases hS'
    | some S =>
      obtain ⟨-, l, hl⟩ := h.active k S hS
      obtain ⟨S', hS', hlast⟩ := h.inv.registry.last k l hl
      obtain rfl := Option.some.inj (hS.symm.trans hS')
      simp [hlast, hl]
  rw [Registry.load, hheights, hlast]
  refine foldl_invariant (motive := (· = s.registry)) rfl fun p hp R' hR' ↦ ?_
  -- every key with a last active height has it already
  have hmem : s.registry.mapMasternodeLastActiveHeight.contains p.1 = true := by
    rw [Std.ExtTreeMap.contains_eq_isSome_getElem?, Std.ExtTreeMap.mem_toList_iff_getElem?_eq_some.1 hp]
    rfl
  rw [hR', hmem, Bool.not_true, Bool.and_false, if_neg Bool.false_ne_true]

theorem Delegations.load_eq_self {S : Delegations} (h : S.WellFormed) : S.load = S := by
  refine foldl_invariant (motive := (· = S)) rfl fun p hp S' hS' ↦ ?_
  obtain ⟨f, hf⟩ := h.first p.1 p.2 (Std.ExtTreeMap.mem_toList_iff_getElem?_eq_some.1 hp)
  have hmem : S.mapCollateralDelegationFirstHeight.contains p.1 = true := by
    rw [Std.ExtTreeMap.contains_eq_isSome_getElem?, hf]
    rfl
  rw [hS', if_pos hmem]

theorem MasternodeState.Complete.load_eq_self (h : s.Complete n) : s.load n = s := by
  have hpins : (s.pins.filter fun k pin ↦ k.isValid && pin.1.fValid && pin.2 ≤ n) = s.pins := by
    refine Std.ExtTreeMap.ext_getElem? fun k ↦ ?_
    simp only [Std.ExtTreeMap.getElem?_filter, Std.ExtTreeMap.getKey_eq, pfilter_eq_filter]
    cases hpin : s.pins[k]? with
    | none => simp
    | some pin =>
      obtain ⟨hk, hpk, hle⟩ := h.pins k pin hpin
      simp [hk, hpk, hle]
  rw [MasternodeState.load, Registry.load_eq_self h, Delegations.load_eq_self h.inv.delegations, hpins]

/-! ### Registrations that are judged the same -/

/-- What a registration sees of an outpoint: the output, if it is an unspent collateral. -/
def collateralAt (view : CoinLookup) (o : COutPoint) (nHeight : ℤ) : Option CTxOut :=
  ((view o).filter fun coin ↦
    !coin.isSpent && coin.out.nValue == getMasternodeNodeCollateral nHeight).map (·.out)

section Congr

variable (P : PingChecks) {view view' : CoinLookup} {o : COutPoint} {nHeight : ℤ}

/-- The output may be spent by the key: it pays to it, or a delegation passes it on. -/
def authorises (S : Delegations) (k : CPubKey) (o : COutPoint)
    (inlineDel : Option COnChainMasternodeDelegation) (out : CTxOut) : Bool :=
  out.scriptPubKey == getScriptForDestination (.keyID (k.getID P.crypto)) ||
    inlineDel.any (delegates P · k o out.scriptPubKey) ||
    S.mapOnChainCollateralDelegations[o]?.any (delegates P · k o out.scriptPubKey)

theorem isValidMasternodeCollateralAndAuth_eq (S : Delegations) (k : CPubKey)
    (inlineDel : Option COnChainMasternodeDelegation) :
    isValidMasternodeCollateralAndAuth P view S k o nHeight inlineDel = (k.isValid && !o.isNull &&
        (collateralAt view o nHeight).any (authorises P S k o inlineDel)) := by
  rw [isValidMasternodeCollateralAndAuth, collateralAt]
  cases view o with
  | none => rfl
  | some coin =>
    rw [filter_some]
    split_ifs with hcoin
    · simp only [hcoin, Bool.true_and]
      rfl
    · simp only [Bool.eq_false_of_not_eq_true hcoin, Bool.false_and]
      rfl

theorem recordInlineDelegation_congr (h : collateralAt view o nHeight = collateralAt view' o nHeight)
    (hsome : collateralAt view o nHeight ≠ none) (S : Delegations) (k : CPubKey)
    (inlineDel : Option COnChainMasternodeDelegation) :
    recordInlineDelegation P view S k o nHeight inlineDel =
      recordInlineDelegation P view' S k o nHeight inlineDel := by
  -- both coins are unspent and have the same output
  have hcoin : ∀ {view : CoinLookup} {out : CTxOut}, collateralAt view o nHeight = some out →
      ∃ coin, view o = some coin ∧ coin.isSpent = false ∧ coin.out = out := by
    intro view out hout
    rw [collateralAt, map_eq_some_iff] at hout
    obtain ⟨coin, hcoin, rfl⟩ := hout
    rw [filter_eq_some_iff, Bool.and_eq_true, Bool.not_eq_true'] at hcoin
    exact ⟨coin, hcoin.1, hcoin.2.1, rfl⟩
  obtain ⟨out, hout⟩ := ne_none_iff_exists'.1 hsome
  obtain ⟨coin, hview, hspent, rfl⟩ := hcoin hout
  obtain ⟨coin', hview', hspent', hsame⟩ := hcoin (h.symm.trans hout)
  cases inlineDel with
  | none => rfl
  | some del =>
    simp only [recordInlineDelegation, hview, hview', any_some, hspent, hspent', hsame]

theorem register_congr (h : collateralAt view o nHeight = collateralAt view' o nHeight)
    (s : MasternodeState) (k : CPubKey) (inlineDel : Option COnChainMasternodeDelegation) :
    registerOnChainMasternodePing P view s k o nHeight inlineDel =
      registerOnChainMasternodePing P view' s k o nHeight inlineDel := by
  rw [registerOnChainMasternodePing, registerOnChainMasternodePing,
    isValidMasternodeCollateralAndAuth_eq, isValidMasternodeCollateralAndAuth_eq, ← h]
  split_ifs with hvalid
  · have hsome : collateralAt view o nHeight ≠ none := by
      intro hnone
      rw [hnone, any_none, Bool.and_false] at hvalid
      exact Bool.false_ne_true hvalid
    rw [recordInlineDelegation_congr P h hsome]
  · rfl

end Congr

/-! ### Blocks that are judged the same -/

namespace Connection

variable (b : Connection)

def Names (o : COutPoint) : Prop :=
  (∃ tx ∈ b.block.vtx, ∃ ping, extractOnChainMasternodePing b.env.toPingChecks tx = some ping ∧
    ping.collateralOutpoint = o) ∨
  ∃ sigPair ∈ blockShares b.env b.block, sigPair.1 = o

/-- The block can speak for the key: it is one of its miners, or it signed the BLS key of its
coordinator. -/
def Credits (k : CPubKey) : Prop :=
  k ∈ b.block.vAdamMiners ∨
  ∃ signedData, CBLSSignedData.parse b.block.vAdamCoordinatorSig = some signedData ∧
    k.verify b.env.crypto (b.env.crypto.hash signedData.blsPubKey.data) signedData.ecdsaSig = true

/-- The block can register the outpoint: it names it, or it speaks for a key that is bound to it. -/
def Touches (s : MasternodeState) (o : COutPoint) : Prop :=
  b.Names o ∨ ∃ k, b.Credits k ∧ s.registry.mapMasternodeCollateralOutpoints[k]? = some o

def afterPings (s : MasternodeState) : MasternodeState :=
  b.block.vtx.foldl (registerPing b.env b.view b.nHeight) s

/-- The state after the solutions of the block, in which the coordinator is looked for. -/
def afterSolutions (s : MasternodeState) : MasternodeState :=
  (minersToVerify b.block).foldl (registerSolution b.env b.view b.block b.nHeight) (b.afterPings s)

/-- The state after the coordinator, in which the quorum is elected. -/
def afterCoordinator (s : MasternodeState) : MasternodeState :=
  registerCoordinator b.env b.view b.block b.nHeight (b.afterSolutions s)

end Connection

/-- The elections of a block, in the states in which it asks for them, come out the same. -/
structure SameElections (P : PingStart) (s : MasternodeState) (b : Connection) : Prop where
  seed : b.env.getAdamSeed b.block.hashPrevBlock = P.env.getAdamSeed b.block.hashPrevBlock
  solutions : b.env.verifyAdamSolution = P.env.verifyAdamSolution
  nodes : ∀ seed, b.env.selectAdamNodes none (b.afterSolutions s) seed b.nHeight =
    P.env.selectAdamNodes none (b.afterSolutions s) seed b.nHeight
  pool : b.env.getAdamMinerPool none (b.afterSolutions s) (b.nHeight - 1) =
    P.env.getAdamMinerPool none (b.afterSolutions s) (b.nHeight - 1)
  quorum : b.env.getActiveQuorum none (b.afterCoordinator s) b.nHeight (some b.block.hashPrevBlock) =
    P.env.getActiveQuorum none (b.afterCoordinator s) b.nHeight (some b.block.hashPrevBlock)

/-- **A block the scan judges as it was judged when it was connected**, on the state `s` before it:
the collaterals it can register look the same at the tip, and so do the elections. -/
structure PingStart.AgreesAt (P : PingStart) (s : MasternodeState) (b : Connection) : Prop where
  checks : b.env.toPingChecks = P.env.toPingChecks
  collaterals : ∀ o, b.Touches s o → collateralAt b.view o b.nHeight = collateralAt P.view o b.nHeight
  elections : 11 ≤ b.block.nVersion → SameElections P s b

/-- Every binding was there before the block or is named by it. -/
def BoundBy (b : Connection) (s s' : MasternodeState) : Prop :=
  ∀ (k : CPubKey) o, s'.registry.mapMasternodeCollateralOutpoints[k]? = some o →
    s.registry.mapMasternodeCollateralOutpoints[k]? = some o ∨ b.Names o

theorem mem_vAdamMiners_of_minersToVerify {block : CBlock} {m : (CPubKey × Bytes) × ℕ}
    (hm : m ∈ minersToVerify block) : m.1.1 ∈ block.vAdamMiners := by
  have hzip := of_mem_zip (fst_mem_of_mem_zipIdx hm)
  split_ifs at hzip
  · exact mem_of_mem_dropLast hzip.1
  · exact hzip.1

theorem boundBy_pinSigned {b : Connection} {s' : MasternodeState} (h : BoundBy b s s') (k : CPubKey)
    (vchSig : Bytes) (nHeight : ℤ) : BoundBy b s (s'.pinSigned k vchSig nHeight) := by
  rw [MasternodeState.pinSigned]
  split
  · exact h
  · exact h

theorem signed_of_matchedCoordKey {E : ActivityEnv} {block : CBlock} {nHeight : ℤ}
    {signedData : CBLSSignedData} {k : CPubKey}
    (h : matchedCoordKey E block nHeight s signedData = some k) :
    k.verify E.crypto (E.crypto.hash signedData.blsPubKey.data) signedData.ecdsaSig = true := by
  simp only [matchedCoordKey, or_eq_some_iff, filter_eq_some_iff, Bool.and_eq_true] at h
  rcases h with h | ⟨-, h | ⟨-, h | ⟨-, h⟩⟩⟩
  · exact h.2.2
  · exact h.2.2
  · have hsigned := find?_some h
    exact (Bool.and_eq_true_iff.1 hsigned).2
  · have hsigned := find?_some h
    exact (Bool.and_eq_true_iff.1 hsigned).2

namespace PingStart.AgreesAt

variable {P : PingStart} {s s' : MasternodeState} {b : Connection}

theorem register (h : P.AgreesAt s b) (hs' : BoundBy b s s') {k : CPubKey} {o : COutPoint}
    (ho : b.Names o ∨ b.Credits k ∧ s'.registry.mapMasternodeCollateralOutpoints[k]? = some o)
    (inlineDel : Option COnChainMasternodeDelegation) :
    registerOnChainMasternodePing b.env.toPingChecks b.view s' k o b.nHeight inlineDel =
        registerOnChainMasternodePing P.env.toPingChecks P.view s' k o b.nHeight inlineDel ∧
      BoundBy b s
        (registerOnChainMasternodePing b.env.toPingChecks b.view s' k o b.nHeight inlineDel).2 := by
  have hbound : s.registry.mapMasternodeCollateralOutpoints[k]? = some o ∧ b.Credits k ∨ b.Names o := by
    rcases ho with ho | ⟨hk, ho⟩
    · exact Or.inr ho
    · exact (hs' k o ho).imp_left fun ho ↦ ⟨ho, hk⟩
  have htouch : b.Touches s o := by
    rcases hbound with ⟨ho, hk⟩ | ho
    · exact Or.inr ⟨k, hk, ho⟩
    · exact Or.inl ho
  refine ⟨?_, fun k' o' ho' ↦ ?_⟩
  · rw [← h.checks]
    exact register_congr _ (h.collaterals o htouch) s' k inlineDel
  · rw [registerOnChainMasternodePing] at ho'
    split_ifs at ho'
    case neg => exact hs' k' o' ho'
    rcases Registry.bind_cases s'.registry k o b.nHeight k' with
      ⟨rfl, -, -, -, -, hC⟩ | ⟨-, -, -, -, hC⟩ | ⟨-, -, -, -, hC⟩
    · obtain rfl := Option.some.inj (hC.symm.trans ho')
      exact hbound.imp_left And.left
    · cases hC.symm.trans ho'
    · exact hs' k' o' (hC.symm.trans ho')

theorem refresh (h : P.AgreesAt s b) (hs' : BoundBy b s s') {k : CPubKey} (hk : b.Credits k) :
    s'.refresh b.env b.view k b.nHeight = s'.refresh P.env P.view k b.nHeight ∧
      BoundBy b s (s'.refresh b.env b.view k b.nHeight) := by
  rw [MasternodeState.refresh, MasternodeState.refresh]
  split
  case h_2 => exact ⟨rfl, hs'⟩
  case h_1 o ho =>
    have hboth := h.register hs' (Or.inr ⟨hk, ho⟩) none
    exact ⟨congrArg Prod.snd hboth.1, hboth.2⟩

theorem afterPings (h : P.AgreesAt s b) :
    b.afterPings s = b.block.vtx.foldl (registerPing P.env P.view b.nHeight) s ∧
      BoundBy b s (b.afterPings s) := by
  refine foldl_congr_invariant (fun k o ho ↦ Or.inl ho) fun tx htx s' hs' ↦ ?_
  rw [registerPing, registerPing, ← h.checks]
  split
  case h_2 => exact ⟨rfl, hs'⟩
  case h_1 ping hping =>
    obtain ⟨hsame, hbound⟩ := h.register hs' (k := ping.pubKeyMasternode)
      (Or.inl (Or.inl ⟨tx, htx, ping, hping, rfl⟩)) ping.inlineDel
    rw [← h.checks] at hsame
    exact ⟨congrArg Prod.snd hsame, hbound⟩

theorem afterSolutions (h : P.AgreesAt s b) (hversion : 11 ≤ b.block.nVersion) :
    b.afterSolutions s = (minersToVerify b.block).foldl
        (registerSolution P.env P.view b.block b.nHeight) (b.afterPings s) ∧
      BoundBy b s (b.afterSolutions s) := by
  have hE := h.elections hversion
  refine foldl_congr_invariant h.afterPings.2 fun m hm s' hs' ↦ ?_
  have hverify : verifyBlockSolution b.env b.block b.nHeight s'.pins m =
      verifyBlockSolution P.env b.block b.nHeight s'.pins m := by
    rw [verifyBlockSolution, verifyBlockSolution, hE.seed, hE.solutions]
  rw [registerSolution, registerSolution, hverify, hE.seed]
  split_ifs
  · exact ⟨rfl, hs'⟩
  · have hk : b.Credits m.1.1 := Or.inl (mem_vAdamMiners_of_minersToVerify hm)
    refine h.refresh ?_ hk
    split
    · exact boundBy_pinSigned hs' _ _ _
    · exact hs'

theorem matchedCoordKey (h : P.AgreesAt s b) (hversion : 11 ≤ b.block.nVersion)
    {signedData : CBLSSignedData}
    (hdata : CBLSSignedData.parse b.block.vAdamCoordinatorSig = some signedData) :
    matchedCoordKey b.env b.block b.nHeight (b.afterSolutions s) signedData =
        matchedCoordKey P.env b.block b.nHeight (b.afterSolutions s) signedData ∧
      ∀ k, Masternode.matchedCoordKey b.env b.block b.nHeight (b.afterSolutions s) signedData = some k →
        b.Credits k := by
  have hE := h.elections hversion
  refine ⟨?_, fun k hk ↦ Or.inr ⟨signedData, hdata, ?_⟩⟩
  · rw [Masternode.matchedCoordKey, Masternode.matchedCoordKey, hE.seed, hE.pool, hE.nodes, h.checks]
  · exact (signed_of_matchedCoordKey hk)

theorem afterCoordinator (h : P.AgreesAt s b) (hversion : 11 ≤ b.block.nVersion) : b.afterCoordinator s =
        registerCoordinator P.env P.view b.block b.nHeight (b.afterSolutions s) ∧
      BoundBy b s (b.afterCoordinator s) := by
  have hs' := (h.afterSolutions hversion).2
  rw [Connection.afterCoordinator, registerCoordinator, registerCoordinator]
  split
  case h_2 => exact ⟨rfl, hs'⟩
  case h_1 coordBlsPubKey signedData hpk hdata =>
    obtain ⟨hsame, hcredits⟩ := h.matchedCoordKey hversion hdata
    rw [← hsame, ← h.checks]
    split
    case h_2 => exact ⟨rfl, hs'⟩
    case h_1 k hk =>
      split_ifs
      · have hpinned : BoundBy b s ((b.afterSolutions s).pin k coordBlsPubKey b.nHeight) := hs'
        exact h.refresh hpinned (hcredits k hk)
      · exact ⟨rfl, hs'⟩

theorem registerShare (h : P.AgreesAt s b) (quorum : CQuorum) {sigPair : COutPoint × Bytes}
    (hmem : sigPair ∈ blockShares b.env b.block) (hs' : BoundBy b s s') :
    registerShare b.env b.view b.block b.nHeight quorum s' sigPair =
        registerShare P.env P.view b.block b.nHeight quorum s' sigPair ∧
      BoundBy b s (Masternode.registerShare b.env b.view b.block b.nHeight quorum s' sigPair) := by
  rw [Masternode.registerShare, Masternode.registerShare]
  split
  case h_2 => exact ⟨rfl, hs'⟩
  case h_1 k hk =>
    have hboth := h.register hs' (k := k) (Or.inl (Or.inr ⟨sigPair, hmem, rfl⟩)) none
    rw [hboth.1, h.checks]
    split_ifs
    · exact ⟨rfl, boundBy_pinSigned (hboth.1 ▸ hboth.2) _ _ _⟩
    · exact ⟨rfl, hs'⟩

/-- **The step.** A block that is judged the same leaves the same state. -/
theorem scan_eq (h : P.AgreesAt s b) : P.scan s b = b.connect s := by
  rw [PingStart.scan, Connection.connect, registerBlockMasternodeActivity, registerBlockMasternodeActivity]
  split_ifs with hversion
  case neg => exact h.afterPings.1.symm
  have hshares : blockShares P.env b.block = blockShares b.env b.block := by
    rw [blockShares, blockShares, h.checks]
  show registerQuorum P.env P.view b.block b.nHeight (registerCoordinator P.env P.view b.block b.nHeight
      ((minersToVerify b.block).foldl (registerSolution P.env P.view b.block b.nHeight)
        (b.block.vtx.foldl (registerPing P.env P.view b.nHeight) s))) =
    registerQuorum b.env b.view b.block b.nHeight (b.afterCoordinator s)
  rw [← h.afterPings.1, ← (h.afterSolutions hversion).1, ← (h.afterCoordinator hversion).1,
    registerQuorum, registerQuorum, hshares, ← (h.elections hversion).quorum]
  exact (foldl_congr_invariant (h.afterCoordinator hversion).2 fun sigPair hmem s' hs' ↦
    h.registerShare _ hmem hs').1.symm

end PingStart.AgreesAt

/-! ### The two nodes -/

/-- Each block is judged by the scan as by the running node, which is at `s` before the first. -/
def PingStart.AgreesAlong (P : PingStart) : MasternodeState → List Connection → Prop
  | _, [] => True
  | s, b :: bs => P.AgreesAt s b ∧ P.AgreesAlong (b.connect s) bs

/-- **The run.** -/
theorem PingStart.AgreesAlong.foldl_scan (h : P.AgreesAlong s bs) :
    bs.foldl P.scan s = bs.foldl Connection.connect s := by
  induction bs generalizing s with
  | nil => rfl
  | cons b bs ih =>
    rw [foldl_cons, foldl_cons, h.1.scan_eq]
    exact ih h.2

/-- A block that registers nothing if nothing was registered before: it is from before ADAM, and its
pings find no collateral of theirs. -/
structure Connection.Quiet (b : Connection) : Prop where
  nVersion : b.block.nVersion < 11
  pings : ∀ tx ∈ b.block.vtx, ∀ ping, extractOnChainMasternodePing b.env.toPingChecks tx = some ping →
    isValidMasternodeCollateralAndAuth b.env.toPingChecks b.view .empty ping.pubKeyMasternode
      ping.collateralOutpoint b.nHeight ping.inlineDel = false

theorem Connection.Quiet.connect {b : Connection} (h : b.Quiet) : Connection.connect .empty b = .empty := by
  have hpings : b.afterPings .empty = .empty := by
    refine foldl_invariant (motive := (· = MasternodeState.empty)) rfl fun tx htx s hs ↦ ?_
    rw [hs, registerPing]
    split
    case h_2 => rfl
    case h_1 ping hping =>
      have hvalid : isValidMasternodeCollateralAndAuth b.env.toPingChecks b.view
          MasternodeState.empty.delegations ping.pubKeyMasternode ping.collateralOutpoint b.nHeight
          ping.inlineDel = false := h.pings tx htx ping hping
      rw [registerOnChainMasternodePing, hvalid, if_neg Bool.false_ne_true]
  rw [Connection.connect, registerBlockMasternodeActivity, if_neg (not_le.2 h.nVersion)]
  exact hpings

theorem foldl_connect_quiet (h : ∀ b ∈ bs, b.Quiet) : bs.foldl Connection.connect .empty = .empty := by
  refine foldl_invariant (motive := (· = MasternodeState.empty)) rfl fun b hb s hs ↦ ?_
  rw [hs]
  exact (h b hb).connect

/-- When the start comes to the state of the running node. -/
structure PingStart.Regular (P : PingStart) (bs : List Connection) : Prop where
  /-- The saved state is the running node's at that block. -/
  saved : ∀ s nCachedHeight, P.usedState bs = some (s, nCachedHeight) →
    s = (bs.filter fun b ↦ b.nHeight < nCachedHeight + 1).foldl Connection.connect .empty
  /-- Without a saved state, nothing was registered in the blocks that are not scanned. -/
  quiet : P.usedState bs = none → ∀ b ∈ bs, b.nHeight < P.nStartHeight bs → b.Quiet
  /-- The blocks that are scanned are judged the same. -/
  agrees : P.AgreesAlong ((bs.filter fun b ↦ b.nHeight < P.nStartHeight bs).foldl Connection.connect .empty)
    (bs.filter fun b ↦ P.nStartHeight bs ≤ b.nHeight)

theorem Consecutive.lt_nHeight (h : Consecutive n bs) : ∀ b ∈ bs, n < b.nHeight := by
  induction bs generalizing n with
  | nil => exact fun b hb ↦ absurd hb not_mem_nil
  | cons b₀ bs ih =>
    intro b hb
    have hfirst := h.1
    rcases mem_cons.1 hb with rfl | hb
    · omega
    · have := ih h.2 b hb
      omega

theorem Consecutive.sorted (h : Consecutive n bs) : bs.Pairwise fun b b' ↦ b.nHeight ≤ b'.nHeight := by
  induction bs generalizing n with
  | nil => exact List.Pairwise.nil
  | cons b bs ih =>
    refine pairwise_cons.2 ⟨fun b' hb' ↦ ?_, ih h.2⟩
    have hfirst := h.1
    have := h.2.lt_nHeight b' hb'
    omega

theorem complete_foldl_connect (bs : List Connection) (n : ℤ) :
    ((bs.filter fun b ↦ b.nHeight < n + 1).foldl Connection.connect .empty).Complete n := by
  refine foldl_invariant (motive := fun s : MasternodeState ↦ s.Complete n) (.empty n) fun b hb s hs ↦ ?_
  have hle : b.nHeight < n + 1 := of_decide_eq_true (mem_filter.1 hb).2
  exact hs.registerBlock (Int.lt_add_one_iff.1 hle) b.block

theorem PingStart.Regular.initialize_eq (hbs : Consecutive 0 bs) (h : P.Regular bs) :
    P.initializeOnChainMasternodePings bs = bs.foldl Connection.connect .empty := by
  rw [initializeOnChainMasternodePings]
  split_ifs with hempty
  · rw [isEmpty_iff.1 hempty]
    rfl
  have hstart : (match P.usedState bs with
      | some (s, nCachedHeight) => s.load nCachedHeight
      | none => MasternodeState.empty) =
      (bs.filter fun b ↦ b.nHeight < P.nStartHeight bs).foldl Connection.connect .empty := by
    cases hused : P.usedState bs with
    | none =>
      refine (foldl_connect_quiet fun b hb ↦ ?_).symm
      exact h.quiet hused b (mem_filter.1 hb).1 (of_decide_eq_true (mem_filter.1 hb).2)
    | some used =>
      have hheight : P.nStartHeight bs = used.2 + 1 := by rw [nStartHeight, hused]
      have hcomplete := complete_foldl_connect bs used.2
      rw [← h.saved used.1 used.2 hused] at hcomplete
      rw [hheight, ← h.saved used.1 used.2 hused]
      exact hcomplete.load_eq_self
  rw [hstart, h.agrees.foldl_scan, ← foldl_append, filter_lt_append_filter_le_of_sorted hbs.sorted]

/-- **Restarts.** A node that starts at the tip of a chain, from a saved state or without one, answers as
the node that connected the blocks one after the other, if the saved state is right, nothing was
registered below the scanned blocks, and these find their collaterals and elections at the tip as
they found them when they were connected. -/
theorem restart_keeps_registry (P : PingStart) (bs : List Connection) (hbs : Consecutive 0 bs)
    (h : P.Regular bs) :
    (∀ k : CPubKey, (P.initializeOnChainMasternodePings bs).registry.mapMasternodeCollateralOutpoints[k]? =
      (bs.foldl Connection.connect .empty).registry.mapMasternodeCollateralOutpoints[k]?) ∧
    (∀ o : COutPoint,
      (P.initializeOnChainMasternodePings bs).delegations.mapOnChainCollateralDelegations[o]? =
        (bs.foldl Connection.connect .empty).delegations.mapOnChainCollateralDelegations[o]?) ∧
    ∀ k nQueryHeight nWindow,
      (P.initializeOnChainMasternodePings bs).registry.isMasternodeActiveAtHeight k nQueryHeight nWindow =
        (bs.foldl Connection.connect .empty).registry.isMasternodeActiveAtHeight k nQueryHeight nWindow := by
  rw [h.initialize_eq hbs]
  exact ⟨fun _ ↦ rfl, fun _ ↦ rfl, fun _ _ _ ↦ rfl⟩

/-! ### A ping whose collateral is spent -/

theorem PingStart.agreesAlong_of_forall (h : ∀ b ∈ bs, b.env = P.env ∧ b.view = P.view)
    (s : MasternodeState) : P.AgreesAlong s bs := by
  induction bs generalizing s with
  | nil => exact trivial
  | cons b bs ih =>
    obtain ⟨henv, hview⟩ := h b mem_cons_self
    refine ⟨⟨by rw [henv], fun o _ ↦ by rw [hview], fun _ ↦ ⟨?_, ?_, ?_, ?_, ?_⟩⟩,
      ih (fun b' hb' ↦ h b' (mem_cons_of_mem b hb')) _⟩
    all_goals simp only [henv, implies_true]

/-- A block from before ADAM with the given transactions besides its coinbase. -/
def earlyBlock (vtx : List CTransaction) : CBlock :=
  { examplePingBlock 1 with
    vtx := ⟨1, [⟨COutPoint.null, [1, 1], sequenceFinal⟩], [⟨0, []⟩], 0⟩ :: vtx }

/-- Blocks up to the activation of ADAM on the main network; in the last of them a masternode pings. -/
def pingedChain : List Connection :=
  (List.range 199).map (fun i : ℕ ↦ ⟨earlyBlock [], i + 1, exampleView, exampleEnv⟩) ++
    [⟨earlyBlock [examplePingTx 1], 200, exampleView, exampleEnv⟩]

def scanFromActivation (view : CoinLookup) : PingStart where
  env := exampleEnv
  view := view
  hashGenesisBlock := 1
  nAdamActivationHeight := 200
  fForceRescan := false
  cachedState := none

theorem quiet_earlyBlock (nHeight : ℤ) (view : CoinLookup) :
    Connection.Quiet ⟨earlyBlock [], nHeight, view, exampleEnv⟩ where
  nVersion := show (earlyBlock []).nVersion < 11 by decide
  pings tx htx ping hping := by
    have hnone : extractOnChainMasternodePing exampleEnv.toPingChecks tx = none := by
      rw [mem_singleton.1 htx]
      decide
    cases hnone.symm.trans hping

/-- The node that starts right after the ping finds the masternode. -/
theorem restart_keeps_pinged : ((scanFromActivation exampleView).initializeOnChainMasternodePings
      pingedChain).registry.mapMasternodeCollateralOutpoints[exampleKey]? = some (exampleCollateral 1) := by
  have hjudged : ∀ b ∈ pingedChain, b.env = exampleEnv ∧ b.view = exampleView := by
    intro b hb
    rcases mem_append.1 hb with hb | hb
    · obtain ⟨i, -, rfl⟩ := mem_map.1 hb
      exact ⟨rfl, rfl⟩
    · rw [mem_singleton.1 hb]
      exact ⟨rfl, rfl⟩
  have hquiet : ∀ b ∈ pingedChain, b.nHeight < 200 → b.Quiet := by
    intro b hb hlt
    rcases mem_append.1 hb with hb | hb
    · obtain ⟨i, -, rfl⟩ := mem_map.1 hb
      exact quiet_earlyBlock _ _
    · rw [mem_singleton.1 hb] at hlt
      exact absurd hlt (by decide)
  have hregular : (scanFromActivation exampleView).Regular pingedChain :=
    { saved := fun _ _ hused ↦ nomatch hused
      quiet := fun _ ↦ hquiet
      agrees := PingStart.agreesAlong_of_forall (fun b hb ↦ hjudged b (mem_filter.1 hb).1) _ }
  rw [(restart_keeps_registry _ _ (by decide +kernel) hregular).1]
  decide +kernel

def spentView : CoinLookup := fun o ↦ if o = exampleCollateral 1 then none else exampleView o

def spentChain : List Connection :=
  pingedChain ++
    [⟨earlyBlock [⟨1, [⟨exampleCollateral 1, [], sequenceFinal⟩], [⟨0, []⟩], 0⟩], 201, spentView,
      exampleEnv⟩]

/-- **A ping is lost.** The running node has judged the ping with the collateral there and holds the
masternode active after the collateral is spent. The node that scans the same chain does not find the
collateral and knows nothing of the masternode. -/
theorem rescan_loses_ping : Consecutive 0 spentChain ∧
      (spentChain.foldl Connection.connect .empty).registry.isMasternodeActiveAtHeight exampleKey 201 =
        true ∧
      ((scanFromActivation spentView).initializeOnChainMasternodePings
        spentChain).registry.isMasternodeActiveAtHeight exampleKey 201 = false ∧
      (spentChain.foldl Connection.connect
        .empty).registry.mapMasternodeCollateralOutpoints[exampleKey]? = some (exampleCollateral 1) ∧
      ((scanFromActivation spentView).initializeOnChainMasternodePings
        spentChain).registry.mapMasternodeCollateralOutpoints[exampleKey]? = none := by
  decide +kernel

end KristaTech.Masternode
