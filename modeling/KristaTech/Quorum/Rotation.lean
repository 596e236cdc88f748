import Mathlib.Data.List.Sort
import KristaTech.Quorum.Certified

/-!
# Coordinator rotation and certified blocks in one slot

When the elected coordinator stays silent, the validators take over in turns of 30 seconds, in the
order of their PoBLS tickets' distance to the height's target (`adam.cpp`). The guard's windows are
meant to fit these turns: a competing coordinator has to wait for 30 seconds, one whole slot.

The fit is not exact. A coordinator may replace its *own* proposal after 12 seconds, so one slot has
room for more than one certified block of its coordinator (`two_certified_in_slot`). What
does hold is `certified_in_slot`: two blocks certified in one slot were both recorded by one node,
for one and the same coordinator, and at least 12 seconds apart.
-/

namespace KristaTech.Adam

/-! ### Ranking the validators -/

section Ranking

variable (C : Crypto) (pins : PinnedBLSPubKeys)

/-- A height as it is hashed: four bytes, two's complement. -/
def heightBytes (nHeight : ℤ) : Bytes := Reader.natToLE 4 (nHeight % 2 ^ 32).toNat

/-- `ComputePoBLSTicket`. -/
def computePoBLSTicket (blsPubKey : CBLSPubKey) (blsSig : CBLSSignature) (nBlockHeight : ℤ) :
    Uint256 :=
  C.hash (blsPubKey.data ++ blsSig.data ++ heightBytes nBlockHeight)

def parseSolution (vchSolution : Bytes) : Option Bytes :=
  (do
    let _ ← Reader.readLE 4
    Reader.readByteVector : Reader Bytes).run' vchSolution

/-- `ExtractPoBLSTicketFromSolution`, with the miner's key given. -/
def extractPoBLSTicketFromSolution (vchSolution : Bytes) (nBlockHeight : ℤ) (minerKey : CPubKey) :
    Option Uint256 := do
  guard (!vchSolution.isEmpty)
  let vchSig ← parseSolution vchSolution
  guard (!vchSig.isEmpty)
  let signedData ← CBLSSignedData.parse vchSig
  guard (signedData.blsPubKey.fValid && signedData.blsSig.fValid)
  guard minerKey.isValid
  guard (minerKey.verify C (C.hash signedData.blsPubKey.data) signedData.ecdsaSig)
  guard ((pins.getPinnedBLSPubKey minerKey).all (· == signedData.blsPubKey))
  return computePoBLSTicket C signedData.blsPubKey signedData.blsSig nBlockHeight

/-- `ComputePoBLSTarget`. -/
def computePoBLSTarget (hashAdamSeed : Uint256) (nBlockHeight : ℤ) : Uint256 :=
  C.hash (hashAdamSeed.toBytes ++ heightBytes nBlockHeight)

structure ValidatorDistance where
  key : CPubKey
  distance : Uint256
  hasValidTicket : Bool
  deriving DecidableEq

/-- `ValidatorDistance::operator<`: a ticket first, then the distance, then the key. -/
def ValidatorDistance.lt (a b : ValidatorDistance) : Bool :=
  if a.hasValidTicket != b.hasValidTicket then a.hasValidTicket
  else if a.distance != b.distance then compare a.distance b.distance == .lt
  else compare a.key b.key == .lt

/-- The distance of one validator; without a valid ticket, that of a hash of its key. -/
def validatorDistance (hashAdamSeed : Uint256) (nBlockHeight : ℤ)
    (mapSolutions : Std.ExtTreeMap CPubKey Bytes) (minerKey : CPubKey) : ValidatorDistance :=
  let ticket := (mapSolutions[minerKey]?).bind fun solution ↦
    extractPoBLSTicketFromSolution C pins solution nBlockHeight minerKey
  let ticketHash := ticket.getD (C.hash (hashAdamSeed.toBytes ++
    UInt8.ofNat minerKey.size :: minerKey.bytes ++ heightBytes nBlockHeight))
  ⟨minerKey, ticketHash ^^^ computePoBLSTarget C hashAdamSeed nBlockHeight, ticket.isSome⟩

/-- `RankValidatorsByPoBLSDistance`. -/
def rankValidatorsByPoBLSDistance (hashAdamSeed : Uint256) (nBlockHeight : ℤ)
    (vMiners : List CPubKey) (mapSolutions : Std.ExtTreeMap CPubKey Bytes) : List CPubKey :=
  let ranked := (vMiners.map (validatorDistance C pins hashAdamSeed nBlockHeight
    mapSolutions)).insertionSort fun a b ↦ b.lt a = false
  ranked.map (·.key)

/-! ### The rotation -/

/-- `ADAM_FALLBACK_COORDINATOR_TIMEOUT_SECS`. -/
def adamFallbackCoordinatorTimeoutSecs : ℤ := 45

structure FallbackCoordinators where
  activeFallback : CPubKey
  prevFallback : CPubKey
  rotationIndex : ℕ
  deriving DecidableEq

/-- The slot of a time after the parent's: the raw slot number, not yet reduced to a validator. -/
def rawSlot (nTimeElapsed : ℤ) : ℤ := (nTimeElapsed - adamFallbackCoordinatorTimeoutSecs) / 30

/-- `GetAdamFallbackCoordinatorForSlot`: the validator whose turn it is, and the one before it for
the first five seconds of a turn. -/
def getAdamFallbackCoordinatorForSlot (hashAdamSeed : Uint256) (nBlockHeight nTimeElapsed : ℤ)
    (vMiners : List CPubKey) (mapSolutions : Std.ExtTreeMap CPubKey Bytes) :
    Option FallbackCoordinators :=
  if nTimeElapsed < adamFallbackCoordinatorTimeoutSecs || vMiners.isEmpty then none
  else
    let ranked := rankValidatorsByPoBLSDistance C pins hashAdamSeed nBlockHeight vMiners mapSolutions
    if ranked.isEmpty then none
    else
      let nRawSlot := rawSlot nTimeElapsed
      let nSlotOffset := (nTimeElapsed - adamFallbackCoordinatorTimeoutSecs) % 30
      let rotationIndex := (nRawSlot % ranked.length).toNat
      let activeFallback := ranked.getD rotationIndex default
      let prevFallback :=
        if 0 < nRawSlot ∧ nSlotOffset < 5 then
          ranked.getD ((rotationIndex + ranked.length - 1) % ranked.length) default
        else activeFallback
      some ⟨activeFallback, prevFallback, rotationIndex⟩

variable {C pins}

/-- A moment is in slot `j` of the rotation on a parent. -/
def InSlot (parentTime j t : ℤ) : Prop :=
  adamFallbackCoordinatorTimeoutSecs ≤ t - parentTime ∧ rawSlot (t - parentTime) = j

instance (parentTime j t : ℤ) : Decidable (InSlot parentTime j t) :=
  inferInstanceAs (Decidable (_ ∧ _))

theorem InSlot.lt_add_thirty {parentTime j t t' : ℤ} (h : InSlot parentTime j t)
    (h' : InSlot parentTime j t') : t' < t + 30 := by
  unfold InSlot rawSlot at h h'
  omega

end Ranking

end KristaTech.Adam

namespace KristaTech.Llmq

open Adam

/-! ### Certified blocks in one slot -/

namespace World

/-- **Two blocks certified in one slot** were recorded by one node, under one coordinator, at least
12 seconds apart. In particular no two coordinators get a block certified in one slot. -/
theorem certified_in_slot (C : Crypto) {ι : Type} [DecidableEq ι] (env : SigningEnv ι)
    (w : World ι) (p : Uint256) (parentTime j : ℤ) (qsig qsig' : CQuorumSignature)
    (pins pins' : PinnedBLSPubKeys) (hreach : Reachable env w)
    (hheld : KeysHeldOnce env (env.getActiveQuorum p))
    (hunf : Unforgeable C w (env.getActiveQuorum p))
    (hne : qsig.blockHash ≠ qsig'.blockHash)
    (hon : SignedOn w qsig.blockHash p) (hon' : SignedOn w qsig'.blockHash p)
    (hslot : ∀ s ∈ w.signatures, s.blockHash = qsig.blockHash ∨ s.blockHash = qsig'.blockHash →
      InSlot parentTime j s.nTime)
    (hq : qsig.verify C pins (env.getActiveQuorum p) = true)
    (hq' : qsig'.verify C pins' (env.getActiveQuorum p) = true) :
    ∃ s ∈ w.signatures, ∃ s' ∈ w.signatures, s.blockHash = qsig.blockHash ∧
      s'.blockHash = qsig'.blockHash ∧ s.node = s'.node ∧
      s.record.coordinator = s'.record.coordinator ∧
      (s.nTime + 12 ≤ s'.nTime ∨ s'.nTime + 12 ≤ s.nTime) := by
  have hinv := hreach.inv
  obtain ⟨s, hs, s', hs', hblock, hblock', hnode⟩ := hinv.exists_common_signer hheld hunf hq hq'
  -- the signatures made when the common signer recorded the two blocks
  obtain ⟨s₀, hs₀, hnode₀, hprev₀, hrec₀, htime₀⟩ := hinv.first s hs
  obtain ⟨s₁, hs₁, hnode₁, hprev₁, hrec₁, htime₁⟩ := hinv.first s' hs'
  have hblock₀ : s₀.blockHash = qsig.blockHash := by
    rw [← (hinv.signed s₀ hs₀).1, hrec₀, (hinv.signed s hs).1, hblock]
  have hblock₁ : s₁.blockHash = qsig'.blockHash := by
    rw [← (hinv.signed s₁ hs₁).1, hrec₁, (hinv.signed s' hs').1, hblock']
  have hnode' : s₀.node = s₁.node := by rw [hnode₀, hnode₁, hnode]
  have hprev : s₀.prevHash = s₁.prevHash := (hon s₀ hs₀ hblock₀).trans (hon' s₁ hs₁ hblock₁).symm
  have hslot₀ := hslot s₀ hs₀ (Or.inl hblock₀)
  have hslot₁ := hslot s₁ hs₁ (Or.inr hblock₁)
  have hlt := hslot₀.lt_add_thirty hslot₁
  have hlt' := hslot₁.lt_add_thirty hslot₀
  rw [← hrec₀] at htime₀
  rw [← hrec₁] at htime₁
  have hrec : s₀.record ≠ s₁.record := by
    intro heq
    apply hne
    rw [← hblock₀, ← hblock₁, ← (hinv.signed s₀ hs₀).1, ← (hinv.signed s₁ hs₁).1, heq]
  refine ⟨s₀, hs₀, s₁, hs₁, hblock₀, hblock₁, hnode', ?_⟩
  rcases hinv.separated s₀ hs₀ s₁ hs₁ hnode' hprev with hsup | hsup
  · refine ⟨hsup.coordinator_eq (by omega), Or.inl ?_⟩
    have := hsup.add_twelve_le hrec.symm
    omega
  · refine ⟨(hsup.coordinator_eq (by omega)).symm, Or.inr ?_⟩
    have := hsup.add_twelve_le hrec
    omega

end World

namespace ThreeNodes

/-- Coordinator 0 proposes block 1 at the start of its slot, and block 2 twelve seconds later. -/
def twiceInSlot : List (Event (Fin 3)) :=
  [.proposeBlock 0 1045 (proposal 1 0), .proposeBlock 1 1045 (proposal 1 0),
    .proposeBlock 2 1045 (proposal 1 0), .proposeBlock 0 1057 (proposal 2 0),
    .proposeBlock 1 1057 (proposal 2 0), .proposeBlock 2 1057 (proposal 2 0)]

def afterTwiceInSlot : World (Fin 3) := World.run env (World.start fun _ ↦ 1000) twiceInSlot

theorem signatures_afterTwiceInSlot : afterTwiceInSlot.signatures =
    ([2, 1, 0].map fun i ↦ ⟨i, key i, 7, 2, 1057, ⟨2, key 0, 1057⟩⟩) ++
      [2, 1, 0].map fun i ↦ ⟨i, key i, 7, 1, 1045, ⟨1, key 0, 1045⟩⟩ := by
  decide

def made : List (ℕ × Uint256) := [(0, 1), (1, 1), (2, 1), (0, 2), (1, 2), (2, 2)]

theorem reachable_afterTwiceInSlot : World.Reachable env afterTwiceInSlot :=
  ⟨_, World.reflTransGen_run (by decide)⟩

theorem unforgeable_afterTwiceInSlot : World.Unforgeable (crypto made) afterTwiceInSlot quorum := by
  have hall : ∀ x ∈ made, ∀ i : Fin 3, (i : ℕ) = x.1 →
      ∃ s ∈ afterTwiceInSlot.signatures, s.key = key i ∧ s.blockHash = x.2 := by
    rw [signatures_afterTwiceInSlot]
    decide
  exact unforgeable fun i h hmem ↦ hall _ hmem i rfl

theorem inSlot_afterTwiceInSlot :
    ∀ s ∈ afterTwiceInSlot.signatures, s.prevHash = 7 ∧ InSlot 1000 0 s.nTime := by
  rw [signatures_afterTwiceInSlot]
  decide

theorem verify_certificates_made : (certificate 1 [0, 1]).verify (crypto made) ∅ quorum = true ∧
      (certificate 2 [1, 2]).verify (crypto made) ∅ quorum = true := by
  decide +kernel

/-- **A slot has room for two certified blocks**: in the network of three, both blocks of the
coordinator active in slot 0 are certified, with every signature made in that slot. -/
theorem two_certified_in_slot : World.Reachable env afterTwiceInSlot ∧ World.KeysHeldOnce env quorum ∧
      World.Unforgeable (crypto made) afterTwiceInSlot quorum ∧
      (∀ s ∈ afterTwiceInSlot.signatures, s.prevHash = 7 ∧ InSlot 1000 0 s.nTime ∧
        (getAdamFallbackCoordinatorForSlot (crypto made) ∅ 0 8 (s.nTime - 1000)
          [key 0, key 1, key 2] ∅).map (·.activeFallback) = some s.record.coordinator) ∧
      (certificate 1 [0, 1]).verify (crypto made) ∅ quorum = true ∧
      (certificate 2 [1, 2]).verify (crypto made) ∅ quorum = true := by
  refine ⟨reachable_afterTwiceInSlot, keysHeldOnce, unforgeable_afterTwiceInSlot, ?_,
    verify_certificates_made⟩
  rw [signatures_afterTwiceInSlot]
  decide

/-- The two blocks of the network of three were signed by one node, for one coordinator, twelve
seconds apart. -/
theorem certified_in_slot_threeNodes :
    ∃ s ∈ afterTwiceInSlot.signatures, ∃ s' ∈ afterTwiceInSlot.signatures, s.blockHash = 1 ∧
      s'.blockHash = 2 ∧ s.node = s'.node ∧ s.record.coordinator = s'.record.coordinator ∧
      (s.nTime + 12 ≤ s'.nTime ∨ s'.nTime + 12 ≤ s.nTime) :=
  World.certified_in_slot (crypto made) env afterTwiceInSlot 7 1000 0 (certificate 1 [0, 1])
    (certificate 2 [1, 2]) ∅ ∅ reachable_afterTwiceInSlot keysHeldOnce unforgeable_afterTwiceInSlot
    (by decide) (fun s hs _ ↦ (inSlot_afterTwiceInSlot s hs).1)
    (fun s hs _ ↦ (inSlot_afterTwiceInSlot s hs).1) (fun s hs _ ↦ (inSlot_afterTwiceInSlot s hs).2)
    verify_certificates_made.1 verify_certificates_made.2

end ThreeNodes

end KristaTech.Llmq
