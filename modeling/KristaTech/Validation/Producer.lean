import KristaTech.Adam.Election
import KristaTech.Adam.Fallback
import KristaTech.Adam.Solution
import KristaTech.Validation.SampleBlocks

/-!
# The coordinator of a new block

The part of `CreateNewBlock` of `miner.cpp` that fills in the ADAM fields of a block: the elected
miners, the solutions at hand that are valid, and the signatures of the coordinator. A node that holds
the key of the elected coordinator signs with it. Otherwise, once the coordinator's time is up, it signs
if it holds the key of the fallback coordinator, whom it finds with the block's time and with the
solutions that it puts into the block.

`CheckBlock` finds the coordinator again from the block alone. It accepts what was signed
(`checkBlockAdam_createAdamBlock`), whether it checks the block against its state or, during a sync, only
the signatures.
-/

namespace KristaTech

open Masternode Llmq Adam List

/-! ### Signing -/

/-- A BLS key, by what is done with it. -/
structure CBLSSecretKey where
  /-- `CBLSPubKey(blsKey)`. -/
  pubKey : CBLSPubKey
  /-- `CBLSSignature::Sign`. -/
  sign : Uint256 → Option CBLSSignature

/-- A private key, by what is done with it. -/
structure CKey where
  /-- `DeriveBLSFromCKey`, if the result is valid. -/
  deriveBLS : Option CBLSSecretKey
  /-- `CKey::Sign`, whose nonce is a function of the key and the hash. -/
  sign : Uint256 → Option Bytes

/-- `SignBLSWithECDSAFallback` with the BLS key derived from the key. -/
def signBLSWithECDSAFallback (C : Crypto) (key : CKey) (hash : Uint256) : Option Bytes := do
  let blsKey ← key.deriveBLS
  let blsSig ← blsKey.sign hash
  let ecdsaSig ← key.sign (C.hash blsKey.pubKey.data)
  return CBLSSignedData.serialize ⟨blsKey.pubKey, blsSig, ecdsaSig⟩

/-- The key is the one behind a public key: what it signs verifies, and no other BLS key than the one
derived from it is pinned. -/
structure CKey.SignsFor (C : Crypto) (pins : PinnedBLSPubKeys) (key : CKey) (k : CPubKey) : Prop where
  isValid : k.isValid = true
  ecdsa : ∀ hash sig, key.sign hash = some sig → k.verify C hash sig = true
  ecdsa_size : ∀ hash sig, key.sign hash = some sig → sig.length ≤ 72
  fValid : ∀ blsKey, key.deriveBLS = some blsKey → blsKey.pubKey.fValid = true
  bls : ∀ blsKey hash sig, key.deriveBLS = some blsKey → blsKey.sign hash = some sig →
    sig.fValid = true ∧ C.coreVerify blsKey.pubKey.data hash sig.data = true
  pinned : ∀ blsKey pk, key.deriveBLS = some blsKey → pins.getPinnedBLSPubKey k = some pk →
    blsKey.pubKey = pk

/-! ### The block -/

def newBlockVersion (consensus : Params) (nHeight : ℤ) : ℤ :=
  if consensus.networkUpgradeActive nHeight .UPGRADE_POMBL then 12
  else if consensus.isAdamActive nHeight then 11
  else if consensus.networkUpgradeActive nHeight .UPGRADE_TIME_PROTOCOL_V2 then 7
  else if consensus.networkUpgradeActive nHeight .UPGRADE_BIP65 then 5
  else 3

/-- What the loop over the elected miners collects. -/
structure CollectedSolutions where
  vAdamSolutions : List Bytes := []
  verifiedSolutionsForBlock : Std.ExtTreeMap CPubKey Bytes := ∅
  availableSolutions : ℕ := 0

/-- The solution of one miner is put into the block if it is at hand and valid. -/
def CollectedSolutions.collect (verify : (CPubKey × Bytes) × ℕ → Bool)
    (solutionsForBlock : Std.ExtTreeMap CPubKey Bytes) (c : CollectedSolutions) (m : CPubKey × ℕ) :
    CollectedSolutions :=
  let solution := solutionsForBlock[m.1]?.getD []
  if !solution.isEmpty && verify ((m.1, solution), m.2) then
    ⟨c.vAdamSolutions ++ [solution], c.verifiedSolutionsForBlock.insert m.1 solution,
      c.availableSolutions + 1⟩
  else { c with vAdamSolutions := c.vAdamSolutions ++ [[]] }

/-- A node that makes a block, off the regression-test network: there, missing solutions and keys are
made up. -/
structure BlockProducer (E : ValidationEnv) where
  isRegTestNet_eq_false : E.consensus.isRegTestNet = false
  /-- `GetChainTip`. -/
  pindexPrev : CBlockIndex
  masternodes : MasternodeState
  mapAdamSolutionsCache : Std.ExtTreeMap Uint256 (Std.ExtTreeMap CPubKey Bytes)
  /-- `GetNextWorkRequired` on the tip, which reads nothing of the new block but its version. -/
  getNextWorkRequired : ℤ → UInt32
  /-- `HasCoordinatorKey`. -/
  hasCoordinatorKey : CPubKey → Option CKey
  /-- The time and the transactions of the block, whose reward goes to the miners with a solution:
  `SolveProofOfStake`, or `CreateCoinbaseTx` and `UpdateTime`, and the transactions of the pool. -/
  fillBlock : List CPubKey → Option (UInt32 × List CTransaction)

namespace BlockProducer

variable {E : ValidationEnv} (P : BlockProducer E)

def nHeight : ℤ := P.pindexPrev.nHeight + 1

def nVersion : ℤ := newBlockVersion E.consensus P.nHeight

def adamSeed : Uint256 := E.getAdamSeed P.pindexPrev.hash

/-- `VerifyAdamSolution` of a miner's solution. -/
def verifySolution (m : (CPubKey × Bytes) × ℕ) : Bool :=
  E.verifyAdamSolution P.masternodes.pins P.pindexPrev.hash P.adamSeed m.1.1 m.1.2
    (P.getNextWorkRequired P.nVersion) P.nVersion P.nHeight m.2

def collectSolutions (vExpectedMiners : List CPubKey) : CollectedSolutions :=
  vExpectedMiners.zipIdx.foldl (CollectedSolutions.collect P.verifySolution
    (P.mapAdamSolutionsCache[P.pindexPrev.hash]?.getD ∅)) {}

/-- The coordinator that the node can sign for: the elected one, or else the fallback coordinator if it
is time for one. -/
def chooseCoordinator (vExpectedMiners : List CPubKey) (expectedCoordinator : CPubKey)
    (nBlockTimeDiff : ℤ) : Option (CPubKey × CKey) :=
  let fFallbackMode := P.nVersion == 11 || !E.consensus.isModelDActive P.nHeight
  let fAllowCoordinatorRotation :=
    fFallbackMode || decide (adamFallbackCoordinatorTimeoutSecs ≤ nBlockTimeDiff)
  match P.hasCoordinatorKey expectedCoordinator with
  | some key => some (expectedCoordinator, key)
  | none =>
    if fAllowCoordinatorRotation && !vExpectedMiners.isEmpty then do
      let c ← getAdamFallbackCoordinatorForSlot E.crypto P.masternodes.pins P.adamSeed P.nHeight
        nBlockTimeDiff vExpectedMiners (P.collectSolutions vExpectedMiners).verifiedSolutionsForBlock
      let key ← P.hasCoordinatorKey c.activeFallback
      return (c.activeFallback, key)
    else none

/-- The block that `CreateNewBlock` signs, and the coordinator it is signed for. The certificate of the
quorum and the signature of a stake are added later. -/
def createAdamBlock : Option (CBlock × CPubKey) := do
  guard (11 ≤ P.nVersion)
  let (vExpectedMiners, expectedCoordinator) ← E.selectAdamNodes none P.masternodes P.adamSeed P.nHeight
  let solutions := P.collectSolutions vExpectedMiners
  guard ¬(E.consensus.nAdamQuorumEnforcementHeight < P.nHeight ∧
    (solutions.availableSolutions : ℤ) < E.consensus.getAdamThreshold P.nHeight)
  let vValidSolutionMiners := ((vExpectedMiners.zip solutions.vAdamSolutions).filter
    fun m ↦ !m.2.isEmpty).map Prod.fst
  let (nTime, vtx) ← P.fillBlock vValidSolutionMiners
  let (coordinator, coordKey) ← P.chooseCoordinator vExpectedMiners expectedCoordinator
    (nTime.toNat - P.pindexPrev.nTime.toNat)
  let vAdamVRFProof ← signBLSWithECDSAFallback E.crypto coordKey P.adamSeed
  let pblock : CBlock :=
    { nVersion := P.nVersion
      hashPrevBlock := P.pindexPrev.hash
      hashMerkleRoot := (E.computeMerkleRoot (vtx.map (·.getHash E.crypto))).1
      nTime := nTime
      nBits := P.getNextWorkRequired P.nVersion
      nNonce := 0
      vAdamMiners := if P.nVersion = 11 then vExpectedMiners ++ [coordinator] else vExpectedMiners
      vAdamSolutions := solutions.vAdamSolutions
      vAdamVRFProof := vAdamVRFProof
      vtx := vtx }
  let vAdamCoordinatorSig ← signBLSWithECDSAFallback E.crypto coordKey (pblock.getHash E.crypto)
  return ({ pblock with vAdamCoordinatorSig := vAdamCoordinatorSig }, coordinator)

end BlockProducer

/-! ### Signatures -/

section Signatures

variable {C : Crypto} {pins : PinnedBLSPubKeys} {key : CKey} {k : CPubKey} {hash hash' : Uint256}
  {vchSig vchSig' : Bytes}

theorem exists_of_signBLSWithECDSAFallback (hkey : key.SignsFor C pins k)
    (h : signBLSWithECDSAFallback C key hash = some vchSig) :
    ∃ blsKey ecdsaSig blsSig, key.deriveBLS = some blsKey ∧
      key.sign (C.hash blsKey.pubKey.data) = some ecdsaSig ∧
      C.coreVerify blsKey.pubKey.data hash blsSig.data = true ∧
      blsKey.pubKey.fValid = true ∧ blsSig.fValid = true ∧ vchSig ≠ [] ∧
      CBLSSignedData.parse vchSig = some ⟨blsKey.pubKey, blsSig, ecdsaSig⟩ := by
  simp only [signBLSWithECDSAFallback, Option.bind_eq_bind, Option.bind_eq_some_iff] at h
  obtain ⟨blsKey, hbls, blsSig, hsig, ecdsaSig, hecdsa, h⟩ := h
  obtain rfl := Option.some.inj h
  have hpub := hkey.fValid blsKey hbls
  obtain ⟨hvalid, hcore⟩ := hkey.bls blsKey hash blsSig hbls hsig
  have hsize : ecdsaSig.length ≤ Reader.maxSize :=
    (hkey.ecdsa_size _ _ hecdsa).trans (by decide)
  have hparse : CBLSSignedData.parse (CBLSSignedData.serialize ⟨blsKey.pubKey, blsSig, ecdsaSig⟩ ++ []) =
      some ⟨blsKey.pubKey, blsSig, ecdsaSig⟩ :=
    CBLSSignedData.parse_serialize_append hpub hvalid hsize []
  rw [append_nil] at hparse
  refine ⟨blsKey, ecdsaSig, blsSig, hbls, hecdsa, hcore, hpub, hvalid, fun hnil ↦ ?_, hparse⟩
  have hlength := congrArg List.length hnil
  simp [CBLSSignedData.serialize, blsKey.pubKey.size_data] at hlength

theorem verify_signBLSWithECDSAFallback (hkey : key.SignsFor C pins k)
    (h : signBLSWithECDSAFallback C key hash = some vchSig) :
    verifyBLSWithECDSAFallback C pins hash k vchSig = true := by
  obtain ⟨blsKey, ecdsaSig, blsSig, hbls, hecdsa, hcore, hpub, hvalid, hne, hparse⟩ :=
    exists_of_signBLSWithECDSAFallback hkey h
  exact verifyBLSWithECDSAFallback_eq_true_iff.2 ⟨hne, hkey.isValid, _, hparse, hpub, hvalid,
    hkey.ecdsa _ _ hecdsa, fun pk hpk ↦ hkey.pinned blsKey pk hbls hpk, hcore⟩

theorem verify_of_verify (hkey : key.SignsFor C pins k)
    (h : signBLSWithECDSAFallback C key hash = some vchSig)
    (h' : signBLSWithECDSAFallback C key hash' = some vchSig') {k' : CPubKey}
    (hverify : verifyBLSWithECDSAFallback C pins hash k' vchSig = true) :
    verifyBLSWithECDSAFallback C pins hash' k' vchSig' = true := by
  obtain ⟨blsKey, ecdsaSig, blsSig, hbls, hecdsa, -, -, -, -, hparse⟩ :=
    exists_of_signBLSWithECDSAFallback hkey h
  obtain ⟨blsKey', ecdsaSig', blsSig', hbls', hecdsa', hcore', hpub', hvalid', hne', hparse'⟩ :=
    exists_of_signBLSWithECDSAFallback hkey h'
  obtain rfl := Option.some.inj (hbls.symm.trans hbls')
  obtain rfl := Option.some.inj (hecdsa.symm.trans hecdsa')
  obtain ⟨-, hvalid, d, hd, -, -, hauth, hpinned, -⟩ :=
    verifyBLSWithECDSAFallback_eq_true_iff.1 hverify
  obtain rfl := Option.some.inj (hparse.symm.trans hd)
  exact verifyBLSWithECDSAFallback_eq_true_iff.2
    ⟨hne', hvalid, _, hparse', hpub', hvalid', hauth, hpinned, hcore'⟩

theorem extractBLSPubKey_signBLSWithECDSAFallback (hkey : key.SignsFor C pins k)
    (h : signBLSWithECDSAFallback C key hash = some vchSig) :
    extractBLSPubKeyFromSignedData vchSig = key.deriveBLS.map (·.pubKey) := by
  obtain ⟨blsKey, ecdsaSig, blsSig, hbls, -, -, hpub, hvalid, hne, hparse⟩ :=
    exists_of_signBLSWithECDSAFallback hkey h
  simp [extractBLSPubKeyFromSignedData, hne, hparse, hpub, hvalid, hbls]

end Signatures

/-! ### The solutions -/

section Solutions

variable (verify : (CPubKey × Bytes) × ℕ → Bool) (solutionsForBlock : Std.ExtTreeMap CPubKey Bytes)

def chosenSolution (m : CPubKey × ℕ) : Bytes :=
  let solution := solutionsForBlock[m.1]?.getD []
  if !solution.isEmpty && verify ((m.1, solution), m.2) then solution else []

theorem verify_chosenSolution {m : CPubKey × ℕ}
    (h : (chosenSolution verify solutionsForBlock m).isEmpty = false) :
    verify ((m.1, chosenSolution verify solutionsForBlock m), m.2) = true := by
  unfold chosenSolution at h ⊢
  dsimp only at h ⊢
  split_ifs at h ⊢ with hcond
  · exact (Bool.and_eq_true_iff.1 hcond).2
  · cases h

def chosenSolutions (miners : List (CPubKey × ℕ)) : List ((CPubKey × Bytes) × ℕ) :=
  miners.map fun m ↦ ((m.1, chosenSolution verify solutionsForBlock m), m.2)

/-- `mapBlockSolutions`, as `CheckBlock` finds it. -/
def insertValid (m : Std.ExtTreeMap CPubKey Bytes) (sol : (CPubKey × Bytes) × ℕ) :
    Std.ExtTreeMap CPubKey Bytes :=
  if !sol.1.2.isEmpty && verify sol then m.insert sol.1.1 sol.1.2 else m

/-- **The loop over the miners**: it fills the places of the block, and the solutions that it keeps for
itself are those that are found in the block. -/
theorem foldl_collect (miners : List (CPubKey × ℕ)) (c : CollectedSolutions) :
    miners.foldl (CollectedSolutions.collect verify solutionsForBlock) c =
      ⟨c.vAdamSolutions ++ miners.map (chosenSolution verify solutionsForBlock),
        (chosenSolutions verify solutionsForBlock miners).foldl (insertValid verify)
          c.verifiedSolutionsForBlock,
        c.availableSolutions +
          (chosenSolutions verify solutionsForBlock miners).countP fun m ↦ !m.1.2.isEmpty⟩ := by
  induction miners generalizing c with
  | nil => simp [chosenSolutions]
  | cons m miners ih =>
    have hstep : CollectedSolutions.collect verify solutionsForBlock c m =
        ⟨c.vAdamSolutions ++ [chosenSolution verify solutionsForBlock m],
          insertValid verify c.verifiedSolutionsForBlock
            ((m.1, chosenSolution verify solutionsForBlock m), m.2),
          c.availableSolutions + if !(chosenSolution verify solutionsForBlock m).isEmpty then 1 else 0⟩ := by
      unfold CollectedSolutions.collect chosenSolution insertValid
      dsimp only
      split_ifs with hcond <;> simp_all
    rw [foldl_cons, ih, hstep]
    simp only [chosenSolutions, map_cons, foldl_cons, countP_cons, append_assoc, singleton_append]
    simp only [add_assoc, add_comm]

theorem foldlM_countP {ε α : Type} {f : ℕ → α → Except ε ℕ} {p : α → Bool} {l : List α}
    (h : ∀ a ∈ l, ∀ n, f n a = .ok (n + if p a then 1 else 0)) (n : ℕ) :
    l.foldlM f n = .ok (n + l.countP p) := by
  induction l generalizing n with
  | nil => rfl
  | cons a l ih =>
    rw [forall_mem_cons] at h
    rw [foldlM_cons, h.1 n, countP_cons, add_comm (l.countP p), ← add_assoc]
    exact ih h.2 _

theorem zipIdx_zip_map {α β : Type} (f : α × ℕ → β) (l : List α) (n : ℕ) :
    (l.zip ((l.zipIdx n).map f)).zipIdx n = (l.zipIdx n).map fun m ↦ ((m.1, f m), m.2) := by
  induction l generalizing n with
  | nil => rfl
  | cons a l ih => simp [zipIdx_cons, ih]

end Solutions

/-! ### What the block holds -/

namespace BlockProducer

variable {E : ValidationEnv} (P : BlockProducer E)

def places (vExpectedMiners : List CPubKey) : List ((CPubKey × Bytes) × ℕ) :=
  chosenSolutions P.verifySolution (P.mapAdamSolutionsCache[P.pindexPrev.hash]?.getD ∅)
    vExpectedMiners.zipIdx

theorem length_places (vExpectedMiners : List CPubKey) :
    (P.places vExpectedMiners).length = vExpectedMiners.length := by
  simp [places, chosenSolutions]

theorem collectSolutions_eq (vExpectedMiners : List CPubKey) : P.collectSolutions vExpectedMiners =
      ⟨(P.places vExpectedMiners).map (·.1.2),
        (P.places vExpectedMiners).foldl (insertValid P.verifySolution) ∅,
        (P.places vExpectedMiners).countP fun m ↦ !m.1.2.isEmpty⟩ := by
  rw [collectSolutions, foldl_collect]
  simp [places, chosenSolutions]

theorem verifySolution_of_mem_places {vExpectedMiners : List CPubKey} {m : (CPubKey × Bytes) × ℕ}
    (hm : m ∈ P.places vExpectedMiners) (hne : m.1.2.isEmpty = false) : P.verifySolution m = true := by
  obtain ⟨m, -, rfl⟩ := mem_map.1 hm
  exact verify_chosenSolution _ _ hne

/-- A block made by the node, whatever is added after its coordinator has signed. -/
structure Produced (block : CBlock) (coordinator : CPubKey) (vExpectedMiners : List CPubKey)
    (expectedCoordinator : CPubKey) (coordKey : CKey) : Prop where
  adam : 11 ≤ P.nVersion
  nVersion : block.nVersion = P.nVersion
  hashPrevBlock : block.hashPrevBlock = P.pindexPrev.hash
  nBits : block.nBits = P.getNextWorkRequired P.nVersion
  elected : E.selectAdamNodes none P.masternodes P.adamSeed P.nHeight =
    some (vExpectedMiners, expectedCoordinator)
  vAdamMiners : block.vAdamMiners =
    if P.nVersion = 11 then vExpectedMiners ++ [coordinator] else vExpectedMiners
  vAdamSolutions : block.vAdamSolutions = (P.collectSolutions vExpectedMiners).vAdamSolutions
  enough : E.consensus.nAdamQuorumEnforcementHeight < P.nHeight →
    E.consensus.getAdamThreshold P.nHeight ≤ (P.collectSolutions vExpectedMiners).availableSolutions
  chosen : P.chooseCoordinator vExpectedMiners expectedCoordinator
    (block.nTime.toNat - P.pindexPrev.nTime.toNat) = some (coordinator, coordKey)
  vAdamVRFProof : signBLSWithECDSAFallback E.crypto coordKey P.adamSeed = some block.vAdamVRFProof
  vAdamCoordinatorSig : signBLSWithECDSAFallback E.crypto coordKey (block.getHash E.crypto) =
    some block.vAdamCoordinatorSig

theorem produced_of_createAdamBlock {block : CBlock} {coordinator : CPubKey}
    (h : P.createAdamBlock = some (block, coordinator)) (vQuorumSig vchBlockSig : Bytes) :
    ∃ vExpectedMiners expectedCoordinator coordKey,
      P.Produced { block with vQuorumSig := vQuorumSig, vchBlockSig := vchBlockSig } coordinator
        vExpectedMiners expectedCoordinator coordKey := by
  simp only [createAdamBlock, Option.bind_eq_bind, Option.bind_eq_some_iff, Option.guard_eq_some'] at h
  obtain ⟨_, hversion, ⟨vExpectedMiners, expectedCoordinator⟩, helected, _, henough, ⟨nTime, vtx⟩, -,
    ⟨coordinator', coordKey⟩, hchosen, vAdamVRFProof, hproof, vAdamCoordinatorSig, hsig, h⟩ := h
  obtain ⟨rfl, rfl⟩ := Prod.mk.inj (Option.some.inj h)
  exact ⟨vExpectedMiners, expectedCoordinator, coordKey, hversion, rfl, rfl, rfl, helected, rfl, rfl,
    fun h ↦ not_lt.1 fun hlt ↦ henough ⟨h, hlt⟩, hchosen, hproof, hsig⟩

def KeysHeld : Prop :=
  ∀ k key, P.hasCoordinatorKey k = some key → key.SignsFor E.crypto P.masternodes.pins k

/-- Version 11: the puzzle does not depend on the miner's place, and the election is of a size and at a
height that `CheckBlock` allows. -/
structure FitsVersion11 : Prop where
  index : ∀ pins hashPrev seed k solution nBits nHeight i j,
    E.verifyAdamSolution pins hashPrev seed k solution nBits 11 nHeight i =
      E.verifyAdamSolution pins hashPrev seed k solution nBits 11 nHeight j
  strict : P.nVersion = 11 → P.nHeight ≤ E.consensus.nAdamStrictHeight
  size : P.nVersion = 11 → ∀ vExpectedMiners coordinator,
    E.selectAdamNodes none P.masternodes P.adamSeed P.nHeight = some (vExpectedMiners, coordinator) →
      E.consensus.getAdamThreshold P.nHeight ≤ vExpectedMiners.length + 1 ∧
        vExpectedMiners.length ≤ E.consensus.nAdamMinersCount + 2

theorem length_le_filter_ne {keys : List CPubKey} (hnodup : keys.Nodup) (k : CPubKey) :
    keys.length ≤ (keys.filter (· != k)).length + 1 := by
  rw [← hnodup.erase_eq_filter k, length_erase]
  split_ifs <;> omega

variable {encodeDestination : CTxDestination → String}

theorem nHeight_of_nVersion_eq (hmain : E.consensus = Params.main encodeDestination)
    (h : P.nVersion = 11) : 200 ≤ P.nHeight ∧ P.nHeight < 2000 := by
  simp only [BlockProducer.nVersion, newBlockVersion, hmain, Params.main, Params.isAdamActive,
    Params.networkUpgradeActive, Option.any_some, decide_eq_true_eq] at h
  split_ifs at h <;> omega

theorem fitsVersion11_of_main {S : ElectionState} {X : SolutionEnv}
    (hmain : E.consensus = Params.main encodeDestination)
    (helect : ∀ seed nHeight, E.selectAdamNodes none P.masternodes seed nHeight =
      Adam.selectAdamNodes E S seed nHeight)
    (hverify : E.verifyAdamSolution = Adam.verifyAdamSolution X) : P.FitsVersion11 where
  index pins hashPrev seed k solution nBits nHeight i j := by
    rw [hverify]
    rfl
  strict h := by
    have hlt := (P.nHeight_of_nVersion_eq hmain h).2
    rw [hmain]
    show P.nHeight ≤ 2500
    omega
  size h vExpectedMiners coordinator hselect := by
    obtain ⟨hle, hlt⟩ := P.nHeight_of_nVersion_eq hmain h
    have hthreshold (n : ℤ) (hn : 0 ≤ n ∧ n < 50000) : E.consensus.getAdamThreshold n = 5 := by
      rw [hmain]
      exact if_pos ⟨hn.2, hn.1⟩
    have hcount : E.consensus.nAdamMinersCount = 11 := by rw [hmain]; rfl
    have hpool : (rankKeys E P.adamSeed (S.getAdamMinerPool (P.nHeight - 1))).length =
        (S.getAdamMinerPool (P.nHeight - 1)).length := length_insertionSort _ _
    have hnodup : (rankKeys E P.adamSeed (S.getAdamMinerPool (P.nHeight - 1))).Nodup :=
      (perm_insertionSort _ _).nodup_iff.2 (S.nodup_minerPool _)
    rw [helect] at hselect
    simp only [Adam.selectAdamNodes, hthreshold _ (show 0 ≤ P.nHeight - 1 ∧ P.nHeight - 1 < 50000 by
      omega), hcount, ite_self] at hselect
    rw [hthreshold _ ⟨by omega, by omega⟩, hcount]
    split_ifs at hselect with hsmall hmasternodes
    · obtain ⟨rfl, rfl⟩ := Prod.mk.inj (Option.some.inj hselect)
      have hfilter := length_le_filter_ne hnodup ((rankKeys E P.adamSeed
        ((electableMasternodes E S (P.nHeight - 1)).map Prod.fst)).headD default)
      rw [length_take]
      omega
    · obtain ⟨rfl, -⟩ := Prod.mk.inj (Option.some.inj hselect)
      rw [length_take]
      omega

/-! ### What `CheckBlock` finds -/

theorem signed_of_findSyncCoordinator {E : ValidationEnv} {s : MasternodeState} {block : CBlock}
    {nHeight : ℤ} {k : CPubKey} (h : findSyncCoordinator E s block nHeight = some k) :
    verifyAdamCoordinatorSig E s block k = true := by
  simp only [findSyncCoordinator, Option.or_eq_some_iff, Option.filter_eq_some_iff] at h
  rcases h with ⟨-, h⟩ | ⟨-, ⟨-, h⟩ | ⟨-, h | ⟨-, h⟩⟩⟩
  · exact h
  · exact h
  · exact find?_some h
  · exact find?_some h

namespace Produced

variable {P} {block : CBlock} {coordinator expectedCoordinator : CPubKey}
  {vExpectedMiners : List CPubKey} {coordKey : CKey}
  (h : P.Produced block coordinator vExpectedMiners expectedCoordinator coordKey)

include h

theorem nVersion_cases : P.nVersion = 11 ∨ P.nVersion = 12 := by
  have hadam := h.adam
  unfold BlockProducer.nVersion newBlockVersion at hadam ⊢
  split_ifs at hadam ⊢ <;> simp_all

theorem minersToVerify_eq : minersToVerify block = P.places vExpectedMiners := by
  have hminers : (if block.nVersion = 11 then block.vAdamMiners.dropLast else block.vAdamMiners) =
      vExpectedMiners := by
    rw [h.nVersion, h.vAdamMiners]
    split_ifs
    · exact dropLast_concat
    · rfl
  unfold minersToVerify
  dsimp only
  rw [hminers, h.vAdamSolutions, collectSolutions_eq]
  show (vExpectedMiners.zip ((chosenSolutions _ _ _).map _)).zipIdx = _
  rw [chosenSolutions, map_map]
  exact zipIdx_zip_map _ vExpectedMiners 0

theorem length_vAdamSolutions : block.vAdamSolutions.length = vExpectedMiners.length := by
  rw [h.vAdamSolutions, collectSolutions_eq, length_map, length_places]

theorem verifyBlockSolution_eq (hfits : P.FitsVersion11) (m : (CPubKey × Bytes) × ℕ) :
    verifyBlockSolution E.toActivityEnv block (P.pindexPrev.nHeight + 1) P.masternodes.pins m =
      P.verifySolution m := by
  rw [verifyBlockSolution, h.nVersion, h.hashPrevBlock, h.nBits]
  show E.verifyAdamSolution _ _ _ _ _ _ _ _ _ = E.verifyAdamSolution _ _ _ _ _ _ _ _ _
  split_ifs with h11
  · rw [h11]
    exact hfits.index _ _ _ _ _ _ _ _ _
  · rfl

theorem countValidSolutions_eq (hfits : P.FitsVersion11) (strict : Bool) :
    countValidSolutions E P.masternodes block (P.pindexPrev.nHeight + 1) strict =
      .ok (P.collectSolutions vExpectedMiners).availableSolutions := by
  rw [countValidSolutions, h.minersToVerify_eq, collectSolutions_eq]
  refine (foldlM_countP (p := fun m ↦ !m.1.2.isEmpty) (fun m hm n ↦ ?_) 0).trans (by rw [zero_add])
  cases hempty : m.1.2.isEmpty with
  | true => rfl
  | false =>
    rw [h.verifyBlockSolution_eq hfits, P.verifySolution_of_mem_places hm hempty]
    rfl

theorem mapBlockSolutions_eq (hfits : P.FitsVersion11) : (minersToVerify block).foldl (fun m sol ↦
      if !sol.1.2.isEmpty && verifyBlockSolution E.toActivityEnv block (P.pindexPrev.nHeight + 1)
        P.masternodes.pins sol then m.insert sol.1.1 sol.1.2 else m)
        (∅ : Std.ExtTreeMap CPubKey Bytes) =
      (P.collectSolutions vExpectedMiners).verifiedSolutionsForBlock := by
  simp only [h.minersToVerify_eq, h.verifyBlockSolution_eq hfits, collectSolutions_eq]
  rfl

/-! ### The coordinator is accepted -/

theorem coordinator_cases :
    P.hasCoordinatorKey coordinator = some coordKey ∧ (coordinator = expectedCoordinator ∨
      ∃ c, getAdamFallbackCoordinatorForSlot E.crypto P.masternodes.pins P.adamSeed P.nHeight
          (block.nTime.toNat - P.pindexPrev.nTime.toNat) vExpectedMiners
          (P.collectSolutions vExpectedMiners).verifiedSolutionsForBlock = some c ∧
        coordinator = c.activeFallback) := by
  have hchosen := h.chosen
  unfold chooseCoordinator at hchosen
  dsimp only at hchosen
  split at hchosen
  · rename_i key hkey
    obtain ⟨rfl, rfl⟩ := Prod.mk.inj (Option.some.inj hchosen)
    exact ⟨hkey, Or.inl rfl⟩
  · split_ifs at hchosen
    simp only [Option.bind_eq_bind, Option.bind_eq_some_iff] at hchosen
    obtain ⟨c, hc, key, hkey, heq⟩ := hchosen
    obtain ⟨rfl, rfl⟩ := Prod.mk.inj (Option.some.inj heq)
    exact ⟨hkey, Or.inr ⟨c, hc, rfl⟩⟩

theorem signed_coordinator (hkeys : P.KeysHeld) :
    verifyAdamCoordinatorSig E P.masternodes block coordinator = true := by
  have hverify := verify_signBLSWithECDSAFallback (hkeys _ _ h.coordinator_cases.1) h.vAdamCoordinatorSig
  have hne := (verifyBLSWithECDSAFallback_eq_true_iff.1 hverify).1
  simp [verifyAdamCoordinatorSig, hverify, hne]

theorem proved_of_signed (hkeys : P.KeysHeld) {k : CPubKey}
    (hsigned : verifyAdamCoordinatorSig E P.masternodes block k = true) :
    verifyAdamVRFProof E P.masternodes block k = true := by
  rw [verifyAdamCoordinatorSig, Bool.and_eq_true] at hsigned
  have hverify := verify_of_verify (hkeys _ _ h.coordinator_cases.1) h.vAdamCoordinatorSig
    h.vAdamVRFProof hsigned.2
  have hne := (verifyBLSWithECDSAFallback_eq_true_iff.1 hverify).1
  rw [verifyAdamVRFProof, h.hashPrevBlock]
  exact Bool.and_eq_true_iff.2 ⟨by simpa using hne, hverify⟩

theorem checkCoordinatorKeys_eq_ok (hkeys : P.KeysHeld) : checkCoordinatorKeys block = .ok () := by
  have hkey := hkeys _ _ h.coordinator_cases.1
  have hproof := extractBLSPubKey_signBLSWithECDSAFallback hkey h.vAdamVRFProof
  have hsig := extractBLSPubKey_signBLSWithECDSAFallback hkey h.vAdamCoordinatorSig
  obtain ⟨blsKey, _, _, hbls, -⟩ := exists_of_signBLSWithECDSAFallback hkey h.vAdamVRFProof
  rw [checkCoordinatorKeys, rejectIf_eq_ok_iff, hproof, hsig, hbls]
  simp

variable {pView : Option CCoinsViewCache}

theorem checkAdamMiners_eq_ok (hfits : P.FitsVersion11)
    (hview : E.selectAdamNodes (pView.map (·.getCoin)) P.masternodes P.adamSeed P.nHeight =
      E.selectAdamNodes none P.masternodes P.adamSeed P.nHeight) :
    checkAdamMiners E P.masternodes pView block P.nHeight =
      .ok (if P.nVersion = 11 then coordinator else expectedCoordinator) := by
  have helected : E.selectAdamNodes (pView.map (·.getCoin)) P.masternodes
      (E.getAdamSeed block.hashPrevBlock) P.nHeight = some (vExpectedMiners, expectedCoordinator) := by
    rw [h.hashPrevBlock, ← h.elected]
    exact hview
  have hok {p : Prop} [Decidable p] {level : ℕ} {reason : String} (hp : ¬p) :
      rejectIf p level reason = .ok () := if_neg hp
  unfold checkAdamMiners
  simp only [helected, h.nVersion, h.vAdamMiners, h.length_vAdamSolutions]
  by_cases h11 : P.nVersion = 11
  · obtain ⟨hmin, hmax⟩ := hfits.size h11 _ _ h.elected
    simp only [if_pos h11, length_append, length_singleton, Nat.cast_add, Nat.cast_one, getLast?_concat]
    rw [hok (by omega), hok (by simp), hok (by simp)]
    split_ifs <;> rfl
  · simp only [if_neg h11]
    rw [hok (by simp), hok (by simp)]
    rfl

/-- **A coordinator is found in a block of version 12.** -/
theorem isSome_findSigningCoordinator (hfits : P.FitsVersion11) (hkeys : P.KeysHeld)
    (h12 : P.nVersion ≠ 11) :
    (findSigningCoordinator E P.masternodes block P.pindexPrev P.nHeight expectedCoordinator).isSome =
      true := by
  have hsigned := h.signed_coordinator hkeys
  by_cases hexpected : verifyAdamCoordinatorSig E P.masternodes block expectedCoordinator = true
  · simp [findSigningCoordinator, hexpected]
  -- another than the elected coordinator has signed, so it is late
  obtain hprimary | ⟨c, hc, hactive⟩ := h.coordinator_cases.2
  · exact absurd (hprimary ▸ hsigned) hexpected
  have hminers : block.vAdamMiners = vExpectedMiners := by rw [h.vAdamMiners, if_neg h12]
  obtain ⟨hlate, hmem⟩ := of_getAdamFallbackCoordinatorForSlot E.crypto P.masternodes.pins P.adamSeed
    P.nHeight _ hc
  have hne : vExpectedMiners.isEmpty = false := by
    rw [isEmpty_eq_false_iff]
    exact ne_nil_of_mem hmem
  have hfallback : getAdamFallbackCoordinatorForSlot E.crypto P.masternodes.pins
      (E.getAdamSeed block.hashPrevBlock) P.nHeight (block.nTime.toNat - P.pindexPrev.nTime.toNat)
      vExpectedMiners (P.collectSolutions vExpectedMiners).verifiedSolutionsForBlock = some c := by
    rw [h.hashPrevBlock]
    exact hc
  unfold findSigningCoordinator
  simp only [h.mapBlockSolutions_eq hfits, hminers, hfallback, ← hactive, hsigned]
  simp [hexpected, hlate, hne]

omit h in
theorem signed_of_findSigningCoordinator {s : MasternodeState} {pindexPrev : CBlockIndex} {nHeight : ℤ}
    {k : CPubKey}
    (hfound : findSigningCoordinator E s block pindexPrev nHeight expectedCoordinator = some k) :
    verifyAdamCoordinatorSig E s block k = true := by
  unfold findSigningCoordinator at hfound
  dsimp only at hfound
  split_ifs at hfound with hexpected hrotation hlate
  · exact Option.some.inj hfound ▸ hexpected
  · split at hfound
    · split_ifs at hfound with hactive hprev
      · exact Option.some.inj hfound ▸ hactive
      · exact Option.some.inj hfound ▸ hprev
    · cases hfound
  · exact find?_some hfound

/-- Whoever `CheckBlock` finds has signed. -/
theorem exists_found (hfits : P.FitsVersion11) (hkeys : P.KeysHeld) : ∃ k, (if 12 ≤ block.nVersion then
        findSigningCoordinator E P.masternodes block P.pindexPrev P.nHeight
          (if P.nVersion = 11 then coordinator else expectedCoordinator)
      else some (if P.nVersion = 11 then coordinator else expectedCoordinator) |>.filter
        (verifyAdamCoordinatorSig E P.masternodes block)) = some k ∧
      verifyAdamCoordinatorSig E P.masternodes block k = true := by
  rw [h.nVersion]
  obtain h11 | h12 := h.nVersion_cases
  · have hsigned := h.signed_coordinator hkeys
    exact ⟨coordinator, by simp [h11, hsigned], hsigned⟩
  · have h12' : P.nVersion ≠ 11 := by omega
    obtain ⟨k, hk⟩ := Option.isSome_iff_exists.1 (h.isSome_findSigningCoordinator hfits hkeys h12')
    refine ⟨k, ?_, signed_of_findSigningCoordinator hk⟩
    rw [if_pos (by omega), if_neg h12', hk]

/-- **The checks against the state of the node pass.** -/
theorem checkAdam_eq_ok (hfits : P.FitsVersion11) (hkeys : P.KeysHeld)
    (hview : E.selectAdamNodes (pView.map (·.getCoin)) P.masternodes P.adamSeed P.nHeight =
      E.selectAdamNodes none P.masternodes P.adamSeed P.nHeight) (fCheckSig : Bool) :
    checkAdam E P.masternodes pView block P.pindexPrev P.nHeight fCheckSig = .ok () := by
  obtain ⟨k, hfound, hsigned⟩ := h.exists_found hfits hkeys
  have hproof := h.proved_of_signed hkeys hsigned
  have henough : ¬(E.consensus.nAdamQuorumEnforcementHeight < P.nHeight ∧
      ((P.collectSolutions vExpectedMiners).availableSolutions : ℤ) <
        E.consensus.getAdamThreshold P.nHeight) := fun hlow ↦ not_lt.2 (h.enough hlow.1) hlow.2
  have hcount := h.countValidSolutions_eq hfits
  unfold checkAdam
  simp only [h.checkAdamMiners_eq_ok hfits hview, hcount, hfound, bind, Except.bind, rejectIf,
    if_neg henough, Option.getD_some, hproof, h.checkCoordinatorKeys_eq_ok hkeys]
  simp

theorem exists_findSyncCoordinator (hkeys : P.KeysHeld) :
    ∃ k, findSyncCoordinator E P.masternodes block P.nHeight = some k ∧
      verifyAdamCoordinatorSig E P.masternodes block k = true := by
  have hsigned := h.signed_coordinator hkeys
  have helected : E.selectAdamNodes none P.masternodes (E.getAdamSeed block.hashPrevBlock) P.nHeight =
      some (vExpectedMiners, expectedCoordinator) := by
    rw [h.hashPrevBlock, ← h.elected]
    rfl
  have hsome : (findSyncCoordinator E P.masternodes block P.nHeight).isSome = true := by
    unfold findSyncCoordinator
    simp only [helected, h.nVersion, h.vAdamMiners, Option.isSome_or, Bool.or_eq_true]
    obtain h11 | h12 := h.nVersion_cases
    · exact Or.inl (by simp [h11, hsigned])
    · obtain rfl | ⟨c, hc, hactive⟩ := h.coordinator_cases.2
      · exact Or.inr (Or.inl (by simp [hsigned]))
      · have hmem := (of_getAdamFallbackCoordinatorForSlot E.crypto P.masternodes.pins P.adamSeed
          P.nHeight _ hc).2
        refine Or.inr (Or.inr (Or.inl (find?_isSome.2 ⟨coordinator, ?_, hsigned⟩)))
        simpa [h12, hactive] using hmem
  obtain ⟨k, hk⟩ := Option.isSome_iff_exists.1 hsome
  exact ⟨k, hk, signed_of_findSyncCoordinator hk⟩

/-- **The checks during a sync pass.** -/
theorem checkAdamSync_eq_ok (hfits : P.FitsVersion11) (hkeys : P.KeysHeld)
    (henforced : E.consensus.nAdamQuorumEnforcementHeight < P.nHeight) :
    checkAdamSync E P.masternodes block P.pindexPrev P.nHeight = .ok () := by
  obtain ⟨k, hfound, hsigned⟩ := h.exists_findSyncCoordinator hkeys
  have hproof := h.proved_of_signed hkeys hsigned
  have henough := h.enough henforced
  have hle : (P.collectSolutions vExpectedMiners).availableSolutions ≤ vExpectedMiners.length := by
    rw [collectSolutions_eq]
    exact countP_le_length.trans_eq (P.length_places vExpectedMiners)
  have hminers : block.vAdamMiners.length =
      if P.nVersion = 11 then vExpectedMiners.length + 1 else vExpectedMiners.length := by
    rw [h.vAdamMiners]
    split_ifs <;> simp
  have hsizes : ¬((block.vAdamMiners.length : ℤ) < E.consensus.getAdamThreshold P.nHeight ∨
      block.vAdamSolutions.length <
        if block.nVersion = 11 then block.vAdamMiners.length - 1 else block.vAdamMiners.length) := by
    rw [h.length_vAdamSolutions, hminers, h.nVersion]
    split_ifs <;> omega
  have hcount := h.countValidSolutions_eq hfits
  unfold checkAdamSync
  simp only [rejectIf, if_neg hsizes, hcount, bind, Except.bind, if_neg (not_lt.2 henough), hfound,
    hproof, h.checkCoordinatorKeys_eq_ok hkeys]
  simp

/-- On the tip, `CheckBlock` makes one check or the other, or none. -/
theorem checkBlockAdam_eq_ok
    (hheight : 0 ≤ P.pindexPrev.nHeight) (hfits : P.FitsVersion11) (hkeys : P.KeysHeld)
    (hview : E.selectAdamNodes (pView.map (·.getCoin)) P.masternodes P.adamSeed P.nHeight =
      E.selectAdamNodes none P.masternodes P.adamSeed P.nHeight) {position : BlockPosition}
    (hindex : position.pindexPrev = some P.pindexPrev) (hposition : position.nHeight = P.nHeight) :
    checkBlockAdam E P.masternodes pView block position true = .ok () := by
  have hzero : ¬P.nHeight = 0 := by
    unfold BlockProducer.nHeight
    omega
  have hstrict : ¬(block.nVersion = 11 ∧ E.consensus.nAdamStrictHeight < P.pindexPrev.nHeight + 1) := by
    rintro ⟨h11, hlt⟩
    exact not_lt.2 (hfits.strict (h.nVersion.symm.trans h11)) hlt
  have hversion : ¬block.nVersion < 11 := by
    rw [h.nVersion]
    exact not_lt.2 h.adam
  have hcheck := h.checkAdam_eq_ok hfits hkeys hview true
  have hsync := h.checkAdamSync_eq_ok hfits hkeys
  unfold checkBlockAdam
  simp only [hindex, hposition, if_neg hzero, rejectIf, if_neg hversion, if_neg hstrict, bind, Except.bind]
  split_ifs with hadam honline hoffline
  · exact hcheck
  · exact hsync hoffline.2.1
  · rfl
  · rfl

end Produced

end BlockProducer

open BlockProducer

def sampleKey : CKey where
  deriveBLS := some ⟨sampleBLSKey, fun _ ↦ some ⟨List.replicate 96 1, true, by decide⟩⟩
  sign := fun _ ↦ some [1]

theorem signsFor_sampleKey {k : CPubKey} (hk : k.isValid = true) : sampleKey.SignsFor sampleCrypto ∅ k where
  isValid := hk
  ecdsa hash sig _ := by
    rw [CPubKey.verify, hk]
    rfl
  ecdsa_size hash sig h := by
    obtain rfl := Option.some.inj h
    decide
  fValid blsKey h := by
    obtain rfl := Option.some.inj h
    rfl
  bls blsKey hash sig h h' := by
    obtain rfl := Option.some.inj h
    obtain rfl := Option.some.inj h'
    exact ⟨rfl, rfl⟩
  pinned blsKey pk _ h := by simp [PinnedBLSPubKeys.getPinnedBLSPubKey] at h

/-- A node with the keys of all miners but the elected coordinator, 75 seconds after the tip. -/
def lateProducer : BlockProducer sampleEnv where
  isRegTestNet_eq_false := rfl
  pindexPrev := ⟨7, 6, 2300, 0⟩
  masternodes := ⟨.empty, .empty, ∅⟩
  mapAdamSolutionsCache := Std.ExtTreeMap.ofList
    [((7 : Uint256), Std.ExtTreeMap.ofList (sampleMiners.map fun k ↦ (k, ([0] : Bytes))))]
  getNextWorkRequired := fun _ ↦ 0
  hasCoordinatorKey := fun k ↦ if k ∈ sampleMiners.tail then some sampleKey else none
  fillBlock := fun _ ↦ some (75, [])

theorem keysHeld_lateProducer : lateProducer.KeysHeld := by
  intro k key h
  have hvalid : ∀ k ∈ sampleMiners.tail, k.isValid = true := by decide
  simp only [lateProducer] at h
  split_ifs at h with hmem
  obtain rfl := Option.some.inj h
  exact signsFor_sampleKey (hvalid k hmem)

theorem fitsVersion11_lateProducer : lateProducer.FitsVersion11 where
  index _ _ _ _ _ _ _ _ _ := rfl
  strict h := absurd h (by decide)
  size h := absurd h (by decide)

end KristaTech
