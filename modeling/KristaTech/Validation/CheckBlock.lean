import KristaTech.Validation.State
import KristaTech.Quorum.Rotation

/-!
# Checking a block on its own

`CheckTransaction` of `consensus/tx_verify.cpp`, `CheckBlockHeader` and `CheckBlock` of `main.cpp`.

Although `CheckBlock` begins with "checks that are independent of context", much of it does depend on
the node: the quorum certificate and the payee are only checked when the block's parent is the tip of
the active chain (or the block the given view stands at), and not during a sync. The ADAM checks have
a second, weaker form for that case.
-/

namespace KristaTech

open Masternode Llmq Adam Except

/-- `MAX_BLOCK_SIZE_CURRENT`. -/
def maxBlockSizeCurrent : ℕ := 8000000

/-- `MAX_BLOCK_SIGOPS_LEGACY`. -/
def maxBlockSigOpsLegacy : ℕ := 20000

/-- `MAX_STANDARD_TX_SIZE`. -/
def maxStandardTxSize : ℕ := 150000

variable (E : ValidationEnv)

/-! ### Transactions -/

def checkOutput (tx : CTransaction) (nValueOut : CAmount) (txout : CTxOut) :
    Except ValidationError CAmount := do
  rejectIf (txout.isEmpty && !tx.isCoinBase && !tx.isCoinStake) 100 "bad-txns-vout-empty"
  rejectIf (txout.nValue < 0) 100 "bad-txns-vout-negative"
  rejectIf (E.consensus.nMaxMoneyOut < txout.nValue) 100 "bad-txns-vout-toolarge"
  rejectIf (!E.consensus.moneyRange (nValueOut + txout.nValue)) 100 "bad-txns-txouttotal-toolarge"
  return nValueOut + txout.nValue

/-- `CheckTransaction`. -/
def checkTransaction (tx : CTransaction) : Except ValidationError Unit := do
  rejectIf tx.vin.isEmpty 10 "bad-txns-vin-empty"
  rejectIf tx.vout.isEmpty 10 "bad-txns-vout-empty"
  rejectIf (maxStandardTxSize < tx.serialize.length) 100 "bad-txns-oversize"
  let _ ← tx.vout.foldlM (checkOutput E tx) 0
  rejectIf (¬(tx.vin.map (·.prevout)).Nodup) 100 "bad-txns-inputs-duplicate"
  if tx.isCoinBase then
    rejectIf (tx.vin.head?.any fun txin ↦
      txin.scriptSig.length < 2 || 150 < txin.scriptSig.length) 100 "bad-cb-length"
  else
    rejectIf (!E.isZeroCoinPoW tx && tx.vin.any fun txin ↦
      txin.prevout.isNull || txin.prevout == zeroCoinSentinel) 10 "bad-txns-prevout-null"

/-- The transactions of a block one by one; at most one registers without a coin. -/
def checkTransactions (vtx : List CTransaction) : Except ValidationError ℕ :=
  vtx.foldlM (fun nZeroCoinPoWTxCount tx ↦ do
    checkTransaction E tx
    if E.isZeroCoinPoW tx then
      rejectIf (0 < nZeroCoinPoWTxCount) 100 "bad-blk-too-many-zerocoin-pow"
      return nZeroCoinPoWTxCount + 1
    else return nZeroCoinPoWTxCount) 0

/-! ### The header and the form of the block -/

/-- `CheckBlockHeader`. From version 11 on there is no proof of work. -/
def checkBlockHeader (block : CBlockHeader) (fCheckPOW : Bool) : Except ValidationError Unit :=
  if 11 ≤ block.nVersion then do
    rejectIf (32 < block.vAdamMiners.length || 32 < block.vAdamSolutions.length ||
      512 < block.vAdamVRFProof.length || 512 < block.vAdamCoordinatorSig.length ||
      4096 < block.vQuorumSig.length) 100 "bad-adam-header-limits"
    rejectIf (block.vAdamMiners.any fun miner ↦ !miner.isValid) 100 "bad-adam-miner-pubkey"
    rejectIf (block.vAdamSolutions.any fun sol ↦ 512 < sol.length) 100 "bad-adam-header-limits"
  else rejectIf (fCheckPOW && !E.checkProofOfWork (block.getHash E.crypto) block.nBits) 50 "high-hash"

/-- The merkle root, the size and the places of the coinbase and the coinstake. A block is proof of
stake if its second transaction is a coinstake, so the test for a missing one cannot fail. -/
def checkBlockForm (block : CBlock) (fCheckMerkleRoot : Bool) : Except ValidationError Unit := do
  let (hashMerkleRoot2, mutated) := E.computeMerkleRoot (block.vtx.map (·.getHash E.crypto))
  rejectIf (fCheckMerkleRoot && block.hashMerkleRoot != hashMerkleRoot2) 100 "bad-txnmrklroot" true
  rejectIf (fCheckMerkleRoot && mutated) 100 "bad-txns-duplicate" true
  rejectIf (block.vtx.isEmpty || maxBlockSizeCurrent < block.vtx.length ||
    maxBlockSizeCurrent < block.serialize.length) 100 "bad-blk-length"
  rejectIf (!block.vtx.head?.any (·.isCoinBase)) 100 "bad-cb-missing"
  rejectIf (block.vtx.tail.any (·.isCoinBase)) 100 "bad-cb-multiple"
  if block.isProofOfStake then
    rejectIf (block.vtx.head?.any fun tx ↦ tx.vout.length != 1 || !tx.vout.head?.any (·.isEmpty)) 100
      "bad-cb-pos"
    rejectIf ((block.vtx.drop 2).any (·.isCoinStake)) 100 "bad-cs-multiple"

/-! ### The place of the block in the chain -/

/-- Where the block stands, and whether its contextual checks are skipped. -/
structure BlockPosition where
  pindexPrev : Option CBlockIndex
  nHeight : ℤ
  fParentIsActiveTip : Bool
  fBlockOfflineSync : Bool
  deriving DecidableEq, Repr

section Position

variable (ctx : ChainContext) (pView : Option CCoinsViewCache)

/-- The node is catching up, or has not yet rebuilt its masternode state. -/
def offlineSync : Bool :=
  ctx.isInitialBlockDownload || ctx.fReindex || (ctx.fVerifyingBlocks && pView.isNone) ||
    (!ctx.fMasternodePingStateInitialized && !E.consensus.isRegTestNet)

/-- The parent: the tip if it is the tip, otherwise what the index has. -/
def findParent (hashPrevBlock : Uint256) : Option CBlockIndex :=
  (ctx.tip.filter (·.hash == hashPrevBlock)).or (ctx.mapBlockIndex hashPrevBlock)

/-- The contextual checks can be made against the state as it is: the parent is the tip, or the
given view stands at the parent and the parent is in the active chain. -/
def parentIsActiveTip (hashPrevBlock : Uint256) : Bool :=
  (ctx.fMasternodePingStateInitialized || E.consensus.isRegTestNet) &&
    (ctx.tip.any (·.hash == hashPrevBlock) || (ctx.mapBlockIndex hashPrevBlock).any fun pindexPrev ↦
        pView.any (·.getBestBlock == hashPrevBlock) && ctx.contains pindexPrev.hash)

/-- The part of `CheckBlock` that finds out where the block stands. -/
def blockPosition (hashPrevBlock : Uint256) : BlockPosition :=
  let fOfflineSync := offlineSync E ctx pView
  match findParent ctx hashPrevBlock with
  | none => ⟨none, 0, false, fOfflineSync⟩
  | some pindexPrev =>
    let nHeight := pindexPrev.nHeight + 1
    let fParentIsActiveTip := parentIsActiveTip E ctx pView hashPrevBlock
    ⟨some pindexPrev, nHeight, fParentIsActiveTip,
      if fParentIsActiveTip && (1550 ≤ nHeight || E.consensus.isRegTestNet) then false
      else fOfflineSync || !fParentIsActiveTip⟩

end Position

/-! ### The quorum certificate and the payee -/

section Contextual

variable (s : MasternodeState) (pView : Option CCoinsViewCache) (block : CBlock)

def checkQuorumSig (nHeight : ℤ) (fBlockOfflineSync fCheckSig : Bool) : Except ValidationError Unit := do
  rejectIf (block.nVersion ≠ 12) 100 "bad-version"
  if fCheckSig && !block.vQuorumSig.isEmpty then
    match CQuorumSignature.parse block.vQuorumSig with
    | none => .error (.invalid 100 "bad-quorum-sig-format" false)
    | some qsig => rejectIf (qsig.blockHash ≠ block.getHash E.crypto) 0 "bad-quorum-sig-hash"
  if fCheckSig && !fBlockOfflineSync && E.consensus.isModelDActive nHeight then
    let quorum := E.getActiveQuorum (pView.map (·.getCoin)) s nHeight (some block.hashPrevBlock)
    if quorum.members.isEmpty then
      rejectIf (!E.consensus.isRegTestNet && E.consensus.nAdamQuorumEnforcementHeight < nHeight) 100
        "empty-quorum-members"
    else
      rejectIf block.vQuorumSig.isEmpty 100 "missing-quorum-sig"
      match CQuorumSignature.parse block.vQuorumSig with
      | none => .error (.invalid 100 "bad-quorum-sig-format" false)
      | some qsig =>
        rejectIf (qsig.blockHash ≠ block.getHash E.crypto) 0 "bad-quorum-sig-hash"
        rejectIf (!qsig.verify E.crypto s.pins quorum) 0 "bad-quorum-sig-verify"

/-- What is checked against the parent, if the parent is known. -/
def checkAgainstParent (position : BlockPosition) (fCheckSig : Bool) : Except ValidationError Unit :=
  if position.pindexPrev.isNone then .ok ()
  else do
    if E.consensus.networkUpgradeActive position.nHeight .UPGRADE_POMBL then
      checkQuorumSig E s pView block position.nHeight position.fBlockOfflineSync fCheckSig
    rejectIf (position.nHeight ≠ 0 ∧ !position.fBlockOfflineSync ∧
      !E.isBlockPayeeValid (pView.map (·.getCoin)) s block position.nHeight) 0 "bad-cb-payee"

/-! ### The ADAM checks -/

/-- `VerifyAdamCoordinatorSig`. -/
def verifyAdamCoordinatorSig (coordinatorKey : CPubKey) : Bool :=
  !block.vAdamCoordinatorSig.isEmpty && verifyBLSWithECDSAFallback E.crypto s.pins
    (block.getHash E.crypto) coordinatorKey block.vAdamCoordinatorSig

/-- `VerifyAdamVRFProof`. -/
def verifyAdamVRFProof (coordinatorKey : CPubKey) : Bool :=
  !block.vAdamVRFProof.isEmpty && verifyBLSWithECDSAFallback E.crypto s.pins
    (E.getAdamSeed block.hashPrevBlock) coordinatorKey block.vAdamVRFProof

/-- How many of the solutions are valid; whether an invalid one is a fault is up to the caller. -/
def countValidSolutions (nHeight : ℤ) (strict : Bool) : Except ValidationError ℕ :=
  (minersToVerify block).foldlM (fun validSolutionsCount m ↦
    if m.1.2.isEmpty then .ok validSolutionsCount
    else if verifyBlockSolution E.toActivityEnv block nHeight s.pins m then
      .ok (validSolutionsCount + 1)
    else if strict then .error (.invalid 100 "bad-adam-solution-invalid" false)
    else .ok validSolutionsCount) 0

/-- The proof and the coordinator's signature are made with one BLS key, where both are there. -/
def checkCoordinatorKeys : Except ValidationError Unit :=
  rejectIf (!block.vAdamVRFProof.isEmpty ∧ !block.vAdamCoordinatorSig.isEmpty ∧
    (extractBLSPubKeyFromSignedData block.vAdamVRFProof = none ∨
      extractBLSPubKeyFromSignedData block.vAdamVRFProof ≠
        extractBLSPubKeyFromSignedData block.vAdamCoordinatorSig)) 100
    "bad-adam-vrf-coord-bls-mismatch"

/-- The miners are the elected ones: the coordinator the block is expected to have. -/
def checkAdamMiners (nAdamActualHeight : ℤ) : Except ValidationError CPubKey := do
  let elected := E.selectAdamNodes (pView.map (·.getCoin)) s (E.getAdamSeed block.hashPrevBlock)
    nAdamActualHeight
  let nMiners := block.vAdamMiners.length
  if block.nVersion = 11 then
    rejectIf ((nMiners : ℤ) < E.consensus.getAdamThreshold nAdamActualHeight ∨
      E.consensus.nAdamMinersCount + 3 < nMiners) 100 "bad-adam-miners-size"
    rejectIf (block.vAdamSolutions.length + 1 ≠ nMiners ∧ block.vAdamSolutions.length ≠ nMiners) 100
      "bad-adam-solutions-size"
    if 1550 ≤ nAdamActualHeight then
      match elected with
      | none => .error (.invalid 100 "bad-adam-election" false)
      | some (vExpectedMiners, _) =>
        rejectIf (nMiners ≠ vExpectedMiners.length + 1 ∨
          !vExpectedMiners.isPrefixOf block.vAdamMiners) 0 "bad-adam-miners"
    match block.vAdamMiners.getLast? with
    | some expectedCoordinator => .ok expectedCoordinator
    | none => .error .thrown
  else
    match elected with
    | none => .error (.invalid 100 "bad-adam-election" false)
    | some (vExpectedMiners, expectedCoordinator) =>
      rejectIf (block.vAdamMiners ≠ vExpectedMiners) 0 "bad-adam-miners"
      rejectIf (block.vAdamSolutions.length ≠ nMiners) 100 "bad-adam-solutions-size"
      .ok expectedCoordinator

/-- The coordinator that signed a block of version 12: the expected one, or once its time is up the
fallback coordinator of the slot, or before Model D any miner. -/
def findSigningCoordinator (pindexPrev : CBlockIndex) (nAdamActualHeight : ℤ)
    (expectedCoordinator : CPubKey) : Option CPubKey :=
  let signed := verifyAdamCoordinatorSig E s block
  let nBlockTimeDiff : ℤ := block.nTime.toNat - pindexPrev.nTime.toNat
  let late := adamFallbackCoordinatorTimeoutSecs ≤ nBlockTimeDiff
  if signed expectedCoordinator then some expectedCoordinator
  else if (!E.consensus.isModelDActive nAdamActualHeight || late) && !block.vAdamMiners.isEmpty then
    if late then
      let mapBlockSolutions := (minersToVerify block).foldl (fun m sol ↦
        if !sol.1.2.isEmpty && verifyBlockSolution E.toActivityEnv block (pindexPrev.nHeight + 1)
          s.pins sol then m.insert sol.1.1 sol.1.2 else m) (∅ : Std.ExtTreeMap CPubKey Bytes)
      match getAdamFallbackCoordinatorForSlot E.crypto s.pins (E.getAdamSeed block.hashPrevBlock)
        nAdamActualHeight nBlockTimeDiff block.vAdamMiners mapBlockSolutions with
      | some c =>
        if signed c.activeFallback then some c.activeFallback
        else if signed c.prevFallback then some c.prevFallback else none
      | none => none
    else block.vAdamMiners.reverse.find? signed
  else none

def checkAdam (pindexPrev : CBlockIndex) (nAdamActualHeight : ℤ) (fCheckSig : Bool) :
    Except ValidationError Unit := do
  let expectedCoordinator ← checkAdamMiners E s pView block nAdamActualHeight
  let enforced := E.consensus.nAdamQuorumEnforcementHeight < nAdamActualHeight
  let validSolutionsCount ← countValidSolutions E s block (pindexPrev.nHeight + 1) enforced
  rejectIf (enforced ∧ (validSolutionsCount : ℤ) < E.consensus.getAdamThreshold nAdamActualHeight) 0
    "bad-adam-quorum"
  let found := if 12 ≤ block.nVersion then
      findSigningCoordinator E s block pindexPrev nAdamActualHeight expectedCoordinator
    else some expectedCoordinator |>.filter (verifyAdamCoordinatorSig E s block)
  let signingCoordinator := found.getD expectedCoordinator
  let required := fCheckSig ∧ (enforced ∨ block.nVersion ≠ 11)
  rejectIf (required ∧ !verifyAdamVRFProof E s block signingCoordinator) 0 "bad-adam-vrf-proof"
  rejectIf (required ∧ found.isNone) 0 "bad-adam-coord-sig"
  if fCheckSig then checkCoordinatorKeys block

/-- The coordinator that signed a block met during a sync: a miner or an elected key if one did,
otherwise any key of the pool. -/
def findSyncCoordinator (nAdamActualHeight : ℤ) : Option CPubKey :=
  let signed := verifyAdamCoordinatorSig E s block
  ((if block.nVersion = 11 then block.vAdamMiners.getLast? else none).filter signed).or <|
  (((E.selectAdamNodes none s (E.getAdamSeed block.hashPrevBlock) nAdamActualHeight).map
    Prod.snd).filter signed).or <|
  (block.vAdamMiners.reverse.find? signed).or <|
  (E.getAdamMinerPool none s (nAdamActualHeight - 1)).find? signed

def checkAdamSync (pindexPrev : CBlockIndex) (nAdamActualHeight : ℤ) : Except ValidationError Unit := do
  let threshold := E.consensus.getAdamThreshold nAdamActualHeight
  let nMiners := block.vAdamMiners.length
  rejectIf ((nMiners : ℤ) < threshold ∨
    block.vAdamSolutions.length < if block.nVersion = 11 then nMiners - 1 else nMiners) 100
    "bad-adam-solutions-size"
  let validSolutionsCount ← countValidSolutions E s block (pindexPrev.nHeight + 1) true
  rejectIf ((validSolutionsCount : ℤ) < threshold) 0 "bad-adam-quorum"
  match findSyncCoordinator E s block nAdamActualHeight with
  | some syncCoordinator =>
    rejectIf (!verifyAdamVRFProof E s block syncCoordinator) 100 "bad-adam-vrf-proof"
  | none =>
    let vrf := verifySelfContainedBLSSignedData E.crypto (E.getAdamSeed block.hashPrevBlock)
      block.vAdamVRFProof
    let coord := verifySelfContainedBLSSignedData E.crypto (block.getHash E.crypto)
      block.vAdamCoordinatorSig
    rejectIf (vrf = none ∨ vrf ≠ coord) 100 "bad-adam-coord-sig"
  checkCoordinatorKeys block

end Contextual

/-- The height a coinbase names in its input; 0 if it names none. -/
def coinbaseHeight (block : CBlock) : ℤ :=
  match block.vtx.head?.bind fun tx ↦ tx.vin.head?.bind fun txin ↦ CScript.getOp txin.scriptSig with
  | some op =>
    if op.vch.isEmpty then 0 else ((CScriptNum.ofVch op.vch false).map CScriptNum.getint).getD 0
  | none => 0

/-- The ADAM part of `CheckBlock`. -/
def checkBlockAdam (s : MasternodeState) (pView : Option CCoinsViewCache) (block : CBlock)
    (position : BlockPosition) (fCheckSig : Bool) : Except ValidationError Unit := do
  let nAdamActualHeight := if position.nHeight = 0 then coinbaseHeight block else position.nHeight
  if block.getHash E.crypto ≠ E.consensus.hashGenesisBlock ∧ (11 ≤ block.nVersion ∨
      block.isProofOfWork ∧ E.consensus.isAdamActive nAdamActualHeight ∧ nAdamActualHeight < 10000000) then
    rejectIf (block.nVersion < 11) 100 "bad-version"
    match position.pindexPrev with
    | none => .error (.invalid 100 "bad-adam-predecessor" false)
    | some pindexPrev =>
      let nAdamActualHeight :=
        if nAdamActualHeight = 0 then pindexPrev.nHeight + 1 else nAdamActualHeight
      rejectIf (block.nVersion = 11 ∧ E.consensus.nAdamStrictHeight < pindexPrev.nHeight + 1) 100
        "bad-version"
      -- the source computes the flag once more here; with the parent known it is the same
      if !position.fBlockOfflineSync || E.consensus.isRegTestNet then
        checkAdam E s pView block pindexPrev nAdamActualHeight fCheckSig
      else if fCheckSig ∧ E.consensus.nAdamQuorumEnforcementHeight < nAdamActualHeight ∧
          E.getAdamSeed block.hashPrevBlock ≠ 0 then
        checkAdamSync E s block pindexPrev nAdamActualHeight

/-- `CheckBlock`: the new value of the block's `fChecked`. -/
def checkBlock (ctx : ChainContext) (s : MasternodeState) (block : CBlock)
    (fCheckPOW fCheckMerkleRoot fCheckSig : Bool) (pView : Option CCoinsViewCache) :
    Except ValidationError Bool :=
  if block.fChecked then .ok true
  else do
    checkBlockHeader E block.toCBlockHeader (!block.isProofOfStake && fCheckPOW)
    checkBlockForm E block fCheckMerkleRoot
    let position := blockPosition E ctx pView block.hashPrevBlock
    checkAgainstParent E s pView block position fCheckSig
    let _ ← checkTransactions E block.vtx
    rejectIf (maxBlockSigOpsLegacy < (block.vtx.map getLegacySigOpCount).sum) 100 "bad-blk-sigops" true
    checkBlockAdam E s pView block position fCheckSig
    return fCheckPOW && fCheckMerkleRoot && fCheckSig &&
      (!position.fBlockOfflineSync || E.consensus.isRegTestNet)

/-! ### What passing says -/

variable {E}

/-- The form of a block and of its transactions, as far as it does not depend on the node. -/
structure FormChecked (E : ValidationEnv) (block : CBlock) : Prop where
  first : block.vtx.head?.any (·.isCoinBase) = true
  others : block.vtx.tail.any (·.isCoinBase) = false
  transactions : ∀ tx ∈ block.vtx, checkTransaction E tx = .ok ()

theorem checkTransaction_of_checkTransactions {vtx : List CTransaction} {n n' : ℕ}
    (h : vtx.foldlM (fun nZeroCoinPoWTxCount tx ↦ do
      checkTransaction E tx
      if E.isZeroCoinPoW tx then
        rejectIf (0 < nZeroCoinPoWTxCount) 100 "bad-blk-too-many-zerocoin-pow"
        return nZeroCoinPoWTxCount + 1
      else return nZeroCoinPoWTxCount) n = .ok n') : ∀ tx ∈ vtx, checkTransaction E tx = .ok () := by
  induction vtx generalizing n with
  | nil => nofun
  | cons tx vtx ih =>
    rw [List.foldlM_cons] at h
    obtain ⟨n₁, hn₁, hrest⟩ := bind_eq_ok_iff.1 h
    obtain ⟨_, hcheck, -⟩ := bind_eq_ok_iff.1 hn₁
    rw [List.forall_mem_cons]
    exact ⟨hcheck, ih hrest⟩

/-- `CheckBlock` checks the form of a block that it has not checked before. -/
theorem formChecked_of_checkBlock {ctx : ChainContext} {s : MasternodeState} {block : CBlock}
    {fCheckPOW fCheckMerkleRoot fCheckSig : Bool} {pView : Option CCoinsViewCache} {b : Bool}
    (h : checkBlock E ctx s block fCheckPOW fCheckMerkleRoot fCheckSig pView = .ok b)
    (hflag : block.fChecked = false) : FormChecked E block := by
  rw [checkBlock, hflag, if_neg Bool.false_ne_true] at h
  obtain ⟨_, -, h⟩ := bind_eq_ok_iff.1 h
  obtain ⟨_, hform, h⟩ := bind_eq_ok_iff.1 h
  obtain ⟨_, -, h⟩ := bind_eq_ok_iff.1 h
  obtain ⟨_, htxs, -⟩ := bind_eq_ok_iff.1 h
  obtain ⟨_, -, hform⟩ := bind_eq_ok_iff.1 hform
  obtain ⟨_, -, hform⟩ := bind_eq_ok_iff.1 hform
  obtain ⟨_, -, hform⟩ := bind_eq_ok_iff.1 hform
  obtain ⟨_, hfirst, hform⟩ := bind_eq_ok_iff.1 hform
  obtain ⟨_, hothers, -⟩ := bind_eq_ok_iff.1 hform
  rw [rejectIf_eq_ok_iff, Bool.not_eq_true', Bool.not_eq_false] at hfirst
  rw [rejectIf_eq_ok_iff, Bool.not_eq_true] at hothers
  exact ⟨hfirst, hothers, checkTransaction_of_checkTransactions htxs⟩

end KristaTech
