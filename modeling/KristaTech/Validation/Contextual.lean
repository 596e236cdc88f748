import KristaTech.Validation.CheckBlock

/-!
# Checking a block against its place in the chain

`IsFinalTx` of `consensus/tx_verify.cpp`; `CheckBlockTime`, `ContextualCheckBlockHeader` and
`ContextualCheckBlock` of `main.cpp`. The header is checked when it enters the block index, the
block when it is stored; neither is checked again when the block is connected.

The parent's data is reached through the index. The coins of the parent are not: a spent output is
looked up with `GetTransaction`, and an output that is not found is not checked.
-/

namespace KristaTech

open Masternode

/-- `LOCKTIME_THRESHOLD`. -/
def locktimeThreshold : ℤ := 500000000

/-- What the contextual checks read besides the chain: the clock, the sporks, the checkpoints and
the stored transactions. -/
structure ContextualEnv where
  /-- `GetTransaction`, also by way of the coins. -/
  getTransaction : Uint256 → Option CTransaction
  getAdjustedTime : ℤ
  maxFutureBlockTime : CBlockIndex → ℤ
  minPastBlockTime : CBlockIndex → ℤ
  nTimeSlotLength : ℤ
  /-- `SPORK_104_MAX_BLOCK_TIME`. -/
  sporkMaxBlockTime : ℤ
  /-- `SPORK_105_MAX_BLOCK_SIZE`. -/
  sporkMaxBlockSize : ℕ
  /-- `Checkpoints::CheckBlock`. -/
  checkpointsCheckBlock : ℤ → Uint256 → Bool
  /-- The height of `Checkpoints::GetLastCheckpoint`. -/
  lastCheckpoint : Option ℤ
  /-- `-maxreorg`. -/
  nMaxReorgDepth : ℤ

/-- `chainActive.Height()`. -/
def ChainContext.height (ctx : ChainContext) : ℤ := ctx.tip.elim (-1) (·.nHeight)

variable (E : ValidationEnv) (X : ContextualEnv) (ctx : ChainContext)

/-- `IsFinalTx`. -/
def isFinalTx (tx : CTransaction) (nBlockHeight nBlockTime : ℤ) : Bool :=
  let nBlockHeight := if nBlockHeight = 0 then ctx.height else nBlockHeight
  let nBlockTime := if nBlockTime = 0 then X.getAdjustedTime else nBlockTime
  let nLockTime : ℤ := tx.nLockTime.toNat
  nLockTime == 0 || nLockTime < (if nLockTime < locktimeThreshold then nBlockHeight else nBlockTime) ||
    tx.vin.all fun txin ↦ txin.nSequence == sequenceFinal

/-- `CheckBlockTime`. -/
def checkBlockTime (block : CBlockHeader) (pindexPrev : CBlockIndex) : Except ValidationError Unit :=
  if E.consensus.isRegTestNet then .ok ()
  else do
    let blockTime : ℤ := block.nTime.toNat
    rejectIf (X.maxFutureBlockTime pindexPrev < blockTime) 0 "time-too-new"
    rejectIf (blockTime ≤ X.minPastBlockTime pindexPrev) 50 "time-too-old"
    rejectIf (E.consensus.networkUpgradeActive (pindexPrev.nHeight + 1) .UPGRADE_TIME_PROTOCOL_V2 ∧
      blockTime % X.nTimeSlotLength ≠ 0) 100 "invalid-time-mask"
    rejectIf (X.sporkMaxBlockTime < blockTime) 0 "time-limit"

def rejectsVersion (nVersion nHeight : ℤ) : Bool :=
  (nVersion < 3 && 1 ≤ nHeight) ||
  (nVersion < 5 && E.consensus.networkUpgradeActive nHeight .UPGRADE_BIP65) ||
  (nVersion < 7 && E.consensus.networkUpgradeActive nHeight .UPGRADE_TIME_PROTOCOL_V2) ||
  (nVersion < 11 && E.consensus.isAdamActive nHeight) ||
  (nVersion != 12 && E.consensus.networkUpgradeActive nHeight .UPGRADE_POMBL)

/-- The ADAM proofs that a header has to carry. Who the miners are is not asked here. -/
def checkAdamHeader (pins : PinnedBLSPubKeys) (block : CBlock) (nHeight : ℤ) :
    Except ValidationError Unit := do
  let threshold := E.consensus.getAdamThreshold nHeight
  let nMiners := block.vAdamMiners.length
  rejectIf ((nMiners : ℤ) < threshold ∨
    (block.vAdamSolutions.length < if block.nVersion = 11 then nMiners - 1 else nMiners) ∨
    block.vAdamVRFProof.isEmpty ∨ block.vAdamCoordinatorSig.isEmpty) 100 "bad-adam-header"
  let coordBlsPk := verifySelfContainedBLSSignedData E.crypto (block.getHash E.crypto)
    block.vAdamCoordinatorSig
  rejectIf (coordBlsPk = none ∨ extractBLSPubKeyFromSignedData block.vAdamVRFProof ≠ coordBlsPk) 100
    "bad-adam-header-sig"
  let solutions := (minersToVerify block).filter fun m ↦ !m.1.2.isEmpty
  rejectIf (E.getAdamSeed block.hashPrevBlock ≠ 0 ∧
    !solutions.all (verifyBlockSolution E.toActivityEnv block nHeight pins)) 100
    "bad-adam-header-solution"
  rejectIf ((solutions.length : ℤ) < threshold) 100 "bad-adam-header-quorum"

/-- `ContextualCheckBlockHeader`. The parent is asserted to be there, but for the genesis block. -/
def contextualCheckBlockHeader (pins : PinnedBLSPubKeys) (block : CBlock)
    (pindexPrev : Option CBlockIndex) : Except ValidationError Unit :=
  if block.getHash E.crypto = E.consensus.hashGenesisBlock then .ok ()
  else
    match pindexPrev with
    | none => .error .thrown
    | some pindexPrev => do
      let nHeight := pindexPrev.nHeight + 1
      rejectIf (X.nMaxReorgDepth ≤ ctx.height - nHeight) 1 ""
      checkBlockTime E X block.toCBlockHeader pindexPrev
      rejectIf (!X.checkpointsCheckBlock nHeight (block.getHash E.crypto)) 100 "checkpoint mismatch"
      rejectIf (X.lastCheckpoint.any fun height ↦ nHeight < height) 0 ""
      rejectIf (rejectsVersion E block.nVersion nHeight) 0 "bad-version"
      if 11 ≤ block.nVersion ∧ 1550 ≤ nHeight ∧ !E.consensus.isRegTestNet then
        checkAdamHeader E pins block nHeight

/-- One input, as far as its transaction is found: the output exists and is not a burn address's. -/
def checkBurnedInput (nHeight : ℤ) (txin : CTxIn) : Except ValidationError Unit :=
  match X.getTransaction txin.prevout.hash with
  | none => .ok ()
  | some txPrev =>
    match txPrev.vout[txin.prevout.n.toNat]? with
    | none => .error (.invalid 100 "bad-txns-prevout-null" false)
    | some out =>
      rejectIf ((extractDestination E.mescalDecompiles E.crypto out.scriptPubKey).any fun source ↦
        E.consensus.isBurnAddress source nHeight) 100 "bad-txns-banned"

/-- `ContextualCheckBlock`. -/
def contextualCheckBlock (block : CBlock) (pindexPrev : Option CBlockIndex) :
    Except ValidationError Unit := do
  let nHeight := pindexPrev.elim 0 (·.nHeight + 1)
  rejectIf (!block.vtx.all fun tx ↦ isFinalTx X ctx tx nHeight block.nTime.toNat) 10 "bad-txns-nonfinal"
  if !E.consensus.mBurnAddresses.isEmpty then
    block.vtx.forM fun tx ↦
      if tx.isCoinBase then .ok () else tx.vin.forM (checkBurnedInput E X nHeight)
  rejectIf (nHeight ≠ 0 ∧ !ctx.isInitialBlockDownload ∧
    max 1000 (min X.sporkMaxBlockSize maxBlockSizeCurrent) < block.serialize.length) 0
    "bad-blk-length"

end KristaTech
