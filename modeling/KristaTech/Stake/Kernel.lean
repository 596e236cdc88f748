import KristaTech.Chain.Burns
import KristaTech.Adam.Solution
import KristaTech.Script.Verify

/-!
# Proof of stake

`CheckProofOfStake` of `kernel.cpp` with what it calls: the stake input (`stakeinput.cpp`), the old
stake modifier (`legacy/stakemodifier.cpp`), the weight of a coin (`CalculateMPAWeight`) and the kernel
hash; and `CheckBlockSignature` of `blocksignature.cpp`. Nothing here takes the state of the block's
parent as an argument. The coins, the masternodes, the burns and the chain are the node's own at the
time of the call (`StakeView`).
-/

namespace KristaTech

open Masternode CScript

/-- The parameters of a network that the kernel reads besides `Params`. -/
structure StakeParams where
  nStakeMinAge : UInt32
  nBurnDecayBlocks : ℤ
  nMasternodeUptimeLimit : ℤ
  nTimeLastCheckpoint : ℤ
  /-- `GetOldModifierInterval`. -/
  oldModifierInterval : ℤ
  /-- `GeneratedStakeModifier` and `GetStakeModifierV1` of the entry with this hash. They are computed
  from its ancestors when the entry is made. -/
  stakeModifier : Uint256 → Bool × UInt64
  /-- `mnodeman.Find` and `GetMasternodeActiveLifetime`, which only a node without blocks asks. -/
  activeLifetime : COutPoint → ℤ → Option ℤ

/-- What `CheckProofOfStake` reads of the node. -/
structure StakeView where
  /-- `mapBlockIndex`. -/
  mapBlockIndex : Uint256 → Option CBlockIndex
  /-- `chainActive[nHeight]`. -/
  chainActive : ℤ → Option CBlockIndex
  /-- `chainActive.Height()`. -/
  height : ℤ
  pcoinsTip : CoinLookup
  masternodes : MasternodeState
  mapAddressBurns : BurnCache
  /-- `GetTransaction`: the transaction and the hash of its block, zero for one of the memory pool. -/
  getTransaction : Uint256 → Option (CTransaction × Uint256)

/-- `chainActive.Contains`. -/
def StakeView.contains (V : StakeView) (pindex : CBlockIndex) : Bool :=
  (V.chainActive pindex.nHeight).any (·.hash == pindex.hash)

/-! ### Locks -/

/-- The tail of a script with a lock: pay to a key hash or to a key, and nothing after it. -/
def readSpendTail : Reader Unit := do
  let op ← nextOp
  if op.opcode = .OP_DUP then
    expectOp .OP_HASH160
    guard ((← nextPush).length = 20)
    expectOp .OP_EQUALVERIFY
  else guard ((op.vch.length = 33 ∨ op.vch.length = 65) ∧ (CPubKey.set op.vch).isValid)
  expectOp .OP_CHECKSIG
  guard (← Reader.isEmpty)

/-- The number an instruction stands for; the outer option is the end of the search. -/
def lockCandidate (op : ScriptOp) : Option (Option ℤ) :=
  if op.opcode = .OP_0 then some (some 0)
  else if isSmallInteger op.opcode then some (some (decodeOpN op.opcode))
  else if op.opcode < .OP_PUSHDATA4 ∧ !op.vch.isEmpty ∧ op.vch.length ≤ 8 then
    some (CScriptNum.ofVch op.vch true 8)
  else if .OP_PUSHDATA4 < op.opcode then none
  else some none

/-- One turn of the loop: a push that is dropped, or the lock and whether it is relative. -/
def readLock (again : Reader (ℤ × Bool)) : Reader (ℤ × Bool) := do
  let candidate ← (lockCandidate (← nextOp) : Option (Option ℤ))
  let next ← nextOp
  if next.opcode = .OP_DROP then again
  else
    guard (next.opcode = .OP_CHECKLOCKTIMEVERIFY ∨ next.opcode = .OP_CHECKSEQUENCEVERIFY)
    let nLockTime ← (candidate : Option ℤ)
    guard (0 ≤ nLockTime)
    expectOp .OP_DROP
    readSpendTail
    if next.opcode = .OP_CHECKLOCKTIMEVERIFY then return (nLockTime, false)
    else
      -- disabled from bit 31 on (the mask is a negative int); bit 22 means a time
      guard (nLockTime < 2 ^ 31 ∧ nLockTime / 2 ^ 22 % 2 = 0)
      return (nLockTime % 2 ^ 16, true)

/-- The lock of a script, behind at most so many pushes that are dropped. -/
def readTimelock : ℕ → Reader (ℤ × Bool)
  | 0 => readLock failure
  | drops + 1 => readLock (readTimelock drops)

/-- A lock that a script puts on its coin. -/
structure Timelock where
  nLockTime : ℤ
  fIsBlockHeight : Bool
  fIsRelative : Bool
  deriving DecidableEq, Repr

/-- `ExtractTimelock`. -/
def extractTimelock (scriptPubKey : CScript) : Option Timelock :=
  match (matchCoinLockRegistration scriptPubKey).or
    ((matchPoWLockRegistration scriptPubKey).map (·.2.2)) with
  | some registration =>
    if registration.lockTime < 0 then none
    else some ⟨registration.lockTime, registration.lockTime < 500000000, false⟩
  | none => ((readTimelock 4).run' scriptPubKey).map fun lock ↦
      ⟨lock.1, lock.2 || lock.1 < 500000000, lock.2⟩

/-! ### The weight of a coin -/

section Weight

variable (E : ValidationEnv) (K : StakeParams) (V : StakeView)

/-- `GetTxOut`. -/
def getTxOut (prevout : COutPoint) : Option CTxOut :=
  ((V.pcoinsTip prevout).map (·.out)).or
    ((V.getTransaction prevout.hash).bind fun found ↦ found.1.vout[prevout.n.toNat]?)

/-- `GetActiveBurnWeight`. -/
def getActiveBurnWeight (dest : CTxDestination) (nHeight : ℤ) : CAmount :=
  if K.nBurnDecayBlocks ≤ 0 then 0
  else (((V.mapAddressBurns[dest]?).getD []).map fun burn ↦
    let t := nHeight - burn.nHeight
    if 0 ≤ t ∧ t < K.nBurnDecayBlocks then
      (burn.nAmount * 5 * (K.nBurnDecayBlocks - t)).tdiv K.nBurnDecayBlocks
    else 0).sum

/-- The weight of a masternode that has been active for some time. -/
def masternodeWeight (nAmount : CAmount) (t : ℤ) : CAmount :=
  let limit := K.nMasternodeUptimeLimit
  if limit ≤ 0 ∨ t ≤ 0 then nAmount else nAmount + (nAmount * min t limit).tdiv limit

/-- The weight of the coin as the collateral of an active masternode. -/
def collateralWeight (prevout : COutPoint) (nAmount : CAmount) (nHeight : ℤ) : Option CAmount :=
  let registry := V.masternodes.registry
  let found := registry.mapMasternodeCollateralOutpoints.toList.find? fun kv ↦
    kv.2 == prevout && kv.1.isValid && registry.isMasternodeActiveAtHeight kv.1 (nHeight - 1) &&
      isValidMasternodeCollateralAndAuth E.toPingChecks V.pcoinsTip V.masternodes.delegations kv.1 prevout
        (nHeight - 1) none
  match found with
  | some kv =>
    let nFirstHeight := ((registry.mapMasternodeActiveHeights[kv.1]?).bind Heights.first).getD nHeight
    let nFirstHeight := match V.pcoinsTip prevout with
      | some coin => if !coin.isSpent ∧ 0 < coin.nHeight then min nFirstHeight coin.nHeight
        else nFirstHeight
      | none => nFirstHeight
    some (masternodeWeight K nAmount (max 0 (nHeight - nFirstHeight)))
  | none =>
    if registry.mapMasternodeCollateralOutpoints.isEmpty ∧ V.height ≤ 0 then
      (K.activeLifetime prevout nHeight).map (masternodeWeight K nAmount)
    else none

def lockWeight (scriptPubKey : CScript) (nAmount : CAmount) (nHeight : ℤ) : Option CAmount := do
  let lock ← extractTimelock scriptPubKey
  guard lock.fIsBlockHeight
  let blocks := if lock.fIsRelative then lock.nLockTime else lock.nLockTime - nHeight
  guard (0 < blocks)
  return nAmount + (nAmount * 2 * min blocks 50000).tdiv 50000

def burnWeight (scriptPubKey : CScript) (nAmount : CAmount) (nHeight : ℤ) : Option CAmount := do
  let dest ← (E.addresses scriptPubKey).head?
  let nBurnWeight := getActiveBurnWeight K V dest nHeight
  guard (0 < nBurnWeight)
  return nAmount + nBurnWeight

/-- `CalculateMPAWeight`, without the kind of the weight. -/
def calculateMPAWeight (prevout : COutPoint) (nAmount : CAmount) (pindexPrev : CBlockIndex) : CAmount :=
  let nHeight := pindexPrev.nHeight + 1
  if !E.consensus.networkUpgradeActive nHeight .UPGRADE_POMBL then nAmount
  else
    ((collateralWeight E K V prevout nAmount nHeight).or <| (getTxOut V prevout).bind fun txout ↦
        (lockWeight txout.scriptPubKey nAmount nHeight).or
          (burnWeight E K V txout.scriptPubKey nAmount nHeight)).getD nAmount

end Weight

/-! ### The stake input and the kernel -/

/-- `CPivStake`. -/
structure CPivStake where
  txFrom : CTransaction
  nPosition : UInt32
  pindexFrom : CBlockIndex

namespace CPivStake

variable (E : ValidationEnv) (K : StakeParams) (V : StakeView) (stake : CPivStake)

/-- `InitFromTxIn`: the transaction is found, and its block is in the active chain. -/
def initFromTxIn (txin : CTxIn) : Option CPivStake := do
  let (txPrev, hashBlock) ← V.getTransaction txin.prevout.hash
  guard (txin.prevout.n.toNat < txPrev.vout.length)
  let pindexFrom ← (V.mapBlockIndex hashBlock).filter V.contains
  return ⟨txPrev, txin.prevout.n, pindexFrom⟩

/-- `GetTxOutFrom`. -/
def getTxOutFrom : Option CTxOut := stake.txFrom.vout[stake.nPosition.toNat]?

/-- `GetValue`. -/
def getValue : CAmount := stake.getTxOutFrom.elim 0 (·.nValue)

/-- `GetOutPoint`. -/
def getOutPoint : COutPoint := ⟨stake.txFrom.getHash E.crypto, stake.nPosition⟩

/-- `GetUniqueness`. -/
def getUniqueness : Bytes :=
  Reader.natToLE 4 stake.nPosition.toNat ++ (stake.txFrom.getHash E.crypto).toBytes

/-- `ContextCheck`, which is `HasStakeMinAgeOrDepth`: the coin is old enough. -/
def contextCheck (nTime : UInt32) : Bool := stake.pindexFrom.nTime + K.nStakeMinAge ≤ nTime

/-- The loop of `GetOldModifier` over the active chain, from the block after the coin's. Its fuel is
the number of blocks. -/
def oldModifierLoop : ℕ → ℤ → ℤ → Option UInt64
  | 0, _, _ => none
  | fuel + 1, nHeight, nStakeModifierTime =>
    match V.chainActive nHeight with
    | none => none
    | some pindex =>
      let (generated, nStakeModifier) := K.stakeModifier pindex.hash
      let nStakeModifierTime := if generated then (pindex.nTime.toNat : ℤ) else nStakeModifierTime
      if nStakeModifierTime < stake.pindexFrom.nTime.toNat + K.oldModifierInterval then
        oldModifierLoop fuel (nHeight + 1) nStakeModifierTime
      else some nStakeModifier

/-- `GetOldStakeModifier`; zero if it fails, which is only logged. -/
def getOldStakeModifier : UInt64 :=
  (oldModifierLoop K V stake (V.height + 1).toNat (stake.pindexFrom.nHeight + 1)
    stake.pindexFrom.nTime.toNat).getD 0

/-- `CStakeKernel::GetHash`. -/
def kernelHash (nTime : UInt32) : Uint256 :=
  E.crypto.hash (Reader.natToLE 8 (stake.getOldStakeModifier K V).toNat ++
    Reader.natToLE 4 stake.pindexFrom.nTime.toNat ++ stake.getUniqueness E ++
    Reader.natToLE 4 nTime.toNat)

/-- `CStakeKernel::CheckKernelHash`: the hash is below the target times the weight. Before height 2280
the product may overflow. -/
def checkKernelHash (pindexPrev : CBlockIndex) (nBits nTime : UInt32) : Bool :=
  let stakeValue := calculateMPAWeight E K V (stake.getOutPoint E) stake.getValue pindexPrev
  let bnWeight : Uint256 := BitVec.ofNat 256 (stakeValue % 2 ^ 64).toNat / 100
  let bnTarget := (Adam.setCompact nBits).1
  let bnTarget :=
    if 2280 ≤ pindexPrev.nHeight + 1 ∧ 0 < bnWeight ∧ BitVec.allOnes 256 / bnWeight < bnTarget then
      BitVec.allOnes 256
    else bnTarget * bnWeight
  stake.kernelHash E K V nTime < bnTarget

end CPivStake

section Check

variable (E : ValidationEnv) (K : StakeParams) (V : StakeView)

/-- `LoadStakeInput`, with the parent given. -/
def loadStakeInput (block : CBlock) (pindexPrev : CBlockIndex) : Option CPivStake := do
  guard (block.hashPrevBlock = pindexPrev.hash ∧ block.isProofOfStake)
  let txin ← block.vtx[1]?.bind (·.vin.head?)
  CPivStake.initFromTxIn V txin

/-- `CheckProofOfStake`. -/
def checkProofOfStake (block : CBlock) (pindexPrev : CBlockIndex) : Bool :=
  (block.nTime.toNat : ℤ) ≤ K.nTimeLastCheckpoint ||
    (loadStakeInput V block pindexPrev).any fun stakeInput ↦
      stakeInput.contextCheck K block.nTime &&
      stakeInput.checkKernelHash E K V pindexPrev block.nBits block.nTime &&
      stakeInput.getTxOutFrom.any fun stakePrevout ↦
        block.vtx[1]?.any fun tx ↦
          (verifyScript E.crypto .standardScriptVerifyFlags ⟨tx, 0, none, none⟩
            ((tx.vin.head?.map (·.scriptSig)).getD []) stakePrevout.scriptPubKey).isOk

/-- The key that has to sign a proof-of-stake block: the one its first output pays to, or if that pays
to a key hash, the one that the first input shows. -/
def blockSigningKey (block : CBlock) (enableP2PKH : Bool) : Option CPubKey := do
  let tx ← block.vtx[1]?
  let txout ← tx.vout[1]?
  let (whichType, vSolutions) ← solver E.mescalDecompiles txout.scriptPubKey
  match whichType with
  | .TX_PUBKEY => vSolutions.head?.map CPubKey.set
  | .TX_PUBKEYHASH =>
    guard enableP2PKH
    let txin ← tx.vin.head?
    guard (txin.scriptSig.length ≠ 73)
    let first ← txin.scriptSig.head?
    return CPubKey.set (txin.scriptSig.drop (first.toNat + 2))
  | _ => none

/-- `CheckBlockSignature`. -/
def checkBlockSignature (pins : PinnedBLSPubKeys) (block : CBlock) (enableP2PKH : Bool) : Bool :=
  (block.nTime.toNat : ℤ) ≤ K.nTimeLastCheckpoint ||
    if block.isProofOfWork then block.vchBlockSig.isEmpty
    else !block.vchBlockSig.isEmpty && (blockSigningKey E block enableP2PKH).any fun pubkey ↦
      pubkey.isValid && verifyBLSWithECDSAFallback E.crypto pins (block.getHash E.crypto) pubkey
        block.vchBlockSig

end Check

end KristaTech
