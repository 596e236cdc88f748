import KristaTech.Primitives.WireFormat
import KristaTech.Relay.IndexLists

/-!
# Compact blocks

A peer may send a block as its header, the first transactions and short identifiers of the others
(`CBlockHeaderAndShortTxIDs` of `blockencodings.h`). The receiver looks these up in its mempool and
asks for those it does not have: `ProcessMessage` of `main.cpp` for the messages `CMPCTBLOCK`,
`GETBLOCKTXN` and `BLOCKTXN`. A block that waits for transactions is kept under its hash, for all
peers together and up to 64 of them.

The handlers take what they read of the rest of the node (`NodeView`) and return what they do
(`Action`). Messages are ignored while the node imports blocks, which is left out here, as are the
entries of the log.
-/

namespace KristaTech

/-- The hash functions behind the short identifiers. -/
structure RelayEnv where
  crypto : Crypto
  /-- `SipHashUint256`. -/
  sipHash : UInt64 → UInt64 → Uint256 → UInt64

/-- `CTransaction()`: the transaction that stands for one which is not there. -/
def CTransaction.empty : CTransaction := ⟨1, [], [], 0⟩

/-- `GetUint64`. -/
def Uint256.getUint64 (h : Uint256) (pos : ℕ) : UInt64 := UInt64.ofNat (h.toNat / 2 ^ (64 * pos))

structure PrefilledTransaction where
  index : UInt16
  tx : CTransaction
  deriving DecidableEq, Repr

structure CBlockHeaderAndShortTxIDs where
  header : CBlockHeader
  nonce : UInt64
  shorttxids : List UInt64
  prefilledtxn : List PrefilledTransaction
  /-- Only sent if the second transaction in full is a coinstake. -/
  vchBlockSig : Bytes
  deriving DecidableEq, Repr

structure BlockTransactions where
  blockhash : Uint256
  txn : List CTransaction
  deriving DecidableEq, Repr

/-! ### Encoding -/

/-- `GetBlockHeader`. -/
def CBlock.getBlockHeader (block : CBlock) : CBlockHeader where
  nVersion := block.nVersion
  hashPrevBlock := block.hashPrevBlock
  hashMerkleRoot := block.hashMerkleRoot
  nTime := block.nTime
  nBits := block.nBits
  nNonce := block.nNonce
  nAccumulatorCheckpoint :=
    if 3 < block.nVersion ∧ block.nVersion < 7 then block.nAccumulatorCheckpoint else 0
  vAdamMiners := if 11 ≤ block.nVersion then block.vAdamMiners else []
  vAdamSolutions := if 11 ≤ block.nVersion then block.vAdamSolutions else []
  vAdamVRFProof := if 11 ≤ block.nVersion then block.vAdamVRFProof else []
  vAdamCoordinatorSig := if 11 ≤ block.nVersion then block.vAdamCoordinatorSig else []
  vQuorumSig := if 12 ≤ block.nVersion then block.vQuorumSig else []

/-- `GetShortID`, with the keys of `FillKeys`. -/
def getShortID (R : RelayEnv) (header : CBlockHeader) (nonce : UInt64) (txhash : Uint256) : UInt64 :=
  let hasherHash := R.crypto.hash ((header.getHash R.crypto).toBytes ++ Reader.natToLE 8 nonce.toNat)
  R.sipHash (hasherHash.getUint64 0) (hasherHash.getUint64 1) txhash &&& 0x0000ffffffffffff

def isPrefilled (block : CBlock) (i : ℕ) : Bool := i == 0 || i == 1 && block.isProofOfStake

/-- The transactions to send in full, from index `i` on, after the one with index `prev_absolute`. -/
def prefillFrom (block : CBlock) : ℕ → Option ℕ → List CTransaction → List PrefilledTransaction
  | _, _, [] => []
  | i, prev_absolute, tx :: vtx =>
    if isPrefilled block i then
      let index := prev_absolute.elim i fun prev_absolute ↦ i - prev_absolute - 1
      ⟨UInt16.ofNat index, tx⟩ :: prefillFrom block (i + 1) (some i) vtx
    else prefillFrom block (i + 1) prev_absolute vtx

namespace CBlockHeaderAndShortTxIDs

/-- `CBlockHeaderAndShortTxIDs(block)`, with the nonce that it draws. -/
def ofBlock (R : RelayEnv) (nonce : UInt64) (block : CBlock) : CBlockHeaderAndShortTxIDs where
  header := block.getBlockHeader
  nonce := nonce
  shorttxids := (block.vtx.zipIdx.filter fun p ↦ !isPrefilled block p.2).map fun p ↦
    getShortID R block.getBlockHeader nonce (p.1.getHash R.crypto)
  prefilledtxn := prefillFrom block 0 none block.vtx
  vchBlockSig := if block.isProofOfStake then block.vchBlockSig else []

/-- The second transaction that is sent in full is a coinstake. -/
def isProofOfStake (cmpct : CBlockHeaderAndShortTxIDs) : Bool :=
  cmpct.prefilledtxn[1]?.any (·.tx.isCoinStake)

def serializePrefilled (ptx : PrefilledTransaction) : Bytes :=
  Writer.compactSize ptx.index.toNat ++ ptx.tx.serialize

/-- `Serialize`. -/
def serialize (cmpct : CBlockHeaderAndShortTxIDs) : Bytes :=
  cmpct.header.serialize ++ Reader.natToLE 8 cmpct.nonce.toNat ++
    Writer.vector (fun sid ↦ Reader.natToLE 6 sid.toNat) cmpct.shorttxids ++
    Writer.vector serializePrefilled cmpct.prefilledtxn ++
    (if cmpct.isProofOfStake then Writer.byteVector cmpct.vchBlockSig else [])

def readPrefilled : Reader PrefilledTransaction := do
  let index ← Reader.readCompactSize
  let tx ← Reader.readTransaction
  return ⟨UInt16.ofNat index, tx⟩

def readShortID : Reader UInt64 := do return UInt64.ofNat (← Reader.readLE 6)

/-- `Unserialize`. -/
def read : Reader CBlockHeaderAndShortTxIDs := do
  let header ← Reader.readHeader
  let nonce ← Reader.readLE 8
  let shorttxids ← Reader.readVector readShortID
  let prefilledtxn ← Reader.readVector readPrefilled
  let vchBlockSig ← Reader.readIf (prefilledtxn[1]?.any (·.tx.isCoinStake) = true) Reader.readByteVector []
  return ⟨header, UInt64.ofNat nonce, shorttxids, prefilledtxn, vchBlockSig⟩

/-! ### Decoding -/

def toBlock (cmpct : CBlockHeaderAndShortTxIDs) (vtx : List CTransaction) : CBlock :=
  { cmpct.header with
    vtx := vtx
    vchBlockSig := if cmpct.isProofOfStake then cmpct.vchBlockSig else [] }

/-- The transactions that were sent in full are put at their indexes. -/
def placePrefilled : Option ℕ → List PrefilledTransaction → List CTransaction → Option (List CTransaction)
  | _, [], vtx => some vtx
  | abs_index, ptx :: ptxs, vtx =>
    let abs_index := abs_index.elim ptx.index.toNat (· + (ptx.index.toNat + 1))
    if vtx.length ≤ abs_index then none
    else placePrefilled (some abs_index) ptxs (vtx.set abs_index ptx.tx)

/-- The mempool by short identifiers, and the identifiers that belong to several transactions. -/
def indexMempool (shortID : CTransaction → UInt64) (mempool : List CTransaction) :
    Std.ExtTreeMap UInt64 CTransaction × Std.ExtTreeSet UInt64 :=
  mempool.foldl (fun (mempool_shortids, collided_shortids) tx ↦
    let sid := shortID tx
    if sid ∈ mempool_shortids then (mempool_shortids, collided_shortids.insert sid)
    else (mempool_shortids.insert sid tx, collided_shortids)) (∅, ∅)

/-- The transaction of the mempool that a short identifier is for. -/
def lookup (shortID : CTransaction → UInt64) (mempool : List CTransaction) (sid : UInt64) :
    Option CTransaction :=
  let index := indexMempool shortID mempool
  if sid ∈ index.2 then none else index.1[sid]?

/-- The empty places, from index `i` on, are filled with the transactions of the short identifiers;
those that are not found are missing. -/
def fillFrom (found : UInt64 → Option CTransaction) : ℕ → List CTransaction → List UInt64 →
    Option (List CTransaction × List UInt16)
  | _, [], _ => some ([], [])
  | i, tx :: vtx, shorttxids =>
    if tx.isNull then
      match shorttxids with
      | [] => none
      | sid :: shorttxids =>
        match found sid with
        | some tx' => (fillFrom found (i + 1) vtx shorttxids).map fun r ↦ (tx' :: r.1, r.2)
        | none =>
          (fillFrom found (i + 1) vtx shorttxids).map fun r ↦ (tx :: r.1, UInt16.ofNat i :: r.2)
    else (fillFrom found (i + 1) vtx shorttxids).map fun r ↦ (tx :: r.1, r.2)

/-- The transactions that are sent in full or are in the mempool, and the indexes of the others. -/
def fill (R : RelayEnv) (mempool : List CTransaction) (cmpct : CBlockHeaderAndShortTxIDs) :
    Option (List CTransaction × List UInt16) :=
  let shortID (tx : CTransaction) := getShortID R cmpct.header cmpct.nonce (tx.getHash R.crypto)
  let size := cmpct.prefilledtxn.length + cmpct.shorttxids.length
  (placePrefilled none cmpct.prefilledtxn (List.replicate size .empty)).bind fun vtx ↦
    fillFrom (lookup shortID mempool) 0 vtx cmpct.shorttxids

end CBlockHeaderAndShortTxIDs

namespace BlockTransactions

def serialize (resp : BlockTransactions) : Bytes :=
  resp.blockhash.toBytes ++ Writer.vector CTransaction.serialize resp.txn

def read : Reader BlockTransactions := do
  let blockhash ← Reader.readUint256
  let txn ← Reader.readVector Reader.readTransaction
  return ⟨blockhash, txn⟩

end BlockTransactions

/-! ### The handlers -/

structure PartiallyDownloadedBlock where
  cmpct : CBlockHeaderAndShortTxIDs
  vtx : List CTransaction
  missing_indexes : List UInt16

/-- `mapPartiallyDownloadedBlocks`. -/
abbrev PendingBlocks := Std.ExtTreeMap Uint256 PartiallyDownloadedBlock

/-- What the handlers read of the rest of the node. -/
structure NodeView where
  /-- `mapBlockIndex.count`. -/
  mapBlockIndex : Uint256 → Bool
  /-- The transactions of `mempool.mapTx`, which has each one once. -/
  mempool : List CTransaction
  nodup_mempool : mempool.Nodup

inductive Action
  | getHeaders (hashStop : Uint256)
  | getBlockTxn (req : BlockTransactionsRequest)
  | misbehaving (howmuch : ℕ)
  | processNewBlock (block : CBlock)

namespace Action

/-- The block that `ProcessNewBlock` is called with. -/
def block? : Action → Option CBlock
  | processNewBlock block => some block
  | _ => none

def request? : Action → Option BlockTransactionsRequest
  | getBlockTxn req => some req
  | _ => none

end Action

/-- `MAX_BLOCK_SIZE_CURRENT / 60`. -/
def maxCompactTransactions : ℕ := 8000000 / 60

def evictFirst (pending : PendingBlocks) : PendingBlocks :=
  if 64 ≤ pending.size then pending.minKey?.elim pending pending.erase else pending

/-- `ProcessMessage` for `CMPCTBLOCK`. -/
def onCompactBlock (R : RelayEnv) (V : NodeView) (pending : PendingBlocks)
    (cmpct : CBlockHeaderAndShortTxIDs) : PendingBlocks × List Action :=
  let hashBlock := cmpct.header.getHash R.crypto
  if V.mapBlockIndex hashBlock then (pending, [])
  else if !V.mapBlockIndex cmpct.header.hashPrevBlock then (pending, [.getHeaders hashBlock])
  else if maxCompactTransactions < cmpct.prefilledtxn.length + cmpct.shorttxids.length then
    (pending, [.misbehaving 100])
  else
    match cmpct.fill R V.mempool with
    | none => (pending, [.misbehaving 100])
    | some (vtx, missing_indexes) =>
      if missing_indexes.isEmpty then (pending, [.processNewBlock (cmpct.toBlock vtx)])
      else
        ((evictFirst pending).insert hashBlock ⟨cmpct, vtx, missing_indexes⟩,
          [.getBlockTxn ⟨hashBlock, missing_indexes⟩])

/-- `ProcessMessage` for `GETBLOCKTXN`, of a node with the given blocks on disk; no answer is sent if
the block is not there or an index is out of bounds. -/
def onGetBlockTxn (blocks : Uint256 → Option CBlock) (req : BlockTransactionsRequest) :
    Option BlockTransactions := do
  let block ← blocks req.blockhash
  let txn ← req.indexes.mapM fun idx ↦ block.vtx[idx.toNat]?
  return ⟨req.blockhash, txn⟩

/-- The transactions that were asked for are put at their indexes. -/
def placeMissing : List (UInt16 × CTransaction) → List CTransaction → Option (List CTransaction)
  | [], vtx => some vtx
  | (idx, tx) :: missing, vtx =>
    if vtx.length ≤ idx.toNat then none else placeMissing missing (vtx.set idx.toNat tx)

/-- `ProcessMessage` for `BLOCKTXN`. -/
def onBlockTxn (pending : PendingBlocks) (resp : BlockTransactions) : PendingBlocks × List Action :=
  match pending[resp.blockhash]? with
  | none => (pending, [])
  | some pdb =>
    let pending := pending.erase resp.blockhash
    if resp.txn.length ≠ pdb.missing_indexes.length then (pending, [.misbehaving 100])
    else
      match placeMissing (pdb.missing_indexes.zip resp.txn) pdb.vtx with
      | none => (pending, [])
      | some vtx => (pending, [.processNewBlock (pdb.cmpct.toBlock vtx)])

end KristaTech
