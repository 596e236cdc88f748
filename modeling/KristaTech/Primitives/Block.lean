import KristaTech.Primitives.Transaction

/-!
# Blocks

`primitives/block.h`. The hash of a block is taken over the header as it is serialized for hashing,
which leaves out the coordinator's signature and the quorum certificate; the block signature is not
part of the header at all. So blocks that differ in these three fields only have one hash
(`CBlockHeader.getHash_withSignatures`), and the node's index, which is keyed by the hash, cannot tell them
apart.
-/

namespace KristaTech

structure CBlockHeader where
  nVersion : ℤ
  hashPrevBlock : Uint256
  hashMerkleRoot : Uint256
  nTime : UInt32
  nBits : UInt32
  nNonce : UInt32
  /-- Only in versions 4 to 6. -/
  nAccumulatorCheckpoint : Uint256 := 0
  -- ADAM consensus fields
  vAdamMiners : List CPubKey := []
  vAdamSolutions : List Bytes := []
  vAdamVRFProof : Bytes := []
  vAdamCoordinatorSig : Bytes := []
  -- MPA consensus fields
  vQuorumSig : Bytes := []
  deriving DecidableEq, Repr

structure CBlock extends CBlockHeader where
  vtx : List CTransaction
  /-- Signed by the owner of the stake; serialized only if the second transaction is a coinstake. -/
  vchBlockSig : Bytes := []
  /-- Memory only: `CheckBlock` has passed with all its checks on. -/
  fChecked : Bool := false
  deriving DecidableEq, Repr

namespace CBlockHeader

/-- The serialization of a header for hashing (`SER_GETHASH`). -/
def serializeForHash (h : CBlockHeader) : Bytes :=
  Writer.int 4 h.nVersion ++ h.hashPrevBlock.toBytes ++ h.hashMerkleRoot.toBytes ++
    Reader.natToLE 4 h.nTime.toNat ++ Reader.natToLE 4 h.nBits.toNat ++
    Reader.natToLE 4 h.nNonce.toNat ++
    (if 3 < h.nVersion ∧ h.nVersion < 7 then h.nAccumulatorCheckpoint.toBytes else []) ++
    (if 11 ≤ h.nVersion then
      Writer.vector Writer.pubKey h.vAdamMiners ++ Writer.vector Writer.byteVector h.vAdamSolutions ++
        Writer.byteVector h.vAdamVRFProof
    else [])

/-- The serialization of a header for the network and the disk. -/
def serialize (h : CBlockHeader) : Bytes :=
  h.serializeForHash ++ (if 11 ≤ h.nVersion then Writer.byteVector h.vAdamCoordinatorSig else []) ++
    (if 12 ≤ h.nVersion then Writer.byteVector h.vQuorumSig else [])

/-- `GetHash`. The rounds of the versions 11 and 12 read the previous hash and the miners besides
the serialized header, which contains both. -/
def getHash (C : Crypto) (h : CBlockHeader) : Uint256 := C.headerHash h.serializeForHash

/-- The header with another coordinator signature and another quorum certificate. -/
def withSignatures (h : CBlockHeader) (vAdamCoordinatorSig vQuorumSig : Bytes) : CBlockHeader :=
  { h with vAdamCoordinatorSig := vAdamCoordinatorSig, vQuorumSig := vQuorumSig }

theorem getHash_withSignatures (C : Crypto) (h : CBlockHeader) (coordinatorSig quorumSig : Bytes) :
    (h.withSignatures coordinatorSig quorumSig).getHash C = h.getHash C := rfl

end CBlockHeader

namespace CBlock

/-- `GetHash` of the header part. -/
def getHash (C : Crypto) (block : CBlock) : Uint256 := block.toCBlockHeader.getHash C

def isProofOfStake (block : CBlock) : Bool := block.vtx[1]?.any (·.isCoinStake)

def isProofOfWork (block : CBlock) : Bool := !block.isProofOfStake

/-- The serialization of a block for the network and the disk. -/
def serialize (block : CBlock) : Bytes :=
  block.toCBlockHeader.serialize ++ Writer.vector CTransaction.serialize block.vtx ++
    (if block.isProofOfStake then Writer.byteVector block.vchBlockSig else [])

end CBlock

end KristaTech
