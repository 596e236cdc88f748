import KristaTech.Validation.ChainRun
import KristaTech.Masternode.Consistency
import KristaTech.Primitives.RoundTrip
import Mathlib.Tactic.Linarith

/-!
# Blocks of a sample network

To run the model beyond the first blocks, where a block needs miners, solutions and a coordinator: an
environment in which five miners are always elected, with hashes that can be computed by hand, and a
header that carries all that is asked for.

A block that a node receives has passed `CheckBlock` when it comes to be connected, and is not checked
again. It is connected if its transactions pass the loop of `ConnectBlock` and mint no more than they may
(`exists_connect_checkedCall`).
-/

namespace KristaTech

open Masternode Llmq Adam List

/-! ### The environment -/

/-- The hash of a transaction is its version, the hash of a block its nonce; all signatures pass. -/
def sampleCrypto : Crypto :=
  { (default : Crypto) with
    hash := fun bs ↦ BitVec.ofNat 256 (Reader.leToNat (bs.take 4))
    headerHash := fun bs ↦ BitVec.ofNat 256 (Reader.leToNat ((bs.drop 76).take 4)) }

def sampleBLSKey : CBLSPubKey := ⟨List.replicate 48 1, true, by decide⟩

/-- A BLS key, a BLS signature and a signature of one byte. -/
def sampleSigned : Bytes := List.replicate 144 1 ++ [1, 1]

def sampleMiners : List CPubKey :=
  [1, 2, 3, 4, 5].map fun b ↦ CPubKey.set (2 :: b :: List.replicate 31 0)

def sampleCoordinator : CPubKey := CPubKey.set (2 :: 1 :: List.replicate 31 0)

def sampleOutpoint : COutPoint := ⟨7, 0⟩

def sampleQuorum : CQuorum := ⟨[⟨sampleOutpoint, sampleCoordinator⟩]⟩

/-- The main network with the same five miners and the same quorum for every block. -/
def sampleEnv : ValidationEnv :=
  { (default : ValidationEnv) with
    crypto := sampleCrypto
    getAdamSeed := id
    verifyAdamSolution := fun _ _ _ _ _ _ _ _ _ ↦ true
    selectAdamNodes := fun _ _ _ _ ↦ some (sampleMiners, sampleCoordinator)
    getAdamMinerPool := fun _ _ _ ↦ sampleMiners
    getActiveQuorum := fun _ _ _ _ ↦ sampleQuorum }

def sampleCertificate (hash : Uint256) : Bytes :=
  hash.toBytes ++ (1 :: Writer.outPoint sampleOutpoint ++ Writer.byteVector sampleSigned)

def sampleBlock (hashPrevBlock : Uint256) (n : ℕ) (vtx : List CTransaction) : CBlock where
  nVersion := 12
  hashPrevBlock := hashPrevBlock
  hashMerkleRoot := 0
  nTime := 0
  nBits := 0
  nNonce := UInt32.ofNat n
  vAdamMiners := sampleMiners
  vAdamSolutions := sampleMiners.map fun _ ↦ [0]
  vAdamVRFProof := sampleSigned
  vAdamCoordinatorSig := sampleSigned
  vQuorumSig := sampleCertificate (BitVec.ofNat 256 n)
  vtx := vtx

/-! ### Hashes -/

variable {n : ℕ} {hashPrevBlock : Uint256} {vtx : List CTransaction} {s : MasternodeState}

theorem getHash_tx_sampleCrypto {tx : CTransaction} (hversion : tx.nVersion = n) (hn : n < 2 ^ 32) :
    tx.getHash sampleCrypto = BitVec.ofNat 256 n := by
  have hint : Writer.int 4 tx.nVersion = Reader.natToLE 4 n := by
    rw [Writer.int, hversion, Int.emod_eq_of_lt (by omega) (by omega), Int.toNat_natCast]
  show BitVec.ofNat 256 (Reader.leToNat (tx.serialize.take 4)) = _
  rw [CTransaction.serialize, hint, append_assoc, append_assoc,
    take_left' (Reader.length_natToLE 4 n), Reader.leToNat_natToLE, Nat.mod_eq_of_lt (by omega)]

/-- A block that has passed `CheckBlock`. -/
def checkedBlock (hashPrevBlock : Uint256) (n : ℕ) (vtx : List CTransaction) : CBlock :=
  { sampleBlock hashPrevBlock n vtx with fChecked := true }

theorem getHash_checkedBlock (hn : n < 2 ^ 32) :
    (checkedBlock hashPrevBlock n vtx).getHash sampleCrypto = BitVec.ofNat 256 n := by
  set h := (checkedBlock hashPrevBlock n vtx).toCBlockHeader
  have hbefore : (Writer.int 4 h.nVersion ++ h.hashPrevBlock.toBytes ++ h.hashMerkleRoot.toBytes ++
      Reader.natToLE 4 h.nTime.toNat ++ Reader.natToLE 4 h.nBits.toNat).length = 76 := by
    simp [Writer.int, Uint256.toBytes]
  have hnonce : h.nNonce.toNat = n := UInt32.toNat_ofNat_of_lt' hn
  show BitVec.ofNat 256 (Reader.leToNat ((h.serializeForHash.drop 76).take 4)) = _
  rw [CBlockHeader.serializeForHash, append_assoc, append_assoc, drop_left' hbefore,
    take_left' (Reader.length_natToLE 4 _), Reader.leToNat_natToLE, hnonce,
    Nat.mod_eq_of_lt (by omega)]

/-! ### The size -/

theorem length_header_checkedBlock :
    (checkedBlock hashPrevBlock n vtx).toCBlockHeader.serialize.length = 773 := by
  have hminers : (Writer.vector Writer.pubKey sampleMiners).length = 171 := by decide +kernel
  have hsolutions : (Writer.vector Writer.byteVector (sampleMiners.map fun _ ↦ ([0] : Bytes))).length = 11 := by
    decide
  have hsigned : (Writer.byteVector sampleSigned).length = 147 := by decide +kernel
  have hcertificate (hash : Uint256) : (Writer.byteVector (sampleCertificate hash)).length = 217 := by
    have hlength : (sampleCertificate hash).length = 216 := by
      simp [sampleCertificate, hsigned, Writer.outPoint, Uint256.toBytes]
    simp [Writer.byteVector, Writer.compactSize, hlength]
  simp [CBlockHeader.serialize, CBlockHeader.serializeForHash, checkedBlock, sampleBlock, Writer.int,
    Uint256.toBytes, -map_const', hminers, hsolutions, hsigned, hcertificate]

theorem length_checkedBlock (hstake : vtx[1]?.any (·.isCoinStake) = false)
    (hsize : (vtx.map (·.serialize.length)).sum ≤ 7990000) :
    (checkedBlock hashPrevBlock n vtx).serialize.length ≤ maxBlockSizeCurrent := by
  have hstake : (checkedBlock hashPrevBlock n vtx).isProofOfStake = false := hstake
  have hvtx : (Writer.vector CTransaction.serialize vtx).length ≤ 9 + 7990000 := by
    rw [Writer.vector, length_append, length_flatMap]
    exact Nat.add_le_add (Writer.length_compactSize_le _) hsize
  rw [CBlock.serialize, hstake, if_neg Bool.false_ne_true, append_nil, length_append,
    length_header_checkedBlock, maxBlockSizeCurrent]
  show 773 + (Writer.vector CTransaction.serialize vtx).length ≤ 8000000
  omega

/-! ### Calls -/

def sampleInput (s : ChainState) (n : ℕ) : ConnectInput where
  ctx := tipContext s.tip
  masternodes := s.node.masternodes
  pindex := ⟨BitVec.ofNat 256 n, s.tip.hash, s.tip.nHeight + 1, 0⟩
  fJustCheck := false

def sampleView (s : ChainState) : CCoinsViewCache :=
  .ofBase { getCoin := s.utxo, hashBlock := s.tip.hash }

def sampleCall (s : ChainState) (n : ℕ) (vtx : List CTransaction) : ConnectCall where
  ctx := tipContext s.tip
  block := sampleBlock s.tip.hash n vtx
  pindex := (sampleInput s n).pindex
  view := sampleView s

def checkedCall (s : ChainState) (n : ℕ) (vtx : List CTransaction) : ConnectCall :=
  { sampleCall s n vtx with block := checkedBlock s.tip.hash n vtx }

section Calls

variable {s : ChainState}

theorem getBestBlock_sampleView (s : ChainState) : (sampleView s).getBestBlock = s.tip.hash := by
  simp [sampleView, CCoinsViewCache.getBestBlock, CCoinsViewCache.ofBase]

theorem checkedCall_onTip (hform : FormChecked sampleEnv (checkedBlock s.tip.hash n vtx)) (hn : n < 2 ^ 32)
    (hgenesis : BitVec.ofNat 256 n ≠ sampleEnv.consensus.hashGenesisBlock) :
    (checkedCall s n vtx).OnTip sampleEnv s where
  tip := rfl
  index := if_pos rfl
  hash := (getHash_checkedBlock hn).symm
  hashPrev := rfl
  hashPrevBlock := rfl
  nHeight := rfl
  notGenesis := by
    show (checkedBlock s.tip.hash n vtx).getHash sampleCrypto ≠ _
    rwa [getHash_checkedBlock hn]
  formChecked _ := hform

/-- **A checked block is connected** if its transactions pass the loop and mint no more than they may. -/
theorem exists_connect_checkedCall (htip : (checkedCall s n vtx).OnTip sampleEnv s)
    (hstake : vtx[1]?.any (·.isCoinStake) = false) {acc : ConnectState}
    (hloop : ((sampleInput s n).connectTxs sampleEnv vtx s.node.mapAddressBurns
      { view := sampleView s }).2 = .ok acc)
    (hmint : acc.nValueOut - acc.nValueIn ≤
      sampleEnv.consensus.getBlockValue s.node.nMoneySupply (s.tip.nHeight + 1)) :
    ∃ G connected, (checkedCall s n vtx).run sampleEnv s.node = (G, .ok connected) ∧
      connected.view.utxo = acc.view.utxo := by
  set c := checkedCall s n vtx with hc
  set I := sampleInput s n with hI
  have hpprev : I.pprev = some s.tip := if_pos rfl
  have hbefore : I.checkBefore sampleEnv c.block c.view false = .ok () := by
    have hchecked : c.block.fChecked = true := rfl
    have hbest : c.view.getBestBlock = s.tip.hash := getBestBlock_sampleView s
    simp [ConnectInput.checkBefore, checkBlock, hchecked, hpprev, hbest]
  have hstake : c.block.isProofOfStake = false := hstake
  have hwork : c.block.isProofOfWork = true := by rw [CBlock.isProofOfWork, hstake]; rfl
  have hkind : I.checkKind sampleEnv c.block = .ok () := by
    have hpos : sampleEnv.consensus.networkUpgradeActive I.pindex.nHeight .UPGRADE_POS =
        sampleEnv.consensus.isAdamActive I.pindex.nHeight := rfl
    cases hadam : sampleEnv.consensus.isAdamActive I.pindex.nHeight <;>
      simp [ConnectInput.checkKind, hpos, hadam, hstake, rejectIf]
  have hafter : I.checkAfter sampleEnv c.block s.node.nMoneySupply acc = .ok () := by
    have hthreads : sampleEnv.fScriptCheckThreads = false := rfl
    have hle : ¬sampleEnv.consensus.getBlockValue s.node.nMoneySupply (s.tip.nHeight + 1) + acc.nFees <
      acc.nValueOut - acc.nValueIn + acc.nFees := by linarith
    simp [ConnectInput.checkAfter, hpprev, hwork, hthreads, hle, rejectIf]
  have hdisk : c.disk.result = .ok () := rfl
  have hconnect := (connectBlock_eq_ok_iff (show I = _ from rfl) htip.notGenesis).2
    ⟨hbefore, hkind, _, acc, Prod.ext rfl hloop, hafter, hdisk, rfl⟩
  exact ⟨_, _, hconnect, rfl⟩

end Calls

end KristaTech
