import KristaTech.Primitives.Block
import KristaTech.Primitives.RoundTrip

/-!
# Transactions and blocks on the wire

`Unserialize` of `primitives/transaction.h` and `primitives/block.h`. What these readers return has
the form in which it can be sent on (`CTransaction.OnWire`, `CBlockHeader.OnWire`, `CBlock.OnWire`):
its numbers fit, its vectors have at most `MAX_SIZE` elements, and what is not serialized, as the
later fields of a header in an early version, is empty. A value of this form is read back as it was
written.
-/

namespace KristaTech

open List

namespace Reader

def readTxIn : Reader CTxIn := do
  let prevout ← readOutPoint
  let scriptSig ← readByteVector
  let nSequence ← readLE 4
  return ⟨prevout, scriptSig, UInt32.ofNat nSequence⟩

def readTxOut : Reader CTxOut := do
  let nValue ← readInt 8
  let scriptPubKey ← readByteVector
  return ⟨nValue, scriptPubKey⟩

def readTransaction : Reader CTransaction := do
  let nVersion ← readInt 4
  let vin ← readVector readTxIn
  let vout ← readVector readTxOut
  let nLockTime ← readLE 4
  return ⟨nVersion, vin, vout, UInt32.ofNat nLockTime⟩

def readIf {α : Type} (p : Prop) [Decidable p] (read : Reader α) (default : α) : Reader α :=
  if p then read else pure default

def readHeader : Reader CBlockHeader := do
  let nVersion ← readInt 4
  let hashPrevBlock ← readUint256
  let hashMerkleRoot ← readUint256
  let nTime ← readLE 4
  let nBits ← readLE 4
  let nNonce ← readLE 4
  let nAccumulatorCheckpoint ← readIf (3 < nVersion ∧ nVersion < 7) readUint256 0
  let vAdamMiners ← readIf (11 ≤ nVersion) (readVector readPubKey) []
  let vAdamSolutions ← readIf (11 ≤ nVersion) (readVector readByteVector) []
  let vAdamVRFProof ← readIf (11 ≤ nVersion) readByteVector []
  let vAdamCoordinatorSig ← readIf (11 ≤ nVersion) readByteVector []
  let vQuorumSig ← readIf (12 ≤ nVersion) readByteVector []
  return { nVersion, hashPrevBlock, hashMerkleRoot, nTime := UInt32.ofNat nTime,
           nBits := UInt32.ofNat nBits, nNonce := UInt32.ofNat nNonce, nAccumulatorCheckpoint,
           vAdamMiners, vAdamSolutions, vAdamVRFProof, vAdamCoordinatorSig, vQuorumSig }

def readBlock : Reader CBlock := do
  let header ← readHeader
  let vtx ← readVector readTransaction
  let vchBlockSig ← readIf (vtx[1]?.any (·.isCoinStake) = true) readByteVector []
  return { header with vtx, vchBlockSig }

end Reader

/-! ### What can be sent -/

/-- A number has `n` bytes in two's complement. -/
def FitsBytes (n : ℕ) (v : ℤ) : Prop := -256 ^ n ≤ 2 * v ∧ 2 * v < 256 ^ n

instance (n : ℕ) (v : ℤ) : Decidable (FitsBytes n v) := inferInstanceAs (Decidable (_ ∧ _))

structure CTransaction.OnWire (tx : CTransaction) : Prop where
  nVersion : FitsBytes 4 tx.nVersion
  length_vin : tx.vin.length ≤ Reader.maxSize
  vin : ∀ txin ∈ tx.vin, txin.scriptSig.length ≤ Reader.maxSize
  length_vout : tx.vout.length ≤ Reader.maxSize
  vout : ∀ out ∈ tx.vout, FitsBytes 8 out.nValue ∧ out.scriptPubKey.length ≤ Reader.maxSize

structure CBlockHeader.OnWire (h : CBlockHeader) : Prop where
  nVersion : FitsBytes 4 h.nVersion
  nAccumulatorCheckpoint : ¬(3 < h.nVersion ∧ h.nVersion < 7) → h.nAccumulatorCheckpoint = 0
  length_vAdamMiners : h.vAdamMiners.length ≤ Reader.maxSize
  length_vAdamSolutions : h.vAdamSolutions.length ≤ Reader.maxSize
  vAdamSolutions : ∀ solution ∈ h.vAdamSolutions, solution.length ≤ Reader.maxSize
  vAdamVRFProof : h.vAdamVRFProof.length ≤ Reader.maxSize
  vAdamCoordinatorSig : h.vAdamCoordinatorSig.length ≤ Reader.maxSize
  vQuorumSig : h.vQuorumSig.length ≤ Reader.maxSize
  noAdam : ¬11 ≤ h.nVersion → h.vAdamMiners = [] ∧ h.vAdamSolutions = [] ∧ h.vAdamVRFProof = [] ∧
    h.vAdamCoordinatorSig = []
  noQuorum : ¬12 ≤ h.nVersion → h.vQuorumSig = []

/-- A block as a node has it from a peer or from its disk. -/
structure CBlock.OnWire (block : CBlock) : Prop where
  header : block.toCBlockHeader.OnWire
  length_vtx : block.vtx.length ≤ Reader.maxSize
  vtx : ∀ tx ∈ block.vtx, tx.OnWire
  vchBlockSig : block.vchBlockSig.length ≤ Reader.maxSize
  noBlockSig : ¬block.isProofOfStake = true → block.vchBlockSig = []
  fChecked : block.fChecked = false

/-! ### What is written is read back -/

namespace CPubKey

theorem size_le (k : CPubKey) : k.size ≤ publicKeySize := by
  have hlen (chHeader : UInt8) : getLen chHeader ≤ publicKeySize := by
    rw [getLen]
    split_ifs <;> decide
  rw [size]
  cases k.vch.head? with
  | none => exact Nat.zero_le _
  | some chHeader => exact hlen chHeader

theorem set_bytes (k : CPubKey) : set k.bytes = k := by
  obtain ⟨vch, hvalid | rfl⟩ := k
  · have hbytes : bytes ⟨vch, Or.inl hvalid⟩ = vch := by simp [bytes, size, hvalid.2]
    rw [hbytes, set, dif_pos hvalid]
  · rfl

end CPubKey

namespace Reader

variable {n : ℕ} {α : Type} {s rest : Bytes}

/-- The sign of a number of `n` bytes is its highest bit. -/
theorem twosComplement_eq {v : ℕ} (h : v < 256 ^ n) :
    (if v < 2 ^ (8 * n - 1) then (v : ℤ) else (v : ℤ) - 2 ^ (8 * n)) =
      if 2 * v < 256 ^ n then (v : ℤ) else (v : ℤ) - ((256 ^ n : ℕ) : ℤ) := by
  have hpow : 256 ^ n = 2 ^ (8 * n) := by rw [pow_mul]; rfl
  cases n with
  | zero =>
    have hzero : v = 0 := by simpa using h
    simp [hzero]
  | succ n =>
    have hdouble : 256 ^ (n + 1) = 2 * 2 ^ (8 * (n + 1) - 1) := by
      rw [hpow, ← pow_succ']
      exact congrArg (2 ^ ·) (by omega)
    have hcast : (2 : ℤ) ^ (8 * (n + 1)) = ((256 ^ (n + 1) : ℕ) : ℤ) := by rw [hpow]; norm_cast
    rw [hcast]
    split_ifs <;> omega

theorem readInt_append {v : ℤ} (h : FitsBytes n v) (rest : Bytes) :
    readInt n (Writer.int n v ++ rest) = some (v, rest) := by
  have hpow : (256 : ℤ) ^ n = ((256 ^ n : ℕ) : ℤ) := (Nat.cast_pow 256 n).symm
  obtain ⟨hlow, hhigh⟩ := h
  -- a negative number is stored as its complement
  have hmod : v % 256 ^ n = if 0 ≤ v then v else v + 256 ^ n := by
    split_ifs with hsign
    · exact Int.emod_eq_of_lt hsign (by omega)
    · rw [← Int.add_emod_right]
      exact Int.emod_eq_of_lt (by omega) (by omega)
  have hlt : (v % 256 ^ n).toNat < 256 ^ n := by
    rw [hmod]
    split_ifs <;> omega
  rw [readInt, Writer.int, bind_of_eq_some (readLE_append hlt rest)]
  refine congrArg (fun v ↦ some (v, rest)) ?_
  rw [twosComplement_eq hlt, hmod]
  split_ifs <;> omega

theorem readUInt32_append (v : UInt32) (rest : Bytes) :
    readLE 4 (natToLE 4 v.toNat ++ rest) = some (v.toNat, rest) :=
  readLE_append v.toNat_lt rest

theorem readOutPoint_append (o : COutPoint) (rest : Bytes) :
    readOutPoint (Writer.outPoint o ++ rest) = some (o, rest) := by
  rw [readOutPoint, Writer.outPoint, append_assoc, bind_of_eq_some (readUint256_append _ _),
    bind_of_eq_some (readUInt32_append _ _), UInt32.ofNat_toNat]
  rfl

theorem readPubKey_append (k : CPubKey) (rest : Bytes) :
    readPubKey (Writer.pubKey k ++ rest) = some (k, rest) := by
  have hlength : k.bytes.length ≤ maxSize :=
    (length_take_le _ _).trans (k.size_le.trans (by decide))
  rw [readPubKey, Writer.pubKey, Writer.byteVector, append_assoc,
    bind_of_eq_some (readCompactSize_append hlength _), bind_of_eq_some (readBytes_append rfl _),
    k.set_bytes]
  rfl

theorem readTxIn_append {txin : CTxIn} (h : txin.scriptSig.length ≤ maxSize) (rest : Bytes) :
    readTxIn (CTransaction.serializeIn txin ++ rest) = some (txin, rest) := by
  rw [readTxIn, CTransaction.serializeIn, append_assoc, append_assoc,
    bind_of_eq_some (readOutPoint_append _ _), bind_of_eq_some (readByteVector_append h _),
    bind_of_eq_some (readUInt32_append _ _), UInt32.ofNat_toNat]
  rfl

theorem readTxOut_append {out : CTxOut} (hvalue : FitsBytes 8 out.nValue)
    (hscript : out.scriptPubKey.length ≤ maxSize) (rest : Bytes) :
    readTxOut (CTransaction.serializeOut out ++ rest) = some (out, rest) := by
  rw [readTxOut, CTransaction.serializeOut, append_assoc,
    bind_of_eq_some (readInt_append hvalue _), bind_of_eq_some (readByteVector_append hscript _)]
  rfl

/-- **A transaction is read back.** -/
theorem readTransaction_append {tx : CTransaction} (h : tx.OnWire) (rest : Bytes) :
    readTransaction (tx.serialize ++ rest) = some (tx, rest) := by
  rw [readTransaction, CTransaction.serialize, append_assoc, append_assoc,
    append_assoc, bind_of_eq_some (readInt_append h.nVersion _),
    bind_of_eq_some (readVector_append (fun txin hin ↦ readTxIn_append (h.vin txin hin)) h.length_vin _),
    bind_of_eq_some (readVector_append (fun out hout ↦ readTxOut_append (h.vout out hout).1
      (h.vout out hout).2) h.length_vout _),
    bind_of_eq_some (readUInt32_append _ _), UInt32.ofNat_toNat]
  rfl

theorem readIf_append {p : Prop} [Decidable p] {read : Reader α} {default a : α} {bs : Bytes}
    (hread : p → ∀ rest, read (bs ++ rest) = some (a, rest)) (hdefault : ¬p → a = default)
    (rest : Bytes) : readIf p read default ((if p then bs else []) ++ rest) = some (a, rest) := by
  by_cases h : p
  · rw [readIf, if_pos h, if_pos h, hread h]
  · rw [readIf, if_neg h, if_neg h, hdefault h]
    rfl

/-- **A header is read back.** -/
theorem readHeader_append {h : CBlockHeader} (hwire : h.OnWire) (rest : Bytes) :
    readHeader (h.serialize ++ rest) = some (h, rest) := by
  have hsplit {p : Prop} [Decidable p] (a b : Bytes) :
      (if p then a ++ b else []) = (if p then a else []) ++ (if p then b else []) := by
    split_ifs <;> rfl
  have hno := hwire.noAdam
  simp only [readHeader, CBlockHeader.serialize, CBlockHeader.serializeForHash, hsplit, append_assoc]
  rw [bind_of_eq_some (readInt_append hwire.nVersion _), bind_of_eq_some (readUint256_append _ _),
    bind_of_eq_some (readUint256_append _ _), bind_of_eq_some (readUInt32_append _ _),
    bind_of_eq_some (readUInt32_append _ _), bind_of_eq_some (readUInt32_append _ _),
    bind_of_eq_some (readIf_append (fun _ ↦ readUint256_append _) hwire.nAccumulatorCheckpoint _),
    bind_of_eq_some (readIf_append (fun _ ↦ readVector_append (fun k _ ↦ readPubKey_append k)
      hwire.length_vAdamMiners) (fun hv ↦ (hno hv).1) _),
    bind_of_eq_some (readIf_append (fun _ ↦ readVector_append
      (fun solution hs ↦ readByteVector_append (hwire.vAdamSolutions solution hs))
      hwire.length_vAdamSolutions) (fun hv ↦ (hno hv).2.1) _),
    bind_of_eq_some (readIf_append (fun _ ↦ readByteVector_append hwire.vAdamVRFProof)
      (fun hv ↦ (hno hv).2.2.1) _),
    bind_of_eq_some (readIf_append (fun _ ↦ readByteVector_append hwire.vAdamCoordinatorSig)
      (fun hv ↦ (hno hv).2.2.2) _),
    bind_of_eq_some (readIf_append (fun _ ↦ readByteVector_append hwire.vQuorumSig) hwire.noQuorum _)]
  simp only [UInt32.ofNat_toNat]
  rfl

/-- **A block is read back.** -/
theorem readBlock_append {block : CBlock} (hwire : block.OnWire) (rest : Bytes) :
    readBlock (block.serialize ++ rest) = some (block, rest) := by
  have hunchecked : block = { block with fChecked := false } := by rw [← hwire.fChecked]
  rw [readBlock, CBlock.serialize, append_assoc, append_assoc,
    bind_of_eq_some (readHeader_append hwire.header _),
    bind_of_eq_some (readVector_append (fun tx htx ↦ readTransaction_append (hwire.vtx tx htx))
      hwire.length_vtx _),
    show block.vtx[1]?.any (·.isCoinStake) = block.isProofOfStake from rfl,
    bind_of_eq_some (readIf_append (fun _ ↦ readByteVector_append hwire.vchBlockSig) hwire.noBlockSig _)]
  exact congrArg (fun block ↦ some (block, rest)) hunchecked.symm

/-! ### What is read can be sent on -/

theorem fitsBytes_of_readInt {v : ℤ} (h : readInt n s = some (v, rest)) : FitsBytes n v := by
  have hpow : (256 : ℤ) ^ n = ((256 ^ n : ℕ) : ℤ) := (Nat.cast_pow 256 n).symm
  obtain ⟨w, s', hw, h⟩ := bind_eq_some_iff.1 h
  have hlt := lt_of_readLE hw
  obtain ⟨rfl, -⟩ := Prod.mk.inj (Option.some.inj h)
  rw [FitsBytes, hpow, twosComplement_eq hlt]
  split_ifs <;> omega

theorem length_le_of_readByteVector {bs : Bytes} (h : readByteVector s = some (bs, rest)) :
    bs.length ≤ maxSize := by
  obtain ⟨n, s', hn, h⟩ := bind_eq_some_iff.1 h
  rw [(eq_append_of_readBytes h).2]
  exact (eq_append_of_readCompactSize hn).2

theorem length_readMany {read : Reader α} {as : List α} (h : readMany read n s = some (as, rest)) :
    as.length = n := by
  induction n generalizing s as with
  | zero =>
    obtain ⟨rfl, -⟩ := Prod.mk.inj (Option.some.inj h)
    rfl
  | succ n ih =>
    obtain ⟨a, s', -, h⟩ := bind_eq_some_iff.1 h
    obtain ⟨as', s'', has, h⟩ := bind_eq_some_iff.1 h
    obtain ⟨rfl, rfl⟩ := Prod.mk.inj (Option.some.inj h)
    rw [length_cons, ih has]

theorem length_le_of_readVector {read : Reader α} {as : List α}
    (h : readVector read s = some (as, rest)) : as.length ≤ maxSize := by
  obtain ⟨n, s', hn, h⟩ := bind_eq_some_iff.1 h
  rw [length_readMany h]
  exact (eq_append_of_readCompactSize hn).2

/-- **A transaction that was read can be sent on.** -/
theorem onWire_of_readTransaction {tx : CTransaction} (h : readTransaction s = some (tx, rest)) :
    tx.OnWire := by
  simp only [readTransaction, bind_eq_some_iff] at h
  obtain ⟨nVersion, _, hversion, vin, _, hvin, vout, _, hvout, nLockTime, _, -, h⟩ := h
  obtain ⟨rfl, -⟩ := Prod.mk.inj (Option.some.inj h)
  refine ⟨fitsBytes_of_readInt hversion, length_le_of_readVector hvin,
    forall_mem_of_readVector (fun s txin rest h ↦ ?_) hvin, length_le_of_readVector hvout,
    forall_mem_of_readVector (fun s out rest h ↦ ?_) hvout⟩
  · simp only [readTxIn, bind_eq_some_iff] at h
    obtain ⟨_, _, -, _, _, hscript, _, _, -, h⟩ := h
    obtain ⟨rfl, -⟩ := Prod.mk.inj (Option.some.inj h)
    exact length_le_of_readByteVector hscript
  · simp only [readTxOut, bind_eq_some_iff] at h
    obtain ⟨_, _, hvalue, _, _, hscript, h⟩ := h
    obtain ⟨rfl, -⟩ := Prod.mk.inj (Option.some.inj h)
    exact ⟨fitsBytes_of_readInt hvalue, length_le_of_readByteVector hscript⟩

theorem of_readIf {p : Prop} [Decidable p] {read : Reader α} {default a : α}
    (h : readIf p read default s = some (a, rest)) :
    (¬p → a = default) ∧ ∀ {P : α → Prop}, P default → (∀ s rest, read s = some (a, rest) → P a) → P a := by
  by_cases hp : p
  · rw [readIf, if_pos hp] at h
    exact ⟨fun hnp ↦ absurd hp hnp, fun _ hread ↦ hread s rest h⟩
  · rw [readIf, if_neg hp] at h
    obtain ⟨rfl, -⟩ := Prod.mk.inj (Option.some.inj h)
    exact ⟨fun _ ↦ rfl, fun hdefault _ ↦ hdefault⟩

/-- **A header that was read can be sent on.** -/
theorem onWire_of_readHeader {header : CBlockHeader} (h : readHeader s = some (header, rest)) :
    header.OnWire := by
  simp only [readHeader, bind_eq_some_iff] at h
  obtain ⟨nVersion, _, hversion, _, _, -, _, _, -, _, _, -, _, _, -, _, _, -, h⟩ := h
  obtain ⟨accumulator, _, haccumulator, miners, _, hminers, solutions, _, hsolutions, h⟩ := h
  obtain ⟨proof, _, hproof, coordinatorSig, _, hcoordinator, quorumSig, _, hquorum, h⟩ := h
  obtain ⟨rfl, -⟩ := Prod.mk.inj (Option.some.inj h)
  have hbytes {p : Prop} [Decidable p] {bs s rest : Bytes}
      (h : readIf p readByteVector [] s = some (bs, rest)) : bs.length ≤ maxSize :=
    (of_readIf h).2 (P := fun bs ↦ bs.length ≤ maxSize) (Nat.zero_le _) fun _ _ ↦
      length_le_of_readByteVector
  exact
    { nVersion := fitsBytes_of_readInt hversion
      nAccumulatorCheckpoint := (of_readIf haccumulator).1
      length_vAdamMiners := (of_readIf hminers).2 (P := fun as ↦ as.length ≤ maxSize)
        (Nat.zero_le _) fun _ _ ↦ length_le_of_readVector
      length_vAdamSolutions := (of_readIf hsolutions).2 (P := fun as ↦ as.length ≤ maxSize)
        (Nat.zero_le _) fun _ _ ↦ length_le_of_readVector
      vAdamSolutions := (of_readIf hsolutions).2
        (P := fun as ↦ ∀ solution ∈ as, solution.length ≤ maxSize) nofun fun _ _ ↦
          forall_mem_of_readVector fun _ _ _ ↦ length_le_of_readByteVector
      vAdamVRFProof := hbytes hproof
      vAdamCoordinatorSig := hbytes hcoordinator
      vQuorumSig := hbytes hquorum
      noAdam := fun hv ↦ ⟨(of_readIf hminers).1 hv, (of_readIf hsolutions).1 hv,
        (of_readIf hproof).1 hv, (of_readIf hcoordinator).1 hv⟩
      noQuorum := (of_readIf hquorum).1 }

/-- **A block that was read can be sent on.** -/
theorem onWire_of_readBlock {block : CBlock} (h : readBlock s = some (block, rest)) :
    block.OnWire := by
  simp only [readBlock, bind_eq_some_iff] at h
  obtain ⟨header, _, hheader, vtx, _, hvtx, vchBlockSig, _, hsig, h⟩ := h
  obtain ⟨rfl, -⟩ := Prod.mk.inj (Option.some.inj h)
  exact
    { header := onWire_of_readHeader hheader
      length_vtx := length_le_of_readVector hvtx
      vtx := forall_mem_of_readVector (fun _ _ _ ↦ onWire_of_readTransaction) hvtx
      vchBlockSig := (of_readIf hsig).2 (P := fun bs ↦ bs.length ≤ maxSize) (Nat.zero_le _)
        fun _ _ ↦ length_le_of_readByteVector
      noBlockSig := (of_readIf hsig).1
      fChecked := rfl }

end Reader

/-! ### What the hash commits to -/

namespace Writer

variable {α : Type} {rest rest' : Bytes}

theorem byteVector_append_inj {bs bs' : Bytes} (hbs : bs.length < 2 ^ 64) (hbs' : bs'.length < 2 ^ 64)
    (h : byteVector bs ++ rest = byteVector bs' ++ rest') : bs = bs' ∧ rest = rest' := by
  simp only [byteVector, append_assoc] at h
  obtain ⟨hlength, h⟩ := compactSize_append_inj hbs hbs' h
  exact append_inj h hlength

theorem vector_append_inj {write : α → Bytes} {as as' : List α} (has : as.length < 2 ^ 64)
    (has' : as'.length < 2 ^ 64)
    (hwrite : ∀ a ∈ as, ∀ a' ∈ as', ∀ rest rest', write a ++ rest = write a' ++ rest' → a = a' ∧ rest = rest')
    (h : vector write as ++ rest = vector write as' ++ rest') : as = as' ∧ rest = rest' := by
  simp only [vector, append_assoc] at h
  obtain ⟨hlength, hflat⟩ := compactSize_append_inj has has' h
  clear h has has'
  induction as generalizing as' with
  | nil =>
    obtain rfl := length_eq_zero_iff.1 hlength.symm
    exact ⟨rfl, hflat⟩
  | cons a as ih =>
    cases as' with
    | nil => cases hlength
    | cons a' as' =>
      simp only [flatMap_cons, append_assoc] at hflat
      obtain ⟨rfl, hrest⟩ := hwrite a mem_cons_self a' mem_cons_self _ _ hflat
      obtain ⟨rfl, heq⟩ := ih (fun b hb b' hb' ↦ hwrite b (.tail _ hb) b' (.tail _ hb'))
        (Nat.succ.inj hlength) hrest
      exact ⟨rfl, heq⟩

theorem pubKey_append_inj {k k' : CPubKey} (h : pubKey k ++ rest = pubKey k' ++ rest') :
    k = k' ∧ rest = rest' := by
  have hlength (k : CPubKey) : k.bytes.length < 2 ^ 64 :=
    ((length_take_le _ _).trans k.size_le).trans_lt (by decide)
  obtain ⟨hbytes, hrest⟩ := byteVector_append_inj (hlength k) (hlength k') h
  exact ⟨by rw [← k.set_bytes, hbytes, k'.set_bytes], hrest⟩

end Writer

/-- The sizes of the vectors are numbers of 64 bits. -/
structure CBlockHeader.SizesFit (h : CBlockHeader) : Prop where
  vAdamMiners : h.vAdamMiners.length < 2 ^ 64
  vAdamSolutions : h.vAdamSolutions.length < 2 ^ 64
  solution : ∀ solution ∈ h.vAdamSolutions, solution.length < 2 ^ 64
  vAdamVRFProof : h.vAdamVRFProof.length < 2 ^ 64

/-- The header of version 11 or 12 with another checkpoint, coordinator signature and quorum
certificate. -/
def CBlockHeader.withUnhashed (h h' : CBlockHeader) : CBlockHeader :=
  { h with
    nAccumulatorCheckpoint := h'.nAccumulatorCheckpoint
    vAdamCoordinatorSig := h'.vAdamCoordinatorSig
    vQuorumSig := h'.vQuorumSig }

theorem CBlockHeader.serializeForHash_inj {h h' : CBlockHeader} (hfit : h.SizesFit) (hfit' : h'.SizesFit)
    (hversion : h.nVersion = 11 ∨ h.nVersion = 12) (hversion' : h'.nVersion = 11 ∨ h'.nVersion = 12)
    (heq : h.serializeForHash = h'.serializeForHash) : h' = h.withUnhashed h' := by
  have hnat {v w : UInt32} (h : Reader.natToLE 4 v.toNat = Reader.natToLE 4 w.toNat) : v = w :=
    UInt32.toNat_inj.1 (Reader.natToLE_inj v.toNat_lt w.toNat_lt h)
  simp only [serializeForHash, if_neg (show ¬(3 < h.nVersion ∧ h.nVersion < 7) by omega),
    if_neg (show ¬(3 < h'.nVersion ∧ h'.nVersion < 7) by omega), if_pos (show 11 ≤ h.nVersion by omega),
    if_pos (show 11 ≤ h'.nVersion by omega), append_assoc, nil_append] at heq
  obtain ⟨hv, heq⟩ := append_inj heq (by simp [Writer.int])
  obtain ⟨hprev, heq⟩ := append_inj heq (by simp [Uint256.toBytes])
  obtain ⟨hroot, heq⟩ := append_inj heq (by simp [Uint256.toBytes])
  obtain ⟨htime, heq⟩ := append_inj heq (by simp)
  obtain ⟨hbits, heq⟩ := append_inj heq (by simp)
  obtain ⟨hnonce, heq⟩ := append_inj heq (by simp)
  obtain ⟨hminers, heq⟩ := Writer.vector_append_inj hfit.vAdamMiners hfit'.vAdamMiners
    (fun _ _ _ _ _ _ ↦ Writer.pubKey_append_inj) heq
  obtain ⟨hsolutions, heq⟩ := Writer.vector_append_inj hfit.vAdamSolutions hfit'.vAdamSolutions
    (fun s hs s' hs' _ _ ↦ Writer.byteVector_append_inj (hfit.solution s hs) (hfit'.solution s' hs')) heq
  rw [← append_nil (Writer.byteVector _), ← append_nil (Writer.byteVector h'.vAdamVRFProof)] at heq
  obtain ⟨hproof, -⟩ := Writer.byteVector_append_inj hfit.vAdamVRFProof hfit'.vAdamVRFProof heq
  have hv := Writer.int_four_inj (by omega) (by omega) hv
  rw [withUnhashed, hv, Uint256.toBytes_injective hprev, Uint256.toBytes_injective hroot, hnat htime, hnat hbits,
    hnat hnonce, hminers, hsolutions, hproof]

/-- **What is sent and what is hashed.** A block is read back from its serialization exactly if it has the form
in which it can be sent. Two headers of version 11 or 12 with the same serialization for the hash agree in
every field but the checkpoint of earlier versions and the two signatures. -/
theorem serialize_read_and_hash :
    (∀ block : CBlock, Reader.readBlock block.serialize = some (block, []) ↔ block.OnWire) ∧
    ∀ h h' : CBlockHeader, h.SizesFit → h'.SizesFit → (h.nVersion = 11 ∨ h.nVersion = 12) →
      (h'.nVersion = 11 ∨ h'.nVersion = 12) → h.serializeForHash = h'.serializeForHash →
      h' = h.withUnhashed h' := by
  constructor
  · intro block
    refine ⟨Reader.onWire_of_readBlock, fun hwire ↦ ?_⟩
    have hread := Reader.readBlock_append hwire []
    rwa [append_nil] at hread
  · intro h h' hfit hfit' hversion hversion' heq
    exact CBlockHeader.serializeForHash_inj hfit hfit' hversion hversion' heq

def plainHeader : CBlockHeader := ⟨12, 0, 0, 0, 0, 0, 0, [], [], [], [], []⟩

/-- The hash of a header of version 12 does not depend on the checkpoint, and a block with a proof above `MAX_SIZE`
cannot be read. -/
theorem checkpoint_not_hashed :
    plainHeader.serializeForHash = { plainHeader with nAccumulatorCheckpoint := 1 }.serializeForHash ∧
      plainHeader ≠ { plainHeader with nAccumulatorCheckpoint := 1 } ∧
      let block : CBlock :=
        { plainHeader with vAdamVRFProof := List.replicate (Reader.maxSize + 1) 0, vtx := [] }
      Reader.readBlock block.serialize ≠ some (block, []) := by
  refine ⟨rfl, by decide, fun hread ↦ ?_⟩
  have hproof := (Reader.onWire_of_readBlock hread).header.vAdamVRFProof
  rw [length_replicate] at hproof
  omega

end KristaTech
