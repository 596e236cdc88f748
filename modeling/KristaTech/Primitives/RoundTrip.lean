import KristaTech.Primitives.Transaction

/-!
# Reading back what was written

The readers of `Reader` undo the writers of `Writer`, whatever follows in the stream: numbers of a
fixed width, lengths up to `MAX_SIZE`, byte strings and the signed data of a masternode.
-/

namespace KristaTech

open List Reader

namespace Reader

variable {α : Type} {s rest : Bytes} {n v : ℕ}

theorem bind_of_eq_some {β : Type} {read : Reader α} {f : α → Reader β} {a : α}
    (h : read s = some (a, rest)) : (read >>= f) s = f a rest := by
  show (read s).bind (fun p ↦ f p.1 p.2) = _
  rw [h]
  rfl

theorem bind_eq_some_iff {β : Type} {read : Reader α} {f : α → Reader β} {b : β} :
    (read >>= f) s = some (b, rest) ↔ ∃ a s', read s = some (a, s') ∧ f a s' = some (b, rest) := by
  show (read s).bind (fun p ↦ f p.1 p.2) = _ ↔ _
  cases read s with
  | none => simp
  | some p =>
    obtain ⟨a, s'⟩ := p
    refine ⟨fun h ↦ ⟨a, s', rfl, h⟩, ?_⟩
    rintro ⟨a', s'', heq, h⟩
    obtain ⟨rfl, rfl⟩ := Prod.mk.inj (Option.some.inj heq)
    exact h

theorem guard_eq_some_iff {p : Prop} [Decidable p] {u : Unit} :
    (guard p : Reader Unit) s = some (u, rest) ↔ p ∧ rest = s := by
  by_cases h : p
  · simp only [guard, h, if_true, true_and]
    exact ⟨fun h ↦ (Prod.mk.inj (Option.some.inj h)).2.symm, fun h ↦ h ▸ rfl⟩
  · simp only [guard, h, if_false, false_and, iff_false]
    exact nofun

theorem run'_eq_some_iff {read : Reader α} {a : α} :
    read.run' s = some a ↔ ∃ rest, read s = some (a, rest) := by
  show (read s).map Prod.fst = some a ↔ _
  simp

@[simp]
theorem length_natToLE (n v : ℕ) : (natToLE n v).length = n := by
  induction n generalizing v with
  | zero => rfl
  | succ n ih => simp [natToLE, ih]

theorem leToNat_natToLE (n v : ℕ) : leToNat (natToLE n v) = v % 256 ^ n := by
  induction n generalizing v with
  | zero => simp [natToLE, leToNat, Nat.mod_one]
  | succ n ih =>
    have hbyte : v % 256 % 2 ^ 8 = v % 256 := Nat.mod_eq_of_lt (Nat.mod_lt v (by decide))
    rw [natToLE, leToNat, ih, UInt8.toNat_ofNat', hbyte, Nat.pow_succ', Nat.mod_mul]

theorem leToNat_lt (bs : Bytes) : leToNat bs < 256 ^ bs.length := by
  induction bs with
  | nil => simp [leToNat]
  | cons b bs ih =>
    have hb := b.toNat_lt
    rw [leToNat, length_cons, Nat.pow_succ]
    omega

/-- A number read from `n` bytes has `n` bytes. -/
theorem lt_of_readLE (h : readLE n s = some (v, rest)) : v < 256 ^ n := by
  by_cases hn : n ≤ s.length
  · have hread : readBytes n s = some (s.take n, s.drop n) := if_pos hn
    rw [readLE, bind_of_eq_some hread] at h
    obtain ⟨rfl, -⟩ := Prod.mk.inj (Option.some.inj h)
    simpa [hn] using leToNat_lt (s.take n)
  · have hread : readBytes n s = none := if_neg hn
    rw [readLE] at h
    simp [bind, StateT.bind, hread] at h

theorem readBytes_append {bs : Bytes} (h : bs.length = n) (rest : Bytes) :
    readBytes n (bs ++ rest) = some (bs, rest) := by
  subst h
  simp [readBytes]

theorem readLE_append (h : v < 256 ^ n) (rest : Bytes) :
    readLE n (natToLE n v ++ rest) = some (v, rest) := by
  rw [readLE, bind_of_eq_some (readBytes_append (length_natToLE n v) rest), leToNat_natToLE,
    Nat.mod_eq_of_lt h]
  rfl

/-- A length up to `MAX_SIZE` is read back, from whichever of its forms. -/
theorem readCompactSize_append (h : n ≤ maxSize) (rest : Bytes) :
    readCompactSize (Writer.compactSize n ++ rest) = some (n, rest) := by
  have hmax : maxSize = 0x02000000 := rfl
  have hsize : ¬maxSize < n := by omega
  rw [Writer.compactSize]
  split_ifs with h₁ h₂ h₃
  · have hbytes : [UInt8.ofNat n] = natToLE 1 n := by
      simp [natToLE, Nat.mod_eq_of_lt (show n < 256 by omega)]
    rw [hbytes, readCompactSize, bind_of_eq_some (readLE_append (by omega) rest)]
    simp only [h₁, if_true, pure_bind, hsize, if_false]
    rfl
  · have hread : readLE 1 (253 :: natToLE 2 n ++ rest) = some (253, natToLE 2 n ++ rest) :=
      readLE_append (n := 1) (v := 253) (by omega) _
    rw [readCompactSize, bind_of_eq_some hread]
    simp only [Nat.lt_irrefl, if_false, if_true]
    rw [bind_of_eq_some (readLE_append (by omega) rest)]
    simp only [h₁, if_false, pure_bind, hsize]
    rfl
  · have hread : readLE 1 (254 :: natToLE 4 n ++ rest) = some (254, natToLE 4 n ++ rest) :=
      readLE_append (n := 1) (v := 254) (by omega) _
    rw [readCompactSize, bind_of_eq_some hread]
    simp only [show ¬254 < 253 by decide, show ¬254 = 253 by decide, if_false, if_true]
    rw [bind_of_eq_some (readLE_append (by omega) rest)]
    simp only [show ¬n < 0x10000 by omega, if_false, pure_bind, hsize]
    rfl
  · omega

theorem readByteVector_append {bs : Bytes} (h : bs.length ≤ maxSize) (rest : Bytes) :
    readByteVector (Writer.byteVector bs ++ rest) = some (bs, rest) := by
  rw [readByteVector, Writer.byteVector, append_assoc,
    bind_of_eq_some (readCompactSize_append h _), readBytes_append rfl]

theorem readMany_append {read : Reader α} {write : α → Bytes} {as : List α}
    (h : ∀ a ∈ as, ∀ rest, read (write a ++ rest) = some (a, rest)) (rest : Bytes) :
    readMany read as.length (as.flatMap write ++ rest) = some (as, rest) := by
  induction as with
  | nil => rfl
  | cons a as ih =>
    rw [length_cons, flatMap_cons, append_assoc, readMany, bind_of_eq_some (h a mem_cons_self _),
      bind_of_eq_some (ih fun b hb ↦ h b (mem_cons_of_mem a hb))]
    rfl

theorem readVector_append {read : Reader α} {write : α → Bytes} {as : List α}
    (h : ∀ a ∈ as, ∀ rest, read (write a ++ rest) = some (a, rest)) (hsize : as.length ≤ maxSize)
    (rest : Bytes) : readVector read (Writer.vector write as ++ rest) = some (as, rest) := by
  rw [readVector, Writer.vector, append_assoc, bind_of_eq_some (readCompactSize_append hsize _),
    readMany_append h]

/-! ### Back to the bytes -/

theorem natToLE_leToNat (bs : Bytes) : natToLE bs.length (leToNat bs) = bs := by
  induction bs with
  | nil => rfl
  | cons b bs ih =>
    have hb := b.toNat_lt
    have hmod : (b.toNat + 256 * leToNat bs) % 256 = b.toNat := by omega
    have hdiv : (b.toNat + 256 * leToNat bs) / 256 = leToNat bs := by omega
    rw [length_cons, leToNat, natToLE, hmod, hdiv, ih, UInt8.ofNat_toNat]

theorem eq_append_of_readBytes {vch : Bytes} (h : readBytes n s = some (vch, rest)) :
    s = vch ++ rest ∧ vch.length = n := by
  rw [readBytes] at h
  split_ifs at h with hle
  obtain ⟨rfl, rfl⟩ := Prod.mk.inj (Option.some.inj h)
  exact ⟨(take_append_drop n s).symm, length_take_of_le hle⟩

theorem eq_append_of_readLE (h : readLE n s = some (v, rest)) : s = natToLE n v ++ rest ∧ v < 256 ^ n := by
  refine ⟨?_, lt_of_readLE h⟩
  obtain ⟨bs, s', hbs, h⟩ := bind_eq_some_iff.1 h
  obtain ⟨rfl, rfl⟩ := Prod.mk.inj (Option.some.inj h)
  obtain ⟨hs, rfl⟩ := eq_append_of_readBytes hbs
  rw [natToLE_leToNat]
  exact hs

theorem natToLE_inj {w : ℕ} (hv : v < 256 ^ n) (hw : w < 256 ^ n) (h : natToLE n v = natToLE n w) :
    v = w := by
  have hnat := congrArg leToNat h
  rwa [leToNat_natToLE, leToNat_natToLE, Nat.mod_eq_of_lt hv, Nat.mod_eq_of_lt hw] at hnat

/-- A length is only read from the form it is written in. -/
theorem eq_append_of_readCompactSize (hs : readCompactSize s = some (n, rest)) :
    s = Writer.compactSize n ++ rest ∧ n ≤ maxSize := by
  -- the last check
  have hend {m : ℕ} {s' : Bytes}
      (h : (if maxSize < m then failure else pure m : Reader ℕ) s' = some (n, rest)) :
      m = n ∧ s' = rest ∧ m ≤ maxSize := by
    by_cases hmax : maxSize < m
    · rw [if_pos hmax] at h
      cases h
    · rw [if_neg hmax] at h
      obtain ⟨rfl, rfl⟩ := Prod.mk.inj (Option.some.inj h)
      exact ⟨rfl, rfl, not_lt.1 hmax⟩
  obtain ⟨chSize, s', hch, h⟩ := bind_eq_some_iff.1 hs
  clear hs
  obtain ⟨rfl, hlt⟩ := eq_append_of_readLE hch
  rw [Writer.compactSize]
  -- the form that the first byte announces
  by_cases h₁ : chSize < 253
  · rw [if_pos h₁] at h
    obtain ⟨rfl, rfl, hmax⟩ := hend h
    rw [if_pos h₁, natToLE, natToLE, Nat.mod_eq_of_lt (show chSize < 256 from hlt)]
    exact ⟨rfl, hmax⟩
  rw [if_neg h₁] at h
  by_cases h₂ : chSize = 253
  · rw [if_pos h₂] at h
    obtain ⟨m, s'', hread, hm⟩ := bind_eq_some_iff.1 h
    obtain ⟨hs', hlt⟩ := eq_append_of_readLE hread
    by_cases hsmall : m < 253
    · rw [if_pos hsmall] at hm
      cases hm
    rw [if_neg hsmall] at hm
    obtain ⟨rfl, rfl, hmax⟩ := hend hm
    rw [if_neg hsmall, if_pos (Nat.le_of_lt_succ hlt), h₂, hs']
    exact ⟨rfl, hmax⟩
  rw [if_neg h₂] at h
  by_cases h₃ : chSize = 254
  · rw [if_pos h₃] at h
    obtain ⟨m, s'', hread, hm⟩ := bind_eq_some_iff.1 h
    obtain ⟨hs', hlt⟩ := eq_append_of_readLE hread
    by_cases hsmall : m < 0x10000
    · rw [if_pos hsmall] at hm
      cases hm
    rw [if_neg hsmall] at hm
    obtain ⟨rfl, rfl, hmax⟩ := hend hm
    rw [if_neg (by omega), if_neg (by omega), if_pos (Nat.le_of_lt_succ hlt), h₃, hs']
    exact ⟨rfl, hmax⟩
  · rw [if_neg h₃] at h
    obtain ⟨m, s'', -, hm⟩ := bind_eq_some_iff.1 h
    by_cases hsmall : m < 0x100000000
    · rw [if_pos hsmall] at hm
      cases hm
    rw [if_neg hsmall] at hm
    -- a length of eight bytes is too large
    obtain ⟨rfl, -, hmax⟩ := hend hm
    exact absurd hmax (by rw [maxSize]; omega)

theorem eq_append_of_readMany {read : Reader α} {write : α → Bytes}
    (hread : ∀ s a rest, read s = some (a, rest) → s = write a ++ rest) {as : List α}
    (h : readMany read n s = some (as, rest)) : s = as.flatMap write ++ rest ∧ as.length = n := by
  induction n generalizing s as with
  | zero =>
    obtain ⟨rfl, rfl⟩ := Prod.mk.inj (Option.some.inj h)
    exact ⟨rfl, rfl⟩
  | succ n ih =>
    obtain ⟨a, s', ha, h⟩ := bind_eq_some_iff.1 h
    obtain ⟨as', s'', has, h⟩ := bind_eq_some_iff.1 h
    obtain ⟨rfl, rfl⟩ := Prod.mk.inj (Option.some.inj h)
    obtain ⟨rfl, rfl⟩ := ih has
    rw [hread s a _ ha, flatMap_cons, append_assoc]
    exact ⟨rfl, rfl⟩

theorem forall_mem_of_readMany {read : Reader α} {p : α → Prop}
    (hread : ∀ s a rest, read s = some (a, rest) → p a) {as : List α}
    (h : readMany read n s = some (as, rest)) : ∀ a ∈ as, p a := by
  induction n generalizing s as with
  | zero =>
    obtain ⟨rfl, -⟩ := Prod.mk.inj (Option.some.inj h)
    exact nofun
  | succ n ih =>
    obtain ⟨a, s', ha, h⟩ := bind_eq_some_iff.1 h
    obtain ⟨as', s'', has, h⟩ := bind_eq_some_iff.1 h
    obtain ⟨rfl, rfl⟩ := Prod.mk.inj (Option.some.inj h)
    exact forall_mem_cons.2 ⟨hread s a s' ha, ih has⟩

theorem forall_mem_of_readVector {read : Reader α} {p : α → Prop}
    (hread : ∀ s a rest, read s = some (a, rest) → p a) {as : List α}
    (h : readVector read s = some (as, rest)) : ∀ a ∈ as, p a := by
  obtain ⟨n, s', -, h⟩ := bind_eq_some_iff.1 h
  exact forall_mem_of_readMany hread h

end Reader

theorem Uint256.toBytes_ofNat {v : ℕ} (h : v < 256 ^ 32) :
    Uint256.toBytes (BitVec.ofNat 256 v) = Reader.natToLE 32 v := by
  rw [Uint256.toBytes, BitVec.toNat_ofNat, Nat.mod_eq_of_lt (h.trans_le (by decide))]

theorem eq_append_of_readUint256 {s rest : Bytes} {h : Uint256}
    (hread : readUint256 s = some (h, rest)) : s = h.toBytes ++ rest := by
  obtain ⟨v, s', hv, hread⟩ := bind_eq_some_iff.1 hread
  obtain ⟨rfl, rfl⟩ := Prod.mk.inj (Option.some.inj hread)
  obtain ⟨hs, hlt⟩ := eq_append_of_readLE hv
  rw [Uint256.toBytes_ofNat hlt]
  exact hs

theorem readUint256_append (h : Uint256) (rest : Bytes) :
    readUint256 (h.toBytes ++ rest) = some (h, rest) := by
  have hlt : h.toNat < 256 ^ 32 := h.isLt.trans_le (by decide)
  rw [readUint256, Uint256.toBytes, bind_of_eq_some (readLE_append hlt rest), BitVec.ofNat_toNat,
    BitVec.setWidth_eq]
  rfl

theorem Writer.compactSize_append_inj {m n : ℕ} (hm : m < 2 ^ 64) (hn : n < 2 ^ 64)
    {rest rest' : Bytes} (h : compactSize m ++ rest = compactSize n ++ rest') :
    m = n ∧ rest = rest' := by
  have hnum {k : ℕ} {b b' : UInt8} (hm : m < 256 ^ k) (hn : n < 256 ^ k)
      (h : b :: Reader.natToLE k m ++ rest = b' :: Reader.natToLE k n ++ rest') :
      m = n ∧ rest = rest' := by
    have happend := append_inj (List.cons.inj h).2 (by simp)
    exact ⟨natToLE_inj hm hn happend.1, happend.2⟩
  have hfirst {b b' : UInt8} {bs bs' : Bytes} (h : b :: bs = b' :: bs') : b.toNat = b'.toNat :=
    congrArg UInt8.toNat (List.cons.inj h).1
  rw [compactSize, compactSize] at h
  split_ifs at h
  -- in one form the numbers can be compared, and the first byte tells the forms apart
  all_goals first
    | exact hnum (k := 2) (by omega) (by omega) h
    | exact hnum (k := 4) (by omega) (by omega) h
    | exact hnum (k := 8) (by omega) (by omega) h
    | have hbyte := hfirst h
      simp only [UInt8.toNat_ofNat', UInt8.reduceToNat] at hbyte
      first
      | omega
      | exact ⟨by omega, (List.cons.inj h).2⟩

theorem Writer.int_four_inj {v w : ℤ} (hv : -2 ^ 31 ≤ v ∧ v < 2 ^ 31) (hw : -2 ^ 31 ≤ w ∧ w < 2 ^ 31)
    (h : Writer.int 4 v = Writer.int 4 w) : v = w := by
  have hnat := congrArg Reader.leToNat h
  rw [Writer.int, Writer.int, leToNat_natToLE, leToNat_natToLE] at hnat
  omega

theorem Writer.length_compactSize_le (n : ℕ) : (compactSize n).length ≤ 9 := by
  rw [compactSize]
  split_ifs <;> simp

theorem Uint256.toBytes_injective : Function.Injective Uint256.toBytes := by
  intro a b h
  have hnat := congrArg Reader.leToNat h
  rw [Uint256.toBytes, Uint256.toBytes, leToNat_natToLE, leToNat_natToLE,
    Nat.mod_eq_of_lt (a.isLt.trans_le (by decide)), Nat.mod_eq_of_lt (b.isLt.trans_le (by decide))]
    at hnat
  exact BitVec.eq_of_toNat_eq hnat

/-! ### Signed data -/

namespace CBLSSignedData

def serialize (signedData : CBLSSignedData) : Bytes :=
  signedData.blsPubKey.data ++ (signedData.blsSig.data ++ Writer.byteVector signedData.ecdsaSig)

theorem readBLSPubKey_append {key : CBLSPubKey} (hkey : key.fValid = true) (rest : Bytes) :
    readBLSPubKey (key.data ++ rest) = some (key, rest) := by
  have hread := readBytes_append key.size_data rest
  obtain ⟨data, fValid, hsize⟩ := key
  obtain rfl : fValid = true := hkey
  rw [readBLSPubKey]
  split
  · rename_i bs rest' h
    obtain ⟨rfl, rfl⟩ := Prod.mk.inj (Option.some.inj (h.symm.trans hread))
    rfl
  · rename_i h
    cases h.symm.trans hread

theorem readBLSSignature_append {sig : CBLSSignature} (hsig : sig.fValid = true) (rest : Bytes) :
    readBLSSignature (sig.data ++ rest) = some (sig, rest) := by
  have hread := readBytes_append sig.size_data rest
  obtain ⟨data, fValid, hsize⟩ := sig
  obtain rfl : fValid = true := hsig
  rw [readBLSSignature]
  split
  · rename_i bs rest' h
    obtain ⟨rfl, rfl⟩ := Prod.mk.inj (Option.some.inj (h.symm.trans hread))
    rfl
  · rename_i h
    cases h.symm.trans hread

/-- Signed data with valid parts is read back, whatever follows. -/
theorem parse_serialize_append {signedData : CBLSSignedData}
    (hkey : signedData.blsPubKey.fValid = true) (hsig : signedData.blsSig.fValid = true)
    (hsize : signedData.ecdsaSig.length ≤ Reader.maxSize) (rest : Bytes) :
    parse (signedData.serialize ++ rest) = some signedData := by
  rw [parse, read, serialize, append_assoc, append_assoc, bind_of_eq_some (readBLSPubKey_append hkey _),
    bind_of_eq_some (readBLSSignature_append hsig _),
    bind_of_eq_some (readByteVector_append hsize rest)]
  rfl

end CBLSSignedData

theorem Uint160.ofBytes_toBytes (id : Uint160) : Uint160.ofBytes id.toBytes = id := by
  have hlt : id.toNat < 256 ^ 20 := id.isLt.trans_le (by decide)
  rw [Uint160.ofBytes, Uint160.toBytes, leToNat_natToLE, Nat.mod_eq_of_lt hlt,
    BitVec.ofNat_toNat, BitVec.setWidth_eq]

@[simp]
theorem Uint160.length_toBytes (id : Uint160) : id.toBytes.length = 20 := length_natToLE 20 _

end KristaTech
