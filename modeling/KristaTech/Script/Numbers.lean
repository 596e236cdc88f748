import KristaTech.Primitives.RoundTrip
import KristaTech.Script.Script
import Mathlib.Tactic.Ring

/-!
# Numbers of scripts

`CScriptNum` reads a number from little-endian bytes with the sign in the top bit of the last one, and
writes it back in its shortest form. What is read from the shortest form is written back as it was
(`serialize_setVch`).
-/

namespace KristaTech.CScriptNum

open List

theorem leToNat_append (a b : Bytes) :
    Reader.leToNat (a ++ b) = Reader.leToNat a + 256 ^ a.length * Reader.leToNat b := by
  induction a with
  | nil => simp [Reader.leToNat]
  | cons x a ih =>
    rw [cons_append, Reader.leToNat, ih, Reader.leToNat, length_cons, Nat.pow_succ]
    ring

/-! ### The sign -/

theorem forall_byte {P : UInt8 → Prop} (h : ∀ n < 256, P (UInt8.ofNat n)) (b : UInt8) : P b :=
  UInt8.ofNat_toNat (x := b) ▸ h b.toNat b.toNat_lt

theorem toNat_eq_sign_add (b : UInt8) :
    b.toNat = (if b &&& 0x80 ≠ 0 then 0x80 else 0) + (b &&& 0x7f).toNat :=
  forall_byte (P := fun b ↦ b.toNat = (if b &&& 0x80 ≠ 0 then 0x80 else 0) + (b &&& 0x7f).toNat)
    (by decide +kernel) b

def unsigned (init : Bytes) (last : UInt8) : ℕ := Reader.leToNat (init ++ [last &&& 0x7f])

/-- **A number is its absolute value and its sign.** -/
theorem setVch_concat (init : Bytes) (last : UInt8) : setVch (init ++ [last]) =
      if last &&& 0x80 ≠ 0 then -(unsigned init last : ℤ) else unsigned init last := by
  have hlast := toNat_eq_sign_add last
  have hlength : (init ++ [last]).length - 1 = init.length := by simp
  rw [setVch, getLast?_concat, unsigned, leToNat_append, leToNat_append, hlength]
  simp only [Reader.leToNat, mul_zero, add_zero]
  split_ifs with hsign
  · rw [if_pos hsign] at hlast
    rw [hlast]
    push_cast
    ring
  · rw [if_neg hsign, zero_add] at hlast
    rw [hlast]

theorem natAbs_setVch_concat (init : Bytes) (last : UInt8) :
    (setVch (init ++ [last])).natAbs = unsigned init last := by
  rw [setVch_concat]
  split_ifs <;> simp

variable {vch : Bytes}

theorem natAbs_setVch_cons (b : UInt8) (hne : vch ≠ []) :
    (setVch (b :: vch)).natAbs = b.toNat + 256 * (setVch vch).natAbs := by
  obtain ⟨init, last, rfl⟩ := eq_nil_or_concat' vch |>.resolve_left hne
  rw [← cons_append, natAbs_setVch_concat, natAbs_setVch_concat]
  rfl

theorem natAbs_setVch_lt (h : vch.length ≤ 4) : (setVch vch).natAbs < 2 ^ 31 := by
  rcases eq_nil_or_concat' vch with rfl | ⟨init, last, rfl⟩
  · decide
  · have hinit := Reader.leToNat_lt init
    have hlast : (last &&& 0x7f).toNat ≤ 127 := by
      rw [UInt8.toNat_and]
      exact Nat.and_le_right
    have hlength : init.length ≤ 3 := by
      rw [length_append, length_singleton] at h
      omega
    rw [natAbs_setVch_concat, unsigned, leToNat_append]
    simp only [Reader.leToNat, mul_zero, add_zero]
    calc Reader.leToNat init + 256 ^ init.length * (last &&& 0x7f).toNat
        < 256 ^ init.length + 256 ^ init.length * 127 :=
          Nat.add_lt_add_of_lt_of_le hinit (Nat.mul_le_mul_left _ hlast)
      _ = 256 ^ init.length * 128 := by ring
      _ ≤ 256 ^ 3 * 128 := Nat.mul_le_mul_right _ (Nat.pow_le_pow_right (by decide) hlength)
      _ = 2 ^ 31 := by decide

/-! ### The shortest form -/

theorem magnitude_succ {fuel v : ℕ} (hv : v ≠ 0) :
    magnitude (fuel + 1) v = UInt8.ofNat (v % 256) :: magnitude fuel (v / 256) := by
  cases v with
  | zero => exact absurd rfl hv
  | succ v => rfl

theorem magnitude_leToNat {fuel : ℕ} {bs : Bytes} (hlength : bs.length ≤ fuel)
    (hlast : bs.getLast? ≠ some 0) : magnitude fuel (Reader.leToNat bs) = bs := by
  induction bs generalizing fuel with
  | nil => cases fuel <;> rfl
  | cons b bs ih =>
    cases fuel with
    | zero => cases hlength
    | succ fuel =>
      have hb := b.toNat_lt
      have hbs : magnitude fuel (Reader.leToNat bs) = bs := by
        refine ih (Nat.le_of_succ_le_succ hlength) fun h ↦ hlast ?_
        rw [getLast?_cons, h]
        rfl
      have hne : b.toNat + 256 * Reader.leToNat bs ≠ 0 := by
        cases bs with
        | nil =>
          have hzero : b.toNat ≠ 0 := fun h ↦ hlast (by rw [← UInt8.ofNat_toNat (x := b), h]; rfl)
          omega
        | cons b' bs =>
          have hpos : Reader.leToNat (b' :: bs) ≠ 0 := fun h ↦ by
            rw [h] at hbs
            cases fuel <;> cases hbs
          omega
      have hmod : (b.toNat + 256 * Reader.leToNat bs) % 256 = b.toNat := by omega
      have hdiv : (b.toNat + 256 * Reader.leToNat bs) / 256 = Reader.leToNat bs := by omega
      rw [Reader.leToNat, magnitude_succ hne, hmod, hdiv, hbs, UInt8.ofNat_toNat]

theorem setVch_concat_neg_iff {init : Bytes} {last : UInt8} (h : unsigned init last ≠ 0) :
    setVch (init ++ [last]) < 0 ↔ last &&& 0x80 ≠ 0 := by
  rw [setVch_concat]
  split_ifs with hsign
  · exact ⟨fun _ ↦ hsign, fun _ ↦ by omega⟩
  · exact ⟨fun hneg ↦ by omega, fun h ↦ absurd h hsign⟩

/-- The last byte holds a sign only. -/
theorem eq_of_and_eq_zero {b : UInt8} (h : b &&& 0x7f = 0) : b = if b &&& 0x80 ≠ 0 then 0x80 else 0 :=
  forall_byte (P := fun b ↦ b &&& 0x7f = 0 → b = if b &&& 0x80 ≠ 0 then 0x80 else 0) (by decide +kernel) b h

theorem and_sign_eq_zero (b : UInt8) : b &&& 0x7f &&& 0x80 = 0 ∧
    (if b &&& 0x80 ≠ 0 then b &&& 0x7f ||| 0x80 else b &&& 0x7f) = b :=
  forall_byte (P := fun b ↦ b &&& 0x7f &&& 0x80 = 0 ∧
    (if b &&& 0x80 ≠ 0 then b &&& 0x7f ||| 0x80 else b &&& 0x7f) = b) (by decide +kernel) b

/-- **The shortest form is written back.** -/
theorem serialize_setVch (hlength : vch.length ≤ 8) (hmin : isMinimal vch = true) :
    serialize (setVch vch) = vch := by
  rcases eq_nil_or_concat' vch with rfl | ⟨init, last, rfl⟩
  · rfl
  rw [isMinimal, reverse_append, reverse_singleton, singleton_append] at hmin
  by_cases hrest : last &&& 0x7f = 0
  · -- the last byte is a bare sign, and the one before it has its top bit set
    rcases eq_nil_or_concat' init with rfl | ⟨init, b, rfl⟩
    · simp [hrest] at hmin
    · have hb : b &&& 0x80 ≠ 0 := by simpa [hrest] using hmin
      have hmagnitude : magnitude 8 (unsigned (init ++ [b]) last) = init ++ [b] := by
        rw [unsigned, hrest, leToNat_append]
        refine magnitude_leToNat (by simp at hlength ⊢; omega) ?_
        rw [getLast?_concat]
        rintro ⟨⟩
        exact hb rfl
      have hne : unsigned (init ++ [b]) last ≠ 0 := fun h ↦ by simp [h, magnitude] at hmagnitude
      rw [serialize, natAbs_setVch_concat, hmagnitude, getLast?_concat]
      simp only [if_pos hb, setVch_concat_neg_iff hne]
      rw [← eq_of_and_eq_zero hrest]
  · have hmagnitude : magnitude 8 (unsigned init last) = init ++ [last &&& 0x7f] := by
      refine magnitude_leToNat (by simpa using hlength) ?_
      rw [getLast?_concat]
      exact fun h ↦ hrest (Option.some.inj h)
    have hne : unsigned init last ≠ 0 := fun h ↦ by simp [h, magnitude] at hmagnitude
    obtain ⟨hsign, hlast⟩ := and_sign_eq_zero last
    rw [serialize, natAbs_setVch_concat, hmagnitude, getLast?_concat]
    simp only [hsign, ne_eq, not_true_eq_false, if_false, setVch_concat_neg_iff hne, dropLast_concat]
    rw [← apply_ite (fun b ↦ init ++ [b]), hlast]

/-! ### Reading what was written -/

theorem isMinimal_cons (b : UInt8) (hne : vch ≠ []) (h : isMinimal vch = true) :
    isMinimal (b :: vch) = true := by
  obtain ⟨init, last, rfl⟩ := (eq_nil_or_concat' vch).resolve_left hne
  rw [isMinimal, reverse_append, reverse_singleton, singleton_append] at h
  rw [isMinimal, reverse_cons, reverse_append, reverse_singleton, singleton_append]
  cases hinit : init.reverse with
  | nil =>
    rw [hinit] at h
    exact Bool.or_eq_true_iff.2 (Or.inl h)
  | cons b' rest =>
    rw [hinit] at h
    exact h

theorem exists_shortest (k : ℕ) {n : ℕ} (hpos : 0 < n) (hlt : n < 128 * 256 ^ k) :
    ∃ vch last, vch.length ≤ k + 1 ∧ vch.getLast? = some last ∧ last &&& 0x80 = 0 ∧ isMinimal vch = true ∧
      Reader.leToNat vch = n := by
  have hbyte : ∀ m < 128, UInt8.ofNat m &&& 0x80 = 0 ∧ (m ≠ 0 → isMinimal [UInt8.ofNat m] = true) := by
    decide
  have hsign : ∀ m < 256, 128 ≤ m → isMinimal [UInt8.ofNat m, 0] = true := by decide +kernel
  induction k generalizing n with
  | zero =>
    obtain ⟨hclear, hminimal⟩ := hbyte n (by omega)
    refine ⟨[UInt8.ofNat n], UInt8.ofNat n, le_rfl, rfl, hclear, hminimal hpos.ne', ?_⟩
    simp only [Reader.leToNat, UInt8.toNat_ofNat']
    omega
  | succ k ih =>
    have htoNat : (UInt8.ofNat (n % 256)).toNat = n % 256 := by
      rw [UInt8.toNat_ofNat']
      omega
    by_cases hsmall : n < 256
    · by_cases htop : n < 128
      · obtain ⟨hclear, hminimal⟩ := hbyte n htop
        refine ⟨[UInt8.ofNat n], UInt8.ofNat n, Nat.succ_le_succ (Nat.zero_le _), rfl, hclear,
          hminimal hpos.ne', ?_⟩
        simp only [Reader.leToNat, UInt8.toNat_ofNat']
        omega
      · refine ⟨[UInt8.ofNat n, 0], 0, by simp, rfl, by decide, hsign n hsmall (not_lt.1 htop), ?_⟩
        simp only [Reader.leToNat, UInt8.toNat_ofNat', UInt8.toNat_zero]
        omega
    · have hquotient : n / 256 < 128 * 256 ^ k := by
        rw [Nat.div_lt_iff_lt_mul (by decide), Nat.mul_assoc, ← Nat.pow_succ]
        exact hlt
      obtain ⟨vch, last, hlength, hlast, hclear, hminimal, hvalue⟩ := ih (by omega) hquotient
      have hne : vch ≠ [] := by
        rintro rfl
        cases hlast
      refine ⟨UInt8.ofNat (n % 256) :: vch, last, Nat.succ_le_succ hlength, ?_, hclear,
        isMinimal_cons _ hne hminimal, ?_⟩
      · rw [getLast?_cons, hlast]
        rfl
      · rw [Reader.leToNat, hvalue, htoNat]
        omega

/-- **What was written is read**, for the numbers that fit. -/
theorem ofVch_serialize {n : ℤ} (hnonneg : 0 ≤ n) (hlt : n < 2 ^ 31) :
    ofVch (serialize n) true = some n := by
  obtain ⟨m, rfl⟩ := Int.eq_ofNat_of_zero_le hnonneg
  cases m with
  | zero => rfl
  | succ m =>
    obtain ⟨vch, last, hlength, hlast, hclear, hminimal, hvalue⟩ :=
      exists_shortest 3 (Nat.succ_pos m) (by norm_num at hlt ⊢; omega)
    have hset : setVch vch = ((m + 1 : ℕ) : ℤ) := by
      rw [setVch, hlast]
      simp only [hclear, ne_eq, not_true_eq_false, if_false, hvalue]
    rw [← hset, serialize_setVch (hlength.trans (by decide)) hminimal]
    simp [ofVch, defaultMaxNumSize, hlength, hminimal]

end KristaTech.CScriptNum
