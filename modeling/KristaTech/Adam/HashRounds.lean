import Mathlib.Data.BitVec
import Mathlib.Data.Fintype.EquivFin
import Mathlib.Data.Nat.Prime.Basic
import KristaTech.Adam.Tickets
import KristaTech.Primitives.Block

/-!
# The rounds of the block hash

From version 11 on `GetHash` of a block header goes through one round for every miner. A round hashes the
value of the round before with the algorithms of its miner and multiplies the result by an odd number. Outside
the fallback mode it uses three algorithms, as the ADAM puzzle does, and multiplies between them by the place
of the miner, counted from one.

Modulo `2 ^ 256` the multiplication by an even number maps two values to one. So every other round loses
values, and so does the puzzle of every other miner, however good the algorithms are
(`rounds_injective_iff`).
-/

namespace KristaTech.Adam

open Function

theorem mul_injective_iff (f : Uint256) : Injective (fun v : Uint256 ↦ v * f) ↔ f.toNat % 2 = 1 := by
  constructor
  · intro hinj
    by_contra heven
    -- the upper half of the values is lost: `2 ^ 255` goes where `0` goes
    have hzero : (BitVec.ofNat 256 (2 ^ 255) : Uint256) * f = 0 * f := by
      refine BitVec.eq_of_toNat_eq ?_
      rw [BitVec.toNat_mul, BitVec.toNat_ofNat, zero_mul]
      show 2 ^ 255 % 2 ^ 256 * f.toNat % 2 ^ 256 = 0
      omega
    exact absurd (hinj hzero) (by decide)
  · intro hodd v w heq
    have hmod : v.toNat * f.toNat ≡ w.toNat * f.toNat [MOD 2 ^ 256] := by
      rw [Nat.ModEq, ← BitVec.toNat_mul, ← BitVec.toNat_mul]
      exact congrArg BitVec.toNat heq
    have hcoprime : Nat.gcd (2 ^ 256) f.toNat = 1 :=
      Nat.Coprime.pow_left 256 (Nat.coprime_two_left.2 (Nat.odd_iff.2 hodd))
    have hcancel := Nat.ModEq.cancel_right_of_coprime hcoprime hmod
    exact BitVec.eq_of_toNat_eq (Nat.ModEq.eq_of_lt_of_lt hcancel v.isLt w.isLt)

section Rounds

variable (X : SolutionEnv) (hashPrevBlock : Uint256) (minerKey : CPubKey)

/-- The second and the third hash of the three, with the multiplications before them. -/
def fromHash3 (minerIdx : ℕ) (hash3 : Uint256) : Uint256 :=
  let (algo1, algo2, _) := getAdam3PermutationAlgos X hashPrevBlock minerKey
  let factor := BitVec.ofNat 256 (minerIdx + 1)
  let hash2 := X.calculateAdamPuzzleHash algo2 (hash3 * factor).toBytes
  X.calculateAdamPuzzleHash algo1 (hash2 * factor).toBytes

/-- The multiplier `m_i` of a round. -/
def multiplier (i : ℕ) : ℕ :=
  let v := (X.crypto.hash (hashPrevBlock.toBytes ++ Reader.natToLE 4 i)).toNat % 256
  if v ||| 1 < 3 then 3 else v ||| 1

/-- The algorithm of a round in fallback mode. -/
def fallbackAlgo : ℕ := (X.crypto.hash (hashPrevBlock.toBytes ++ Writer.pubKey minerKey)).toNat % 18

/-- A round of the hash. The data of the first round is the serialized header, that of the others the value
of the round before. -/
def hashRound (fFallbackMode : Bool) (i : ℕ) (data : Bytes) : Uint256 :=
  let H := if fFallbackMode then X.calculateAdamPuzzleHash (fallbackAlgo X hashPrevBlock minerKey) data
    else fromHash3 X hashPrevBlock minerKey i
      (X.calculateAdamPuzzleHash (getAdam3PermutationAlgos X hashPrevBlock minerKey).2.2 data)
  H * BitVec.ofNat 256 (multiplier X hashPrevBlock i)

end Rounds

/-- The mode of the rounds of a header of version 11 or 12. -/
def fallbackMode (h : CBlockHeader) : Bool := h.nVersion == 11 || 11 < h.vAdamMiners.length

/-- `GetHash` of the versions 11 and 12. -/
def getHash12 (X : SolutionEnv) (h : CBlockHeader) : Uint256 :=
  let M := if fallbackMode h then h.vAdamMiners.length - 1 else h.vAdamMiners.length
  match h.vAdamMiners.take M with
  | [] => X.crypto.hash h.serializeForHash
  | minerKey :: miners =>
    if 32 < h.vAdamMiners.length ∨ 32 < h.vAdamSolutions.length then X.crypto.hash h.serializeForHash
    else (miners.zipIdx 1).foldl
      (fun hPrev p ↦ hashRound X h.hashPrevBlock p.1 (fallbackMode h) p.2 hPrev.toBytes)
      (hashRound X h.hashPrevBlock minerKey (fallbackMode h) 0 h.serializeForHash)

/-- An algorithm on the values of 256 bits. -/
def hashValue (X : SolutionEnv) (algo : ℕ) (v : Uint256) : Uint256 := X.calculateAdamPuzzleHash algo v.toBytes

/-- The algorithms that a round uses. -/
def roundAlgos (X : SolutionEnv) (hashPrevBlock : Uint256) (minerKey : CPubKey) (fFallbackMode : Bool) :
    List ℕ :=
  let algos := getAdam3PermutationAlgos X hashPrevBlock minerKey
  if fFallbackMode then [fallbackAlgo X hashPrevBlock minerKey] else [algos.1, algos.2.1, algos.2.2]

section Injective

variable {X : SolutionEnv} {hashPrevBlock : Uint256} {minerKey : CPubKey}

theorem multiplier_injective (i : ℕ) :
    Injective fun v : Uint256 ↦ v * BitVec.ofNat 256 (multiplier X hashPrevBlock i) := by
  have hodd (v : ℕ) : (v ||| 1) % 2 = 1 := by simp
  rw [mul_injective_iff, BitVec.toNat_ofNat, Nat.mod_mod_of_dvd _ ⟨2 ^ 255, by decide⟩, multiplier]
  split_ifs
  · rfl
  · exact hodd _

theorem factor_injective_iff (i : ℕ) :
    Injective (fun v : Uint256 ↦ v * BitVec.ofNat 256 (i + 1)) ↔ i % 2 = 0 := by
  rw [mul_injective_iff, BitVec.toNat_ofNat]
  omega

theorem fromHash3_injective_iff
    (hinj : ∀ algo ∈ roundAlgos X hashPrevBlock minerKey false, Injective (hashValue X algo)) (i : ℕ) :
    Injective (fromHash3 X hashPrevBlock minerKey i) ↔ i % 2 = 0 := by
  simp only [roundAlgos, Bool.false_eq_true, if_false, List.forall_mem_cons] at hinj
  obtain ⟨h1, h2, -⟩ := hinj
  have heq : fromHash3 X hashPrevBlock minerKey i =
      (hashValue X (getAdam3PermutationAlgos X hashPrevBlock minerKey).1 ∘ (· * BitVec.ofNat 256 (i + 1)) ∘
        hashValue X (getAdam3PermutationAlgos X hashPrevBlock minerKey).2.1) ∘
          (· * BitVec.ofNat 256 (i + 1)) := rfl
  rw [← factor_injective_iff, heq]
  exact ⟨Injective.of_comp, fun h ↦ (h1.comp (h.comp h2)).comp h⟩

theorem hashRound_injective_iff {fFallbackMode : Bool}
    (hinj : ∀ algo ∈ roundAlgos X hashPrevBlock minerKey fFallbackMode, Injective (hashValue X algo))
    (i : ℕ) :
    Injective (fun v : Uint256 ↦ hashRound X hashPrevBlock minerKey fFallbackMode i v.toBytes) ↔
      fFallbackMode = true ∨ i % 2 = 0 := by
  cases fFallbackMode with
  | true => exact iff_of_true ((multiplier_injective i).comp (hinj _ List.mem_cons_self)) (.inl rfl)
  | false =>
    rw [← fromHash3_injective_iff hinj, or_iff_right Bool.false_ne_true]
    simp only [roundAlgos, Bool.false_eq_true, if_false, List.forall_mem_cons] at hinj
    have h3 := hinj.2.2.1
    have hfinite : Finite Uint256 := .of_equiv _ BitVec.equivFin.symm.toEquiv
    have heq : (fun v : Uint256 ↦ hashRound X hashPrevBlock minerKey false i v.toBytes) =
        (· * BitVec.ofNat 256 (multiplier X hashPrevBlock i)) ∘ fromHash3 X hashPrevBlock minerKey i ∘
          hashValue X (getAdam3PermutationAlgos X hashPrevBlock minerKey).2.2 := rfl
    rw [heq]
    -- an injective algorithm reaches every value, so it hides nothing that is lost after it
    exact ⟨fun h ↦ h.of_comp.of_comp_right (Finite.surjective_of_injective h3),
      fun h ↦ (multiplier_injective i).comp (h.comp h3)⟩

end Injective

/-- **Which rounds lose no values.** With injective algorithms a round of the block hash is injective exactly
in fallback mode or for a miner of even index, the puzzle from its first inner hash on exactly for a miner
of even index. -/
theorem rounds_injective_iff (X : SolutionEnv) (hashPrevBlock : Uint256) (minerKey : CPubKey) (i : ℕ) :
    (∀ h : CBlockHeader, h.hashPrevBlock = hashPrevBlock → h.vAdamMiners[i]? = some minerKey →
      (∀ algo ∈ roundAlgos X hashPrevBlock minerKey (fallbackMode h), Injective (hashValue X algo)) →
      (Injective (fun v : Uint256 ↦ hashRound X hashPrevBlock minerKey (fallbackMode h) i v.toBytes) ↔
        fallbackMode h = true ∨ i % 2 = 0)) ∧
    ((∀ algo ∈ roundAlgos X hashPrevBlock minerKey false, Injective (hashValue X algo)) →
      (Injective (fromHash3 X hashPrevBlock minerKey i) ↔ i % 2 = 0)) :=
  ⟨fun _ _ _ hinj ↦ hashRound_injective_iff hinj i, fun hinj ↦ fromHash3_injective_iff hinj i⟩

/-- **Rounds that lose values.** The second round of a header with at most eleven miners and the puzzle of the
second miner are not injective, even if the algorithms change nothing. -/
theorem rounds_lose_values : (∀ algo, Injective (hashValue nonceEnv algo)) ∧
    (∀ (h : CBlockHeader) (minerKey : CPubKey), h.nVersion = 12 → h.vAdamMiners.length ≤ 11 →
      ¬Injective fun v : Uint256 ↦ hashRound nonceEnv h.hashPrevBlock minerKey (fallbackMode h) 1 v.toBytes) ∧
    ∀ hashPrevBlock minerKey, ¬Injective (fromHash3 nonceEnv hashPrevBlock minerKey 1) := by
  have hplain (algo : ℕ) : Injective (hashValue nonceEnv algo) := fun v w heq ↦ by
    have hvalue (u : Uint256) : hashValue nonceEnv algo u = u := by
      have hlength : u.toBytes.length = 32 := Reader.length_natToLE 32 _
      simp only [hashValue, nonceEnv, if_pos hlength]
      rw [Uint256.ofBytes, Uint256.toBytes, Reader.leToNat_natToLE, Nat.mod_eq_of_lt (u.isLt.trans_le (by decide)),
        BitVec.ofNat_toNat, BitVec.setWidth_eq]
    rwa [hvalue, hvalue] at heq
  refine ⟨hplain, fun h minerKey hversion hlength hinj ↦ ?_, fun hashPrevBlock minerKey hinj ↦ ?_⟩
  · have hmode : fallbackMode h = false := by simp [fallbackMode, hversion, hlength]
    rw [hashRound_injective_iff fun algo _ ↦ hplain algo, hmode] at hinj
    exact absurd hinj (by decide)
  · rw [fromHash3_injective_iff fun algo _ ↦ hplain algo] at hinj
    exact absurd hinj (by decide)

end KristaTech.Adam
