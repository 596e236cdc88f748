import Mathlib.Algebra.BigOperators.Intervals
import Mathlib.Algebra.BigOperators.Ring.Finset
import Mathlib.Algebra.Order.BigOperators.Group.Finset
import Mathlib.Algebra.Order.Ring.Abs
import Mathlib.Data.Rat.Cast.Order
import Mathlib.Tactic.Linarith
import Mathlib.Tactic.NormNum
import Mathlib.Tactic.Ring
import KristaTech.Consensus.Params

/-!
# The emission curve

From height 10000 on the subsidy of `GetBlockValue` is 15 coins times a power of 0.981, taken by squaring in
fixed point. A product is rounded to the nearest number, so it adds half a unit to the errors of its factors;
as the factors are at most one, the power `0.981 ^ n` is off by at most `n / 2` units of `10 ^ -18`
(`decayLoop_near`). In the heights of an `int` that is far less than a base unit of the coin. So the subsidy
is within one base unit of the curve, does not increase, and adds up to less than the supply limit.
-/

namespace KristaTech.Params

/-- The part that is left after a period. -/
def decayRate : ℚ := 981 / 1000

theorem decayRate_pow_bounds (n : ℕ) : 0 ≤ decayRate ^ n ∧ decayRate ^ n ≤ 1 :=
  ⟨pow_nonneg (by norm_num [decayRate]) n, pow_le_one₀ (by norm_num [decayRate]) (by norm_num [decayRate])⟩

/-! ### Fixed point -/

theorem fixedMul_bounds (a b : ℕ) :
    fixedMul a b * 10 ^ 18 ≤ a * b + 5 * 10 ^ 17 ∧ a * b ≤ fixedMul a b * 10 ^ 18 + 5 * 10 ^ 17 := by
  simp only [fixedMul, fixedScale]
  generalize a * b = n
  omega

variable {a b p : ℕ}

theorem fixedMul_le (ha : a ≤ fixedScale) (hb : b ≤ fixedScale) : fixedMul a b ≤ fixedScale := by
  have hmul := Nat.mul_le_mul ha hb
  have := (fixedMul_bounds a b).1
  simp only [fixedScale] at hmul ⊢
  omega

/-- A product is off by the errors of its factors and half a unit. -/
theorem fixedMul_near {A B α β : ℚ} (ha : |a - 10 ^ 18 * A| ≤ α) (hb : |b - 10 ^ 18 * B| ≤ β)
    (hle : a ≤ fixedScale) (hB : 0 ≤ B ∧ B ≤ 1) :
    |(fixedMul a b : ℚ) - 10 ^ 18 * (A * B)| ≤ α + β + 1 / 2 := by
  have hround : |10 ^ 18 * (fixedMul a b : ℚ) - a * b| ≤ 10 ^ 18 / 2 := by
    obtain ⟨h₁, h₂⟩ := fixedMul_bounds a b
    have h₁ : (fixedMul a b : ℚ) * 10 ^ 18 ≤ a * b + 5 * 10 ^ 17 := by exact_mod_cast h₁
    have h₂ : (a * b : ℚ) ≤ fixedMul a b * 10 ^ 18 + 5 * 10 ^ 17 := by exact_mod_cast h₂
    exact abs_le.2 ⟨by linarith, by linarith⟩
  have hfirst : |(a : ℚ) * (b - 10 ^ 18 * B)| ≤ 10 ^ 18 * β := by
    have hle : (a : ℚ) ≤ 10 ^ 18 := by exact_mod_cast hle
    rw [abs_mul, abs_of_nonneg (Nat.cast_nonneg a)]
    exact mul_le_mul hle hb (abs_nonneg _) (by norm_num)
  have hsecond : |10 ^ 18 * (B * (a - 10 ^ 18 * A))| ≤ 10 ^ 18 * α := by
    rw [abs_mul, abs_mul, abs_of_nonneg hB.1, abs_of_nonneg (by norm_num : (0 : ℚ) ≤ 10 ^ 18)]
    exact mul_le_mul_of_nonneg_left ((mul_le_of_le_one_left (abs_nonneg _) hB.2).trans ha) (by norm_num)
  rw [abs_le] at hround hfirst hsecond ⊢
  constructor <;> linarith [hround.1, hround.2, hfirst.1, hfirst.2, hsecond.1, hsecond.2]

/-- **The error of the power.** With `factor` standing for the power `n` and `base` for the power `w`, the
loop gives the power `n + w * exp`; the error stays below half a unit for each period. -/
theorem decayLoop_near {fuel exp factor base n w : ℕ} (hexp : exp < 2 ^ fuel) (hfactor : factor ≤ fixedScale)
    (hbase : base ≤ fixedScale) (hn : |(factor : ℚ) - 10 ^ 18 * decayRate ^ n| ≤ (n : ℚ) / 2)
    (hw : |(base : ℚ) - 10 ^ 18 * decayRate ^ w| ≤ ((w : ℚ) - 1) / 2) :
    decayLoop fuel exp factor base ≤ fixedScale ∧
      |(decayLoop fuel exp factor base : ℚ) - 10 ^ 18 * decayRate ^ (n + w * exp)| ≤
        ((n + w * exp : ℕ) : ℚ) / 2 := by
  induction fuel generalizing exp factor base n w with
  | zero =>
    obtain rfl : exp = 0 := by omega
    exact ⟨hfactor, hn⟩
  | succ fuel ih =>
    rw [decayLoop]
    by_cases hzero : exp = 0
    · rw [if_pos hzero, hzero]
      exact ⟨hfactor, hn⟩
    rw [if_neg hzero]
    dsimp only
    -- the factor takes the lowest bit of the exponent, the base is squared for the next one
    have htake : ∃ n', n' + 2 * w * (exp / 2) = n + w * exp ∧
        (if exp % 2 = 1 then fixedMul factor base else factor) ≤ fixedScale ∧
        |((if exp % 2 = 1 then fixedMul factor base else factor : ℕ) : ℚ) - 10 ^ 18 * decayRate ^ n'| ≤
          (n' : ℚ) / 2 := by
      split_ifs with hodd
      · have hexp' : 2 * (exp / 2) + 1 = exp := by omega
        refine ⟨n + w, ?_, fixedMul_le hfactor hbase, ?_⟩
        · calc n + w + 2 * w * (exp / 2) = n + w * (2 * (exp / 2) + 1) := by ring
            _ = n + w * exp := by rw [hexp']
        · have hnear := fixedMul_near hn hw hfactor (decayRate_pow_bounds w)
          rw [pow_add]
          refine hnear.trans (le_of_eq ?_)
          push_cast
          ring
      · have hexp' : 2 * (exp / 2) = exp := by omega
        refine ⟨n, ?_, hfactor, hn⟩
        rw [Nat.mul_comm 2 w, Nat.mul_assoc, hexp']
    generalize (if exp % 2 = 1 then fixedMul factor base else factor) = factor' at htake ⊢
    obtain ⟨n', hsum, hfactor', hn'⟩ := htake
    rw [← hsum]
    have hexp' : exp / 2 < 2 ^ fuel := by omega
    split_ifs with hmore
    · refine ih hexp' hfactor' (fixedMul_le hbase hbase) hn' ?_
      have hnear := fixedMul_near hw hw hbase (decayRate_pow_bounds w)
      rw [two_mul, pow_add]
      refine hnear.trans (le_of_eq ?_)
      push_cast
      ring
    · have hdone : exp / 2 = 0 := by omega
      have hdone' := ih hexp' hfactor' hbase hn' hw
      rw [hdone, Nat.mul_zero] at hdone' ⊢
      exact hdone'

/-! ### In 128 bits -/

/-- The product as the code computes it, modulo `2 ^ 128`. -/
def fixedMul128 (a b : ℕ) : ℕ := (a * b % 2 ^ 128 + fixedScale / 2) % 2 ^ 128 / fixedScale

/-- The loop of `GetBlockValue` on numbers of 128 bits. -/
def decayLoop128 : (fuel exp factor base : ℕ) → ℕ
  | 0, _, factor, _ => factor
  | fuel + 1, exp, factor, base =>
    if exp = 0 then factor
    else
      let factor := if exp % 2 = 1 then fixedMul128 factor base else factor
      let exp := exp / 2
      decayLoop128 fuel exp factor (if 0 < exp then fixedMul128 base base else base)

theorem fixedMul128_eq (ha : a ≤ fixedScale) (hb : b ≤ fixedScale) : fixedMul128 a b = fixedMul a b := by
  have hmul := Nat.mul_le_mul ha hb
  simp only [fixedMul128, fixedMul, fixedScale] at hmul ⊢
  generalize a * b = n at hmul ⊢
  rw [Nat.mod_eq_of_lt (a := n) (by omega), Nat.mod_eq_of_lt (by omega)]

theorem decayLoop128_eq {fuel exp factor base : ℕ} (hfactor : factor ≤ fixedScale)
    (hbase : base ≤ fixedScale) : decayLoop128 fuel exp factor base = decayLoop fuel exp factor base := by
  induction fuel generalizing exp factor base with
  | zero => rfl
  | succ fuel ih =>
    simp only [decayLoop128, decayLoop, fixedMul128_eq hfactor hbase, fixedMul128_eq hbase hbase]
    have hmul := fixedMul_le hfactor hbase
    have hsquare := fixedMul_le hbase hbase
    split_ifs
    · rfl
    all_goals exact ih (by assumption) (by assumption)

/-! ### The subsidy -/

/-- The power that the loop of `GetBlockValue` computes. -/
def decayFactor (period : ℕ) : ℕ := decayLoop 32 period fixedScale (981 * 10 ^ 15)

/-- The subsidy of a height before it is clamped. -/
def subsidy (nHeight : ℤ) : CAmount :=
  if nHeight = 1 then 0
  else if nHeight < 10000 then if nHeight = 0 then 15 * 10 ^ 8 else 100 * 10 ^ 8
  else fixedMul (15 * 10 ^ 8) (decayFactor ((nHeight - 10000) / 259200).toNat)

theorem getBlockValue_eq_subsidy (consensus : Params) {nMoneySupply : CAmount} {nHeight : ℤ}
    (hroom : nMoneySupply + subsidy nHeight < consensus.nMaxMoneyOut) (hnonneg : 0 ≤ subsidy nHeight) :
    consensus.getBlockValue nMoneySupply nHeight = subsidy nHeight := by
  have hcap : ¬consensus.nMaxMoneyOut ≤ nMoneySupply := fun h ↦ by
    have hbound (m s t : ℤ) (h : m ≤ s) (hroom : s + t < m) (ht : 0 ≤ t) : False := by omega
    exact hbound _ _ _ h hroom hnonneg
  rw [subsidy] at hroom
  rw [subsidy, getBlockValue, if_neg hcap]
  dsimp only
  split_ifs at hroom ⊢ with hone hearly hzero hclamp
  · rfl
  · rfl
  · rfl
  · exact absurd hclamp hroom.le.not_gt
  · rfl

theorem decayFactor_near (hp : p < 2 ^ 32) : decayFactor p ≤ fixedScale ∧
    |(decayFactor p : ℚ) - 10 ^ 18 * decayRate ^ p| ≤ (p : ℚ) / 2 := by
  have h := decayLoop_near (n := 0) (w := 1) hp le_rfl (by decide : 981 * 10 ^ 15 ≤ fixedScale)
    (by norm_num [fixedScale]) (by norm_num [decayRate])
  rwa [Nat.one_mul, Nat.zero_add] at h

theorem subsidyOf_near (hp : p ≤ 10 ^ 4) :
    |(fixedMul (15 * 10 ^ 8) (decayFactor p) : ℚ) - 15 * 10 ^ 8 * decayRate ^ p| ≤ 1 := by
  have hnear := abs_le.1 (decayFactor_near (p := p) (by omega)).2
  obtain ⟨h₁, h₂⟩ := fixedMul_bounds (15 * 10 ^ 8) (decayFactor p)
  have h₁ : (fixedMul (15 * 10 ^ 8) (decayFactor p) : ℚ) * 10 ^ 18 ≤
      15 * 10 ^ 8 * decayFactor p + 5 * 10 ^ 17 := by exact_mod_cast h₁
  have h₂ : (15 * 10 ^ 8 * decayFactor p : ℚ) ≤
      fixedMul (15 * 10 ^ 8) (decayFactor p) * 10 ^ 18 + 5 * 10 ^ 17 := by exact_mod_cast h₂
  have hp : (p : ℚ) ≤ 10 ^ 4 := by exact_mod_cast hp
  exact abs_le.2 ⟨by linarith [hnear.1], by linarith [hnear.2]⟩

/-- From one period to the next the subsidy does not increase: either the power does not, or it is so small
that the subsidy is zero. -/
theorem subsidyOf_succ_le (hp : p < 10 ^ 4) :
    fixedMul (15 * 10 ^ 8) (decayFactor (p + 1)) ≤ fixedMul (15 * 10 ^ 8) (decayFactor p) := by
  rcases le_total (decayFactor (p + 1)) (decayFactor p) with hle | hle
  · exact Nat.div_le_div_right (Nat.add_le_add_right (Nat.mul_le_mul_left _ hle) _)
  have hnear := abs_le.1 (decayFactor_near (p := p) (by omega)).2
  have hnext := abs_le.1 (decayFactor_near (p := p + 1) (by omega)).2
  have hle : (decayFactor p : ℚ) ≤ decayFactor (p + 1) := by exact_mod_cast hle
  have hpq : (p : ℚ) + 1 ≤ 10 ^ 4 := by exact_mod_cast hp
  rw [pow_succ decayRate, decayRate] at hnext
  rw [decayRate] at hnear
  push_cast at hnext
  have hsmall : (decayFactor (p + 1) : ℚ) ≤ 10 ^ 8 := by linarith [hnear.1, hnext.2]
  have hsmall : decayFactor (p + 1) ≤ 10 ^ 8 := by exact_mod_cast hsmall
  have hbound := (fixedMul_bounds (15 * 10 ^ 8) (decayFactor (p + 1))).1
  omega

theorem subsidyOf_antitone {q : ℕ} (hpq : p ≤ q) (hq : q ≤ 10 ^ 4) :
    fixedMul (15 * 10 ^ 8) (decayFactor q) ≤ fixedMul (15 * 10 ^ 8) (decayFactor p) := by
  induction q, hpq using Nat.le_induction with
  | base => exact le_rfl
  | succ q _ ih => exact (subsidyOf_succ_le (by omega)).trans (ih (by omega))

/-! ### The sum -/

/-- The sum of the curve, period by period, is that of the geometric series. -/
theorem sum_decayRate_le (x : ℕ) :
    ∑ j ∈ Finset.range x, decayRate ^ (j / 259200) ≤ 259200 / (1 - decayRate) := by
  have hsum : ∑ j ∈ Finset.range x, decayRate ^ (j / 259200) =
      259200 * (1 - decayRate ^ (x / 259200)) / (1 - decayRate) +
        (x % 259200 : ℕ) * decayRate ^ (x / 259200) := by
    induction x with
    | zero => simp
    | succ x ih =>
      rw [Finset.sum_range_succ, ih]
      obtain ⟨hdiv, hmod⟩ | ⟨hdiv, hmod, hlast⟩ : (x + 1) / 259200 = x / 259200 ∧
          (x + 1) % 259200 = x % 259200 + 1 ∨ (x + 1) / 259200 = x / 259200 + 1 ∧
          (x + 1) % 259200 = 0 ∧ x % 259200 = 259199 := by omega
      · rw [hdiv, hmod]
        push_cast
        ring
      · rw [hdiv, hmod, hlast, pow_succ, decayRate]
        push_cast
        ring
  have hrest : ((x % 259200 : ℕ) : ℚ) ≤ 259200 := by exact_mod_cast (Nat.mod_lt x (by decide)).le
  obtain ⟨hnonneg, -⟩ := decayRate_pow_bounds (x / 259200)
  have hmul := mul_le_mul_of_nonneg_right hrest hnonneg
  have hone : (1 : ℚ) - decayRate = 19 / 1000 := by norm_num [decayRate]
  rw [hsum, hone]
  linarith

theorem subsidy_nonneg (nHeight : ℤ) : 0 ≤ subsidy nHeight := by
  rw [subsidy]
  split_ifs
  · exact le_rfl
  · decide
  · decide
  · exact Int.natCast_nonneg _

theorem sum_subsidy_lt {n : ℕ} (hn : n ≤ 2 ^ 31) :
    ∑ i ∈ Finset.range n, subsidy i < 210000000 * 10 ^ 8 := by
  -- 10000 heights more do not lower the sum
  have hmore : ∑ i ∈ Finset.range n, subsidy i ≤ ∑ i ∈ Finset.range (10000 + n), subsidy i :=
    Finset.sum_le_sum_of_subset_of_nonneg (Finset.range_mono (Nat.le_add_left _ _))
      fun i _ _ ↦ subsidy_nonneg i
  have hearly : ∑ i ∈ Finset.range 10000, subsidy i ≤ 10000 * (100 * 10 ^ 8) := by
    refine (Finset.sum_le_card_nsmul _ _ (100 * 10 ^ 8) fun i hi ↦ ?_).trans (by simp)
    have hi : (i : ℤ) < 10000 := by exact_mod_cast Finset.mem_range.1 hi
    rw [subsidy, if_pos hi]
    split_ifs <;> decide
  have hlate : ((∑ j ∈ Finset.range n, subsidy (10000 + j : ℕ) : ℤ) : ℚ) ≤
      ∑ j ∈ Finset.range n, (15 * 10 ^ 8 * decayRate ^ (j / 259200) + 1) := by
    rw [Int.cast_sum]
    refine Finset.sum_le_sum fun j hj ↦ ?_
    have hj : j < 2 ^ 31 := (Finset.mem_range.1 hj).trans_le hn
    have hperiod : ((((10000 + j : ℕ) : ℤ) - 10000) / 259200).toNat = j / 259200 := by omega
    rw [subsidy, if_neg (by omega), if_neg (by omega), hperiod]
    have hnear := (abs_le.1 (subsidyOf_near (p := j / 259200) (by omega))).2
    push_cast at hnear ⊢
    linarith
  have hcurve := sum_decayRate_le n
  have hn : (n : ℚ) ≤ 2 ^ 31 := by exact_mod_cast hn
  have hone : (259200 : ℚ) / (1 - decayRate) = 259200000 / 19 := by norm_num [decayRate]
  rw [Finset.sum_add_distrib, ← Finset.mul_sum, Finset.sum_const, Finset.card_range, nsmul_one] at hlate
  rw [hone] at hcurve
  have hlate : ((∑ j ∈ Finset.range n, subsidy (10000 + j : ℕ) : ℤ) : ℚ) ≤ 205 * 10 ^ 14 := by linarith
  have hlate : ∑ j ∈ Finset.range n, subsidy (10000 + j : ℕ) ≤ 205 * 10 ^ 14 := by exact_mod_cast hlate
  rw [Finset.sum_range_add] at hmore
  linarith

/-- **The emission curve.** In all heights of an `int` from 10000 on the subsidy does not increase and is
within one base unit of the curve. The computation does not leave 128 bits, nor the result 63. All subsidies
together are below 210 million coins, so with such a limit no subsidy is clamped while the supply is not above
what was due. -/
theorem emission_curve : (∀ nHeight nHeight' : ℤ, 10000 ≤ nHeight → nHeight ≤ nHeight' → nHeight' < 2 ^ 31 →
      subsidy nHeight' ≤ subsidy nHeight) ∧
    (∀ nHeight : ℤ, 10000 ≤ nHeight → nHeight < 2 ^ 31 →
      |(subsidy nHeight : ℚ) - 15 * 10 ^ 8 * decayRate ^ ((nHeight - 10000) / 259200).toNat| ≤ 1) ∧
    (∀ period < 2 ^ 32, fixedMul128 (15 * 10 ^ 8) (decayLoop128 32 period fixedScale (981 * 10 ^ 15)) =
      fixedMul (15 * 10 ^ 8) (decayFactor period) ∧ fixedMul (15 * 10 ^ 8) (decayFactor period) < 2 ^ 63) ∧
    (∀ n ≤ 2 ^ 31, ∑ i ∈ Finset.range n, subsidy i < 210000000 * 10 ^ 8) ∧
    ∀ (consensus : Params) (n : ℕ) (nMoneySupply : CAmount), n < 2 ^ 31 →
      210000000 * 10 ^ 8 ≤ consensus.nMaxMoneyOut → nMoneySupply ≤ ∑ i ∈ Finset.range n, subsidy i →
        consensus.getBlockValue nMoneySupply n = subsidy n := by
  have hlate {nHeight : ℤ} (hge : 10000 ≤ nHeight) : subsidy nHeight =
      fixedMul (15 * 10 ^ 8) (decayFactor ((nHeight - 10000) / 259200).toNat) := by
    rw [subsidy, if_neg (by omega), if_neg (by omega)]
  refine ⟨fun nHeight nHeight' hge hle hlt ↦ ?_, fun nHeight hge hlt ↦ ?_, fun period hp ↦ ?_,
    fun n ↦ sum_subsidy_lt, fun consensus n nMoneySupply hn hmax hsupply ↦ ?_⟩
  · rw [hlate hge, hlate (hge.trans hle)]
    exact Int.ofNat_le.2 (subsidyOf_antitone (by omega) (by omega))
  · rw [hlate hge]
    exact subsidyOf_near (by omega)
  · have hfactor := (decayFactor_near hp).1
    have hle := fixedMul_le (by decide : 15 * 10 ^ 8 ≤ fixedScale) hfactor
    rw [decayLoop128_eq le_rfl (by decide)]
    exact ⟨fixedMul128_eq (by decide) hfactor, hle.trans_lt (by decide)⟩
  · refine consensus.getBlockValue_eq_subsidy ?_ (subsidy_nonneg n)
    have hsum := sum_subsidy_lt (n := n + 1) hn
    rw [Finset.sum_range_succ] at hsum
    linarith

end KristaTech.Params
