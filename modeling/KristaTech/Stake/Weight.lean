import Mathlib.Algebra.Order.BigOperators.Group.List
import KristaTech.Library.Shares
import KristaTech.Stake.Locks

/-!
# The weight of divided coins

`CalculateMPAWeight` weighs a coin in one of four classes: as the collateral of a masternode, by its
lock, by what its owner has burnt, or by its amount alone. The weight is the amount and a bonus
(`calculateMPAWeight_eq_weight`). For a masternode and for a lock the bonus is a share of the amount,
rounded down, so that parts never weigh more than the whole. What was burnt counts in full for every
coin of the owner: divided coins weigh more by it, once for each further part
(`sum_calculateMPAWeight_le_iff`).
-/

namespace KristaTech

open Masternode List

/-! ### The classes -/

/-- What a coin is weighed as (`nWeightType`), with what the weight depends on besides the amount. -/
inductive StakeClass
  /-- `MPA_WEIGHT_POM`: the collateral of a masternode that has been active for so many blocks. -/
  | pom (tActive : ℤ)
  /-- `MPA_WEIGHT_POL`: locked for so many blocks. -/
  | pol (L : ℤ)
  /-- `MPA_WEIGHT_POB`: the owner has an active burn weight. -/
  | pob (nBurnWeight : CAmount)
  /-- `MPA_WEIGHT_POS`. -/
  | pos
  deriving DecidableEq, Repr

namespace StakeClass

def bonus (K : StakeParams) : StakeClass → CAmount → CAmount
  | pom tActive, nAmount =>
    if K.nMasternodeUptimeLimit ≤ 0 ∨ tActive ≤ 0 then 0
    else (nAmount * min tActive K.nMasternodeUptimeLimit).tdiv K.nMasternodeUptimeLimit
  | pol L, nAmount => (nAmount * 2 * min L 50000).tdiv 50000
  | pob nBurnWeight, _ => nBurnWeight
  | pos, _ => 0

/-- Locks and burns count if there is something left of them. -/
def Valid : StakeClass → Prop
  | pol L => 0 < L
  | pob nBurnWeight => 0 < nBurnWeight
  | _ => True

end StakeClass

section Classes

variable (E : ValidationEnv) (K : StakeParams) (V : StakeView)

/-- `t_active` of the masternode whose collateral the coin is. -/
def masternodeLifetime (prevout : COutPoint) (nHeight : ℤ) : Option ℤ :=
  let registry := V.masternodes.registry
  let found := registry.mapMasternodeCollateralOutpoints.toList.find? fun kv ↦
    kv.2 == prevout && kv.1.isValid && registry.isMasternodeActiveAtHeight kv.1 (nHeight - 1) &&
      isValidMasternodeCollateralAndAuth E.toPingChecks V.pcoinsTip V.masternodes.delegations kv.1 prevout
        (nHeight - 1) none
  match found with
  | some kv =>
    let nFirstHeight := ((registry.mapMasternodeActiveHeights[kv.1]?).bind Heights.first).getD nHeight
    let nFirstHeight := match V.pcoinsTip prevout with
      | some coin => if !coin.isSpent ∧ 0 < coin.nHeight then min nFirstHeight coin.nHeight
        else nFirstHeight
      | none => nFirstHeight
    some (max 0 (nHeight - nFirstHeight))
  | none =>
    if registry.mapMasternodeCollateralOutpoints.isEmpty ∧ V.height ≤ 0 then K.activeLifetime prevout nHeight
    else none

def lockedFor (scriptPubKey : CScript) (nHeight : ℤ) : Option ℤ := do
  let lock ← extractTimelock scriptPubKey
  guard lock.fIsBlockHeight
  let blocks := if lock.fIsRelative then lock.nLockTime else lock.nLockTime - nHeight
  guard (0 < blocks)
  return blocks

def ownersBurnWeight (scriptPubKey : CScript) (nHeight : ℤ) : Option CAmount := do
  let dest ← (E.addresses scriptPubKey).head?
  guard (0 < getActiveBurnWeight K V dest nHeight)
  return getActiveBurnWeight K V dest nHeight

/-- The class of a script's coins that are no collaterals. -/
def scriptClass (scriptPubKey : CScript) (nHeight : ℤ) : StakeClass :=
  (((lockedFor scriptPubKey nHeight).map .pol).or
    ((ownersBurnWeight E K V scriptPubKey nHeight).map .pob)).getD .pos

/-- The class in which `CalculateMPAWeight` weighs a coin for the block of a height. -/
def stakeClass (prevout : COutPoint) (nHeight : ℤ) : StakeClass :=
  if !E.consensus.networkUpgradeActive nHeight .UPGRADE_POMBL then .pos
  else
    (((masternodeLifetime E K V prevout nHeight).map .pom).or <|
      (getTxOut V prevout).map fun txout ↦ scriptClass E K V txout.scriptPubKey nHeight).getD .pos

variable {E K V} {prevout : COutPoint} {nAmount : CAmount} {nHeight : ℤ}

theorem masternodeWeight_eq (tActive : ℤ) :
    masternodeWeight K nAmount tActive = nAmount + (StakeClass.pom tActive).bonus K nAmount := by
  simp only [masternodeWeight, StakeClass.bonus]
  split_ifs
  · exact (add_zero _).symm
  · rfl

theorem collateralWeight_eq : collateralWeight E K V prevout nAmount nHeight =
      (masternodeLifetime E K V prevout nHeight).map fun tActive ↦
        nAmount + (StakeClass.pom tActive).bonus K nAmount := by
  simp only [← masternodeWeight_eq, collateralWeight, masternodeLifetime]
  generalize V.masternodes.registry.mapMasternodeCollateralOutpoints.toList.find? _ = found
  cases found with
  | some kv => rfl
  | none =>
    split_ifs
    · rfl
    · rfl

theorem scriptWeight_eq (scriptPubKey : CScript) :
    ((lockWeight scriptPubKey nAmount nHeight).or (burnWeight E K V scriptPubKey nAmount nHeight)).getD
        nAmount = nAmount + (scriptClass E K V scriptPubKey nHeight).bonus K nAmount := by
  have hlock : lockWeight scriptPubKey nAmount nHeight =
      (lockedFor scriptPubKey nHeight).map fun L ↦ nAmount + (StakeClass.pol L).bonus K nAmount := by
    simp [lockWeight, lockedFor, Option.map_bind, StakeClass.bonus]
  have hburn : burnWeight E K V scriptPubKey nAmount nHeight =
      (ownersBurnWeight E K V scriptPubKey nHeight).map fun nBurnWeight ↦
        nAmount + (StakeClass.pob nBurnWeight).bonus K nAmount := by
    simp [burnWeight, ownersBurnWeight, Option.map_bind, StakeClass.bonus]
  rw [hlock, hburn, scriptClass]
  cases lockedFor scriptPubKey nHeight with
  | some L => rfl
  | none =>
    cases ownersBurnWeight E K V scriptPubKey nHeight with
    | some nBurnWeight => rfl
    | none => exact (add_zero nAmount).symm

theorem calculateMPAWeight_eq_weight (pindexPrev : CBlockIndex) :
    calculateMPAWeight E K V prevout nAmount pindexPrev =
      nAmount + (stakeClass E K V prevout (pindexPrev.nHeight + 1)).bonus K nAmount := by
  simp only [calculateMPAWeight, stakeClass, collateralWeight_eq]
  split_ifs
  · exact (add_zero nAmount).symm
  · cases masternodeLifetime E K V prevout (pindexPrev.nHeight + 1) with
    | some tActive => rfl
    | none =>
      cases getTxOut V prevout with
      | some txout => exact scriptWeight_eq txout.scriptPubKey
      | none => exact (add_zero nAmount).symm

theorem stakeClass_of_lifetime_eq_none {txout : CTxOut} (htxout : getTxOut V prevout = some txout)
    (hlifetime : masternodeLifetime E K V prevout nHeight = none) :
    stakeClass E K V prevout nHeight =
      if !E.consensus.networkUpgradeActive nHeight .UPGRADE_POMBL then .pos
      else scriptClass E K V txout.scriptPubKey nHeight := by
  rw [stakeClass, htxout, hlifetime]
  rfl

theorem stakeClass_congr {prevout' : COutPoint} {txout txout' : CTxOut}
    (htxout : getTxOut V prevout = some txout) (htxout' : getTxOut V prevout' = some txout')
    (hscript : txout'.scriptPubKey = txout.scriptPubKey)
    (hlifetime : masternodeLifetime E K V prevout' nHeight = masternodeLifetime E K V prevout nHeight) :
    stakeClass E K V prevout' nHeight = stakeClass E K V prevout nHeight := by
  simp only [stakeClass, htxout, htxout', hlifetime, Option.map_some, hscript]

variable (E K V nHeight) in
theorem scriptClass_cases (scriptPubKey : CScript) :
    (∃ L, 0 < L ∧ scriptClass E K V scriptPubKey nHeight = .pol L) ∨
      (∃ nBurnWeight, 0 < nBurnWeight ∧ scriptClass E K V scriptPubKey nHeight = .pob nBurnWeight) ∨
      scriptClass E K V scriptPubKey nHeight = .pos := by
  rw [scriptClass]
  cases hlock : lockedFor scriptPubKey nHeight with
  | some L =>
    simp only [lockedFor, Option.bind_eq_bind, Option.bind_eq_some_iff, guard_eq_some_iff] at hlock
    obtain ⟨lock, -, -, -, -, hpos, hL⟩ := hlock
    exact Or.inl ⟨L, Option.some.inj hL ▸ hpos, rfl⟩
  | none =>
    cases hburn : ownersBurnWeight E K V scriptPubKey nHeight with
    | some nBurnWeight =>
      simp only [ownersBurnWeight, Option.bind_eq_bind, Option.bind_eq_some_iff, guard_eq_some_iff] at hburn
      obtain ⟨dest, -, -, hpos, hw⟩ := hburn
      exact Or.inr (Or.inl ⟨nBurnWeight, Option.some.inj hw ▸ hpos, rfl⟩)
    | none => exact Or.inr (Or.inr rfl)

theorem stakeClass_valid : (stakeClass E K V prevout nHeight).Valid := by
  rw [stakeClass]
  split_ifs
  · trivial
  · cases masternodeLifetime E K V prevout nHeight with
    | some tActive => trivial
    | none =>
      cases getTxOut V prevout with
      | none => trivial
      | some txout =>
        show (scriptClass E K V txout.scriptPubKey nHeight).Valid
        obtain ⟨L, hpos, hL⟩ | ⟨nBurnWeight, hpos, hw⟩ | hpos :=
          scriptClass_cases E K V nHeight txout.scriptPubKey
        · rw [hL]
          exact hpos
        · rw [hw]
          exact hpos
        · rw [hpos]
          trivial

end Classes

/-! ### Bonuses -/

namespace StakeClass

variable {K : StakeParams} {c : StakeClass} {nAmount : CAmount} {amounts : List CAmount}

theorem exists_share (K : StakeParams) (hvalid : c.Valid) (hburn : ∀ nBurnWeight, c ≠ pob nBurnWeight) :
    ∃ x y : ℤ, 0 ≤ x ∧ 0 < y ∧ x ≤ 2 * y ∧
      ∀ nAmount : CAmount, 0 ≤ nAmount → c.bonus K nAmount = nAmount * x / y := by
  cases c with
  | pom tActive =>
    by_cases hnone : K.nMasternodeUptimeLimit ≤ 0 ∨ tActive ≤ 0
    · refine ⟨0, 1, le_rfl, one_pos, by decide, fun nAmount _ ↦ ?_⟩
      rw [bonus, if_pos hnone, mul_zero, Int.zero_ediv]
    · obtain ⟨hlimit, hactive⟩ := not_or.1 hnone
      refine ⟨min tActive K.nMasternodeUptimeLimit, K.nMasternodeUptimeLimit, by omega, by omega, by omega,
        fun nAmount hnonneg ↦ ?_⟩
      rw [bonus, if_neg hnone]
      exact Int.tdiv_eq_ediv_of_nonneg (mul_nonneg hnonneg (by omega))
  | pol L =>
    have hpos : 0 < L := hvalid
    refine ⟨2 * min L 50000, 50000, by omega, by decide, by omega, fun nAmount hnonneg ↦ ?_⟩
    rw [bonus, ← mul_assoc]
    exact Int.tdiv_eq_ediv_of_nonneg (mul_nonneg (mul_nonneg hnonneg (by decide)) (by omega))
  | pob nBurnWeight => exact absurd rfl (hburn nBurnWeight)
  | pos =>
    refine ⟨0, 1, le_rfl, one_pos, by decide, fun nAmount _ ↦ ?_⟩
    rw [bonus, mul_zero, Int.zero_ediv]

theorem bonus_bounds (hvalid : c.Valid) (hburn : ∀ nBurnWeight, c ≠ pob nBurnWeight) (h : 0 ≤ nAmount) :
    0 ≤ c.bonus K nAmount ∧ c.bonus K nAmount ≤ 2 * nAmount := by
  obtain ⟨x, y, hx, hy, hxy, hbonus⟩ := exists_share K hvalid hburn
  rw [hbonus nAmount h]
  refine ⟨Int.ediv_nonneg (mul_nonneg h hx) hy.le, Int.ediv_le_of_le_mul hy ?_⟩
  calc nAmount * x ≤ nAmount * (2 * y) := mul_le_mul_of_nonneg_left hxy h
    _ = 2 * nAmount * y := by ring

theorem sum_bonus_le (hvalid : c.Valid) (hburn : ∀ nBurnWeight, c ≠ pob nBurnWeight)
    (h : ∀ v ∈ amounts, 0 ≤ v) : (amounts.map (c.bonus K)).sum ≤ c.bonus K amounts.sum := by
  obtain ⟨x, y, -, hy, -, hbonus⟩ := exists_share K hvalid hburn
  rw [map_congr_left fun v hv ↦ hbonus v (h v hv), hbonus _ (sum_nonneg h)]
  exact sum_mul_ediv_le hy x amounts

theorem sum_bonus_pob (nBurnWeight : CAmount) :
    (amounts.map ((pob nBurnWeight).bonus K)).sum = amounts.length * nBurnWeight := by
  show (amounts.map fun _ ↦ nBurnWeight).sum = _
  rw [map_const', sum_replicate_int]

end StakeClass

/-! ### Divided coins -/

/-- A coin and the parts it could be divided into, for the block of a height: coins of the same script
that are together worth the same. They are of the same age also as collaterals, or no collaterals. -/
structure Division (E : ValidationEnv) (K : StakeParams) (V : StakeView) (nHeight : ℤ) where
  whole : COutPoint
  nAmount : CAmount
  scriptPubKey : CScript
  parts : List (COutPoint × CAmount)
  nonneg : ∀ p ∈ parts, 0 ≤ p.2
  sum_eq : (parts.map Prod.snd).sum = nAmount
  getTxOut_whole : getTxOut V whole = some ⟨nAmount, scriptPubKey⟩
  getTxOut_part : ∀ p ∈ parts, getTxOut V p.1 = some ⟨p.2, scriptPubKey⟩
  age : (∀ p ∈ parts, masternodeLifetime E K V p.1 nHeight = masternodeLifetime E K V whole nHeight) ∨
    ∀ p ∈ parts, masternodeLifetime E K V p.1 nHeight = none

namespace Division

variable {E : ValidationEnv} {K : StakeParams} {V : StakeView} {nHeight : ℤ}

/-- The parts do not weigh more: what was burnt is not counted again. If a collateral is divided into
parts that are no collaterals, then its bonus has to make up for theirs. -/
def KeepsWeight (D : Division E K V nHeight) : Prop :=
  match stakeClass E K V D.whole nHeight with
  | .pob _ => D.parts.length ≤ 1
  | .pom tActive =>
    (∀ p ∈ D.parts, stakeClass E K V p.1 nHeight = .pom tActive) ∨
      match scriptClass E K V D.scriptPubKey nHeight with
      | .pob nBurnWeight => D.parts.length * nBurnWeight ≤ (StakeClass.pom tActive).bonus K D.nAmount
      | .pol L => (D.parts.map fun p ↦ (StakeClass.pol L).bonus K p.2).sum ≤
          (StakeClass.pom tActive).bonus K D.nAmount
      | _ => True
  | _ => True

variable (D : Division E K V nHeight)

theorem nAmount_nonneg : 0 ≤ D.nAmount := by
  rw [← D.sum_eq]
  exact sum_nonneg (forall_mem_map.2 D.nonneg)

theorem classes : (∀ p ∈ D.parts, stakeClass E K V p.1 nHeight = stakeClass E K V D.whole nHeight) ∨
      (∃ tActive, stakeClass E K V D.whole nHeight = .pom tActive) ∧
        ∀ p ∈ D.parts, stakeClass E K V p.1 nHeight = scriptClass E K V D.scriptPubKey nHeight := by
  have hsame (p) (hp : p ∈ D.parts) (h : masternodeLifetime E K V p.1 nHeight =
      masternodeLifetime E K V D.whole nHeight) :
      stakeClass E K V p.1 nHeight = stakeClass E K V D.whole nHeight :=
    stakeClass_congr D.getTxOut_whole (D.getTxOut_part p hp) rfl h
  rcases D.age with hage | hnone
  · exact Or.inl fun p hp ↦ hsame p hp (hage p hp)
  · cases hwhole : masternodeLifetime E K V D.whole nHeight with
    | none => exact Or.inl fun p hp ↦ hsame p hp ((hnone p hp).trans hwhole.symm)
    | some tActive =>
      have hpart (p) (hp : p ∈ D.parts) :=
        stakeClass_of_lifetime_eq_none (D.getTxOut_part p hp) (hnone p hp)
      cases hupgraded : E.consensus.networkUpgradeActive nHeight .UPGRADE_POMBL with
      | false =>
        refine Or.inl fun p hp ↦ ?_
        rw [hpart p hp, stakeClass, hupgraded]
        rfl
      | true =>
        refine Or.inr ⟨⟨tActive, ?_⟩, fun p hp ↦ ?_⟩
        · rw [stakeClass, hupgraded, hwhole]
          rfl
        · rw [hpart p hp, hupgraded]
          rfl

theorem sum_calculateMPAWeight_le_iff_bonus {pindexPrev : CBlockIndex}
    (D : Division E K V (pindexPrev.nHeight + 1)) :
    (D.parts.map fun p ↦ calculateMPAWeight E K V p.1 p.2 pindexPrev).sum ≤
        calculateMPAWeight E K V D.whole D.nAmount pindexPrev ↔
      (D.parts.map fun p ↦ (stakeClass E K V p.1 (pindexPrev.nHeight + 1)).bonus K p.2).sum ≤
        (stakeClass E K V D.whole (pindexPrev.nHeight + 1)).bonus K D.nAmount := by
  simp only [calculateMPAWeight_eq_weight]
  rw [sum_map_add, D.sum_eq]
  exact add_le_add_iff_left _

theorem sum_bonus_of_class {c : StakeClass} (h : ∀ p ∈ D.parts, stakeClass E K V p.1 nHeight = c) :
    (D.parts.map fun p ↦ (stakeClass E K V p.1 nHeight).bonus K p.2).sum =
      ((D.parts.map Prod.snd).map (c.bonus K)).sum := by
  rw [map_map]
  exact congrArg List.sum (map_congr_left fun p hp ↦ by rw [h p hp]; rfl)

/-- In one class only what was burnt makes the parts heavier. -/
theorem sum_bonus_le_iff_of_same
    (hsame : ∀ p ∈ D.parts, stakeClass E K V p.1 nHeight = stakeClass E K V D.whole nHeight) :
    ((D.parts.map Prod.snd).map ((stakeClass E K V D.whole nHeight).bonus K)).sum ≤
        (stakeClass E K V D.whole nHeight).bonus K D.nAmount ↔ D.KeepsWeight := by
  have hvalid : (stakeClass E K V D.whole nHeight).Valid := stakeClass_valid
  rw [KeepsWeight]
  generalize stakeClass E K V D.whole nHeight = c at hsame hvalid
  have hshare (hburn : ∀ nBurnWeight, c ≠ .pob nBurnWeight) :
      ((D.parts.map Prod.snd).map (c.bonus K)).sum ≤ c.bonus K D.nAmount := by
    rw [← D.sum_eq]
    exact StakeClass.sum_bonus_le hvalid hburn (forall_mem_map.2 D.nonneg)
  cases c with
  | pob nBurnWeight =>
    have hpos : 0 < nBurnWeight := hvalid
    rw [StakeClass.sum_bonus_pob, length_map]
    show (D.parts.length : ℤ) * nBurnWeight ≤ nBurnWeight ↔ D.parts.length ≤ 1
    rw [mul_le_iff_le_one_left hpos, Nat.cast_le_one]
  | pom tActive => exact iff_of_true (hshare nofun) (Or.inl hsame)
  | pol L => exact iff_of_true (hshare nofun) trivial
  | pos => exact iff_of_true (hshare nofun) trivial

theorem sum_bonus_le_iff_of_collateral {tActive : ℤ}
    (hwhole : stakeClass E K V D.whole nHeight = .pom tActive)
    (hparts : ∀ p ∈ D.parts, stakeClass E K V p.1 nHeight = scriptClass E K V D.scriptPubKey nHeight) :
    ((D.parts.map Prod.snd).map ((scriptClass E K V D.scriptPubKey nHeight).bonus K)).sum ≤
        (StakeClass.pom tActive).bonus K D.nAmount ↔ D.KeepsWeight := by
  have hbonus : 0 ≤ (StakeClass.pom tActive).bonus K D.nAmount :=
    (StakeClass.bonus_bounds (c := .pom tActive) trivial nofun D.nAmount_nonneg).1
  rw [KeepsWeight, hwhole]
  -- the parts are collaterals only if there are none
  have hnone (hne : scriptClass E K V D.scriptPubKey nHeight ≠ .pom tActive)
      (h : ∀ p ∈ D.parts, stakeClass E K V p.1 nHeight = .pom tActive) : D.parts = [] :=
    eq_nil_iff_forall_not_mem.2 fun p hp ↦ hne ((hparts p hp).symm.trans (h p hp))
  obtain ⟨L, -, hclass⟩ | ⟨nBurnWeight, -, hclass⟩ | hclass := scriptClass_cases E K V nHeight D.scriptPubKey
  · rw [hclass] at hnone ⊢
    rw [map_map]
    refine (or_iff_right_of_imp fun h ↦ ?_).symm
    rw [hnone nofun h]
    exact hbonus
  · rw [hclass] at hnone ⊢
    rw [StakeClass.sum_bonus_pob, length_map]
    refine (or_iff_right_of_imp fun h ↦ ?_).symm
    rw [hnone nofun h, length_nil, Nat.cast_zero, zero_mul]
    exact hbonus
  · rw [hclass]
    refine iff_of_true ?_ (Or.inr trivial)
    have hzero : ((D.parts.map Prod.snd).map (StakeClass.pos.bonus K)).sum = 0 :=
      sum_eq_zero fun v hv ↦ by
        obtain ⟨_, -, rfl⟩ := mem_map.1 hv
        rfl
    rw [hzero]
    exact hbonus

end Division

/-- **Dividing coins and their weight.** Parts weigh no more than the whole, and collaterals and locked
coins weigh between once and three times their amount, exactly if nothing that was burnt is counted
again. -/
theorem sum_calculateMPAWeight_le_iff {E : ValidationEnv} {K : StakeParams} {V : StakeView}
    {pindexPrev : CBlockIndex} (D : Division E K V (pindexPrev.nHeight + 1)) :
    ((D.parts.map fun p ↦ calculateMPAWeight E K V p.1 p.2 pindexPrev).sum ≤
        calculateMPAWeight E K V D.whole D.nAmount pindexPrev ∧
      ∀ (prevout : COutPoint) (nAmount : CAmount), 0 ≤ nAmount →
        (∃ n, stakeClass E K V prevout (pindexPrev.nHeight + 1) = .pom n ∨
          stakeClass E K V prevout (pindexPrev.nHeight + 1) = .pol n) →
        nAmount ≤ calculateMPAWeight E K V prevout nAmount pindexPrev ∧
          calculateMPAWeight E K V prevout nAmount pindexPrev ≤ 3 * nAmount) ↔
    D.KeepsWeight := by
  have hbounds (prevout : COutPoint) (nAmount : CAmount) (hnonneg : 0 ≤ nAmount)
      (hclass : ∃ n, stakeClass E K V prevout (pindexPrev.nHeight + 1) = .pom n ∨
        stakeClass E K V prevout (pindexPrev.nHeight + 1) = .pol n) :
      nAmount ≤ calculateMPAWeight E K V prevout nAmount pindexPrev ∧
        calculateMPAWeight E K V prevout nAmount pindexPrev ≤ 3 * nAmount := by
    have hburn (nBurnWeight) : stakeClass E K V prevout (pindexPrev.nHeight + 1) ≠ .pob nBurnWeight := by
      obtain ⟨n, hclass | hclass⟩ := hclass
      · rw [hclass]
        nofun
      · rw [hclass]
        nofun
    obtain ⟨hlow, hhigh⟩ := StakeClass.bonus_bounds (K := K) stakeClass_valid hburn hnonneg
    rw [calculateMPAWeight_eq_weight]
    exact ⟨le_add_of_nonneg_right hlow, by linarith⟩
  rw [and_iff_left hbounds, D.sum_calculateMPAWeight_le_iff_bonus]
  rcases D.classes with hsame | ⟨⟨tActive, hwhole⟩, hparts⟩
  · rw [D.sum_bonus_of_class hsame]
    exact D.sum_bonus_le_iff_of_same hsame
  · rw [D.sum_bonus_of_class hparts, hwhole]
    exact D.sum_bonus_le_iff_of_collateral hwhole hparts

/-! ### An owner who has burnt coins -/

section Example

def burnerOut (coins : ℤ) : CTxOut := ⟨coins * 10 ^ 8, getScriptForDestination (.keyID 7)⟩

/-- Three coins of one owner and one age, of 200, 120 and 80; the owner has burnt 100 at height
2400. -/
def burnerView : StakeView where
  mapBlockIndex _ := none
  chainActive nHeight := if nHeight = 2500 then some stakerTip else none
  height := 2500
  pcoinsTip o :=
    if o = ⟨1, 0⟩ then some ⟨false, false, burnerOut 200, 2000⟩
    else if o = ⟨2, 0⟩ then some ⟨false, false, burnerOut 120, 2000⟩
    else if o = ⟨2, 1⟩ then some ⟨false, false, burnerOut 80, 2000⟩
    else none
  masternodes := ⟨.empty, .empty, ∅⟩
  mapAddressBurns := BurnCache.addBurnToCache ∅ (.keyID 7) ⟨100 * 10 ^ 8, 2400⟩
  getTransaction _ := none

def burnerDivision : Division default stakerParams burnerView 2501 where
  whole := ⟨1, 0⟩
  nAmount := 200 * 10 ^ 8
  scriptPubKey := getScriptForDestination (.keyID 7)
  parts := [(⟨2, 0⟩, 120 * 10 ^ 8), (⟨2, 1⟩, 80 * 10 ^ 8)]
  nonneg := by decide
  sum_eq := by decide
  getTxOut_whole := by decide
  getTxOut_part := by decide
  age := Or.inl (by decide)

/-- **Divided coins that weigh more.** The burn weight counts for each of the two parts. -/
theorem calculateMPAWeight_burner :
    let weight (o : COutPoint) (nAmount : CAmount) : CAmount :=
      calculateMPAWeight default stakerParams burnerView o nAmount stakerTip
    stakeClass default stakerParams burnerView ⟨1, 0⟩ 2501 = .pob 44950000000 ∧
      weight ⟨1, 0⟩ burnerDivision.nAmount = 64950000000 ∧
      (burnerDivision.parts.map fun p ↦ weight p.1 p.2) = [56950000000, 52950000000] ∧
      ¬(burnerDivision.parts.map fun p ↦ weight p.1 p.2).sum ≤ weight ⟨1, 0⟩ burnerDivision.nAmount := by
  decide

end Example

end KristaTech
