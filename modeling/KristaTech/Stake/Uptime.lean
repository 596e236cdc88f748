import KristaTech.Masternode.History
import KristaTech.Stake.Weight

/-!
# The active time of a masternode

The bonus of a masternode grows with its active time, which `CalculateMPAWeight` counts from the oldest
height still recorded for the key, or from the height of the collateral's coin if that is older. Neither
knows of the times in which the masternode was away. Its time counts from its return only if the trimming
has dropped every height before that and the coin is not older either (`masternodeLifetime_le_iff`).
-/

namespace KristaTech

open Masternode

variable {P : PingChecks} {E : ValidationEnv} {K : StakeParams} {V : StakeView} {k : CPubKey} {hs : List ℤ}
  {prevout : COutPoint} {nHeight r : ℤ}

theorem Masternode.Heights.le_first_iff {S : Heights} (hr : r ≤ nHeight) :
    r ≤ S.first.getD nHeight ↔ ∀ x ∈ S, r ≤ x := by
  have hsorted : S.toList.Pairwise (· < ·) :=
    Std.ExtTreeSet.ordered_toList.imp fun h ↦ compare_lt_iff_lt.mp h
  simp only [Heights.first, ← Std.ExtTreeSet.mem_toList]
  generalize S.toList = l at hsorted
  cases l with
  | nil => simpa using hr
  | cons x l =>
    rw [List.pairwise_cons] at hsorted
    rw [List.head?_cons, Option.getD_some, List.forall_mem_cons]
    exact ⟨fun hx ↦ ⟨hx, fun y hy ↦ hx.trans (hsorted.1 y hy).le⟩, fun h ↦ h.1⟩

/-- The masternode that a collateral is weighed by: the only key that is bound to it. -/
theorem find_masternode (p : CPubKey × COutPoint → Bool)
    (hbound : ∀ k', V.masternodes.registry.mapMasternodeCollateralOutpoints[k']? = some prevout ↔ k' = k)
    (hp : p (k, prevout) = true) :
    V.masternodes.registry.mapMasternodeCollateralOutpoints.toList.find?
      (fun kv ↦ kv.2 == prevout && p kv) = some (k, prevout) := by
  have hmem : (k, prevout) ∈ V.masternodes.registry.mapMasternodeCollateralOutpoints.toList :=
    Std.ExtTreeMap.mem_toList_iff_getElem?_eq_some.2 ((hbound k).2 rfl)
  obtain ⟨kv, hkv⟩ : ∃ kv, V.masternodes.registry.mapMasternodeCollateralOutpoints.toList.find?
      (fun kv ↦ kv.2 == prevout && p kv) = some kv :=
    Option.isSome_iff_exists.1 (List.find?_isSome.2 ⟨_, hmem, by simp [hp]⟩)
  have hout : kv.2 = prevout := by
    have := List.find?_some hkv
    simp only [Bool.and_eq_true, beq_iff_eq] at this
    exact this.1
  have hkey := Std.ExtTreeMap.mem_toList_iff_getElem?_eq_some.1 (List.mem_of_find?_eq_some hkv)
  rw [hout, hbound] at hkey
  rw [hkv, ← hkey, ← hout]

section Lifetime

variable (hhistory : RegisteredAt P k hs V.masternodes)
  (hbound : ∀ k', V.masternodes.registry.mapMasternodeCollateralOutpoints[k']? = some prevout ↔ k' = k)
  (hactive : V.masternodes.registry.isMasternodeActiveAtHeight k (nHeight - 1) = true)
  (hauth : isValidMasternodeCollateralAndAuth E.toPingChecks V.pcoinsTip V.masternodes.delegations k prevout
    (nHeight - 1) none = true)
include hhistory hbound hactive hauth

theorem masternodeLifetime_eq : ∃ coin, V.pcoinsTip prevout = some coin ∧
    masternodeLifetime E K V prevout nHeight =
      some (max 0 (nHeight - if 0 < coin.nHeight then min ((recordedOf hs).first.getD nHeight) coin.nHeight
        else (recordedOf hs).first.getD nHeight)) := by
  have hcoin := hauth
  simp only [isValidMasternodeCollateralAndAuth, Bool.and_eq_true] at hcoin
  have hfirst : (V.masternodes.registry.mapMasternodeActiveHeights[k]?.bind Heights.first).getD nHeight =
      (recordedOf hs).first.getD nHeight := by
    rw [← hhistory.recorded.1, Registry.recorded]
    cases V.masternodes.registry.mapMasternodeActiveHeights[k]? <;> rfl
  simp only [masternodeLifetime, Bool.and_assoc]
  rw [find_masternode _ hbound (by simp only [hcoin.1.1, hactive, hauth, Bool.and_self])]
  cases hc : V.pcoinsTip prevout with
  | none => simp [hc] at hcoin
  | some coin =>
    simp only [hc, Bool.and_eq_true, Bool.not_eq_true'] at hcoin
    simp only [hfirst, hcoin.2.1.1, Bool.not_false, true_and, Option.some.injEq, exists_eq_left']

/-- **The active time counts from a return.** For a masternode with any history that is weighed at a height,
the time is at most that since `r` exactly if no height before `r` is left of its history and its coin is
not from before `r`. -/
theorem masternodeLifetime_le_iff (hr : r ≤ nHeight) :
    (∃ tActive, masternodeLifetime E K V prevout nHeight = some tActive ∧ tActive ≤ nHeight - r) ↔
      (∀ x ∈ recordedOf hs, r ≤ x) ∧
        ∀ coin, V.pcoinsTip prevout = some coin → 0 < coin.nHeight → r ≤ coin.nHeight := by
  obtain ⟨coin, hcoin, heq⟩ := masternodeLifetime_eq (K := K) hhistory hbound hactive hauth
  have hcount (first : ℤ) : max 0 (nHeight - first) ≤ nHeight - r ↔ r ≤ first := by omega
  simp only [heq, hcoin, Option.some.injEq, exists_eq_left', forall_eq', hcount, ← Heights.le_first_iff hr]
  split_ifs with hpos <;> simp [hpos]

end Lifetime

/-- A node that knows a masternode which was away from height 10 to height 3000. -/
def returnedView (coinHeight : ℤ) : StakeView :=
  { stakerStakeView .OP_NOP 0 with
    pcoinsTip := exampleViewAt coinHeight
    masternodes := exampleHistory [3000, 10] }

theorem active_returnedView (coinHeight : ℤ) :
    (returnedView coinHeight).masternodes.registry.isMasternodeActiveAtHeight exampleKey (3001 - 1) = true :=
  isMasternodeActiveAtHeight_of_mem (registeredAt_exampleHistory _) List.mem_cons_self (by decide) (by decide)
    (by decide)

theorem masternodeLifetime_le_returned :
    ¬ ∃ tActive, masternodeLifetime default stakerParams (returnedView 3000) (exampleCollateral 1) 3001 =
      some tActive ∧ tActive ≤ 3001 - 3000 := by
  rw [masternodeLifetime_le_iff (registeredAt_exampleHistory [3000, 10]) (bound_exampleHistory 3000 [10])
    (active_returnedView 3000) (isValidMasternodeCollateralAndAuth_example rfl 3000 _ _) (by decide)]
  exact fun h ↦ absurd (h.1 10 (mem_recordedOf_of_recent (by decide) (by decide))) (by decide)

/-- **A masternode that was away keeps its bonus.** After 2990 blocks without activity and one block with it,
the active time counts from the coin. -/
theorem masternodeLifetime_kept :
    RegisteredAt exampleEnv.toPingChecks exampleKey [3000, 10] (returnedView 5).masternodes ∧
      (∀ x ∈ ([3000, 10] : List ℤ), x < 3000 → x + 2880 < 3000) ∧
      masternodeLifetime default stakerParams (returnedView 5) (exampleCollateral 1) 3001 = some 2996 := by
  refine ⟨registeredAt_exampleHistory _, by decide, ?_⟩
  obtain ⟨coin, hcoin, heq⟩ := masternodeLifetime_eq (E := default) (K := stakerParams)
    (registeredAt_exampleHistory [3000, 10]) (bound_exampleHistory 3000 [10])
    (active_returnedView 5) (isValidMasternodeCollateralAndAuth_example rfl 5 _ _)
  obtain rfl := Option.some.inj hcoin
  exact heq.trans (by decide)

end KristaTech
