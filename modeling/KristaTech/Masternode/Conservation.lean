import Mathlib.Algebra.Order.BigOperators.Group.List
import KristaTech.Masternode.Payments

/-!
# The payments conserve the reward

`FillBlockPayee` divides the reward of a block by percentages that are rounded down, and divides some
of the parts again. What is lost in rounding goes to somebody: the last of those who share a part gets
the rest of it, and the producer of a block gets what nobody else got.

So the outputs of a coinbase add up to the reward. A coinstake comes with the reward already in the
staker's outputs; what the others get is taken from these in equal parts, and the total stays the same
(`fillBlockPayee_conserves`). An output that is smaller than its part becomes negative, also if the
staker's outputs together are large enough.
-/

namespace KristaTech.Masternode

open Adam Llmq List
open scoped List

def totalValue (vout : List CTxOut) : CAmount := (vout.map (·.nValue)).sum

def NonNegative (vout : List CTxOut) : Prop := ∀ out ∈ vout, 0 ≤ out.nValue

instance (vout : List CTxOut) : Decidable (NonNegative vout) :=
  inferInstanceAs (Decidable (∀ _ ∈ _, _))

@[simp]
theorem totalValue_nil : totalValue [] = 0 := rfl

@[simp]
theorem totalValue_cons (out : CTxOut) (vout : List CTxOut) :
    totalValue (out :: vout) = out.nValue + totalValue vout := rfl

@[simp]
theorem totalValue_append (vout vout' : List CTxOut) :
    totalValue (vout ++ vout') = totalValue vout + totalValue vout' := by
  simp [totalValue]

variable {vout stake : List CTxOut}

@[simp]
theorem nonNegative_cons {out : CTxOut} :
    NonNegative (out :: vout) ↔ 0 ≤ out.nValue ∧ NonNegative vout := forall_mem_cons

@[simp]
theorem nonNegative_append {vout' : List CTxOut} :
    NonNegative (vout ++ vout') ↔ NonNegative vout ∧ NonNegative vout' := forall_mem_append

theorem totalValue_nonneg (h : NonNegative vout) : 0 ≤ totalValue vout := by
  refine sum_nonneg fun v hv ↦ ?_
  obtain ⟨out, hout, rfl⟩ := mem_map.1 hv
  exact h out hout

/-! ### Amounts that are divided -/

theorem totalValue_splitAmong (total : CAmount) (payees : List CScript) :
    totalValue (outputs (splitAmong total payees)) = if payees.isEmpty then 0 else total := by
  split_ifs with hempty
  · rw [isEmpty_iff.1 hempty]
    rfl
  · have hsum := sum_equalPart (mt isEmpty_iff.2 hempty) total
    rw [totalValue, outputs, splitAmong, map_map, map_map]
    exact hsum

theorem nonNegative_splitAmong {total : CAmount} (htotal : 0 ≤ total) (payees : List CScript) :
    NonNegative (outputs (splitAmong total payees)) := by
  intro out hout
  rw [outputs, splitAmong, map_map] at hout
  obtain ⟨p, -, rfl⟩ := mem_map.1 hout
  exact equalPart_nonneg htotal payees.length p.2

theorem subtractFromStake_cons (total : CAmount) (first : CTxOut) (hstake : stake ≠ []) :
    subtractFromStake total (first :: stake) =
      first :: stake.zipIdx.map fun p ↦
        { p.1 with nValue := p.1.nValue - List.equalPart total stake.length p.2 } := by
  have hpos : 0 < stake.length := length_pos_of_ne_nil hstake
  have hrest : total - total / (stake.length : ℤ) * stake.length = total % stake.length := by
    rw [Int.emod_def, mul_comm]
  unfold subtractFromStake
  simp only [length_cons, Nat.add_sub_cancel, hrest]
  rw [zipIdx_cons, zipIdx_succ, map_cons, if_pos rfl, map_map]
  refine congrArg (first :: ·) (map_congr_left fun p _ ↦ ?_)
  have hlast : p.2 + 1 = stake.length ↔ p.2 = stake.length - 1 := by omega
  simp only [Function.comp, Nat.add_eq_zero_iff, one_ne_zero, and_false, if_false, hlast,
    List.equalPart, sub_sub]

theorem totalValue_subtractFromStake (total : CAmount) (first : CTxOut) (hstake : stake ≠ []) :
    totalValue (subtractFromStake total (first :: stake)) = totalValue (first :: stake) - total := by
  have hsum := sum_equalPart hstake total
  have hvalues : (stake.zipIdx.map fun p ↦ p.1.nValue).sum = totalValue stake := by
    rw [← Function.comp_def CTxOut.nValue, ← map_map, zipIdx_map_fst]
    rfl
  rw [subtractFromStake_cons total first hstake, totalValue_cons, totalValue_cons, totalValue, map_map]
  show first.nValue + (stake.zipIdx.map fun p ↦
    p.1.nValue - List.equalPart total stake.length p.2).sum = _
  have hadd : (stake.zipIdx.map fun p ↦ p.1.nValue - List.equalPart total stake.length p.2).sum +
      (stake.zipIdx.map fun p ↦ List.equalPart total stake.length p.2).sum =
        (stake.zipIdx.map fun p ↦ p.1.nValue).sum := by
    rw [← sum_map_add]
    simp only [sub_add_cancel]
  rw [hsum, hvalues] at hadd
  rw [← hadd, add_sub_assoc, add_sub_cancel_right]

/-- Each output of the staker is at least the part that is taken from it. -/
def CoversParts (total : CAmount) (stake : List CTxOut) : Prop :=
  ∀ p ∈ stake.zipIdx, List.equalPart total stake.length p.2 ≤ p.1.nValue

instance (total : CAmount) (stake : List CTxOut) : Decidable (CoversParts total stake) :=
  inferInstanceAs (Decidable (∀ _ ∈ _, _))

theorem nonNegative_subtractFromStake (total : CAmount) (first : CTxOut) (hstake : stake ≠ []) :
    NonNegative (subtractFromStake total (first :: stake)) ↔
      0 ≤ first.nValue ∧ CoversParts total stake := by
  rw [subtractFromStake_cons total first hstake, nonNegative_cons, NonNegative, forall_mem_map]
  simp only [sub_nonneg]
  rfl

theorem coversParts_of_forall_le {total : CAmount} (htotal : 0 ≤ total)
    (h : ∀ out ∈ stake, total ≤ out.nValue) : CoversParts total stake := by
  intro p hp
  have hmem : p.1 ∈ stake := (mem_zipIdx hp).2.2 ▸ getElem_mem _
  exact (equalPart_le htotal (length_pos_of_mem hmem) p.2).trans (h p.1 hmem)

/-! ### What the others get -/

section Added

variable (E : ValidationEnv) (N : PoolParams) (Q : PaymentEnv) (S : ElectionState)

def addedOutputs (nHeight : ℤ) (fProofOfStake : Bool) (validMiners : List CPubKey)
    (producerScript : CScript) : List CTxOut :=
  paidOutputs E N Q S nHeight fProofOfStake validMiners producerScript ++ treasuryOutputs E Q nHeight

def redistributed (nHeight : ℤ) (fProofOfStake : Bool) (validMiners : List CPubKey)
    (producerScript : CScript) : CAmount :=
  totalValue (addedOutputs E N Q S nHeight fProofOfStake validMiners producerScript)

variable {E N Q S} {nHeight : ℤ} {fProofOfStake : Bool} {validMiners : List CPubKey}
  {producerScript : CScript}

theorem blockValActual_nonneg : 0 ≤ blockValActual E Q nHeight :=
  E.consensus.getBlockValue_nonneg _ _

theorem treasurySplit_nonneg : 0 ≤ treasurySplit E Q nHeight := by
  rw [treasurySplit]
  split_ifs
  · exact Int.ediv_nonneg (Int.mul_nonneg blockValActual_nonneg (by decide)) (by decide)
  · exact le_rfl

theorem faucetSplit_nonneg : 0 ≤ faucetSplit E Q nHeight := by
  rw [faucetSplit]
  split_ifs
  · exact Int.ediv_nonneg (Int.mul_nonneg blockValActual_nonneg (by decide)) (by decide)
  · exact le_rfl

theorem totalTreasuryFaucet_le :
    totalTreasuryFaucet E Q nHeight * 1000 ≤ blockValActual E Q nHeight * 77 := by
  have hbound (v t f : ℤ) (hv : 0 ≤ v) (ht : t = v * 7 / 100 ∨ t = 0) (hf : f = v * 7 / 1000 ∨ f = 0) :
      (t + f) * 1000 ≤ v * 77 := by omega
  exact hbound _ _ _ blockValActual_nonneg (ite_eq_or_eq _ _ _) (ite_eq_or_eq _ _ _)

theorem totalValue_treasuryOutputs :
    totalValue (treasuryOutputs E Q nHeight) = totalTreasuryFaucet E Q nHeight := by
  have hfaucet : 0 ≤ faucetSplit E Q nHeight := faucetSplit_nonneg
  rw [treasuryOutputs, totalTreasuryFaucet]
  split_ifs with hheight hpos
  · simp [totalValue]
  · simp [totalValue, le_antisymm (not_lt.1 hpos) hfaucet]
  · simp [totalValue, treasurySplit, faucetSplit, hheight]

theorem nonNegative_treasuryOutputs : NonNegative (treasuryOutputs E Q nHeight) := by
  have htreasury : 0 ≤ treasurySplit E Q nHeight := treasurySplit_nonneg
  rw [treasuryOutputs]
  split_ifs with hheight hpos
  · simp [NonNegative, htreasury, hpos.le]
  · simp [NonNegative, htreasury]
  · exact forall_mem_nil _

theorem totalValue_modelDPayments (payee : CScript) (miners : List CPubKey) :
    totalValue (outputs (modelDPayments E N Q S nHeight fProofOfStake producerScript payee miners)) =
      mnSplit E Q nHeight + (if (llmqPayees E N S nHeight).isEmpty then 0 else llmqSplitTotal E Q nHeight) +
        (if (partPayees E S nHeight fProofOfStake producerScript miners).isEmpty then 0
          else partSplitTotal E Q nHeight) := by
  have happend : outputs (modelDPayments E N Q S nHeight fProofOfStake producerScript payee miners) =
      ⟨mnSplit E Q nHeight, payee⟩ ::
        (outputs (splitAmong (llmqSplitTotal E Q nHeight) (llmqPayees E N S nHeight)) ++
          outputs (splitAmong (partSplitTotal E Q nHeight)
            (partPayees E S nHeight fProofOfStake producerScript miners))) := by
    simp [modelDPayments, outputs]
  rw [happend, totalValue_cons, totalValue_append, totalValue_splitAmong, totalValue_splitAmong, add_assoc]

theorem blockVal_nonneg : 0 ≤ blockVal E Q nHeight := by
  have hbound (v t : ℤ) (hv : 0 ≤ v) (ht : t * 1000 ≤ v * 77) : 0 ≤ v - t := by omega
  exact hbound _ _ blockValActual_nonneg totalTreasuryFaucet_le

theorem percentage_nonneg {v p : ℤ} (hv : 0 ≤ v) (hp : 0 ≤ p) : 0 ≤ v * p / 100 :=
  Int.ediv_nonneg (Int.mul_nonneg hv hp) (by decide)

theorem nonNegative_modelDPayments (payee : CScript) (miners : List CPubKey) :
    NonNegative (outputs (modelDPayments E N Q S nHeight fProofOfStake producerScript payee miners)) := by
  have hval : 0 ≤ blockVal E Q nHeight := blockVal_nonneg
  have hllmq := nonNegative_splitAmong (percentage_nonneg hval (by decide : (0 : ℤ) ≤ 10))
    (llmqPayees E N S nHeight)
  have hpart := nonNegative_splitAmong (percentage_nonneg hval (by decide : (0 : ℤ) ≤ 25))
    (partPayees E S nHeight fProofOfStake producerScript miners)
  rw [modelDPayments, outputs, map_cons, map_append]
  exact nonNegative_cons.2 ⟨percentage_nonneg hval (by decide), nonNegative_append.2 ⟨hllmq, hpart⟩⟩

theorem getMasternodePayment_nonneg : 0 ≤ getMasternodePayment E Q nHeight := by
  rw [getMasternodePayment]
  split_ifs
  · exact le_rfl
  · exact percentage_nonneg blockValActual_nonneg (by decide)
  · exact percentage_nonneg blockValActual_nonneg (by decide)

theorem getMasternodePayment_le :
    getMasternodePayment E Q nHeight * 100 ≤ blockValActual E Q nHeight * 80 := by
  have hbound (v : ℤ) (hv : 0 ≤ v) : (0 : ℤ) * 100 ≤ v * 80 ∧ v * 80 / 100 * 100 ≤ v * 80 ∧
      v * 60 / 100 * 100 ≤ v * 80 := by omega
  obtain ⟨hnone, hfirst, hlater⟩ := hbound _ (blockValActual_nonneg (E := E) (Q := Q))
  rw [getMasternodePayment]
  split_ifs
  · exact hnone
  · exact hfirst
  · exact hlater

theorem nonNegative_addedOutputs :
    NonNegative (addedOutputs E N Q S nHeight fProofOfStake validMiners producerScript) := by
  refine nonNegative_append.2 ⟨?_, nonNegative_treasuryOutputs⟩
  rw [paidOutputs]
  split
  · split
    · exact nonNegative_modelDPayments _ _
    · exact forall_mem_nil _
  · split
    · split_ifs
      · exact forall_mem_nil _
      · exact nonNegative_cons.2 ⟨getMasternodePayment_nonneg, forall_mem_nil _⟩
    · exact forall_mem_nil _

theorem redistributed_nonneg : 0 ≤ redistributed E N Q S nHeight fProofOfStake validMiners producerScript :=
  totalValue_nonneg nonNegative_addedOutputs

theorem redistributed_eq : redistributed E N Q S nHeight fProofOfStake validMiners producerScript =
      totalValue (paidOutputs E N Q S nHeight fProofOfStake validMiners producerScript) +
        totalTreasuryFaucet E Q nHeight := by
  rw [redistributed, addedOutputs, totalValue_append, totalValue_treasuryOutputs]

theorem redistributed_le : redistributed E N Q S nHeight fProofOfStake validMiners producerScript ≤
      blockValActual E Q nHeight := by
  have hactual : 0 ≤ blockValActual E Q nHeight := blockValActual_nonneg
  have htreasury : totalTreasuryFaucet E Q nHeight * 1000 ≤ blockValActual E Q nHeight * 77 :=
    totalTreasuryFaucet_le
  have hnobody (v t : ℤ) (hv : 0 ≤ v) (ht : t * 1000 ≤ v * 77) : 0 + t ≤ v := by omega
  rw [redistributed_eq, paidOutputs]
  split
  · split
    · -- a half, a tenth and a quarter of what is left
      have hsplits (v t m l p : ℤ) (hv : 0 ≤ v) (ht : t * 1000 ≤ v * 77) (hm : m = (v - t) * 50 / 100)
          (hl : l = 0 ∨ l = (v - t) * 10 / 100) (hp : p = 0 ∨ p = (v - t) * 25 / 100) :
          m + l + p + t ≤ v := by omega
      rw [totalValue_modelDPayments]
      exact hsplits _ _ _ _ _ hactual htreasury rfl (ite_eq_or_eq _ _ _) (ite_eq_or_eq _ _ _)
    · exact hnobody _ _ hactual htreasury
  · split
    · split_ifs with hzero
      · exact hnobody _ _ hactual htreasury
      · -- at most 80 of 100
        have hlegacy (v t m : ℤ) (hv : 0 ≤ v) (ht : t * 1000 ≤ v * 77) (hm : m * 100 ≤ v * 80) :
            m + 0 + t ≤ v := by omega
        exact hlegacy _ _ _ hactual htreasury getMasternodePayment_le
    · exact hnobody _ _ hactual htreasury

/-! ### What becomes of the producer's outputs -/

theorem fillBlockPayee_coinbase (producer : CTxOut) :
    fillBlockPayee E N Q S nHeight false validMiners [producer] =
      { producer with nValue := blockValActual E Q nHeight -
          redistributed E N Q S nHeight false validMiners producer.scriptPubKey } ::
        addedOutputs E N Q S nHeight false validMiners producer.scriptPubKey := by
  have hleft (m : ℤ) : blockVal E Q nHeight - m =
      blockValActual E Q nHeight - (m + totalTreasuryFaucet E Q nHeight) := by
    rw [blockVal, sub_sub, add_comm]
  have hnobody : fillWithoutPayee E Q nHeight false [producer] =
      [{ producer with nValue := blockValActual E Q nHeight - (0 + totalTreasuryFaucet E Q nHeight) }] := by
    rw [zero_add]
    rfl
  rw [redistributed_eq, addedOutputs]
  simp only [fillBlockPayee, paidOutputs]
  split
  · split
    · rw [totalValue_modelDPayments, ← hleft]
      rfl
    · rw [hnobody]
      rfl
  · split
    · split_ifs
      · rw [hnobody]
        rfl
      · rw [totalValue_cons, totalValue_nil, add_zero]
        rfl
    · rw [hnobody]
      rfl

theorem fillBlockPayee_stake (marker producer : CTxOut) (vout : List CTxOut) :
    fillBlockPayee E N Q S nHeight true validMiners (marker :: producer :: vout) =
      subtractFromStake (redistributed E N Q S nHeight true validMiners producer.scriptPubKey)
          (marker :: producer :: vout) ++
        addedOutputs E N Q S nHeight true validMiners producer.scriptPubKey := by
  have hlength : 2 ≤ (marker :: producer :: vout).length := by simp
  have hnobody : fillWithoutPayee E Q nHeight true (marker :: producer :: vout) =
      subtractFromStake (totalValue [] + totalTreasuryFaucet E Q nHeight)
        (marker :: producer :: vout) ++ [] := by
    rw [fillWithoutPayee, if_pos rfl, if_pos hlength, append_nil, totalValue_nil, zero_add]
  rw [redistributed_eq, addedOutputs, ← append_assoc]
  simp only [fillBlockPayee, paidOutputs]
  split
  · split
    · rw [totalValue_modelDPayments]
      rfl
    · rw [hnobody]
  · split
    · split_ifs
      · rw [hnobody]
      · rw [totalValue_cons, totalValue_nil, add_zero, fillLegacy, if_pos rfl, if_pos hlength]
    · rw [hnobody]

variable (E N Q S nHeight validMiners) in
/-- **The payments conserve the reward.** The outputs of a coinbase add up to the value of the block
and none is negative. The total of a coinstake stays the same, and none of its outputs is negative if
those of the staker are large enough: if each is at least what the others get, and exactly if each is
at least its part of that. -/
theorem fillBlockPayee_conserves : (∀ producer : CTxOut,
      totalValue (fillBlockPayee E N Q S nHeight false validMiners [producer]) =
          E.consensus.getBlockValue Q.nMoneySupply nHeight ∧
        NonNegative (fillBlockPayee E N Q S nHeight false validMiners [producer])) ∧
    ∀ (marker producer : CTxOut) (vout : List CTxOut),
      let filled := fillBlockPayee E N Q S nHeight true validMiners (marker :: producer :: vout)
      let total := redistributed E N Q S nHeight true validMiners producer.scriptPubKey
      totalValue filled = totalValue (marker :: producer :: vout) ∧
        (0 ≤ marker.nValue → (∀ out ∈ producer :: vout, total ≤ out.nValue) → NonNegative filled) ∧
        (NonNegative filled ↔ 0 ≤ marker.nValue ∧ CoversParts total (producer :: vout)) := by
  refine ⟨fun producer ↦ ⟨?_, ?_⟩, fun marker producer vout ↦ ?_⟩
  · rw [fillBlockPayee_coinbase, totalValue_cons]
    exact sub_add_cancel _ _
  · rw [fillBlockPayee_coinbase]
    exact nonNegative_cons.2 ⟨sub_nonneg.2 redistributed_le, nonNegative_addedOutputs⟩
  · have hstake : producer :: vout ≠ [] := cons_ne_nil _ _
    have hiff : NonNegative (fillBlockPayee E N Q S nHeight true validMiners
        (marker :: producer :: vout)) ↔ 0 ≤ marker.nValue ∧ CoversParts
          (redistributed E N Q S nHeight true validMiners producer.scriptPubKey)
          (producer :: vout) := by
      rw [fillBlockPayee_stake, nonNegative_append, nonNegative_subtractFromStake _ _ hstake]
      exact and_iff_left nonNegative_addedOutputs
    refine ⟨?_, fun hmarker hlarge ↦ ?_, hiff⟩
    · rw [fillBlockPayee_stake, totalValue_append, totalValue_subtractFromStake _ _ hstake]
      exact sub_add_cancel _ _
    · exact hiff.2 ⟨hmarker, coversParts_of_forall_le redistributed_nonneg hlarge⟩

/-- Two outputs of 200 coins bear the payments of a reward of 100 coins. -/
theorem fillBlockPayee_conserves_two :
    let stake : List CTxOut := [⟨200 * 10 ^ 8, [1]⟩, ⟨200 * 10 ^ 8, [1]⟩]
    let filled := fillBlockPayee solvingEnv mainPoolParams samplePaymentEnv
      samplePaymentState.toElectionState 2200 true [] (⟨0, []⟩ :: stake)
    totalValue filled = 400 * 10 ^ 8 ∧ NonNegative filled := by
  have h := (fillBlockPayee_conserves solvingEnv mainPoolParams samplePaymentEnv
    samplePaymentState.toElectionState 2200 []).2 ⟨0, []⟩ ⟨200 * 10 ^ 8, [1]⟩ [⟨200 * 10 ^ 8, [1]⟩]
  refine ⟨h.1, h.2.1 le_rfl fun out hout ↦ ?_⟩
  have hactual : blockValActual solvingEnv samplePaymentEnv 2200 = 100 * 10 ^ 8 := by decide
  have hout : out.nValue = 200 * 10 ^ 8 := by
    simp only [mem_cons, not_mem_nil, or_false, or_self] at hout
    rw [hout]
  rw [hout]
  exact redistributed_le.trans (hactual.trans_le (by decide))

-- The outputs of 1 and 199 coins are together large enough, but the first one is below its part.
example :
    let stake : List CTxOut := [⟨10 ^ 8, [1]⟩, ⟨199 * 10 ^ 8, [1]⟩]
    redistributed solvingEnv mainPoolParams samplePaymentEnv samplePaymentState.toElectionState 2200
        true [] [1] < totalValue stake ∧
      ¬ NonNegative (fillBlockPayee solvingEnv mainPoolParams samplePaymentEnv
        samplePaymentState.toElectionState 2200 true [] (⟨0, []⟩ :: stake)) := by
  decide +kernel

end Added

end KristaTech.Masternode
