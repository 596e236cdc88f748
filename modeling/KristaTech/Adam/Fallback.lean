import KristaTech.Library.Ranking
import KristaTech.Quorum.Rotation

/-!
# The rotation of the fallback coordinators is fair

The validators are ranked by the distance of their PoBLS tickets to the height's target, those
without a ticket last. The comparison of two validators (`ValidatorDistance.cmp`) is a total order, so
the ranking is the same whatever order the validators came in. From the timeout on the turns go down
the ranking and start again at its end: of any `n` turns in a row each of the `n` validators has
exactly one (`fallback_rotation_fair`), and the coordinator of the turn before stays acceptable for
exactly the five seconds that a block needs to get around.
-/

namespace KristaTech.Adam

open List

/-! ### The order of the validators -/

namespace ValidatorDistance

/-- The comparison that `operator<` decides. -/
def cmp : ValidatorDistance → ValidatorDistance → Ordering :=
  compareLex (compareOn fun d ↦ !d.hasValidTicket) (compareLex (compareOn distance) (compareOn key))

instance : Std.TransCmp cmp :=
  inferInstanceAs (Std.TransCmp (compareLex (compareOn fun d : ValidatorDistance ↦ !d.hasValidTicket)
    (compareLex (compareOn distance) (compareOn key))))

instance : Std.LawfulEqCmp cmp where
  eq_of_compare {a b} h := by
    obtain ⟨k, d, t⟩ := a
    obtain ⟨k', d', t'⟩ := b
    simp only [cmp, compareLex, compareOn, Ordering.then_eq_eq, Std.LawfulEqOrd.compare_eq_iff_eq,
      Bool.not_inj_iff] at h
    rw [h.1, h.2.1, h.2.2]

theorem lt_eq_cmp (a b : ValidatorDistance) : a.lt b = (cmp a b == .lt) := by
  obtain ⟨k, d, t⟩ := a
  obtain ⟨k', d', t'⟩ := b
  have hticket : ∀ o : Ordering, (if t != t' then t else o == .lt) =
      ((compare (!t) (!t')).then o == .lt) := by
    cases t <;> cases t' <;> simp [compare]
  have hdistance : (if d != d' then compare d d' == .lt else compare k k' == .lt) =
      ((compare d d').then (compare k k') == .lt) := by
    split_ifs with hd
    · have hne : compare d d' ≠ .eq := fun h ↦ by simp [Std.LawfulEqOrd.eq_of_compare h] at hd
      cases h : compare d d' <;> simp_all
    · have heq : d = d' := by simpa using hd
      simp [heq]
  show (if t != t' then t else if d != d' then _ else _) = _
  rw [hdistance, hticket]
  rfl

theorem lt_eq_false_iff (a b : ValidatorDistance) : b.lt a = false ↔ (cmp a b).isLE = true := by
  have hswap : cmp b a = (cmp a b).swap := Std.OrientedCmp.eq_swap
  rw [lt_eq_cmp, hswap]
  cases cmp a b <;> simp

instance : Std.Total fun a b : ValidatorDistance ↦ b.lt a = false :=
  ⟨fun a b ↦ by
    rw [lt_eq_false_iff, lt_eq_false_iff]
    exact (KeyOrder.total_isLE cmp).total a b⟩

instance : IsTrans ValidatorDistance fun a b ↦ b.lt a = false :=
  ⟨fun a b c hab hbc ↦ by
    rw [lt_eq_false_iff] at hab hbc ⊢
    exact Std.TransCmp.isLE_trans hab hbc⟩

instance : Std.Antisymm fun a b : ValidatorDistance ↦ b.lt a = false :=
  ⟨fun a b hab hba ↦ by
    rw [lt_eq_false_iff] at hab hba
    exact (KeyOrder.antisymm_isLE cmp).antisymm a b hab hba⟩

theorem hasValidTicket_of_lt_eq_false {a b : ValidatorDistance} (h : b.lt a = false)
    (hb : b.hasValidTicket = true) : a.hasValidTicket = true := by
  by_contra ha
  simp [lt, hb, Bool.eq_false_iff.2 ha] at h

end ValidatorDistance

section Ranking

variable (C : Crypto) (pins : PinnedBLSPubKeys) (hashAdamSeed : Uint256) (nBlockHeight : ℤ)
  (mapSolutions : Std.ExtTreeMap CPubKey Bytes)

/-- The validator sent a solution that carries its ticket. -/
def HoldsTicket (minerKey : CPubKey) : Prop :=
  ∃ solution, mapSolutions[minerKey]? = some solution ∧
    (extractPoBLSTicketFromSolution C pins solution nBlockHeight minerKey).isSome = true

theorem hasValidTicket_validatorDistance (minerKey : CPubKey) :
    (validatorDistance C pins hashAdamSeed nBlockHeight mapSolutions minerKey).hasValidTicket = true ↔
      HoldsTicket C pins nBlockHeight mapSolutions minerKey := by
  unfold validatorDistance HoldsTicket
  simp only [Option.isSome_bind]
  cases mapSolutions[minerKey]? <;> simp

@[simp] theorem map_key_validatorDistance (vMiners : List CPubKey) :
    (vMiners.map (validatorDistance C pins hashAdamSeed nBlockHeight mapSolutions)).map (·.key) =
      vMiners := by
  rw [map_map]
  exact map_id vMiners

theorem perm_rankValidatorsByPoBLSDistance (vMiners : List CPubKey) :
    (rankValidatorsByPoBLSDistance C pins hashAdamSeed nBlockHeight vMiners mapSolutions).Perm
      vMiners := by
  have hperm := (perm_insertionSort (fun a b : ValidatorDistance ↦ b.lt a = false)
    (vMiners.map (validatorDistance C pins hashAdamSeed nBlockHeight mapSolutions))).map (·.key)
  rwa [map_key_validatorDistance] at hperm

theorem rankValidatorsByPoBLSDistance_eq_of_perm {vMiners vMiners' : List CPubKey}
    (h : vMiners.Perm vMiners') :
    rankValidatorsByPoBLSDistance C pins hashAdamSeed nBlockHeight vMiners mapSolutions =
      rankValidatorsByPoBLSDistance C pins hashAdamSeed nBlockHeight vMiners' mapSolutions := by
  unfold rankValidatorsByPoBLSDistance
  rw [KeyOrder.insertionSort_eq_of_perm (h.map _)]

theorem pairwise_holdsTicket (vMiners : List CPubKey) :
    (rankValidatorsByPoBLSDistance C pins hashAdamSeed nBlockHeight vMiners mapSolutions).Pairwise
      fun a b ↦ HoldsTicket C pins nBlockHeight mapSolutions b →
        HoldsTicket C pins nBlockHeight mapSolutions a := by
  have hsorted := pairwise_insertionSort (fun a b : ValidatorDistance ↦ b.lt a = false)
    (vMiners.map (validatorDistance C pins hashAdamSeed nBlockHeight mapSolutions))
  refine pairwise_map.2 (hsorted.imp_of_mem fun {a b} ha hb h hticket ↦ ?_)
  rw [mem_insertionSort, mem_map] at ha hb
  obtain ⟨k, -, rfl⟩ := ha
  obtain ⟨k', -, rfl⟩ := hb
  rw [← hasValidTicket_validatorDistance C pins hashAdamSeed] at hticket ⊢
  exact ValidatorDistance.hasValidTicket_of_lt_eq_false h hticket

end Ranking

/-! ### Turns -/

section Turns

variable (C : Crypto) (pins : PinnedBLSPubKeys) (hashAdamSeed : Uint256) (nBlockHeight : ℤ)
  (mapSolutions : Std.ExtTreeMap CPubKey Bytes) {vMiners : List CPubKey}
variable {t : ℤ}

/-- **The turns go down the ranking**: from the timeout on there is an active coordinator, the one
whose turn it is, and the turn of the other acceptable one is the same or, in the first five seconds,
the turn before. -/
theorem turn_of_getAdamFallbackCoordinatorForSlot (ht : adamFallbackCoordinatorTimeoutSecs ≤ t)
    (hne : vMiners ≠ []) :
    ∃ c, getAdamFallbackCoordinatorForSlot C pins hashAdamSeed nBlockHeight t vMiners mapSolutions =
        some c ∧
      (rankValidatorsByPoBLSDistance C pins hashAdamSeed nBlockHeight vMiners mapSolutions).turn
        (rawSlot t) = some c.activeFallback ∧
      (rankValidatorsByPoBLSDistance C pins hashAdamSeed nBlockHeight vMiners mapSolutions).turn
        (if 0 < rawSlot t ∧ (t - adamFallbackCoordinatorTimeoutSecs) % 30 < 5 then rawSlot t - 1
          else rawSlot t) = some c.prevFallback := by
  have hperm := perm_rankValidatorsByPoBLSDistance C pins hashAdamSeed nBlockHeight mapSolutions vMiners
  unfold getAdamFallbackCoordinatorForSlot
  generalize rankValidatorsByPoBLSDistance C pins hashAdamSeed nBlockHeight vMiners mapSolutions =
    ranked at hperm ⊢
  have hranked : ranked ≠ [] := fun h ↦ hne (nil_perm.1 (h ▸ hperm))
  have hcond : (decide (t < adamFallbackCoordinatorTimeoutSecs) || vMiners.isEmpty) = false := by
    simpa [hne] using ht
  simp only [hcond, List.isEmpty_iff, hranked, Bool.false_eq_true, if_false]
  refine ⟨_, rfl, List.turn_eq_some_getD hranked _ default, ?_⟩
  dsimp only
  split_ifs
  · rw [turn_eq_some_getD hranked _ default, toNat_sub_one_emod (length_pos_of_ne_nil hranked)]
  · exact turn_eq_some_getD hranked _ default

/-- There is a fallback coordinator from the timeout on only, and it is one of the validators. -/
theorem of_getAdamFallbackCoordinatorForSlot {c : FallbackCoordinators}
    (h : getAdamFallbackCoordinatorForSlot C pins hashAdamSeed nBlockHeight t vMiners mapSolutions =
      some c) : adamFallbackCoordinatorTimeoutSecs ≤ t ∧ c.activeFallback ∈ vMiners := by
  have hcond : adamFallbackCoordinatorTimeoutSecs ≤ t ∧ vMiners ≠ [] := by
    by_contra hnot
    rw [getAdamFallbackCoordinatorForSlot, if_pos] at h
    · cases h
    · rw [not_and_or, not_le, not_not] at hnot
      simpa using hnot
  obtain ⟨c', hc', hactive, -⟩ := turn_of_getAdamFallbackCoordinatorForSlot C pins hashAdamSeed
    nBlockHeight mapSolutions hcond.1 hcond.2
  obtain rfl := Option.some.inj (hc'.symm.trans h)
  have hperm := perm_rankValidatorsByPoBLSDistance C pins hashAdamSeed nBlockHeight mapSolutions vMiners
  exact ⟨hcond.1, hperm.mem_iff.1 (mem_of_getElem? hactive)⟩

theorem rawSlot_start {s : ℤ} (hs : 0 ≤ s) :
    adamFallbackCoordinatorTimeoutSecs ≤ adamFallbackCoordinatorTimeoutSecs + 30 * s ∧
      rawSlot (adamFallbackCoordinatorTimeoutSecs + 30 * s) = s := by
  unfold rawSlot
  omega

/-- Five seconds into a turn there is only its own coordinator, so the acceptable coordinators at `t`
are the active ones at `t` and at `t - 5`. -/
theorem rawSlot_sub_five (ht : adamFallbackCoordinatorTimeoutSecs + 5 ≤ t) :
    (if 0 < rawSlot t ∧ (t - adamFallbackCoordinatorTimeoutSecs) % 30 < 5 then rawSlot t - 1
      else rawSlot t) = rawSlot (t - 5) := by
  unfold rawSlot
  split_ifs with h <;> omega

theorem prevFallback_eq_activeFallback (ht : adamFallbackCoordinatorTimeoutSecs + 5 ≤ t)
    (hne : vMiners ≠ []) :
    ∃ c c', getAdamFallbackCoordinatorForSlot C pins hashAdamSeed nBlockHeight t vMiners
        mapSolutions = some c ∧
      getAdamFallbackCoordinatorForSlot C pins hashAdamSeed nBlockHeight (t - 5) vMiners
        mapSolutions = some c' ∧
      c.prevFallback = c'.activeFallback := by
  obtain ⟨c, hc, -, hprev⟩ := turn_of_getAdamFallbackCoordinatorForSlot C pins hashAdamSeed
    nBlockHeight mapSolutions (t := t) (by omega) hne
  obtain ⟨c', hc', hactive, -⟩ := turn_of_getAdamFallbackCoordinatorForSlot C pins hashAdamSeed
    nBlockHeight mapSolutions (t := t - 5) (by omega) hne
  rw [rawSlot_sub_five ht, hactive, Option.some_inj] at hprev
  exact ⟨c, c', hc, hc', hprev.symm⟩

/-- In `n` turns from turn `j` on, each of the `n` validators is active in exactly one. -/
theorem exists_activeFallback_iff (hnodup : vMiners.Nodup) {k : CPubKey} (hk : k ∈ vMiners) (j : ℤ) :
    ∃ s, (j ≤ s ∧ s < j + vMiners.length) ∧
      ∀ t ≥ adamFallbackCoordinatorTimeoutSecs, j ≤ rawSlot t → rawSlot t < j + vMiners.length →
        ((getAdamFallbackCoordinatorForSlot C pins hashAdamSeed nBlockHeight t vMiners
          mapSolutions).map (·.activeFallback) = some k ↔ rawSlot t = s) := by
  have hperm := perm_rankValidatorsByPoBLSDistance C pins hashAdamSeed nBlockHeight mapSolutions vMiners
  obtain ⟨s, hs, hiff⟩ := exists_turn_eq_iff (hperm.nodup_iff.2 hnodup) (hperm.mem_iff.2 hk) j
  rw [hperm.length_eq] at hs hiff
  refine ⟨s, hs, fun t ht hj hj' ↦ ?_⟩
  obtain ⟨c, hc, hactive, -⟩ := turn_of_getAdamFallbackCoordinatorForSlot C pins hashAdamSeed
    nBlockHeight mapSolutions ht (ne_nil_of_mem hk)
  rw [hc, ← hiff _ hj hj', hactive]
  rfl

/-- **The fallback rotation is fair.** -/
theorem fallback_rotation_fair (C : Crypto) (pins : PinnedBLSPubKeys) (hashAdamSeed : Uint256)
    (nBlockHeight : ℤ) (mapSolutions : Std.ExtTreeMap CPubKey Bytes) (vMiners : List CPubKey)
    (hnodup : vMiners.Nodup) :
    let rank := fun miners ↦ rankValidatorsByPoBLSDistance C pins hashAdamSeed nBlockHeight miners
      mapSolutions
    let fallback := fun t ↦ getAdamFallbackCoordinatorForSlot C pins hashAdamSeed nBlockHeight t
      vMiners mapSolutions
    (rank vMiners).Perm vMiners ∧
    (∀ vMiners', vMiners'.Perm vMiners → rank vMiners' = rank vMiners) ∧
    (rank vMiners).Pairwise (fun a b ↦ HoldsTicket C pins nBlockHeight mapSolutions b →
      HoldsTicket C pins nBlockHeight mapSolutions a) ∧
    (∀ j : ℤ, 0 ≤ j → ∀ k ∈ vMiners, ∃! s : ℤ, (j ≤ s ∧ s < j + vMiners.length) ∧
      ∀ t ≥ adamFallbackCoordinatorTimeoutSecs, j ≤ rawSlot t → rawSlot t < j + vMiners.length →
        ((fallback t).map (·.activeFallback) = some k ↔ rawSlot t = s)) ∧
    (∀ t : ℤ, 50 ≤ t → vMiners ≠ [] → ∃ c c', fallback t = some c ∧ fallback (t - 5) = some c' ∧
      c.prevFallback = c'.activeFallback) := by
  refine ⟨perm_rankValidatorsByPoBLSDistance C pins _ _ _ _, fun vMiners' hperm ↦ ?_,
    pairwise_holdsTicket C pins _ _ _ _, fun j hj k hk ↦ ?_, fun t ht hne ↦ ?_⟩
  · exact rankValidatorsByPoBLSDistance_eq_of_perm C pins _ _ _ hperm
  · obtain ⟨s, hs, hiff⟩ := exists_activeFallback_iff C pins hashAdamSeed nBlockHeight mapSolutions
      hnodup hk j
    refine ⟨s, ⟨hs, hiff⟩, ?_⟩
    rintro s' ⟨hs', hiff'⟩
    -- the first second of turn `s'` is in both characterisations
    obtain ⟨ht, hslot⟩ := rawSlot_start (hj.trans hs'.1)
    have hle := hs'.1.trans_eq hslot.symm
    have hlt := hslot.trans_lt hs'.2
    have hactive := (hiff' _ ht hle hlt).2 hslot
    exact hslot.symm.trans ((hiff _ ht hle hlt).1 hactive)
  · exact prevFallback_eq_activeFallback C pins _ _ _ ht hne

/-- Three validators without a ticket take turns. -/
theorem fallback_rotation_fair_three :
    let vMiners := [Llmq.ThreeNodes.key 0, Llmq.ThreeNodes.key 1, Llmq.ThreeNodes.key 2]
    vMiners.Nodup ∧ ∀ j : ℤ, 0 ≤ j → ∀ k ∈ vMiners, ∃! s : ℤ, (j ≤ s ∧ s < j + 3) ∧
      ∀ t ≥ adamFallbackCoordinatorTimeoutSecs, j ≤ rawSlot t → rawSlot t < j + 3 →
        ((getAdamFallbackCoordinatorForSlot default ∅ 0 8 t vMiners ∅).map (·.activeFallback) =
          some k ↔ rawSlot t = s) :=
  have hnodup : [Llmq.ThreeNodes.key 0, Llmq.ThreeNodes.key 1, Llmq.ThreeNodes.key 2].Nodup := by
    decide
  ⟨hnodup, (fallback_rotation_fair default ∅ 0 8 ∅ _ hnodup).2.2.2.1⟩

end Turns

end KristaTech.Adam
