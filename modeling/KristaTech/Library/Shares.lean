import Mathlib.Data.List.Nodup
import Mathlib.Tactic.Linarith

/-!
# Equal shares

A total that is divided among the entries of a list in equal parts, where the last entry gets what
remains. Among the entries of one list, two choices give everybody the same share only if they are
the same, unless there is nothing to divide, or all of it goes to one and the same entry
(`share_eq_iff`). The parts add up to the total (`sum_equalPart`).
-/

namespace List

variable {α : Type*} [DecidableEq α] {total : ℤ} {as bs cs : List α} {a : α}

/-- The share of an entry: an equal part, and what remains if it is the last one. -/
def share (total : ℤ) (as : List α) (a : α) : ℤ :=
  if a ∈ as then total / as.length + if as.getLast? = some a then total % as.length else 0 else 0

def OneShare (total : ℤ) (as : List α) : Prop := as.length ≤ 1 ∨ total < as.length

instance : Decidable (OneShare total as) := inferInstanceAs (Decidable (_ ∨ _))

theorem share_of_notMem (h : a ∉ as) : share total as a = 0 := if_neg h

theorem sum_parts_eq_share (hnodup : as.Nodup) : ((as.zipIdx.filter fun p ↦ p.1 = a).map fun p ↦
      total / as.length + if p.2 = as.length - 1 then total % as.length else 0).sum = share total as a := by
  generalize hf : (fun p : α × ℕ ↦
    total / as.length + if p.2 = as.length - 1 then total % as.length else 0) = f
  have hnone (l : List α) (n : ℕ) (hl : a ∉ l) : (l.zipIdx n).filter (fun p ↦ p.1 = a) = [] := by
    refine filter_eq_nil_iff.2 fun p hp ↦ ?_
    have hmem : p.1 ∈ l := (mem_zipIdx hp).2.2 ▸ getElem_mem _
    simpa using fun heq : p.1 = a ↦ hl (heq ▸ hmem)
  by_cases hmem : a ∈ as
  · obtain ⟨l, r, rfl⟩ := append_of_mem hmem
    obtain ⟨-, hr, hl⟩ := nodup_append.1 hnodup
    have hal : a ∉ l := fun h ↦ hl a h a mem_cons_self rfl
    have har : a ∉ r := (nodup_cons.1 hr).1
    rw [zipIdx_append, zipIdx_cons, filter_append, filter_cons_of_pos (by simp), hnone l 0 hal,
      hnone r _ har, share, if_pos hmem, ← hf]
    -- it is the last one if nothing follows
    have hlast : 0 + l.length = (l ++ a :: r).length - 1 ↔ (l ++ a :: r).getLast? = some a := by
      cases r with
      | nil => simp
      | cons b r =>
        have hne : (b :: r).getLast? ≠ some a := fun h ↦ har (mem_of_getLast? h)
        rw [getLast?_append_of_ne_nil _ (cons_ne_nil a _), getLast?_cons_cons]
        exact iff_of_false (by simp) hne
    simp only [nil_append, map_cons, map_nil, sum_singleton, hlast]
  · rw [hnone as 0 hmem, share_of_notMem hmem]
    rfl

theorem share_of_oneShare (htotal : 0 ≤ total) (h : OneShare total as) :
    share total as a = if as.getLast? = some a then total else 0 := by
  have hmem : as.getLast? = some a → a ∈ as := mem_of_getLast?
  rcases h with h | h
  · match as, h with
    | [], _ => rfl
    | [b], _ => simp [share, eq_comm]
  · rw [share, Int.ediv_eq_zero_of_lt htotal h, Int.emod_eq_of_lt htotal h, zero_add]
    split_ifs with ha hlast hlast
    · rfl
    · rfl
    · exact absurd (hmem hlast) ha
    · rfl

theorem share_of_not_oneShare (h : ¬OneShare total as) (ha : a ∈ as) :
    0 < share total as a ∧ share total as a < total := by
  rw [OneShare, not_or, not_le, not_lt] at h
  obtain ⟨hlength, hle⟩ := h
  have hpos : 1 ≤ total / as.length := (Int.le_ediv_iff_mul_le (by omega)).2 (by omega)
  have hdivmod := Int.mul_ediv_add_emod total as.length
  have hmod : 0 ≤ total % as.length := Int.emod_nonneg _ (by omega)
  have hmul : 2 * (total / as.length) ≤ as.length * (total / as.length) :=
    mul_le_mul_of_nonneg_right (by omega) (by omega)
  rw [share, if_pos ha]
  split_ifs
  · exact ⟨by omega, by omega⟩
  · exact ⟨by omega, by omega⟩

theorem eq_filter_of_sublist (hnodup : cs.Nodup) (h : as <+ cs) : as = cs.filter (· ∈ as) := by
  induction h with
  | slnil => rfl
  | @cons as cs c hsub ih =>
    obtain ⟨hc, hcs⟩ := nodup_cons.1 hnodup
    rw [filter_cons_of_neg (by simpa using fun h ↦ hc (hsub.subset h))]
    exact ih hcs
  | @cons_cons as cs c hsub ih =>
    obtain ⟨hc, hcs⟩ := nodup_cons.1 hnodup
    rw [filter_cons_of_pos (by simp)]
    refine congrArg (c :: ·) ((ih hcs).trans (filter_congr fun b hb ↦ ?_))
    have hne : b ≠ c := fun h ↦ hc (h ▸ hb)
    simp [hne]

/-- **When two choices give the same shares.** -/
theorem share_eq_iff (htotal : 0 ≤ total) (hnodup : cs.Nodup) (has : as <+ cs) (hbs : bs <+ cs) :
    (∀ a ∈ cs, share total as a = share total bs a) ↔ as = bs ∨ total = 0 ∨
        (as.getLast? = bs.getLast? ∧ OneShare total as ∧ OneShare total bs) := by
  constructor
  · intro h
    -- outside the list both shares are zero
    have hall (a : α) : share total as a = share total bs a := by
      by_cases ha : a ∈ cs
      · exact h a ha
      · rw [share_of_notMem fun h ↦ ha (has.subset h), share_of_notMem fun h ↦ ha (hbs.subset h)]
    rcases htotal.eq_or_lt with hzero | hpos
    · exact Or.inr (Or.inl hzero.symm)
    -- one and many shares cannot go together
    have hmixed {as bs : List α} (hall : ∀ a, share total as a = share total bs a)
        (hone : OneShare total bs) : OneShare total as := by
      by_contra hmany
      have hne : as ≠ [] := by
        rintro rfl
        exact hmany (Or.inl (by simp))
      obtain ⟨hlow, hhigh⟩ := share_of_not_oneShare hmany (getLast_mem hne)
      rw [hall, share_of_oneShare htotal hone] at hlow hhigh
      split_ifs at hlow hhigh
      · exact lt_irrefl _ hhigh
      · exact lt_irrefl _ hlow
    by_cases hone : OneShare total bs
    · have hone' := hmixed hall hone
      refine Or.inr (Or.inr ⟨Option.ext fun a ↦ ?_, hone', hone⟩)
      have ha := hall a
      rw [share_of_oneShare htotal hone, share_of_oneShare htotal hone'] at ha
      split_ifs at ha with h₁ h₂ h₂
      · exact iff_of_true h₁ h₂
      · exact absurd ha hpos.ne'
      · exact absurd ha hpos.ne
      · exact iff_of_false h₁ h₂
    · have hmany : ¬OneShare total as := fun hone' ↦ hone (hmixed (fun a ↦ (hall a).symm) hone')
      have hmem (a : α) : a ∈ as ↔ a ∈ bs := by
        constructor
        · intro ha
          by_contra hb
          exact (share_of_not_oneShare hmany ha).1.ne' (hall a ▸ share_of_notMem hb)
        · intro hb
          by_contra ha
          exact (share_of_not_oneShare hone hb).1.ne' (hall a ▸ share_of_notMem ha)
      left
      rw [eq_filter_of_sublist hnodup has, eq_filter_of_sublist hnodup hbs]
      exact filter_congr fun a _ ↦ by simp [hmem]
  · rintro (rfl | rfl | ⟨hlast, hone, hone'⟩) a -
    · rfl
    · simp [share]
    · rw [share_of_oneShare htotal hone, share_of_oneShare htotal hone', hlast]

/-! ### The parts by their places -/

/-- The part at a place, of `n`: the last one is larger by what remains. -/
def equalPart (total : ℤ) (n i : ℕ) : ℤ := total / n + if i = n - 1 then total % n else 0

theorem sum_range_equalPart {n : ℕ} (hn : 0 < n) (total : ℤ) :
    ((range n).map (equalPart total n)).sum = total := by
  obtain ⟨m, rfl⟩ := Nat.exists_eq_succ_of_ne_zero hn.ne'
  have hfirst : (range m).map (equalPart total (m + 1)) = replicate m (total / (m + 1 : ℕ)) := by
    refine eq_replicate_iff.2 ⟨by simp, fun b hb ↦ ?_⟩
    obtain ⟨i, hi, rfl⟩ := mem_map.1 hb
    rw [equalPart, if_neg (by have := mem_range.1 hi; omega), add_zero]
  have hlast : equalPart total (m + 1) m = total / (m + 1 : ℕ) + total % (m + 1 : ℕ) := by
    rw [equalPart, if_pos (Nat.add_sub_cancel m 1).symm]
  have hdivmod := Int.mul_ediv_add_emod total (m + 1 : ℕ)
  rw [range_succ, map_append, map_singleton, sum_append, sum_singleton, hfirst, hlast, sum_replicate_int]
  push_cast at hdivmod ⊢
  linarith

theorem sum_equalPart {α : Type*} {l : List α} (hl : l ≠ []) (total : ℤ) :
    (l.zipIdx.map fun p ↦ equalPart total l.length p.2).sum = total := by
  rw [← Function.comp_def (equalPart total l.length), ← map_map, zipIdx_map_snd, ← range_eq_range']
  exact sum_range_equalPart (length_pos_of_ne_nil hl) total

theorem equalPart_nonneg {total : ℤ} (htotal : 0 ≤ total) (n i : ℕ) : 0 ≤ equalPart total n i := by
  have hdiv : 0 ≤ total / n := Int.ediv_nonneg htotal (Int.natCast_nonneg n)
  have hmod : 0 ≤ total % n := by
    rcases Nat.eq_zero_or_pos n with rfl | hn
    · simpa using htotal
    · exact Int.emod_nonneg _ (by omega)
  rw [equalPart]
  split_ifs <;> omega

theorem equalPart_le {total : ℤ} (htotal : 0 ≤ total) {n : ℕ} (hn : 0 < n) (i : ℕ) :
    equalPart total n i ≤ total := by
  have hdivmod := Int.mul_ediv_add_emod total n
  have hdiv : 0 ≤ total / n := Int.ediv_nonneg htotal (Int.natCast_nonneg n)
  have hmod : 0 ≤ total % n := Int.emod_nonneg _ (by omega)
  have hmul : 1 * (total / n) ≤ n * (total / n) := mul_le_mul_of_nonneg_right (by omega) hdiv
  rw [equalPart]
  split_ifs <;> omega

/-! ### Shares that are rounded down -/

theorem sum_mul_ediv_le {y : ℤ} (hy : 0 < y) (x : ℤ) (l : List ℤ) :
    (l.map fun v ↦ v * x / y).sum ≤ l.sum * x / y := by
  induction l with
  | nil => simp
  | cons v l ih =>
    have hv : v * x / y * y ≤ v * x := Int.ediv_mul_le _ hy.ne'
    have hl : l.sum * x / y * y ≤ l.sum * x := Int.ediv_mul_le _ hy.ne'
    rw [map_cons, sum_cons, sum_cons]
    refine (add_le_add_right ih _).trans ((Int.le_ediv_iff_mul_le hy).2 ?_)
    rw [add_mul, add_mul]
    exact add_le_add hv hl

end List
