import Mathlib.Data.Int.ModEq
import Mathlib.Data.List.Sort

/-!
# Rankings

A ranking is a list in a strict order. Two rankings begin with the same entries exactly when the first
entries of each occur somewhere in the other (`List.take_eq_take_iff_subset`). A list in a strict order
that is sorted by scores is ranked by the scores and, among equal scores, by the old order
(`List.pairwise_insertionSort_lex`). Where all scores are different, the first entries are those of
lowest score (`List.Lowest`).

Where the entries of a list take turns, one after the other and round again, each of them has exactly
one of any `l.length` turns in a row (`List.exists_turn_eq_iff`).
-/

namespace List

variable {α κ : Type*} {lt : α → α → Prop}

theorem take_eq_take_iff_subset [Std.Asymm lt] {l₁ l₂ : List α} (h₁ : l₁.Pairwise lt)
    (h₂ : l₂.Pairwise lt) (n : ℕ) :
    l₁.take n = l₂.take n ↔ l₁.take n ⊆ l₂ ∧ l₂.take n ⊆ l₁ := by
  refine ⟨fun h ↦ ⟨h ▸ take_subset n l₂, h ▸ take_subset n l₁⟩, ?_⟩
  rintro ⟨hsub₁, hsub₂⟩
  induction n generalizing l₁ l₂ with
  | zero => rfl
  | succ n ih =>
    cases l₁ with
    | nil => exact (subset_nil.1 hsub₂).symm
    | cons a l₁ =>
      cases l₂ with
      | nil => exact absurd (hsub₁ mem_cons_self) not_mem_nil
      | cons b l₂ =>
        rw [pairwise_cons] at h₁ h₂
        -- the first of each ranking cannot stand behind the first of the other
        obtain rfl : a = b := by
          rcases mem_cons.1 (hsub₁ mem_cons_self) with hab | ha
          · exact hab
          · rcases mem_cons.1 (hsub₂ mem_cons_self) with hba | hb
            · exact hba.symm
            · exact absurd (h₁.1 b hb) (Std.Asymm.asymm _ _ (h₂.1 a ha))
        have hrest : ∀ {l l' : List α}, (∀ x ∈ l, lt a x) → l.take n ⊆ a :: l' → l.take n ⊆ l' := by
          intro l l' hlt hsub x hx
          rcases mem_cons.1 (hsub hx) with rfl | hx'
          · have hself := hlt x (mem_of_mem_take hx)
            exact absurd hself (Std.Asymm.asymm _ _ hself)
          · exact hx'
        rw [take_succ_cons, take_succ_cons, ih h₁.2 h₂.2
          (hrest h₁.1 fun x hx ↦ hsub₁ (mem_cons_of_mem a hx))
          (hrest h₂.1 fun x hx ↦ hsub₂ (mem_cons_of_mem a hx))]

variable [LinearOrder κ]

/-- The score decides, and among equal scores the order `lt`. -/
def ScoreLex (score : α → κ) (lt : α → α → Prop) (a b : α) : Prop :=
  score a < score b ∨ score a = score b ∧ lt a b

instance [Std.Asymm lt] (score : α → κ) : Std.Asymm (ScoreLex score lt) where
  asymm a b := by
    rintro (hlt | ⟨heq, hlt⟩) (hgt | ⟨heq', hgt⟩)
    · exact absurd hgt hlt.asymm
    · exact absurd heq' hlt.ne'
    · exact absurd heq hgt.ne'
    · exact absurd hgt (Std.Asymm.asymm _ _ hlt)

variable {score : α → κ} {a : α} {l : List α} {n : ℕ}

theorem ScoreLex.score_le {b : α} (h : ScoreLex score lt a b) : score a ≤ score b :=
  h.elim le_of_lt fun h ↦ h.1.le

theorem pairwise_orderedInsert_lex (ha : ∀ b ∈ l, lt a b) (h : l.Pairwise (ScoreLex score lt)) :
    (l.orderedInsert (fun a b ↦ score a ≤ score b) a).Pairwise (ScoreLex score lt) := by
  induction l with
  | nil => exact pairwise_singleton _ a
  | cons b l ih =>
    rw [orderedInsert]
    rw [pairwise_cons] at h
    split_ifs with hab
    · refine pairwise_cons.2 ⟨fun x hx ↦ ?_, pairwise_cons.2 h⟩
      have hle : score a ≤ score x := by
        rcases mem_cons.1 hx with rfl | hx
        · exact hab
        · exact hab.trans (h.1 x hx).score_le
      exact hle.lt_or_eq.imp_right fun heq ↦ ⟨heq, ha x hx⟩
    · refine pairwise_cons.2 ⟨fun x hx ↦ ?_, ih (fun x hx ↦ ha x (mem_cons_of_mem b hx)) h.2⟩
      rcases (mem_orderedInsert _).1 hx with rfl | hx
      · exact Or.inl (not_le.1 hab)
      · exact h.1 x hx

theorem pairwise_insertionSort_lex (h : l.Pairwise lt) (score : α → κ) :
    (l.insertionSort fun a b ↦ score a ≤ score b).Pairwise (ScoreLex score lt) := by
  induction l with
  | nil => exact Pairwise.nil
  | cons a l ih =>
    rw [pairwise_cons] at h
    rw [insertionSort_cons]
    exact pairwise_orderedInsert_lex (fun b hb ↦ h.1 b ((mem_insertionSort _).1 hb)) (ih h.2)

/-! ### The entries of lowest score -/

/-- `l'` lists the `n` entries of `l` with the lowest scores, or all if there are fewer, in increasing
order. -/
structure Lowest (score : α → κ) (n : ℕ) (l l' : List α) : Prop where
  length_eq : l'.length = min n l.length
  increasing : l'.Pairwise fun a b ↦ score a < score b
  mem : ∀ a ∈ l', a ∈ l
  lowest : ∀ a ∈ l', ∀ b ∈ l, b ∉ l' → score a < score b

theorem pairwise_score_lt {l : List α} (hnodup : l.Nodup) {score : α → κ}
    (hscore : ∀ a ∈ l, ∀ b ∈ l, score a = score b → a = b) :
    (l.insertionSort fun a b ↦ score a ≤ score b).Pairwise fun a b ↦ score a < score b := by
  have hperm := perm_insertionSort (fun a b ↦ score a ≤ score b) l
  have hsorted := pairwise_insertionSort (fun a b ↦ score a ≤ score b) l
  refine (hsorted.and (hperm.nodup_iff.2 hnodup)).imp_of_mem fun {a b} ha hb h ↦ ?_
  exact lt_of_le_of_ne h.1 fun heq ↦ h.2 (hscore a (hperm.mem_iff.1 ha) b (hperm.mem_iff.1 hb) heq)

theorem score_lt_of_mem_take (h : l.Pairwise fun a b ↦ score a < score b) {b : α}
    (ha : a ∈ l.take n) (hb : b ∈ l.drop n) : score a < score b := by
  rw [← take_append_drop n l, pairwise_append] at h
  exact h.2.2 a ha b hb

theorem lowest_take_insertionSort (hnodup : l.Nodup)
    (hscore : ∀ a ∈ l, ∀ b ∈ l, score a = score b → a = b) (n : ℕ) :
    Lowest score n l ((l.insertionSort fun a b ↦ score a ≤ score b).take n) := by
  have hperm := perm_insertionSort (fun a b ↦ score a ≤ score b) l
  have hranked := pairwise_score_lt hnodup hscore
  refine ⟨?_, hranked.sublist (take_sublist n _), fun a ha ↦ ?_, fun a ha b hb hnot ↦ ?_⟩
  · rw [length_take, length_insertionSort]
  · exact hperm.mem_iff.1 (mem_of_mem_take ha)
  · have hb' := hperm.mem_iff.2 hb
    rw [← take_append_drop n (l.insertionSort _), mem_append] at hb'
    exact score_lt_of_mem_take hranked ha (hb'.resolve_left hnot)

/-- The entry after the first `n` of a ranking: the lowest of the rest. -/
theorem lowest_head_drop (h : l.Pairwise fun a b ↦ score a < score b) (hn : n < l.length) (d : α) :
    (l.drop n).headD d ∈ l ∧ (l.drop n).headD d ∉ l.take n ∧
      ∀ b ∈ l, b ∉ l.take n → b ≠ (l.drop n).headD d → score ((l.drop n).headD d) < score b := by
  have hdrop : (l.drop n).headD d ∈ l.drop n := by
    rw [drop_eq_getElem_cons hn]
    exact mem_cons_self
  refine ⟨mem_of_mem_drop hdrop, fun hmem ↦ ?_, fun b hb hnot hne ↦ ?_⟩
  · exact lt_irrefl _ (score_lt_of_mem_take h hmem hdrop)
  · rw [← take_append_drop n l, mem_append] at hb
    have hb' := hb.resolve_left hnot
    have hsub := h.sublist (drop_sublist n l)
    rw [drop_eq_getElem_cons hn] at hb' hne hsub ⊢
    exact (pairwise_cons.1 hsub).1 b ((mem_cons.1 hb').resolve_left hne)

theorem filter_insertionSort (hnodup : l.Nodup)
    (hscore : ∀ a ∈ l, ∀ b ∈ l, score a = score b → a = b) (p : α → Bool) :
    (l.insertionSort fun a b ↦ score a ≤ score b).filter p =
      (l.filter p).insertionSort fun a b ↦ score a ≤ score b := by
  have hsub {a : α} (ha : a ∈ l.filter p) : a ∈ l := mem_of_mem_filter ha
  refine Perm.eq_of_pairwise (fun a b _ _ (hab : score a < score b) hba ↦ absurd hba hab.asymm) ?_ ?_ ?_
  · exact (pairwise_score_lt hnodup hscore).filter p
  · exact pairwise_score_lt (hnodup.filter p) fun a ha b hb ↦ hscore a (hsub ha) b (hsub hb)
  · exact ((perm_insertionSort _ l).filter p).trans (perm_insertionSort _ _).symm

/-! ### Taking turns -/

/-- The entry whose turn is number `r`. -/
def turn (l : List α) (r : ℤ) : Option α := l[(r % l.length).toNat]?

theorem turn_eq_some_iff (hnodup : l.Nodup) {i : ℕ} (hi : i < l.length) (r : ℤ) :
    l.turn r = some l[i] ↔ r % l.length = i := by
  have hpos : (0 : ℤ) < l.length := by omega
  have hnonneg := Int.emod_nonneg r hpos.ne'
  have hlt : (r % l.length).toNat < l.length := by
    have := Int.emod_lt_of_pos r hpos
    omega
  rw [turn, getElem?_eq_getElem hlt, Option.some_inj, hnodup.getElem_inj_iff]
  omega

theorem turn_eq_some_getD (hne : l ≠ []) (r : ℤ) (d : α) :
    l.turn r = some (l.getD (r % l.length).toNat d) := by
  have hpos : (0 : ℤ) < l.length := by exact_mod_cast length_pos_of_ne_nil hne
  have hlt : (r % l.length).toNat < l.length := by
    have := Int.emod_lt_of_pos r hpos
    have := Int.emod_nonneg r hpos.ne'
    omega
  rw [turn, getD_eq_getElem?_getD, getElem?_eq_getElem hlt, Option.getD_some]

theorem toNat_sub_one_emod (hn : 0 < n) (r : ℤ) : ((r - 1) % n).toNat = ((r % n).toNat + n - 1) % n := by
  have hpos : (0 : ℤ) < n := by omega
  have hnonneg := Int.emod_nonneg r hpos.ne'
  have hnonneg' := Int.emod_nonneg (r - 1) hpos.ne'
  have hcast : (((r % n).toNat + n - 1 : ℕ) : ℤ) = r % n - 1 + n := by omega
  apply Int.ofNat.inj
  show (((r - 1) % n).toNat : ℤ) = (((r % n).toNat + n - 1 : ℕ) % n : ℕ)
  rw [Int.toNat_of_nonneg hnonneg', Int.natCast_emod, hcast, Int.add_emod_right, Int.emod_sub_emod]

/-- Of `n` numbers in a row exactly one has a given remainder. -/
theorem exists_emod_eq_iff {n i : ℤ} (hi : 0 ≤ i) (hin : i < n) (j : ℤ) :
    ∃ s, (j ≤ s ∧ s < j + n) ∧ ∀ r, j ≤ r → r < j + n → (r % n = i ↔ r = s) := by
  have hn : 0 < n := by omega
  have hlt := Int.emod_lt_of_pos (i - j) hn
  have hle := Int.emod_nonneg (i - j) hn.ne'
  have hs : (j + (i - j) % n) % n = i := by
    rw [Int.add_emod, Int.emod_emod, ← Int.add_emod, add_sub_cancel, Int.emod_eq_of_lt hi hin]
  refine ⟨j + (i - j) % n, ⟨by omega, by omega⟩, fun r hr hr' ↦ ⟨fun hmod ↦ ?_, ?_⟩⟩
  · have hdvd : n ∣ r - (j + (i - j) % n) := Int.ModEq.dvd (hs.trans hmod.symm)
    have hzero := Int.eq_zero_of_abs_lt_dvd hdvd (abs_lt.2 ⟨by omega, by omega⟩)
    omega
  · rintro rfl
    exact hs

/-- **Fair turns**: each entry has exactly one of any `l.length` turns in a row. -/
theorem exists_turn_eq_iff (hnodup : l.Nodup) (ha : a ∈ l) (j : ℤ) : ∃ s, (j ≤ s ∧ s < j + l.length) ∧
      ∀ r, j ≤ r → r < j + l.length → (l.turn r = some a ↔ r = s) := by
  obtain ⟨i, hi, rfl⟩ := mem_iff_getElem.1 ha
  obtain ⟨s, hs, hiff⟩ := exists_emod_eq_iff (Int.natCast_nonneg i) (Int.ofNat_lt.2 hi) j
  refine ⟨s, hs, fun r hr hr' ↦ ?_⟩
  rw [turn_eq_some_iff hnodup hi, hiff r hr hr']

end List
