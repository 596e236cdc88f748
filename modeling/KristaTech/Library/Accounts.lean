import Mathlib.Data.List.Basic
import Mathlib.Algebra.BigOperators.Group.List.Basic
import Mathlib.Algebra.Order.BigOperators.Group.List

/-!
# Accounts

Entries are booked under keys, one after the other. The account of a key is what was booked under it,
in order (`account`). Two books say the same exactly when all their accounts agree, so a book may be
kept in any way that keeps the accounts: sums over accounts are then the same, and an entry that is
left out is missed exactly when it weighs something (`sum_filter_eq_iff`).
-/

namespace List

variable {κ α : Type*} [DecidableEq κ]

def account (l : List (κ × α)) (k : κ) : List α :=
  l.filterMap fun e ↦ if e.1 = k then some e.2 else none

variable {l l' : List (κ × α)} {k : κ} {a : α}

@[simp]
theorem account_nil : account ([] : List (κ × α)) k = [] := rfl

theorem account_append : account (l ++ l') k = account l k ++ account l' k := filterMap_append

theorem account_cons (e : κ × α) : account (e :: l) k = account [e] k ++ account l k :=
  account_append (l := [e])

theorem account_singleton (e : κ × α) : account [e] k = if e.1 = k then [e.2] else [] := by
  rw [account]
  split_ifs with h <;> simp [h]

@[simp]
theorem mem_account : a ∈ account l k ↔ (k, a) ∈ l := by
  simp only [account, mem_filterMap, Option.ite_none_right_eq_some, Option.some.injEq]
  constructor
  · rintro ⟨⟨k', a'⟩, hmem, rfl, rfl⟩
    exact hmem
  · exact fun h ↦ ⟨(k, a), h, rfl, rfl⟩

theorem account_filter (p : α → Prop) [DecidablePred p] :
    account (l.filter fun e ↦ p e.2) k = (account l k).filter fun a ↦ p a := by
  induction l with
  | nil => rfl
  | cons e l ih =>
    rw [account_cons e, filter_append, ← ih, account_singleton, filter_cons]
    by_cases hp : p e.2
    · rw [decide_eq_true hp, if_pos rfl, account_cons e, account_singleton]
      split_ifs <;> simp [hp]
    · rw [decide_eq_false hp, if_neg Bool.false_ne_true]
      split_ifs <;> simp [hp]

theorem filter_account_append [DecidableEq α] (h : ∀ e ∈ l, e ∉ l') :
    (account (l ++ l') k).filter (fun a ↦ (k, a) ∉ l') = account l k := by
  have hkept : (account l k).filter (fun a ↦ (k, a) ∉ l') = account l k :=
    filter_eq_self.2 fun a ha ↦ by simpa using h (k, a) (mem_account.1 ha)
  have hstruck : (account l' k).filter (fun a ↦ (k, a) ∉ l') = [] :=
    filter_eq_nil_iff.2 fun a ha ↦ by simpa using mem_account.1 ha
  rw [account_append, filter_append, hkept, hstruck, append_nil]

/-! ### Entries in the order of time -/

/-- Entries in the order of time are those before `n` and then the others. -/
theorem filter_lt_append_filter_le_of_sorted {l : List α} {time : α → ℤ}
    (h : l.Pairwise fun a b ↦ time a ≤ time b) (n : ℤ) :
    l.filter (fun a ↦ time a < n) ++ l.filter (fun a ↦ n ≤ time a) = l := by
  induction l with
  | nil => rfl
  | cons a l ih =>
    rw [pairwise_cons] at h
    by_cases ha : time a < n
    · rw [filter_cons_of_pos (by simpa using ha), filter_cons_of_neg (by simpa using ha), cons_append,
        ih h.2]
    · -- nothing from here on is before `n`
      have hlate : ∀ b ∈ a :: l, n ≤ time b := fun b hb ↦ by
        rcases mem_cons.1 hb with rfl | hb
        · exact not_lt.1 ha
        · exact (not_lt.1 ha).trans (h.1 b hb)
      rw [filter_eq_nil_iff.2 fun b hb ↦ by simpa using hlate b hb, nil_append]
      exact filter_eq_self.2 fun b hb ↦ by simpa using hlate b hb

/-- Of entries in the order of time, those from `m` to `n` and those after `n` are those from `m` on, or
from the time after `n` if that is earlier. -/
theorem filter_append_filter_of_sorted {l : List α} {time : α → ℤ}
    (h : l.Pairwise fun a b ↦ time a ≤ time b) (m n : ℤ) :
    l.filter (fun a ↦ m ≤ time a ∧ time a ≤ n) ++ l.filter (fun a ↦ n + 1 ≤ time a) =
      l.filter fun a ↦ min m (n + 1) ≤ time a := by
  conv_rhs => rw [← filter_lt_append_filter_le_of_sorted h (n + 1)]
  rw [filter_append, filter_filter, filter_filter]
  congr 1
  · refine filter_congr fun a _ ↦ ?_
    rw [← Bool.decide_and, decide_eq_decide]
    omega
  · refine filter_congr fun a _ ↦ ?_
    rw [← Bool.decide_and, decide_eq_decide]
    omega

/-! ### Sums -/

section Sums

variable {M : Type*} [AddCommGroup M] [PartialOrder M] [IsOrderedAddMonoid M]

/-- **What is left out is missed exactly when it weighs something.** -/
theorem sum_filter_eq_iff {f : α → M} {p : α → Prop} [DecidablePred p] {l : List α}
    (hf : ∀ a ∈ l, 0 ≤ f a) :
    ((l.filter fun a ↦ p a).map f).sum = (l.map f).sum ↔ ∀ a ∈ l, ¬p a → f a = 0 := by
  rw [← sum_map_filter_add_sum_map_filter_not p f l, left_eq_add]
  have hpos : ∀ x ∈ (l.filter fun a ↦ ¬p a).map f, 0 ≤ x := by
    intro x hx
    obtain ⟨a, ha, rfl⟩ := mem_map.1 hx
    exact hf a (mem_filter.1 ha).1
  constructor
  · intro hsum a ha hpa
    exact all_zero_of_le_zero_le_of_sum_eq_zero hpos hsum
      (mem_map_of_mem (mem_filter.2 ⟨ha, by simp [hpa]⟩))
  · intro hzero
    refine sum_eq_zero fun x hx ↦ ?_
    obtain ⟨a, ha, rfl⟩ := mem_map.1 hx
    exact hzero a (mem_filter.1 ha).1 (by simpa using (mem_filter.1 ha).2)

end Sums

end List
