import Mathlib.Data.List.Perm.Subperm

/-!
# Claiming entries of a list

A list of entries, each with a label and a mark that says whether it is used. A claim for a label
takes the first unused entry with this label. Which one is taken does not matter, as entries with one
label are alike: claims are met one after the other if the labels are, counted, among those that are
unused (`isSome_claimAll`).
-/

namespace List

variable {α : Type*}

def unused (cells : List (Bool × α)) : List α := (cells.filter fun cell ↦ !cell.1).map Prod.snd

@[simp]
theorem unused_cons_true (a : α) (cells : List (Bool × α)) :
    unused ((true, a) :: cells) = unused cells := rfl

@[simp]
theorem unused_cons_false (a : α) (cells : List (Bool × α)) :
    unused ((false, a) :: cells) = a :: unused cells := rfl

theorem unused_append (cells cells' : List (Bool × α)) :
    unused (cells ++ cells') = unused cells ++ unused cells' := by
  simp [unused]

@[simp]
theorem unused_map_false (as : List α) : unused (as.map (false, ·)) = as := by
  induction as with
  | nil => rfl
  | cons a as ih => rw [map_cons, unused_cons_false, ih]

theorem unused_map {β : Type*} (f : α → β) (cells : List (Bool × α)) :
    unused (cells.map fun cell ↦ (cell.1, f cell.2)) = (unused cells).map f := by
  induction cells with
  | nil => rfl
  | cons cell cells ih =>
    obtain ⟨used, a⟩ := cell
    cases used <;> simp [ih]

@[simp]
theorem unused_map_true (as : List α) : unused (as.map (true, ·)) = [] := by
  induction as with
  | nil => rfl
  | cons a as ih => rw [map_cons, unused_cons_true, ih]

theorem suffix_dropWhile {p : α → Bool} {a : α} (ha : p a = false) (as bs : List α) :
    a :: bs <:+ (as ++ a :: bs).dropWhile p := by
  rw [dropWhile_append]
  split_ifs
  · have hdrop : (a :: bs).dropWhile p = a :: bs := dropWhile_cons_of_neg (by simp [ha])
    exact hdrop.symm ▸ suffix_rfl
  · exact suffix_append _ _

variable [DecidableEq α]

/-- The first unused entry with the label is marked as used. -/
def claim (a : α) : List (Bool × α) → Option (List (Bool × α))
  | [] => none
  | (used, b) :: cells =>
    if used = false ∧ b = a then some ((true, b) :: cells) else (claim a cells).map ((used, b) :: ·)

def claimAll (as : List α) (cells : List (Bool × α)) : Option (List (Bool × α)) :=
  as.foldlM (fun cells a ↦ claim a cells) cells

variable {cells : List (Bool × α)}

theorem exists_claim {a : α} (h : a ∈ unused cells) :
    ∃ cells', claim a cells = some cells' ∧ unused cells' = (unused cells).erase a := by
  induction cells with
  | nil => cases h
  | cons cell cells ih =>
    obtain ⟨used, b⟩ := cell
    cases used with
    | true =>
      obtain ⟨cells', hclaim, hunused⟩ := ih h
      exact ⟨(true, b) :: cells', by simp [claim, hclaim], hunused⟩
    | false =>
      by_cases hb : b = a
      · exact ⟨(true, b) :: cells, by simp [claim, hb], by simp [hb]⟩
      · have hmem : a ∈ unused cells := (mem_cons.1 h).resolve_left (Ne.symm hb)
        obtain ⟨cells', hclaim, hunused⟩ := ih hmem
        refine ⟨(false, b) :: cells', by simp [claim, hb, hclaim], ?_⟩
        rw [unused_cons_false, unused_cons_false, hunused, erase_cons_tail (by simpa using hb)]

/-- **Greedy claims are met** whenever the labels are among the unused ones. -/
theorem isSome_claimAll {as : List α} (h : as <+~ unused cells) : (claimAll as cells).isSome := by
  induction as generalizing cells with
  | nil => rfl
  | cons a as ih =>
    obtain ⟨cells', hclaim, hunused⟩ := exists_claim (h.subset mem_cons_self)
    have hrest : as <+~ unused cells' := by
      rw [hunused, ← erase_cons_head a as]
      exact h.erase a
    rw [claimAll, foldlM_cons, hclaim]
    exact ih hrest

end List
