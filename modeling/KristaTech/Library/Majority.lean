import Mathlib.Data.List.Nodup
import Mathlib.Data.List.Perm.Subperm

/-!
# Majorities meet

The counting argument behind every quorum protocol, for lists without repetitions: two voter lists
drawn from one electorate, together longer than it, have a common voter. Nothing is asked of the
electorate itself, which may list someone twice.
-/

namespace List

variable {α : Type*} {electorate voters voters' : List α}

/-- **Majorities meet.** -/
theorem exists_mem_of_length_lt_add (hn : voters.Nodup) (hn' : voters'.Nodup)
    (hsub : voters ⊆ electorate) (hsub' : voters' ⊆ electorate)
    (hlt : electorate.length < voters.length + voters'.length) :
    ∃ a, a ∈ voters ∧ a ∈ voters' := by
  by_contra hdisj
  have hnodup : (voters ++ voters').Nodup :=
    hn.append hn' fun a ha ha' ↦ hdisj ⟨a, ha, ha'⟩
  have hle := (hnodup.subperm (append_subset.mpr ⟨hsub, hsub'⟩)).length_le
  rw [length_append] at hle
  omega

end List
