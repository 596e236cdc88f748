import Mathlib.Data.Int.Basic
import Mathlib.Data.List.Basic
import Mathlib.Data.List.Sort

/-!
# Ordered types read through an injective key

The ordered maps of the Lean library ask of a key type a comparison that is transitive
(`Std.TransOrd`) and whose `.eq` is equality (`Std.LawfulEqOrd`). A record usually has neither by
itself, but is determined by the tuple of its fields, and it is the tuple that a program compares.
A comparison *through* an injective key inherits both laws.

A sort by such a comparison is a sort by an order: its result does not depend on the order of the
list (`insertionSort_eq_of_perm`), and pairs that are sorted by both components have their first ones
sorted (`map_fst_insertionSort`).
-/

namespace KeyOrder

open List

variable {α κ : Type*} [Ord κ]

@[reducible] def ord (key : α → κ) : Ord α := ⟨fun a b ↦ compare (key a) (key b)⟩

theorem transOrd [Std.TransOrd κ] (key : α → κ) : @Std.TransOrd α (ord key) :=
  letI := ord key
  { eq_swap := fun {a b} ↦ Std.OrientedOrd.eq_swap (a := key a) (b := key b)
    isLE_trans := fun {a b c} ↦ Std.TransOrd.isLE_trans (a := key a) (b := key b) (c := key c) }

theorem lawfulEqOrd [Std.LawfulEqOrd κ] {key : α → κ} (hkey : Function.Injective key) :
    @Std.LawfulEqOrd α (ord key) :=
  letI := ord key
  { compare_self := fun {a} ↦ Std.ReflOrd.compare_self (a := key a)
    eq_of_compare := fun h ↦ hkey (Std.LawfulEqOrd.eq_of_compare h) }

section Sorting

variable {α β : Type*} (cmp : α → α → Ordering)

theorem total_isLE [Std.OrientedCmp cmp] : Std.Total fun a b ↦ (cmp a b).isLE = true where
  total a b := by
    have hswap : cmp b a = (cmp a b).swap := Std.OrientedCmp.eq_swap
    rw [hswap, Ordering.isLE_swap]
    cases cmp a b <;> simp

theorem isTrans_isLE [Std.TransCmp cmp] : IsTrans α fun a b ↦ (cmp a b).isLE = true :=
  ⟨fun _ _ _ ↦ Std.TransCmp.isLE_trans⟩

theorem antisymm_isLE [Std.OrientedCmp cmp] [Std.LawfulEqCmp cmp] :
    Std.Antisymm fun a b ↦ (cmp a b).isLE = true :=
  ⟨fun _ _ hab hba ↦ Std.LawfulEqCmp.eq_of_compare (Std.OrientedCmp.isLE_antisymm hab hba)⟩

theorem insertionSort_eq_of_perm {r : α → α → Prop} [DecidableRel r] [Std.Total r] [IsTrans α r]
    [Std.Antisymm r] {l l' : List α} (h : l.Perm l') : l.insertionSort r = l'.insertionSort r := by
  refine List.Perm.eq_of_pairwise' (pairwise_insertionSort r l) (pairwise_insertionSort r l') ?_
  exact (perm_insertionSort r l).trans (h.trans (perm_insertionSort r l').symm)

variable [Ord α] [Std.TransOrd α] [Std.LawfulEqOrd α] [Ord β] [Std.TransOrd β]

theorem map_fst_insertionSort (l : List (α × β)) :
    (l.insertionSort fun a b ↦ ((compare a.1 b.1).then (compare a.2 b.2)).isLE).map Prod.fst =
      (l.map Prod.fst).insertionSort fun a b ↦ (compare a b).isLE := by
  have hpair : Std.TransCmp fun a b : α × β ↦ (compare a.1 b.1).then (compare a.2 b.2) :=
    inferInstanceAs (Std.TransCmp (compareLex (compareOn Prod.fst) (compareOn Prod.snd)))
  have := total_isLE fun a b : α × β ↦ (compare a.1 b.1).then (compare a.2 b.2)
  have := isTrans_isLE fun a b : α × β ↦ (compare a.1 b.1).then (compare a.2 b.2)
  have := total_isLE fun a b : α ↦ compare a b
  have := isTrans_isLE fun a b : α ↦ compare a b
  have := antisymm_isLE fun a b : α ↦ compare a b
  refine List.Perm.eq_of_pairwise' (r := fun a b : α ↦ (compare a b).isLE = true) ?_
    (pairwise_insertionSort _ _) ?_
  · refine pairwise_map.2 ((pairwise_insertionSort _ l).imp fun {a b} h ↦ ?_)
    cases hfst : compare a.1 b.1 <;> simp_all
  · exact ((perm_insertionSort _ l).map Prod.fst).trans (perm_insertionSort _ _).symm

end Sorting

end KeyOrder
