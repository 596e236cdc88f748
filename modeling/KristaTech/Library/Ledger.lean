import Mathlib.Data.List.Nodup
import Mathlib.Data.List.Forall2
import Mathlib.Logic.Function.Basic
import Mathlib.Algebra.BigOperators.Group.List.Basic
import Mathlib.Algebra.Order.BigOperators.Group.List
import Mathlib.Algebra.Order.Ring.Int

/-!
# Ledgers

A ledger says which keys are taken, and by what. It changes by spending keys that are taken and by
creating keys that are free. Each undoes the other: what was created is spent, in the same order
(`Creates.spends`), and what was spent is created, last one first (`Spends.creates`).

The weight of a ledger is the sum over its entries of what each is worth. Spending and creating
change it by what is spent and created (`Weighs.spends`, `Weighs.creates`).
-/

abbrev Ledger (K V : Type*) := K → Option V

namespace Ledger

open List

variable {K V : Type*} [DecidableEq K]

def empty : Ledger K V := fun _ ↦ none

def erase (L : Ledger K V) (k : K) : Ledger K V := Function.update L k none

def put (L : Ledger K V) (k : K) (v : V) : Ledger K V := Function.update L k (some v)

/-- The keys are taken when their turn comes, and free afterwards. -/
inductive Spends : Ledger K V → List K → List V → Ledger K V → Prop
  | nil {L} : Spends L [] [] L
  | cons {L k v ks vs L'} : L k = some v → Spends (L.erase k) ks vs L' → Spends L (k :: ks) (v :: vs) L'

/-- The keys are free when their turn comes, and taken afterwards. -/
inductive Creates : Ledger K V → List (K × V) → Ledger K V → Prop
  | nil {L} : Creates L [] L
  | cons {L k v kvs L'} : L k = none → Creates (L.put k v) kvs L' → Creates L ((k, v) :: kvs) L'

variable {L L' L'' : Ledger K V} {k k' : K} {v v' : V} {ks : List K} {vs : List V} {kvs : List (K × V)}

@[simp]
theorem erase_self : L.erase k k = none := Function.update_self ..

theorem erase_of_ne (h : k' ≠ k) : L.erase k k' = L k' := Function.update_of_ne h ..

@[simp]
theorem put_self : L.put k v k = some v := Function.update_self ..

theorem put_of_ne (h : k' ≠ k) : L.put k v k' = L k' := Function.update_of_ne h ..

theorem erase_of_none (h : L k = none) : L.erase k = L := Function.update_eq_self_iff.2 h.symm

theorem put_of_some (h : L k = some v) : L.put k v = L := Function.update_eq_self_iff.2 h.symm

@[simp]
theorem erase_put : (L.put k v).erase k = L.erase k := Function.update_idem ..

@[simp]
theorem put_erase : (L.erase k).put k v = L.put k v := Function.update_idem ..

theorem put_comm (h : k ≠ k') : (L.put k v).put k' v' = (L.put k' v').put k v :=
  Function.update_comm h ..

/-! ### What is done to a key -/

theorem Spends.eq_of_notMem (h : Spends L ks vs L') (hk : k ∉ ks) : L' k = L k := by
  induction h with
  | nil => rfl
  | cons _ _ ih =>
    rw [mem_cons, not_or] at hk
    rw [ih hk.2, erase_of_ne hk.1]

theorem Creates.eq_of_notMem (h : Creates L kvs L') (hk : k ∉ kvs.map Prod.fst) : L' k = L k := by
  induction h with
  | nil => rfl
  | cons _ _ ih =>
    rw [map_cons, mem_cons, not_or] at hk
    rw [ih hk.2, put_of_ne hk.1]

theorem Creates.eq_put (h : Creates L [(k, v)] L') : L' = L.put k v := by
  cases h with
  | cons _ hnil =>
    cases hnil
    rfl

theorem Creates.notMem_of_some (h : Creates L kvs L') (hk : L k = some v) : k ∉ kvs.map Prod.fst := by
  induction h with
  | nil => exact not_mem_nil
  | @cons L k₀ v₀ kvs L' hfree _ ih =>
    have hne : k ≠ k₀ := by
      rintro rfl
      rw [hfree] at hk
      cases hk
    rw [map_cons, mem_cons, not_or]
    exact ⟨hne, ih (by rwa [put_of_ne hne])⟩

theorem Creates.some_of_some (h : Creates L kvs L') (hk : L k = some v) : L' k = some v :=
  (h.eq_of_notMem (h.notMem_of_some hk)).trans hk

/-- The keys that are spent were taken, all at once. -/
theorem Spends.forall₂ (h : Spends L ks vs L') : List.Forall₂ (fun k v ↦ L k = some v) ks vs := by
  induction h with
  | nil => exact .nil
  | @cons L k v ks vs L' hk _ ih =>
    refine .cons hk (ih.imp fun k' v' hk' ↦ ?_)
    have hne : k' ≠ k := by
      rintro rfl
      rw [erase_self] at hk'
      cases hk'
    rwa [erase_of_ne hne] at hk'

theorem Spends.exists_key (h : Spends L ks vs L') (hv : v ∈ vs) : ∃ k ∈ ks, L k = some v := by
  obtain ⟨n, hn, rfl⟩ := getElem_of_mem hv
  obtain ⟨hlen, hget⟩ := List.forall₂_iff_get.1 h.forall₂
  exact ⟨ks[n], getElem_mem _, hget n (hlen ▸ hn) hn⟩

theorem Spends.exists_value (h : Spends L ks vs L') (hk : k ∈ ks) : ∃ v, L k = some v := by
  obtain ⟨n, hn, rfl⟩ := getElem_of_mem hk
  obtain ⟨hlen, hget⟩ := List.forall₂_iff_get.1 h.forall₂
  exact ⟨_, hget n hn (hlen ▸ hn)⟩

theorem Spends.length_eq (h : Spends L ks vs L') : ks.length = vs.length := h.forall₂.length_eq

theorem Creates.erase (h : Creates (L.put k v) kvs L') (hk : L k = none) : Creates L kvs (L'.erase k) := by
  induction kvs generalizing L with
  | nil =>
    cases h
    rw [erase_put, erase_of_none hk]
    exact .nil
  | cons kv kvs ih =>
    cases h with
    | @cons _ k' v' _ _ hfree hcreates =>
      have hne : k' ≠ k := by
        rintro rfl
        rw [put_self] at hfree
        cases hfree
      rw [put_of_ne hne] at hfree
      rw [put_comm hne.symm] at hcreates
      exact .cons hfree (ih hcreates (by rwa [put_of_ne hne.symm]))

/-- **Creating is undone by spending**, in the same order. -/
theorem Creates.spends (h : Creates L kvs L') : Spends L' (kvs.map Prod.fst) (kvs.map Prod.snd) L := by
  induction kvs generalizing L L' with
  | nil =>
    cases h
    exact .nil
  | cons kv kvs ih =>
    cases h with
    | cons hfree hcreates =>
      exact .cons (hcreates.some_of_some put_self) (ih (hcreates.erase hfree))

theorem Creates.append {kvs' : List (K × V)} (h : Creates L kvs L') (h' : Creates L' kvs' L'') :
    Creates L (kvs ++ kvs') L'' := by
  induction h with
  | nil => exact h'
  | cons hfree _ ih => exact .cons hfree (ih h')

/-- **Spending is undone by creating**, last one first. -/
theorem Spends.creates (h : Spends L ks vs L') : Creates L' (ks.zip vs).reverse L := by
  induction h with
  | nil => exact .nil
  | @cons L k v ks vs L' hk _ ih =>
    have hback : Creates (L.erase k) [(k, v)] L := by
      refine .cons erase_self ?_
      rw [put_erase, put_of_some hk]
      exact .nil
    rw [zip_cons_cons, reverse_cons]
    exact ih.append hback

/-! ### Where an entry comes from -/

theorem Spends.of_some (h : Spends L ks vs L') (hk : L' k = some v) : L k = some v := by
  induction h with
  | nil => exact hk
  | @cons L k₀ v₀ ks vs L' _ _ ih =>
    have hk' := ih hk
    by_cases hne : k = k₀
    · rw [hne, erase_self] at hk'
      cases hk'
    · rwa [erase_of_ne hne] at hk'

theorem Spends.none_of_none (h : Spends L ks vs L') (hk : L k = none) : L' k = none := by
  rw [Option.eq_none_iff_forall_ne_some] at hk ⊢
  exact fun v hv ↦ hk v (h.of_some hv)

theorem Spends.none_of_mem (h : Spends L ks vs L') (hk : k ∈ ks) : L' k = none := by
  induction h with
  | nil => cases hk
  | cons _ hrest ih =>
    rcases mem_cons.1 hk with rfl | hk
    · exact hrest.none_of_none erase_self
    · exact ih hk

theorem Creates.of_some (h : Creates L kvs L') (hk : L' k = some v) : L k = some v ∨ (k, v) ∈ kvs := by
  induction h with
  | nil => exact Or.inl hk
  | @cons L k₀ v₀ kvs L' _ _ ih =>
    rcases ih hk with hk' | hmem
    · by_cases hne : k = k₀
      · rw [hne, put_self, Option.some.injEq] at hk'
        exact Or.inr (by rw [hne, hk']; exact mem_cons_self)
      · exact Or.inl (by rwa [put_of_ne hne] at hk')
    · exact Or.inr (mem_cons_of_mem _ hmem)

/-! ### Weights -/

/-- The list has every entry of the ledger once. -/
structure Enumerates (l : List (K × V)) (L : Ledger K V) : Prop where
  nodup : (l.map Prod.fst).Nodup
  mem_iff : ∀ k v, (k, v) ∈ l ↔ L k = some v

/-- The entries of the ledger are worth `n` together. -/
def Weighs (w : V → ℤ) (L : Ledger K V) (n : ℤ) : Prop :=
  ∃ l, Enumerates l L ∧ (l.map fun kv ↦ w kv.2).sum = n

section Weights

variable {w : V → ℤ} {n n' : ℤ} {l l' : List (K × V)}

omit [DecidableEq K] in
theorem Enumerates.perm (h : Enumerates l L) (h' : Enumerates l' L) : l.Perm l' := by
  rw [perm_ext_iff_of_nodup h.nodup.of_map h'.nodup.of_map]
  rintro ⟨k, v⟩
  rw [h.mem_iff, h'.mem_iff]

theorem Enumerates.put (h : Enumerates l L) (hk : L k = none) : Enumerates ((k, v) :: l) (L.put k v) where
  nodup := by
    rw [map_cons, nodup_cons]
    refine ⟨fun hmem ↦ ?_, h.nodup⟩
    obtain ⟨⟨k', v'⟩, hkv, rfl⟩ := mem_map.1 hmem
    rw [h.mem_iff, hk] at hkv
    cases hkv
  mem_iff k' v' := by
    rw [mem_cons, Prod.mk.injEq, h.mem_iff]
    by_cases hne : k' = k
    · subst hne
      simp [hk, eq_comm]
    · simp [put_of_ne hne, hne]

theorem Enumerates.erase (h : Enumerates l L) (hk : L k = some v) :
    ∃ l', l.Perm ((k, v) :: l') ∧ Enumerates l' (L.erase k) := by
  obtain ⟨l₁, l₂, rfl⟩ := append_of_mem ((h.mem_iff k v).2 hk)
  have hperm : (l₁ ++ (k, v) :: l₂).Perm ((k, v) :: (l₁ ++ l₂)) := perm_middle
  have hnodup := (hperm.map Prod.fst).nodup_iff.1 h.nodup
  rw [map_cons, nodup_cons] at hnodup
  refine ⟨l₁ ++ l₂, hperm, hnodup.2, fun k' v' ↦ ?_⟩
  have hmem := (hperm.mem_iff (a := (k', v'))).symm.trans (h.mem_iff k' v')
  rw [mem_cons, Prod.mk.injEq] at hmem
  by_cases hne : k' = k
  · subst hne
    exact iff_of_false (fun hin ↦ hnodup.1 (mem_map.2 ⟨_, hin, rfl⟩)) (by simp)
  · rw [erase_of_ne hne, ← hmem]
    simp [hne]

omit [DecidableEq K] in
theorem Weighs.unique (h : Weighs w L n) (h' : Weighs w L n') : n = n' := by
  obtain ⟨l, hl, rfl⟩ := h
  obtain ⟨l', hl', rfl⟩ := h'
  exact ((hl.perm hl').map _).sum_eq

omit [DecidableEq K] in
theorem weighs_empty (w : V → ℤ) : Weighs w (empty : Ledger K V) 0 :=
  ⟨[], ⟨nodup_nil, fun _ _ ↦ by simp [empty]⟩, rfl⟩

omit [DecidableEq K] in
theorem Weighs.nonneg (h : Weighs w L n) (hw : ∀ k v, L k = some v → 0 ≤ w v) : 0 ≤ n := by
  obtain ⟨l, hl, rfl⟩ := h
  refine sum_nonneg fun x hx ↦ ?_
  obtain ⟨⟨k, v⟩, hkv, rfl⟩ := mem_map.1 hx
  exact hw k v ((hl.mem_iff k v).1 hkv)

theorem Weighs.put (h : Weighs w L n) (hk : L k = none) : Weighs w (L.put k v) (n + w v) := by
  obtain ⟨l, hl, rfl⟩ := h
  exact ⟨_, hl.put hk, by rw [map_cons, sum_cons, add_comm]⟩

theorem Weighs.erase (h : Weighs w L n) (hk : L k = some v) : Weighs w (L.erase k) (n - w v) := by
  obtain ⟨l, hl, rfl⟩ := h
  obtain ⟨l', hperm, hl'⟩ := hl.erase hk
  refine ⟨l', hl', ?_⟩
  rw [(hperm.map _).sum_eq, map_cons, sum_cons, add_sub_cancel_left]

theorem Weighs.spends (h : Weighs w L n) (hs : Spends L ks vs L') : Weighs w L' (n - (vs.map w).sum) := by
  induction hs generalizing n with
  | nil => simpa using h
  | cons hk _ ih =>
    rw [map_cons, sum_cons, ← sub_sub]
    exact ih (h.erase hk)

theorem Weighs.creates (h : Weighs w L n) (hc : Creates L kvs L') :
    Weighs w L' (n + (kvs.map fun kv ↦ w kv.2).sum) := by
  induction hc generalizing n with
  | nil => simpa using h
  | cons hk _ ih =>
    rw [map_cons, sum_cons, ← add_assoc]
    exact ih (h.put hk)

theorem Spends.weighs_iff (hs : Spends L ks vs L') : Weighs w L n ↔ Weighs w L' (n - (vs.map w).sum) := by
  refine ⟨fun h ↦ h.spends hs, fun h ↦ ?_⟩
  have hvalues : ((ks.zip vs).reverse.map fun kv ↦ w kv.2) = (vs.map w).reverse := by
    have hsnd : (ks.zip vs).map Prod.snd = vs := map_snd_zip (Nat.le_of_eq hs.length_eq.symm)
    rw [map_reverse, ← hsnd, map_map, hsnd]
    rfl
  have hback := h.creates hs.creates
  rwa [hvalues, sum_reverse, sub_add_cancel] at hback

theorem Creates.weighs_iff (hc : Creates L kvs L') :
    Weighs w L n ↔ Weighs w L' (n + (kvs.map fun kv ↦ w kv.2).sum) := by
  refine ⟨fun h ↦ h.creates hc, fun h ↦ ?_⟩
  have hback := h.spends hc.spends
  rw [map_map] at hback
  exact add_sub_cancel_right n (kvs.map fun kv ↦ w kv.2).sum ▸ hback

end Weights

end Ledger
