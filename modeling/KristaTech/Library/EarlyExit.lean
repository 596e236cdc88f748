import Mathlib.Data.List.Basic

/-!
# Loops

A loop whose body may return from the function is a monadic fold over `Option` or `Except`. The
rules here are the ones such a loop is reasoned about with: what a finished loop says of its parts,
and the invariant rule, in which the invariant may mention the part of the list already consumed.
A loop that stops at its first success and passes a state on is `List.tryEach`; a loop whose turns
each touch one key of the state is dealt with key by key (`List.foldl_local`).
-/

universe u v

theorem guard_eq_some_iff {p : Prop} [Decidable p] {x : Unit} : (guard p : Option Unit) = some x ↔ p := by
  by_cases h : p <;> simp [guard, h]

namespace Except

variable {ε α β : Type u} {x : Except ε α} {f : α → Except ε β} {a : α} {b : β} {e : ε}

@[simp]
theorem pure_eq_ok : (pure a : Except ε α) = .ok a := rfl

@[simp]
theorem ok_bind : (Except.ok a >>= f : Except ε β) = f a := rfl

@[simp]
theorem error_bind : (Except.error e >>= f : Except ε β) = .error e := rfl

theorem bind_eq_ok_iff : (x >>= f) = .ok b ↔ ∃ a, x = .ok a ∧ f a = .ok b := by
  cases x <;> simp

theorem mapError_eq_ok_iff {ε' : Type u} {g : ε → ε'} : x.mapError g = .ok a ↔ x = .ok a := by
  cases x <;> simp [Except.mapError]

def failure? : Except ε α → Option ε
  | .error e => some e
  | .ok _ => none

theorem failure?_eq_some_iff : x.failure? = some e ↔ x = .error e := by
  cases x <;> simp [failure?]

def okOr (x : Except ε α) (d : α) : α :=
  match x with
  | .ok a => a
  | .error _ => d

theorem eq_ok_okOr (h : x.failure? = none) (d : α) : x = .ok (x.okOr d) := by
  cases x with
  | error e => simp [failure?] at h
  | ok a => rfl

theorem eq_ok_unit {ε : Type} {x : Except ε Unit} (h : x.failure? = none) : x = .ok () :=
  eq_ok_okOr h ()

end Except

namespace List

variable {α : Type u} {β : Type v} {f : β → α → Option β} {l : List α} {b b' : β}

/-- **The loop rule.** An invariant of the list consumed so far and the accumulator, kept by every
turn that does not leave the loop, holds of the whole list when the loop is finished. -/
theorem foldlM_option_invariant {motive : List α → β → Prop} (hinit : motive [] b)
    (hstep : ∀ pre a b b', pre ++ [a] <+: l → motive pre b → f b a = some b' → motive (pre ++ [a]) b')
    (h : l.foldlM f b = some b') : motive l b' := by
  suffices key : ∀ (rest pre : List α) (b : β), pre ++ rest = l → motive pre b →
      rest.foldlM f b = some b' → motive l b' from key l [] b rfl hinit h
  intro rest
  induction rest with
  | nil =>
    intro pre b hl hm hb
    simp only [foldlM_nil, Option.pure_def, Option.some.injEq] at hb
    rw [append_nil] at hl
    exact hb ▸ hl ▸ hm
  | cons a rest ih =>
    intro pre b hl hm hb
    simp only [foldlM_cons, Option.bind_eq_bind, Option.bind_eq_some_iff] at hb
    obtain ⟨b₁, hb₁, hrest⟩ := hb
    have hl' : pre ++ [a] ++ rest = l := by rw [append_assoc]; exact hl
    exact ih (pre ++ [a]) b₁ hl' (hstep pre a b b₁ ⟨rest, hl'⟩ hm hb₁) hrest

variable {ε : Type u} {σ : Type*}

theorem exists_of_mapM_eq_ok {β : Type u} {f : α → Except ε β} {l : List α} {bs : List β}
    (h : l.mapM f = .ok bs) {a : α} (ha : a ∈ l) : ∃ b ∈ bs, f a = .ok b := by
  induction l generalizing bs with
  | nil => simp at ha
  | cons a₀ l ih =>
    simp only [mapM_cons, Except.bind_eq_ok_iff, Except.pure_eq_ok, Except.ok.injEq] at h
    obtain ⟨b₀, hb₀, bs, hbs, rfl⟩ := h
    rcases mem_cons.mp ha with rfl | ha
    · exact ⟨b₀, mem_cons_self, hb₀⟩
    · obtain ⟨b, hb, hab⟩ := ih hbs ha
      exact ⟨b, mem_cons_of_mem b₀ hb, hab⟩

theorem forall_mem_of_mapM_eq_ok {β : Type u} {P : β → Prop} {f : α → Except ε β} {l : List α}
    {bs : List β} (h : l.mapM f = .ok bs) (hP : ∀ a b, f a = .ok b → P b) : ∀ b ∈ bs, P b := by
  induction l generalizing bs with
  | nil =>
    obtain rfl := Except.ok.inj h
    exact fun _ hb ↦ absurd hb not_mem_nil
  | cons a l ih =>
    simp only [mapM_cons, Except.bind_eq_ok_iff, Except.pure_eq_ok, Except.ok.injEq] at h
    obtain ⟨b, hb, bs, hbs, rfl⟩ := h
    exact forall_mem_cons.2 ⟨hP a b hb, ih hbs⟩

theorem forM_eq_ok {ε : Type} {f : α → Except ε Unit} {l : List α} (h : ∀ a ∈ l, f a = .ok ()) :
    l.forM f = .ok () := by
  induction l with
  | nil => rfl
  | cons a l ih =>
    rw [forall_mem_cons] at h
    exact Except.bind_eq_ok_iff.2 ⟨(), h.1, ih h.2⟩

theorem mapM_eq_ok {β : Type u} {f : α → Except ε β} {g : α → β} {l : List α}
    (h : ∀ a ∈ l, f a = .ok (g a)) : l.mapM f = .ok (l.map g) := by
  induction l with
  | nil => rfl
  | cons a l ih =>
    rw [forall_mem_cons] at h
    simp [mapM_cons, h.1, ih h.2]

/-! ### Loops over a state that stop at the first success -/

/-- Run `f` on the elements in turn until one of them gives a result; the state is passed on. -/
def tryEach {σ : Type*} (f : σ → α → Option β × σ) : List α → σ → Option β × σ
  | [], s => (none, s)
  | a :: as, s =>
    match f s a with
    | (some b, s) => (some b, s)
    | (none, s) => tryEach f as s

theorem tryEach_eq_none {f : σ → α → Option β × σ} {s : σ} (h : ∀ a ∈ l, f s a = (none, s)) :
    l.tryEach f s = (none, s) := by
  induction l with
  | nil => rfl
  | cons a l ih =>
    rw [tryEach, h a mem_cons_self]
    exact ih fun a' ha' ↦ h a' (mem_cons_of_mem a ha')

theorem tryEach_invariant {f : σ → α → Option β × σ} {motive : σ → Prop} {s : σ} (hs : motive s)
    (hstep : ∀ a ∈ l, ∀ s, motive s → motive (f s a).2) : motive (l.tryEach f s).2 := by
  induction l generalizing s with
  | nil => exact hs
  | cons a l ih =>
    have ha := hstep a mem_cons_self s hs
    rw [tryEach]
    split
    · rename_i hfa
      simpa only [hfa] using ha
    · rename_i hfa
      exact ih (by simpa only [hfa] using ha) fun a' ha' ↦ hstep a' (mem_cons_of_mem a ha')

/-! ### Loops without an exit -/

theorem foldl_invariant {f : σ → α → σ} {motive : σ → Prop} {s : σ} (hs : motive s)
    (hstep : ∀ a ∈ l, ∀ s, motive s → motive (f s a)) : motive (l.foldl f s) := by
  induction l generalizing s with
  | nil => exact hs
  | cons a l ih =>
    exact ih (hstep a mem_cons_self s hs) fun a' ha' ↦ hstep a' (mem_cons_of_mem a ha')

theorem foldl_congr_invariant {f g : σ → α → σ} {motive : σ → Prop} {s : σ} (hs : motive s)
    (hstep : ∀ a ∈ l, ∀ s, motive s → f s a = g s a ∧ motive (f s a)) :
    l.foldl f s = l.foldl g s ∧ motive (l.foldl f s) := by
  induction l generalizing s with
  | nil => exact ⟨rfl, hs⟩
  | cons a l ih =>
    obtain ⟨hsame, hs⟩ := hstep a mem_cons_self s hs
    rw [foldl_cons, foldl_cons, ← hsame]
    exact ih hs fun a' ha' ↦ hstep a' (mem_cons_of_mem a ha')

theorem foldl_iff_exists {f : σ → α → σ} {motive : σ → Prop} {made : α → Prop}
    (hstep : ∀ s a, motive (f s a) ↔ motive s ∨ made a) (s : σ) :
    motive (l.foldl f s) ↔ motive s ∨ ∃ a ∈ l, made a := by
  induction l generalizing s with
  | nil => simp
  | cons a l ih => rw [foldl_cons, ih, hstep, exists_mem_cons_iff, or_assoc]

/-- **Local turns.** If the turn for a key changes what the state holds for this key, by `g`, and
nothing else, then the loop over distinct keys changes what it holds for each of them, by `g`. -/
theorem foldl_local {κ ν : Type*} [DecidableEq κ] (get : σ → κ → ν) {f : σ → κ → σ} {g : ν → ν}
    (hself : ∀ s k, get (f s k) k = g (get s k))
    (hother : ∀ s k k', k' ≠ k → get (f s k) k' = get s k') {keys : List κ} (hkeys : keys.Nodup)
    (s : σ) (k : κ) : get (keys.foldl f s) k = if k ∈ keys then g (get s k) else get s k := by
  induction keys generalizing s with
  | nil => simp
  | cons k₀ keys ih =>
    obtain ⟨hnot, hkeys⟩ := nodup_cons.mp hkeys
    rw [foldl_cons, ih hkeys]
    by_cases hk : k = k₀
    · subst hk
      simp [hnot, hself]
    · simp [hk, hother s k₀ k hk]

end List
