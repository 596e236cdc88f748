import KristaTech.Library.EarlyExit
import Mathlib.Order.Basic

/-!
# Loops with effects

A loop that works on a state of its own and may fail, and whose turns also act on something outside
which is not rolled back on failure. A turn checks the element, then acts, then updates its state.

The question about such a loop is what it leaves behind when it fails. If the effects only ever move
what is outside in one direction, measured in some order, then it is as before exactly when every
effect that was run would have been the identity on it (`effectLoop_fst_eq_iff`). When it succeeds,
what the state has gathered on the way is there at the end (`Acts.le_of_effectLoop_eq_ok`).
-/

namespace List

variable {α β σ : Type*} {ε : Type*}

section Loop

variable (check : σ → α → Except ε σ) (act : σ → α → β → β) (update : σ → α → Except ε σ)

/-- The loop: what is outside, and the state or the error. -/
def effectLoop : List α → β → σ → β × Except ε σ
  | [], b, s => (b, .ok s)
  | a :: as, b, s =>
    match check s a with
    | .error e => (b, .error e)
    | .ok s₁ =>
      match update s₁ a with
      | .error e => (act s₁ a b, .error e)
      | .ok s₂ => effectLoop as (act s₁ a b) s₂

/-- The loop runs the effect of the element `a` in the state `s`: everything before has passed, and
so has the element's check. -/
inductive Acts : List α → σ → σ → α → Prop
  | here {as s s' a} : check s a = .ok s' → Acts (a :: as) s s' a
  | there {as s s₁ s₂ a s' a'} : check s a = .ok s₁ → update s₁ a = .ok s₂ → Acts as s₂ s' a' →
    Acts (a :: as) s s' a'

end Loop

variable {check : σ → α → Except ε σ} {act : σ → α → β → β} {update : σ → α → Except ε σ}
  {γ : Type*} [Preorder γ] {μ : β → γ}

theorem Acts.mem {as : List α} {s s' : σ} {a : α} (h : Acts check update as s s' a) : a ∈ as := by
  induction h with
  | here _ => exact List.mem_cons_self
  | there _ _ _ ih => exact List.mem_cons_of_mem _ ih

/-- What a loop has done that did not fail. -/
theorem exists_of_effectLoop_cons {as : List α} {a : α} {b : β} {s t : σ}
    (h : (effectLoop check act update (a :: as) b s).2 = .ok t) : ∃ s₁ s₂, check s a = .ok s₁ ∧
      update s₁ a = .ok s₂ ∧ (effectLoop check act update as (act s₁ a b) s₂).2 = .ok t := by
  rw [effectLoop] at h
  split at h
  · cases h
  · split at h
    · cases h
    · exact ⟨_, _, by assumption, by assumption, h⟩

theorem le_effectLoop (hle : ∀ s a b, μ b ≤ μ (act s a b)) (as : List α) (b : β) (s : σ) :
    μ b ≤ μ (effectLoop check act update as b s).1 := by
  induction as generalizing b s with
  | nil => exact le_rfl
  | cons a as ih =>
    rw [effectLoop]
    split
    · exact le_rfl
    · rename_i s₁ _
      split
      · exact hle s₁ a b
      · exact (hle s₁ a b).trans (ih _ _)

/-- **What a loop leaves behind.** If every effect that is not the identity goes strictly up, then
what is outside is as before exactly when every effect that is run is the identity on it. -/
theorem effectLoop_fst_eq_iff (hlt : ∀ s a b, act s a b ≠ b → μ b < μ (act s a b)) (as : List α)
    (b : β) (s : σ) :
    (effectLoop check act update as b s).1 = b ↔ ∀ s' a, Acts check update as s s' a → act s' a b = b := by
  have hle (s : σ) (a : α) (b : β) : μ b ≤ μ (act s a b) := by
    by_cases h : act s a b = b
    · rw [h]
    · exact (hlt s a b h).le
  induction as generalizing s with
  | nil => simp only [effectLoop, true_iff]; nofun
  | cons a as ih =>
    rw [effectLoop]
    split
    · rename_i e hcheck
      refine iff_of_true rfl ?_
      rintro s' a' (hcheck' | ⟨hcheck', -, -⟩) <;> simp [hcheck] at hcheck'
    · rename_i s₁ hcheck
      by_cases hact : act s₁ a b = b
      · split
        · rename_i e hupdate
          refine iff_of_true hact ?_
          rintro s' a' (hcheck' | ⟨hcheck', hupdate', -⟩) <;> rw [hcheck] at hcheck' <;> cases hcheck'
          · exact hact
          · simp [hupdate] at hupdate'
        · rename_i s₂ hupdate
          rw [hact]
          refine (ih s₂).trans ⟨fun h s' a' ↦ ?_, fun h s' a' hacts ↦ h s' a' (.there hcheck hupdate hacts)⟩
          rintro (hcheck' | ⟨hcheck', hupdate', hacts⟩) <;> rw [hcheck] at hcheck' <;> cases hcheck'
          · exact hact
          · rw [hupdate] at hupdate'
            cases hupdate'
            exact h s' a' hacts
      · -- the effect has moved what is outside, and the rest does not move it back
        refine iff_of_false (fun h ↦ ?_) fun h ↦ hact (h s₁ a (.here hcheck))
        have hup : μ (act s₁ a b) ≤ μ b := by
          split at h
          · exact le_of_eq (congrArg μ h)
          · exact (le_effectLoop hle as _ _).trans (le_of_eq (congrArg μ h))
        exact absurd (hlt s₁ a b hact) (not_lt_of_ge hup)

theorem effectLoop_append {as as' : List α} {b b' : β} {s s' : σ}
    (h : effectLoop check act update as b s = (b', .ok s')) :
    effectLoop check act update (as ++ as') b s = effectLoop check act update as' b' s' := by
  induction as generalizing b s with
  | nil =>
    obtain ⟨rfl, hs⟩ := Prod.mk.inj h
    obtain rfl := Except.ok.inj hs
    rfl
  | cons a as ih =>
    rw [effectLoop] at h
    rw [cons_append, effectLoop]
    split at h
    · simp at h
    · split at h
      · simp at h
      · exact ih h

/-! ### The state of a loop that succeeds -/

section State

variable {μ : σ → γ} {as : List α} {b : β} {s s' t : σ} {a : α}

theorem le_of_effectLoop_eq_ok (hcheck : ∀ s a s', check s a = .ok s' → μ s ≤ μ s')
    (hupdate : ∀ s a s', update s a = .ok s' → μ s ≤ μ s')
    (h : (effectLoop check act update as b s).2 = .ok t) : μ s ≤ μ t := by
  induction as generalizing b s with
  | nil => exact le_of_eq (congrArg μ (Except.ok.inj h))
  | cons a as ih =>
    obtain ⟨s₁, s₂, hs₁, hs₂, h⟩ := exists_of_effectLoop_cons h
    exact (hcheck s a s₁ hs₁).trans ((hupdate s₁ a s₂ hs₂).trans (ih h))

theorem Acts.le_of_effectLoop_eq_ok (hcheck : ∀ s a s', check s a = .ok s' → μ s ≤ μ s')
    (hupdate : ∀ s a s', update s a = .ok s' → μ s ≤ μ s') (hacts : Acts check update as s s' a)
    (h : (effectLoop check act update as b s).2 = .ok t) : μ s' ≤ μ t := by
  induction hacts generalizing b with
  | here hs₁ =>
    simp only [effectLoop, hs₁] at h
    split at h
    · cases h
    · rename_i s₂ hs₂
      exact (hupdate _ _ s₂ hs₂).trans (List.le_of_effectLoop_eq_ok hcheck hupdate h)
  | there hs₁ hs₂ _ ih =>
    simp only [effectLoop, hs₁, hs₂] at h
    exact ih h

end State

end List
