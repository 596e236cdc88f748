import KristaTech.Mescal.Conditions
import KristaTech.Mescal.Shorten

/-!
# The MESCAL round trip

A script that is decompiled compiles to itself again if and only if it is *tidy*
(`compile_decompile_iff`): every block is written as the compiler writes it, every `OP_IF` finds an
expression before it and no chain of two `OP_BOOLAND`s, every conditional has one `OP_ELSE` if its false
branch is not empty and none otherwise, and the conditions are not nested deeper than the compiler
goes. `tidyLoop` reads a script with the patterns of the decompiler and keeps, of the blocks on its
stack, only their `Shape`.
-/

namespace KristaTech.Mescal

open List

open Action.script (scripts)
open Action.need (needs)

/-! ### Tidy scripts -/

/-- What the condition needs to know of a block. -/
structure Shape where
  isBoolAnd : Bool
  need : ℕ
  deriving DecidableEq, Repr

def Action.shape (action : Action) : Shape := ⟨action.isBoolAnd, action.need⟩

def mostNeeded : List Shape → ℕ
  | [] => 0
  | shape :: shapes => max shape.need (mostNeeded shapes)

/-- The expressions of a condition and the rest of the stack. -/
def takeExpressions : List Shape → List Shape × List Shape
  | [] => ([], [])
  | last :: stack => popExpressions Shape.isBoolAnd [last] stack

def closeShapes (stack trueBranch falseBranch : List Shape) : List Shape :=
  ⟨false, max (mostNeeded (takeExpressions stack).1)
    (max (mostNeeded trueBranch) (mostNeeded falseBranch)) + 2⟩ :: (takeExpressions stack).2

/-- The blocks of a script, if every one of them is written as the compiler writes it. -/
def tidyLoop : ℕ → ℕ → List Shape → CScript → Option (List Shape)
  | _, _, stack, [] => some stack.reverse
  | 0, _, stack, _ :: _ => some stack.reverse
  | fuel + 1, levels, stack, s@(_ :: _) =>
    match nextTurn s with
    | .error _ => none
    | .ok (.block b rest) => do
      guard (s = b.script ++ rest)
      tidyLoop fuel levels (⟨b.isBoolAnd, 1⟩ :: stack) rest
    | .ok (.condition inner) =>
      match levels, splitBranches levels inner.length 1 {} inner with
      | below + 1, .ok b => do
        guard (stack ≠ [] ∧ chained Shape.isBoolAnd stack = false)
        guard (inner = b.trueScript ++ elsePart b.falseScript ++ opcodes [.OP_ENDIF] ++ b.rest)
        let trueBranch ← tidyLoop fuel below [] b.trueScript
        let falseBranch ← tidyLoop fuel below [] b.falseScript
        tidyLoop fuel levels (closeShapes stack trueBranch falseBranch) b.rest
      | _, _ => none

/-- The script is written as the compiler writes it, and not nested deeper than it compiles. -/
def Tidy (script : CScript) : Prop :=
  ∃ shapes, tidyLoop script.length maxMescalConditionDepth [] script = some shapes ∧
    mostNeeded shapes ≤ maxMescalConditionDepth + 1

instance (script : CScript) : Decidable (Tidy script) :=
  decidable_of_iff (((tidyLoop script.length maxMescalConditionDepth [] script).map mostNeeded).any
    (· ≤ maxMescalConditionDepth + 1) = true) (by
      rw [Tidy]
      cases tidyLoop script.length maxMescalConditionDepth [] script <;> simp)

/-! ### Shapes -/

theorem needs_eq (actions : List Action) : needs actions = mostNeeded (actions.map Action.shape) := by
  induction actions with
  | nil => rfl
  | cons action actions ih => rw [needs, ih]; rfl

theorem popExpressions_map {α β : Type} (f : α → β) {p : α → Bool} {q : β → Bool}
    (hp : ∀ a, q (f a) = p a) (exprs stack : List α) :
    popExpressions q (exprs.map f) (stack.map f) =
      ((popExpressions p exprs stack).1.map f, (popExpressions p exprs stack).2.map f) := by
  fun_induction popExpressions p exprs stack with
  | case1 last exprs y z stack hlast hz ih =>
    rw [map_cons, map_cons, map_cons, popExpressions, hp, hp, if_pos hlast, if_pos hz, ← ih]
    rfl
  | case2 last exprs y z stack hlast hz ih =>
    rw [map_cons, map_cons, map_cons, popExpressions, hp, hp, if_pos hlast, if_neg hz, ← ih]
    rfl
  | case3 last exprs y z stack hlast =>
    rw [map_cons, map_cons, map_cons, popExpressions, hp, if_neg hlast]
  | case4 exprs stack hshape =>
    rcases exprs with _ | ⟨last, exprs⟩
    · rcases stack with _ | ⟨y, stack⟩ <;> rfl
    · rcases stack with _ | ⟨y, _ | ⟨z, stack⟩⟩
      · rfl
      · rfl
      · exact absurd rfl (hshape last exprs y z stack rfl)

theorem chained_map {α β : Type} (f : α → β) {p : α → Bool} {q : β → Bool} (hp : ∀ a, q (f a) = p a)
    (l : List α) : chained q (l.map f) = chained p l := by
  match l with
  | [] => rfl
  | [_] => rfl
  | [_, _] => rfl
  | x :: y :: z :: l => simp [chained, hp]

variable {st : DecompileState}

theorem takeExpressions_map (hne : st.stack ≠ []) : takeExpressions (st.stack.map Action.shape) =
      (st.expressions.1.map Action.shape, st.expressions.2.map Action.shape) := by
  rw [DecompileState.expressions]
  cases hstack : st.stack with
  | nil => exact absurd hstack hne
  | cons last stack => exact popExpressions_map Action.shape (fun _ ↦ rfl) [last] stack

theorem closeShapes_map (hne : st.stack ≠ []) (trueBranch falseBranch : List Action) :
    closeShapes (st.stack.map Action.shape) (trueBranch.map Action.shape)
      (falseBranch.map Action.shape) = (st.close trueBranch falseBranch).stack.map Action.shape := by
  rw [closeShapes, takeExpressions_map hne, ← needs_eq, ← needs_eq, ← needs_eq]
  rfl

/-! ### The loop -/

section Loop

variable {fuel levels : ℕ} {st : DecompileState} {s p : CScript} {actions : List Action}

/-- The actions of a script against what was read: `p` before, with the stack as it is, and `s` now. -/
structure Restores (fuel levels : ℕ) (stack : List Action) (p s : CScript) (actions : List Action) :
    Prop where
  wellFormed : AllWellFormed actions
  shortens : Shortens (p ++ s) (scripts actions).flatten
  eq_iff : (scripts actions).flatten = p ++ s ↔
    stackScript stack = p ∧ (tidyLoop fuel levels (stack.map Action.shape) s).isSome = true
  shapes : ∀ shapes, tidyLoop fuel levels (stack.map Action.shape) s = some shapes →
    shapes = actions.map Action.shape

theorem tidyLoop_nil (stack : List Shape) : tidyLoop fuel levels stack [] = some stack.reverse := by
  cases fuel <;> rfl

theorem restores_nil (hwf : AllWellFormed st.stack) (hp : Shortens p (stackScript st.stack)) :
    Restores fuel levels st.stack p [] st.stack.reverse where
  wellFormed a ha := hwf a (mem_reverse.1 ha)
  shortens := by
    rw [append_nil]
    exact hp
  eq_iff := by
    rw [append_nil, tidyLoop_nil]
    exact (and_iff_left rfl).symm
  shapes shapes h := by
    rw [tidyLoop_nil] at h
    rw [← Option.some.inj h, map_reverse]

variable {falseBranch trueBranch : List Action} {stack : List Shape} {x : UInt8}

/-- The false branch with its `OP_ELSE`. An `OP_ELSE` is never lost alone. -/
theorem elsePart_shortens {f : CScript} (hf : Shortens f (scripts falseBranch).flatten)
    (hnil : f = [] → falseBranch = []) :
    Shortens (elsePart f) (if (scripts falseBranch).isEmpty then []
        else opcodes [.OP_ELSE] ++ (scripts falseBranch).flatten) ∧
      ((if (scripts falseBranch).isEmpty then []
        else opcodes [.OP_ELSE] ++ (scripts falseBranch).flatten) = elsePart f ↔
        (scripts falseBranch).flatten = f) := by
  cases f with
  | nil =>
    rw [hnil rfl]
    exact ⟨.refl rfl, fun _ ↦ rfl, fun _ ↦ rfl⟩
  | cons b f =>
    have helse : elsePart (b :: f) = opcodes [.OP_ELSE] ++ (b :: f) := rfl
    rw [helse]
    split_ifs with hempty
    · -- nothing is left of the branch
      rw [isEmpty_iff.1 hempty, flatten_nil] at hf ⊢
      have hlt : potential [] < potential (b :: f) := hf.eq_or_lt.resolve_left (cons_ne_nil b f).symm
      have hwf : CScript.wellFormed (opcodes [.OP_ELSE]) = true := rfl
      refine ⟨⟨(CScript.wellFormed_append hwf _).trans hf.wellFormed, rfl, .inr ?_⟩, fun h ↦ ?_, fun h ↦ ?_⟩
      · rw [potential_append hwf, potential_else]
        omega
      · cases h
      · cases h
    · have helse : Shortens (opcodes [.OP_ELSE]) (opcodes [.OP_ELSE]) := .refl rfl
      exact ⟨helse.append hf, (helse.append_eq_iff hf).trans (and_iff_right rfl)⟩

theorem conditional_shortens {t f : CScript} (ht : Shortens t (scripts trueBranch).flatten)
    (hf : Shortens f (scripts falseBranch).flatten) (hnil : f = [] → falseBranch = []) :
    Shortens (opcodes [.OP_IF] ++ (t ++ elsePart f ++ opcodes [.OP_ENDIF]))
        (conditionScript [] (scripts trueBranch) (scripts falseBranch)) ∧
      (conditionScript [] (scripts trueBranch) (scripts falseBranch) =
          opcodes [.OP_IF] ++ (t ++ elsePart f ++ opcodes [.OP_ENDIF]) ↔
        (scripts trueBranch).flatten = t ∧ (scripts falseBranch).flatten = f) := by
  obtain ⟨helse, helse_iff⟩ := elsePart_shortens hf hnil
  have hif : Shortens (opcodes [.OP_IF]) (opcodes [.OP_IF]) := .refl rfl
  have hendif : Shortens (opcodes [.OP_ENDIF]) (opcodes [.OP_ENDIF]) := .refl rfl
  have hscript : conditionScript [] (scripts trueBranch) (scripts falseBranch) =
      opcodes [.OP_IF] ++ ((scripts trueBranch).flatten ++ (if (scripts falseBranch).isEmpty then []
        else opcodes [.OP_ELSE] ++ (scripts falseBranch).flatten) ++ opcodes [.OP_ENDIF]) := by
    simp [conditionScript, joinExpressions]
  rw [hscript]
  refine ⟨hif.append ((ht.append helse).append hendif), ?_⟩
  rw [hif.append_eq_iff ((ht.append helse).append hendif), (ht.append helse).append_eq_iff hendif,
    ht.append_eq_iff helse, helse_iff]
  simp only [true_and, and_true]

theorem tidyLoop_block {b : BasicBlock} {rest : CScript} (hturn : nextTurn (x :: s) = .ok (.block b rest)) :
    tidyLoop (fuel + 1) levels stack (x :: s) = (guard (x :: s = b.script ++ rest) >>= fun _ ↦
      tidyLoop fuel levels (⟨b.isBoolAnd, 1⟩ :: stack) rest) := by
  rw [tidyLoop, hturn]

theorem Restores.block {b : BasicBlock} {raw rest : CScript}
    (hturn : nextTurn (x :: s) = .ok (.block b rest)) (hs : x :: s = raw ++ rest)
    (hraw : Shortens raw b.script) (hp : Shortens p (stackScript st.stack))
    (h : Restores fuel levels (st.push b).stack (p ++ raw) rest actions) :
    Restores (fuel + 1) levels st.stack p (x :: s) actions := by
  have hread : p ++ raw ++ rest = p ++ (x :: s) := by rw [append_assoc, hs]
  have hwritten : x :: s = b.script ++ rest ↔ b.script = raw := by
    rw [hs, append_left_inj, eq_comm]
  refine ⟨h.wellFormed, hread ▸ h.shortens, ?_, fun shapes htidy ↦ ?_⟩
  · rw [← hread, h.eq_iff, tidyLoop_block hturn]
    have hstack : stackScript (st.push b).stack = p ++ raw ↔ stackScript st.stack = p ∧ b.script = raw := by
      rw [DecompileState.push, stackScript_cons]
      exact hp.append_eq_iff hraw
    rw [hstack, and_assoc]
    refine and_congr_right fun _ ↦ ?_
    rw [← hwritten]
    by_cases hblock : x :: s = b.script ++ rest
    · simp only [hblock, true_and, guard_true, Option.pure_def, Option.bind_eq_bind, Option.bind_some]
      rfl
    · simp [guard, hblock]
  · rw [tidyLoop_block hturn] at htidy
    obtain ⟨_, -, htidy⟩ := Option.bind_eq_some_iff.1 htidy
    exact h.shapes shapes htidy

theorem tidyLoop_condition {shapes : List Shape} {inner : CScript} {b : Branches} {below : ℕ}
    (hturn : nextTurn (x :: s) = .ok (.condition inner))
    (hsplit : splitBranches (below + 1) inner.length 1 {} inner = .ok b) :
    tidyLoop (fuel + 1) (below + 1) stack (x :: s) = some shapes ↔
      (stack ≠ [] ∧ chained Shape.isBoolAnd stack = false) ∧
      inner = b.trueScript ++ elsePart b.falseScript ++ opcodes [.OP_ENDIF] ++ b.rest ∧
      ∃ trueBranch falseBranch, tidyLoop fuel below [] b.trueScript = some trueBranch ∧
        tidyLoop fuel below [] b.falseScript = some falseBranch ∧
        tidyLoop fuel (below + 1) (closeShapes stack trueBranch falseBranch) b.rest = some shapes := by
  rw [tidyLoop, hturn]
  simp only [hsplit, Option.bind_eq_bind, Option.bind_eq_some_iff, guard_eq_some_iff, exists_and_left,
    exists_const]

theorem conditionScript_append (exprs trueBranch falseBranch : List CScript) :
    conditionScript exprs trueBranch falseBranch =
      joinExpressions exprs ++ conditionScript [] trueBranch falseBranch := by
  rw [conditionScript_eq, conditionScript_eq]
  rfl

theorem stackScript_close (trueBranch falseBranch : List Action) :
    stackScript (st.close trueBranch falseBranch).stack = poppedScript st.expressions ++
      conditionScript [] (scripts trueBranch) (scripts falseBranch) := by
  rw [DecompileState.close, stackScript_cons, Action.script, conditionScript_append, poppedScript,
    append_assoc]

theorem allWellFormed_close (hwf : AllWellFormed st.stack)
    (hcond : (conditionScript [] (scripts trueBranch) (scripts falseBranch)).wellFormed = true) :
    AllWellFormed (st.close trueBranch falseBranch).stack := by
  obtain ⟨hexprs, hrest⟩ := allWellFormed_expressions hwf
  refine forall_mem_cons.2 ⟨?_, hrest⟩
  rw [Action.script, conditionScript_append, CScript.wellFormed_append hexprs.joinExpressions, hcond]

theorem Restores.flatten_eq_iff {t : CScript} {branch : List Action}
    (h : Restores fuel levels [] [] t branch) :
    (scripts branch).flatten = t ↔ tidyLoop fuel levels [] t = some (branch.map Action.shape) := by
  have hiff := h.eq_iff
  rw [nil_append, map_nil, Option.isSome_iff_exists] at hiff
  rw [hiff]
  exact ⟨fun ⟨_, shapes, htidy⟩ ↦ htidy.trans (congrArg some (h.shapes shapes htidy)),
    fun htidy ↦ ⟨rfl, _, htidy⟩⟩

theorem Restores.condition {inner : CScript} {b : Branches} {below : ℕ} {raw : CScript}
    (hturn : nextTurn (x :: s) = .ok (.condition inner))
    (hsplit : splitBranches (below + 1) inner.length 1 {} inner = .ok b)
    (hinner : inner = raw ++ b.rest)
    (hraw : Shortens raw (b.trueScript ++ elsePart b.falseScript ++ opcodes [.OP_ENDIF]))
    (ht : Restores fuel below [] [] b.trueScript trueBranch)
    (hf : Restores fuel below [] [] b.falseScript falseBranch)
    (hnil : b.falseScript = [] → falseBranch = []) (hwf : AllWellFormed st.stack)
    (hp : Shortens p (stackScript st.stack))
    (h : Restores fuel (below + 1) (st.close trueBranch falseBranch).stack
      (p ++ (opcodes [.OP_IF] ++ raw)) b.rest actions) :
    Restores (fuel + 1) (below + 1) st.stack p (x :: s) actions := by
  have hs : x :: s = opcodes [.OP_IF] ++ inner := nextTurn_spec hturn
  have hread : p ++ (opcodes [.OP_IF] ++ raw) ++ b.rest = p ++ (x :: s) := by
    rw [hs, hinner]
    simp only [append_assoc]
  obtain ⟨hexprs, hexprs_iff⟩ := expressions_spec hwf
  have htrue : Shortens b.trueScript (scripts trueBranch).flatten := ht.shortens
  have hfalse : Shortens b.falseScript (scripts falseBranch).flatten := hf.shortens
  obtain ⟨hcond, hcond_iff⟩ := conditional_shortens htrue hfalse hnil
  have hif : Shortens (opcodes [.OP_IF]) (opcodes [.OP_IF]) := .refl rfl
  -- the condition is written as it was if the stack, the branches and the conditional are
  have hstack : stackScript (st.close trueBranch falseBranch).stack = p ++ (opcodes [.OP_IF] ++ raw) ↔
      stackScript st.stack = p ∧ (st.stack ≠ [] ∧ chained Action.isBoolAnd st.stack = false) ∧
        b.trueScript ++ elsePart b.falseScript ++ opcodes [.OP_ENDIF] = raw ∧
        tidyLoop fuel below [] b.trueScript = some (trueBranch.map Action.shape) ∧
        tidyLoop fuel below [] b.falseScript = some (falseBranch.map Action.shape) := by
    rw [stackScript_close, (hp.trans hexprs).append_eq_iff ((hif.append hraw).trans hcond),
      hp.trans_eq_iff hexprs, hexprs_iff, (hif.append hraw).trans_eq_iff hcond, hcond_iff,
      hif.append_eq_iff hraw, ht.flatten_eq_iff, hf.flatten_eq_iff, and_assoc]
    simp only [true_and]
  have hclosed : b.trueScript ++ elsePart b.falseScript ++ opcodes [.OP_ENDIF] = raw ↔
      inner = b.trueScript ++ elsePart b.falseScript ++ opcodes [.OP_ENDIF] ++ b.rest := by
    rw [hinner, append_left_inj, eq_comm]
  have hchained : chained Shape.isBoolAnd (st.stack.map Action.shape) =
      chained Action.isBoolAnd st.stack := chained_map Action.shape (fun _ ↦ rfl) st.stack
  refine ⟨h.wellFormed, hread ▸ h.shortens, ?_, fun shapes htidy ↦ ?_⟩
  · rw [← hread, h.eq_iff, hstack, and_assoc]
    refine and_congr_right fun _ ↦ ?_
    simp only [Option.isSome_iff_exists, tidyLoop_condition hturn hsplit, hchained, ← hclosed, ne_eq,
      map_eq_nil_iff]
    constructor
    · rintro ⟨⟨hstack, hwritten, htrue, hfalse⟩, shapes, htidy⟩
      rw [← closeShapes_map hstack.1] at htidy
      exact ⟨shapes, hstack, hwritten, _, _, htrue, hfalse, htidy⟩
    · rintro ⟨shapes, hstack, hwritten, trueShapes, falseShapes, htrue, hfalse, htidy⟩
      obtain rfl := ht.shapes _ htrue
      obtain rfl := hf.shapes _ hfalse
      rw [closeShapes_map hstack.1] at htidy
      exact ⟨⟨hstack, hwritten, htrue, hfalse⟩, shapes, htidy⟩
  · obtain ⟨⟨hne, -⟩, -, trueShapes, falseShapes, htrue, hfalse, htidy⟩ :=
      (tidyLoop_condition hturn hsplit).1 htidy
    rw [ht.shapes _ htrue, hf.shapes _ hfalse, closeShapes_map (by simpa using hne)] at htidy
    exact h.shapes shapes htidy

/-- **What decompiling keeps**, by induction on the fuel. -/
theorem decompileLoop_spec (h : decompileLoop fuel levels st s = .ok actions) (hlength : s.length ≤ fuel)
    (hwf : AllWellFormed st.stack) (hp : Shortens p (stackScript st.stack)) :
    Restores fuel levels st.stack p s actions := by
  induction fuel generalizing levels st s p actions with
  | zero =>
    obtain rfl := length_eq_zero_iff.1 (Nat.le_zero.1 hlength)
    obtain rfl := Except.ok.inj h
    exact restores_nil hwf hp
  | succ fuel ih =>
    cases s with
    | nil =>
      obtain rfl := Except.ok.inj h
      exact restores_nil hwf hp
    | cons x s =>
      rw [decompileLoop] at h
      obtain ⟨turn, hturn, h⟩ := Except.bind_eq_ok_iff.1 h
      cases turn with
      | block b rest =>
        obtain ⟨⟨raw, hs, hraw⟩, hlt⟩ := nextTurn_spec hturn
        have hpush : AllWellFormed (st.push b).stack := forall_mem_cons.2 ⟨hraw.wellFormed', hwf⟩
        have hp' : Shortens (p ++ raw) (stackScript (st.push b).stack) := by
          rw [DecompileState.push, stackScript_cons]
          exact hp.append hraw
        rw [length_cons] at hlength hlt
        exact .block hturn hs hraw hp (ih h (by omega) hpush hp')
      | condition inner =>
        obtain ⟨b, hsplit, h⟩ := Except.bind_eq_ok_iff.1 h
        cases levels with
        | zero => cases h
        | succ below =>
          obtain ⟨trueBranch, htrue, h⟩ := Except.bind_eq_ok_iff.1 h
          obtain ⟨falseBranch, hfalse, h⟩ := Except.bind_eq_ok_iff.1 h
          have hs : x :: s = opcodes [.OP_IF] ++ inner := nextTurn_spec hturn
          have hsplits := splitBranches_spec (p := []) hsplit
            ⟨rfl, rfl, fun _ ↦ ⟨rfl, rfl⟩, fun hin ↦ by cases hin⟩
          obtain ⟨raw, hinner, hraw⟩ := hsplits.shortens
          have hshorter := hsplits.shorter
          have hlen := congrArg List.length hs
          simp only [length_cons, length_append, length_nil, opcodes, map_cons,
            map_nil] at hlen hlength hshorter
          have hempty : AllWellFormed [] := fun _ hmem ↦ (by cases hmem)
          have ht : Restores fuel below [] [] b.trueScript trueBranch :=
            ih htrue (by omega) hempty (.refl rfl)
          have hf : Restores fuel below [] [] b.falseScript falseBranch :=
            ih hfalse (by omega) hempty (.refl rfl)
          have hnil : b.falseScript = [] → falseBranch = [] := fun hempty ↦ by
            rw [hempty] at hfalse
            cases fuel <;> exact (Except.ok.inj hfalse).symm
          obtain ⟨hcond, -⟩ := conditional_shortens ht.shortens hf.shortens hnil
          obtain ⟨hexprs, -⟩ := expressions_spec hwf
          have hif : Shortens (opcodes [.OP_IF]) (opcodes [.OP_IF]) := .refl rfl
          have hp' : Shortens (p ++ (opcodes [.OP_IF] ++ raw))
              (stackScript (st.close trueBranch falseBranch).stack) := by
            rw [stackScript_close]
            exact (hp.trans hexprs).append ((hif.append hraw).trans hcond)
          have hclose := allWellFormed_close hwf hcond.wellFormed'
          exact .condition hturn hsplit hinner hraw ht hf hnil hwf hp (ih h (by omega) hclose hp')

end Loop

/-! ### The round trip -/

/-- **A script that is decompiled compiles to itself if and only if it is tidy.** -/
theorem compile_eq_iff_tidy {script : CScript} {contract : UniValue}
    (h : decompile script = .ok contract) : compile contract = .ok script ↔ Tidy script := by
  rw [decompile] at h
  cases hactions : decompileActions script with
  | error e =>
    rw [hactions] at h
    cases h
  | ok actions =>
    rw [hactions] at h
    obtain rfl := Except.ok.inj h
    have hspec : Restores script.length maxMescalConditionDepth [] [] script actions :=
      decompileLoop_spec hactions le_rfl (fun _ hmem ↦ (by cases hmem)) (.refl rfl)
    have hneeds := needs_eq actions
    rw [compile_contractJson, Tidy]
    constructor
    · intro hcompile
      split_ifs at hcompile with hle
      have htidy := hspec.flatten_eq_iff.1 (Except.ok.inj hcompile)
      exact ⟨_, htidy, hneeds ▸ hle⟩
    · rintro ⟨shapes, htidy, hle⟩
      obtain rfl := hspec.shapes shapes htidy
      rw [if_pos (hneeds.symm ▸ hle), hspec.flatten_eq_iff.2 htidy]

/-- **The round trip of a contract**: what was compiled and decompiled compiles to the same script if
and only if the script is tidy. -/
theorem compile_decompile_compile_iff {source contract : UniValue} {script : CScript}
    (_ : compile source = .ok script) (h : decompile script = .ok contract) :
    compile contract = .ok script ↔ Tidy script := compile_eq_iff_tidy h

theorem compile_decompile_compile_two :
    ∃ contract, compile (numberContract [1, 2]) = .ok [0x51, 0x52, 0x9a, 0x63, 0x53, 0x67, 0x54, 0x68] ∧
      decompile [0x51, 0x52, 0x9a, 0x63, 0x53, 0x67, 0x54, 0x68] = .ok contract ∧
      (compile contract = .ok [0x51, 0x52, 0x9a, 0x63, 0x53, 0x67, 0x54, 0x68] ↔
        Tidy [0x51, 0x52, 0x9a, 0x63, 0x53, 0x67, 0x54, 0x68]) := by
  have hcompile : compile (numberContract [1, 2]) =
      .ok [0x51, 0x52, 0x9a, 0x63, 0x53, 0x67, 0x54, 0x68] := by decide
  obtain ⟨contract, hdecompile⟩ :
      ∃ contract, decompile [0x51, 0x52, 0x9a, 0x63, 0x53, 0x67, 0x54, 0x68] = .ok contract := ⟨_, rfl⟩
  exact ⟨contract, hcompile, hdecompile, compile_decompile_compile_iff hcompile hdecompile⟩

/-- Of three expressions, the decompiler loses an `OP_BOOLAND`. -/
theorem compile_decompile_compile_three : (do
      let script ← compile (numberContract [1, 2, 3])
      let contract ← decompile script
      return (script, ← compile contract)) =
    .ok ([0x51, 0x52, 0x9a, 0x53, 0x9a, 0x63, 0x53, 0x67, 0x54, 0x68],
      [0x51, 0x52, 0x9a, 0x53, 0x63, 0x53, 0x67, 0x54, 0x68]) := by
  decide

end KristaTech.Mescal
