import KristaTech.Mescal.Structure
import KristaTech.Script.Numbers

/-!
# What a compiled condition does

A condition runs its true branch if all of its expressions push a number that is not zero, and its
false branch otherwise, or nothing if there is none (`run_conditionScript`). The expressions have to
push one number each and to leave all else alone; two or more of them are joined by `OP_BOOLAND`, which
takes numbers of at most four bytes. A run can also end at a limit of the interpreter: on the number of
opcodes and of stack elements, and on the size of a push.
-/

namespace KristaTech

open List

/-! ### Numbers as conditions -/

namespace CScriptNum

/-- **The interpreter's truth of an element is that of its number.** -/
theorem castToBool_eq (vch : Bytes) : castToBool vch = (setVch vch != 0) := by
  induction vch with
  | nil => rfl
  | cons b₀ vch ih =>
    cases vch with
    | nil =>
      exact forall_byte (P := fun b ↦ castToBool [b] = (setVch [b] != 0)) (by decide +kernel) b₀
    | cons b₁ vch =>
      have habs := natAbs_setVch_cons b₀ (cons_ne_nil b₁ vch)
      show (b₀ != 0 || castToBool (b₁ :: vch)) = _
      rw [ih, Bool.eq_iff_iff]
      simp only [Bool.or_eq_true, bne_iff_ne, ne_eq, ← UInt8.toNat_inj, UInt8.toNat_zero]
      omega

theorem ofVch_serialize_boolNum (fRequireMinimal b : Bool) :
    (ofVch (serialize (boolNum b)) fRequireMinimal).isSome = true := by
  revert fRequireMinimal b
  decide

theorem castToBool_serialize_boolNum (b : Bool) : castToBool (serialize (boolNum b)) = b := by
  revert b
  decide

end CScriptNum

namespace Mescal

variable (C : Crypto) (flags : ScriptFlags) (checker : BaseSignatureChecker) (sigversion : SigVersion)

/-! ### Branches -/

def Executing (st : EvalState) : Prop := st.vfExec.contains false = false

/-- The result `x` is what the branch gives in the state `st`, inside a conditional, or a limit was
hit. The numbers of opcodes are those of the run. -/
def RunsBranch (branch : CScript) (st : EvalState) (x : Except ScriptError EvalState) : Prop :=
  (∃ c c', x = (runScript C flags checker sigversion branch
      { st with vfExec := true :: st.vfExec, nOpCount := c }).map
        fun st' ↦ { st' with vfExec := st.vfExec, nOpCount := c' }) ∨
    ∃ e, isLimit e = true ∧ x = .error e

variable {C flags checker sigversion} {st : EvalState} {t f u branch : CScript} {conds : List Bool}
  {exprs trueBranch falseBranch : List CScript}

theorem RunsBranch.bind {P : EvalState → Prop} {x : Except ScriptError EvalState}
    {k : EvalState → Except ScriptError EvalState} (hx : UpToLimits P x)
    (hk : ∀ st₁, P st₁ → RunsBranch C flags checker sigversion branch st (k st₁)) :
    RunsBranch C flags checker sigversion branch st (x >>= k) := by
  rcases hx with ⟨st₁, rfl, hst₁⟩ | ⟨e, he, rfl⟩
  · exact hk st₁ hst₁
  · exact .inr ⟨e, he, rfl⟩

variable {x : Bytes} {op : Opcode} {stack : List Bytes}

theorem evalStep_conditional {st' : EvalState} (hop : op ∈ conditionalOpcodes)
    (h : execOp C flags checker sigversion (!st.vfExec.contains false) ⟨op, [], u⟩
      { st with nOpCount := st.nOpCount + 1 } = .ok st') :
    UpToLimits (· = st') (evalStep C flags checker sigversion st ⟨op, [], u⟩) := by
  have hall : ∀ op ∈ conditionalOpcodes, isDisabled op = false ∧ .OP_16 < op := by decide
  obtain ⟨henabled, hcounted⟩ := hall op hop
  refine evalStep_upToLimits henabled ?_
  rw [execInstruction_conditional hop, vfExec_countOp, countOp, if_pos hcounted, h]

theorem runScript_opcode (hop : op ∈ conditionalOpcodes) (u : CScript) :
    runScript C flags checker sigversion (opcodes [op] ++ u) st =
      evalStep C flags checker sigversion st ⟨op, [], u⟩ >>= runScript C flags checker sigversion u := by
  have hall : ∀ op ∈ conditionalOpcodes, Opcode.ofByte op.toByte = op ∧ .OP_PUSHDATA4 < op := by decide
  obtain ⟨hbyte, hpush⟩ := hall op hop
  exact runScript_of_getOp (CScript.getOp_toByte hbyte hpush u)

theorem evalStep_if (hst : Executing st) (hstack : st.stack = x :: stack) :
    UpToLimits (· = { st with
        stack := stack, vfExec := castToBool x :: st.vfExec, nOpCount := st.nOpCount + 1 })
      (evalStep C flags checker sigversion st ⟨.OP_IF, [], u⟩) := by
  refine evalStep_conditional (by decide) ?_
  show execIf _ false _ = _
  rw [execIf, hst]
  simp [hstack]

theorem evalStep_else {b : Bool} (hst : st.vfExec = b :: conds) :
    UpToLimits (· = { st with vfExec := (!b) :: conds, nOpCount := st.nOpCount + 1 })
      (evalStep C flags checker sigversion st ⟨.OP_ELSE, [], u⟩) :=
  evalStep_conditional (by decide) (execOp_else hst)

theorem run_endif {b : Bool} (hst : st.vfExec = b :: conds) :
    UpToLimits (· = { st with vfExec := conds, nOpCount := st.nOpCount + 1 })
      (runScript C flags checker sigversion (opcodes [.OP_ENDIF]) st) := by
  have hstep : UpToLimits _ (evalStep C flags checker sigversion st ⟨.OP_ENDIF, [], []⟩) :=
    evalStep_conditional (by decide) (execOp_endif hst)
  rw [← append_nil (opcodes [.OP_ENDIF]), runScript_opcode (by decide)]
  exact hstep.bind fun st₁ hst₁ ↦ .inl ⟨st₁, rfl, hst₁⟩

theorem run_close (hf : f.Structured) (hst : st.vfExec = true :: conds) :
    UpToLimits (fun st' ↦ ∃ c, st' = { st with vfExec := conds, nOpCount := c })
      (runScript C flags checker sigversion
        ((if falseBranch.isEmpty then [] else opcodes [.OP_ELSE] ++ f) ++ opcodes [.OP_ENDIF]) st) := by
  split_ifs
  · exact (run_endif hst).mono fun _ h ↦ ⟨_, h⟩
  · rw [append_assoc, runScript_opcode (by decide)]
    refine (evalStep_else hst).bind ?_
    rintro _ rfl
    rw [runScript_append hf]
    refine (skip_cases hf mem_cons_self).bind ?_
    rintro _ ⟨c, rfl⟩
    refine (run_endif rfl).mono ?_
    rintro _ rfl
    exact ⟨_, rfl⟩

theorem runsBranch_before {c : ℕ} (hbranch : branch.Structured)
    (hclose : ∀ st₁ : EvalState, st₁.vfExec = true :: st.vfExec →
      UpToLimits (fun st' ↦ ∃ c, st' = { st₁ with vfExec := st.vfExec, nOpCount := c })
        (runScript C flags checker sigversion u st₁)) :
    RunsBranch C flags checker sigversion branch st (runScript C flags checker sigversion (branch ++ u)
      { st with vfExec := true :: st.vfExec, nOpCount := c }) := by
  rw [runScript_append hbranch]
  cases hrun : runScript C flags checker sigversion branch
      { st with vfExec := true :: st.vfExec, nOpCount := c } with
  | error e => exact .inl ⟨c, c, by rw [hrun]; rfl⟩
  | ok st₁ =>
    rcases hclose st₁ (vfExec_of_runScript hbranch hrun) with ⟨_, heq, c', rfl⟩ | hlimit
    · exact .inl ⟨c, c', by rw [hrun]; exact heq⟩
    · exact .inr hlimit

/-- **A conditional runs the branch that the top of the stack selects.** -/
theorem run_conditional (ht : t.Structured) (hf : f.Structured) (hnone : falseBranch = [] → f = [])
    (hst : Executing st) (hstack : st.stack = x :: stack) :
    RunsBranch C flags checker sigversion (if castToBool x then t else f) { st with stack := stack }
      (runScript C flags checker sigversion (opcodes [.OP_IF] ++ t ++
        (if falseBranch.isEmpty then [] else opcodes [.OP_ELSE] ++ f) ++ opcodes [.OP_ENDIF]) st) := by
  rw [append_assoc, append_assoc, runScript_opcode (by decide)]
  refine .bind (evalStep_if hst hstack) ?_
  rintro _ rfl
  cases castToBool x with
  | true => exact runsBranch_before ht fun st₁ hst₁ ↦ run_close hf hst₁
  | false =>
    rw [runScript_append ht]
    refine .bind (skip_cases ht mem_cons_self) ?_
    rintro _ ⟨c, rfl⟩
    rw [if_neg Bool.false_ne_true]
    cases falseBranch with
    | nil =>
      -- without a false branch, `OP_ENDIF` is next
      obtain rfl := hnone rfl
      have hend : UpToLimits _ (runScript C flags checker sigversion (opcodes [.OP_ENDIF])
          { st with stack := stack, vfExec := false :: st.vfExec, nOpCount := c }) := run_endif rfl
      rcases hend with ⟨_, heq, rfl⟩ | hlimit
      · exact .inl ⟨c, _, heq⟩
      · exact .inr hlimit
    | cons s falseBranch =>
      rw [isEmpty_cons, if_neg Bool.false_ne_true, append_assoc, runScript_opcode (by decide)]
      refine .bind (evalStep_else rfl) ?_
      rintro _ rfl
      exact runsBranch_before hf fun st₁ hst₁ ↦ (run_endif hst₁).mono fun _ h ↦ ⟨_, h⟩

/-! ### Expressions -/

variable (C flags checker sigversion) in
/-- The expression pushes one element and changes nothing else. If the element is not the only one, it
has to be an operand of the arithmetic opcodes. -/
def PushesNumber (single : Bool) (e : CScript) : Prop :=
  ∀ st, Executing st → UpToLimits (fun st' ↦ ∃ x c,
      st' = { st with stack := x :: st.stack, nOpCount := c } ∧
        (single = false → (CScriptNum.ofVch x flags.minimaldata).isSome = true))
    (runScript C flags checker sigversion e st)

variable (C flags checker sigversion) in
/-- The expression pushes the number `n` in a state like `st`: with the expressions before it on the
stack, which are one element. -/
def PushedAt (st : EvalState) (e : CScript) (n : ℤ) : Prop :=
  ∃ before c x c', before.length ≤ 1 ∧
    runScript C flags checker sigversion e { st with stack := before ++ st.stack, nOpCount := c } =
      .ok { st with stack := x :: (before ++ st.stack), nOpCount := c' } ∧ CScriptNum.setVch x = n

theorem scriptNum_eq_ok {fRequireMinimal : Bool} (h : (CScriptNum.ofVch x fRequireMinimal).isSome = true) :
    scriptNum fRequireMinimal x CScriptNum.defaultMaxNumSize = .ok (CScriptNum.setVch x) := by
  obtain ⟨n, hn⟩ := Option.isSome_iff_exists.1 h
  rw [scriptNum, hn]
  simp only [CScriptNum.ofVch, Option.bind_eq_bind, Option.bind_eq_some_iff, Option.pure_def,
    Option.some.injEq] at hn
  obtain ⟨_, -, _, -, rfl⟩ := hn
  rfl

/-- `OP_BOOLAND`, up to the limits. -/
theorem run_booland {x₁ x₂ : Bytes} (hst : Executing st) (hstack : st.stack = x₂ :: x₁ :: stack)
    (h₁ : (CScriptNum.ofVch x₁ flags.minimaldata).isSome = true)
    (h₂ : (CScriptNum.ofVch x₂ flags.minimaldata).isSome = true) : UpToLimits (· = { st with
        stack := CScriptNum.serialize (boolNum (castToBool x₁ && castToBool x₂)) :: stack,
        nOpCount := st.nOpCount + 1 })
      (runScript C flags checker sigversion (opcodes [.OP_BOOLAND]) st) := by
  have hget := CScript.getOp_toByte (show Opcode.ofByte Opcode.OP_BOOLAND.toByte = .OP_BOOLAND from rfl)
    (by decide) []
  have hexec : execInstruction C flags checker sigversion ⟨.OP_BOOLAND, [], []⟩
      { st with nOpCount := st.nOpCount + 1 } = .ok { st with
        stack := CScriptNum.serialize (boolNum (castToBool x₁ && castToBool x₂)) :: stack,
        nOpCount := st.nOpCount + 1 } := by
    rw [execInstruction, hst, if_neg (by decide), if_pos (by decide)]
    show binaryNum flags _ _ = _
    simp only [binaryNum, hstack, scriptNum_eq_ok h₁, scriptNum_eq_ok h₂, Except.ok_bind,
      Except.pure_eq_ok, CScriptNum.castToBool_eq]
  have hstep : UpToLimits _ (evalStep C flags checker sigversion st ⟨.OP_BOOLAND, [], []⟩) :=
    evalStep_upToLimits rfl hexec
  rw [show opcodes [.OP_BOOLAND] = [Opcode.OP_BOOLAND.toByte] from rfl, runScript_of_getOp hget]
  exact hstep.bind fun st₁ hst₁ ↦ .inl ⟨st₁, rfl, hst₁⟩

/-- The expressions after the first one, each with its `OP_BOOLAND`: the element below them becomes
true if it was and all of them are. -/
theorem run_andExpressions {es : List CScript} {a : Bytes} {c : ℕ} (hst : Executing st)
    (ha : (CScriptNum.ofVch a flags.minimaldata).isSome = true) (hes : ∀ e ∈ es, e.Structured)
    (hpush : ∀ e ∈ es, PushesNumber C flags checker sigversion false e) :
    UpToLimits (fun st' ↦ ∃ a' c' ns, st' = { st with stack := a' :: st.stack, nOpCount := c' } ∧
        List.Forall₂ (PushedAt C flags checker sigversion st) es ns ∧
        castToBool a' = (castToBool a && ns.all (· != 0)))
      (runScript C flags checker sigversion (es.flatMap (· ++ opcodes [.OP_BOOLAND]))
        { st with stack := a :: st.stack, nOpCount := c }) := by
  induction es generalizing a c with
  | nil => exact .inl ⟨_, rfl, a, c, [], rfl, .nil, (Bool.and_true _).symm⟩
  | cons e es ih =>
    rw [forall_mem_cons] at hes hpush
    rw [flatMap_cons, append_assoc, runScript_append hes.1]
    rcases hpush.1 { st with stack := a :: st.stack, nOpCount := c } hst with
      ⟨_, hrun, x, c₁, rfl, hx⟩ | ⟨_, hlimit, hrun⟩
    · rw [hrun, Except.ok_bind, runScript_append (.opcodes (by decide))]
      have hand : UpToLimits _ (runScript C flags checker sigversion (opcodes [.OP_BOOLAND])
          { st with stack := x :: a :: st.stack, nOpCount := c₁ }) := run_booland hst rfl ha (hx rfl)
      refine hand.bind ?_
      rintro _ rfl
      refine (ih (CScriptNum.ofVch_serialize_boolNum _ _) hes.2 hpush.2).mono ?_
      rintro _ ⟨a', c', ns, rfl, hns, ha'⟩
      refine ⟨a', c', CScriptNum.setVch x :: ns, rfl, .cons ⟨[a], c, x, c₁, le_rfl, hrun, rfl⟩ hns, ?_⟩
      rw [ha', CScriptNum.castToBool_serialize_boolNum, CScriptNum.castToBool_eq x, Bool.and_assoc,
        all_cons]
    · rw [hrun]
      exact .inr ⟨_, hlimit, rfl⟩

/-- **The expressions leave one element, which is true if all of their numbers are not zero.** -/
theorem run_joinExpressions (hst : Executing st) (hne : exprs ≠ []) (hexprs : ∀ e ∈ exprs, e.Structured)
    (hpush : ∀ e ∈ exprs, PushesNumber C flags checker sigversion (exprs.length == 1) e) :
    UpToLimits (fun st' ↦ ∃ a c ns, st' = { st with stack := a :: st.stack, nOpCount := c } ∧
        List.Forall₂ (PushedAt C flags checker sigversion st) exprs ns ∧
        castToBool a = ns.all (· != 0))
      (runScript C flags checker sigversion (joinExpressions exprs) st) := by
  cases exprs with
  | nil => exact absurd rfl hne
  | cons e es =>
    rw [forall_mem_cons] at hexprs hpush
    rw [joinExpressions, runScript_append hexprs.1]
    rcases hpush.1 st hst with ⟨_, hrun, x, c, rfl, hx⟩ | ⟨_, hlimit, hrun⟩
    · have hfirst : PushedAt C flags checker sigversion st e (CScriptNum.setVch x) :=
        ⟨[], st.nOpCount, x, c, Nat.zero_le _, hrun, rfl⟩
      rw [hrun, Except.ok_bind]
      cases es with
      | nil =>
        -- a single expression is not looked at before `OP_IF`
        refine .inl ⟨_, rfl, x, c, [CScriptNum.setVch x], rfl, .cons hfirst .nil, ?_⟩
        rw [CScriptNum.castToBool_eq, all_cons, all_nil, Bool.and_true]
      | cons e' es =>
        have hsingle : ((e :: e' :: es).length == 1) = false := by simp
        rw [hsingle] at hx hpush
        refine (run_andExpressions hst (hx rfl) hexprs.2 hpush.2).mono ?_
        rintro _ ⟨a, c', ns, rfl, hns, ha⟩
        refine ⟨a, c', CScriptNum.setVch x :: ns, rfl, .cons hfirst hns, ?_⟩
        rw [ha, CScriptNum.castToBool_eq x, all_cons]
    · rw [hrun]
      exact .inr ⟨_, hlimit, rfl⟩

variable (C flags checker sigversion) in
/-- What a condition does in the state `st`: its expressions push the numbers `ns`, and the branch that
they select is run, unless a limit was hit. -/
def RunsCondition (exprs : List CScript) (t f : CScript) (st : EvalState)
    (x : Except ScriptError EvalState) : Prop :=
  (∃ ns, List.Forall₂ (PushedAt C flags checker sigversion st) exprs ns ∧
      RunsBranch C flags checker sigversion (if ns.all (· != 0) then t else f) st x) ∨
    ∃ e, isLimit e = true ∧ x = .error e

/-- **A condition runs the branch that its expressions select.** -/
theorem run_conditionScript (hst : Executing st) (hne : exprs ≠ [])
    (hexprs : ∀ e ∈ exprs, e.Structured) (htrue : CScript.Structured trueBranch.flatten)
    (hfalse : CScript.Structured falseBranch.flatten)
    (hpush : ∀ e ∈ exprs, PushesNumber C flags checker sigversion (exprs.length == 1) e) :
    RunsCondition C flags checker sigversion exprs trueBranch.flatten falseBranch.flatten st
      (runScript C flags checker sigversion (conditionScript exprs trueBranch falseBranch) st) := by
  rw [conditionScript_eq, runScript_append (structured_joinExpressions hexprs)]
  rcases run_joinExpressions hst hne hexprs hpush with
    ⟨_, hrun, a, c, ns, rfl, hns, ha⟩ | ⟨_, hlimit, hrun⟩
  · refine .inl ⟨ns, hns, ?_⟩
    rw [hrun, Except.ok_bind, ← ha]
    exact run_conditional htrue hfalse (fun h ↦ by rw [h]; rfl) hst rfl
  · rw [hrun]
    exact .inr ⟨_, hlimit, rfl⟩

theorem pushesNumber_opcode {single : Bool} (hop : op.Plain)
    (hx : (CScriptNum.ofVch x flags.minimaldata).isSome = true)
    (hexec : ∀ st, execOp C flags checker sigversion true ⟨op, [], []⟩ st = .ok (st.push x)) :
    PushesNumber C flags checker sigversion single [op.toByte] := fun st hst ↦ by
  have hpush : ¬op ≤ .OP_PUSHDATA4 := UInt8.not_le.2 hop.notPush
  have hcount : (countOp ⟨op, [], []⟩ st).vfExec.contains false = false := by
    rw [vfExec_countOp]
    exact hst
  have hinstruction : execInstruction C flags checker sigversion ⟨op, [], []⟩
      (countOp ⟨op, [], []⟩ st) = .ok ((countOp ⟨op, [], []⟩ st).push x) := by
    rw [execInstruction, hcount, if_neg (by simp [hpush]), if_pos (by simp), ← hexec]
    rfl
  rw [runScript_of_getOp (CScript.getOp_toByte hop.byte hop.notPush [])]
  refine (evalStep_upToLimits hop.enabled hinstruction).bind ?_
  rintro _ rfl
  refine .inl ⟨_, rfl, x, (countOp ⟨op, [], []⟩ st).nOpCount, ?_, fun _ ↦ hx⟩
  rw [countOp]
  split_ifs <;> rfl

/-! ### Compiled contracts -/

/-- **What compiles is balanced, and its conditions run the branch that their expressions select.** -/
theorem compile_conditions : (∀ root script, compile root = .ok script → script.length < 2 ^ 32 →
      script.wellFormed = true ∧ script.balanced = true) ∧
    ∀ C flags checker sigversion T levels condObj script,
      compileCondition T levels condObj = .ok script → script.length < 2 ^ 32 →
      ∃ levels' exprs trueBranch falseBranch, levels = levels' + 1 ∧
        CompilesParts T levels' condObj exprs trueBranch falseBranch ∧
        (exprs ≠ [] → (∀ e ∈ exprs, PushesNumber C flags checker sigversion (exprs.length == 1) e) →
          ∀ st, Executing st →
            RunsCondition C flags checker sigversion exprs trueBranch.flatten falseBranch.flatten st
              (runScript C flags checker sigversion script st)) := by
  refine ⟨fun root script h hlength ↦ ?_, fun C flags checker sigversion T levels condObj script h hlength ↦ ?_⟩
  · have hs := fits_compileRoot h hlength
    refine ⟨hs.wellFormed, ?_⟩
    rw [CScript.balanced, hs.nested []]
    rfl
  · obtain ⟨levels', exprs, trueBranch, falseBranch, rfl, hparts, rfl⟩ := compileCondition_eq_ok h
    refine ⟨levels', exprs, trueBranch, falseBranch, rfl, hparts, fun hne hpush st hst ↦ ?_⟩
    have hfits := (fits_compile (T := T) levels').1
    have hle := length_le_conditionScript exprs trueBranch falseBranch
    refine run_conditionScript hst hne (fun e he ↦ ?_) ?_ ?_ hpush
    · exact forall_mem_of_mapM_eq_ok hparts.exprs hfits e he
        ((length_le_joinExpressions he).trans_lt (by omega))
    · exact Fits.flatten (forall_mem_of_mapM_eq_ok hparts.trueBranch hfits) (by omega)
    · exact Fits.flatten (forall_mem_of_mapM_eq_ok hparts.falseBranch hfits) (by omega)

/-- A `number` block in place. -/
def numberBlock (n : ℤ) : UniValue :=
  .VOBJ [("type", .VSTR "basic"), ("name", .VSTR "number"), ("role", .VSTR "number"),
    ("inputs", .VARR [.VOBJ [("value", .VNUM (some n))]])]

/-- A condition on numbers, with the branches `3` and `4`. -/
def numberCondition (ns : List ℤ) : UniValue :=
  .VOBJ [("type", .VSTR "condition"), ("name", .VSTR "if"), ("role", .VSTR "if-condition"),
    ("expressions", .VARR (ns.map numberBlock)), ("true", .VARR [numberBlock 3]),
    ("false", .VARR [numberBlock 4])]

def numberContract (ns : List ℤ) : UniValue :=
  .VOBJ [("type", .VSTR "contract"), ("actions", .VARR [numberCondition ns])]

def refusingChecker : BaseSignatureChecker := ⟨fun _ _ _ _ ↦ false, fun _ ↦ false, fun _ ↦ false⟩

theorem compile_conditions_two :
    (compile (numberContract [1, 2]) = .ok [0x51, 0x52, 0x9a, 0x63, 0x53, 0x67, 0x54, 0x68] ∧
      CScript.balanced [0x51, 0x52, 0x9a, 0x63, 0x53, 0x67, 0x54, 0x68] = true) ∧
    RunsCondition default {} refusingChecker .SIGVERSION_BASE
      [[0x51], [0x52]] [0x53] [0x54] { stack := [], codehash := [] }
      (runScript default {} refusingChecker .SIGVERSION_BASE
        [0x51, 0x52, 0x9a, 0x63, 0x53, 0x67, 0x54, 0x68] { stack := [], codehash := [] }) := by
  have hcompile : compile (numberContract [1, 2]) =
      .ok [0x51, 0x52, 0x9a, 0x63, 0x53, 0x67, 0x54, 0x68] := by decide
  refine ⟨⟨hcompile, (compile_conditions.1 _ _ hcompile (by decide)).2⟩, ?_⟩
  obtain ⟨levels', exprs, trueBranch, falseBranch, hlevels, hparts, hrun⟩ :=
    compile_conditions.2 default {} refusingChecker .SIGVERSION_BASE ⟨fun _ ↦ none, fun _ ↦ none⟩ 2
      (numberCondition [1, 2]) [0x51, 0x52, 0x9a, 0x63, 0x53, 0x67, 0x54, 0x68] (by decide)
      (by decide)
  obtain rfl : levels' = 1 := by omega
  obtain rfl : [[0x51], [0x52]] = exprs :=
    Except.ok.inj (Eq.trans (by decide) hparts.exprs)
  obtain rfl : [[0x53]] = trueBranch :=
    Except.ok.inj (Eq.trans (by decide) hparts.trueBranch)
  obtain rfl : [[0x54]] = falseBranch :=
    Except.ok.inj (Eq.trans (by decide) hparts.falseBranch)
  refine hrun (by decide) ?_ _ rfl
  rw [forall_mem_cons, forall_mem_singleton]
  exact ⟨pushesNumber_opcode (x := [1]) (show Opcode.OP_1.Plain by decide) rfl fun _ ↦ rfl,
    pushesNumber_opcode (x := [2]) (show Opcode.OP_2.Plain by decide) rfl fun _ ↦ rfl⟩

/-- The interpreter's limits show: `OP_BOOLAND` takes no number of five bytes, and a script has at most
201 opcodes that are not pushes. -/
theorem numberContract_fails :
    (compile (numberContract [2 ^ 31, 1])).map (evalScript default {} refusingChecker
      .SIGVERSION_BASE []) = .ok (.error .SCRIPT_ERR_UNKNOWN_ERROR) ∧
    PushesNumber default {} refusingChecker .SIGVERSION_BASE false (pushInt 1) ∧
    (compile (numberContract (List.replicate 202 1))).map (evalScript default {} refusingChecker
      .SIGVERSION_BASE []) = .ok (.error .SCRIPT_ERR_OP_COUNT) := by
  refine ⟨by decide +kernel, ?_, by decide +kernel⟩
  exact pushesNumber_opcode (x := [1]) (show Opcode.OP_1.Plain by decide) rfl fun _ ↦ rfl

end Mescal

end KristaTech
