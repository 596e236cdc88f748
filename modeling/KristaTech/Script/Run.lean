import KristaTech.Library.EarlyExit
import KristaTech.Script.Instructions
import KristaTech.Script.Interpreter

/-!
# Running parts of a script

The loop of `EvalScript` over a part of a script (`runScript`). The parts are *structured*: whole
instructions, with the conditionals closed in the part that opens them, and without the few opcodes
that look at more than the state. Such parts run one after the other (`runScript_append`); a part
that is executed leaves the open conditionals as they were (`vfExec_of_runScript`), and one that is
not executed does nothing but count towards the limits (`skip_cases`).
-/

namespace KristaTech

open List

def conditionalOpcodes : List Opcode := [.OP_IF, .OP_NOTIF, .OP_ELSE, .OP_ENDIF]

/-- The opcode looks at the state only, and does not fail where it is not executed. -/
structure Opcode.Ordinary (op : Opcode) : Prop where
  separator : op ≠ .OP_CODESEPARATOR
  enabled : isDisabled op = false
  conditional : .OP_IF ≤ op → op ≤ .OP_ENDIF → op ∈ conditionalOpcodes

/-- A part of a script that can be looked at on its own. -/
structure CScript.Structured (s : CScript) : Prop where
  wellFormed : s.wellFormed = true
  nested : ∀ conds, s.opcodes.foldlM scanConditional conds = some conds
  ordinary : ∀ op ∈ s.opcodes, op.Ordinary

section Frame

variable {C : Crypto} {flags : ScriptFlags} {checker : BaseSignatureChecker} {sigversion : SigVersion}
  {st st' : EvalState} {op : ScriptOp} {fExec : Bool}

/-! ### What leaves the conditionals alone -/

/-- A result with the same open conditionals, if there is one. -/
def KeepsConds (st : EvalState) (x : Except ScriptError EvalState) : Prop :=
  ∀ st', x = .ok st' → st'.vfExec = st.vfExec

theorem KeepsConds.error (e : ScriptError) : KeepsConds st (.error e) := fun _ h ↦ by cases h

theorem KeepsConds.ok (h : st'.vfExec = st.vfExec) : KeepsConds st (.ok st') := fun _ heq ↦ by
  rw [← Except.ok.inj heq, h]

theorem KeepsConds.bind {α : Type} {x : Except ScriptError α} {f : α → Except ScriptError EvalState}
    (h : ∀ a, KeepsConds st (f a)) : KeepsConds st (x >>= f) := fun st' heq ↦ by
  obtain ⟨a, -, heq⟩ := Except.bind_eq_ok_iff.1 heq
  exact h a st' heq

variable {x : Except ScriptError EvalState} {f : EvalState → Except ScriptError EvalState}
  {P Q : EvalState → Prop} {conds : List Bool}

theorem KeepsConds.trans (hx : KeepsConds st x) (hf : ∀ st, KeepsConds st (f st)) :
    KeepsConds st (x >>= f) :=
  fun st' heq ↦ by
    obtain ⟨st₁, hst₁, heq⟩ := Except.bind_eq_ok_iff.1 heq
    rw [hf st₁ st' heq, hx st₁ hst₁]

theorem KeepsConds.ite {c : Prop} [Decidable c] {y : Except ScriptError EvalState}
    (hx : KeepsConds st x) (hy : KeepsConds st y) : KeepsConds st (if c then x else y) := by
  split_ifs
  · exact hx
  · exact hy

theorem keepsConds_onStack (f : List Bytes → Option (List Bytes)) : KeepsConds st (st.onStack f) := by
  rw [EvalState.onStack]
  cases f st.stack with
  | none => exact .error _
  | some stack => exact .ok rfl

theorem keepsConds_unaryNum (f : ℤ → ℤ) : KeepsConds st (unaryNum flags st f) := by
  rw [unaryNum]
  cases st.stack with
  | nil => exact .error _
  | cons x s => exact .bind fun _ ↦ .ok rfl

theorem keepsConds_binaryNum (f : ℤ → ℤ → ℤ) : KeepsConds st (binaryNum flags st f) := by
  rw [binaryNum]
  split
  · exact .bind fun _ ↦ .bind fun _ ↦ .ok rfl
  · exact .error _

theorem keepsConds_verifyTop (e : ScriptError) : KeepsConds st (verifyTop e st) := by
  rw [verifyTop]
  split
  · exact .ite (.ok rfl) (.error _)
  · exact .error _

theorem keepsConds_execCheckSig : KeepsConds st (execCheckSig C flags checker sigversion st) := by
  rw [execCheckSig]
  split
  · exact .bind fun _ ↦ .ok rfl
  · exact .error _

theorem keepsConds_execCheckSigAdd : KeepsConds st (execCheckSigAdd flags checker sigversion st) := by
  rw [execCheckSigAdd]
  refine .ite (.error _) ?_
  split
  · exact .bind fun _ ↦ .ok rfl
  · exact .error _

theorem keepsConds_execCheckMultisig : KeepsConds st (execCheckMultisig C flags checker sigversion st) := by
  rw [execCheckMultisig]
  split
  · exact .error _
  · refine .bind fun _ ↦ .ite (.error _) (.ite (.error _) ?_)
    split
    · exact .error _
    · refine .bind fun _ ↦ .ite (.error _) ?_
      dsimp only
      split
      · exact .error _
      · exact .bind fun _ ↦ .ite (.error _) (.ite (.error _) (.ok rfl))

theorem keepsConds_execPick (roll : Bool) : KeepsConds st (execPick flags roll st) := by
  rw [execPick]
  split
  · exact .bind fun _ ↦ .ite (.error _) (.ok rfl)
  · exact .error _

theorem keepsConds_execCheckLockTimeVerify : KeepsConds st (execCheckLockTimeVerify flags checker st) := by
  rw [execCheckLockTimeVerify]
  refine .ite (.ite (.error _) (.ok rfl)) ?_
  split
  · exact .bind fun _ ↦ .ite (.error _) (.ite (.error _) (.ok rfl))
  · exact .error _

theorem keepsConds_execCheckSequenceVerify : KeepsConds st (execCheckSequenceVerify flags checker st) := by
  rw [execCheckSequenceVerify]
  refine .ite (.ok rfl) ?_
  split
  · exact .bind fun _ ↦ .ite (.error _) (.ite (.ok rfl) (.ite (.error _) (.ok rfl)))
  · exact .error _

/-- **Only the opcodes of conditionals change the conditionals.** -/
theorem keepsConds_execOp (hop : op.opcode ∉ conditionalOpcodes) :
    KeepsConds st (execOp C flags checker sigversion fExec op st) := by
  obtain ⟨opcode, vch, rest⟩ := op
  cases opcode
  all_goals dsimp only [execOp]
  all_goals first
    | exact .ok rfl
    | exact .error _
    | exact keepsConds_onStack _
    | exact keepsConds_unaryNum _
    | exact keepsConds_binaryNum _
    | exact keepsConds_verifyTop _
    | exact keepsConds_execCheckSig
    | exact keepsConds_execCheckSigAdd
    | exact keepsConds_execCheckMultisig
    | exact keepsConds_execPick _
    | exact keepsConds_execCheckLockTimeVerify
    | exact keepsConds_execCheckSequenceVerify
    | exact .ite (.error _) (.ok rfl)
    | exact keepsConds_execCheckSig.trans fun _ ↦ keepsConds_verifyTop _
    | exact keepsConds_execCheckMultisig.trans fun _ ↦ keepsConds_verifyTop _
    | exact (keepsConds_binaryNum _).trans fun _ ↦ keepsConds_verifyTop _
    | split <;> first
      | exact .ok rfl
      | exact .error _
      | exact .ite (.ok rfl) (.error _)
      | exact .bind fun _ ↦ .bind fun _ ↦ .bind fun _ ↦ .ok rfl
    | simp [conditionalOpcodes] at hop

/-! ### One turn of the loop -/

theorem execOp_followedBy (hop : op.opcode ≠ .OP_CODESEPARATOR) (t : CScript) :
    execOp C flags checker sigversion fExec (op.followedBy t) st =
      execOp C flags checker sigversion fExec op st := by
  obtain ⟨opcode, vch, rest⟩ := op
  cases opcode
  all_goals first
    | rfl
    | exact absurd rfl hop

/-- What follows an instruction does not matter to it, unless it is `OP_CODESEPARATOR`. -/
theorem evalStep_followedBy (hop : op.opcode ≠ .OP_CODESEPARATOR) (t : CScript) :
    evalStep C flags checker sigversion st (op.followedBy t) =
      evalStep C flags checker sigversion st op := by
  have hinstruction (st : EvalState) : execInstruction C flags checker sigversion (op.followedBy t) st =
      execInstruction C flags checker sigversion op st := by
    rw [execInstruction, execOp_followedBy hop]
    rfl
  rw [evalStep, hinstruction]
  rfl

def isLimit : ScriptError → Bool
  | .SCRIPT_ERR_PUSH_SIZE | .SCRIPT_ERR_OP_COUNT | .SCRIPT_ERR_STACK_SIZE => true
  | _ => false

/-- A result that satisfies a property, unless a limit was hit. -/
def UpToLimits (P : EvalState → Prop) (x : Except ScriptError EvalState) : Prop :=
  (∃ st, x = .ok st ∧ P st) ∨ ∃ e, isLimit e = true ∧ x = .error e

theorem UpToLimits.bind (hx : UpToLimits P x) (hf : ∀ st, P st → UpToLimits Q (f st)) :
    UpToLimits Q (x >>= f) := by
  rcases hx with ⟨st, rfl, hst⟩ | ⟨e, he, rfl⟩
  · exact hf st hst
  · exact .inr ⟨e, he, rfl⟩

theorem UpToLimits.mono (hx : UpToLimits P x) (h : ∀ st, P st → Q st) : UpToLimits Q x :=
  hx.imp_left fun ⟨st, hst, hP⟩ ↦ ⟨st, hst, h st hP⟩

theorem evalStep_upToLimits (hop : isDisabled op.opcode = false)
    (h : execInstruction C flags checker sigversion op (countOp op st) = .ok st') :
    UpToLimits (· = st') (evalStep C flags checker sigversion st op) := by
  rw [evalStep]
  split_ifs with hsize hcount hdisabled
  · exact .inr ⟨_, rfl, rfl⟩
  · exact .inr ⟨_, rfl, rfl⟩
  · rw [hop] at hdisabled
    cases hdisabled
  · rw [h]
    show UpToLimits _ (if 1000 < st'.stack.length + st'.altstack.length then _ else _)
    split_ifs
    · exact .inr ⟨_, rfl, rfl⟩
    · exact .inl ⟨st', rfl, rfl⟩

theorem execInstruction_of_evalStep (h : evalStep C flags checker sigversion st op = .ok st') :
    execInstruction C flags checker sigversion op (countOp op st) = .ok st' := by
  rw [evalStep] at h
  split_ifs at h
  obtain ⟨st₁, hst₁, h⟩ := Except.bind_eq_ok_iff.1 h
  split_ifs at h
  rw [hst₁]
  exact h

@[simp]
theorem vfExec_countOp : (countOp op st).vfExec = st.vfExec := by
  rw [countOp]
  split_ifs <;> rfl

/-! ### The conditionals of a part -/

theorem scanConditional_of_not_mem {opcode : Opcode} (hop : opcode ∉ conditionalOpcodes)
    (conds : List Bool) : CScript.scanConditional conds opcode = some conds := by
  cases opcode
  all_goals first
    | rfl
    | simp [conditionalOpcodes] at hop

theorem keepsConds_execInstruction (hop : op.opcode ∉ conditionalOpcodes) :
    KeepsConds st (execInstruction C flags checker sigversion op st) :=
  .ite (.ite (.error _) (.ok rfl)) (.ite (keepsConds_execOp hop) (.ok rfl))

/-- The opcodes of conditionals are looked at whether they are executed or not. -/
theorem execInstruction_conditional (hop : op.opcode ∈ conditionalOpcodes) :
    execInstruction C flags checker sigversion op st =
      execOp C flags checker sigversion (!st.vfExec.contains false) op st := by
  have hrange : ∀ opcode ∈ conditionalOpcodes,
      ¬opcode ≤ .OP_PUSHDATA4 ∧ (.OP_IF ≤ opcode ∧ opcode ≤ .OP_ENDIF) := by decide
  obtain ⟨hpush, hif, hendif⟩ := hrange _ hop
  simp [execInstruction, hpush, hif, hendif]

theorem vfExec_of_execIf {notif : Bool} (h : execIf fExec notif st = .ok st') :
    ∃ b, st'.vfExec = b :: st.vfExec := by
  rw [execIf] at h
  split_ifs at h
  · cases hstack : st.stack with
    | nil =>
      rw [hstack] at h
      cases h
    | cons x s =>
      rw [hstack] at h
      obtain rfl := Except.ok.inj h
      exact ⟨_, rfl⟩
  · obtain rfl := Except.ok.inj h
    exact ⟨_, rfl⟩

theorem execOp_else {vch : Bytes} {rest : CScript} {b : Bool} (hst : st.vfExec = b :: conds) :
    execOp C flags checker sigversion fExec ⟨.OP_ELSE, vch, rest⟩ st =
      .ok { st with vfExec := (!b) :: conds } := by
  rw [execOp]
  simp only [hst]

theorem execOp_endif {vch : Bytes} {rest : CScript} {b : Bool} (hst : st.vfExec = b :: conds) :
    execOp C flags checker sigversion fExec ⟨.OP_ENDIF, vch, rest⟩ st =
      .ok { st with vfExec := conds } := by
  rw [execOp]
  simp only [hst]

theorem vfExec_of_execInstruction {W V conds' : List Bool}
    (h : execInstruction C flags checker sigversion op st = .ok st')
    (hscan : CScript.scanConditional conds op.opcode = some conds') (hst : st.vfExec = W ++ V)
    (hlength : W.length = conds.length) :
    ∃ W', st'.vfExec = W' ++ V ∧ W'.length = conds'.length := by
  by_cases hop : op.opcode ∈ conditionalOpcodes
  · rw [execInstruction_conditional hop] at h
    obtain ⟨opcode, vch, rest⟩ := op
    simp only [conditionalOpcodes, mem_cons, not_mem_nil, or_false] at hop
    rcases hop with rfl | rfl | rfl | rfl
    · obtain rfl := Option.some.inj hscan
      obtain ⟨b, hb⟩ := vfExec_of_execIf h
      exact ⟨b :: W, by rw [hb, hst]; rfl, congrArg Nat.succ hlength⟩
    · obtain rfl := Option.some.inj hscan
      obtain ⟨b, hb⟩ := vfExec_of_execIf h
      exact ⟨b :: W, by rw [hb, hst]; rfl, congrArg Nat.succ hlength⟩
    · cases W with
      | nil =>
        rw [length_nil, eq_comm, length_eq_zero_iff] at hlength
        rw [hlength] at hscan
        cases hscan
      | cons b W =>
        have hconds : conds'.length = conds.length := by
          rcases conds with - | ⟨- | -, conds⟩ <;> cases hscan
          rfl
        rw [execOp_else hst] at h
        obtain rfl := Except.ok.inj h
        exact ⟨(!b) :: W, rfl, by rw [hconds, ← hlength]; rfl⟩
    · cases W with
      | nil =>
        rw [length_nil, eq_comm, length_eq_zero_iff] at hlength
        rw [hlength] at hscan
        cases hscan
      | cons b W =>
        have hconds : conds'.length + 1 = conds.length := by
          rcases conds with - | ⟨- | -, conds⟩ <;> cases hscan <;> rfl
        rw [execOp_endif hst] at h
        obtain rfl := Except.ok.inj h
        exact ⟨W, rfl, by rw [length_cons] at hlength; omega⟩
  · rw [scanConditional_of_not_mem hop] at hscan
    obtain rfl := Option.some.inj hscan
    exact ⟨W, by rw [keepsConds_execInstruction hop st' h, hst], hlength⟩

end Frame

/-! ### Parts of a script -/

section Run

variable (C : Crypto) (flags : ScriptFlags) (checker : BaseSignatureChecker) (sigversion : SigVersion)

/-- The loop of `EvalScript` over a part of a script. -/
def runScript (s : CScript) (st : EvalState) : Except ScriptError EvalState :=
  s.ops.foldlM (evalStep C flags checker sigversion) st

variable {C flags checker sigversion} {s t : CScript} {st st' : EvalState}
variable {op : ScriptOp} {W V conds conds' : List Bool}

theorem runScript_of_getOp (h : s.getOp = some op) : runScript C flags checker sigversion s st =
      evalStep C flags checker sigversion st op >>= runScript C flags checker sigversion op.rest := by
  rw [runScript, CScript.ops_of_getOp h, foldlM_cons]
  rfl

/-- **Parts run one after the other.** -/
theorem runScript_append (hs : s.Structured) (t : CScript) :
    runScript C flags checker sigversion (s ++ t) st =
      runScript C flags checker sigversion s st >>= runScript C flags checker sigversion t := by
  have hloop (l : List ScriptOp) (hl : ∀ op ∈ l, op.opcode ≠ .OP_CODESEPARATOR) (st : EvalState) :
      (l.map (·.followedBy t)).foldlM (evalStep C flags checker sigversion) st =
        l.foldlM (evalStep C flags checker sigversion) st := by
    induction l generalizing st with
    | nil => rfl
    | cons op l ih =>
      rw [forall_mem_cons] at hl
      rw [map_cons, foldlM_cons, foldlM_cons, evalStep_followedBy hl.1]
      exact bind_congr (ih hl.2)
  rw [runScript, CScript.ops_append hs.wellFormed, foldlM_append, hloop]
  · rfl
  · exact fun op hop ↦ (hs.ordinary op.opcode (mem_map.2 ⟨op, hop, rfl⟩)).separator

theorem vfExec_of_foldlM {l : List ScriptOp}
    (h : l.foldlM (evalStep C flags checker sigversion) st = .ok st')
    (hscan : (l.map (·.opcode)).foldlM CScript.scanConditional conds = some conds')
    (hst : st.vfExec = W ++ V) (hlength : W.length = conds.length) :
    ∃ W', st'.vfExec = W' ++ V ∧ W'.length = conds'.length := by
  induction l generalizing st W conds with
  | nil =>
    obtain rfl := Except.ok.inj h
    obtain rfl := Option.some.inj hscan
    exact ⟨W, hst, hlength⟩
  | cons op l ih =>
    rw [foldlM_cons] at h
    rw [map_cons, foldlM_cons] at hscan
    obtain ⟨st₁, hstep, h⟩ := Except.bind_eq_ok_iff.1 h
    obtain ⟨conds₁, hconds, hscan⟩ := Option.bind_eq_some_iff.1 hscan
    obtain ⟨W₁, hst₁, hlength₁⟩ := vfExec_of_execInstruction (execInstruction_of_evalStep hstep) hconds
      (by rw [vfExec_countOp, hst]) hlength
    exact ih h hscan hst₁ hlength₁

/-- **A part closes what it opens.** -/
theorem vfExec_of_runScript (hs : s.Structured)
    (h : runScript C flags checker sigversion s st = .ok st') : st'.vfExec = st.vfExec := by
  obtain ⟨W, hst', hlength⟩ := vfExec_of_foldlM (W := []) h (hs.nested []) rfl rfl
  rw [hst', length_eq_zero_iff.1 hlength, nil_append]

variable (C flags checker sigversion) in
/-- A conditional in a branch that is not executed only changes the conditionals. -/
theorem exists_execInstruction_conditional (hop : op.opcode ∈ conditionalOpcodes)
    (hexec : st.vfExec.contains false = true) :
    ∃ vfExec, execInstruction C flags checker sigversion op st = .ok { st with vfExec := vfExec } := by
  obtain ⟨b, conds, hst⟩ : ∃ b conds, st.vfExec = b :: conds := by
    cases hst : st.vfExec with
    | nil =>
      rw [hst] at hexec
      cases hexec
    | cons b conds => exact ⟨b, conds, rfl⟩
  rw [execInstruction_conditional hop, hexec]
  obtain ⟨opcode, vch, rest⟩ := op
  simp only [conditionalOpcodes, mem_cons, not_mem_nil, or_false] at hop
  rcases hop with rfl | rfl | rfl | rfl
  · exact ⟨_, rfl⟩
  · exact ⟨_, rfl⟩
  · exact ⟨_, execOp_else hst⟩
  · exact ⟨_, execOp_endif hst⟩

variable (C flags checker sigversion) in
theorem execInstruction_skip (hop : op.opcode.Ordinary)
    (hscan : CScript.scanConditional conds op.opcode = some conds') (hst : st.vfExec = W ++ V)
    (hlength : W.length = conds.length) (hfalse : false ∈ V) :
    ∃ W', execInstruction C flags checker sigversion op st = .ok { st with vfExec := W' ++ V } ∧
      W'.length = conds'.length := by
  have hexec : st.vfExec.contains false = true := by
    rw [hst, contains_iff_mem]
    exact mem_append_right _ hfalse
  by_cases hcond : op.opcode ∈ conditionalOpcodes
  · obtain ⟨vfExec, h⟩ :=
      exists_execInstruction_conditional C flags checker sigversion hcond hexec
    obtain ⟨W', hvfExec, hlength'⟩ := vfExec_of_execInstruction h hscan hst hlength
    exact ⟨W', by rw [h, ← hvfExec], hlength'⟩
  · rw [scanConditional_of_not_mem hcond] at hscan
    obtain rfl := Option.some.inj hscan
    have hrange : ¬(.OP_IF ≤ op.opcode ∧ op.opcode ≤ .OP_ENDIF) := fun h ↦
      hcond (hop.conditional h.1 h.2)
    refine ⟨W, ?_, hlength⟩
    rw [execInstruction, hexec, ← hst]
    rw [if_neg (by simp), if_neg (by simpa using hrange)]

theorem foldlM_skip {l : List ScriptOp} (hl : ∀ op ∈ l, op.opcode.Ordinary)
    (hscan : (l.map (·.opcode)).foldlM CScript.scanConditional conds = some conds')
    (hst : st.vfExec = W ++ V) (hlength : W.length = conds.length) (hfalse : false ∈ V) :
    UpToLimits (fun st' ↦ ∃ nOpCount W', st' = { st with nOpCount := nOpCount, vfExec := W' ++ V } ∧
      W'.length = conds'.length) (l.foldlM (evalStep C flags checker sigversion) st) := by
  induction l generalizing st W conds with
  | nil =>
    obtain rfl := Option.some.inj hscan
    exact .inl ⟨st, rfl, st.nOpCount, W, by rw [← hst], hlength⟩
  | cons op l ih =>
    rw [forall_mem_cons] at hl
    rw [map_cons, foldlM_cons] at hscan
    obtain ⟨conds₁, hconds, hscan⟩ := Option.bind_eq_some_iff.1 hscan
    obtain ⟨W₁, hstep, hlength₁⟩ := execInstruction_skip C flags checker sigversion
      hl.1 hconds (vfExec_countOp.trans hst) hlength hfalse
    rw [foldlM_cons]
    refine (evalStep_upToLimits hl.1.enabled hstep).bind ?_
    rintro st₁ rfl
    refine (ih hl.2 hscan rfl hlength₁).mono ?_
    rintro st' ⟨nOpCount, W', rfl, hlength'⟩
    refine ⟨nOpCount, W', ?_, hlength'⟩
    rw [countOp]
    split_ifs <;> rfl

/-- **A part that is not executed does nothing**, up to the limits. -/
theorem skip_cases (hs : s.Structured) (hfalse : false ∈ st.vfExec) :
    UpToLimits (fun st' ↦ ∃ nOpCount, st' = { st with nOpCount := nOpCount })
      (runScript C flags checker sigversion s st) := by
  refine (foldlM_skip (W := []) (fun op hop ↦ hs.ordinary _ (mem_map.2 ⟨op, hop, rfl⟩))
    (hs.nested []) rfl rfl hfalse).mono ?_
  rintro st' ⟨nOpCount, W', rfl, hlength⟩
  rw [length_eq_zero_iff.1 hlength]
  exact ⟨nOpCount, rfl⟩

end Run

end KristaTech
