import KristaTech.Script.Run
import KristaTech.Script.Verify

/-!
# What a script with a lock asks for

The scripts `<lock> OP_CHECKLOCKTIMEVERIFY OP_DROP <tail>`, with a tail that pays to a key or to its
hash, as the interpreter runs them.

In a registration any instruction may stand in the place of the lock, and its operand is read as the
number. The interpreter executes the instruction. Whatever it is, it only puts one new element on the
stack or moves elements (`evalStep_oldBelow`), so the key and the signature that are checked at the end
are elements that the spending transaction has brought, and the number that is compared with its lock
time is at least the one that was read (`unlocked_of_evalScript`).
-/

namespace KristaTech

open List Except

section Steps

variable {C : Crypto} {flags : ScriptFlags} {checker : BaseSignatureChecker} {sigversion : SigVersion}
  {st st' : EvalState} {op : ScriptOp}

/-! ### One turn outside of conditionals -/

@[simp]
theorem stack_countOp : (countOp op st).stack = st.stack := by
  rw [countOp]
  split_ifs <;> rfl

@[simp]
theorem altstack_countOp : (countOp op st).altstack = st.altstack := by
  rw [countOp]
  split_ifs <;> rfl

@[simp]
theorem codehash_countOp : (countOp op st).codehash = st.codehash := by
  rw [countOp]
  split_ifs <;> rfl

theorem exists_countOp_eq : ∃ c, countOp op st = { st with nOpCount := c } := by
  rw [countOp]
  split_ifs
  · exact ⟨_, rfl⟩
  · exact ⟨st.nOpCount, rfl⟩

theorem exists_of_evalStep (h : evalStep C flags checker sigversion st op = .ok st')
    (hexec : st.vfExec = []) :
    ∃ c, (op.opcode ≤ .OP_PUSHDATA4 → st' = { st with stack := op.vch :: st.stack, nOpCount := c }) ∧
      (¬op.opcode ≤ .OP_PUSHDATA4 →
        execOp C flags checker sigversion true op { st with nOpCount := c } = .ok st') := by
  have hinstruction := execInstruction_of_evalStep h
  obtain ⟨c, hcount⟩ : ∃ c, countOp op st = { st with nOpCount := c } := exists_countOp_eq
  have hcontains : st.vfExec.contains false = false := by rw [hexec, contains_nil]
  rw [hcount, execInstruction] at hinstruction
  refine ⟨c, fun hop ↦ ?_, fun hop ↦ ?_⟩
  · simp only [hcontains, Bool.not_false, Bool.true_and, decide_eq_true hop, if_true] at hinstruction
    split_ifs at hinstruction
    exact (Except.ok.inj hinstruction).symm
  · simpa only [hcontains, Bool.not_false, Bool.true_and, Bool.true_or, decide_eq_false hop,
      Bool.false_eq_true, if_false, if_true] using hinstruction

theorem vfExec_of_evalStep (hop : op.opcode ∉ conditionalOpcodes)
    (h : evalStep C flags checker sigversion st op = .ok st') : st'.vfExec = st.vfExec :=
  (keepsConds_execInstruction hop st' (execInstruction_of_evalStep h)).trans vfExec_countOp

/-! ### Old elements below the top -/

/-- A result whose elements but the first were on the stack before, and whose code starts where it did
or after the instruction. -/
def OldBelow (st : EvalState) (rest : CScript) (x : Except ScriptError EvalState) : Prop :=
  ∀ st', x = .ok st' →
    (∀ y ∈ st'.stack.tail, y ∈ st.stack) ∧ (st'.codehash = st.codehash ∨ st'.codehash = rest)

section OldBelow

variable {rest : CScript}

theorem OldBelow.error (e : ScriptError) : OldBelow st rest (.error e) := fun _ h ↦ by cases h

theorem OldBelow.ok (hstack : ∀ y ∈ st'.stack.tail, y ∈ st.stack)
    (hcode : st'.codehash = st.codehash ∨ st'.codehash = rest) : OldBelow st rest (.ok st') :=
  fun _ heq ↦ Except.ok.inj heq ▸ ⟨hstack, hcode⟩

theorem OldBelow.replaced {x : Bytes} {s : List Bytes} (hs : ∀ y ∈ s, y ∈ st.stack) :
    OldBelow st rest (.ok { st with stack := x :: s }) :=
  .ok hs (Or.inl rfl)

theorem OldBelow.bind {α : Type} {x : Except ScriptError α} {f : α → Except ScriptError EvalState}
    (h : ∀ a, OldBelow st rest (f a)) : OldBelow st rest (x >>= f) := fun st' heq ↦ by
  obtain ⟨a, -, heq⟩ := bind_eq_ok_iff.1 heq
  exact h a st' heq

variable {x : Except ScriptError EvalState}

theorem OldBelow.ite {c : Prop} [Decidable c] {y : Except ScriptError EvalState}
    (hx : OldBelow st rest x) (hy : OldBelow st rest y) :
    OldBelow st rest (if c then x else y) := by
  split_ifs
  · exact hx
  · exact hy

theorem oldBelow_onStack {f : List Bytes → Option (List Bytes)}
    (hf : ∀ s s', f s = some s' → ∀ y ∈ s'.tail, y ∈ s) : OldBelow st rest (st.onStack f) := by
  rw [EvalState.onStack]
  cases hs : f st.stack with
  | none => exact .error _
  | some stack => exact .ok (hf _ _ hs) (Or.inl rfl)

theorem oldBelow_unaryNum (f : ℤ → ℤ) : OldBelow st rest (unaryNum flags st f) := by
  rw [unaryNum]
  split
  · rename_i x s hs
    exact .bind fun _ ↦ .replaced fun y hy ↦ hs ▸ mem_cons_of_mem x hy
  · exact .error _

theorem oldBelow_binaryNum (f : ℤ → ℤ → ℤ) : OldBelow st rest (binaryNum flags st f) := by
  rw [binaryNum]
  split
  · rename_i x₂ x₁ s hs
    exact .bind fun _ ↦ .bind fun _ ↦ .replaced fun y hy ↦
      hs ▸ mem_cons_of_mem x₂ (mem_cons_of_mem x₁ hy)
  · exact .error _

theorem OldBelow.verifyTop (hx : OldBelow st rest x) (e : ScriptError) :
    OldBelow st rest (x >>= KristaTech.verifyTop e) := fun st' heq ↦ by
  obtain ⟨st₁, hst₁, heq⟩ := bind_eq_ok_iff.1 heq
  obtain ⟨hstack, hcode⟩ := hx st₁ hst₁
  rw [KristaTech.verifyTop] at heq
  split at heq
  · rename_i y s hs
    split_ifs at heq
    obtain rfl := Except.ok.inj heq
    rw [hs] at hstack
    exact ⟨fun z hz ↦ hstack z (mem_of_mem_tail hz), hcode⟩
  · cases heq

theorem oldBelow_execCheckSig : OldBelow st rest (execCheckSig C flags checker sigversion st) := by
  rw [execCheckSig]
  split
  · rename_i k sig s hs
    exact .bind fun _ ↦ .replaced fun y hy ↦ hs ▸ mem_cons_of_mem k (mem_cons_of_mem sig hy)
  · exact .error _

theorem oldBelow_execCheckSigAdd : OldBelow st rest (execCheckSigAdd flags checker sigversion st) := by
  rw [execCheckSigAdd]
  refine .ite (.error _) ?_
  split
  · rename_i k num sig s hs
    exact .bind fun _ ↦ .replaced fun y hy ↦
      hs ▸ mem_cons_of_mem k (mem_cons_of_mem num (mem_cons_of_mem sig hy))
  · exact .error _

theorem oldBelow_execCheckMultisig :
    OldBelow st rest (execCheckMultisig C flags checker sigversion st) := by
  rw [execCheckMultisig]
  split
  · exact .error _
  · rename_i keysCount rest₁ hs
    refine .bind fun _ ↦ .ite (.error _) (.ite (.error _) ?_)
    split
    · exact .error _
    · rename_i sigsCount rest₂ hkeys
      refine .bind fun _ ↦ .ite (.error _) ?_
      split
      · exact .error _
      · rename_i dummy s hsigs
        refine .bind fun _ ↦ .ite (.error _) (.ite (.error _) (.ok (fun y hy ↦ ?_) (Or.inl rfl)))
        -- what is left lies below the keys and the signatures
        have hdummy : y ∈ rest₂ := mem_of_mem_drop (hsigs ▸ mem_cons_of_mem dummy hy)
        have hcount : y ∈ rest₁ := mem_of_mem_drop (hkeys ▸ mem_cons_of_mem sigsCount hdummy)
        exact hs ▸ mem_cons_of_mem keysCount hcount

theorem oldBelow_execPick (roll : Bool) : OldBelow st rest (execPick flags roll st) := by
  rw [execPick]
  split
  · rename_i x y s hs
    refine .bind fun n ↦ .ite (.error _) (.replaced fun z hz ↦ ?_)
    have hbelow : z ∈ y :: s := by
      split_ifs at hz
      · exact mem_of_mem_eraseIdx hz
      · exact hz
    exact hs ▸ mem_cons_of_mem x hbelow
  · exact .error _

theorem oldBelow_self : OldBelow st rest (.ok st) := .ok (fun _ ↦ mem_of_mem_tail) (Or.inl rfl)

theorem oldBelow_execCheckLockTimeVerify : OldBelow st rest (execCheckLockTimeVerify flags checker st) := by
  rw [execCheckLockTimeVerify]
  refine .ite (.ite (.error _) oldBelow_self) ?_
  split
  · exact .bind fun _ ↦ .ite (.error _) (.ite (.error _) oldBelow_self)
  · exact .error _

theorem oldBelow_execCheckSequenceVerify : OldBelow st rest (execCheckSequenceVerify flags checker st) := by
  rw [execCheckSequenceVerify]
  refine .ite oldBelow_self ?_
  split
  · exact .bind fun _ ↦ .ite (.error _) (.ite oldBelow_self (.ite (.error _) oldBelow_self))
  · exact .error _

theorem oldBelow_execOp (halt : st.altstack = []) (hop : op.opcode ∉ conditionalOpcodes) :
    OldBelow st op.rest (execOp C flags checker sigversion true op st) := by
  obtain ⟨opcode, vch, rest⟩ := op
  cases opcode
  all_goals dsimp only [execOp]
  all_goals first
    | exact oldBelow_self
    | exact .error _
    | exact .ok (fun _ h ↦ h) (Or.inl rfl)
    | exact oldBelow_unaryNum _
    | exact oldBelow_binaryNum _
    | exact oldBelow_execCheckSig
    | exact oldBelow_execCheckSigAdd
    | exact oldBelow_execCheckMultisig
    | exact oldBelow_execPick _
    | exact oldBelow_execCheckLockTimeVerify
    | exact oldBelow_execCheckSequenceVerify
    | exact .ite (.error _) oldBelow_self
    | exact oldBelow_execCheckSig.verifyTop _
    | exact oldBelow_execCheckMultisig.verifyTop _
    | exact (oldBelow_binaryNum _).verifyTop _
    | exact oldBelow_self.verifyTop _
    | exact .ok (fun _ ↦ mem_of_mem_tail) (Or.inr rfl)
    | (refine oldBelow_onStack fun s s' h y hy ↦ ?_
       split at h <;> grind [mem_of_mem_tail])
    | (split <;> first
       | exact .error _
       | exact .ok (by grind [mem_of_mem_tail]) (Or.inl rfl)
       | exact .ite (.ok (by grind [mem_of_mem_tail]) (Or.inl rfl)) (.error _)
       | exact .bind fun _ ↦ .bind fun _ ↦ .bind fun _ ↦ .ok (by grind) (Or.inl rfl))
    | simp [conditionalOpcodes] at hop

/-- **Any instruction outside of conditionals leaves the elements below the top as they were**, unless
it opens a conditional. -/
theorem evalStep_oldBelow (hexec : st.vfExec = []) (halt : st.altstack = [])
    (h : evalStep C flags checker sigversion st op = .ok st') (hclosed : st'.vfExec = []) :
    (∀ y ∈ st'.stack.tail, y ∈ st.stack) ∧ (st'.codehash = st.codehash ∨ st'.codehash = op.rest) := by
  obtain ⟨c, hpush, hexecOp⟩ := exists_of_evalStep h hexec
  by_cases hop : op.opcode ≤ .OP_PUSHDATA4
  · rw [hpush hop]
    exact ⟨fun _ h ↦ h, Or.inl rfl⟩
  · have hrun := hexecOp hop
    have hconditional : op.opcode ∉ conditionalOpcodes := by
      intro hmem
      obtain ⟨opcode, vch, rest⟩ := op
      simp only [conditionalOpcodes, mem_cons, not_mem_nil, or_false] at hmem
      rcases hmem with rfl | rfl | rfl | rfl
      · obtain ⟨b, hb⟩ := vfExec_of_execIf (show execIf true false _ = _ from hrun)
        cases hclosed.symm.trans hb
      · obtain ⟨b, hb⟩ := vfExec_of_execIf (show execIf true true _ = _ from hrun)
        cases hclosed.symm.trans hb
      · simp [execOp, hexec] at hrun
      · simp [execOp, hexec] at hrun
    have hbelow (st : EvalState) (halt : st.altstack = []) :
        OldBelow st op.rest (execOp C flags checker sigversion true op st) :=
      oldBelow_execOp halt hconditional
    exact hbelow { st with nOpCount := c } halt st' hrun

end OldBelow

/-! ### The instructions of the tail -/

theorem exists_of_onStack {f : List Bytes → Option (List Bytes)} (g : Bytes → List Bytes → List Bytes)
    (hnil : f [] = none) (hcons : ∀ x s, f (x :: s) = some (g x s)) (h : st.onStack f = .ok st') :
    ∃ x s, st.stack = x :: s ∧ st' = { st with stack := g x s } := by
  rw [EvalState.onStack] at h
  cases hstack : st.stack with
  | nil =>
    rw [hstack, hnil] at h
    cases h
  | cons x s =>
    rw [hstack, hcons] at h
    exact ⟨x, s, rfl, (Except.ok.inj h).symm⟩

variable {opcode : Opcode} {ops : List ScriptOp}

section OneStep

variable (h : evalStep C flags checker sigversion st op = .ok st') (hexec : st.vfExec = [])
include h hexec

theorem execOp_of_evalStep (hop : op.opcode = opcode) (hpush : ¬opcode ≤ .OP_PUSHDATA4) :
    ∃ c, execOp C flags checker sigversion true ⟨opcode, op.vch, op.rest⟩ { st with nOpCount := c } =
      .ok st' := by
  subst hop
  obtain ⟨c, -, hrun⟩ := exists_of_evalStep h hexec
  exact ⟨c, hrun hpush⟩

theorem evalStep_checkLockTimeVerify (hop : op.opcode = .OP_CHECKLOCKTIMEVERIFY)
    (hflag : flags.checklocktimeverify = true) :
    ∃ x s n c, st.stack = x :: s ∧ CScriptNum.ofVch x flags.minimaldata 5 = some n ∧ 0 ≤ n ∧
      checker.checkLockTime n = true ∧ st' = { st with nOpCount := c } := by
  obtain ⟨c, hrun⟩ := execOp_of_evalStep h hexec hop (by decide)
  have hexecOp : execCheckLockTimeVerify flags checker { st with nOpCount := c } = .ok st' := hrun
  rw [execCheckLockTimeVerify, hflag, Bool.not_true, if_neg Bool.false_ne_true] at hexecOp
  cases hstack : st.stack with
  | nil =>
    simp only [hstack] at hexecOp
    cases hexecOp
  | cons x s =>
    simp only [hstack] at hexecOp
    obtain ⟨n, hn, hexecOp⟩ := bind_eq_ok_iff.1 hexecOp
    rw [scriptNum] at hn
    split at hn
    · rename_i hnum
      split_ifs at hexecOp with hneg hcheck
      rw [Bool.not_eq_true', Bool.not_eq_false] at hcheck
      exact ⟨x, s, n, c, rfl, hnum.trans (congrArg some (Except.ok.inj hn)), not_lt.1 hneg, hcheck,
        (Except.ok.inj hexecOp).symm⟩
    · cases hn

theorem evalStep_drop (hop : op.opcode = .OP_DROP) :
    ∃ x s c, st.stack = x :: s ∧ st' = { st with stack := s, nOpCount := c } := by
  obtain ⟨c, hrun⟩ := execOp_of_evalStep h hexec hop (by decide)
  dsimp only [execOp] at hrun
  obtain ⟨x, s, hstack, hst'⟩ := exists_of_onStack (fun _ s ↦ s) rfl (fun _ _ ↦ rfl) hrun
  exact ⟨x, s, c, hstack, hst'⟩

theorem evalStep_dup (hop : op.opcode = .OP_DUP) :
    ∃ x s c, st.stack = x :: s ∧ st' = { st with stack := x :: x :: s, nOpCount := c } := by
  obtain ⟨c, hrun⟩ := execOp_of_evalStep h hexec hop (by decide)
  dsimp only [execOp] at hrun
  obtain ⟨x, s, hstack, hst'⟩ := exists_of_onStack (fun x s ↦ x :: x :: s) rfl (fun _ _ ↦ rfl) hrun
  exact ⟨x, s, c, hstack, hst'⟩

theorem evalStep_hash160 (hop : op.opcode = .OP_HASH160) : ∃ x s c, st.stack = x :: s ∧
      st' = { st with stack := (C.hash160 x).toBytes :: s, nOpCount := c } := by
  obtain ⟨c, hrun⟩ := execOp_of_evalStep h hexec hop (by decide)
  dsimp only [execOp, hashTop] at hrun
  obtain ⟨x, s, hstack, hst'⟩ := exists_of_onStack (fun x s ↦ (C.hash160 x).toBytes :: s) rfl (fun _ _ ↦ rfl) hrun
  exact ⟨x, s, c, hstack, hst'⟩

theorem evalStep_equalVerify (hop : op.opcode = .OP_EQUALVERIFY) :
    ∃ x s c, st.stack = x :: x :: s ∧ st' = { st with stack := s, nOpCount := c } := by
  obtain ⟨c, hrun⟩ := execOp_of_evalStep h hexec hop (by decide)
  simp only [execOp] at hrun
  split at hrun
  · rename_i x₂ x₁ s hstack
    split_ifs at hrun with heq
    subst heq
    exact ⟨x₁, s, c, hstack, (Except.ok.inj hrun).symm⟩
  · cases hrun

theorem evalStep_checkSig (hop : op.opcode = .OP_CHECKSIG) :
    ∃ vchPubKey vchSig s c, st.stack = vchPubKey :: vchSig :: s ∧
      st' = { st with
        stack := vchBool (checker.checkSig vchSig vchPubKey (signedCode sigversion st.codehash [vchSig])
          sigversion) :: s
        nOpCount := c } := by
  obtain ⟨c, hrun⟩ := execOp_of_evalStep h hexec hop (by decide)
  have hexecOp : execCheckSig C flags checker sigversion { st with nOpCount := c } = .ok st' := hrun
  rw [execCheckSig] at hexecOp
  split at hexecOp
  · rename_i vchPubKey vchSig s hstack
    obtain ⟨-, -, hexecOp⟩ := bind_eq_ok_iff.1 hexecOp
    exact ⟨vchPubKey, vchSig, s, c, hstack, (Except.ok.inj hexecOp).symm⟩
  · cases hexecOp

end OneStep

theorem vfExec_of_foldlM_evalStep (hops : ∀ op ∈ ops, op.opcode ∉ conditionalOpcodes)
    (h : ops.foldlM (evalStep C flags checker sigversion) st = .ok st') :
    st'.vfExec = st.vfExec := by
  induction ops generalizing st with
  | nil => rw [← Except.ok.inj h]
  | cons op ops ih =>
    rw [forall_mem_cons] at hops
    obtain ⟨st₁, hst₁, h⟩ := bind_eq_ok_iff.1 h
    rw [ih hops.2 h, vfExec_of_evalStep hops.1 hst₁]

/-! ### A lock and what follows it -/

/-- `OP_DUP OP_HASH160 <hash> OP_EQUALVERIFY OP_CHECKSIG`. -/
inductive IsKeyHashTail (vchHash : Bytes) : List ScriptOp → Prop
  | intro {dup hash160 hash equalVerify checkSig : ScriptOp} (hdup : dup.opcode = .OP_DUP)
      (hhash160 : hash160.opcode = .OP_HASH160) (hhash : hash.opcode ≤ .OP_PUSHDATA4)
      (hvch : hash.vch = vchHash) (hequalVerify : equalVerify.opcode = .OP_EQUALVERIFY)
      (hcheckSig : checkSig.opcode = .OP_CHECKSIG) :
      IsKeyHashTail vchHash [dup, hash160, hash, equalVerify, checkSig]

theorem Opcode.notMem_conditionalOpcodes_of_le (h : opcode ≤ .OP_PUSHDATA4) :
    opcode ∉ conditionalOpcodes := by
  have hall : ∀ opcode ∈ conditionalOpcodes, ¬opcode ≤ .OP_PUSHDATA4 := by decide
  exact fun hmem ↦ hall opcode hmem h

theorem IsKeyHashTail.notMem_conditionalOpcodes {vchHash : Bytes} (h : IsKeyHashTail vchHash ops) :
    ∀ op ∈ ops, op.opcode ∉ conditionalOpcodes := by
  obtain ⟨hdup, hhash160, hhash, -, hequalVerify, hcheckSig⟩ := h
  have hpush := Opcode.notMem_conditionalOpcodes_of_le hhash
  simp only [forall_mem_cons, hdup, hhash160, hequalVerify, hcheckSig]
  exact ⟨by decide, by decide, hpush, by decide, by decide, fun _ h ↦ by cases h⟩

theorem IsKeyHashTail.of_run {vchHash : Bytes} (htail : IsKeyHashTail vchHash ops)
    (h : ops.foldlM (evalStep C flags checker sigversion) st = .ok st') (hexec : st.vfExec = []) :
    ∃ vchPubKey vchSig s c, st.stack = vchPubKey :: vchSig :: s ∧ (C.hash160 vchPubKey).toBytes = vchHash ∧
      st' = { st with
        stack := vchBool (checker.checkSig vchSig vchPubKey (signedCode sigversion st.codehash [vchSig])
          sigversion) :: s
        nOpCount := c } := by
  obtain ⟨hdup, hhash160, hhash, hvch, hequalVerify, hcheckSig⟩ := htail
  obtain ⟨_, h₁, h⟩ := bind_eq_ok_iff.1 h
  obtain ⟨vchPubKey, s, _, hstack, rfl⟩ := evalStep_dup h₁ hexec hdup
  obtain ⟨_, h₂, h⟩ := bind_eq_ok_iff.1 h
  obtain ⟨_, _, _, heq, rfl⟩ := evalStep_hash160 h₂ hexec hhash160
  obtain ⟨rfl, rfl⟩ := List.cons.inj heq
  obtain ⟨_, h₃, h⟩ := bind_eq_ok_iff.1 h
  obtain ⟨_, hpush, -⟩ := exists_of_evalStep h₃ hexec
  obtain rfl := hpush hhash
  obtain ⟨_, h₄, h⟩ := bind_eq_ok_iff.1 h
  obtain ⟨_, _, _, heq, rfl⟩ := evalStep_equalVerify h₄ hexec hequalVerify
  obtain ⟨rfl, heq⟩ := List.cons.inj heq
  obtain ⟨hkey, rfl⟩ := List.cons.inj heq
  obtain ⟨_, h₅, h⟩ := bind_eq_ok_iff.1 h
  obtain ⟨_, vchSig, _, c, heq, rfl⟩ := evalStep_checkSig h₅ hexec hcheckSig
  obtain ⟨rfl, rfl⟩ := List.cons.inj heq
  exact ⟨_, vchSig, _, c, hstack, hkey.trans hvch, (Except.ok.inj h).symm⟩

theorem exists_of_run_lock {lock checkLock : ScriptOp}
    (hcheck : checkLock.opcode = .OP_CHECKLOCKTIMEVERIFY) (hflag : flags.checklocktimeverify = true)
    (hops : ∀ op ∈ ops, op.opcode ∉ conditionalOpcodes)
    (h : (lock :: checkLock :: ops).foldlM (evalStep C flags checker sigversion) st = .ok st')
    (hclosed : st'.vfExec = []) :
    ∃ st₁ x s n c, evalStep C flags checker sigversion st lock = .ok st₁ ∧ st₁.vfExec = [] ∧
      st₁.stack = x :: s ∧ CScriptNum.ofVch x flags.minimaldata 5 = some n ∧ 0 ≤ n ∧
      checker.checkLockTime n = true ∧
      ops.foldlM (evalStep C flags checker sigversion) { st₁ with nOpCount := c } = .ok st' := by
  obtain ⟨st₁, hlock, h⟩ := bind_eq_ok_iff.1 h
  obtain ⟨st₂, hst₂, h⟩ := bind_eq_ok_iff.1 h
  -- nothing after the lock closes a conditional
  have hclosed₁ : st₁.vfExec = [] := by
    rw [← vfExec_of_evalStep (hcheck ▸ by decide) hst₂, ← vfExec_of_foldlM_evalStep hops h, hclosed]
  obtain ⟨x, s, n, c, hstack, hnum, hnonneg, hchecked, rfl⟩ :=
    evalStep_checkLockTimeVerify hst₂ hclosed₁ hcheck hflag
  exact ⟨st₁, x, s, n, c, hlock, hclosed₁, hstack, hnum, hnonneg, hchecked, h⟩

/-! ### Pushes that are dropped -/

/-- `OP_1` to `OP_16`. -/
def smallIntegers : List Opcode :=
  [.OP_1, .OP_2, .OP_3, .OP_4, .OP_5, .OP_6, .OP_7, .OP_8, .OP_9, .OP_10, .OP_11, .OP_12, .OP_13, .OP_14,
    .OP_15, .OP_16]

def ScriptOp.Pushes (op : ScriptOp) : Prop :=
  op.opcode ≤ .OP_PUSHDATA4 ∨ op.opcode ∈ smallIntegers

theorem execOp_of_mem_smallIntegers (h : opcode ∈ smallIntegers) {vch : Bytes} {rest : CScript} :
    execOp C flags checker sigversion true ⟨opcode, vch, rest⟩ st =
      .ok (st.push (CScriptNum.serialize (CScript.decodeOpN opcode))) := by
  simp only [smallIntegers, mem_cons, not_mem_nil, or_false] at h
  rcases h with rfl | rfl | rfl | rfl | rfl | rfl | rfl | rfl | rfl | rfl | rfl | rfl | rfl | rfl | rfl | rfl
  all_goals rfl

theorem ScriptOp.Pushes.of_run (hop : op.Pushes)
    (h : evalStep C flags checker sigversion st op = .ok st') (hexec : st.vfExec = []) :
    ∃ x c, st' = { st with stack := x :: st.stack, nOpCount := c } ∧
      x = if op.opcode ≤ .OP_PUSHDATA4 then op.vch
        else CScriptNum.serialize (CScript.decodeOpN op.opcode) := by
  obtain ⟨c, hpush, hrun⟩ := exists_of_evalStep h hexec
  by_cases hle : op.opcode ≤ .OP_PUSHDATA4
  · exact ⟨op.vch, c, hpush hle, (if_pos hle).symm⟩
  · have hsmall := hop.resolve_left hle
    have hexecOp := hrun hle
    obtain ⟨opcode, vch, rest⟩ := op
    rw [execOp_of_mem_smallIntegers hsmall] at hexecOp
    exact ⟨_, c, (Except.ok.inj hexecOp).symm, (if_neg hle).symm⟩

variable (C flags checker sigversion) in
/-- Instructions after which all is as before, but for the count of the opcodes. -/
def Neutral (ops : List ScriptOp) : Prop :=
  ∀ st st', ops.foldlM (evalStep C flags checker sigversion) st = .ok st' → st.vfExec = [] →
    ∃ c, st' = { st with nOpCount := c }

theorem neutral_nil : Neutral C flags checker sigversion [] :=
  fun st _ h _ ↦ ⟨st.nOpCount, (Except.ok.inj h).symm⟩

theorem Neutral.wrap {drop : ScriptOp} (h : Neutral C flags checker sigversion ops)
    (hop : op.Pushes) (hdrop : drop.opcode = .OP_DROP) :
    Neutral C flags checker sigversion (op :: (ops ++ [drop])) := by
  intro st st' hrun hexec
  obtain ⟨st₁, hst₁, hrun⟩ := bind_eq_ok_iff.1 hrun
  obtain ⟨x, _, rfl, -⟩ := hop.of_run hst₁ hexec
  rw [foldlM_append] at hrun
  obtain ⟨st₂, hst₂, hrun⟩ := bind_eq_ok_iff.1 hrun
  obtain ⟨_, rfl⟩ := h _ _ hst₂ hexec
  obtain ⟨st₃, hst₃, hrun⟩ := bind_eq_ok_iff.1 hrun
  obtain ⟨_, _, c, heq, rfl⟩ := evalStep_drop hst₃ hexec hdrop
  obtain ⟨-, rfl⟩ := List.cons.inj heq
  exact ⟨c, (Except.ok.inj hrun).symm⟩

theorem Neutral.append {ops' : List ScriptOp} (h : Neutral C flags checker sigversion ops)
    (h' : Neutral C flags checker sigversion ops') :
    Neutral C flags checker sigversion (ops ++ ops') := by
  intro st st' hrun hexec
  rw [foldlM_append] at hrun
  obtain ⟨st₁, hst₁, hrun⟩ := bind_eq_ok_iff.1 hrun
  obtain ⟨_, rfl⟩ := h _ _ hst₁ hexec
  obtain ⟨c, rfl⟩ := h' _ _ hrun hexec
  exact ⟨c, rfl⟩

/-- Pushes that are dropped, with their number. -/
inductive Dropping : ℕ → List ScriptOp → Prop
  | nil : Dropping 0 []
  | wrap {k : ℕ} {op drop : ScriptOp} {ops : List ScriptOp} (h : Dropping k ops) (hop : op.Pushes)
      (hdrop : drop.opcode = .OP_DROP) : Dropping (k + 1) (op :: (ops ++ [drop]))
  | append {k k' : ℕ} {ops ops' : List ScriptOp} (h : Dropping k ops) (h' : Dropping k' ops') :
      Dropping (k + k') (ops ++ ops')

theorem Dropping.neutral {k : ℕ} (h : Dropping k ops) : Neutral C flags checker sigversion ops := by
  induction h with
  | nil => exact neutral_nil
  | wrap _ hop hdrop ih => exact ih.wrap hop hdrop
  | append _ _ ih ih' => exact ih.append ih'

end Steps

/-! ### Reading a lock -/

section Reading

open CScript

variable {s s' script : CScript}
variable {op : ScriptOp} {r : LockRegistration}

theorem nextOp_eq_some_iff : nextOp s = some (op, s') ↔ getOp s = some op ∧ op.rest = s' := by
  show (getOp s).map _ = some (op, s') ↔ _
  rw [Option.map_eq_some_iff]
  constructor
  · rintro ⟨op', hop, heq⟩
    obtain ⟨rfl, hrest⟩ := Prod.mk.inj heq
    exact ⟨hop, hrest⟩
  · rintro ⟨hop, rfl⟩
    exact ⟨op, hop, rfl⟩

theorem expectOp_eq_some_iff {opcode : Opcode} {u : Unit} :
    expectOp opcode s = some (u, s') ↔ ∃ op, getOp s = some op ∧ op.opcode = opcode ∧ op.rest = s' := by
  simp only [expectOp, Reader.bind_eq_some_iff, Reader.guard_eq_some_iff, nextOp_eq_some_iff]
  constructor
  · rintro ⟨op, _, ⟨hop, rfl⟩, hopcode, rfl⟩
    exact ⟨op, hop, hopcode, rfl⟩
  · rintro ⟨op, hop, hopcode, rfl⟩
    exact ⟨op, _, ⟨hop, rfl⟩, hopcode, rfl⟩

theorem nextPush_eq_some_iff {vch : Bytes} :
    nextPush s = some (vch, s') ↔ ∃ op, getOp s = some op ∧ op.vch = vch ∧ op.rest = s' := by
  simp only [nextPush, Reader.bind_eq_some_iff, nextOp_eq_some_iff]
  constructor
  · rintro ⟨op, _, ⟨hop, rfl⟩, heq⟩
    obtain ⟨rfl, rfl⟩ := Prod.mk.inj (Option.some.inj heq)
    exact ⟨op, hop, rfl, rfl⟩
  · rintro ⟨op, hop, rfl, rfl⟩
    exact ⟨op, _, ⟨hop, rfl⟩, rfl⟩

theorem le_pushData4_of_length (h : getOp s = some op) (hvch : op.vch.length ≠ 0) :
    op.opcode ≤ .OP_PUSHDATA4 := by
  by_contra hle
  exact hvch (length_eq_zero_iff.2 (eq_cons_of_getOp h hle).2)

/-- The instructions `l` stand at the start of a script, before `rest`. -/
structure Reads (s : CScript) (l : List ScriptOp) (rest : CScript) : Prop where
  ops : ops s = l ++ ops rest
  wellFormed : wellFormed s = wellFormed rest
  suffix : rest <:+ s

theorem Reads.nil : Reads s [] s := ⟨rfl, rfl, suffix_refl s⟩

theorem Reads.cons {l : List ScriptOp} (h : getOp s = some op) (hl : Reads op.rest l s') : Reads s (op :: l) s' := by
  obtain ⟨raw, heq, -⟩ := exists_raw h
  exact ⟨by rw [ops_of_getOp h, hl.ops]; rfl, by rw [wellFormed_of_getOp h, hl.wellFormed],
    hl.suffix.trans ⟨raw, heq.symm⟩⟩

/-- The instructions from the lock of a registration on. Any instruction may be the lock. -/
inductive IsLockTail (script : CScript) (r : LockRegistration) : List ScriptOp → Prop
  | intro {lock checkLock drop : ScriptOp} {tail : List ScriptOp} {vchHash : Bytes}
      (hpush : lock.opcode ≤ .OP_PUSHDATA4 ∨ lock.vch = []) (hrest : lock.rest <:+ script)
      (hnum : CScriptNum.ofVch lock.vch true = some r.lockTime)
      (hcheck : checkLock.opcode = .OP_CHECKLOCKTIMEVERIFY) (hdrop : drop.opcode = .OP_DROP)
      (htail : IsKeyHashTail vchHash tail) (hhash : r.pubkeyHash = Uint160.ofBytes vchHash) :
      IsLockTail script r (lock :: checkLock :: drop :: tail)

theorem isLockTail_of_readLockTail {vchPubKey rest : Bytes}
    (h : readLockTail vchPubKey s = some (r, rest)) (hs : s <:+ script) :
    wellFormed s = true ∧ r.pubkey = CPubKey.set vchPubKey ∧ IsLockTail script r (ops s) := by
  simp only [readLockTail, Reader.bind_eq_some_iff, Reader.guard_eq_some_iff, expectOp_eq_some_iff,
    nextPush_eq_some_iff] at h
  obtain ⟨_, _, ⟨lock, hlock, rfl, rfl⟩, _, _, ⟨checkLock, hcheckLock, hcheck, rfl⟩,
    _, _, ⟨drop, hdropOp, hdrop, rfl⟩, _, _, ⟨dup, hdupOp, hdup, rfl⟩,
    _, _, ⟨hash160, hhash160Op, hhash160, rfl⟩, _, _, ⟨hash, hhashOp, rfl, rfl⟩, _, _, ⟨hlength, rfl⟩,
    _, _, ⟨equalVerify, hequalVerifyOp, hequalVerify, rfl⟩,
    _, _, ⟨checkSig, hcheckSigOp, hcheckSig, rfl⟩, s₁, s₂, hget, h⟩ := h
  obtain ⟨rfl, rfl⟩ := Prod.mk.inj (Option.some.inj hget)
  obtain ⟨_, _, ⟨hend, rfl⟩, _, _, ⟨-, rfl⟩, h⟩ := h
  have hreads : Reads s [lock, checkLock, drop, dup, hash160, hash, equalVerify, checkSig] [] :=
    .cons hlock <| .cons hcheckLock <| .cons hdropOp <| .cons hdupOp <| .cons hhash160Op <| .cons hhashOp <|
      .cons hequalVerifyOp <| .cons hcheckSigOp <| isEmpty_iff.1 hend ▸ .nil
  cases hnum : CScriptNum.ofVch lock.vch true with
  | none =>
    rw [hnum] at h
    cases h
  | some lockTime =>
    rw [hnum] at h
    obtain rfl := (Prod.mk.inj (Option.some.inj h)).1
    have hlockPush : lock.opcode ≤ .OP_PUSHDATA4 ∨ lock.vch = [] :=
      or_iff_not_imp_right.2 fun hne ↦ le_pushData4_of_length hlock (length_pos_of_ne_nil hne).ne'
    have hrest : Reads s [lock] lock.rest := .cons hlock .nil
    rw [hreads.ops, hreads.wellFormed]
    exact ⟨rfl, rfl, .intro hlockPush (hrest.suffix.trans hs) hnum hcheck hdrop
      (.intro hdup hhash160 (le_pushData4_of_length hhashOp (by omega)) rfl hequalVerify hcheckSig) rfl⟩

/-- A script that drops some pushes and ends in the lock of a registration. -/
structure IsLocked (script : CScript) (r : LockRegistration) : Prop where
  wellFormed : script.wellFormed = true
  exists_ops : ∃ k before tail, k ≤ 3 ∧ Dropping k before ∧ ops script = before ++ tail ∧
    IsLockTail script r tail

theorem isLocked_of_matchCoinLockRegistration (h : matchCoinLockRegistration script = some r) :
    IsLocked script r := by
  obtain ⟨-, -, hread⟩ := Option.bind_eq_some_iff.1 h
  obtain ⟨rest, hread⟩ := Reader.run'_eq_some_iff.1 hread
  simp only [Reader.bind_eq_some_iff, Reader.guard_eq_some_iff, nextPush_eq_some_iff,
    expectOp_eq_some_iff] at hread
  obtain ⟨_, _, ⟨key, hkey, rfl, rfl⟩, _, _, ⟨hlength, rfl⟩, _, _, ⟨drop, hdropOp, hdrop, rfl⟩, hread⟩ := hread
  have hreads : Reads script [key, drop] drop.rest := .cons hkey (.cons hdropOp .nil)
  obtain ⟨hwell, -, htail⟩ := isLockTail_of_readLockTail hread hreads.suffix
  exact ⟨hreads.wellFormed.trans hwell, 1, [key, drop], _, by decide,
    .wrap .nil (Or.inl (le_pushData4_of_length hkey (by omega))) hdrop, hreads.ops, htail⟩

theorem isLocked_of_matchPoWLockRegistration {nonce : Bytes} {challenge : Uint256}
    (h : matchPoWLockRegistration script = some (nonce, challenge, r)) : IsLocked script r := by
  obtain ⟨-, -, hread⟩ := Option.bind_eq_some_iff.1 h
  obtain ⟨rest, hread⟩ := Reader.run'_eq_some_iff.1 hread
  simp only [Reader.bind_eq_some_iff, Reader.guard_eq_some_iff, nextPush_eq_some_iff,
    expectOp_eq_some_iff] at hread
  obtain ⟨_, _, ⟨op₁, hop₁, rfl, rfl⟩, _, _, ⟨hnonce, rfl⟩, _, _, ⟨op₂, hop₂, rfl, rfl⟩,
    _, _, ⟨hchallenge, rfl⟩, _, _, ⟨op₃, hop₃, rfl, rfl⟩, _, _, ⟨hkey, rfl⟩,
    _, _, ⟨drop₃, hdropOp₃, hdrop₃, rfl⟩, _, _, ⟨drop₂, hdropOp₂, hdrop₂, rfl⟩,
    _, _, ⟨drop₁, hdropOp₁, hdrop₁, rfl⟩, r', _, hlock, heq⟩ := hread
  obtain ⟨-, rfl⟩ : (op₁.vch, Uint256.ofBytes op₂.vch) = (nonce, challenge) ∧ r' = r := by
    have hpair := (Prod.mk.inj (Option.some.inj heq)).1
    simpa [and_assoc] using hpair
  have hreads : Reads script [op₁, op₂, op₃, drop₃, drop₂, drop₁] drop₁.rest :=
    .cons hop₁ <| .cons hop₂ <| .cons hop₃ <| .cons hdropOp₃ <| .cons hdropOp₂ <| .cons hdropOp₁ .nil
  obtain ⟨hwell, -, htail⟩ := isLockTail_of_readLockTail hlock hreads.suffix
  have hdropping : Dropping 3 (op₁ :: ((op₂ :: ((op₃ :: ([] ++ [drop₃])) ++ [drop₂])) ++ [drop₁])) :=
    ((Dropping.nil.wrap (Or.inl (le_pushData4_of_length hop₃ (by omega))) hdrop₃).wrap
      (Or.inl (le_pushData4_of_length hop₂ (by omega))) hdrop₂).wrap
      (Or.inl (le_pushData4_of_length hop₁ (by simpa using hnonce))) hdrop₁
  exact ⟨hreads.wellFormed.trans hwell, 3, _, _, le_rfl, hdropping, hreads.ops, htail⟩

end Reading

/-! ### Spending a registration -/

theorem castToBool_vchBool (b : Bool) : castToBool (vchBool b) = b := by
  revert b
  decide

theorem requireTrue_cons_vchBool {b : Bool} {s : List Bytes} (h : requireTrue (vchBool b :: s) = .ok ()) :
    b = true := by
  rw [requireTrue, castToBool_vchBool] at h
  split_ifs at h with hb
  exact hb

theorem CScriptNum.eq_setVch_of_ofVch {vch : Bytes} {fRequireMinimal : Bool} {nMaxNumSize : ℕ} {n : ℤ}
    (h : CScriptNum.ofVch vch fRequireMinimal nMaxNumSize = some n) : n = CScriptNum.setVch vch := by
  simp only [CScriptNum.ofVch, Option.bind_eq_bind, Option.bind_eq_some_iff, Option.pure_def,
    Option.some.injEq] at h
  obtain ⟨_, -, _, -, rfl⟩ := h
  rfl

/-- What a script asks of the transaction that spends it, on the elements `stack`, with the lock time
and the key hash of a registration. -/
structure Unlocked (C : Crypto) (checker : BaseSignatureChecker) (sigversion : SigVersion)
    (script : CScript) (r : LockRegistration) (stack : List Bytes) : Prop where
  /-- The lock time is compared with a number that is at least the one of the registration. -/
  checkLockTime : ∃ n, checker.checkLockTime n = true ∧ r.lockTime ≤ n ∧ (0 < r.lockTime → n = r.lockTime)
  /-- There is a key with the hash and a signature by it. -/
  checkSig : ∃ vchSig ∈ stack, ∃ vchPubKey ∈ stack, C.hash160 vchPubKey = r.pubkeyHash ∧
    ∃ code, code <:+ script ∧
      checker.checkSig vchSig vchPubKey (signedCode sigversion code [vchSig]) sigversion = true

section Spend

variable {C : Crypto} {flags : ScriptFlags} {checker : BaseSignatureChecker} {sigversion : SigVersion}
  {script : CScript} {r : LockRegistration} {st st' : EvalState}
variable {stack stack' : List Bytes}

theorem exists_of_evalScript (h : evalScript C flags checker sigversion stack script = .ok stack') :
    ∃ st', (CScript.ops script).foldlM (evalStep C flags checker sigversion)
        { stack := stack, codehash := script } = .ok st' ∧ st'.vfExec = [] ∧ st'.stack = stack' := by
  rw [evalScript] at h
  split at h
  · cases h
  · obtain ⟨st', hrun, h⟩ := bind_eq_ok_iff.1 h
    split_ifs at h with _ hclosed
    rw [Bool.not_eq_true', Bool.not_eq_false, List.isEmpty_iff] at hclosed
    exact ⟨st', hrun, hclosed, Except.ok.inj h⟩

theorem TransactionSignatureChecker.checkLockTime_toBase {checker : TransactionSignatureChecker} :
    (checker.toBase C).checkLockTime = checker.checkLockTime := by
  simp only [TransactionSignatureChecker.toBase]

theorem exists_of_verifyScript {checker : TransactionSignatureChecker} {scriptSig : CScript}
    (htaproot : (flags.taproot && isTaprootScript script) = false)
    (h : verifyScript C flags checker scriptSig script = .ok ()) :
    ∃ stack stack', evalBase C flags checker [] scriptSig = .ok stack ∧
      evalBase C flags checker stack script = .ok stack' ∧ requireTrue stack' = .ok () := by
  rw [verifyScript, htaproot, if_neg Bool.false_ne_true] at h
  split at h
  · cases h
  · obtain ⟨stack, hstack, h⟩ := bind_eq_ok_iff.1 h
    obtain ⟨stack', hstack', h⟩ := bind_eq_ok_iff.1 h
    obtain ⟨_, htrue, -⟩ := bind_eq_ok_iff.1 h
    exact ⟨stack, stack', hstack, hstack', htrue⟩

theorem IsLockTail.unlocked {ops : List ScriptOp} (htail : IsLockTail script r ops)
    (hflag : flags.checklocktimeverify = true) (hexec : st.vfExec = []) (halt : st.altstack = [])
    (hcode : st.codehash <:+ script)
    (h : ops.foldlM (evalStep C flags checker sigversion) st = .ok st') (hclosed : st'.vfExec = [])
    (htrue : requireTrue st'.stack = .ok ()) : Unlocked C checker sigversion script r st.stack := by
  obtain ⟨hpush, hrest, hnum, hcheck, hdrop, htail, hhash⟩ := htail
  obtain ⟨st₁, x, s, n, c, hlock, hclosed₁, hstack, hx, hnonneg, hchecked, h⟩ :=
    exists_of_run_lock hcheck hflag
      (forall_mem_cons.2 ⟨by rw [hdrop]; decide, htail.notMem_conditionalOpcodes⟩) h hclosed
  obtain ⟨hold, hcode₁⟩ := evalStep_oldBelow hexec halt hlock hclosed₁
  -- the number is dropped, and the rest checks a key and a signature
  obtain ⟨st₂, hst₂, h⟩ := bind_eq_ok_iff.1 h
  obtain ⟨_, _, _, heq, rfl⟩ := evalStep_drop hst₂ hclosed₁ hdrop
  obtain ⟨rfl, rfl⟩ := List.cons.inj (hstack.symm.trans heq)
  obtain ⟨vchPubKey, vchSig, s', _, hs, hkey, rfl⟩ := htail.of_run h hclosed₁
  rw [hstack, show s = vchPubKey :: vchSig :: s' from hs] at hold
  refine ⟨⟨n, hchecked, ?_⟩, vchSig, hold vchSig (by simp), vchPubKey, hold vchPubKey (by simp), ?_,
    st₁.codehash, ?_, requireTrue_cons_vchBool htrue⟩
  · have hlockTime := CScriptNum.eq_setVch_of_ofVch hnum
    rcases hpush with hpush | hnil
    · obtain ⟨_, hpushed, -⟩ := exists_of_evalStep hlock hexec
      rw [hpushed hpush] at hstack
      obtain rfl := (List.cons.inj hstack).1
      have hn : n = r.lockTime := (CScriptNum.eq_setVch_of_ofVch hx).trans hlockTime.symm
      exact ⟨hn.ge, fun _ ↦ hn⟩
    · rw [hnil] at hlockTime
      have hzero : r.lockTime = 0 := hlockTime
      exact ⟨hzero ▸ hnonneg, fun hpos ↦ absurd hzero hpos.ne'⟩
  · rw [hhash, ← hkey, Uint160.ofBytes_toBytes]
  · rcases hcode₁ with heq | heq
    · exact heq ▸ hcode
    · exact heq ▸ hrest

/-- **A registration that is spent**: the lock time is checked, and a signature by the key. -/
theorem unlocked_of_evalScript (hlocked : IsLocked script r) (hflag : flags.checklocktimeverify = true)
    (h : evalScript C flags checker sigversion stack script = .ok stack')
    (htrue : requireTrue stack' = .ok ()) : Unlocked C checker sigversion script r stack := by
  obtain ⟨k, before, tail, -, hdropping, hops, htail⟩ := hlocked.exists_ops
  obtain ⟨st', hrun, hclosed, rfl⟩ := exists_of_evalScript h
  rw [hops, foldlM_append] at hrun
  obtain ⟨st₁, hst₁, hrun⟩ := bind_eq_ok_iff.1 hrun
  obtain ⟨c, rfl⟩ := hdropping.neutral _ _ hst₁ rfl
  exact htail.unlocked hflag rfl rfl (suffix_refl _) hrun hclosed htrue

end Spend

end KristaTech
