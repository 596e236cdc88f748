import KristaTech.Script.Numbers
import KristaTech.Script.Timelocks

/-!
# Scripts that run to the end

What the inversion lemmas of the interpreter say about runs that have succeeded is turned around here:
instructions that run to the end, within the limits on sizes and counts (`Completes`), and put together
a spending of a script with a lock (`exists_scriptSig`). The lock itself is left open: it is a hypothesis
that the instruction which checks it lets the number pass.
-/

namespace KristaTech

open List Except

/-- The interpreter outside of conditionals: what is on its stack, and how many opcodes were counted at
most. -/
structure EvalState.At (st : EvalState) (code : CScript) (stack : List Bytes) (n : ℕ) : Prop where
  stack_eq : st.stack = stack
  altstack_eq : st.altstack = []
  vfExec_eq : st.vfExec = []
  codehash_eq : st.codehash = code
  nOpCount_le : st.nOpCount ≤ n

section Completes

variable (C : Crypto) (flags : ScriptFlags) (checker : BaseSignatureChecker) (sigversion : SigVersion)
  (code : CScript)

/-- The instructions turn one stack into another, and count as `k` opcodes at most. -/
def Completes (ops : List ScriptOp) (k : ℕ) (s s' : List Bytes) : Prop :=
  ∀ (st : EvalState) (n : ℕ), n + k ≤ maxOpsPerScript → st.At code s n →
    ∃ st', ops.foldlM (evalStep C flags checker sigversion) st = .ok st' ∧ st'.At code s' (n + k)

variable {C flags checker sigversion code} {ops ops' : List ScriptOp} {op : ScriptOp} {k k' : ℕ}
  {s s' s'' : List Bytes} {x : Bytes}

theorem Completes.nil : Completes C flags checker sigversion code [] 0 s s :=
  fun st _ _ h ↦ ⟨st, rfl, h⟩

/-- **One part after the other.** -/
theorem Completes.append (h : Completes C flags checker sigversion code ops k s s')
    (h' : Completes C flags checker sigversion code ops' k' s' s'') :
    Completes C flags checker sigversion code (ops ++ ops') (k + k') s s'' := by
  intro st n hn hst
  obtain ⟨st₁, hrun, hst₁⟩ := h st n (by omega) hst
  obtain ⟨st₂, hrun', hst₂⟩ := h' st₁ (n + k) (by omega) hst₁
  refine ⟨st₂, ?_, by rwa [← Nat.add_assoc]⟩
  rw [foldlM_append, hrun]
  exact hrun'

theorem Completes.cons (h : Completes C flags checker sigversion code [op] k s s')
    (h' : Completes C flags checker sigversion code ops k' s' s'') :
    Completes C flags checker sigversion code (op :: ops) (k + k') s s'' :=
  h.append h'

/-! ### Single instructions -/

variable {st : EvalState}

theorem evalStep_of_execInstruction {st' : EvalState} (hsize : op.vch.length ≤ maxScriptElementSize)
    (hcount : (countOp op st).nOpCount ≤ maxOpsPerScript) (henabled : isDisabled op.opcode = false)
    (hlength : st'.stack.length + st'.altstack.length ≤ 1000)
    (h : execInstruction C flags checker sigversion op (countOp op st) = .ok st') :
    evalStep C flags checker sigversion st op = .ok st' := by
  rw [evalStep, if_neg (not_lt.2 hsize), if_neg fun hlimit ↦ absurd hcount (not_le.2 hlimit.2), henabled,
    if_neg Bool.false_ne_true, h, ok_bind, if_neg (not_lt.2 hlength)]
  rfl

theorem completes_single {δ : ℕ} (hsize : op.vch.length ≤ maxScriptElementSize)
    (henabled : isDisabled op.opcode = false) (hcount : ∀ st, (countOp op st).nOpCount ≤ st.nOpCount + δ)
    (hlength : s'.length ≤ 1000)
    (h : ∀ st : EvalState, st.stack = s → st.altstack = [] → st.vfExec = [] → st.codehash = code →
      execInstruction C flags checker sigversion op st = .ok { st with stack := s' }) :
    Completes C flags checker sigversion code [op] δ s s' := by
  intro st n hn hst
  have hstep := h (countOp op st) (stack_countOp.trans hst.stack_eq) (altstack_countOp.trans hst.altstack_eq)
    (vfExec_countOp.trans hst.vfExec_eq) (codehash_countOp.trans hst.codehash_eq)
  have hle := hcount st
  have hst' := hst.nOpCount_le
  refine ⟨{ countOp op st with stack := s' }, ?_, rfl, altstack_countOp.trans hst.altstack_eq,
    vfExec_countOp.trans hst.vfExec_eq, codehash_countOp.trans hst.codehash_eq, by dsimp only; omega⟩
  rw [foldlM_cons, evalStep_of_execInstruction hsize (by omega) henabled ?_ hstep]
  · rfl
  · rwa [show ({ countOp op st with stack := s' } : EvalState).altstack = [] from
      altstack_countOp.trans hst.altstack_eq, length_nil, Nat.add_zero]

theorem nOpCount_countOp_le (st : EvalState) : (countOp op st).nOpCount ≤ st.nOpCount + 1 := by
  rw [countOp]
  split_ifs <;> simp

theorem execInstruction_eq_execOp {st : EvalState} (hop : ¬op.opcode ≤ .OP_PUSHDATA4) (hexec : st.vfExec = []) :
    execInstruction C flags checker sigversion op st = execOp C flags checker sigversion true op st := by
  have hfExec : (!st.vfExec.contains false) = true := by
    rw [hexec]
    rfl
  simp only [execInstruction, hfExec, hop, decide_false, Bool.and_false, Bool.true_or, if_true,
    Bool.false_eq_true, if_false]

theorem execInstruction_eq_push (hop : op.opcode ≤ .OP_PUSHDATA4) (hexec : st.vfExec = [])
    (hminimal : flags.minimaldata = false) :
    execInstruction C flags checker sigversion op st = .ok (st.push op.vch) := by
  have hfExec : (!st.vfExec.contains false) = true := by
    rw [hexec]
    rfl
  simp only [execInstruction, hfExec, hop, hminimal, decide_true, Bool.and_self, Bool.false_and, if_true,
    Bool.false_eq_true, if_false]

theorem completes_execOp {opcode : Opcode} (hop : op.opcode = opcode) (hpush : ¬opcode ≤ .OP_PUSHDATA4)
    (henabled : isDisabled opcode = false) (hsize : op.vch.length ≤ maxScriptElementSize)
    (hlength : s'.length ≤ 1000)
    (h : ∀ st : EvalState, st.stack = s → st.codehash = code →
      execOp C flags checker sigversion true ⟨opcode, op.vch, op.rest⟩ st = .ok { st with stack := s' }) :
    Completes C flags checker sigversion code [op] 1 s s' := by
  subst hop
  refine completes_single hsize henabled nOpCount_countOp_le hlength fun st hstack _ hexec hcode ↦ ?_
  rw [execInstruction_eq_execOp hpush hexec]
  exact h st hstack hcode

def ScriptOp.pushed (op : ScriptOp) : Bytes :=
  if op.opcode ≤ .OP_PUSHDATA4 then op.vch else CScriptNum.serialize (CScript.decodeOpN op.opcode)

theorem ScriptOp.Pushes.countOp_eq (h : op.Pushes) (st : EvalState) : countOp op st = st := by
  have hsmall : ∀ opcode ∈ smallIntegers, ¬.OP_16 < opcode := by decide
  have hle : ¬.OP_16 < op.opcode := by
    rcases h with h | h
    · exact UInt8.not_lt.2 (UInt8.le_trans h (by decide))
    · exact hsmall _ h
  rw [countOp, if_neg hle]

theorem isDisabled_of_le {opcode : Opcode} (h : opcode ≤ .OP_PUSHDATA4) : isDisabled opcode = false := by
  cases opcode
  all_goals first
    | rfl
    | exact absurd h (by decide)

theorem ScriptOp.Pushes.isDisabled_eq (h : op.Pushes) : isDisabled op.opcode = false := by
  have hsmall : ∀ opcode ∈ smallIntegers, isDisabled opcode = false := by decide
  rcases h with h | h
  · exact isDisabled_of_le h
  · exact hsmall _ h

theorem completes_push (hop : op.Pushes) (hminimal : flags.minimaldata = false)
    (hsize : op.vch.length ≤ maxScriptElementSize) (hlength : s.length < 1000) :
    Completes C flags checker sigversion code [op] 0 s (op.pushed :: s) := by
  refine completes_single hsize hop.isDisabled_eq (fun st ↦ by rw [hop.countOp_eq]; omega) hlength
    fun st hstack _ hexec _ ↦ ?_
  rw [ScriptOp.pushed]
  split_ifs with hle
  · rw [execInstruction_eq_push hle hexec hminimal, EvalState.push, hstack]
  · obtain ⟨opcode, vch, rest⟩ := op
    rw [execInstruction_eq_execOp hle hexec, execOp_of_mem_smallIntegers (hop.resolve_left hle), EvalState.push,
      hstack]

theorem completes_pushData (hop : op.opcode ≤ .OP_PUSHDATA4) (hvch : op.vch = x)
    (hminimal : flags.minimaldata = false) (hsize : op.vch.length ≤ maxScriptElementSize)
    (hlength : s.length < 1000) : Completes C flags checker sigversion code [op] 0 s (x :: s) := by
  have hpushed : op.pushed = x := by rw [ScriptOp.pushed, if_pos hop, hvch]
  rw [← hpushed]
  exact completes_push (Or.inl hop) hminimal hsize hlength

theorem completes_drop (hop : op.opcode = .OP_DROP) (hsize : op.vch.length ≤ maxScriptElementSize)
    (hlength : s.length ≤ 1000) : Completes C flags checker sigversion code [op] 1 (x :: s) s := by
  refine completes_execOp hop (by decide) rfl hsize hlength fun st hstack _ ↦ ?_
  simp [execOp, EvalState.onStack, hstack]

theorem completes_dup (hop : op.opcode = .OP_DUP) (hsize : op.vch.length ≤ maxScriptElementSize)
    (hlength : s.length + 2 ≤ 1000) :
    Completes C flags checker sigversion code [op] 1 (x :: s) (x :: x :: s) := by
  refine completes_execOp hop (by decide) rfl hsize hlength fun st hstack _ ↦ ?_
  simp [execOp, EvalState.onStack, hstack]

theorem completes_hash160 (hop : op.opcode = .OP_HASH160) (hsize : op.vch.length ≤ maxScriptElementSize)
    (hlength : s.length + 1 ≤ 1000) :
    Completes C flags checker sigversion code [op] 1 (x :: s) ((C.hash160 x).toBytes :: s) := by
  refine completes_execOp hop (by decide) rfl hsize hlength fun st hstack _ ↦ ?_
  simp [execOp, hashTop, EvalState.onStack, hstack]

theorem completes_equalVerify (hop : op.opcode = .OP_EQUALVERIFY)
    (hsize : op.vch.length ≤ maxScriptElementSize) (hlength : s.length ≤ 1000) :
    Completes C flags checker sigversion code [op] 1 (x :: x :: s) s := by
  refine completes_execOp hop (by decide) rfl hsize hlength fun st hstack _ ↦ ?_
  simp [execOp, hstack]

theorem completes_checkSig {vchPubKey vchSig : Bytes} (hop : op.opcode = .OP_CHECKSIG)
    (hsize : op.vch.length ≤ maxScriptElementSize) (hlength : s.length + 1 ≤ 1000)
    (hencoding : checkEncodings C flags sigversion vchSig vchPubKey = .ok ())
    (hsig : checker.checkSig vchSig vchPubKey (signedCode sigversion code [vchSig]) sigversion = true) :
    Completes C flags checker sigversion code [op] 1 (vchPubKey :: vchSig :: s) (vchBool true :: s) := by
  refine completes_execOp hop (by decide) rfl hsize hlength fun st hstack hcode ↦ ?_
  show execCheckSig C flags checker sigversion st = _
  rw [execCheckSig, hstack, hcode]
  simp only [hencoding, hsig, ok_bind, pure_eq_ok]

theorem completes_checkLockTimeVerify {m : ℤ} (hop : op.opcode = .OP_CHECKLOCKTIMEVERIFY)
    (hsize : op.vch.length ≤ maxScriptElementSize) (hlength : s.length + 1 ≤ 1000)
    (hflag : flags.checklocktimeverify = true) (hnum : CScriptNum.ofVch x flags.minimaldata 5 = some m) (hnonneg : 0 ≤ m)
    (hmet : checker.checkLockTime m = true) :
    Completes C flags checker sigversion code [op] 1 (x :: s) (x :: s) := by
  refine completes_execOp hop (by decide) rfl hsize hlength fun st hstack _ ↦ ?_
  have hst : ({ st with stack := x :: s } : EvalState) = st := by rw [← hstack]
  show execCheckLockTimeVerify flags checker st = _
  rw [execCheckLockTimeVerify, hstack, hst]
  simp [hflag, scriptNum, hnum, hnonneg.not_gt, hmet]

theorem completes_checkLockTimeVerify_nop (hop : op.opcode = .OP_CHECKLOCKTIMEVERIFY)
    (hsize : op.vch.length ≤ maxScriptElementSize) (hlength : s.length ≤ 1000)
    (hflag : flags.checklocktimeverify = false) (hnops : flags.discourageUpgradableNops = false) :
    Completes C flags checker sigversion code [op] 1 s s := by
  refine completes_execOp hop (by decide) rfl hsize hlength fun st hstack _ ↦ ?_
  show execCheckLockTimeVerify flags checker st = _
  simp [execCheckLockTimeVerify, hflag, hnops, ← hstack]

theorem completes_checkSequenceVerify_nop (hop : op.opcode = .OP_CHECKSEQUENCEVERIFY)
    (hsize : op.vch.length ≤ maxScriptElementSize) (hlength : s.length ≤ 1000)
    (hflag : flags.checksequenceverify = false) : Completes C flags checker sigversion code [op] 1 s s := by
  refine completes_execOp hop (by decide) rfl hsize hlength fun st hstack _ ↦ ?_
  show execCheckSequenceVerify flags checker st = _
  simp [execCheckSequenceVerify, hflag, ← hstack]

/-! ### Parts of a script with a lock -/

theorem Dropping.completes (h : Dropping k ops) (hminimal : flags.minimaldata = false)
    (hsize : ∀ op ∈ ops, op.vch.length ≤ maxScriptElementSize) (hlength : s.length + k ≤ 1000) :
    Completes C flags checker sigversion code ops k s s := by
  induction h generalizing s with
  | nil => exact .nil
  | @wrap k op drop ops _ hop hdrop ih =>
    rw [forall_mem_cons, forall_mem_append] at hsize
    have hpush : Completes C flags checker sigversion code [op] 0 s (op.pushed :: s) :=
      completes_push hop hminimal hsize.1 (by omega)
    have hops : Completes C flags checker sigversion code ops k (op.pushed :: s) (op.pushed :: s) :=
      ih hsize.2.1 (by rw [length_cons]; omega)
    have hdropped : Completes C flags checker sigversion code [drop] 1 (op.pushed :: s) s :=
      completes_drop hdrop (hsize.2.2 drop (by simp)) (by omega)
    simpa using hpush.cons (hops.append hdropped)
  | append _ _ ih ih' =>
    rw [forall_mem_append] at hsize
    exact (ih hsize.1 (by omega)).append (ih' hsize.2 (by omega))

end Completes

/-! ### Spending a script with a lock -/

/-- What follows a lock: pay to a key hash, or pay to a key. -/
inductive IsSpendTail : List ScriptOp → Prop
  | keyHash {vchHash : Bytes} {ops : List ScriptOp} (h : IsKeyHashTail vchHash ops) : IsSpendTail ops
  | key {key checkSig : ScriptOp} (hkey : key.opcode ≤ .OP_PUSHDATA4)
      (hcheckSig : checkSig.opcode = .OP_CHECKSIG) : IsSpendTail [key, checkSig]

/-- A script that drops some pushes, pushes a number, checks it as a lock, and pays to somebody. -/
structure LockScript (script : CScript) (lock check : ScriptOp) : Prop where
  wellFormed : script.wellFormed = true
  pushes : lock.Pushes
  exists_ops : ∃ k before drop tail, k ≤ 5 ∧ Dropping k before ∧ drop.opcode = .OP_DROP ∧
    IsSpendTail tail ∧ CScript.ops script = before ++ lock :: check :: drop :: tail

/-- **A lock that is checked is met** by whoever spends the script. -/
theorem LockScript.checkLockTime_of_verifyScript {C : Crypto} {flags : ScriptFlags}
    {checker : TransactionSignatureChecker} {scriptSig script : CScript} {lock check : ScriptOp}
    (h : LockScript script lock check) (hop : check.opcode = .OP_CHECKLOCKTIMEVERIFY)
    (htaproot : flags.taproot = false) (hflag : flags.checklocktimeverify = true)
    (hverify : verifyScript C flags checker scriptSig script = .ok ()) :
    checker.checkLockTime (CScriptNum.setVch lock.pushed) = true := by
  obtain ⟨stack, stack', -, heval, -⟩ := exists_of_verifyScript (by rw [htaproot, Bool.false_and]) hverify
  obtain ⟨st', hrun, -, -⟩ := exists_of_evalScript heval
  obtain ⟨k, before, drop, tail, -, hdropping, -, -, hops⟩ := h.exists_ops
  rw [hops, foldlM_append] at hrun
  obtain ⟨st₁, hst₁, hrun⟩ := bind_eq_ok_iff.1 hrun
  obtain ⟨_, rfl⟩ := hdropping.neutral _ _ hst₁ rfl
  obtain ⟨st₂, hst₂, hrun⟩ := bind_eq_ok_iff.1 hrun
  obtain ⟨x, _, rfl, hx⟩ := h.pushes.of_run hst₂ rfl
  obtain ⟨st₃, hst₃, -⟩ := bind_eq_ok_iff.1 hrun
  obtain ⟨_, _, n, _, heq, hnum, -, hcheck, -⟩ := evalStep_checkLockTimeVerify hst₃ rfl hop hflag
  obtain ⟨rfl, -⟩ := List.cons.inj heq
  rw [CScriptNum.eq_setVch_of_ofVch hnum, hx, TransactionSignatureChecker.checkLockTime_toBase] at hcheck
  exact hcheck

theorem CScriptNum.ofVch_of_ofVch {vch : Bytes} {n : ℤ} (h : CScriptNum.ofVch vch true = some n) :
    n < 2 ^ 31 ∧ CScriptNum.ofVch vch false 5 = some n := by
  simp only [CScriptNum.ofVch, Option.bind_eq_bind, Option.bind_eq_some_iff, Option.pure_def,
    Option.some.injEq, guard_eq_some_iff] at h ⊢
  obtain ⟨_, hlength, _, -, rfl⟩ := h
  have hlt := CScriptNum.natAbs_setVch_lt hlength
  exact ⟨by omega, (), hlength.trans (by decide), (), rfl, rfl⟩

theorem IsLocked.exists_lockScript {script : CScript} {r : LockRegistration} (h : IsLocked script r)
    (hpos : 0 < r.lockTime) :
    ∃ lock check, LockScript script lock check ∧ check.opcode = .OP_CHECKLOCKTIMEVERIFY ∧
      r.lockTime < 2 ^ 31 ∧ CScriptNum.ofVch lock.pushed false 5 = some r.lockTime := by
  obtain ⟨k, before, _, hk, hdropping, hops, htail⟩ := h.exists_ops
  obtain ⟨hpush, -, hnum, hcheck, hdrop, htail, -⟩ := htail
  rename_i lock check drop tail vchHash
  have hle : lock.opcode ≤ .OP_PUSHDATA4 := by
    refine hpush.resolve_right fun hnil ↦ hpos.ne' ?_
    rw [CScriptNum.eq_setVch_of_ofVch hnum, hnil]
    rfl
  refine ⟨lock, check, ⟨h.wellFormed, Or.inl hle, k, before, drop, tail, by omega, hdropping, hdrop,
    .keyHash htail, hops⟩, hcheck, ?_⟩
  rw [ScriptOp.pushed, if_pos hle]
  exact CScriptNum.ofVch_of_ofVch hnum

/-- The key, or the hash of the key, that a script pays to at its end. -/
def paysTo (C : Crypto) (script : CScript) (vchPubKey : Bytes) : Bool :=
  match (CScript.ops script).reverse with
  | _ :: last :: ops =>
    if last.opcode = .OP_EQUALVERIFY then ops.head?.any (·.vch == (C.hash160 vchPubKey).toBytes)
    else last.vch == vchPubKey
  | _ => false

section Spend

variable {C : Crypto} {flags : ScriptFlags} {checker : BaseSignatureChecker} {sigversion : SigVersion}
  {script code : CScript} {vchPubKey vchSig : Bytes}

theorem IsSpendTail.completes {tail before : List ScriptOp} (htail : IsSpendTail tail)
    (hops : CScript.ops script = before ++ tail) (hpays : paysTo C script vchPubKey = true)
    (hminimal : flags.minimaldata = false) (hsize : ∀ op ∈ tail, op.vch.length ≤ maxScriptElementSize)
    (hencoding : checkEncodings C flags sigversion vchSig vchPubKey = .ok ())
    (hsig : checker.checkSig vchSig vchPubKey (signedCode sigversion code [vchSig]) sigversion = true) :
    ∃ s k, (s = [vchPubKey, vchSig] ∨ s = [vchSig]) ∧ k ≤ 4 ∧
      Completes C flags checker sigversion code tail k s [vchBool true] := by
  cases htail with
  | keyHash h =>
    obtain ⟨hdup, hhash160, hhash, hvch, hequalVerify, hcheckSig⟩ := h
    rename_i vchHash dup hash160 hash equalVerify checkSig
    simp only [forall_mem_cons] at hsize
    have hkey : hash.vch = (C.hash160 vchPubKey).toBytes := by
      simpa [paysTo, hops, hequalVerify] using hpays
    exact ⟨_, 4, Or.inl rfl, le_rfl, (completes_dup hdup hsize.1 (by simp)).cons <|
        (completes_hash160 hhash160 hsize.2.1 (by simp)).cons <|
          (completes_pushData hhash hkey hminimal hsize.2.2.1 (by simp)).cons <|
          (completes_equalVerify hequalVerify hsize.2.2.2.1 (by simp)).cons <|
            completes_checkSig hcheckSig hsize.2.2.2.2.1 (by decide) hencoding hsig⟩
  | @key key checkSig hkey hcheckSig =>
    simp only [forall_mem_cons] at hsize
    have hne : key.opcode ≠ .OP_EQUALVERIFY := by
      rintro heq
      rw [heq] at hkey
      exact absurd hkey (by decide)
    have hvch : key.vch = vchPubKey := by
      simpa [paysTo, hops, hne] using hpays
    exact ⟨_, 1, Or.inr rfl, by decide, (completes_pushData hkey hvch hminimal hsize.1 (by simp)).cons <|
        completes_checkSig hcheckSig hsize.2.1 (by decide) hencoding hsig⟩

/-- **A script with a lock runs to the end** if the lock lets the number pass, and there are a key and a
signature. -/
theorem LockScript.evalScript_eq {lock check : ScriptOp} (h : LockScript script lock check)
    (hcheck : ∀ s, s.length ≤ 2 →
      Completes C flags checker sigversion script [check] 1 (lock.pushed :: s) (lock.pushed :: s))
    (hpays : paysTo C script vchPubKey = true) (hminimal : flags.minimaldata = false)
    (hlength : script.length ≤ CScript.maxScriptSize)
    (hsize : ∀ op ∈ CScript.ops script, op.vch.length ≤ maxScriptElementSize)
    (hencoding : checkEncodings C flags sigversion vchSig vchPubKey = .ok ())
    (hsig : checker.checkSig vchSig vchPubKey (signedCode sigversion script [vchSig]) sigversion = true) :
    ∃ s, (s = [vchPubKey, vchSig] ∨ s = [vchSig]) ∧
      evalScript C flags checker sigversion s script = .ok [vchBool true] := by
  obtain ⟨k, before, drop, tail, hk, hdropping, hdrop, htail, hops⟩ := h.exists_ops
  rw [hops] at hsize
  simp only [forall_mem_append, forall_mem_cons] at hsize
  obtain ⟨hbefore, hlockSize, -, hdropSize, htailSize⟩ := hsize
  have hfront : CScript.ops script = (before ++ [lock, check, drop]) ++ tail := by
    rw [hops, append_assoc]
    rfl
  obtain ⟨s, k', hs, hk', htail⟩ := htail.completes hfront hpays hminimal htailSize hencoding hsig
  have hs2 : s.length ≤ 2 := by rcases hs with rfl | rfl <;> simp
  have hrun : Completes C flags checker sigversion script (CScript.ops script) (k + (0 + (1 + (1 + k')))) s
      [vchBool true] := by
    rw [hops]
    exact (hdropping.completes hminimal hbefore (by omega)).append <|
      (completes_push h.pushes hminimal hlockSize (by omega)).cons <|
        (hcheck s hs2).cons <| (completes_drop hdrop hdropSize (by omega)).cons htail
  obtain ⟨st', hst', hat⟩ := hrun { stack := s, codehash := script } 0
    (by simp only [maxOpsPerScript]; omega) ⟨rfl, rfl, rfl, rfl, le_rfl⟩
  refine ⟨s, hs, ?_⟩
  rw [evalScript, if_neg (not_lt.2 hlength), hst', ok_bind, h.wellFormed, hat.vfExec_eq, hat.stack_eq]
  rfl

end Spend

/-! ### The input script -/

def pushAll (bs : List Bytes) : CScript := bs.flatMap (CScript.pushData [])

section PushAll

open CScript

variable {C : Crypto} {flags : ScriptFlags} {checker : BaseSignatureChecker} {sigversion : SigVersion}
  {code : CScript} {b : Bytes} {bs s : List Bytes}

theorem pushAll_cons : pushAll (b :: bs) = pushData [] b ++ pushAll bs := rfl

theorem getOp_pushData (h : b.length ≤ maxScriptElementSize) (t : CScript) :
    ∃ opcode ≤ .OP_PUSHDATA4, getOp (pushData [] b ++ t) = some ⟨opcode, b, t⟩ := by
  obtain ⟨size, hsize, hpush⟩ := pushSize_pushData (h.trans_lt (by decide))
  obtain ⟨opcode, hle, hget⟩ := hsize.getOp
  rw [hpush, append_assoc]
  exact ⟨opcode, hle, hget t⟩

theorem length_pushData_le (h : b.length ≤ maxScriptElementSize) : (pushData [] b).length ≤ 525 := by
  obtain ⟨size, hsize, hpush⟩ := pushSize_pushData (h.trans_lt (by decide))
  have hle : b.length ≤ 520 := h
  rw [hpush, length_append]
  cases hsize
  all_goals
    simp only [length_cons, length_nil, Reader.length_natToLE]
    omega

theorem length_pushAll_le (h : ∀ b ∈ bs, b.length ≤ maxScriptElementSize) :
    (pushAll bs).length ≤ 525 * bs.length := by
  induction bs with
  | nil => exact le_rfl
  | cons b bs ih =>
    rw [forall_mem_cons] at h
    have hb := length_pushData_le h.1
    have hbs := ih h.2
    rw [pushAll_cons, length_append, length_cons]
    omega

theorem wellFormed_pushAll (h : ∀ b ∈ bs, b.length ≤ maxScriptElementSize) :
    wellFormed (pushAll bs) = true := by
  induction bs with
  | nil => rfl
  | cons b bs ih =>
    rw [forall_mem_cons] at h
    obtain ⟨_, -, hget⟩ := getOp_pushData h.1 (pushAll bs)
    rw [pushAll_cons, wellFormed_of_getOp hget]
    exact ih h.2

theorem completes_pushAll (hminimal : flags.minimaldata = false)
    (h : ∀ b ∈ bs, b.length ≤ maxScriptElementSize) (hlength : s.length + bs.length ≤ 1000) :
    Completes C flags checker sigversion code (ops (pushAll bs)) 0 s (bs.reverse ++ s) := by
  induction bs generalizing s with
  | nil => exact .nil
  | cons b bs ih =>
    rw [forall_mem_cons] at h
    rw [length_cons] at hlength
    obtain ⟨opcode, hle, hget⟩ := getOp_pushData h.1 (pushAll bs)
    rw [pushAll_cons, ops_of_getOp hget, reverse_cons, append_assoc]
    exact (completes_pushData hle rfl hminimal h.1 (by omega)).cons
      (ih h.2 (by rw [length_cons]; omega))

/-- **The input script leaves its elements**, the last one on top. -/
theorem evalScript_pushAll (hminimal : flags.minimaldata = false)
    (h : ∀ b ∈ bs, b.length ≤ maxScriptElementSize) (hlength : bs.length ≤ 2) :
    evalScript C flags checker sigversion [] (pushAll bs) = .ok bs.reverse := by
  have hsize : (pushAll bs).length ≤ maxScriptSize := by
    have hle := length_pushAll_le h
    simp only [maxScriptSize]
    omega
  have hrun : Completes C flags checker sigversion (pushAll bs) (ops (pushAll bs)) 0 [] (bs.reverse ++ []) :=
    completes_pushAll hminimal h (by rw [length_nil]; omega)
  obtain ⟨st', hst', hat⟩ := hrun { stack := [], codehash := pushAll bs } 0 (by decide) ⟨rfl, rfl, rfl, rfl, le_rfl⟩
  rw [evalScript, if_neg (not_lt.2 hsize), hst', ok_bind, wellFormed_pushAll h, hat.vfExec_eq,
    hat.stack_eq, append_nil]
  rfl

end PushAll

/-! ### Verification -/

section Verify

variable {C : Crypto} {flags : ScriptFlags} {checker : TransactionSignatureChecker} {script : CScript}
  {lock check : ScriptOp} {vchPubKey vchSig : Bytes}

theorem Dropping.eq_nil_or_pushes {k : ℕ} {ops : List ScriptOp} (h : Dropping k ops) :
    ops = [] ∨ ∃ op ops', ops = op :: ops' ∧ op.Pushes := by
  induction h with
  | nil => exact Or.inl rfl
  | wrap _ hop _ _ => exact Or.inr ⟨_, _, rfl, hop⟩
  | append _ _ ih ih' =>
    rcases ih with rfl | ⟨op, ops, rfl, hop⟩
    · exact ih'
    · exact Or.inr ⟨op, _, rfl, hop⟩

theorem LockScript.not_isPayToScriptHash (h : LockScript script lock check) :
    script.isPayToScriptHash = false := by
  obtain ⟨k, before, drop, tail, -, hdropping, -, -, hops⟩ := h.exists_ops
  obtain ⟨op, ops, hfirst, hpushes⟩ : ∃ op ops, CScript.ops script = op :: ops ∧ op.Pushes := by
    rcases hdropping.eq_nil_or_pushes with rfl | ⟨op, ops, rfl, hop⟩
    · exact ⟨lock, _, hops, h.pushes⟩
    · exact ⟨op, _, hops, hop⟩
  rw [CScript.isPayToScriptHash]
  by_contra hp2sh
  simp only [Bool.not_eq_false, Bool.and_eq_true, beq_iff_eq] at hp2sh
  obtain ⟨⟨⟨-, hhead⟩, -⟩, -⟩ := hp2sh
  cases script with
  | nil => cases hhead
  | cons b rest =>
    obtain rfl : b = Opcode.OP_HASH160.toByte := by simpa using hhead
    have hget : CScript.getOp (Opcode.OP_HASH160.toByte :: rest) = some ⟨.OP_HASH160, [], rest⟩ :=
      CScript.getOp_toByte (by decide) (by decide) rest
    rw [CScript.ops_of_getOp hget] at hfirst
    obtain ⟨rfl, -⟩ := List.cons.inj hfirst
    revert hpushes
    simp only [ScriptOp.Pushes]
    decide

/-- **A script with a lock can be spent** if the lock lets the number pass and somebody signs. -/
theorem LockScript.exists_verifyScript (h : LockScript script lock check)
    (hcheck : ∀ s, s.length ≤ 2 → Completes C flags (checker.toBase C) .SIGVERSION_BASE script [check] 1
      (lock.pushed :: s) (lock.pushed :: s))
    (hflags : flags.taproot = false ∧ flags.sigpushonly = false ∧ flags.minimaldata = false)
    (hlength : script.length ≤ CScript.maxScriptSize)
    (hsize : ∀ op ∈ CScript.ops script, op.vch.length ≤ maxScriptElementSize)
    (hpays : paysTo C script vchPubKey = true) (hkey : vchPubKey.length ≤ maxScriptElementSize)
    (hsigSize : vchSig.length ≤ maxScriptElementSize)
    (hencoding : checkEncodings C flags .SIGVERSION_BASE vchSig vchPubKey = .ok ())
    (hsig : checker.checkEcdsaSig C vchSig vchPubKey (signedCode .SIGVERSION_BASE script [vchSig]) = true) :
    ∃ bs, (bs = [vchSig, vchPubKey] ∨ bs = [vchSig]) ∧
      verifyScript C flags checker (pushAll bs) script = .ok () := by
  obtain ⟨htaproot, hpushonly, hminimal⟩ := hflags
  obtain ⟨s, hs, heval⟩ := h.evalScript_eq hcheck hpays hminimal hlength hsize hencoding
    (show (checker.toBase C).checkSig _ _ _ _ = true from hsig)
  have hbs : s.reverse = [vchSig, vchPubKey] ∨ s.reverse = [vchSig] :=
    hs.imp (congrArg List.reverse) (congrArg List.reverse)
  have hsizes : (∀ b ∈ s.reverse, b.length ≤ maxScriptElementSize) ∧ s.reverse.length ≤ 2 := by
    rcases hbs with hbs | hbs <;> simp [hbs, hkey, hsigSize]
  refine ⟨s.reverse, hbs, ?_⟩
  have hinput : evalScript C flags (checker.toBase C) .SIGVERSION_BASE [] (pushAll s.reverse) = .ok s := by
    rw [evalScript_pushAll hminimal hsizes.1 hsizes.2, reverse_reverse]
  rw [verifyScript, htaproot, Bool.false_and, if_neg Bool.false_ne_true, hpushonly, Bool.false_and,
    if_neg Bool.false_ne_true, evalBase, hinput, ok_bind, evalBase, heval, ok_bind,
    h.not_isPayToScriptHash, Bool.and_false]
  rfl

end Verify

end KristaTech
