import KristaTech.Script.Instructions
import KristaTech.Script.Verify
import KristaTech.Library.EarlyExit

/-!
# Taproot outputs

The script of a Taproot output is `OP_1` and a push of the 32-byte output key. With the Taproot flag
`VerifyScript` takes it as a rule about the spending input (`verifyTaproot`). Without the flag it is
an ordinary script that pushes two values: it succeeds whenever the key, read as a number, is not
zero, whatever the input says (`verifyScript_of_not_taproot`).
-/

namespace KristaTech

theorem isTaprootScript_iff {s : CScript} :
    isTaprootScript s = true ↔ ∃ k : Bytes, s = Opcode.OP_1.toByte :: 32 :: k ∧ k.length = 32 := by
  constructor
  · intro h
    match s with
    | [] | [_] => simp [isTaprootScript] at h
    | b₀ :: b₁ :: k =>
      simp only [isTaprootScript, List.length_cons, List.getElem?_cons_zero,
        List.getElem?_cons_succ, Bool.and_eq_true, beq_iff_eq, Option.some.injEq] at h
      obtain ⟨⟨hlen, rfl⟩, rfl⟩ := h
      exact ⟨k, rfl, by omega⟩
  · rintro ⟨k, rfl, hk⟩
    simp [isTaprootScript, hk]

section Ops

variable {k : Bytes}

theorem getOp_op1 : CScript.getOp (Opcode.OP_1.toByte :: 32 :: k) = some ⟨.OP_1, [], 32 :: k⟩ := rfl

theorem getOp_push32 (hk : k.length = 32) : CScript.getOp (32 :: k) = some ⟨.byte 32, k, []⟩ := by
  refine CScript.getOp_of_operandSize (by decide) ?_
  rw [hk, List.append_nil]
  rfl

theorem ops_taproot (hk : k.length = 32) :
    CScript.ops (Opcode.OP_1.toByte :: 32 :: k) = [⟨.OP_1, [], 32 :: k⟩, ⟨.byte 32, k, []⟩] := by
  rw [CScript.ops_of_getOp getOp_op1, CScript.ops_of_getOp (getOp_push32 hk)]
  rfl

end Ops

section Eval

variable (C : Crypto) (flags : ScriptFlags) (checker : TransactionSignatureChecker)

def pushIfRoom (st : EvalState) (vch : Bytes) : Except ScriptError EvalState :=
  if 1000 < st.stack.length + 1 + st.altstack.length then .error .SCRIPT_ERR_STACK_SIZE
  else .ok (st.push vch)

variable {k : Bytes}

theorem pushIfRoom_of_room (h : st.stack.length + st.altstack.length < 1000) (vch : Bytes) :
    pushIfRoom st vch = .ok (st.push vch) := if_neg (by omega)

theorem pushIfRoom_of_full (h : 1000 ≤ st.stack.length + st.altstack.length) (vch : Bytes) :
    pushIfRoom st vch = .error .SCRIPT_ERR_STACK_SIZE := if_pos (by omega)

variable {st : EvalState} (base : BaseSignatureChecker) (sigversion : SigVersion)

theorem evalStep_op1 (hst : st.vfExec = []) (rest : CScript) :
    evalStep C flags base sigversion st ⟨.OP_1, [], rest⟩ = pushIfRoom st [1] := by
  have hexec : execInstruction C flags base sigversion ⟨.OP_1, [], rest⟩ st = .ok (st.push [1]) := by
    have hone : CScriptNum.serialize 1 = [1] := by decide
    simp [execInstruction, execOp, hst, hone, show ¬Opcode.OP_1 ≤ Opcode.OP_PUSHDATA4 by decide]
  have hcount : countOp ⟨.OP_1, [], rest⟩ st = st := rfl
  have hlow : ¬Opcode.OP_16 < Opcode.OP_1 := by decide
  have hdisabled : isDisabled .OP_1 = false := rfl
  rw [evalStep, hcount, if_neg (by simp), if_neg fun h ↦ hlow h.1, hdisabled,
    if_neg Bool.false_ne_true, hexec]
  rfl

theorem evalStep_push32 (hflags : flags.minimaldata = false) (hst : st.vfExec = [])
    (hk : k.length = 32) (rest : CScript) :
    evalStep C flags base sigversion st ⟨.byte 32, k, rest⟩ = pushIfRoom st k := by
  have hexec : execInstruction C flags base sigversion ⟨.byte 32, k, rest⟩ st = .ok (st.push k) := by
    simp [execInstruction, hst, hflags, show Opcode.byte 32 ≤ Opcode.OP_PUSHDATA4 by decide]
  have hcount : countOp ⟨.byte 32, k, rest⟩ st = st := rfl
  have hlow : ¬Opcode.OP_16 < Opcode.byte 32 := by decide
  have hdisabled : isDisabled (.byte 32) = false := rfl
  rw [evalStep, hcount, if_neg (by simp [hk, maxScriptElementSize]), if_neg fun h ↦ hlow h.1,
    hdisabled, if_neg Bool.false_ne_true, hexec]
  rfl

theorem evalBase_taproot (hflags : flags.minimaldata = false) (hk : k.length = 32)
    (stack : List Bytes) : evalBase C flags checker stack (Opcode.OP_1.toByte :: 32 :: k) =
      if 998 < stack.length then .error .SCRIPT_ERR_STACK_SIZE else .ok (k :: [1] :: stack) := by
  have hwell : CScript.wellFormed (Opcode.OP_1.toByte :: 32 :: k) = true := by
    simp [CScript.wellFormed, CScript.unparsed, ops_taproot hk]
  rw [evalBase, evalScript, if_neg (by simp [hk, CScript.maxScriptSize]), ops_taproot hk,
    List.foldlM_cons, evalStep_op1 _ _ _ _ rfl]
  simp only [hwell, Bool.not_true, Bool.false_eq_true, if_false]
  set st : EvalState := { stack := stack, codehash := Opcode.OP_1.toByte :: 32 :: k }
  have hst : st.stack.length + st.altstack.length = stack.length := rfl
  have hst' : (st.push [1]).stack.length + (st.push [1]).altstack.length = stack.length + 1 := rfl
  by_cases hone : 1000 ≤ stack.length
  · rw [pushIfRoom_of_full (by omega), if_pos (by omega)]
    rfl
  · rw [pushIfRoom_of_room (by omega), Except.ok_bind, List.foldlM_cons,
      evalStep_push32 _ _ _ _ hflags rfl hk]
    by_cases htwo : 998 < stack.length
    · rw [pushIfRoom_of_full (by omega), if_pos htwo]
      rfl
    · rw [pushIfRoom_of_room (by omega), if_neg htwo]
      rfl

theorem not_isPayToScriptHash : CScript.isPayToScriptHash (Opcode.OP_1.toByte :: 32 :: k) = false := by
  simp [CScript.isPayToScriptHash, Opcode.toByte]

/-- **Without the Taproot flag**, an input that evaluates to a stack with room spends the output
exactly when the key is not zero; the input's own signatures play no part. -/
theorem verifyScript_of_not_taproot (htaproot : flags.taproot = false)
    (hpushonly : flags.sigpushonly = false) (hflags : flags.minimaldata = false)
    (hk : k.length = 32) (scriptSig : CScript) :
    verifyScript C flags checker scriptSig (Opcode.OP_1.toByte :: 32 :: k) = .ok () ↔ castToBool k = true ∧
        ∃ stack, evalBase C flags checker [] scriptSig = .ok stack ∧ stack.length ≤ 998 := by
  rw [verifyScript, htaproot, hpushonly]
  simp only [Bool.false_and, Bool.false_eq_true, if_false, Except.bind_eq_ok_iff,
    evalBase_taproot C flags checker hflags hk, not_isPayToScriptHash, Bool.and_false]
  constructor
  · rintro ⟨stack, hstack, stack', hstack', u, htrue, -⟩
    split_ifs at hstack' with hlen
    obtain rfl := Except.ok.inj hstack'
    refine ⟨?_, stack, hstack, by omega⟩
    by_contra hfalse
    simp [requireTrue, hfalse] at htrue
  · rintro ⟨htrue, stack, hstack, hlen⟩
    refine ⟨stack, hstack, k :: [1] :: stack, if_neg (by omega), (), ?_, rfl⟩
    simp [requireTrue, htrue]

theorem verifyTaproot_nil (scriptPubKey : CScript) :
    verifyTaproot C flags checker [] scriptPubKey ≠ .ok () := by
  have hnil : evalBase C flags checker [] [] = .ok [] := rfl
  have hpush : CScript.isPushOnly [] = true := rfl
  simp [verifyTaproot, hnil, hpush]

end Eval

end KristaTech
