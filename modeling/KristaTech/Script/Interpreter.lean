import KristaTech.Script.Standard

/-!
# The script interpreter

`EvalScript` of `script/interpreter.cpp`, with every opcode. The stack is a list whose head is the
top. Signatures and lock times are asked of a checker, so that one interpreter serves the ordinary
scripts and the leaf scripts of a Taproot output.

The instructions are read first (`CScript.ops`) and then executed one after the other; a script
whose last instruction is cut off fails when it gets there, as in the source.
-/

namespace KristaTech

/-- `ScriptError`. -/
inductive ScriptError
  | SCRIPT_ERR_UNKNOWN_ERROR | SCRIPT_ERR_EVAL_FALSE | SCRIPT_ERR_OP_RETURN
  -- maximal sizes
  | SCRIPT_ERR_SCRIPT_SIZE | SCRIPT_ERR_PUSH_SIZE | SCRIPT_ERR_OP_COUNT | SCRIPT_ERR_STACK_SIZE
  | SCRIPT_ERR_SIG_COUNT | SCRIPT_ERR_PUBKEY_COUNT
  -- failed verify operations
  | SCRIPT_ERR_VERIFY | SCRIPT_ERR_EQUALVERIFY | SCRIPT_ERR_CHECKMULTISIGVERIFY
  | SCRIPT_ERR_CHECKSIGVERIFY | SCRIPT_ERR_NUMEQUALVERIFY
  -- logical errors
  | SCRIPT_ERR_BAD_OPCODE | SCRIPT_ERR_DISABLED_OPCODE | SCRIPT_ERR_INVALID_STACK_OPERATION
  | SCRIPT_ERR_INVALID_ALTSTACK_OPERATION | SCRIPT_ERR_UNBALANCED_CONDITIONAL
  | SCRIPT_ERR_NEGATIVE_LOCKTIME | SCRIPT_ERR_UNSATISFIED_LOCKTIME
  -- encodings
  | SCRIPT_ERR_SIG_HASHTYPE | SCRIPT_ERR_SIG_DER | SCRIPT_ERR_MINIMALDATA | SCRIPT_ERR_SIG_PUSHONLY
  | SCRIPT_ERR_SIG_HIGH_S | SCRIPT_ERR_SIG_NULLDUMMY | SCRIPT_ERR_PUBKEYTYPE
  | SCRIPT_ERR_SIG_NULLFAIL | SCRIPT_ERR_DISCOURAGE_UPGRADABLE_NOPS
  deriving DecidableEq, Repr

/-- `ScriptErrorString`. -/
def ScriptError.toString : ScriptError → String
  | SCRIPT_ERR_UNKNOWN_ERROR => "unknown error"
  | SCRIPT_ERR_EVAL_FALSE =>
    "Script evaluated without error but finished with a false/empty top stack element"
  | SCRIPT_ERR_OP_RETURN => "OP_RETURN was encountered"
  | SCRIPT_ERR_SCRIPT_SIZE => "Script is too big"
  | SCRIPT_ERR_PUSH_SIZE => "Push value size limit exceeded"
  | SCRIPT_ERR_OP_COUNT => "Operation limit exceeded"
  | SCRIPT_ERR_STACK_SIZE => "Stack size limit exceeded"
  | SCRIPT_ERR_SIG_COUNT => "Signature count negative or greater than pubkey count"
  | SCRIPT_ERR_PUBKEY_COUNT => "Pubkey count negative or limit exceeded"
  | SCRIPT_ERR_VERIFY => "Script failed an OP_VERIFY operation"
  | SCRIPT_ERR_EQUALVERIFY => "Script failed an OP_EQUALVERIFY operation"
  | SCRIPT_ERR_CHECKMULTISIGVERIFY => "Script failed an OP_CHECKMULTISIGVERIFY operation"
  | SCRIPT_ERR_CHECKSIGVERIFY => "Script failed an OP_CHECKSIGVERIFY operation"
  | SCRIPT_ERR_NUMEQUALVERIFY => "Script failed an OP_NUMEQUALVERIFY operation"
  | SCRIPT_ERR_BAD_OPCODE => "Opcode missing or not understood"
  | SCRIPT_ERR_DISABLED_OPCODE => "Attempted to use a disabled opcode"
  | SCRIPT_ERR_INVALID_STACK_OPERATION => "Operation not valid with the current stack size"
  | SCRIPT_ERR_INVALID_ALTSTACK_OPERATION => "Operation not valid with the current altstack size"
  | SCRIPT_ERR_UNBALANCED_CONDITIONAL => "Invalid OP_IF construction"
  | SCRIPT_ERR_NEGATIVE_LOCKTIME => "Negative locktime"
  | SCRIPT_ERR_UNSATISFIED_LOCKTIME => "Locktime requirement not satisfied"
  | SCRIPT_ERR_SIG_HASHTYPE => "Signature hash type missing or not understood"
  | SCRIPT_ERR_SIG_DER => "Non-canonical DER signature"
  | SCRIPT_ERR_MINIMALDATA => "Data push larger than necessary"
  | SCRIPT_ERR_SIG_PUSHONLY => "Only non-push operators allowed in signatures"
  | SCRIPT_ERR_SIG_HIGH_S => "Non-canonical signature: S value is unnecessarily high"
  | SCRIPT_ERR_SIG_NULLDUMMY => "Dummy CHECKMULTISIG argument must be zero"
  | SCRIPT_ERR_PUBKEYTYPE => "Public key is neither compressed or uncompressed"
  | SCRIPT_ERR_SIG_NULLFAIL => "Signature must be zero for failed CHECK(MULTI)SIG operation"
  | SCRIPT_ERR_DISCOURAGE_UPGRADABLE_NOPS => "NOPx reserved for soft-fork upgrades"

/-- The script verification flags, one field for each bit. -/
structure ScriptFlags where
  p2sh : Bool := false
  strictenc : Bool := false
  dersig : Bool := false
  lowS : Bool := false
  nulldummy : Bool := false
  sigpushonly : Bool := false
  minimaldata : Bool := false
  discourageUpgradableNops : Bool := false
  cleanstack : Bool := false
  checklocktimeverify : Bool := false
  checksequenceverify : Bool := false
  nullfail : Bool := false
  taproot : Bool := false
  deriving DecidableEq, Repr

namespace ScriptFlags

/-- `STANDARD_SCRIPT_VERIFY_FLAGS`, of the mempool. -/
def standardScriptVerifyFlags : ScriptFlags where
  p2sh := true
  strictenc := true
  dersig := true
  lowS := true
  nulldummy := true
  minimaldata := true
  discourageUpgradableNops := true
  cleanstack := true
  checklocktimeverify := true
  checksequenceverify := true
  nullfail := true
  taproot := true

/-- `flags & STANDARD_NOT_MANDATORY_VERIFY_FLAGS` is not zero. -/
def anyNotMandatory (flags : ScriptFlags) : Bool :=
  flags.strictenc || flags.dersig || flags.lowS || flags.nulldummy || flags.minimaldata ||
    flags.discourageUpgradableNops || flags.cleanstack || flags.checklocktimeverify ||
    flags.checksequenceverify || flags.nullfail || flags.taproot

/-- `flags & ~STANDARD_NOT_MANDATORY_VERIFY_FLAGS`. -/
def mandatoryOnly (flags : ScriptFlags) : ScriptFlags :=
  { p2sh := flags.p2sh, sigpushonly := flags.sigpushonly }

end ScriptFlags

/-- `SigVersion`; version 0 witnesses are never evaluated. -/
inductive SigVersion
  | SIGVERSION_BASE
  | SIGVERSION_TAPROOT
  | SIGVERSION_TAPSCRIPT
  deriving DecidableEq, Repr

/-- `BaseSignatureChecker`: a signature with its key, script code and version, and the two lock
times. -/
structure BaseSignatureChecker where
  checkSig : Bytes → Bytes → CScript → SigVersion → Bool
  checkLockTime : ℤ → Bool
  checkSequence : ℤ → Bool

/-! ### Encodings -/

/-- `CastToBool`: not all bytes are zero; a zero with a sign counts as zero. -/
def castToBool : Bytes → Bool
  | [] => false
  | [b] => b != 0 && b != 0x80
  | b :: bs => b != 0 || castToBool bs

/-- `IsCompressedOrUncompressedPubKey`. -/
def isCompressedOrUncompressedPubKey (vchPubKey : Bytes) : Bool :=
  CPubKey.compressedPublicKeySize ≤ vchPubKey.length &&
    match vchPubKey.head? with
    | some 0x04 => vchPubKey.length == CPubKey.publicKeySize
    | some 0x02 | some 0x03 => vchPubKey.length == CPubKey.compressedPublicKeySize
    | _ => false

/-- One of the two integers of a signature: `len` bytes from `start` on, after a tag and a length. -/
def isValidSignatureInteger (sig : Bytes) (start len : ℕ) : Bool :=
  sig.getD (start - 2) 0 == 0x02 && len != 0 && sig.getD start 0 &&& 0x80 == 0 &&
    !(1 < len && sig.getD start 0 == 0 && sig.getD (start + 1) 0 &&& 0x80 == 0)

/-- `IsValidSignatureEncoding`. -/
def isValidSignatureEncoding (sig : Bytes) : Bool :=
  let lenR := (sig.getD 3 0).toNat
  let lenS := (sig.getD (5 + lenR) 0).toNat
  9 ≤ sig.length && sig.length ≤ 73 && sig.getD 0 0 == 0x30 &&
    (sig.getD 1 0).toNat == sig.length - 3 && 5 + lenR < sig.length &&
    lenR + lenS + 7 == sig.length && isValidSignatureInteger sig 4 lenR &&
    isValidSignatureInteger sig (lenR + 6) lenS

/-- `IsDefinedHashtypeSignature`. -/
def isDefinedHashtypeSignature (vchSig : Bytes) : Bool :=
  vchSig.getLast?.any fun b ↦ 1 ≤ b &&& 0x7f && b &&& 0x7f ≤ 3

/-- `CheckSignatureEncoding`; the empty signature is allowed. -/
def checkSignatureEncoding (C : Crypto) (flags : ScriptFlags) (vchSig : Bytes) : Except ScriptError Unit :=
  if vchSig.isEmpty then .ok ()
  else if (flags.dersig || flags.lowS || flags.strictenc) && !isValidSignatureEncoding vchSig then
    .error .SCRIPT_ERR_SIG_DER
  else if flags.lowS && !C.checkLowS vchSig.dropLast then .error .SCRIPT_ERR_SIG_HIGH_S
  else if flags.strictenc && !isDefinedHashtypeSignature vchSig then
    .error .SCRIPT_ERR_SIG_HASHTYPE
  else .ok ()

/-- `CheckPubKeyEncoding`. -/
def checkPubKeyEncoding (flags : ScriptFlags) (vchPubKey : Bytes) : Except ScriptError Unit :=
  if flags.strictenc && !isCompressedOrUncompressedPubKey vchPubKey then
    .error .SCRIPT_ERR_PUBKEYTYPE
  else .ok ()

/-- `CheckMinimalPush`. -/
def checkMinimalPush (data : Bytes) (opcode : Opcode) : Bool :=
  match data with
  | [] => opcode.toByte == 0
  | [b] =>
    if 1 ≤ b ∧ b ≤ 16 then opcode.toByte == Opcode.OP_1.toByte + (b - 1)
    else if b = 0x81 then opcode == .OP_1NEGATE
    else opcode.toByte == 1
  | _ =>
    if data.length ≤ 75 then opcode.toByte.toNat == data.length
    else if data.length ≤ 255 then opcode == .OP_PUSHDATA1
    else if data.length ≤ 65535 then opcode == .OP_PUSHDATA2
    else true

/-! ### The machine -/

/-- The state of an execution. -/
structure EvalState where
  stack : List Bytes
  altstack : List Bytes := []
  /-- For every open conditional, innermost first, whether its current branch is executed. -/
  vfExec : List Bool := []
  nOpCount : ℕ := 0
  /-- The script from `pbegincodehash` on. -/
  codehash : CScript

namespace EvalState

/-- A change of the stack that fails when there are too few elements. -/
def onStack (st : EvalState) (f : List Bytes → Option (List Bytes)) : Except ScriptError EvalState :=
  match f st.stack with
  | some stack => .ok { st with stack := stack }
  | none => .error .SCRIPT_ERR_INVALID_STACK_OPERATION

def push (st : EvalState) (vch : Bytes) : EvalState := { st with stack := vch :: st.stack }

end EvalState

def vchBool (b : Bool) : Bytes := if b then [1] else []

def boolNum (b : Bool) : ℤ := if b then 1 else 0

/-- `CScriptNum(vch, fRequireMinimal, nMaxNumSize)`; its exception ends the script. -/
def scriptNum (fRequireMinimal : Bool) (vch : Bytes) (nMaxNumSize : ℕ) : Except ScriptError ℤ :=
  match CScriptNum.ofVch vch fRequireMinimal nMaxNumSize with
  | some n => .ok n
  | none => .error .SCRIPT_ERR_UNKNOWN_ERROR

/-- `MAX_SCRIPT_ELEMENT_SIZE`. -/
def maxScriptElementSize : ℕ := 520

/-- `MAX_OPS_PER_SCRIPT`. -/
def maxOpsPerScript : ℕ := 201

/-- The opcodes that fail even when they are not executed. -/
def isDisabled : Opcode → Bool
  | .OP_CAT | .OP_SUBSTR | .OP_LEFT | .OP_RIGHT | .OP_INVERT | .OP_AND | .OP_OR | .OP_XOR
  | .OP_2MUL | .OP_2DIV | .OP_MUL | .OP_DIV | .OP_MOD | .OP_LSHIFT | .OP_RSHIFT | .OP_MLOAD
  | .OP_MSTORE | .OP_SLOAD | .OP_SSTORE | .OP_PUBLISH | .OP_RUN | .OP_UPDATE_STATUS => true
  | _ => false

namespace CScript

/-- `FindAndDelete`, at the front of what is left of a script. -/
def deleteAux (b : CScript) : ℕ → CScript → CScript
  | 0, s => s
  | fuel + 1, s =>
    if b.isPrefixOf s then deleteAux b fuel (s.drop b.length)
    else
      match getOp s with
      | none => s
      | some op => s.take (s.length - op.rest.length) ++ deleteAux b fuel op.rest

/-- `FindAndDelete`: all copies of `b` that start at an instruction are taken out. -/
def findAndDelete (s b : CScript) : CScript := if b.isEmpty then s else deleteAux b (s.length + 1) s

end CScript

section Exec

variable (C : Crypto) (flags : ScriptFlags) (checker : BaseSignatureChecker) (sigversion : SigVersion)

/-- The operand of a numeric opcode replaced by its value. -/
def unaryNum (st : EvalState) (f : ℤ → ℤ) : Except ScriptError EvalState :=
  match st.stack with
  | x :: s => do
    let n ← scriptNum flags.minimaldata x CScriptNum.defaultMaxNumSize
    return { st with stack := CScriptNum.serialize (f n) :: s }
  | _ => .error .SCRIPT_ERR_INVALID_STACK_OPERATION

/-- The operands of a numeric opcode, the lower one first, replaced by its value. -/
def binaryNum (st : EvalState) (f : ℤ → ℤ → ℤ) : Except ScriptError EvalState :=
  match st.stack with
  | x₂ :: x₁ :: s => do
    let n₁ ← scriptNum flags.minimaldata x₁ CScriptNum.defaultMaxNumSize
    let n₂ ← scriptNum flags.minimaldata x₂ CScriptNum.defaultMaxNumSize
    return { st with stack := CScriptNum.serialize (f n₁ n₂) :: s }
  | _ => .error .SCRIPT_ERR_INVALID_STACK_OPERATION

def verifyTop (error : ScriptError) (st : EvalState) : Except ScriptError EvalState :=
  match st.stack with
  | x :: s => if castToBool x then .ok { st with stack := s } else .error error
  | [] => .error .SCRIPT_ERR_INVALID_STACK_OPERATION

def hashTop (st : EvalState) (f : Bytes → Bytes) : Except ScriptError EvalState :=
  st.onStack fun
    | x :: s => some (f x :: s)
    | _ => none

/-- The encodings are not checked for the 32-byte keys of a leaf script. -/
def checkEncodings (vchSig vchPubKey : Bytes) : Except ScriptError Unit :=
  if sigversion ≠ .SIGVERSION_TAPSCRIPT ∨ vchPubKey.length ≠ 32 then do
    checkSignatureEncoding C flags vchSig
    checkPubKeyEncoding flags vchPubKey
  else .ok ()

/-- The script code with the signatures taken out that sign it. -/
def signedCode (codehash : CScript) (sigs : List Bytes) : CScript :=
  if sigversion = .SIGVERSION_BASE then
    sigs.foldl (fun s sig ↦ CScript.findAndDelete s (CScript.pushData [] sig)) codehash
  else codehash

/-- `OP_CHECKSIG`. -/
def execCheckSig (st : EvalState) : Except ScriptError EvalState :=
  match st.stack with
  | vchPubKey :: vchSig :: s => do
    checkEncodings C flags sigversion vchSig vchPubKey
    let fSuccess := checker.checkSig vchSig vchPubKey (signedCode sigversion st.codehash [vchSig])
      sigversion
    return { st with stack := vchBool fSuccess :: s }
  | _ => .error .SCRIPT_ERR_INVALID_STACK_OPERATION

/-- `OP_CHECKSIGADD`, of leaf scripts only. -/
def execCheckSigAdd (st : EvalState) : Except ScriptError EvalState :=
  if sigversion ≠ .SIGVERSION_TAPSCRIPT then .error .SCRIPT_ERR_BAD_OPCODE
  else
    match st.stack with
    | vchPubKey :: num :: vchSig :: s => do
      let nNum ← scriptNum flags.minimaldata num CScriptNum.defaultMaxNumSize
      let fSuccess := checker.checkSig vchSig vchPubKey st.codehash sigversion
      return { st with stack := CScriptNum.serialize (nNum + boolNum fSuccess) :: s }
    | _ => .error .SCRIPT_ERR_INVALID_STACK_OPERATION

/-- The loop of `OP_CHECKMULTISIG`: every signature needs a key, in the order of the keys. -/
def checkMultisig (scriptCode : CScript) : List Bytes → List Bytes → Except ScriptError Bool
  | [], _ => .ok true
  | _ :: _, [] => .ok false
  | vchSig :: sigs, vchPubKey :: keys => do
    checkEncodings C flags sigversion vchSig vchPubKey
    let sigsLeft :=
      if checker.checkSig vchSig vchPubKey scriptCode sigversion then sigs else vchSig :: sigs
    if keys.length < sigsLeft.length then return false
    else checkMultisig scriptCode sigsLeft keys

/-- `OP_CHECKMULTISIG`: the number of keys, the keys, the number of signatures, the signatures and
one more element are consumed. -/
def execCheckMultisig (st : EvalState) : Except ScriptError EvalState :=
  match st.stack with
  | [] => .error .SCRIPT_ERR_INVALID_STACK_OPERATION
  | keysCount :: rest => do
    let nKeysCount := CScriptNum.getint
      (← scriptNum flags.minimaldata keysCount CScriptNum.defaultMaxNumSize)
    if nKeysCount < 0 ∨ (CScript.maxPubkeysPerMultisig : ℤ) < nKeysCount then
      .error .SCRIPT_ERR_PUBKEY_COUNT
    else
      let nKeys := nKeysCount.toNat
      let nOpCount := st.nOpCount + nKeys
      if maxOpsPerScript < nOpCount then .error .SCRIPT_ERR_OP_COUNT
      else
        match rest.drop nKeys with
        | [] => .error .SCRIPT_ERR_INVALID_STACK_OPERATION
        | sigsCount :: rest' => do
          let nSigsCount := CScriptNum.getint
            (← scriptNum flags.minimaldata sigsCount CScriptNum.defaultMaxNumSize)
          if nSigsCount < 0 ∨ nKeysCount < nSigsCount then .error .SCRIPT_ERR_SIG_COUNT
          else
            let sigs := rest'.take nSigsCount.toNat
            match rest'.drop nSigsCount.toNat with
            | [] => .error .SCRIPT_ERR_INVALID_STACK_OPERATION
            | dummy :: s => do
              let fSuccess ← checkMultisig C flags checker sigversion
                (signedCode sigversion st.codehash sigs) sigs (rest.take nKeys)
              if !fSuccess && flags.nullfail && sigs.any (!·.isEmpty) then
                .error .SCRIPT_ERR_SIG_NULLFAIL
              else if flags.nulldummy && !dummy.isEmpty then .error .SCRIPT_ERR_SIG_NULLDUMMY
              else return { st with stack := vchBool fSuccess :: s, nOpCount := nOpCount }

/-- `OP_PICK` and `OP_ROLL`. -/
def execPick (roll : Bool) (st : EvalState) : Except ScriptError EvalState :=
  match st.stack with
  | x :: y :: s' => do
    let s := y :: s'
    let n := CScriptNum.getint (← scriptNum flags.minimaldata x CScriptNum.defaultMaxNumSize)
    if n < 0 ∨ (s.length : ℤ) ≤ n then .error .SCRIPT_ERR_INVALID_STACK_OPERATION
    else
      return { st with
        stack := s.getD n.toNat [] :: if roll then s.eraseIdx n.toNat else s }
  | _ => .error .SCRIPT_ERR_INVALID_STACK_OPERATION

/-- `OP_CHECKLOCKTIMEVERIFY`; a `NOP` where it is not enabled. -/
def execCheckLockTimeVerify (st : EvalState) : Except ScriptError EvalState :=
  if !flags.checklocktimeverify then
    if flags.discourageUpgradableNops then .error .SCRIPT_ERR_DISCOURAGE_UPGRADABLE_NOPS
    else .ok st
  else
    match st.stack with
    | x :: _ => do
      let nLockTime ← scriptNum flags.minimaldata x 5
      if nLockTime < 0 then .error .SCRIPT_ERR_NEGATIVE_LOCKTIME
      else if !checker.checkLockTime nLockTime then .error .SCRIPT_ERR_UNSATISFIED_LOCKTIME
      else return st
    | [] => .error .SCRIPT_ERR_INVALID_STACK_OPERATION

/-- `OP_CHECKSEQUENCEVERIFY`; a `NOP` where it is not enabled, and if bit 31 of its operand is
set. -/
def execCheckSequenceVerify (st : EvalState) : Except ScriptError EvalState :=
  if !flags.checksequenceverify then .ok st
  else
    match st.stack with
    | x :: _ => do
      let nSequence ← scriptNum flags.minimaldata x 5
      if nSequence < 0 then .error .SCRIPT_ERR_NEGATIVE_LOCKTIME
      else if nSequence.toNat.testBit 31 then return st
      else if !checker.checkSequence nSequence then .error .SCRIPT_ERR_UNSATISFIED_LOCKTIME
      else return st
    | [] => .error .SCRIPT_ERR_INVALID_STACK_OPERATION

/-- `OP_IF` and `OP_NOTIF`; an unexecuted conditional is not taken. -/
def execIf (fExec notif : Bool) (st : EvalState) : Except ScriptError EvalState :=
  if fExec then
    match st.stack with
    | x :: s => .ok { st with stack := s, vfExec := (castToBool x != notif) :: st.vfExec }
    | [] => .error .SCRIPT_ERR_UNBALANCED_CONDITIONAL
  else .ok { st with vfExec := false :: st.vfExec }

/-- The `switch` over the opcodes that are not pushes of bytes. -/
def execOp (fExec : Bool) (op : ScriptOp) (st : EvalState) : Except ScriptError EvalState :=
  match op.opcode with
  -- push value
  | .OP_1NEGATE | .OP_1 | .OP_2 | .OP_3 | .OP_4 | .OP_5 | .OP_6 | .OP_7 | .OP_8 | .OP_9 | .OP_10
  | .OP_11 | .OP_12 | .OP_13 | .OP_14 | .OP_15 | .OP_16 =>
    .ok (st.push (CScriptNum.serialize ((op.opcode.toByte.toNat : ℤ) - (Opcode.OP_1.toByte.toNat - 1))))
  -- control
  | .OP_NOP => .ok st
  | .OP_CHECKLOCKTIMEVERIFY => execCheckLockTimeVerify flags checker st
  | .OP_CHECKSEQUENCEVERIFY => execCheckSequenceVerify flags checker st
  | .OP_NOP1 | .OP_NOP4 | .OP_NOP5 | .OP_NOP6 | .OP_NOP7 | .OP_NOP8 | .OP_NOP9 | .OP_NOP10 =>
    if flags.discourageUpgradableNops then .error .SCRIPT_ERR_DISCOURAGE_UPGRADABLE_NOPS
    else .ok st
  | .OP_IF => execIf fExec false st
  | .OP_NOTIF => execIf fExec true st
  | .OP_ELSE =>
    match st.vfExec with
    | b :: bs => .ok { st with vfExec := (!b) :: bs }
    | [] => .error .SCRIPT_ERR_UNBALANCED_CONDITIONAL
  | .OP_ENDIF =>
    match st.vfExec with
    | _ :: bs => .ok { st with vfExec := bs }
    | [] => .error .SCRIPT_ERR_UNBALANCED_CONDITIONAL
  | .OP_VERIFY => verifyTop .SCRIPT_ERR_VERIFY st
  | .OP_RETURN => .error .SCRIPT_ERR_OP_RETURN
  -- stack
  | .OP_TOALTSTACK =>
    match st.stack with
    | x :: s => .ok { st with stack := s, altstack := x :: st.altstack }
    | [] => .error .SCRIPT_ERR_INVALID_STACK_OPERATION
  | .OP_FROMALTSTACK =>
    match st.altstack with
    | x :: s => .ok { st with stack := x :: st.stack, altstack := s }
    | [] => .error .SCRIPT_ERR_INVALID_ALTSTACK_OPERATION
  | .OP_2DROP => st.onStack fun | _ :: _ :: s => some s | _ => none
  | .OP_2DUP => st.onStack fun | x₂ :: x₁ :: s => some (x₂ :: x₁ :: x₂ :: x₁ :: s) | _ => none
  | .OP_3DUP => st.onStack fun
    | x₃ :: x₂ :: x₁ :: s => some (x₃ :: x₂ :: x₁ :: x₃ :: x₂ :: x₁ :: s)
    | _ => none
  | .OP_2OVER => st.onStack fun
    | x₄ :: x₃ :: x₂ :: x₁ :: s => some (x₂ :: x₁ :: x₄ :: x₃ :: x₂ :: x₁ :: s)
    | _ => none
  | .OP_2ROT => st.onStack fun
    | x₆ :: x₅ :: x₄ :: x₃ :: x₂ :: x₁ :: s => some (x₂ :: x₁ :: x₆ :: x₅ :: x₄ :: x₃ :: s)
    | _ => none
  | .OP_2SWAP => st.onStack fun
    | x₄ :: x₃ :: x₂ :: x₁ :: s => some (x₂ :: x₁ :: x₄ :: x₃ :: s)
    | _ => none
  | .OP_IFDUP => st.onStack fun
    | x :: s => some (if castToBool x then x :: x :: s else x :: s)
    | _ => none
  | .OP_DEPTH => .ok (st.push (CScriptNum.serialize st.stack.length))
  | .OP_DROP => st.onStack fun | _ :: s => some s | _ => none
  | .OP_DUP => st.onStack fun | x :: s => some (x :: x :: s) | _ => none
  | .OP_NIP => st.onStack fun | x₂ :: _ :: s => some (x₂ :: s) | _ => none
  | .OP_OVER => st.onStack fun | x₂ :: x₁ :: s => some (x₁ :: x₂ :: x₁ :: s) | _ => none
  | .OP_PICK => execPick flags false st
  | .OP_ROLL => execPick flags true st
  | .OP_ROT => st.onStack fun | x₃ :: x₂ :: x₁ :: s => some (x₁ :: x₃ :: x₂ :: s) | _ => none
  | .OP_SWAP => st.onStack fun | x₂ :: x₁ :: s => some (x₁ :: x₂ :: s) | _ => none
  | .OP_TUCK => st.onStack fun | x₂ :: x₁ :: s => some (x₂ :: x₁ :: x₂ :: s) | _ => none
  | .OP_SIZE => st.onStack fun
    | x :: s => some (CScriptNum.serialize x.length :: x :: s)
    | _ => none
  -- bitwise logic
  | .OP_EQUAL => st.onStack fun | x₂ :: x₁ :: s => some (vchBool (x₁ == x₂) :: s) | _ => none
  | .OP_EQUALVERIFY =>
    match st.stack with
    | x₂ :: x₁ :: s =>
      if x₁ = x₂ then .ok { st with stack := s } else .error .SCRIPT_ERR_EQUALVERIFY
    | _ => .error .SCRIPT_ERR_INVALID_STACK_OPERATION
  -- numeric
  | .OP_1ADD => unaryNum flags st (· + 1)
  | .OP_1SUB => unaryNum flags st (· - 1)
  | .OP_NEGATE => unaryNum flags st (-·)
  | .OP_ABS => unaryNum flags st fun n ↦ if n < 0 then -n else n
  | .OP_NOT => unaryNum flags st fun n ↦ boolNum (n == 0)
  | .OP_0NOTEQUAL => unaryNum flags st fun n ↦ boolNum (n != 0)
  | .OP_ADD => binaryNum flags st (· + ·)
  | .OP_SUB => binaryNum flags st (· - ·)
  | .OP_BOOLAND => binaryNum flags st fun a b ↦ boolNum (a != 0 && b != 0)
  | .OP_BOOLOR => binaryNum flags st fun a b ↦ boolNum (a != 0 || b != 0)
  | .OP_NUMEQUAL => binaryNum flags st fun a b ↦ boolNum (a == b)
  | .OP_NUMEQUALVERIFY => do
    verifyTop .SCRIPT_ERR_NUMEQUALVERIFY (← binaryNum flags st fun a b ↦ boolNum (a == b))
  | .OP_NUMNOTEQUAL => binaryNum flags st fun a b ↦ boolNum (a != b)
  | .OP_LESSTHAN => binaryNum flags st fun a b ↦ boolNum (a < b)
  | .OP_GREATERTHAN => binaryNum flags st fun a b ↦ boolNum (b < a)
  | .OP_LESSTHANOREQUAL => binaryNum flags st fun a b ↦ boolNum (a ≤ b)
  | .OP_GREATERTHANOREQUAL => binaryNum flags st fun a b ↦ boolNum (b ≤ a)
  | .OP_MIN => binaryNum flags st fun a b ↦ if a < b then a else b
  | .OP_MAX => binaryNum flags st fun a b ↦ if b < a then a else b
  | .OP_WITHIN =>
    match st.stack with
    | x₃ :: x₂ :: x₁ :: s => do
      let n₁ ← scriptNum flags.minimaldata x₁ CScriptNum.defaultMaxNumSize
      let n₂ ← scriptNum flags.minimaldata x₂ CScriptNum.defaultMaxNumSize
      let n₃ ← scriptNum flags.minimaldata x₃ CScriptNum.defaultMaxNumSize
      return { st with stack := vchBool (n₂ ≤ n₁ && n₁ < n₃) :: s }
    | _ => .error .SCRIPT_ERR_INVALID_STACK_OPERATION
  -- crypto
  | .OP_RIPEMD160 => hashTop st fun x ↦ (C.ripemd160 x).toBytes
  | .OP_SHA1 => hashTop st fun x ↦ (C.sha1 x).toBytes
  | .OP_SHA256 => hashTop st fun x ↦ (C.sha256 x).toBytes
  | .OP_HASH160 => hashTop st fun x ↦ (C.hash160 x).toBytes
  | .OP_HASH256 => hashTop st fun x ↦ (C.hash x).toBytes
  | .OP_CODESEPARATOR => .ok { st with codehash := op.rest }
  | .OP_CHECKSIG => execCheckSig C flags checker sigversion st
  | .OP_CHECKSIGVERIFY => do
    verifyTop .SCRIPT_ERR_CHECKSIGVERIFY (← execCheckSig C flags checker sigversion st)
  | .OP_CHECKSIGADD => execCheckSigAdd flags checker sigversion st
  | .OP_CHECKMULTISIG => execCheckMultisig C flags checker sigversion st
  | .OP_CHECKMULTISIGVERIFY => do
    verifyTop .SCRIPT_ERR_CHECKMULTISIGVERIFY (← execCheckMultisig C flags checker sigversion st)
  | _ => .error .SCRIPT_ERR_BAD_OPCODE

/-- What a turn of the loop does with an instruction that passed the limits. -/
def execInstruction (op : ScriptOp) (st : EvalState) : Except ScriptError EvalState :=
  let fExec := !st.vfExec.contains false
  if fExec && op.opcode ≤ .OP_PUSHDATA4 then
    if flags.minimaldata && !checkMinimalPush op.vch op.opcode then .error .SCRIPT_ERR_MINIMALDATA
    else .ok (st.push op.vch)
  else if fExec || (.OP_IF ≤ op.opcode && op.opcode ≤ .OP_ENDIF) then
    execOp C flags checker sigversion fExec op st
  else .ok st

/-- The instruction counts towards the opcode limit if it is above `OP_16`. -/
def countOp (op : ScriptOp) (st : EvalState) : EvalState :=
  if .OP_16 < op.opcode then { st with nOpCount := st.nOpCount + 1 } else st

def evalStep (st : EvalState) (op : ScriptOp) : Except ScriptError EvalState :=
  if maxScriptElementSize < op.vch.length then .error .SCRIPT_ERR_PUSH_SIZE
  else if .OP_16 < op.opcode ∧ maxOpsPerScript < (countOp op st).nOpCount then
    .error .SCRIPT_ERR_OP_COUNT
  else if isDisabled op.opcode then .error .SCRIPT_ERR_DISABLED_OPCODE
  else do
    let st ← execInstruction C flags checker sigversion op (countOp op st)
    if 1000 < st.stack.length + st.altstack.length then .error .SCRIPT_ERR_STACK_SIZE
    else return st

/-- `EvalScript`: the stack that is left. -/
def evalScript (stack : List Bytes) (script : CScript) : Except ScriptError (List Bytes) :=
  if CScript.maxScriptSize < script.length then .error .SCRIPT_ERR_SCRIPT_SIZE
  else do
    let st ← (CScript.ops script).foldlM (evalStep C flags checker sigversion)
      { stack := stack, codehash := script }
    if !CScript.wellFormed script then .error .SCRIPT_ERR_BAD_OPCODE
    else if !st.vfExec.isEmpty then .error .SCRIPT_ERR_UNBALANCED_CONDITIONAL
    else return st.stack

end Exec

end KristaTech
