import KristaTech.Primitives.UniValue
import KristaTech.Script.Script

/-!
# MESCAL contracts

`CMescal::Compile` and `CMescal::Decompile` of `script/mescal.cpp`. A contract is a JSON value: a list
of actions, each a basic block or a condition, by name or in place. `compile` turns it into a script;
`decompile` finds the blocks in a script again, by trying patterns in a fixed order, and puts them on
a stack from which an `OP_IF` takes its expressions.

The decompiler builds its blocks as an `Action`, and `Action.toJson` is the JSON value it returns for
it. Neither of the two functions calls itself deeper than a fixed bound, which is the argument that
their recursion is on: the levels that are left.
-/

namespace KristaTech

/-- `push_int64`. -/
def CScript.pushInt64 (s : CScript) (n : ℤ) : CScript :=
  if n = -1 ∨ 1 ≤ n ∧ n ≤ 16 then s ++ [UInt8.ofNat (n + (Opcode.OP_1.toByte.toNat - 1)).toNat]
  else if n = 0 then s.pushOp .OP_0
  else s.pushData (CScriptNum.serialize n)

namespace Mescal

/-- How a compilation fails: with a message, or by an exception, which `Compile` catches. -/
inductive CompileError
  | reported (errorStr : String)
  | thrown (what : String)
  deriving DecidableEq, Repr

def orThrow {α : Type} (x : Except String α) : Except CompileError α := x.mapError .thrown

/-- `IsPubKey`. -/
def isPubKey (vch : Bytes) : Bool :=
  (vch.length == 33 && (vch.head? == some 0x02 || vch.head? == some 0x03)) ||
    (vch.length == 65 && vch.head? == some 0x04)

/-! ### Basic blocks -/

def opcodes (ops : List Opcode) : CScript := ops.map Opcode.toByte

def push (vch : Bytes) : CScript := CScript.pushData [] vch

/-- A number on its own, by the opcode for it if there is one. -/
def pushInt (n : ℤ) : CScript := CScript.pushInt64 [] n

/-- `CScriptNum` on its own, never by the opcode. -/
def pushScriptNum (n : ℤ) : CScript := push (CScriptNum.serialize n)

/-- The end of a registration: the lock time and the key that may spend afterwards. -/
def lockedKeyScript (lockTime : ℤ) (pubkeyHash : Bytes) : CScript :=
  pushScriptNum lockTime ++ opcodes [.OP_CHECKLOCKTIMEVERIFY, .OP_DROP, .OP_DUP, .OP_HASH160] ++
    push pubkeyHash ++ opcodes [.OP_EQUALVERIFY, .OP_CHECKSIG]

section Roles

variable (block : UniValue) (inputs : List UniValue)

/-- `hash160`: the value is hashed, or, for a hash of the right size that is marked as one, what is on
the stack is hashed and compared. -/
def compileHash160 : Except CompileError CScript :=
  match inputs with
  | [] => .error (.reported "hash160 requires at least 1 input")
  | input :: _ => do
    let valStr ← orThrow (input.get "value").getStr
    let isHtlcEqual := (block.get "mode").isStrOf "htlc-equal" ||
      (input.get "name").isStrOf "hash160" || (input.get "type").isStrOf "hash160"
    if isHtlcEqual && isHex valStr && valStr.toList.length == 40 then
      return opcodes [.OP_HASH160] ++ push (parseHex valStr) ++ opcodes [.OP_EQUAL]
    else
      let vch := if isHex valStr then parseHex valStr else valStr.toUTF8.toList
      return push vch ++ opcodes [.OP_HASH160]

/-- `check-signature-verification`. -/
def compileCheckSignature : Except CompileError CScript :=
  match inputs with
  | [] => .error (.reported "check-signature-verification requires at least 1 input")
  | input :: _ => do
    let pubkeyHex ← orThrow (input.get "value").getStr
    let useVerify := match block.get "verify" with
      | .VBOOL verify => verify
      | _ => true
    return push (parseHex pubkeyHex) ++ opcodes [if useVerify then .OP_CHECKSIGVERIFY else .OP_CHECKSIG]

/-- `equalverify-checksig`. -/
def compileEqualverifyChecksig : Except CompileError CScript :=
  match inputs with
  | [] => .error (.reported "equalverify-checksig requires at least 1 input")
  | input :: _ => do
    let pubkeyHashHex ← orThrow (input.get "value").getStr
    return opcodes [.OP_DUP, .OP_HASH160] ++ push (parseHex pubkeyHashHex) ++
      opcodes [.OP_EQUALVERIFY, .OP_CHECKSIG]

/-- `number`. -/
def compileNumber : Except CompileError CScript :=
  match inputs with
  | [] => .error (.reported "number requires at least 1 input")
  | input :: _ => do return pushInt (← orThrow (input.get "value").getInt64)

/-- The numbers and the keys of a `multi-signature`; each input has a name. -/
def readMultiSignature : ℤ × ℤ × UniValue → UniValue → Except CompileError (ℤ × ℤ × UniValue)
  | (m, n, sigs), input => do
    match ← orThrow (input.get "name").getStr with
    | "m" => return (← orThrow (input.get "value").getInt, n, sigs)
    | "n" => return (m, ← orThrow (input.get "value").getInt, sigs)
    | "Signatures" => return (m, n, input.get "value")
    | _ => return (m, n, sigs)

/-- `multi-signature`. -/
def compileMultiSignature : Except CompileError CScript := do
  let (m, n, sigs) ← inputs.foldlM readMultiSignature (0, 0, .VNULL)
  if m ≤ 0 ∨ n ≤ 0 ∨ sigs.values.isEmpty then
    .error (.reported "multi-signature requires valid m, n, and Signatures array")
  else
    let keys ← sigs.values.mapM fun sig ↦ orThrow sig.getStr
    return pushInt m ++ keys.flatMap (fun key ↦ push (parseHex key)) ++ pushInt n ++
      opcodes [.OP_CHECKMULTISIG]

/-- `lock-time`. -/
def compileLockTime : Except CompileError CScript :=
  match inputs with
  | [] => .error (.reported "lock-time requires lock-time value")
  | input :: _ => do
    let lockTime ← orThrow (input.get "value").getInt64
    return pushScriptNum lockTime ++ opcodes [.OP_CHECKLOCKTIMEVERIFY, .OP_DROP]

/-- `coin-lock-miner`. -/
def compileCoinLockMiner : Except CompileError CScript :=
  match inputs with
  | pubkey :: lockTime :: pubkeyHash :: _ => do
    let pubkeyHex ← orThrow (pubkey.get "value").getStr
    let lockTime ← orThrow (lockTime.get "value").getInt64
    let pubkeyHashHex ← orThrow (pubkeyHash.get "value").getStr
    return push (parseHex pubkeyHex) ++ opcodes [.OP_DROP] ++
      lockedKeyScript lockTime (parseHex pubkeyHashHex)
  | _ => .error (.reported "coin-lock-miner requires pubkey, lock-time, and pubkeyhash")

/-- `pow-miner`. -/
def compilePowMiner : Except CompileError CScript :=
  match inputs with
  | nonce :: challenge :: pubkey :: lockTime :: pubkeyHash :: _ => do
    let nonceHex ← orThrow (nonce.get "value").getStr
    let challengeHex ← orThrow (challenge.get "value").getStr
    let pubkeyHex ← orThrow (pubkey.get "value").getStr
    let lockTime ← orThrow (lockTime.get "value").getInt64
    let pubkeyHashHex ← orThrow (pubkeyHash.get "value").getStr
    return push (parseHex nonceHex) ++ push (parseHex challengeHex) ++ push (parseHex pubkeyHex) ++
      opcodes [.OP_DROP, .OP_DROP, .OP_DROP] ++ lockedKeyScript lockTime (parseHex pubkeyHashHex)
  | _ =>
    .error (.reported "pow-miner requires nonce, challenge, pubkey, lock-time, and pubkeyhash")

end Roles

/-- `CompileBasicBlock`. -/
def compileBasicBlock (block : UniValue) : Except CompileError CScript := do
  let role ← orThrow (block.get "role").getStr
  let inputs := (block.get "inputs").values
  match role with
  | "hash160" => compileHash160 block inputs
  | "check-signature-verification" => compileCheckSignature block inputs
  | "equalverify-checksig" => compileEqualverifyChecksig inputs
  | "number" => compileNumber inputs
  | "multi-signature" => compileMultiSignature inputs
  | "lock-time" => compileLockTime inputs
  | "add" => return opcodes [.OP_ADD]
  | "sub" => return opcodes [.OP_SUB]
  | "bool-and" => return opcodes [.OP_BOOLAND]
  | "bool-or" => return opcodes [.OP_BOOLOR]
  | "num-equal" => return opcodes [.OP_NUMEQUAL]
  | "greater-than" => return opcodes [.OP_GREATERTHAN]
  | "drop" => return opcodes [.OP_DROP]
  | "coin-lock-miner" => compileCoinLockMiner inputs
  | "pow-miner" => compilePowMiner inputs
  | role => .error (.reported ("Unknown basic block role: " ++ role))

/-! ### Actions and conditions -/

/-- The blocks and conditions that have names. -/
structure SymbolTables where
  basicBlocks : String → Option UniValue
  conditions : String → Option UniValue

/-- The expressions of a condition, joined by `OP_BOOLAND`: one after each expression but the first. -/
def joinExpressions : List CScript → CScript
  | [] => []
  | script :: scripts => script ++ scripts.flatMap (· ++ opcodes [.OP_BOOLAND])

/-- A condition from the scripts of its parts. A missing false branch has no `OP_ELSE`. -/
def conditionScript (exprs trueBranch falseBranch : List CScript) : CScript :=
  joinExpressions exprs ++ opcodes [.OP_IF] ++ trueBranch.flatten ++
    (if falseBranch.isEmpty then [] else opcodes [.OP_ELSE] ++ falseBranch.flatten) ++
    opcodes [.OP_ENDIF]

mutual

/-- `CompileCondition`, with the levels that are left before the depth is exceeded. -/
def compileCondition (T : SymbolTables) : ℕ → UniValue → Except CompileError CScript
  | 0, _ => .error (.reported "Maximum MESCAL recursion depth exceeded")
  | levels + 1, condObj => do
    let exprs ← (condObj.get "expressions").values.mapM (compileAction T levels)
    let trueBranch ← (condObj.get "true").values.mapM (compileAction T levels)
    let falseBranch ← (condObj.get "false").values.mapM (compileAction T levels)
    return conditionScript exprs trueBranch falseBranch

/-- `CompileAction`. -/
def compileAction (T : SymbolTables) : ℕ → UniValue → Except CompileError CScript
  | 0, _ => .error (.reported "Maximum MESCAL recursion depth exceeded")
  | levels + 1, action => do
    let type ← orThrow (action.get "type").getStr
    let name ← orThrow (action.get "name").getStr
    match type with
    | "basic" =>
      match T.basicBlocks name with
      | some block => compileBasicBlock block
      | none =>
        -- an inline definition
        if (action.findKey "role").isSome then compileBasicBlock action
        else .error (.reported ("Basic block definition not found: " ++ name))
    | "condition" =>
      match T.conditions name with
      | some condObj => compileCondition T levels condObj
      | none =>
        if (action.findKey "role").isSome then do
          if (← orThrow (action.get "role").getStr) = "if-condition" then
            compileCondition T levels action
          else .error (.reported ("Condition block definition not found: " ++ name))
        else .error (.reported ("Condition block definition not found: " ++ name))
    | type => .error (.reported ("Unknown action type: " ++ type))

end

/-- `MAX_MESCAL_CONDITION_DEPTH`, which is also the bound of the compiler. -/
def maxMescalConditionDepth : ℕ := 32

def symbolTable (root : UniValue) (key name : String) : Option UniValue :=
  if (root.get key).isObject then (root.get key).findKey name else none

/-- The least key of the contracts, which is the first one of a `std::map`. -/
def firstContract (root : UniValue) : Option String :=
  match root.get "contract" with
  | .VOBJ entries => (entries.map Prod.fst).foldl (fun least key ↦
      some (least.elim key fun least ↦ if key < least then key else least)) none
  | _ => none

/-- The contract to compile: the source itself, the one that is named, or the first one. -/
def targetContract (root : UniValue) : Option UniValue :=
  if (root.get "type").isStrOf "contract" then some root
  else
    let active := match root.get "active_contract" with
      | .VSTR active => active
      | _ => (firstContract root).getD ""
    if active = "" then none else symbolTable root "contract" active

/-- The body of `Compile`. -/
def compileRoot (root : UniValue) : Except CompileError CScript :=
  match targetContract root with
  | none => .error (.reported "No active contract specified or found")
  | some contract =>
    match contract.get "actions" with
    | .VARR actions => do
      let scripts ← actions.mapM (compileAction
        ⟨symbolTable root "basic", symbolTable root "condition"⟩ (maxMescalConditionDepth + 1))
      return scripts.flatten
    | _ => .error (.reported "Contract actions must be an array")

/-- `CMescal::Compile` of a source that is JSON. -/
def compile (root : UniValue) : Except String CScript :=
  (compileRoot root).mapError fun
    | .reported errorStr => errorStr
    | .thrown what => "MESCAL compilation error: " ++ what

end Mescal

end KristaTech
