import KristaTech.Mescal.Compile
import KristaTech.Script.Numbers

/-!
# The MESCAL decompiler

`CMescal::Decompile` of `script/mescal.cpp`. A turn of its loop finds a block at the front of the
script, by trying patterns in a fixed order (`nextTurn`), and puts it on a stack. An `OP_IF` takes its
expressions from the stack (`popExpressions`), and its two branches, which are found by counting the
conditionals (`splitBranches`), are decompiled one level down.

The blocks are kept as an `Action`; `Action.toJson` is the JSON value that is returned for one.
-/

namespace KristaTech.Mescal

/-! ### Blocks -/

/-- The blocks of one opcode. -/
inductive Operation
  | add | sub | boolAnd | boolOr | numEqual | drop | greaterThan
  deriving DecidableEq, Repr

namespace Operation

def opcode : Operation → Opcode
  | add => .OP_ADD
  | sub => .OP_SUB
  | boolAnd => .OP_BOOLAND
  | boolOr => .OP_BOOLOR
  | numEqual => .OP_NUMEQUAL
  | drop => .OP_DROP
  | greaterThan => .OP_GREATERTHAN

def role : Operation → String
  | add => "add"
  | sub => "sub"
  | boolAnd => "bool-and"
  | boolOr => "bool-or"
  | numEqual => "num-equal"
  | drop => "drop"
  | greaterThan => "greater-than"

def all : List Operation := [add, sub, boolAnd, boolOr, numEqual, drop, greaterThan]

end Operation

/-- A `CScriptNum` that was read: at most four bytes. -/
abbrev ShortNum := { n : ℤ // n.natAbs < 2 ^ 31 }

/-- The keys of a multi-signature and how many of them have to sign. -/
structure MultiSignature where
  m : ℤ
  keys : List Bytes
  pos : 0 < m
  le_max : m ≤ 20
  keys_ne_nil : keys ≠ []
  length_lt : keys.length < 2 ^ 31

/-- The blocks that the decompiler finds. -/
inductive BasicBlock
  | coinLockMiner (pubkey : Bytes) (lockTimeVal : ShortNum) (pubkeyHash : Bytes)
  | powMiner (nonce challenge pubkey : Bytes) (lockTimeVal : ShortNum) (pubkeyHash : Bytes)
  | multiSignature (keys : MultiSignature)
  | lockTime (val : ShortNum)
  | equalverifyChecksig (pubkeyHash : Bytes)
  | checkSignature (verify : Bool) (pubkey : Bytes)
  | hash160Equal (hash : { vch : Bytes // vch.length = 20 })
  | hash160 (value : Bytes)
  | number (n : ShortNum)
  | operation (op : Operation)

/-- What the decompiled contract consists of. The expression of an `OP_IF` without one is `alwaysTrue`;
a condition without a false branch has the empty one. -/
inductive Action
  | basic (name : String) (block : BasicBlock)
  | alwaysTrue
  | condition (name : String) (expressions trueBranch falseBranch : List Action)

/-! ### The JSON values -/

namespace BasicBlock

def stem : BasicBlock → String
  | coinLockMiner .. => "coin-lock-miner-"
  | powMiner .. => "pow-miner-"
  | multiSignature _ => "multi-sig-"
  | lockTime _ => "lock-time-"
  | equalverifyChecksig _ => "equalverify-checksig-"
  | checkSignature verify _ => if verify then "check-sig-verify-" else "check-sig-"
  | hash160Equal _ => "hash160-"
  | hash160 _ => "hash160-"
  | number _ => "number-"
  | operation op => op.role ++ "-"

def input (type name : String) (value : UniValue) : UniValue :=
  .VOBJ [("type", .VSTR type), ("name", .VSTR name), ("value", value)]

def bytesInput (type name : String) (vch : Bytes) : UniValue := input type name (.VSTR (hexStr vch))

def lockTimeInput (val : ShortNum) : UniValue :=
  input "timestamp-or-block-height" "Lock-Until" (.VNUM (some val))

/-- An input of a multi-signature, whose entries have another order. -/
def namedInput (name type : String) (value : UniValue) : UniValue :=
  .VOBJ [("name", .VSTR name), ("type", .VSTR type), ("value", value)]

def entries : BasicBlock → List (String × UniValue)
  | coinLockMiner pubkey lockTimeVal pubkeyHash =>
    [("role", .VSTR "coin-lock-miner"),
      ("inputs", .VARR [bytesInput "pubkey" "Pubkey" pubkey, lockTimeInput lockTimeVal,
        bytesInput "pubkeyhash" "PubkeyHash" pubkeyHash])]
  | powMiner nonce challenge pubkey lockTimeVal pubkeyHash =>
    [("role", .VSTR "pow-miner"), ("inputs", .VARR [bytesInput "nonce" "Nonce" nonce,
        bytesInput "challenge" "Challenge" challenge, bytesInput "pubkey" "Pubkey" pubkey,
        lockTimeInput lockTimeVal, bytesInput "pubkeyhash" "PubkeyHash" pubkeyHash])]
  | multiSignature keys =>
    [("role", .VSTR "multi-signature"), ("inputs", .VARR [namedInput "m" "number" (.VNUM (some keys.m)),
        namedInput "n" "number" (.VNUM (some keys.keys.length)),
        namedInput "Signatures" "array" (.VARR (keys.keys.map (.VSTR ∘ hexStr)))])]
  | lockTime val =>
    [("role", .VSTR "lock-time"), ("inputs", .VARR [lockTimeInput val])]
  | equalverifyChecksig pubkeyHash =>
    [("role", .VSTR "equalverify-checksig"),
      ("inputs", .VARR [bytesInput "pubkeyhash" "PubkeyHash" pubkeyHash])]
  | checkSignature verify pubkey =>
    [("role", .VSTR "check-signature-verification"), ("verify", .VBOOL verify),
      ("inputs", .VARR [bytesInput "pubkey" "Pubkey" pubkey])]
  | hash160Equal hash =>
    [("role", .VSTR "hash160"), ("mode", .VSTR "htlc-equal"),
      ("inputs", .VARR [bytesInput "hash160" "hash160" hash])]
  | hash160 value =>
    [("role", .VSTR "hash160"),
      ("inputs", .VARR [bytesInput "string-or-number" "String-or-Number-to-Hash" value])]
  | number n =>
    [("role", .VSTR "number"), ("inputs", .VARR [input "number" "Number" (.VNUM (some n))])]
  | operation op => [("role", .VSTR op.role)]

/-- The role of the block is `bool-and`. -/
def isBoolAnd : BasicBlock → Bool
  | operation .boolAnd => true
  | _ => false

def toJson (name : String) (block : BasicBlock) : UniValue :=
  .VOBJ (("type", .VSTR "basic") :: ("name", .VSTR name) :: block.entries)

end BasicBlock

namespace Action

def toJson : Action → UniValue
  | basic name block => block.toJson name
  | alwaysTrue => .VOBJ [("type", .VSTR "basic"), ("name", .VSTR "true"), ("role", .VSTR "number"),
      ("inputs", .VARR [.VOBJ [("value", .VNUM (some 1))]])]
  | condition name expressions trueBranch falseBranch =>
    .VOBJ ([("type", .VSTR "condition"), ("name", .VSTR name), ("role", .VSTR "if-condition"),
      ("expressions", .VARR (toJsonList expressions)), ("true", .VARR (toJsonList trueBranch))] ++
      if falseBranch.isEmpty then [] else [("false", .VARR (toJsonList falseBranch))])
where
  /-- The values of a list. -/
  toJsonList : List Action → List UniValue
    | [] => []
    | action :: actions => toJson action :: toJsonList actions

/-- The role of the action is `bool-and`. -/
def isBoolAnd : Action → Bool
  | basic _ block => block.isBoolAnd
  | _ => false

end Action

def contractJson (actions : List Action) : UniValue :=
  .VOBJ [("type", .VSTR "contract"), ("name", .VSTR "Decompiled-Contract"),
    ("actions", .VARR (Action.toJson.toJsonList actions))]

/-! ### Numbers -/

/-- `CScriptNum(vch, true)` with the text of its exception. -/
def readNum (vch : Bytes) : Except String ShortNum :=
  if h : vch.length ≤ CScriptNum.defaultMaxNumSize then
    if CScriptNum.isMinimal vch then .ok ⟨CScriptNum.setVch vch, CScriptNum.natAbs_setVch_lt h⟩
    else .error "non-minimally encoded script number"
  else .error "script number overflow"

/-- `DecodeOP_N`, and the same for `OP_1NEGATE`. -/
def decodeOpN (opcode : Opcode) : ShortNum :=
  ⟨(opcode.toByte.toNat : ℤ) - (Opcode.OP_1.toByte.toNat - 1), by
    have hlt := opcode.toByte.toNat_lt
    have hone : (Opcode.OP_1.toByte.toNat : ℤ) = 81 := rfl
    omega⟩

/-- `DecodeScriptInt`. -/
def decodeScriptInt (op : ScriptOp) : Option ShortNum :=
  if op.opcode = .OP_0 then some ⟨0, by decide⟩
  else if .OP_1 ≤ op.opcode ∧ op.opcode ≤ .OP_16 then some (decodeOpN op.opcode)
  else if op.opcode ≤ .OP_PUSHDATA4 ∧ op.vch ≠ [] ∧ op.vch.length ≤ 4 then (readNum op.vch).toOption
  else none

/-! ### Patterns -/

/-- What a turn of the loop finds at the front of the script. -/
inductive Turn
  | block (block : BasicBlock) (rest : CScript)
  | condition (rest : CScript)

/-- `MatchPattern`: `OP_PUSHDATA4` stands for any push, whose data is collected. -/
def matchPattern : List Opcode → CScript → Option (List Bytes × CScript)
  | [], s => some ([], s)
  | expected :: pattern, s => do
    let op ← s.getOp
    if expected = .OP_PUSHDATA4 then do
      guard (op.opcode ≤ .OP_PUSHDATA4)
      let (pushes, rest) ← matchPattern pattern op.rest
      return (op.vch :: pushes, rest)
    else do
      guard (op.opcode = expected)
      matchPattern pattern op.rest

/-- A lock time; its exception is caught by `Decompile`. -/
def readLockTime (vch : Bytes) : Except String ShortNum :=
  (readNum vch).mapError ("MESCAL decompilation error: " ++ ·)

/-- The pattern of `lockedKeyScript`. -/
def lockedKeyPattern : List Opcode :=
  [.OP_PUSHDATA4, .OP_CHECKLOCKTIMEVERIFY, .OP_DROP, .OP_DUP, .OP_HASH160, .OP_PUSHDATA4,
    .OP_EQUALVERIFY, .OP_CHECKSIG]

def coinLockMinerAt (s : CScript) : Option (Except String Turn) :=
  match matchPattern ([.OP_PUSHDATA4, .OP_DROP] ++ lockedKeyPattern) s with
  | some ([pubkey, lockTimeVal, pubkeyHash], rest) =>
    if isPubKey pubkey then
      some ((readLockTime lockTimeVal).map fun n ↦ .block (.coinLockMiner pubkey n pubkeyHash) rest)
    else none
  | _ => none

def powMinerAt (s : CScript) : Option (Except String Turn) :=
  match matchPattern ([.OP_PUSHDATA4, .OP_PUSHDATA4, .OP_PUSHDATA4, .OP_DROP, .OP_DROP, .OP_DROP] ++
    lockedKeyPattern) s with
  | some ([nonce, challenge, pubkey, lockTimeVal, pubkeyHash], rest) =>
    if isPubKey pubkey then
      some ((readLockTime lockTimeVal).map fun n ↦
        .block (.powMiner nonce challenge pubkey n pubkeyHash) rest)
    else none
  | _ => none

def isKeyPush (op : ScriptOp) : Bool := op.opcode ≤ .OP_PUSHDATA4 && isPubKey op.vch

def multiSignatureAt (s : CScript) : Option (Except String Turn) := do
  let opM ← s.getOp
  let m ← decodeScriptInt opM
  let keys := (opM.rest.ops.takeWhile isKeyPush).map (·.vch)
  let opN ← (opM.rest.ops.dropWhile isKeyPush).head?
  let n ← decodeScriptInt opN
  let opCheck ← opN.rest.getOp
  if h : (0 < m.1 ∧ m.1 ≤ 20) ∧ keys ≠ [] ∧ n.1 = keys.length ∧ m.1 ≤ n.1 ∧
      opCheck.opcode = .OP_CHECKMULTISIG then
    some (.ok (.block (.multiSignature ⟨m, keys, h.1.1, h.1.2, h.2.1, by
      have hn := n.2
      have hlength := h.2.2.1
      omega⟩) opCheck.rest))
  else none

def lockTimeAt (s : CScript) : Option (Except String Turn) :=
  match matchPattern [.OP_PUSHDATA4, .OP_CHECKLOCKTIMEVERIFY, .OP_DROP] s with
  | some ([val], rest) => some ((readLockTime val).map fun n ↦ .block (.lockTime n) rest)
  | _ => none

def equalverifyChecksigAt (s : CScript) : Option (Except String Turn) :=
  match matchPattern [.OP_DUP, .OP_HASH160, .OP_PUSHDATA4, .OP_EQUALVERIFY, .OP_CHECKSIG] s with
  | some ([pubkeyHash], rest) => some (.ok (.block (.equalverifyChecksig pubkeyHash) rest))
  | _ => none

def checkSignatureAt (verify : Bool) (s : CScript) : Option (Except String Turn) :=
  match matchPattern [.OP_PUSHDATA4, if verify then .OP_CHECKSIGVERIFY else .OP_CHECKSIG] s with
  | some ([pubkey], rest) =>
    if isPubKey pubkey then some (.ok (.block (.checkSignature verify pubkey) rest)) else none
  | _ => none

def hash160EqualAt (s : CScript) : Option (Except String Turn) :=
  match matchPattern [.OP_HASH160, .OP_PUSHDATA4, .OP_EQUAL] s with
  | some ([hash], rest) =>
    if h : hash.length = 20 then some (.ok (.block (.hash160Equal ⟨hash, h⟩) rest)) else none
  | _ => none

def hash160At (s : CScript) : Option (Except String Turn) :=
  match matchPattern [.OP_PUSHDATA4, .OP_HASH160] s with
  | some ([value], rest) => some (.ok (.block (.hash160 value) rest))
  | _ => none

def genericTurn (s : CScript) : Except String Turn :=
  match s.getOp with
  | none => .error "Malformed script"
  | some op =>
    if op.opcode ≤ .OP_PUSHDATA4 then
      match readNum op.vch with
      | .ok n => .ok (.block (.number n) op.rest)
      | .error _ => .error "Invalid number push in MESCAL contract"
    else if op.opcode = .OP_1NEGATE ∨ (.OP_1 ≤ op.opcode ∧ op.opcode ≤ .OP_16) then
      .ok (.block (.number (decodeOpN op.opcode)) op.rest)
    else
      match Operation.all.find? (·.opcode = op.opcode) with
      | some operation => .ok (.block (.operation operation) op.rest)
      | none =>
        if op.opcode = .OP_IF then .ok (.condition op.rest)
        else .error "Unsupported opcode in MESCAL contract"

def nextTurn (s : CScript) : Except String Turn :=
  ([coinLockMinerAt, powMinerAt, multiSignatureAt, lockTimeAt, equalverifyChecksigAt,
    checkSignatureAt true, checkSignatureAt false, hash160EqualAt, hash160At].findSome? (· s)).getD
      (genericTurn s)

/-! ### Conditions -/

/-- The expressions that an `OP_IF` takes from the stack: the last block, and while that is a
`bool-and` with two blocks or more below it, the one or two blocks before it in its place. -/
def popExpressions {α : Type} (isBoolAnd : α → Bool) : List α → List α → List α × List α
  | last :: exprs, y :: z :: stack =>
    if isBoolAnd last then
      if isBoolAnd z then popExpressions isBoolAnd (y :: exprs) (z :: stack)
      else popExpressions isBoolAnd (z :: y :: exprs) stack
    else (last :: exprs, y :: z :: stack)
  | exprs, stack => (exprs, stack)

/-- The branches of a conditional and what comes after it. -/
structure Branches where
  trueScript : CScript := []
  falseScript : CScript := []
  inFalse : Bool := false
  rest : CScript := []

/-- The raw bytes of an instruction are added to the branch that is being read. -/
def Branches.add (b : Branches) (raw : CScript) : Branches :=
  if b.inFalse then { b with falseScript := b.falseScript ++ raw }
  else { b with trueScript := b.trueScript ++ raw }

def rawBefore (s rest : CScript) : CScript := s.take (s.length - rest.length)

def splitBranches (levels : ℕ) : ℕ → ℕ → Branches → CScript → Except String Branches
  | 0, _, _, _ => .error "Unclosed OP_IF in MESCAL contract"
  | fuel + 1, ifDepth, b, s =>
    match s.getOp with
    | none => .error "Unclosed OP_IF in MESCAL contract"
    | some op =>
      let added := b.add (rawBefore s op.rest)
      if op.opcode = .OP_IF then
        if levels < ifDepth + 1 then .error "Maximum condition nesting depth exceeded (max 32)"
        else splitBranches levels fuel (ifDepth + 1) added op.rest
      else if op.opcode = .OP_ENDIF then
        if ifDepth = 1 then .ok { b with rest := op.rest }
        else splitBranches levels fuel (ifDepth - 1) added op.rest
      else if op.opcode = .OP_ELSE ∧ ifDepth = 1 then
        splitBranches levels fuel ifDepth { b with inFalse := true } op.rest
      else splitBranches levels fuel ifDepth added op.rest

/-! ### The loop -/

/-- `DecompileState`, with its top first, and the counters. -/
structure DecompileState where
  stack : List Action := []
  basicCount : ℕ := 0
  condCount : ℕ := 0

def DecompileState.push (st : DecompileState) (block : BasicBlock) : DecompileState :=
  { st with
    stack := .basic (block.stem ++ toString st.basicCount) block :: st.stack
    basicCount := st.basicCount + 1 }

/-- The expressions of the next condition, with the one that is invented if there is none. -/
def DecompileState.expressions (st : DecompileState) : List Action × List Action :=
  match st.stack with
  | [] => ([.alwaysTrue], [])
  | last :: stack => popExpressions Action.isBoolAnd [last] stack

def DecompileState.close (st : DecompileState) (trueBranch falseBranch : List Action) :
    DecompileState :=
  { st with
    stack := .condition ("if-condition-" ++ toString st.condCount) st.expressions.1 trueBranch
      falseBranch :: st.expressions.2
    condCount := st.condCount + 1 }

/-- The loop of `Decompile`, with the number of levels below it that may be entered. The script has to
be no longer than the fuel. -/
def decompileLoop : ℕ → ℕ → DecompileState → CScript → Except String (List Action)
  | _, _, st, [] => .ok st.stack.reverse
  | 0, _, st, _ :: _ => .ok st.stack.reverse
  | fuel + 1, levels, st, s@(_ :: _) => do
    match ← nextTurn s with
    | .block block rest => decompileLoop fuel levels (st.push block) rest
    | .condition inner => do
      let b ← splitBranches levels inner.length 1 {} inner
      match levels with
      | 0 => .error "Maximum condition nesting depth exceeded (max 32)"
      | below + 1 => do
        let trueBranch ← decompileLoop fuel below {} b.trueScript
        let falseBranch ← decompileLoop fuel below {} b.falseScript
        decompileLoop fuel levels (st.close trueBranch falseBranch) b.rest

def decompileActions (script : CScript) : Except String (List Action) :=
  decompileLoop script.length maxMescalConditionDepth {} script

/-- `CMescal::Decompile`. -/
def decompile (script : CScript) : Except String UniValue :=
  contractJson <$> decompileActions script

end KristaTech.Mescal
