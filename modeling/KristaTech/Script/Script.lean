import KristaTech.Primitives.Serialize

/-!
# Scripts

The opcodes and the byte-level reading of a script (`script/script.h`, `script/script.cpp`).

A script is a string of bytes; `getOp` takes the first instruction off it. A loop of the source
that walks a script with `GetOp` is a function of `ops`, the list of the instructions up to the
first one that does not parse; `wellFormed` says that there is none.
-/

namespace KristaTech

open List

/-! ### Opcodes -/

/-- `opcodetype`. -/
inductive Opcode where
  -- push value
  | OP_0 | OP_PUSHDATA1 | OP_PUSHDATA2 | OP_PUSHDATA4 | OP_1NEGATE | OP_RESERVED | OP_1 | OP_2
  | OP_3 | OP_4 | OP_5 | OP_6 | OP_7 | OP_8 | OP_9 | OP_10 | OP_11 | OP_12 | OP_13 | OP_14
  | OP_15 | OP_16
  -- control
  | OP_NOP | OP_VER | OP_IF | OP_NOTIF | OP_VERIF | OP_VERNOTIF | OP_ELSE | OP_ENDIF | OP_VERIFY
  | OP_RETURN
  -- stack ops
  | OP_TOALTSTACK | OP_FROMALTSTACK | OP_2DROP | OP_2DUP | OP_3DUP | OP_2OVER | OP_2ROT
  | OP_2SWAP | OP_IFDUP | OP_DEPTH | OP_DROP | OP_DUP | OP_NIP | OP_OVER | OP_PICK | OP_ROLL
  | OP_ROT | OP_SWAP | OP_TUCK
  -- splice ops
  | OP_CAT | OP_SUBSTR | OP_LEFT | OP_RIGHT | OP_SIZE
  -- bit logic
  | OP_INVERT | OP_AND | OP_OR | OP_XOR | OP_EQUAL | OP_EQUALVERIFY | OP_RESERVED1 | OP_RESERVED2
  -- numeric
  | OP_1ADD | OP_1SUB | OP_2MUL | OP_2DIV | OP_NEGATE | OP_ABS | OP_NOT | OP_0NOTEQUAL | OP_ADD
  | OP_SUB | OP_MUL | OP_DIV | OP_MOD | OP_LSHIFT | OP_RSHIFT | OP_BOOLAND | OP_BOOLOR
  | OP_NUMEQUAL | OP_NUMEQUALVERIFY | OP_NUMNOTEQUAL | OP_LESSTHAN | OP_GREATERTHAN
  | OP_LESSTHANOREQUAL | OP_GREATERTHANOREQUAL | OP_MIN | OP_MAX | OP_WITHIN
  -- crypto
  | OP_RIPEMD160 | OP_SHA1 | OP_SHA256 | OP_HASH160 | OP_HASH256 | OP_CODESEPARATOR | OP_CHECKSIG
  | OP_CHECKSIGVERIFY | OP_CHECKMULTISIG | OP_CHECKMULTISIGVERIFY
  -- expansion
  | OP_NOP1 | OP_CHECKLOCKTIMEVERIFY | OP_CHECKSEQUENCEVERIFY | OP_NOP4 | OP_NOP5 | OP_NOP6
  | OP_NOP7 | OP_NOP8 | OP_NOP9 | OP_NOP10 | OP_CHECKSIGADD
  -- memory, storage and contracts
  | OP_MLOAD | OP_MSTORE | OP_SLOAD | OP_SSTORE | OP_PUBLISH | OP_RUN | OP_UPDATE_STATUS
  | OP_INVALIDOPCODE
  /-- Any other byte: the pushes of `0x01` to `0x4b` bytes and the codes that have no name. -/
  | byte (b : UInt8)
  deriving DecidableEq, Repr

namespace Opcode

def toByte : Opcode → UInt8
  | .OP_0 => 0x00 | .OP_PUSHDATA1 => 0x4c | .OP_PUSHDATA2 => 0x4d | .OP_PUSHDATA4 => 0x4e
  | .OP_1NEGATE => 0x4f | .OP_RESERVED => 0x50 | .OP_1 => 0x51 | .OP_2 => 0x52 | .OP_3 => 0x53
  | .OP_4 => 0x54 | .OP_5 => 0x55 | .OP_6 => 0x56 | .OP_7 => 0x57 | .OP_8 => 0x58 | .OP_9 => 0x59
  | .OP_10 => 0x5a | .OP_11 => 0x5b | .OP_12 => 0x5c | .OP_13 => 0x5d | .OP_14 => 0x5e
  | .OP_15 => 0x5f | .OP_16 => 0x60 | .OP_NOP => 0x61 | .OP_VER => 0x62 | .OP_IF => 0x63
  | .OP_NOTIF => 0x64 | .OP_VERIF => 0x65 | .OP_VERNOTIF => 0x66 | .OP_ELSE => 0x67
  | .OP_ENDIF => 0x68 | .OP_VERIFY => 0x69 | .OP_RETURN => 0x6a | .OP_TOALTSTACK => 0x6b
  | .OP_FROMALTSTACK => 0x6c | .OP_2DROP => 0x6d | .OP_2DUP => 0x6e | .OP_3DUP => 0x6f
  | .OP_2OVER => 0x70 | .OP_2ROT => 0x71 | .OP_2SWAP => 0x72 | .OP_IFDUP => 0x73
  | .OP_DEPTH => 0x74 | .OP_DROP => 0x75 | .OP_DUP => 0x76 | .OP_NIP => 0x77 | .OP_OVER => 0x78
  | .OP_PICK => 0x79 | .OP_ROLL => 0x7a | .OP_ROT => 0x7b | .OP_SWAP => 0x7c | .OP_TUCK => 0x7d
  | .OP_CAT => 0x7e | .OP_SUBSTR => 0x7f | .OP_LEFT => 0x80 | .OP_RIGHT => 0x81
  | .OP_SIZE => 0x82 | .OP_INVERT => 0x83 | .OP_AND => 0x84 | .OP_OR => 0x85 | .OP_XOR => 0x86
  | .OP_EQUAL => 0x87 | .OP_EQUALVERIFY => 0x88 | .OP_RESERVED1 => 0x89 | .OP_RESERVED2 => 0x8a
  | .OP_1ADD => 0x8b | .OP_1SUB => 0x8c | .OP_2MUL => 0x8d | .OP_2DIV => 0x8e
  | .OP_NEGATE => 0x8f | .OP_ABS => 0x90 | .OP_NOT => 0x91 | .OP_0NOTEQUAL => 0x92
  | .OP_ADD => 0x93 | .OP_SUB => 0x94 | .OP_MUL => 0x95 | .OP_DIV => 0x96 | .OP_MOD => 0x97
  | .OP_LSHIFT => 0x98 | .OP_RSHIFT => 0x99 | .OP_BOOLAND => 0x9a | .OP_BOOLOR => 0x9b
  | .OP_NUMEQUAL => 0x9c | .OP_NUMEQUALVERIFY => 0x9d | .OP_NUMNOTEQUAL => 0x9e
  | .OP_LESSTHAN => 0x9f | .OP_GREATERTHAN => 0xa0 | .OP_LESSTHANOREQUAL => 0xa1
  | .OP_GREATERTHANOREQUAL => 0xa2 | .OP_MIN => 0xa3 | .OP_MAX => 0xa4 | .OP_WITHIN => 0xa5
  | .OP_RIPEMD160 => 0xa6 | .OP_SHA1 => 0xa7 | .OP_SHA256 => 0xa8 | .OP_HASH160 => 0xa9
  | .OP_HASH256 => 0xaa | .OP_CODESEPARATOR => 0xab | .OP_CHECKSIG => 0xac
  | .OP_CHECKSIGVERIFY => 0xad | .OP_CHECKMULTISIG => 0xae | .OP_CHECKMULTISIGVERIFY => 0xaf
  | .OP_NOP1 => 0xb0 | .OP_CHECKLOCKTIMEVERIFY => 0xb1 | .OP_CHECKSEQUENCEVERIFY => 0xb2
  | .OP_NOP4 => 0xb3 | .OP_NOP5 => 0xb4 | .OP_NOP6 => 0xb5 | .OP_NOP7 => 0xb6 | .OP_NOP8 => 0xb7
  | .OP_NOP9 => 0xb8 | .OP_NOP10 => 0xb9 | .OP_CHECKSIGADD => 0xba | .OP_MLOAD => 0xc4
  | .OP_MSTORE => 0xc5 | .OP_SLOAD => 0xc7 | .OP_SSTORE => 0xc8 | .OP_PUBLISH => 0xc9
  | .OP_RUN => 0xca | .OP_UPDATE_STATUS => 0xcb | .OP_INVALIDOPCODE => 0xff
  | .byte b => b

/-- The opcodes that have a name, in the order of their bytes. -/
def named : List Opcode := [
  .OP_0, .OP_PUSHDATA1, .OP_PUSHDATA2, .OP_PUSHDATA4, .OP_1NEGATE, .OP_RESERVED, .OP_1, .OP_2,
  .OP_3, .OP_4, .OP_5, .OP_6, .OP_7, .OP_8, .OP_9, .OP_10, .OP_11, .OP_12, .OP_13, .OP_14,
  .OP_15, .OP_16, .OP_NOP, .OP_VER, .OP_IF, .OP_NOTIF, .OP_VERIF, .OP_VERNOTIF, .OP_ELSE,
  .OP_ENDIF, .OP_VERIFY, .OP_RETURN, .OP_TOALTSTACK, .OP_FROMALTSTACK, .OP_2DROP, .OP_2DUP,
  .OP_3DUP, .OP_2OVER, .OP_2ROT, .OP_2SWAP, .OP_IFDUP, .OP_DEPTH, .OP_DROP, .OP_DUP, .OP_NIP,
  .OP_OVER, .OP_PICK, .OP_ROLL, .OP_ROT, .OP_SWAP, .OP_TUCK, .OP_CAT, .OP_SUBSTR, .OP_LEFT,
  .OP_RIGHT, .OP_SIZE, .OP_INVERT, .OP_AND, .OP_OR, .OP_XOR, .OP_EQUAL, .OP_EQUALVERIFY,
  .OP_RESERVED1, .OP_RESERVED2, .OP_1ADD, .OP_1SUB, .OP_2MUL, .OP_2DIV, .OP_NEGATE, .OP_ABS,
  .OP_NOT, .OP_0NOTEQUAL, .OP_ADD, .OP_SUB, .OP_MUL, .OP_DIV, .OP_MOD, .OP_LSHIFT, .OP_RSHIFT,
  .OP_BOOLAND, .OP_BOOLOR, .OP_NUMEQUAL, .OP_NUMEQUALVERIFY, .OP_NUMNOTEQUAL, .OP_LESSTHAN,
  .OP_GREATERTHAN, .OP_LESSTHANOREQUAL, .OP_GREATERTHANOREQUAL, .OP_MIN, .OP_MAX, .OP_WITHIN,
  .OP_RIPEMD160, .OP_SHA1, .OP_SHA256, .OP_HASH160, .OP_HASH256, .OP_CODESEPARATOR, .OP_CHECKSIG,
  .OP_CHECKSIGVERIFY, .OP_CHECKMULTISIG, .OP_CHECKMULTISIGVERIFY, .OP_NOP1,
  .OP_CHECKLOCKTIMEVERIFY, .OP_CHECKSEQUENCEVERIFY, .OP_NOP4, .OP_NOP5, .OP_NOP6, .OP_NOP7,
  .OP_NOP8, .OP_NOP9, .OP_NOP10, .OP_CHECKSIGADD, .OP_MLOAD, .OP_MSTORE, .OP_SLOAD, .OP_SSTORE,
  .OP_PUBLISH, .OP_RUN, .OP_UPDATE_STATUS, .OP_INVALIDOPCODE]

/-- `(opcodetype)b`. -/
def ofByte (b : UInt8) : Opcode := (named.find? (·.toByte == b)).getD (.byte b)

theorem toByte_ofByte (b : UInt8) : (ofByte b).toByte = b := by
  rw [ofByte]
  cases h : named.find? (·.toByte == b) with
  | none => rfl
  | some op => simpa using find?_some h

/-- Opcodes are compared as the numbers they are. -/
instance : LE Opcode := ⟨fun a b ↦ a.toByte ≤ b.toByte⟩

instance : LT Opcode := ⟨fun a b ↦ a.toByte < b.toByte⟩

instance (a b : Opcode) : Decidable (a ≤ b) := inferInstanceAs (Decidable (a.toByte ≤ b.toByte))

instance (a b : Opcode) : Decidable (a < b) := inferInstanceAs (Decidable (a.toByte < b.toByte))

end Opcode

/-! ### Reading instructions -/

abbrev CScript := Bytes

/-- One instruction: its opcode, the bytes it pushes, and what follows it in the script. -/
structure ScriptOp where
  opcode : Opcode
  vch : Bytes
  rest : CScript
  deriving DecidableEq, Repr

namespace CScript

/-- The length of an immediate operand and what follows the length. The opcode itself is the length
unless it announces one of one, two or four bytes. -/
def operandSize (opcode : UInt8) (pc : CScript) : Option (ℕ × CScript) :=
  if opcode < Opcode.OP_PUSHDATA1.toByte then some (opcode.toNat, pc)
  else if opcode = Opcode.OP_PUSHDATA1.toByte then Reader.readLE 1 pc
  else if opcode = Opcode.OP_PUSHDATA2.toByte then Reader.readLE 2 pc
  else Reader.readLE 4 pc

/-- `GetOp2`: the instruction at the front of a script, if it is complete. -/
def getOp : CScript → Option ScriptOp
  | [] => none
  | opcode :: pc =>
    if opcode ≤ Opcode.OP_PUSHDATA4.toByte then do
      let (nSize, pc) ← operandSize opcode pc
      let (vch, pc) ← Reader.readBytes nSize pc
      return ⟨Opcode.ofByte opcode, vch, pc⟩
    else some ⟨Opcode.ofByte opcode, [], pc⟩

/-- The instructions of a script, at most `fuel` of them. -/
def opsAux : ℕ → CScript → List ScriptOp
  | 0, _ => []
  | fuel + 1, s =>
    match getOp s with
    | none => []
    | some op => op :: opsAux fuel op.rest

/-- The instructions of a script, up to the first one that is cut off. -/
def ops (s : CScript) : List ScriptOp := opsAux s.length s

/-- What is left of a script after its last complete instruction. -/
def unparsed (s : CScript) : CScript := ((ops s).getLast?.map (·.rest)).getD s

/-- Every byte of the script belongs to a complete instruction. -/
def wellFormed (s : CScript) : Bool := (unparsed s).isEmpty

theorem readBytes_eq_some_iff {n : ℕ} {s vch rest : Bytes} :
    Reader.readBytes n s = some (vch, rest) ↔ n ≤ s.length ∧ vch = s.take n ∧ rest = s.drop n := by
  simp only [Reader.readBytes]
  split
  · simp_all [eq_comm]
  · simp_all

theorem length_le_of_readLE {n v : ℕ} {s rest : Bytes} (h : Reader.readLE n s = some (v, rest)) :
    rest.length ≤ s.length := by
  simp only [Reader.readLE, bind, StateT.bind, Option.bind_eq_some_iff] at h
  obtain ⟨⟨bs, rest'⟩, hbs, h⟩ := h
  obtain ⟨-, rfl⟩ := Prod.mk.inj (Option.some.inj h)
  rw [(readBytes_eq_some_iff.mp hbs).2.2, length_drop]
  omega

variable {s : CScript}

theorem length_rest_lt {op : ScriptOp} (h : getOp s = some op) : op.rest.length < s.length := by
  cases s with
  | nil => simp [getOp] at h
  | cons opcode pc =>
    simp only [getOp] at h
    split at h
    · simp only [Option.bind_eq_bind, Option.bind_eq_some_iff, Option.pure_def, Option.some.injEq] at h
      obtain ⟨⟨nSize, pc'⟩, hsize, ⟨vch, rest⟩, hread, rfl⟩ := h
      have hpc : pc'.length ≤ pc.length := by
        simp only [operandSize] at hsize
        split at hsize
        · simp only [Option.some.injEq, Prod.mk.injEq] at hsize
          rw [hsize.2]
        · split at hsize
          · exact length_le_of_readLE hsize
          · split at hsize <;> exact length_le_of_readLE hsize
      have hrest : rest = pc'.drop nSize := (readBytes_eq_some_iff.mp hread).2.2
      show rest.length < (opcode :: pc).length
      rw [hrest, length_drop, length_cons]
      omega
    · cases h
      simp

theorem opsAux_eq {fuel : ℕ} (h : s.length ≤ fuel) : opsAux fuel s = ops s := by
  -- for every fuel that covers the script, the instructions are those read with the least such fuel
  induction fuel using Nat.strong_induction_on generalizing s with
  | _ fuel ih =>
    rw [ops]
    cases s with
    | nil => cases fuel <;> rfl
    | cons b s =>
      cases fuel with
      | zero => simp at h
      | succ fuel =>
        simp only [length_cons, opsAux]
        cases hop : getOp (b :: s) with
        | none => rfl
        | some op =>
          have hlt := length_rest_lt hop
          simp only [length_cons] at h hlt
          show op :: opsAux fuel op.rest = op :: opsAux s.length op.rest
          rw [ih fuel (by omega) (by omega), ops]
          congr 1
          by_cases hs : s.length = fuel
          · rw [hs, ih fuel (by omega) (by omega), ops]
          · rw [ih s.length (by omega) (by omega), ops]

theorem ops_of_getOp {op : ScriptOp} (h : getOp s = some op) : ops s = op :: ops op.rest := by
  have hlt := length_rest_lt h
  cases s with
  | nil => simp [getOp] at h
  | cons b s =>
    simp only [length_cons] at hlt
    simp only [ops, length_cons, opsAux, h]
    rw [opsAux_eq (by omega), ops]

theorem ops_of_getOp_eq_none (h : getOp s = none) : ops s = [] := by
  cases s with
  | nil => rfl
  | cons b s => simp only [ops, length_cons, opsAux, h]

/-! ### Recognising scripts -/

/-- The byte strings a script pushes: the operands of its instructions up to `OP_PUSHDATA4`. -/
def pushes (s : CScript) : List Bytes :=
  ((ops s).filter fun op ↦ decide (op.opcode ≤ .OP_PUSHDATA4)).map (·.vch)

/-- `MAX_SCRIPT_SIZE`. -/
def maxScriptSize : ℕ := 10000

/-- `IsUnspendable`: execution fails whatever the stack. -/
def isUnspendable (s : CScript) : Bool :=
  s.head? == some Opcode.OP_RETURN.toByte || maxScriptSize < s.length

/-- `IsPayToScriptHash`. -/
def isPayToScriptHash (s : CScript) : Bool :=
  s.length == 23 && s[0]? == some Opcode.OP_HASH160.toByte && s[1]? == some 0x14 &&
    s[22]? == some Opcode.OP_EQUAL.toByte

/-- `IsPushOnly`: `OP_RESERVED` counts as a push. -/
def isPushOnly (s : CScript) : Bool :=
  wellFormed s && (ops s).all fun op ↦ decide (op.opcode ≤ .OP_16)

/-! ### Writing scripts -/

/-- `operator<<` of a byte string, with the shortest form of its length. -/
def pushData (s : CScript) (b : Bytes) : CScript :=
  let size :=
    if b.length < 0x4c then [UInt8.ofNat b.length]
    else if b.length ≤ 0xff then Opcode.OP_PUSHDATA1.toByte :: Reader.natToLE 1 b.length
    else if b.length ≤ 0xffff then Opcode.OP_PUSHDATA2.toByte :: Reader.natToLE 2 b.length
    else Opcode.OP_PUSHDATA4.toByte :: Reader.natToLE 4 b.length
  s ++ size ++ b

/-- `operator<<` of an opcode. -/
def pushOp (s : CScript) (op : Opcode) : CScript := s ++ [op.toByte]

end CScript

/-! ### Script numbers -/

namespace CScriptNum

/-- `nDefaultMaxNumSize`. -/
def defaultMaxNumSize : ℕ := 4

/-- `set_vch`: little-endian, with the sign in the top bit of the last byte. -/
def setVch (vch : Bytes) : ℤ :=
  match vch.getLast? with
  | none => 0
  | some b =>
    if b &&& 0x80 ≠ 0 then -((Reader.leToNat vch : ℤ) - 0x80 * 256 ^ (vch.length - 1))
    else Reader.leToNat vch

/-- The shortest form of a number: its last byte is not a bare sign, unless the byte before it
needs the room. -/
def isMinimal (vch : Bytes) : Bool :=
  match vch.reverse with
  | [] => true
  | [b] => b &&& 0x7f != 0
  | b :: b' :: _ => b &&& 0x7f != 0 || b' &&& 0x80 != 0

/-- `CScriptNum(vch, fRequireMinimal, nMaxNumSize)`; the exception is `none`. -/
def ofVch (vch : Bytes) (fRequireMinimal : Bool) (nMaxNumSize : ℕ := defaultMaxNumSize) : Option ℤ := do
  guard (vch.length ≤ nMaxNumSize)
  guard (!fRequireMinimal || isMinimal vch)
  return setVch vch

/-- The bytes of a number without leading zeros, least significant first. -/
def magnitude : ℕ → ℕ → Bytes
  | 0, _ => []
  | _, 0 => []
  | fuel + 1, v => UInt8.ofNat (v % 256) :: magnitude fuel (v / 256)

/-- `serialize`, of a number of at most eight bytes. -/
def serialize (value : ℤ) : Bytes :=
  let result := magnitude 8 value.natAbs
  match result.getLast? with
  | none => []
  | some b =>
    if b &&& 0x80 ≠ 0 then result ++ [if value < 0 then 0x80 else 0]
    else if value < 0 then result.dropLast ++ [b ||| 0x80]
    else result

/-- `getint`: out of range values saturate. -/
def getint (value : ℤ) : ℤ := max (-2 ^ 31) (min (2 ^ 31 - 1) value)

end CScriptNum

end KristaTech
