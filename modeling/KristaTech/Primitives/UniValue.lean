import KristaTech.Primitives.Serialize

/-!
# JSON values and hexadecimal strings

The values of the UniValue library, as far as contracts read them, and `IsHex`, `ParseHex` and
`HexStr` of `utilstrencodings`. A getter that throws gives the text of its exception.

What `HexStr` writes, `ParseHex` reads back (`parseHex_hexStr`).
-/

namespace KristaTech

open List

/-- A JSON value. A number is known by the integer that its text denotes, if it is one. -/
inductive UniValue where
  | VNULL
  | VBOOL (val : Bool)
  | VNUM (val : Option ℤ)
  | VSTR (val : String)
  | VARR (values : List UniValue)
  | VOBJ (entries : List (String × UniValue))

namespace UniValue

/-- `findKey`: the first entry with the key; only an object has keys. -/
def findKey (v : UniValue) (key : String) : Option UniValue :=
  match v with
  | VOBJ entries => entries.lookup key
  | _ => none

/-- `operator[]` of a key; a missing entry is null. -/
def get (v : UniValue) (key : String) : UniValue := (v.findKey key).getD VNULL

/-- The values of an array or an object, which `size` counts and `operator[]` of an index reads. -/
def values : UniValue → List UniValue
  | VARR values => values
  | VOBJ entries => entries.map Prod.snd
  | _ => []

def isObject : UniValue → Bool
  | VOBJ _ => true
  | _ => false

/-- `isStr() && get_str() == s`. -/
def isStrOf (v : UniValue) (s : String) : Bool :=
  match v with
  | VSTR val => val == s
  | _ => false

/-- `get_str`. -/
def getStr : UniValue → Except String String
  | VSTR val => .ok val
  | _ => .error "JSON value is not a string as expected"

def getIntIn (lo hi : ℤ) : UniValue → Except String ℤ
  | VNUM (some n) => if lo ≤ n ∧ n ≤ hi then .ok n else .error "JSON integer out of range"
  | VNUM none => .error "JSON integer out of range"
  | _ => .error "JSON value is not an integer as expected"

/-- `get_int`. -/
def getInt : UniValue → Except String ℤ := getIntIn (-2 ^ 31) (2 ^ 31 - 1)

/-- `get_int64`. -/
def getInt64 : UniValue → Except String ℤ := getIntIn (-2 ^ 63) (2 ^ 63 - 1)

end UniValue

/-! ### Hexadecimal strings -/

/-- `HexDigit`; -1 is `none`. -/
def hexDigit (c : Char) : Option ℕ :=
  if '0' ≤ c ∧ c ≤ '9' then some (c.toNat - '0'.toNat)
  else if 'a' ≤ c ∧ c ≤ 'f' then some (c.toNat - 'a'.toNat + 10)
  else if 'A' ≤ c ∧ c ≤ 'F' then some (c.toNat - 'A'.toNat + 10)
  else none

/-- `isspace`. -/
def isSpace (c : Char) : Bool := c == ' ' || (9 ≤ c.toNat && c.toNat ≤ 13)

/-- `IsHex`. -/
def isHex (str : String) : Bool :=
  str.toList.all (fun c ↦ (hexDigit c).isSome) && 0 < str.toList.length && str.toList.length % 2 == 0

/-- The loop of `ParseHex`: blanks before a byte are skipped, and it ends at the first character that
is not a digit. -/
def parseHexLoop : List Char → Bytes
  | [] => []
  | c :: psz =>
    if isSpace c then parseHexLoop psz
    else
      match hexDigit c, psz with
      | some hi, d :: psz =>
        match hexDigit d with
        | some lo => UInt8.ofNat (16 * hi + lo) :: parseHexLoop psz
        | none => []
      | _, _ => []

/-- `ParseHex`. -/
def parseHex (str : String) : Bytes := parseHexLoop str.toList

/-- `hexmap`. -/
def hexmap (n : ℕ) : Char := "0123456789abcdef".toList.getD n '0'

def hexPair (b : UInt8) : List Char := [hexmap (b.toNat / 16), hexmap (b.toNat % 16)]

/-- `HexStr`. -/
def hexStr (vch : Bytes) : String := String.ofList (vch.flatMap hexPair)

theorem hexDigit_hexmap {n : ℕ} (h : n < 16) : hexDigit (hexmap n) = some n := by
  have hall : ∀ n < 16, hexDigit (hexmap n) = some n := by decide
  exact hall n h

theorem not_isSpace_hexmap {n : ℕ} (h : n < 16) : isSpace (hexmap n) = false := by
  have hall : ∀ n < 16, isSpace (hexmap n) = false := by decide
  exact hall n h

theorem toNat_div_lt (b : UInt8) : b.toNat / 16 < 16 := by
  have := b.toNat_lt
  omega

theorem parseHexLoop_hexPair (b : UInt8) (cs : List Char) :
    parseHexLoop (hexPair b ++ cs) = b :: parseHexLoop cs := by
  have hhi := toNat_div_lt b
  have hlo : b.toNat % 16 < 16 := Nat.mod_lt _ (by decide)
  have hbyte : 16 * (b.toNat / 16) + b.toNat % 16 = b.toNat := Nat.div_add_mod _ _
  show parseHexLoop (hexmap (b.toNat / 16) :: hexmap (b.toNat % 16) :: cs) = _
  rw [parseHexLoop.eq_def]
  simp only [not_isSpace_hexmap hhi, hexDigit_hexmap hhi, hexDigit_hexmap hlo, hbyte,
    Bool.false_eq_true, if_false, UInt8.ofNat_toNat]

/-- **What is written is read back.** -/
@[simp]
theorem parseHex_hexStr (vch : Bytes) : parseHex (hexStr vch) = vch := by
  rw [parseHex, hexStr, String.toList_ofList]
  induction vch with
  | nil => rfl
  | cons b vch ih => rw [flatMap_cons, parseHexLoop_hexPair, ih]

theorem length_hexStr (vch : Bytes) : (hexStr vch).toList.length = 2 * vch.length := by
  rw [hexStr, String.toList_ofList]
  induction vch with
  | nil => rfl
  | cons b vch ih =>
    rw [flatMap_cons, length_append, ih, length_cons, hexPair]
    simp only [length_cons, length_nil]
    omega

/-- A string of digits is one, unless it is empty. -/
theorem isHex_hexStr (vch : Bytes) : isHex (hexStr vch) = !vch.isEmpty := by
  have hall : (hexStr vch).toList.all (fun c ↦ (hexDigit c).isSome) = true := by
    rw [hexStr, String.toList_ofList, all_flatMap, all_eq_true]
    intro b _
    simp [hexPair, hexDigit_hexmap (toNat_div_lt b), hexDigit_hexmap (Nat.mod_lt _ (by decide))]
  rw [isHex, hall, length_hexStr]
  cases vch <;> simp

end KristaTech
