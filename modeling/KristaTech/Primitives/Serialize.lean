import KristaTech.Primitives.Basic

/-!
# Reading from a data stream

`CDataStream >> x` of `serialize.h` and `streams.h`, for the types the node parses out of untrusted
bytes. A read past the end of the stream and a non-canonical or oversized length both throw in the
source, and every caller modelled here catches the exception, so a failed read is `none`. Bytes left
over after a read are left in the stream: no caller asks whether there are any.
-/

namespace KristaTech

abbrev Reader := StateT Bytes Option

namespace Reader

/-- `s.read(pch, n)`: the next `n` bytes. -/
def readBytes (n : ℕ) : Reader Bytes := fun s ↦
  if n ≤ s.length then some (s.take n, s.drop n) else none

def leToNat : Bytes → ℕ
  | [] => 0
  | b :: bs => b.toNat + 256 * leToNat bs

/-- The value of a byte string whose first byte is the most significant. -/
def beToNat (bs : Bytes) : ℕ := leToNat bs.reverse

/-- The `n` bytes of a number, least significant first. -/
def natToLE : ℕ → ℕ → Bytes
  | 0, _ => []
  | n + 1, v => UInt8.ofNat (v % 256) :: natToLE n (v / 256)

/-- `ser_readdata8` to `ser_readdata64`. -/
def readLE (n : ℕ) : Reader ℕ := do return leToNat (← readBytes n)

/-- A signed integer of `n` bytes, in two's complement. -/
def readInt (n : ℕ) : Reader ℤ := do
  let v ← readLE n
  return if v < 2 ^ (8 * n - 1) then v else (v : ℤ) - 2 ^ (8 * n)

/-- `MAX_SIZE`. -/
def maxSize : ℕ := 0x02000000

/-- `ReadCompactSize`: a length in the shortest of its four forms, and not above `MAX_SIZE`. -/
def readCompactSize : Reader ℕ := do
  let chSize ← readLE 1
  let nSizeRet ←
    if chSize < 253 then pure chSize
    else if chSize = 253 then
      let n ← readLE 2
      if n < 253 then failure else pure n
    else if chSize = 254 then
      let n ← readLE 4
      if n < 0x10000 then failure else pure n
    else
      let n ← readLE 8
      if n < 0x100000000 then failure else pure n
  if maxSize < nSizeRet then failure else pure nSizeRet

/-- Read `n` values one after the other. -/
def readMany {α : Type} (read : Reader α) : ℕ → Reader (List α)
  | 0 => pure []
  | n + 1 => do
    let a ← read
    let as ← readMany read n
    return a :: as

def readVector {α : Type} (read : Reader α) : Reader (List α) := do
  readMany read (← readCompactSize)

def readByteVector : Reader Bytes := do readBytes (← readCompactSize)

def readUint256 : Reader Uint256 := do return BitVec.ofNat 256 (← readLE 32)

def readOutPoint : Reader COutPoint := do
  let hash ← readUint256
  let n ← readLE 4
  return ⟨hash, UInt32.ofNat n⟩

/-- `CPubKey::Unserialize`: a length that is too large or does not match the header leaves the
invalid key behind, and is not an error. -/
def readPubKey : Reader CPubKey := do
  let len ← readCompactSize
  let bs ← readBytes len
  return CPubKey.set bs

end Reader

/-- The bytes of a `uint256`. -/
def Uint256.toBytes (h : Uint256) : Bytes := Reader.natToLE 32 h.toNat

/-- The bytes of a `uint160`. -/
def Uint160.toBytes (h : Uint160) : Bytes := Reader.natToLE 20 h.toNat

/-- `uint256(vch)`, of 32 bytes. -/
def Uint256.ofBytes (vch : Bytes) : Uint256 := BitVec.ofNat 256 (Reader.leToNat vch)

/-- `uint160(vch)`, of 20 bytes. -/
def Uint160.ofBytes (vch : Bytes) : Uint160 := BitVec.ofNat 160 (Reader.leToNat vch)

end KristaTech
