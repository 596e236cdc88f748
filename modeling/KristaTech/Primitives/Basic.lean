import Mathlib.Algebra.Order.Ring.Int
import KristaTech.Library.KeyOrder

/-!
# Hashes, public keys and outpoints

The small value types that every part of the node passes around (`uint256.h`, `pubkey.h`,
`primitives/transaction.h`), each with the order that the source's `operator<` gives it, so that it
can be the key of a map.

A `uint256` is a number here (`base_uint<256>`): it is compared as a number, and its bytes in memory
and on the wire are those of the number, least significant first.
-/

namespace KristaTech

abbrev Uint256 := BitVec 256

instance transOrd_uint256 : Std.TransOrd Uint256 := inferInstance

abbrev Uint160 := BitVec 160

/-- Amounts are signed: differences of sums are taken freely. -/
abbrev CAmount := ℤ

/-- Raw bytes, the source's `std::vector<unsigned char>`. -/
abbrev Bytes := List UInt8

/-! ### Public keys -/

namespace CPubKey

def publicKeySize : ℕ := 65

def compressedPublicKeySize : ℕ := 33

/-- The length of a key with a given first byte; `0` for a header no key has. -/
def getLen (chHeader : UInt8) : ℕ :=
  if chHeader = 2 ∨ chHeader = 3 then compressedPublicKeySize
  else if chHeader = 4 ∨ chHeader = 6 ∨ chHeader = 7 then publicKeySize
  else 0

/-- The bytes are those of a key: non-empty, and of the length their header announces. -/
def ValidSize (vch : Bytes) : Prop := 0 < vch.length ∧ vch.head?.map getLen = some vch.length

instance (vch : Bytes) : Decidable (ValidSize vch) := by unfold ValidSize; infer_instance

end CPubKey

/-- An encapsulated public key: a well-sized key, or the one invalid value, whose header byte is
`0xFF` and whose other bytes nothing reads. -/
structure CPubKey where
  vch : Bytes
  /-- No other byte string is ever stored: `Set` and `Unserialize` invalidate what does not fit. -/
  validSize_or_invalid : CPubKey.ValidSize vch ∨ vch = [0xFF]
  deriving DecidableEq, Repr

namespace CPubKey

/-- `Invalidate`. -/
def invalid : CPubKey := ⟨[0xFF], Or.inr rfl⟩

instance : Inhabited CPubKey := ⟨invalid⟩

/-- `Set`: the bytes if they are a key, the invalid key otherwise. -/
def set (vch : Bytes) : CPubKey := if h : ValidSize vch then ⟨vch, Or.inl h⟩ else invalid

def size (k : CPubKey) : ℕ := (k.vch.head?.map getLen).getD 0

def isValid (k : CPubKey) : Bool := 0 < k.size

/-- `[begin(), end())`: what is hashed and serialized. -/
def bytes (k : CPubKey) : Bytes := k.vch.take k.size

instance : Ord CPubKey := KeyOrder.ord CPubKey.vch

instance : Std.TransOrd CPubKey := KeyOrder.transOrd CPubKey.vch

instance : Std.LawfulEqOrd CPubKey :=
  KeyOrder.lawfulEqOrd fun a b (h : a.vch = b.vch) ↦ by cases a; cases b; simp_all

end CPubKey

/-! ### Outpoints -/

/-- An outpoint: a transaction hash and an index into its outputs. -/
structure COutPoint where
  hash : Uint256
  n : UInt32
  deriving DecidableEq, Repr, Inhabited

namespace COutPoint

/-- `SetNull`: the outpoint a coinbase input names. -/
def null : COutPoint := ⟨0, 0xFFFFFFFF⟩

def isNull (o : COutPoint) : Bool := o == null

/-- The fields in the order in which `operator<` compares them. -/
def key (o : COutPoint) : Uint256 × UInt32 := (o.hash, o.n)

theorem key_injective : Function.Injective key := by
  rintro ⟨h, n⟩ ⟨h', n'⟩ he
  simpa [key] using he

attribute [local instance] lexOrd

instance : Ord COutPoint := KeyOrder.ord key

instance : Std.TransOrd COutPoint := KeyOrder.transOrd key

instance : Std.LawfulEqOrd COutPoint := KeyOrder.lawfulEqOrd key_injective

end COutPoint

end KristaTech
