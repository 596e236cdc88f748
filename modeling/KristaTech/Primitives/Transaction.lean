import KristaTech.Primitives.Bls
import KristaTech.Script.Script

/-!
# Transactions and coins

`primitives/transaction.h` and the coin of `coins.h`, with the network serialization that a
transaction's hash is taken over. `prevPubKey` and `nRounds`, which live in memory only and which
nothing modelled here reads, are left out.
-/

namespace KristaTech

/-! ### Writing to a data stream -/

namespace Writer

/-- `WriteCompactSize`. -/
def compactSize (n : ℕ) : Bytes :=
  if n < 253 then [UInt8.ofNat n]
  else if n ≤ 0xFFFF then 253 :: Reader.natToLE 2 n
  else if n ≤ 0xFFFFFFFF then 254 :: Reader.natToLE 4 n
  else 255 :: Reader.natToLE 8 n

def vector {α : Type} (write : α → Bytes) (as : List α) : Bytes :=
  compactSize as.length ++ as.flatMap write

def byteVector (bs : Bytes) : Bytes := compactSize bs.length ++ bs

/-- A signed integer of `n` bytes, in two's complement. -/
def int (n : ℕ) (v : ℤ) : Bytes := Reader.natToLE n (v % 256 ^ n).toNat

def outPoint (o : COutPoint) : Bytes := o.hash.toBytes ++ Reader.natToLE 4 o.n.toNat

/-- `CPubKey::Serialize`. -/
def pubKey (k : CPubKey) : Bytes := byteVector k.bytes

end Writer

/-! ### Transactions -/

/-- `SEQUENCE_FINAL`. -/
def sequenceFinal : UInt32 := 0xffffffff

structure CTxIn where
  prevout : COutPoint
  scriptSig : CScript
  nSequence : UInt32
  deriving DecidableEq, Repr

structure CTxOut where
  nValue : CAmount
  scriptPubKey : CScript
  deriving DecidableEq, Repr

namespace CTxOut

/-- `SetNull`. -/
def null : CTxOut := ⟨-1, []⟩

def isNull (out : CTxOut) : Bool := out.nValue == -1

def isEmpty (out : CTxOut) : Bool := out.nValue == 0 && out.scriptPubKey.isEmpty

end CTxOut

structure CTransaction where
  nVersion : ℤ
  vin : List CTxIn
  vout : List CTxOut
  nLockTime : UInt32
  deriving DecidableEq, Repr

namespace CTransaction

def isNull (tx : CTransaction) : Bool := tx.vin.isEmpty && tx.vout.isEmpty

def isCoinBase (tx : CTransaction) : Bool :=
  tx.vin.length == 1 && tx.vin.all (·.prevout.isNull)

def isCoinStake (tx : CTransaction) : Bool :=
  (tx.vin.head?.any fun txin ↦ !txin.prevout.isNull) && 2 ≤ tx.vout.length && tx.vout.head?.any (·.isEmpty)

/-- One turn of the loop of `GetValueOut`: a negative amount and a sum that leaves `int64_t` throw. -/
def addValueOut (nValueOut : CAmount) (out : CTxOut) : Option CAmount :=
  if out.nValue < 0 then none
  else if 2 ^ 63 ≤ nValueOut + out.nValue then none
  else some (nValueOut + out.nValue)

/-- `GetValueOut`; the exception is `none`. -/
def getValueOut (tx : CTransaction) : Option CAmount := tx.vout.foldlM addValueOut 0

def serializeIn (txin : CTxIn) : Bytes :=
  Writer.outPoint txin.prevout ++ Writer.byteVector txin.scriptSig ++ Reader.natToLE 4 txin.nSequence.toNat

def serializeOut (out : CTxOut) : Bytes :=
  Writer.int 8 out.nValue ++ Writer.byteVector out.scriptPubKey

def serialize (tx : CTransaction) : Bytes :=
  Writer.int 4 tx.nVersion ++ Writer.vector serializeIn tx.vin ++
    Writer.vector serializeOut tx.vout ++ Reader.natToLE 4 tx.nLockTime.toNat

/-- `GetHash`, the transaction's identifier. -/
def getHash (C : Crypto) (tx : CTransaction) : Uint256 := C.hash tx.serialize

end CTransaction

/-! ### Coins -/

/-- An unspent output with the height and the kind of the transaction that made it. -/
structure Coin where
  fCoinBase : Bool
  fCoinStake : Bool
  out : CTxOut
  nHeight : ℤ
  deriving DecidableEq, Repr

namespace Coin

/-- The empty coin, which is also what `Clear` leaves. -/
def empty : Coin := ⟨false, false, CTxOut.null, 0⟩

def isSpent (coin : Coin) : Bool := coin.out.isNull

theorem isSpent_eq_false {coin : Coin} (h : 0 ≤ coin.out.nValue) : coin.isSpent = false := by
  simp only [isSpent, CTxOut.isNull, beq_eq_false_iff_ne, ne_eq]
  intro hnull
  rw [hnull] at h
  exact absurd h (by decide)

end Coin

end KristaTech
