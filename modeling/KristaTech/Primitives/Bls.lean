import KristaTech.Primitives.Serialize

/-!
# BLS signatures and the pinned keys

The BLS wrappers of `crypto/bls.h`, the signed data a masternode sends, and the table that pins one
BLS key to each masternode key (`crypto/bls.cpp`).

The curve arithmetic and the hash functions are vendored libraries. They are the fields of `Crypto`,
and every function that reaches one takes the record: what is proved holds whatever they compute,
and what is assumed of them is a hypothesis of the theorem that needs it.
-/

namespace KristaTech

/-- A G1 public key: 48 bytes, and a flag that deserialization always sets. -/
structure CBLSPubKey where
  data : Bytes
  fValid : Bool
  size_data : data.length = 48
  deriving DecidableEq, Repr

/-- A G2 signature: 96 bytes, and a flag that deserialization always sets. -/
structure CBLSSignature where
  data : Bytes
  fValid : Bool
  size_data : data.length = 96
  deriving DecidableEq, Repr

/-- The vendored primitives: hashing and signature verification. -/
structure Crypto where
  /-- `Hash`, the double SHA-256 of a byte string. -/
  hash : Bytes → Uint256
  sha256 : Bytes → Uint256
  sha1 : Bytes → Uint160
  ripemd160 : Bytes → Uint160
  /-- The hash of a block header, as a function of the bytes that are hashed. -/
  headerHash : Bytes → Uint256
  /-- The secp256k1 check behind `CPubKey::Verify`. -/
  ecdsaVerify : Bytes → Uint256 → Bytes → Bool
  /-- `CPubKey::CheckLowS`. -/
  checkLowS : Bytes → Bool
  /-- `CXOnlyPubKey::VerifySchnorr`. -/
  verifySchnorr : Bytes → Uint256 → Bytes → Bool
  /-- `CXOnlyPubKey::CheckTapTweak` of the output key, the internal key, the root and the parity. -/
  checkTapTweak : Bytes → Bytes → Uint256 → Bool → Bool
  /-- The pairing check behind `CBLSSignature::Verify`. -/
  coreVerify : Bytes → Uint256 → Bytes → Bool
  /-- `CBLSPubKey::Aggregate`. -/
  aggregatePubKeys : List CBLSPubKey → CBLSPubKey
  /-- `CBLSSignature::Aggregate`. -/
  aggregateSignatures : List CBLSSignature → CBLSSignature

/-- A stand-in for the primitives, to run the model with: a polynomial hash, and signature checks
that pass. -/
instance : Inhabited Crypto where
  default :=
    let polyHash (bs : Bytes) : ℕ := bs.foldl (fun h b ↦ (257 * h + b.toNat + 1) % 2 ^ 128) 0
    { hash := fun bs ↦ BitVec.ofNat 256 (polyHash bs)
      sha256 := fun bs ↦ BitVec.ofNat 256 (polyHash bs)
      sha1 := fun bs ↦ BitVec.ofNat 160 (polyHash bs)
      ripemd160 := fun bs ↦ BitVec.ofNat 160 (polyHash bs)
      headerHash := fun bs ↦ BitVec.ofNat 256 (polyHash bs)
      ecdsaVerify := fun _ _ _ ↦ true
      checkLowS := fun _ ↦ true
      verifySchnorr := fun _ _ _ ↦ true
      checkTapTweak := fun _ _ _ _ ↦ true
      coreVerify := fun _ _ _ ↦ true
      aggregatePubKeys := fun pks ↦ pks.headD ⟨List.replicate 48 0, false, by decide⟩
      aggregateSignatures := fun sigs ↦ sigs.headD ⟨List.replicate 96 0, false, by decide⟩ }

/-- `Hash160`. -/
def Crypto.hash160 (C : Crypto) (bs : Bytes) : Uint160 := C.ripemd160 (C.sha256 bs).toBytes

/-- `CPubKey::GetID`. -/
def CPubKey.getID (C : Crypto) (k : CPubKey) : Uint160 := C.hash160 k.bytes

/-- `CPubKey::Verify`. -/
def CPubKey.verify (C : Crypto) (k : CPubKey) (hash : Uint256) (vchSig : Bytes) : Bool :=
  k.isValid && C.ecdsaVerify k.bytes hash vchSig

/-- `CBLSSignature::Verify`. -/
def CBLSSignature.verify (C : Crypto) (sig : CBLSSignature) (pk : CBLSPubKey) (hash : Uint256) :
    Bool :=
  sig.fValid && pk.fValid && C.coreVerify pk.data hash sig.data

/-! ### Signed data -/

/-- A BLS signature with the BLS key it is for, and the masternode key's signature of that key. -/
structure CBLSSignedData where
  blsPubKey : CBLSPubKey
  blsSig : CBLSSignature
  ecdsaSig : Bytes
  deriving DecidableEq, Repr

namespace CBLSSignedData

theorem length_of_readBytes {n : ℕ} {s bs rest : Bytes}
    (h : Reader.readBytes n s = some (bs, rest)) : bs.length = n := by
  unfold Reader.readBytes at h
  split at h
  · simp only [Option.some.injEq, Prod.mk.injEq] at h
    rw [← h.1, List.length_take]
    omega
  · simp at h

/-- `FLATDATA` of a key: the validity flag is set by every read. -/
def readBLSPubKey : Reader CBLSPubKey := fun s ↦
  match h : Reader.readBytes 48 s with
  | some (bs, rest) => some (⟨bs, true, length_of_readBytes h⟩, rest)
  | none => none

/-- `FLATDATA` of a signature. -/
def readBLSSignature : Reader CBLSSignature := fun s ↦
  match h : Reader.readBytes 96 s with
  | some (bs, rest) => some (⟨bs, true, length_of_readBytes h⟩, rest)
  | none => none

def read : Reader CBLSSignedData := do
  let blsPubKey ← readBLSPubKey
  let blsSig ← readBLSSignature
  let ecdsaSig ← Reader.readByteVector
  return ⟨blsPubKey, blsSig, ecdsaSig⟩

/-- `ss >> signedData` on a whole byte string; what follows the data is not looked at. -/
def parse (vchSig : Bytes) : Option CBLSSignedData := (read vchSig).map Prod.fst

end CBLSSignedData

/-- `ExtractBLSPubKeyFromSignedData`. -/
def extractBLSPubKeyFromSignedData (vchSig : Bytes) : Option CBLSPubKey := do
  guard (!vchSig.isEmpty)
  let signedData ← CBLSSignedData.parse vchSig
  guard (signedData.blsPubKey.fValid && signedData.blsSig.fValid)
  return signedData.blsPubKey

/-- `VerifySelfContainedBLSSignedData`: the BLS key inside signed the hash; whose key it is, is not
asked. -/
def verifySelfContainedBLSSignedData (C : Crypto) (hash : Uint256) (vchSig : Bytes) :
    Option CBLSPubKey := do
  guard (!vchSig.isEmpty)
  let signedData ← CBLSSignedData.parse vchSig
  guard (signedData.blsPubKey.fValid && signedData.blsSig.fValid && !signedData.ecdsaSig.isEmpty)
  guard (signedData.blsSig.verify C signedData.blsPubKey hash)
  return signedData.blsPubKey

/-! ### The pinned keys -/

/-- `g_mapPinnedBLSPubKeys`: the BLS key of a masternode key and the height that pinned it. -/
abbrev PinnedBLSPubKeys := Std.ExtTreeMap CPubKey (CBLSPubKey × ℤ)

namespace PinnedBLSPubKeys

/-- `GetPinnedBLSPubKey`. -/
def getPinnedBLSPubKey (pins : PinnedBLSPubKeys) (k : CPubKey) : Option CBLSPubKey :=
  if k.isValid then
    match pins[k]? with
    | some (pk, _) => if pk.fValid then some pk else none
    | none => none
  else none

/-- `PinBLSPubKey`: the first pin stays; whether the given key is now the pinned one. -/
def pinBLSPubKey (pins : PinnedBLSPubKeys) (k : CPubKey) (pk : CBLSPubKey) (nHeight : ℤ) :
    Bool × PinnedBLSPubKeys :=
  if !k.isValid || !pk.fValid then (false, pins)
  else
    match pins[k]? with
    | some (old, _) => (decide (old = pk), pins)
    | none => (true, pins.insert k (pk, nHeight))

/-- `UnpinBLSPubKeysAtHeight`. -/
def unpinBLSPubKeysAtHeight (pins : PinnedBLSPubKeys) (nHeight : ℤ) : PinnedBLSPubKeys :=
  pins.filter fun _ pin ↦ decide (pin.2 ≠ nHeight)

end PinnedBLSPubKeys

/-- `VerifyBLSWithECDSAFallback`: the signed data carries a BLS key that the masternode key signed
and that is the pinned one where there is a pin, and the BLS key signed the hash. -/
def verifyBLSWithECDSAFallback (C : Crypto) (pins : PinnedBLSPubKeys) (hash : Uint256)
    (ecdsaPubKey : CPubKey) (vchSig : Bytes) : Bool :=
  !vchSig.isEmpty && ecdsaPubKey.isValid &&
    match CBLSSignedData.parse vchSig with
    | none => false
    | some signedData =>
      signedData.blsPubKey.fValid && signedData.blsSig.fValid &&
        ecdsaPubKey.verify C (C.hash signedData.blsPubKey.data) signedData.ecdsaSig &&
        ((pins.getPinnedBLSPubKey ecdsaPubKey).all (signedData.blsPubKey == ·)) &&
        signedData.blsSig.verify C signedData.blsPubKey hash

theorem verifyBLSWithECDSAFallback_eq_true_iff {C : Crypto} {pins : PinnedBLSPubKeys} {hash : Uint256}
    {k : CPubKey} {vchSig : Bytes} :
    verifyBLSWithECDSAFallback C pins hash k vchSig = true ↔
      vchSig ≠ [] ∧ k.isValid = true ∧ ∃ d, CBLSSignedData.parse vchSig = some d ∧
        d.blsPubKey.fValid = true ∧ d.blsSig.fValid = true ∧
        k.verify C (C.hash d.blsPubKey.data) d.ecdsaSig = true ∧
        (∀ pk, pins.getPinnedBLSPubKey k = some pk → d.blsPubKey = pk) ∧
        C.coreVerify d.blsPubKey.data hash d.blsSig.data = true := by
  cases hparse : CBLSSignedData.parse vchSig with
  | none => simp [verifyBLSWithECDSAFallback, hparse]
  | some d =>
    simp only [verifyBLSWithECDSAFallback, hparse, CBLSSignature.verify, Bool.and_eq_true,
      Bool.not_eq_true', List.isEmpty_eq_false_iff, Option.all_eq_true, beq_iff_eq,
      Option.some.injEq, exists_eq_left', and_assoc]
    tauto

end KristaTech
