import KristaTech.Primitives.RoundTrip

/-!
# The rolling seed

The seed of the next election is the hash of the last one and of the coordinator's proof, a BLS
signature of the last seed (`ComputeNextAdamSeed`, `VerifyAdamVRFProof` of `adam.cpp`). The proof is
signed data: the ECDSA signature in it can be altered without being invalid, and bytes may follow.
Neither is hashed. With a pinned key and unique BLS signatures the coordinator has no choice
(`computeNextAdamSeed_unique`).
-/

namespace KristaTech.Adam

variable (C : Crypto) (pins : PinnedBLSPubKeys)

/-- `ComputeNextAdamSeed`: the whole proof is hashed if it cannot be read. -/
def computeNextAdamSeed (prevSeed : Uint256) (vAdamVRFProof : Bytes) : Uint256 :=
  let unread := C.hash (prevSeed.toBytes ++ Writer.byteVector vAdamVRFProof)
  if vAdamVRFProof.isEmpty then unread
  else
    match CBLSSignedData.parse vAdamVRFProof with
    | none => unread
    | some signedData =>
      if signedData.blsPubKey.fValid && signedData.blsSig.fValid then
        C.hash (prevSeed.toBytes ++ signedData.blsPubKey.data ++ signedData.blsSig.data)
      else unread

/-- `VerifyAdamVRFProof`. -/
def verifyAdamVRFProof (prevSeed : Uint256) (vchProof : Bytes) (coordinatorKey : CPubKey) : Bool :=
  !vchProof.isEmpty && verifyBLSWithECDSAFallback C pins prevSeed coordinatorKey vchProof

variable {C pins}

theorem computeNextAdamSeed_of_verify {prevSeed : Uint256} {vchProof : Bytes} {k : CPubKey}
    {pk : CBLSPubKey} (hpin : pins.getPinnedBLSPubKey k = some pk)
    (h : verifyAdamVRFProof C pins prevSeed vchProof k = true) :
    ∃ sig, C.coreVerify pk.data prevSeed sig = true ∧
      computeNextAdamSeed C prevSeed vchProof = C.hash (prevSeed.toBytes ++ pk.data ++ sig) := by
  rw [verifyAdamVRFProof, Bool.and_eq_true, Bool.not_eq_true'] at h
  obtain ⟨hempty, h⟩ := h
  obtain ⟨-, -, d, hparse, hkey, hsig, -, hpinned, hcore⟩ :=
    verifyBLSWithECDSAFallback_eq_true_iff.1 h
  obtain rfl := hpinned pk hpin
  refine ⟨d.blsSig.data, hcore, ?_⟩
  simp [computeNextAdamSeed, hempty, hparse, hkey, hsig]

/-- **The seed cannot be ground.** Two proofs that verify for one seed and one coordinator, whose BLS
key is pinned, give the same next seed. -/
theorem computeNextAdamSeed_unique
    (hunique : ∀ (pk : Bytes) (hash : Uint256) (sig sig' : Bytes), C.coreVerify pk hash sig = true →
      C.coreVerify pk hash sig' = true → sig = sig')
    {prevSeed : Uint256} {coordinatorKey : CPubKey} {pk : CBLSPubKey}
    (hpin : pins.getPinnedBLSPubKey coordinatorKey = some pk) {vchProof vchProof' : Bytes}
    (h : verifyAdamVRFProof C pins prevSeed vchProof coordinatorKey = true)
    (h' : verifyAdamVRFProof C pins prevSeed vchProof' coordinatorKey = true) :
    computeNextAdamSeed C prevSeed vchProof = computeNextAdamSeed C prevSeed vchProof' := by
  obtain ⟨sig, hcore, hseed⟩ := computeNextAdamSeed_of_verify hpin h
  obtain ⟨sig', hcore', hseed'⟩ := computeNextAdamSeed_of_verify hpin h'
  rw [hseed, hseed', hunique pk.data prevSeed sig sig' hcore hcore']

/-! ### Two proofs of one coordinator -/

section Example

/-- A toy scheme with unique signatures: the signature repeats the key and the message. -/
def uniqueCrypto : Crypto :=
  { (default : Crypto) with
    coreVerify := fun pk hash sig ↦ sig == pk ++ hash.toBytes ++ List.replicate 16 0 }

def coordinatorKey : CPubKey := CPubKey.set (2 :: List.replicate 32 7)

def coordinatorBLSKey : CBLSPubKey := ⟨List.replicate 48 9, true, by decide⟩

def coordinatorPins : PinnedBLSPubKeys :=
  (∅ : PinnedBLSPubKeys).insert coordinatorKey (coordinatorBLSKey, 1)

/-- The proof for the seed 5 with the given authorisation, and what may follow it. -/
def seedProof (ecdsaSig trailing : Bytes) : Bytes :=
  coordinatorBLSKey.data ++ (coordinatorBLSKey.data ++ (5 : Uint256).toBytes ++ List.replicate 16 0) ++
    Writer.byteVector ecdsaSig ++ trailing

/-- Two different proofs, one with another authorisation and bytes that follow. -/
theorem computeNextAdamSeed_seedProof : seedProof [1] [] ≠ seedProof [2] [3, 4] ∧
      computeNextAdamSeed uniqueCrypto 5 (seedProof [1] []) =
        computeNextAdamSeed uniqueCrypto 5 (seedProof [2] [3, 4]) := by
  have hunique (pk : Bytes) (hash : Uint256) (sig sig' : Bytes)
      (h : uniqueCrypto.coreVerify pk hash sig = true)
      (h' : uniqueCrypto.coreVerify pk hash sig' = true) : sig = sig' :=
    (beq_iff_eq.1 h).trans (beq_iff_eq.1 h').symm
  have hpin : coordinatorPins.getPinnedBLSPubKey coordinatorKey = some coordinatorBLSKey := by
    decide
  have hproof : verifyAdamVRFProof uniqueCrypto coordinatorPins 5 (seedProof [1] [])
      coordinatorKey = true := by decide +kernel
  have hproof' : verifyAdamVRFProof uniqueCrypto coordinatorPins 5 (seedProof [2] [3, 4])
      coordinatorKey = true := by decide +kernel
  exact ⟨by decide, computeNextAdamSeed_unique hunique hpin hproof hproof'⟩

end Example

end KristaTech.Adam
