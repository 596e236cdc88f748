import KristaTech.Library.EarlyExit
import KristaTech.Library.Majority
import KristaTech.Primitives.Bls

/-!
# Quorum certificates

`CQuorumSignature::Verify` of `llmq.cpp`. A certificate is a list of shares, one for each signing
member, over one block hash; it is accepted when every share is good, no member occurs twice, and
the shares reach the threshold, a clamped majority of the members.

`SharesGood` is what the loop over the shares establishes, as a property of the certificate and
without the loop's bookkeeping. `exists_common_member` is the agreement half: two accepted
certificates for one quorum name a common member, for every quorum size.
-/

namespace KristaTech.Llmq

open List

structure CQuorumMember where
  collateralOutpoint : COutPoint
  pubKeyMasternode : CPubKey
  deriving DecidableEq, Repr

/-- A quorum. Its height, hash and aggregate key play no part in checking a certificate. -/
structure CQuorum where
  members : List CQuorumMember
  deriving DecidableEq, Repr

structure CQuorumSignature where
  blockHash : Uint256
  /-- Member outpoint and signature bytes. -/
  signatures : List (COutPoint × Bytes)
  deriving DecidableEq, Repr

variable (C : Crypto) (pins : PinnedBLSPubKeys)

/-! ### The check -/

/-- The majority of the members, at least two, and never more than there are members. -/
def CQuorum.threshold (quorum : CQuorum) : ℕ :=
  min quorum.members.length (max 2 (quorum.members.length / 2 + 1))

/-- The member with a given outpoint: the first one listed. -/
def CQuorum.findMember (quorum : CQuorum) (o : COutPoint) : Option CQuorumMember :=
  quorum.members.find? fun m ↦ m.collateralOutpoint == o

/-- One share, checked against its member's key: the signed data parses, its BLS key is the pinned
one where there is a pin, the member's key signed the BLS key, and the BLS key signed the block. -/
def verifyShare (memberPubKey : CPubKey) (blockHash : Uint256) (sig : Bytes) : Option CBLSSignedData := do
  let signedData ← CBLSSignedData.parse sig
  guard (signedData.blsPubKey.fValid && signedData.blsSig.fValid)
  guard ((pins.getPinnedBLSPubKey memberPubKey).all (· == signedData.blsPubKey))
  guard (memberPubKey.verify C (C.hash signedData.blsPubKey.data) signedData.ecdsaSig &&
    signedData.blsSig.verify C signedData.blsPubKey blockHash)
  return signedData

/-- What the loop over the shares carries: the members already counted and what they signed. -/
structure VerifiedShares where
  verifiedMembers : List COutPoint
  signedData : List CBLSSignedData

/-- One turn of the loop. Every fault rejects the whole certificate. -/
def verifyNext (quorum : CQuorum) (blockHash : Uint256) (acc : VerifiedShares)
    (sigPair : COutPoint × Bytes) : Option VerifiedShares := do
  guard (!sigPair.2.isEmpty && sigPair.2.length ≤ 512)
  let member ← quorum.findMember sigPair.1
  guard member.pubKeyMasternode.isValid
  -- a member who signed twice is not counted once: the certificate is refused
  guard (!acc.verifiedMembers.contains sigPair.1)
  let signedData ← verifyShare C pins member.pubKeyMasternode blockHash sigPair.2
  return ⟨sigPair.1 :: acc.verifiedMembers, signedData :: acc.signedData⟩

/-- `CQuorumSignature::Verify`. -/
def CQuorumSignature.verify (qsig : CQuorumSignature) (quorum : CQuorum) : Bool :=
  if quorum.members.isEmpty || qsig.signatures.isEmpty || 32 < qsig.signatures.length then false
  else
    match qsig.signatures.foldlM (verifyNext C pins quorum qsig.blockHash) ⟨[], []⟩ with
    | none => false
    | some acc =>
      if acc.signedData.length < quorum.threshold then false
      else
        let signedData := acc.signedData.reverse
        let aggPubKey := C.aggregatePubKeys (signedData.map (·.blsPubKey))
        let aggSig := C.aggregateSignatures (signedData.map (·.blsSig))
        aggPubKey.fValid && aggSig.fValid && aggSig.verify C aggPubKey qsig.blockHash

/-! ### What acceptance says -/

theorem CQuorum.members_length_lt_two_mul_threshold (quorum : CQuorum)
    (h : quorum.members ≠ []) : quorum.members.length < 2 * quorum.threshold := by
  have hpos := length_pos_iff.mpr h
  unfold CQuorum.threshold
  omega

/-- A share is good for a member: its outpoint is the member's, and its signature is valid for the
member's key and the block. -/
structure ShareGood (quorum : CQuorum) (blockHash : Uint256) (sigPair : COutPoint × Bytes)
    (member : CQuorumMember) : Prop where
  find : quorum.findMember sigPair.1 = some member
  verified : (verifyShare C pins member.pubKeyMasternode blockHash sigPair.2).isSome

/-- The shares of a certificate: pairwise different members, each with a good share. -/
structure SharesGood (quorum : CQuorum) (blockHash : Uint256)
    (signatures : List (COutPoint × Bytes)) : Prop where
  nodup : (signatures.map Prod.fst).Nodup
  good : ∀ sigPair ∈ signatures, ∃ member, ShareGood C pins quorum blockHash sigPair member

variable {C pins}
variable {quorum : CQuorum} {blockHash : Uint256} {sigPair : COutPoint × Bytes}
  {member : CQuorumMember} {acc : VerifiedShares} {signatures : List (COutPoint × Bytes)}
  {qsig : CQuorumSignature}

theorem ShareGood.mem (h : ShareGood C pins quorum blockHash sigPair member) : member ∈ quorum.members :=
  mem_of_find?_eq_some h.find

theorem ShareGood.outpoint (h : ShareGood C pins quorum blockHash sigPair member) :
    member.collateralOutpoint = sigPair.1 := by
  simpa using find?_some h.find

theorem verifyNext_eq_some {acc' : VerifiedShares}
    (h : verifyNext C pins quorum blockHash acc sigPair = some acc') :
    sigPair.1 ∉ acc.verifiedMembers ∧ acc'.verifiedMembers = sigPair.1 :: acc.verifiedMembers ∧
      acc'.signedData.length = acc.signedData.length + 1 ∧
      ∃ member, ShareGood C pins quorum blockHash sigPair member := by
  simp only [verifyNext, Option.bind_eq_bind, Option.bind_eq_some_iff, Option.pure_def,
    Option.some.injEq, guard_eq_some_iff] at h
  obtain ⟨-, -, member, hmember, -, -, -, hnew, signedData, hshare, rfl⟩ := h
  exact ⟨by simpa using hnew, rfl, rfl, member, hmember, by simp [hshare]⟩

/-- The loop accepts only good shares of pairwise different members, and counts them all. -/
theorem sharesGood_of_foldlM
    (h : signatures.foldlM (verifyNext C pins quorum blockHash) ⟨[], []⟩ = some acc) :
    SharesGood C pins quorum blockHash signatures ∧ acc.signedData.length = signatures.length := by
  -- the members counted so far are those of the shares consumed so far, last one first
  have key := foldlM_option_invariant (motive := fun done acc ↦ SharesGood C pins quorum blockHash done ∧
      acc.verifiedMembers = (done.map Prod.fst).reverse ∧ acc.signedData.length = done.length)
    ⟨⟨by simp, by simp⟩, rfl, rfl⟩ ?_ h
  · exact ⟨key.1, key.2.2⟩
  rintro done sigPair acc acc' - ⟨hgood, hmembers, hlength⟩ hnext
  obtain ⟨hnew, hmembers', hlength', hshare⟩ := verifyNext_eq_some hnext
  rw [hmembers, mem_reverse] at hnew
  refine ⟨⟨?_, ?_⟩, ?_, ?_⟩
  · rw [map_append, nodup_append]
    refine ⟨hgood.nodup, by simp, ?_⟩
    rintro o ho _ ho' rfl
    exact hnew (by simp_all)
  · intro p hp
    rcases mem_append.mp hp with hp | hp
    · exact hgood.good p hp
    · rw [mem_singleton.mp hp]
      exact hshare
  · simp [hmembers', hmembers]
  · simp [hlength', hlength]

/-- **What an accepted certificate is**: good shares of pairwise different members, more than half
of all the members. -/
theorem sharesGood_of_verify (h : qsig.verify C pins quorum = true) :
    SharesGood C pins quorum qsig.blockHash qsig.signatures ∧
      quorum.members.length < 2 * qsig.signatures.length := by
  unfold CQuorumSignature.verify at h
  split at h
  · simp at h
  rename_i hempty
  split at h
  · simp at h
  rename_i acc hacc
  obtain ⟨hgood, hlength⟩ := sharesGood_of_foldlM hacc
  split at h
  · simp at h
  rename_i hthreshold
  have hne : quorum.members ≠ [] := by
    rintro hnil
    simp [hnil] at hempty
  have hmajority := quorum.members_length_lt_two_mul_threshold hne
  exact ⟨hgood, by omega⟩

/-! ### Two certificates meet -/

theorem SharesGood.subset (h : SharesGood C pins quorum blockHash signatures) :
    signatures.map Prod.fst ⊆ quorum.members.map CQuorumMember.collateralOutpoint := by
  intro o ho
  obtain ⟨sigPair, hmem, rfl⟩ := mem_map.mp ho
  obtain ⟨member, hshare⟩ := h.good sigPair hmem
  exact mem_map.mpr ⟨member, hshare.mem, hshare.outpoint⟩

/-- **Two accepted certificates name a common member**, and each holds a share that is good for it,
whatever the quorum's size and whatever keys were pinned when each was checked. -/
theorem exists_common_member {pins' : PinnedBLSPubKeys} {qsig' : CQuorumSignature}
    (h : qsig.verify C pins quorum = true) (h' : qsig'.verify C pins' quorum = true) :
    ∃ member ∈ quorum.members, ∃ sigPair ∈ qsig.signatures, ∃ sigPair' ∈ qsig'.signatures,
      ShareGood C pins quorum qsig.blockHash sigPair member ∧
      ShareGood C pins' quorum qsig'.blockHash sigPair' member := by
  obtain ⟨hgood, hlength⟩ := sharesGood_of_verify h
  obtain ⟨hgood', hlength'⟩ := sharesGood_of_verify h'
  obtain ⟨o, ho, ho'⟩ := exists_mem_of_length_lt_add hgood.nodup hgood'.nodup hgood.subset
    hgood'.subset (by simp only [length_map]; omega)
  obtain ⟨sigPair, hmem, rfl⟩ := mem_map.mp ho
  obtain ⟨sigPair', hmem', heq⟩ := mem_map.mp ho'
  obtain ⟨member, hshare⟩ := hgood.good sigPair hmem
  obtain ⟨member', hshare'⟩ := hgood'.good sigPair' hmem'
  -- a member is looked up by outpoint alone, so both shares are for the same one
  have hsame : some member = some member' := by rw [← hshare.find, ← hshare'.find, heq]
  cases hsame
  exact ⟨member, hshare.mem, sigPair, hmem, sigPair', hmem', hshare, hshare'⟩

end KristaTech.Llmq
