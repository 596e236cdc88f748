import KristaTech.Adam.Solution
import KristaTech.Adam.Seed

/-!
# Tickets of a validator

The rank of a validator is decided by its ticket, the hash of its BLS key and of the BLS signature in
its solution. The signature is one of the puzzle hash, and the puzzle hash depends on the nonce,
which the validator picks. So it has one ticket for each puzzle hash that meets the target, and one
ticket altogether exactly when there is one such hash (`oneTicket_iff`).
-/

namespace KristaTech.Adam

/-- What is fixed while a validator looks for a solution. -/
structure Puzzle where
  pins : PinnedBLSPubKeys
  hashPrevBlock : Uint256
  hashAdamSeed : Uint256
  minerKey : CPubKey
  nBits : UInt32
  nHeight : ℤ
  knownMinerIdx : ℤ

namespace Puzzle

variable (X : SolutionEnv) (P : Puzzle)

/-- `VerifyAdamSolution` of a solution in a block of version 12. -/
def accepts (vchSolution : Bytes) : Bool :=
  verifyAdamSolution X P.pins P.hashPrevBlock P.hashAdamSeed P.minerKey vchSolution P.nBits 12
    P.nHeight P.knownMinerIdx

def ticket (vchSolution : Bytes) : Option Uint256 :=
  extractPoBLSTicketFromSolution X.crypto P.pins vchSolution P.nHeight P.minerKey

def OneTicket : Prop :=
  ∀ vchSolution vchSolution', P.accepts X vchSolution = true → P.accepts X vchSolution' = true →
    P.ticket X vchSolution = P.ticket X vchSolution'

/-- A puzzle hash that a nonce gives and that meets the target. -/
def Winning (hash : Uint256) : Prop :=
  ∃ nNonce < 2 ^ 32, puzzleHash X P.hashPrevBlock P.hashAdamSeed P.minerKey 12 P.nHeight
      P.knownMinerIdx nNonce = some hash ∧
    meetsTarget X P.hashPrevBlock P.nBits 12 P.nHeight hash = true

/-- The validator's BLS key is pinned and is a key of a sound scheme: a message has one signature, no
two messages share one, and every message can be signed. The validator has authorised the key, and
the tickets do not collide. -/
structure SoundKey (pk : CBLSPubKey) : Prop where
  pinned : P.pins.getPinnedBLSPubKey P.minerKey = some pk
  unique : ∀ hash sig sig', X.crypto.coreVerify pk.data hash sig = true →
    X.crypto.coreVerify pk.data hash sig' = true → sig = sig'
  binding : ∀ hash hash' sig, X.crypto.coreVerify pk.data hash sig = true →
    X.crypto.coreVerify pk.data hash' sig = true → hash = hash'
  signs : ∀ hash, ∃ sig : CBLSSignature, sig.fValid = true ∧
    X.crypto.coreVerify pk.data hash sig.data = true
  authorised : ∃ ecdsaSig : Bytes, ecdsaSig.length ≤ 72 ∧
    P.minerKey.verify X.crypto (X.crypto.hash pk.data) ecdsaSig = true
  tickets : ∀ (hash hash' : Uint256) (sig sig' : CBLSSignature), P.Winning X hash → P.Winning X hash' →
    X.crypto.coreVerify pk.data hash sig.data = true →
    X.crypto.coreVerify pk.data hash' sig'.data = true →
    computePoBLSTicket X.crypto pk sig P.nHeight = computePoBLSTicket X.crypto pk sig' P.nHeight →
    sig.data = sig'.data

variable {X P} {pk : CBLSPubKey}
variable {vchSolution : Bytes}

theorem ticket_eq {vchSig : Bytes} {nNonce : ℕ} {d : CBLSSignedData}
    (hread : readSolution vchSolution = some (nNonce, vchSig)) (hsigned : vchSig ≠ [])
    (hkey : P.minerKey.isValid = true) (hparse : CBLSSignedData.parse vchSig = some d)
    (hpkValid : d.blsPubKey.fValid = true) (hsigValid : d.blsSig.fValid = true)
    (hauth : P.minerKey.verify X.crypto (X.crypto.hash d.blsPubKey.data) d.ecdsaSig = true)
    (hpin : P.pins.getPinnedBLSPubKey P.minerKey = some d.blsPubKey) : P.ticket X vchSolution =
      some (computePoBLSTicket X.crypto d.blsPubKey d.blsSig P.nHeight) := by
  have hempty : vchSolution.isEmpty = false := by
    cases vchSolution with
    | nil => cases hread
    | cons => rfl
  simp [ticket, extractPoBLSTicketFromSolution, parseSolution_eq, hread, hempty, hsigned, hparse,
    hpkValid, hsigValid, hkey, hauth, hpin]

theorem exists_of_accepts (hpin : P.pins.getPinnedBLSPubKey P.minerKey = some pk)
    (h : P.accepts X vchSolution = true) : ∃ hash, ∃ sig : CBLSSignature, P.Winning X hash ∧
      X.crypto.coreVerify pk.data hash sig.data = true ∧
      P.ticket X vchSolution = some (computePoBLSTicket X.crypto pk sig P.nHeight) := by
  obtain ⟨nNonce, vchSig, hash, hread, hhash, hverify, hmeets⟩ := verifyAdamSolution_eq_true_iff.1 h
  obtain ⟨hsigned, hkey, d, hparse, hpkValid, hsigValid, hauth, hpinned, hcore⟩ :=
    verifyBLSWithECDSAFallback_eq_true_iff.1 hverify
  obtain rfl := hpinned pk hpin
  refine ⟨hash, d.blsSig, ⟨nNonce, nNonce_lt hread, hhash, hmeets⟩, hcore, ?_⟩
  exact ticket_eq hread hsigned hkey hparse hpkValid hsigValid hauth hpin

theorem fValid_of_getPinnedBLSPubKey {pins : PinnedBLSPubKeys} {k : CPubKey}
    (h : pins.getPinnedBLSPubKey k = some pk) : pk.fValid = true := by
  simp only [PinnedBLSPubKeys.getPinnedBLSPubKey] at h
  split_ifs at h with hk
  split at h
  · split_ifs at h with hvalid
    exact Option.some.inj h ▸ hvalid
  · cases h

/-- A solution of a nonce, with the given signature and authorisation. -/
def solution (nNonce : ℕ) (pk : CBLSPubKey) (sig : CBLSSignature) (ecdsaSig : Bytes) : Bytes :=
  Reader.natToLE 4 nNonce ++ Writer.byteVector (CBLSSignedData.serialize ⟨pk, sig, ecdsaSig⟩)

theorem exists_accepts_of_winning (hK : P.SoundKey X pk) {hash : Uint256} (h : P.Winning X hash) :
    ∃ vchSolution, ∃ sig : CBLSSignature, P.accepts X vchSolution = true ∧
      X.crypto.coreVerify pk.data hash sig.data = true ∧
      P.ticket X vchSolution = some (computePoBLSTicket X.crypto pk sig P.nHeight) := by
  obtain ⟨nNonce, hNonce, hhash, hmeets⟩ := h
  obtain ⟨sig, hsigValid, hcore⟩ := hK.signs hash
  obtain ⟨ecdsaSig, hsize, hauth⟩ := hK.authorised
  have hpkValid : pk.fValid = true := fValid_of_getPinnedBLSPubKey hK.pinned
  have hmax : Reader.maxSize = 33554432 := rfl
  set d : CBLSSignedData := ⟨pk, sig, ecdsaSig⟩
  have hlength : d.serialize.length ≤ Reader.maxSize := by
    have hcompact : (Writer.compactSize ecdsaSig.length).length = 1 := by
      rw [Writer.compactSize, if_pos (by omega)]
      rfl
    simp only [CBLSSignedData.serialize, Writer.byteVector, List.length_append, pk.size_data,
      sig.size_data, hcompact, d]
    omega
  have hparse : CBLSSignedData.parse d.serialize = some d := by
    have hparse := CBLSSignedData.parse_serialize_append (show d.blsPubKey.fValid = true from hpkValid)
      hsigValid (by simp only [d]; omega) []
    rwa [List.append_nil] at hparse
  have hsigned : d.serialize ≠ [] := by
    intro hnil
    have hdata := pk.size_data
    simp [CBLSSignedData.serialize, d] at hnil
    simp [hnil] at hdata
  have hkey : P.minerKey.isValid = true := (Bool.and_eq_true_iff.1 hauth).1
  have hread := readSolution_append hNonce hlength
  have hverify : verifyBLSWithECDSAFallback X.crypto P.pins hash P.minerKey d.serialize = true := by
    refine verifyBLSWithECDSAFallback_eq_true_iff.2
      ⟨hsigned, hkey, d, hparse, hpkValid, hsigValid, hauth, fun pk' hpk' ↦ ?_, hcore⟩
    exact Option.some.inj (hK.pinned.symm.trans hpk')
  refine ⟨solution nNonce pk sig ecdsaSig, sig, ?_, hcore, ?_⟩
  · exact verifyAdamSolution_eq_true_iff.2 ⟨nNonce, d.serialize, hash, hread, hhash, hverify, hmeets⟩
  · exact ticket_eq hread hsigned hkey hparse hpkValid hsigValid hauth hK.pinned

/-- **One ticket exactly if there is one winning hash.** -/
theorem oneTicket_iff (hK : P.SoundKey X pk) :
    P.OneTicket X ↔ ∀ hash hash', P.Winning X hash → P.Winning X hash' → hash = hash' := by
  constructor
  · intro hone hash hash' hwin hwin'
    obtain ⟨v, sig, haccepts, hcore, hticket⟩ := exists_accepts_of_winning hK hwin
    obtain ⟨v', sig', haccepts', hcore', hticket'⟩ := exists_accepts_of_winning hK hwin'
    have heq := hone v v' haccepts haccepts'
    rw [hticket, hticket', Option.some.injEq] at heq
    have hsig := hK.tickets hash hash' sig sig' hwin hwin' hcore hcore' heq
    exact hK.binding hash hash' sig.data hcore (hsig ▸ hcore')
  · intro hone v v' haccepts haccepts'
    obtain ⟨hash, sig, hwin, hcore, hticket⟩ := exists_of_accepts hK.pinned haccepts
    obtain ⟨hash', sig', hwin', hcore', hticket'⟩ := exists_of_accepts hK.pinned haccepts'
    obtain rfl := hone hash hash' hwin hwin'
    rw [hticket, hticket', computePoBLSTicket, computePoBLSTicket,
      hK.unique hash sig.data sig'.data hcore hcore']

end Puzzle

/-! ### Two tickets of one validator -/

section Example

/-- A toy in which the puzzle hash is the nonce and hashes up to 1 win. -/
def nonceEnv : SolutionEnv where
  crypto := uniqueCrypto
  calculateAdamPuzzleHash _ data :=
    if data.length = 32 then Uint256.ofBytes data
    else BitVec.ofNat 256 (Reader.leToNat (data.drop (data.length - 4)))
  selectAdamNodes _ _ := none
  heightAfter _ := 0
  powLimit := 1
  nAdamDifficultyShiftV1 := 0
  nAdamDifficultyShiftV2 := 0
  isAdamV2Active _ := false
  isModelDActive _ := false
  isRegTestNet := false

def noncePuzzle : Puzzle where
  pins := coordinatorPins
  hashPrevBlock := 3
  hashAdamSeed := 5
  minerKey := coordinatorKey
  nBits := 0x01010000
  nHeight := 2500
  knownMinerIdx := 0

def hashSig (hash : Uint256) : CBLSSignature :=
  ⟨coordinatorBLSKey.data ++ hash.toBytes ++ List.replicate 16 0, true, by
    simp [Uint256.toBytes, coordinatorBLSKey]⟩

/-- The solution with the given nonce, which is also its puzzle hash. -/
def nonceSolution (nNonce : ℕ) : Bytes :=
  Puzzle.solution nNonce coordinatorBLSKey (hashSig (BitVec.ofNat 256 nNonce)) [1]

/-- **Two tickets.** The solutions with the nonces 0 and 1 are both accepted, and their tickets
differ. -/
theorem two_tickets : noncePuzzle.pins.getPinnedBLSPubKey noncePuzzle.minerKey = some coordinatorBLSKey ∧
      noncePuzzle.accepts nonceEnv (nonceSolution 0) = true ∧
      noncePuzzle.accepts nonceEnv (nonceSolution 1) = true ∧
      noncePuzzle.ticket nonceEnv (nonceSolution 0) ≠ noncePuzzle.ticket nonceEnv (nonceSolution 1) := by
  decide +kernel

theorem eq_of_winning_nonceEnv {hash : Uint256} (h : noncePuzzle.Winning nonceEnv hash) :
    hash = 0 ∨ hash = 1 := by
  obtain ⟨-, -, -, hmeets⟩ := h
  have htarget : puzzleTarget nonceEnv noncePuzzle.hashPrevBlock noncePuzzle.nBits 12
      noncePuzzle.nHeight = some 1 := by decide
  have hreg : nonceEnv.isRegTestNet = false := rfl
  have hle : hash ≤ 1 := by simpa [meetsTarget, htarget, hreg] using hmeets
  have hnat : hash.toNat ≤ 1 := hle
  rcases Nat.le_one_iff_eq_zero_or_eq_one.1 hnat with h | h
  · exact Or.inl (BitVec.eq_of_toNat_eq h)
  · exact Or.inr (BitVec.eq_of_toNat_eq h)

theorem coordinatorKey_sound : noncePuzzle.SoundKey nonceEnv coordinatorBLSKey where
  pinned := by decide
  unique hash sig sig' h h' := (beq_iff_eq.1 h).trans (beq_iff_eq.1 h').symm
  binding hash hash' sig h h' := by
    have heq := (beq_iff_eq.1 h).symm.trans (beq_iff_eq.1 h')
    rw [List.append_assoc, List.append_assoc, List.append_cancel_left_eq,
      List.append_cancel_right_eq] at heq
    exact Uint256.toBytes_injective heq
  signs hash := ⟨hashSig hash, rfl, beq_iff_eq.2 rfl⟩
  authorised := ⟨[1], by decide, by decide⟩
  tickets hash hash' sig sig' hwin hwin' h h' heq := by
    have hsig := beq_iff_eq.1 h
    have hsig' := beq_iff_eq.1 h'
    have hdiffer : computePoBLSTicket nonceEnv.crypto coordinatorBLSKey (hashSig 0) 2500 ≠
        computePoBLSTicket nonceEnv.crypto coordinatorBLSKey (hashSig 1) 2500 := by decide +kernel
    rw [hsig, hsig']
    simp only [computePoBLSTicket, hsig, hsig'] at heq
    obtain rfl | rfl := eq_of_winning_nonceEnv hwin <;>
      obtain rfl | rfl := eq_of_winning_nonceEnv hwin'
    · rfl
    · exact absurd heq hdiffer
    · exact absurd heq.symm hdiffer
    · rfl

/-- The general statement for this puzzle. -/
theorem oneTicket_noncePuzzle_iff :
    noncePuzzle.OneTicket nonceEnv ↔ ∀ hash hash', noncePuzzle.Winning nonceEnv hash →
      noncePuzzle.Winning nonceEnv hash' → hash = hash' :=
  Puzzle.oneTicket_iff coordinatorKey_sound

end Example

end KristaTech.Adam
