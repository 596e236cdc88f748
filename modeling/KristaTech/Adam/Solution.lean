import KristaTech.Primitives.RoundTrip
import KristaTech.Quorum.Rotation

/-!
# ADAM solutions

`VerifyAdamSolution` of `adam.cpp`. A solution is a nonce and signed data. The nonce is hashed with
the seed and the miner's key into the puzzle hash, which has to meet the target, and the miner's BLS
key has to have signed the puzzle hash. From version 12 on the puzzle is a chain of three hash
functions chosen by the previous block and the miner, with the results multiplied by the miner's
place in the election.

The hash functions are vendored, the election is asked through `SolutionEnv`.
-/

namespace KristaTech.Adam

/-- What the check of a solution reads besides its arguments. -/
structure SolutionEnv where
  crypto : Crypto
  /-- `CalculateAdamPuzzleHash` of the algorithm's index and the data. -/
  calculateAdamPuzzleHash : ℕ → Bytes → Uint256
  /-- `SelectAdamNodes` of the seed and the height: the elected miners and the coordinator. -/
  selectAdamNodes : Uint256 → ℤ → Option (List CPubKey × CPubKey)
  /-- The height after the block with this hash, or after the tip if it is not known. -/
  heightAfter : Uint256 → ℤ
  powLimit : Uint256
  nAdamDifficultyShiftV1 : ℕ
  nAdamDifficultyShiftV2 : ℕ
  /-- `NetworkUpgradeActive` of `UPGRADE_ADAM_V2`. -/
  isAdamV2Active : ℤ → Bool
  /-- `NetworkUpgradeActive` of `UPGRADE_MODELD`. -/
  isModelDActive : ℤ → Bool
  isRegTestNet : Bool

/-! ### The puzzle -/

section Puzzle

/-- `ss >> nNonce >> vchSig`. -/
def readSolution (vchSolution : Bytes) : Option (ℕ × Bytes) :=
  (do
    let nNonce ← Reader.readLE 4
    let vchSig ← Reader.readByteVector
    return (nNonce, vchSig) : Reader (ℕ × Bytes)).run' vchSolution

theorem parseSolution_eq (vchSolution : Bytes) :
    parseSolution vchSolution = (readSolution vchSolution).map Prod.snd := by
  simp only [parseSolution, readSolution, StateT.run'_eq, StateT.run_bind, StateT.run_pure]
  cases (Reader.readLE 4).run vchSolution with
  | none => rfl
  | some p =>
    cases hsig : (Reader.readByteVector).run p.2 with
    | none => simp [hsig]
    | some q => simp [hsig]

theorem nNonce_lt {vchSolution vchSig : Bytes} {nNonce : ℕ}
    (h : readSolution vchSolution = some (nNonce, vchSig)) : nNonce < 2 ^ 32 := by
  simp only [readSolution, StateT.run'_eq, StateT.run_bind, StateT.run_pure] at h
  cases hread : (Reader.readLE 4).run vchSolution with
  | none => simp [hread] at h
  | some p =>
    cases hsig : (Reader.readByteVector).run p.2 with
    | none => simp [hread, hsig] at h
    | some q =>
      simp only [hread, hsig, Option.bind_eq_bind, Option.bind_some, Option.map_eq_map,
        Option.pure_def, Option.map_some, Option.some.injEq, Prod.mk.injEq] at h
      exact h.1 ▸ Reader.lt_of_readLE hread

theorem readSolution_append {nNonce : ℕ} (hNonce : nNonce < 2 ^ 32) {vchSig : Bytes}
    (hsize : vchSig.length ≤ Reader.maxSize) :
    readSolution (Reader.natToLE 4 nNonce ++ Writer.byteVector vchSig) = some (nNonce, vchSig) := by
  have hsig := Reader.readByteVector_append hsize []
  rw [List.append_nil] at hsig
  rw [readSolution, StateT.run'_eq, StateT.run, Reader.bind_of_eq_some (Reader.readLE_append hNonce _),
    Reader.bind_of_eq_some hsig]
  rfl

variable (X : SolutionEnv) (hashPrevBlock hashAdamSeed : Uint256) (minerKey : CPubKey)

/-- What is hashed: the seed, the key with its length, and the nonce. -/
def puzzleInput (nNonce : ℕ) : Bytes :=
  hashAdamSeed.toBytes ++ UInt8.ofNat minerKey.size :: minerKey.bytes ++ Reader.natToLE 4 nNonce

/-- `GetAdam3PermutationAlgos`: three different algorithms of 18. -/
def getAdam3PermutationAlgos : ℕ × ℕ × ℕ :=
  let h := X.crypto.hash (hashPrevBlock.toBytes ++ Writer.pubKey minerKey)
  let permIdx := h.toNat % 2 ^ 64 % 4896
  let algo1 := permIdx / 272
  let rem := permIdx % 272
  let algo2 := if algo1 ≤ rem / 16 then rem / 16 + 1 else rem / 16
  let minAlgo := min algo1 algo2
  let maxAlgo := max algo1 algo2
  let algo3 := if minAlgo ≤ rem % 16 then rem % 16 + 1 else rem % 16
  (algo1, algo2, if maxAlgo ≤ algo3 then algo3 + 1 else algo3)

/-- The puzzle hash of version 12, of the miner with this index. -/
def puzzleHash12 (minerIdx nNonce : ℕ) : Uint256 :=
  let (algo1, algo2, algo3) := getAdam3PermutationAlgos X hashPrevBlock minerKey
  let factor := BitVec.ofNat 256 (minerIdx + 1)
  let hash3 := X.calculateAdamPuzzleHash algo3 (puzzleInput hashAdamSeed minerKey nNonce)
  let hash2 := X.calculateAdamPuzzleHash algo2 (hash3 * factor).toBytes
  X.calculateAdamPuzzleHash algo1 (hash2 * factor).toBytes

/-- The miner's index: the one given, or its place in the election. -/
def findMinerIdx (nHeight knownMinerIdx : ℤ) : Option ℕ :=
  if 0 ≤ knownMinerIdx then some knownMinerIdx.toNat
  else (X.selectAdamNodes hashAdamSeed nHeight).bind fun elected ↦ elected.1.findIdx? (· == minerKey)

/-- The puzzle hash; there is none for a miner that was not elected. -/
def puzzleHash (nVersion nHeight knownMinerIdx : ℤ) (nNonce : ℕ) : Option Uint256 :=
  if nVersion = 11 then
    -- `GetAdamPuzzleAlgo` in fallback mode
    let h := X.crypto.hash (hashAdamSeed.toBytes ++ Writer.pubKey minerKey)
    some (X.calculateAdamPuzzleHash (h.toNat % 18) (puzzleInput hashAdamSeed minerKey nNonce))
  else if 12 ≤ nVersion then
    (findMinerIdx X hashAdamSeed minerKey nHeight knownMinerIdx).map fun minerIdx ↦
      puzzleHash12 X hashPrevBlock hashAdamSeed minerKey minerIdx nNonce
  else some (X.calculateAdamPuzzleHash 12 (puzzleInput hashAdamSeed minerKey nNonce))

end Puzzle

/-! ### The target -/

/-- `SetCompact`: the target, and whether it is out of range; the mantissa is tested after it was
shifted. -/
def setCompact (nCompact : UInt32) : Uint256 × Bool × Bool :=
  let nSize := nCompact.toNat / 2 ^ 24
  let nWord := nCompact.toNat % 2 ^ 23
  let nWord := if nSize ≤ 3 then nWord / 2 ^ (8 * (3 - nSize)) else nWord
  let target := if nSize ≤ 3 then BitVec.ofNat 256 nWord
    else BitVec.ofNat 256 nWord <<< (8 * (nSize - 3))
  (target, nWord ≠ 0 ∧ nCompact &&& 0x00800000 ≠ 0,
    nWord ≠ 0 ∧ (34 < nSize ∨ 0xff < nWord ∧ 33 < nSize ∨ 0xffff < nWord ∧ 32 < nSize))

variable (X : SolutionEnv)

def difficultyShift (nVersion height : ℤ) : ℕ :=
  let fFallbackMode := nVersion = 11 ∨ !X.isModelDActive height
  if X.isAdamV2Active height ∧ ¬fFallbackMode then X.nAdamDifficultyShiftV2
  else X.nAdamDifficultyShiftV1

/-- The target of the puzzle; none if that of the block is out of range. -/
def puzzleTarget (hashPrevBlock : Uint256) (nBits : UInt32) (nVersion nHeight : ℤ) : Option Uint256 :=
  let (bnTarget, fNegative, fOverflow) := setCompact nBits
  if fNegative || bnTarget == 0 || fOverflow then none
  else
    let height := if nHeight = -1 then X.heightAfter hashPrevBlock else nHeight
    let scaledTarget := bnTarget <<< difficultyShift X nVersion height
    if X.powLimit < scaledTarget ∨ scaledTarget < bnTarget then some X.powLimit
    else some scaledTarget

/-- The puzzle hash meets the target; on the regression-test network every one does. -/
def meetsTarget (hashPrevBlock : Uint256) (nBits : UInt32) (nVersion nHeight : ℤ) (hash : Uint256) : Bool :=
  X.isRegTestNet || (puzzleTarget X hashPrevBlock nBits nVersion nHeight).any (hash ≤ ·)

/-- `VerifyAdamSolution`. -/
def verifyAdamSolution (pins : PinnedBLSPubKeys) (hashPrevBlock hashAdamSeed : Uint256)
    (minerKey : CPubKey) (vchSolution : Bytes) (nBits : UInt32) (nVersion nHeight knownMinerIdx : ℤ) :
    Bool :=
  if vchSolution.isEmpty then false
  else
    match readSolution vchSolution with
    | none => false
    | some (nNonce, vchSig) =>
      match puzzleHash X hashPrevBlock hashAdamSeed minerKey nVersion nHeight knownMinerIdx nNonce with
      | none => false
      | some hash =>
        verifyBLSWithECDSAFallback X.crypto pins hash minerKey vchSig &&
          meetsTarget X hashPrevBlock nBits nVersion nHeight hash

theorem verifyAdamSolution_eq_true_iff {X : SolutionEnv} {pins : PinnedBLSPubKeys}
    {hashPrevBlock hashAdamSeed : Uint256} {minerKey : CPubKey} {vchSolution : Bytes} {nBits : UInt32}
    {nVersion nHeight knownMinerIdx : ℤ} :
    verifyAdamSolution X pins hashPrevBlock hashAdamSeed minerKey vchSolution nBits nVersion nHeight
        knownMinerIdx = true ↔
      ∃ nNonce vchSig hash, readSolution vchSolution = some (nNonce, vchSig) ∧
        puzzleHash X hashPrevBlock hashAdamSeed minerKey nVersion nHeight knownMinerIdx nNonce = some hash ∧
        verifyBLSWithECDSAFallback X.crypto pins hash minerKey vchSig = true ∧
        meetsTarget X hashPrevBlock nBits nVersion nHeight hash = true := by
  have hempty : vchSolution.isEmpty = true → readSolution vchSolution = none := by
    cases vchSolution <;> simp
    rfl
  rw [verifyAdamSolution]
  split
  · next h => simp [hempty h]
  · cases hread : readSolution vchSolution with
    | none => simp
    | some p =>
      obtain ⟨nNonce, vchSig⟩ := p
      cases hhash : puzzleHash X hashPrevBlock hashAdamSeed minerKey nVersion nHeight knownMinerIdx
        nNonce <;> simp [hhash]

end KristaTech.Adam
