import KristaTech.Masternode.Activity
import KristaTech.Chain.Coins
import KristaTech.Consensus.Params

/-!
# What validation reads and how it fails

The validation functions of `main.cpp` read the node's globals: the block index and the active
chain, the masternode state, the flags of the start-up, and through the election functions the coins
of the tip. What they read of the chain is `ChainContext`; what is not modelled is a field of
`ValidationEnv`.

A function that returns `false` has filled in a `CValidationState`: the block is invalid, or
something went wrong that is not the block's fault. An exception is a third way to leave.
-/

namespace KristaTech

open Masternode

/-- How a validation function fails. -/
inductive ValidationError
  /-- `state.DoS(level, false, code, reason, corruption)`; `Invalid` is the level 0. -/
  | invalid (nDoS : ℕ) (strRejectReason : String) (corruptionPossible : Bool)
  /-- `state.Error(reason)`: a run-time error. -/
  | error (strRejectReason : String)
  /-- An exception. -/
  | thrown
  deriving DecidableEq, Repr

namespace ValidationError

/-- `CorruptionPossible`. -/
def isCorruption : ValidationError → Bool
  | invalid _ _ corruptionPossible => corruptionPossible
  | _ => false

/-- `IsInvalid`. -/
def isInvalid : ValidationError → Bool
  | invalid _ _ _ => true
  | _ => false

end ValidationError

/-- `state.DoS(level, false, …)`, where the condition holds. -/
def rejectIf (p : Prop) [Decidable p] (level : ℕ) (strRejectReason : String)
    (corruptionPossible : Bool := false) : Except ValidationError Unit :=
  if p then .error (.invalid level strRejectReason corruptionPossible) else .ok ()

@[simp]
theorem rejectIf_eq_ok_iff {p : Prop} [Decidable p] {level : ℕ} {reason : String}
    {corruption : Bool} {u : Unit} : rejectIf p level reason corruption = .ok u ↔ ¬p := by
  by_cases h : p <;> simp [rejectIf, h]

/-- A result that may be missing because an exception was thrown. -/
def orThrow {α : Type} : Option α → Except ValidationError α
  | some a => .ok a
  | none => .error .thrown

@[simp]
theorem orThrow_eq_ok_iff {α : Type} {x : Option α} {a : α} : orThrow x = .ok a ↔ x = some a := by
  cases x <;> simp [orThrow]

/-- What validation reads of an entry of the block index. -/
structure CBlockIndex where
  hash : Uint256
  hashPrev : Uint256
  nHeight : ℤ
  nTime : UInt32
  deriving DecidableEq, Repr

/-- The chain and the flags of the node, as they are when a function is called. -/
structure ChainContext where
  /-- `mapBlockIndex`. -/
  mapBlockIndex : Uint256 → Option CBlockIndex
  /-- `chainActive.Tip()`. -/
  tip : Option CBlockIndex
  /-- `chainActive.Contains` of the block with this hash. -/
  contains : Uint256 → Bool
  isInitialBlockDownload : Bool
  fReindex : Bool
  fVerifyingBlocks : Bool
  fMasternodePingStateInitialized : Bool

/-- Everything outside the model that validation asks. -/
structure ValidationEnv extends ActivityEnv where
  consensus : Params
  /-- `CMescal::Decompile` succeeds with at least one action. -/
  mescalDecompiles : CScript → Bool
  /-- `ComputeMerkleRoot` of the transactions' hashes, and whether the tree was mutated. -/
  computeMerkleRoot : List Uint256 → Uint256 × Bool
  /-- `CheckProofOfWork`. -/
  checkProofOfWork : Uint256 → UInt32 → Bool
  /-- `IsBlockPayeeValid`. -/
  isBlockPayeeValid : Option CoinLookup → MasternodeState → CBlock → ℤ → Bool
  /-- Script checks are queued and run by threads after all transactions (`nScriptCheckThreads`). -/
  fScriptCheckThreads : Bool

/-- The main network without elections, to run the model with: the oracles pass, and the key hashes
0 and 1 are the first burn address and the developer fund. -/
instance : Inhabited ValidationEnv where
  default :=
    { crypto := default
      checkSignature := fun _ _ ↦ false
      getAdamSeed := fun _ ↦ 0
      verifyAdamSolution := fun _ _ _ _ _ _ _ _ _ ↦ false
      selectAdamNodes := fun _ _ _ _ ↦ none
      getAdamMinerPool := fun _ _ _ ↦ []
      getActiveQuorum := fun _ _ _ _ ↦ ⟨[]⟩
      consensus := Params.main fun
        | .keyID 0 => "KTburnCYcDjF1GsXa5k3tc3eZrVVbqefyWr"
        | .keyID 1 => "KTeRC2Kj8hXcuzRohxPp2LtYFRJm2BceRoP"
        | _ => ""
      mescalDecompiles := fun _ ↦ false
      computeMerkleRoot := fun _ ↦ (0, false)
      checkProofOfWork := fun _ _ ↦ true
      isBlockPayeeValid := fun _ _ _ _ ↦ true
      fScriptCheckThreads := false }

namespace ValidationEnv

variable (E : ValidationEnv)

/-- `IsZeroCoinPoWTransaction`. -/
def isZeroCoinPoW (tx : CTransaction) : Bool := isZeroCoinPoWTransaction E.crypto tx

/-- `ExtractDestinations`; no addresses if it fails. -/
def addresses (script : CScript) : List CTxDestination :=
  (extractDestinations E.mescalDecompiles E.crypto script).getD []

end ValidationEnv

end KristaTech
