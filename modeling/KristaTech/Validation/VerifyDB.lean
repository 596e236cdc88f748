import KristaTech.Validation.Disconnect
import KristaTech.Masternode.Consistency

/-!
# Verifying the chain

`CVerifyDB::VerifyDB` of `main.cpp`, which runs at start-up and on the `verifychain` command. The
blocks of the active chain are read back and checked, from the tip downwards; at level 3 they are
also disconnected on a copy of the coin view, and at level 4 they are connected again.
-/

namespace KristaTech

open Masternode

/-- How the verification ends. -/
inductive VerifyResult
  /-- It returns true: nothing was found, or the node is shutting down. -/
  | verified
  /-- It returns false. -/
  | failed
  /-- An exception. -/
  | thrown
  deriving DecidableEq, Repr

/-- The chain that is verified and what is on the disk. -/
structure VerifyInput where
  ctx : ChainContext
  /-- `chainActive`, from the tip down to the genesis block. -/
  chain : List CBlockIndex
  heights : chain.IsChain fun pindex pprev ↦ pindex.nHeight = pprev.nHeight + 1
  nonneg : ∀ pindex ∈ chain, 0 ≤ pindex.nHeight
  /-- `ReadBlockFromDisk`. -/
  readBlockFromDisk : CBlockIndex → Option CBlock
  /-- `GetUndoPos` is not null. -/
  hasUndoPos : CBlockIndex → Bool
  /-- `UndoReadFromDisk`. -/
  undoReadFromDisk : CBlockIndex → Option (List CTxUndo)
  /-- `GetTransaction`. -/
  getTransaction : Uint256 → Option CTransaction
  /-- The copy of the coins fits into the memory for it. -/
  fitsCache : CCoinsViewCache → Bool
  /-- `ShutdownRequested`, after the block has been verified. -/
  shutdownRequested : CBlockIndex → Bool
  disk : CBlockIndex → DiskOutcome

/-- What the verification carries along. -/
structure VerifyState where
  G : NodeState
  coins : CCoinsViewCache
  /-- The block that the copy of the coins stands at. -/
  pindexState : CBlockIndex
  /-- The blocks that were disconnected, the lowest first. -/
  disconnected : List CBlockIndex := []
  /-- A block could not be disconnected cleanly (`pindexFailure`). -/
  fFailure : Bool := false

variable (E : ValidationEnv)

namespace VerifyInput

variable (V : VerifyInput) (nCheckLevel nCheckDepth : ℤ)

/-- The flag `fVerifyingBlocks` is set, which makes the node think that it is syncing. -/
def verifyingCtx : ChainContext :=
  { V.ctx with fVerifyingBlocks := true, isInitialBlockDownload := true }

/-- What `DisconnectBlock` is called with for a block of the chain. -/
def disconnectInput (pindex : CBlockIndex) : DisconnectInput where
  pindex := pindex
  getTransaction := V.getTransaction
  readBlock nHeight := (V.chain.find? (·.nHeight == nHeight)).bind V.readBlockFromDisk

def vtxundo (pindex : CBlockIndex) : Option (List CTxUndo) :=
  if V.hasUndoPos pindex then V.undoReadFromDisk pindex else none

/-- The checks of the levels 0 to 2: the block, if it passes. -/
def checkStored (masternodes : MasternodeState) (pindex : CBlockIndex) : Except VerifyResult CBlock :=
  match V.readBlockFromDisk pindex with
  | none => .error .failed
  | some block =>
    match checkBlock E V.verifyingCtx masternodes block true true true none with
    | .error e =>
      if 1 ≤ nCheckLevel then .error (if e = .thrown then .thrown else .failed) else .ok block
    | .ok _ =>
      if 2 ≤ nCheckLevel ∧ V.hasUndoPos pindex ∧ V.undoReadFromDisk pindex = none then
        .error .failed
      else .ok block

/-- Level 3: the block is disconnected, if the copy of the coins stands at it. -/
def disconnectStored (pindex pprev : CBlockIndex) (block : CBlock) (st : VerifyState) :
    VerifyState × Option VerifyResult :=
  if 3 ≤ nCheckLevel ∧ pindex = st.pindexState ∧ V.fitsCache st.coins then
    match disconnectBlock E (V.disconnectInput pindex) st.G block (V.vtxundo pindex) st.coins with
    | (G, .error .failed) => ({ st with G := G }, some .failed)
    | (G, .error .thrown) => ({ st with G := G }, some .thrown)
    | (G, .ok (coins, fClean)) =>
      (⟨G, coins, pprev, pindex :: st.disconnected, st.fFailure || !fClean⟩, none)
  else (st, none)

/-- The loop over the chain, down to the lowest height that is asked for. There is no result if the
loop comes to its end. -/
def verifyBlocks (nLowest : ℤ) : List CBlockIndex → VerifyState → VerifyState × Option VerifyResult
  | pindex :: pprev :: rest, st =>
    if pindex.nHeight < nLowest then (st, none)
    else
      match V.checkStored E nCheckLevel st.G.masternodes pindex with
      | .error r => (st, some r)
      | .ok block =>
        match V.disconnectStored E nCheckLevel pindex pprev block st with
        | (st, some r) => (st, some r)
        | (st, none) =>
          if V.shutdownRequested pindex then (st, some .verified)
          else verifyBlocks nLowest (pprev :: rest) st
  | _, st => (st, none)

/-- Level 4: the blocks that were disconnected are connected again. -/
def reconnectBlocks : List CBlockIndex → NodeState → CCoinsViewCache → NodeState × VerifyResult
  | [], G, _ => (G, .verified)
  | pindex :: rest, G, coins =>
    match V.readBlockFromDisk pindex with
    | none => (G, .failed)
    | some block =>
      match connectBlock E V.verifyingCtx G block pindex coins (V.disk pindex) false false with
      | (G, .error .thrown) => (G, .thrown)
      | (G, .error _) => (G, .failed)
      | (G, .ok connected) => reconnectBlocks rest G connected.view

/-- The lowest height that is verified: a depth of 0 or less means the whole chain. -/
def lowestHeight (chainHeight nCheckDepth : ℤ) : ℤ :=
  chainHeight - min (if nCheckDepth ≤ 0 then 1000000000 else nCheckDepth) chainHeight

def clampLevel (nCheckLevel : ℤ) : ℤ := max 0 (min 4 nCheckLevel)

/-- `VerifyDB`. -/
def verifyDB (coinsview : CCoinsView) (G : NodeState) : NodeState × VerifyResult :=
  match V.chain with
  | tip :: pprev :: rest =>
    let nCheckLevel := clampLevel nCheckLevel
    match V.verifyBlocks E nCheckLevel (lowestHeight tip.nHeight nCheckDepth) (tip :: pprev :: rest)
      ⟨G, .ofBase coinsview, tip, [], false⟩ with
    | (st, some r) => (st.G, r)
    | (st, none) =>
      if st.fFailure then (st.G, .failed)
      else if 4 ≤ nCheckLevel then V.reconnectBlocks E st.disconnected st.G st.coins
      else (st.G, .verified)
  | _ => (G, .verified)

end VerifyInput

end KristaTech
