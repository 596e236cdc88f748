import KristaTech.Validation.CheckBlock
import KristaTech.Validation.Inputs
import KristaTech.Chain.Burns
import KristaTech.Library.EffectLoop

/-!
# Connecting a block

`ConnectBlock` of `main.cpp`. The transactions are taken one after the other: each is checked
against the view that the ones before it have left, the burn it makes is put into the burn cache, and
its coins are updated. The amount that is minted and the queued script checks come after all
transactions, the writing of undo data after that, and only then are the money supply and the
masternode state brought up to date.

What the call changes outside of the view it is given is `NodeState`; it is returned whether the call
succeeds or not.
-/

namespace KristaTech

open Masternode Llmq

/-- `MAX_BLOCK_SIGOPS_CURRENT`. -/
def maxBlockSigOpsCurrent : ℕ := 160000

/-- The globals that connecting and disconnecting blocks change. -/
structure NodeState where
  masternodes : MasternodeState
  mapAddressBurns : BurnCache
  nMoneySupply : CAmount

/-- Whether the writing of the undo data and of the transaction index succeeds, where they are
written. -/
structure DiskOutcome where
  findUndoPos : Bool := true
  undoWriteToDisk : Bool := true
  writeTxIndex : Bool := true

/-- `FindUndoPos`, `UndoWriteToDisk` and `WriteTxIndex`. -/
def DiskOutcome.result (disk : DiskOutcome) : Except ValidationError Unit :=
  if !disk.findUndoPos then .error (.error "out of disk space")
  else if !disk.undoWriteToDisk then .error (.error "Failed to write undo data")
  else if !disk.writeTxIndex then .error (.error "Failed to write transaction index")
  else .ok ()

/-- What the loop over the transactions carries. -/
structure ConnectState where
  view : CCoinsViewCache
  nSigOps : ℕ := 0
  nFees : CAmount := 0
  nValueIn : CAmount := 0
  nValueOut : CAmount := 0
  /-- One entry for each transaction; the first one's is not part of the undo data. -/
  vtxundo : List CTxUndo := []
  vChecks : List CScriptCheck := []

/-- The block's own part of the input of `ConnectBlock`, and what does not change while it runs. -/
structure ConnectInput where
  ctx : ChainContext
  masternodes : MasternodeState
  pindex : CBlockIndex
  fJustCheck : Bool

variable (E : ValidationEnv)

namespace ConnectInput

variable (I : ConnectInput)

/-- `pindex->pprev`. -/
def pprev : Option CBlockIndex := I.ctx.mapBlockIndex I.pindex.hashPrev

def fScriptChecks : Bool := E.consensus.totalBlocksEstimate ≤ I.pindex.nHeight

def flags : ScriptFlags where
  p2sh := true
  dersig := true
  checklocktimeverify := I.fScriptChecks E && I.pprev.any fun pprev ↦
    E.consensus.networkUpgradeActive pprev.nHeight .UPGRADE_BIP65

/-- The coins of a transaction's inputs: none is a burn address's, and a spending of the developer
fund is certified by the quorum of the height. -/
def checkSpentCoins (view : CCoinsViewCache) (tx : CTransaction) : Except ValidationError Unit := do
  rejectIf (tx.vin.any fun txin ↦
      (E.addresses (view.accessCoin txin.prevout).out.scriptPubKey).any fun addr ↦
        E.consensus.isBurnAddress addr I.pindex.nHeight) 100 "bad-txns-spend-burn-address"
  tx.vin.forM fun txin ↦ do
    let scriptPubKey := (view.accessCoin txin.prevout).out.scriptPubKey
    if paysDeveloperFund E scriptPubKey then
      checkDeveloperFundSpend E I.masternodes
        (E.getActiveQuorum (some view.getCoin) I.masternodes I.pindex.nHeight
          (some I.pindex.hashPrev)) I.pindex.nHeight view tx txin scriptPubKey

/-- The checks of one transaction: its signature operations, the coins it spends, its inputs. -/
def checkTx (acc : ConnectState) (tx : CTransaction) : Except ValidationError ConnectState := do
  let spends := !tx.isCoinBase && !E.isZeroCoinPoW tx
  let nSigOps := acc.nSigOps + getLegacySigOpCount tx
  rejectIf (maxBlockSigOpsCurrent < nSigOps) 100 "bad-blk-sigops"
  let view := if spends then (acc.view.haveInputs tx).2 else acc.view
  let nSigOps := if spends then nSigOps + view.getP2SHSigOpCount tx else nSigOps
  if spends then
    rejectIf (!(acc.view.haveInputs tx).1) 100 "bad-txns-inputs-missingorspent"
    I.checkSpentCoins E view tx
    rejectIf (maxBlockSigOpsCurrent < nSigOps) 100 "bad-blk-sigops"
  let nTxIn := if spends then view.getValueIn tx else 0
  let nTxFee ← if spends && !tx.isCoinStake then
      (orThrow tx.getValueOut).map (nTxIn - ·)
    else .ok 0
  let vChecks ← checkInputs E I.ctx I.masternodes view tx (I.fScriptChecks E) (I.flags E)
    E.fScriptCheckThreads
  let nTxOut ← orThrow tx.getValueOut
  return { acc with
    view := view
    nSigOps := nSigOps
    nFees := acc.nFees + nTxFee
    nValueIn := acc.nValueIn + nTxIn
    nValueOut := acc.nValueOut + nTxOut
    vChecks := acc.vChecks ++ vChecks }

/-- The burn that a transaction makes, as the view stands before its inputs are spent. -/
def burn (acc : ConnectState) (tx : CTransaction) : Option (CTxDestination × CBurnCoins) :=
  if !I.fJustCheck && !tx.isCoinBase && !E.isZeroCoinPoW tx then
    burnOf E tx I.pindex.nHeight (firstInputScript acc.view.getCoin tx)
  else none

/-- `UpdateCoins` for one transaction. -/
def updateTx (acc : ConnectState) (tx : CTransaction) : Except ValidationError ConnectState := do
  let (txundo, view) ← orThrow (updateCoins E.crypto tx acc.view I.pindex.nHeight)
  return { acc with view := view, vtxundo := acc.vtxundo ++ [txundo] }

/-- The burn that a transaction makes goes into the cache. -/
def recordBurn (acc : ConnectState) (tx : CTransaction) (burns : BurnCache) : BurnCache :=
  match I.burn E acc tx with
  | some b => burns.addBurnToCache b.1 b.2
  | none => burns

/-- The loop over the transactions: each is checked, its burn is recorded, its coins are updated. The
burn cache is what it has become, also if the loop fails. -/
def connectTxs : List CTransaction → BurnCache → ConnectState →
    BurnCache × Except ValidationError ConnectState :=
  List.effectLoop (I.checkTx E) (I.recordBurn E) (I.updateTx E)

/-- The checks before the transactions: the block itself, the view, and the kind of block the height
asks for. A failed assertion counts as an exception. -/
def checkBefore (block : CBlock) (view : CCoinsViewCache) (fAlreadyChecked : Bool) :
    Except ValidationError Unit := do
  if !fAlreadyChecked || (!block.fChecked && !I.fJustCheck) then
    let f := !I.fJustCheck
    match checkBlock E I.ctx I.masternodes block f f f (some view) with
    | .ok _ => .ok ()
    | .error e =>
      if e.isCorruption then .error (.error
        "Corrupt block found indicating potential hardware failure; shutting down")
      else .error e
  if (I.pprev.elim 0 (·.hash)) ≠ view.getBestBlock then .error .thrown

def checkKind (block : CBlock) : Except ValidationError Unit := do
  let isPoSActive := E.consensus.networkUpgradeActive I.pindex.nHeight .UPGRADE_POS
  rejectIf (!isPoSActive && block.isProofOfStake) 100 "PoS-early"
  rejectIf (isPoSActive && block.isProofOfWork && !E.consensus.isAdamActive I.pindex.nHeight) 100
    "legacy-pow-ended"

/-- The checks after the transactions: what is minted, and the queued script checks. -/
def checkAfter (block : CBlock) (nMoneySupply : CAmount) (acc : ConnectState) :
    Except ValidationError Unit :=
  match I.pprev with
  | none => .error .thrown
  | some pprev => do
    let nMint := acc.nValueOut - acc.nValueIn + acc.nFees
    let nBlockValue := E.consensus.getBlockValue nMoneySupply (pprev.nHeight + 1)
    let nExpectedMint := if block.isProofOfWork then nBlockValue + acc.nFees else nBlockValue
    rejectIf (nExpectedMint < nMint) 100 "bad-cb-amount"
    rejectIf (E.fScriptCheckThreads && acc.vChecks.any fun check ↦ !(check.run E.crypto).isOk) 100
      "block-validation-failed"

end ConnectInput

/-- What `ConnectBlock` has done when it has succeeded. -/
structure Connected where
  view : CCoinsViewCache
  /-- `blockundo`. -/
  blockundo : List CTxUndo

/-- The last part of `ConnectBlock`, once nothing can fail any more. -/
def finishConnect (I : ConnectInput) (G : NodeState) (block : CBlock) (acc : ConnectState) :
    NodeState × Connected :=
  let view := acc.view.setBestBlock I.pindex.hash
  ({ G with
      nMoneySupply := G.nMoneySupply + (acc.nValueOut - acc.nValueIn)
      masternodes :=
        if I.ctx.fVerifyingBlocks then G.masternodes
        else registerBlockMasternodeActivity E.toActivityEnv view.getCoin G.masternodes block
          I.pindex.nHeight },
    ⟨view, acc.vtxundo.tail⟩)

/-- `ConnectBlock`. -/
def connectBlock (ctx : ChainContext) (G : NodeState) (block : CBlock) (pindex : CBlockIndex)
    (view : CCoinsViewCache) (disk : DiskOutcome) (fJustCheck fAlreadyChecked : Bool) :
    NodeState × Except ValidationError Connected :=
  let I : ConnectInput := ⟨ctx, G.masternodes, pindex, fJustCheck⟩
  match I.checkBefore E block view fAlreadyChecked with
  | .error e => (G, .error e)
  | .ok () =>
    if block.getHash E.crypto = E.consensus.hashGenesisBlock then
      -- the transactions of the genesis block are not connected
      (G, .ok ⟨if fJustCheck then view else view.setBestBlock pindex.hash, []⟩)
    else
      match I.checkKind E block with
      | .error e => (G, .error e)
      | .ok () =>
        let (burns, result) := I.connectTxs E block.vtx G.mapAddressBurns { view := view }
        let G := { G with mapAddressBurns := burns }
        match result with
        | .error e => (G, .error e)
        | .ok acc =>
          match I.checkAfter E block G.nMoneySupply acc with
          | .error e => (G, .error e)
          | .ok () =>
            if fJustCheck then (G, .ok ⟨acc.view, acc.vtxundo.tail⟩)
            else
              match disk.result with
              | .error e => (G, .error e)
              | .ok () =>
                let (G, connected) := finishConnect E I G block acc
                (G, .ok connected)

/-! ### Acceptance -/

section Accepted

variable {E} {ctx : ChainContext} {G G' : NodeState} {block : CBlock} {pindex : CBlockIndex}
  {view : CCoinsViewCache} {disk : DiskOutcome} {fJustCheck fAlreadyChecked : Bool}
  {connected : Connected} {I : ConnectInput}

theorem ConnectInput.getBestBlock_of_checkBefore (h : I.checkBefore E block view fAlreadyChecked = .ok ()) :
    view.getBestBlock = I.pprev.elim 0 (·.hash) := by
  by_contra hne
  simp only [ConnectInput.checkBefore, if_pos (Ne.symm hne)] at h
  split_ifs at h
  split at h
  · cases h
  · split_ifs at h <;> cases h

/-- **What acceptance says.** A block other than the genesis block is accepted exactly when the
checks before, in and after the loop pass and the disk is written; what is left then is known. -/
theorem connectBlock_eq_ok_iff (hI : I = ⟨ctx, G.masternodes, pindex, fJustCheck⟩)
    (hgenesis : block.getHash E.crypto ≠ E.consensus.hashGenesisBlock) :
    connectBlock E ctx G block pindex view disk fJustCheck fAlreadyChecked = (G', .ok connected) ↔
      I.checkBefore E block view fAlreadyChecked = .ok () ∧ I.checkKind E block = .ok () ∧
      ∃ burns acc, I.connectTxs E block.vtx G.mapAddressBurns { view := view } = (burns, .ok acc) ∧
        I.checkAfter E block G.nMoneySupply acc = .ok () ∧
        if fJustCheck then
          G' = { G with mapAddressBurns := burns } ∧ connected = ⟨acc.view, acc.vtxundo.tail⟩
        else disk.result = .ok () ∧
          finishConnect E I { G with mapAddressBurns := burns } block acc = (G', connected) := by
  simp only [connectBlock, ← hI, hgenesis, if_false]
  cases hbefore : I.checkBefore E block view fAlreadyChecked with
  | error e => simp
  | ok u =>
    cases hkind : I.checkKind E block with
    | error e => simp
    | ok u =>
      generalize I.connectTxs E block.vtx G.mapAddressBurns { view := view } = loop
      obtain ⟨burns, result⟩ := loop
      cases result with
      | error e => simp
      | ok acc =>
        cases hafter : I.checkAfter E block G.nMoneySupply acc with
        | error e => simp [hafter]
        | ok u =>
          cases fJustCheck with
          | true => simp [hafter, eq_comm]
          | false =>
            cases hdisk : disk.result with
            | error e => simp [hafter]
            | ok u => simp [hafter, Prod.ext_iff]

end Accepted

end KristaTech
