import KristaTech.Validation.Connect

/-!
# Disconnecting a block

`DisconnectBlock` of `main.cpp`: the transactions are undone last one first, from the undo data that
connecting has written. The outputs are spent, the inputs are put back (`ApplyTxInUndo`), and the
burn is taken out of the cache. Then the money supply and the masternode state are brought back.
Whether the node is only verifying its chain is not asked before any of this.
-/

namespace KristaTech

open Masternode

/-- Why a block could not be disconnected. -/
inductive DisconnectError
  /-- `DISCONNECT_FAILED`. -/
  | failed
  /-- An exception, or a failed assertion. -/
  | thrown
  deriving DecidableEq, Repr

/-- `MAX_OUTPUTS_PER_BLOCK`: an empty output takes nine bytes. -/
def maxOutputsPerBlock : ℕ := maxBlockSizeCurrent / 9

/-- `AccessByTxid`: the first unspent output of a transaction. -/
def accessByTxid (view : CCoinsViewCache) (txid : Uint256) : Coin :=
  (((List.range maxOutputsPerBlock).map fun n ↦ view.accessCoin ⟨txid, UInt32.ofNat n⟩).find?
    fun coin ↦ !coin.isSpent).getD Coin.empty

/-- `ApplyTxInUndo`: whether the outpoint was free, and the view with the coin. -/
def applyTxInUndo (undo : Coin) (view : CCoinsViewCache) (out : COutPoint) :
    Except DisconnectError (Bool × CCoinsViewCache) := do
  let fClean := !view.haveCoin out
  let view := view.fetchCoin out
  let undo ←
    -- older undo data has the height of a transaction only once
    if undo.nHeight = 0 then
      let alternate := accessByTxid view out.hash
      if alternate.isSpent then .error .failed
      else .ok { undo with
        nHeight := alternate.nHeight
        fCoinBase := alternate.fCoinBase
        fCoinStake := alternate.fCoinStake }
    else .ok undo
  match view.addCoin out undo false with
  | some view => return (fClean, view)
  | none => .error .thrown

/-- What the loop over the transactions carries. -/
structure DisconnectState where
  view : CCoinsViewCache
  fClean : Bool := true
  nValueOut : CAmount := 0
  nValueIn : CAmount := 0

/-- What a block is disconnected by, besides the block. -/
structure DisconnectInput where
  pindex : CBlockIndex
  /-- `GetTransaction`. -/
  getTransaction : Uint256 → Option CTransaction
  /-- `ReadBlockFromDisk` for the ancestors, by height. -/
  readBlock : ℤ → Option CBlock

variable (E : ValidationEnv)

/-- A transaction, with its undo data; the first one has none. -/
abbrev UndoneTx := CTransaction × Option CTxUndo

namespace DisconnectInput

variable (D : DisconnectInput)

def hasInputs (tx : CTransaction) : Bool := !tx.isCoinBase && !E.isZeroCoinPoW tx

/-- The outputs that can be spent are spent; each should be there as the block has it. -/
def undoOutputs (tx : CTransaction) (acc : DisconnectState) : DisconnectState :=
  tx.vout.zipIdx.foldl (fun acc p ↦
    if CScript.isUnspendable p.1.scriptPubKey then acc
    else
      let (coin, view) := acc.view.spendCoin ⟨tx.getHash E.crypto, UInt32.ofNat p.2⟩
      { acc with view := view, fClean := acc.fClean && coin.out == p.1 }) acc

def undoInput (acc : DisconnectState) (p : CTxIn × Coin) : Except DisconnectError DisconnectState :=
  if p.1.prevout.isNull then .ok acc
  else do
    let (fClean, view) ← applyTxInUndo p.2 acc.view p.1.prevout
    return { acc with view := view, fClean := acc.fClean && fClean }

def undoTx (acc : DisconnectState) (p : UndoneTx) : Except DisconnectError DisconnectState := do
  let tx := p.1
  match tx.getValueOut with
  | none => .error .thrown
  | some nTxOut =>
    let acc := undoOutputs E tx { acc with nValueOut := acc.nValueOut + nTxOut }
    if !hasInputs E tx then return acc
    else
      match p.2 with
      | none => .error .thrown
      | some txundo =>
        if txundo.length ≠ tx.vin.length then .error .failed
        else (tx.vin.zip txundo).reverse.foldlM undoInput acc

/-- The script that the first input spends: the restored coin's, otherwise from the transaction
index. -/
def prevScript (acc : DisconnectState) (tx : CTransaction) : Option CScript :=
  (firstInputScript acc.view.getCoin tx).or do
    let txin ← tx.vin.head?
    let txPrev ← D.getTransaction txin.prevout.hash
    let out ← txPrev.vout[txin.prevout.n.toNat]?
    return out.scriptPubKey

def burn (acc : DisconnectState) (tx : CTransaction) : Option (CTxDestination × CBurnCoins) :=
  if hasInputs E tx then burnOf E tx D.pindex.nHeight (D.prevScript acc tx) else none

def removeBurn (acc : DisconnectState) (p : UndoneTx) (burns : BurnCache) : BurnCache :=
  match D.burn E acc p.1 with
  | some b => burns.removeBurnFromCache b.1 b.2
  | none => burns

/-- The values of the inputs are counted, if they are all there. -/
def countInputs (acc : DisconnectState) (p : UndoneTx) : Except DisconnectError DisconnectState :=
  if hasInputs E p.1 then
    let (fHave, view) := acc.view.haveInputs p.1
    .ok { acc with
      view := view
      nValueIn := if fHave then acc.nValueIn + view.getValueIn p.1 else acc.nValueIn }
  else .ok acc

def undoTxs : List UndoneTx → BurnCache → DisconnectState →
    BurnCache × Except DisconnectError DisconnectState :=
  List.effectLoop (undoTx E) (D.removeBurn E) (countInputs E)

end DisconnectInput

/-- The transactions of a block with their undo data, in the order of undoing. -/
def undoneTxs (block : CBlock) (vtxundo : List CTxUndo) : List UndoneTx :=
  (block.vtx.zip (none :: vtxundo.map some)).reverse

/-- `DisconnectBlock`: the view and whether it was clean. The undo data is missing if it could not be
read. -/
def disconnectBlock (D : DisconnectInput) (G : NodeState) (block : CBlock)
    (vtxundo : Option (List CTxUndo)) (view : CCoinsViewCache) :
    NodeState × Except DisconnectError (CCoinsViewCache × Bool) :=
  if D.pindex.hash ≠ view.getBestBlock then (G, .error .thrown)
  else
    match vtxundo with
    | none => (G, .error .failed)
    | some vtxundo =>
      if vtxundo.length + 1 ≠ block.vtx.length then (G, .error .failed)
      else
        let (burns, result) := D.undoTxs E (undoneTxs block vtxundo) G.mapAddressBurns { view := view }
        let G := { G with mapAddressBurns := burns }
        match result with
        | .error e => (G, .error e)
        | .ok acc =>
          let view := acc.view.setBestBlock D.pindex.hashPrev
          ({ G with
              nMoneySupply := G.nMoneySupply - (acc.nValueOut - acc.nValueIn)
              masternodes := disconnectMasternodes E.toActivityEnv view.getCoin D.readBlock
                G.masternodes block D.pindex.nHeight },
            .ok (view, acc.fClean))

end KristaTech
