import KristaTech.Validation.Disconnect
import KristaTech.Validation.TxSteps
import KristaTech.Validation.ConnectFailure

/-!
# Coins and supply after a disconnection

A block that was connected is disconnected with the undo data that was written: the transactions are
undone one by one, last one first, and each is undone exactly (`DisconnectInput.undoTurn`). So all
unspent coins, with their amounts, scripts, heights and flags, and the money supply are as before
(`coins_and_supply_restored`).

The coin view has to be one that blocks have made: its flags are true, and each coin has a height and
a script that can be spent (`CCoinsViewCache.WellFormed`). Connecting keeps that
(`wellFormed_of_connectBlock`).
-/

namespace KristaTech

open CCoinsViewCache List

variable {E : ValidationEnv} {D : DisconnectInput}

/-! ### One transaction -/

namespace DisconnectInput

variable {acc : DisconnectState} {tx : CTransaction} {nHeight : ℤ}
variable {U : Utxo}

theorem undoOutputs_of_spends (acc : DisconnectState) {l : List (CTxOut × ℕ)} (hview : acc.view.Coherent)
    (h : Ledger.Spends acc.view.utxo ((l.filterMap (newCoin E.crypto tx nHeight)).map Prod.fst)
      ((l.filterMap (newCoin E.crypto tx nHeight)).map Prod.snd) U) : ∃ view, l.foldl (fun acc p ↦
        if CScript.isUnspendable p.1.scriptPubKey then acc
        else
          let (coin, view) := acc.view.spendCoin ⟨tx.getHash E.crypto, UInt32.ofNat p.2⟩
          { acc with view := view, fClean := acc.fClean && coin.out == p.1 }) acc =
        { acc with view := view } ∧ view.Coherent ∧ view.utxo = U := by
  induction l generalizing acc with
  | nil =>
    cases h
    exact ⟨acc.view, rfl, hview, rfl⟩
  | cons p l ih =>
    rw [foldl_cons]
    cases hscript : CScript.isUnspendable p.1.scriptPubKey with
    | true =>
      have hnone : newCoin E.crypto tx nHeight p = none := by rw [newCoin, if_pos hscript]
      rw [filterMap_cons_none hnone] at h
      exact ih acc hview h
    | false =>
      have hsome : newCoin E.crypto tx nHeight p = some (⟨tx.getHash E.crypto, UInt32.ofNat p.2⟩,
          ⟨tx.isCoinBase, tx.isCoinStake, p.1, nHeight⟩) := by
        rw [newCoin, hscript, if_neg Bool.false_ne_true]
      rw [filterMap_cons_some hsome, map_cons, map_cons] at h
      cases h with
      | cons hcoin hrest =>
        obtain ⟨hkeeps, hutxo, hspent⟩ :=
          hview.spendCoin ⟨tx.getHash E.crypto, UInt32.ofNat p.2⟩
        rw [accessCoin_of_utxo hcoin] at hspent
        rw [← hutxo] at hrest
        obtain ⟨view, hfold, hcoherent, hU⟩ := ih { acc with
          view := (acc.view.spendCoin ⟨tx.getHash E.crypto, UInt32.ofNat p.2⟩).2 }
          hkeeps.coherent hrest
        refine ⟨view, ?_, hcoherent, hU⟩
        simpa [hspent] using hfold

theorem applyTxInUndo_of_free {view : CCoinsViewCache} {o : COutPoint} {coin : Coin}
    (hview : view.Coherent) (hfree : view.utxo o = none) (hcoin : coin.Restorable) :
    ∃ view', applyTxInUndo coin view o = .ok (true, view') ∧ view'.Coherent ∧
      view'.utxo = view.utxo.put o coin := by
  have hfetched : (view.fetchCoin o).utxo = view.utxo := utxo_fetchCoin
  obtain ⟨view', hadd, hkeeps, hutxo⟩ :=
    (hview.fetchCoin o).addCoin (hfetched ▸ hfree) hcoin.spendable hcoin.unspent
  refine ⟨view', ?_, hkeeps.coherent, by rw [hutxo, hfetched]⟩
  simp [applyTxInUndo, haveCoin_of_utxo_none hfree, hcoin.height, hadd]

theorem foldlM_undoInput_of_creates (acc : DisconnectState) {l : List (CTxIn × Coin)}
    (hview : acc.view.Coherent) (hnull : ∀ p ∈ l, p.1.prevout.isNull = false)
    (hcoins : ∀ p ∈ l, p.2.Restorable)
    (h : Ledger.Creates acc.view.utxo (l.map fun p ↦ (p.1.prevout, p.2)) U) :
    ∃ view, l.foldlM undoInput acc = .ok { acc with view := view } ∧ view.Coherent ∧ view.utxo = U := by
  induction l generalizing acc with
  | nil =>
    cases h
    exact ⟨acc.view, rfl, hview, rfl⟩
  | cons p l ih =>
    rw [forall_mem_cons] at hnull hcoins
    rw [map_cons] at h
    cases h with
    | cons hfree hrest =>
      obtain ⟨view₁, hundo, hcoherent₁, hutxo₁⟩ := applyTxInUndo_of_free hview hfree hcoins.1
      rw [← hutxo₁] at hrest
      obtain ⟨view, hfold, hcoherent, hU⟩ :=
        ih { acc with view := view₁ } hcoherent₁ hnull.2 hcoins.2 hrest
      refine ⟨view, ?_, hcoherent, hU⟩
      simpa [undoInput, hnull.1, hundo] using hfold

/-- What undoing some transactions leaves, which spent `nIn` and whose outputs are worth `nOut`. -/
structure Undone (acc : DisconnectState) (U : Utxo) (nIn nOut : CAmount) (acc' : DisconnectState) :
    Prop where
  coherent : acc'.view.Coherent
  utxo : acc'.view.utxo = U
  fClean : acc'.fClean = acc.fClean
  nValueIn : acc'.nValueIn = acc.nValueIn + nIn
  nValueOut : acc'.nValueOut = acc.nValueOut + nOut

/-- **One transaction is undone exactly.** -/
theorem exists_undoTurn {undo : CTxUndo} {x : Option CTxUndo} (hview : acc.view.Coherent)
    (hU : Restorable U) (hin : InputsDistinct E.crypto tx)
    (hvalue : tx.getValueOut = some tx.valueOut)
    (happlies : Applies E.crypto tx nHeight undo U acc.view.utxo)
    (hx : spendsCoins E.crypto tx = true → x = some undo) :
    ∃ mid acc', undoTx E acc (tx, x) = .ok mid ∧ countInputs E mid (tx, x) = .ok acc' ∧
      Undone acc U (valueSpent E.crypto tx undo) tx.valueOut acc' := by
  have hhas : hasInputs E tx = spendsCoins E.crypto tx := rfl
  set acc₀ : DisconnectState := { acc with nValueOut := acc.nValueOut + tx.valueOut }
  cases happlies with
  | spending hspends hledger hcreates =>
    obtain ⟨view₁, houtputs, hview₁, hutxo₁⟩ :=
      undoOutputs_of_spends (E := E) acc₀ hview hcreates.spends
    have hzip : (tx.vin.zip undo).reverse.map (fun p ↦ (p.1.prevout, p.2)) =
        ((tx.vin.map (·.prevout)).zip undo).reverse := by
      rw [map_reverse, zip_map_left]
      rfl
    have hcoins : ∀ p ∈ (tx.vin.zip undo).reverse, p.2.Restorable := by
      intro p hp
      rw [mem_reverse] at hp
      obtain ⟨o, -, hcoin⟩ := hledger.exists_key (of_mem_zip hp).2
      exact hU o p.2 hcoin
    have hnull : ∀ p ∈ (tx.vin.zip undo).reverse, p.1.prevout.isNull = false := fun p hp ↦
      hin.notNull hspends p.1 (of_mem_zip (mem_reverse.1 hp)).1
    obtain ⟨view₂, hinputs, hview₂, hutxo₂⟩ :=
      foldlM_undoInput_of_creates { acc₀ with view := view₁ } hview₁ hnull hcoins
        (by rw [hzip, hutxo₁]; exact hledger.creates)
    have hlength : undo.length = tx.vin.length := by simpa using hledger.length_eq.symm
    have hundo : undoTx E acc (tx, x) = .ok { acc₀ with view := view₂ } := by
      have houtputs' : undoOutputs E tx acc₀ = { acc₀ with view := view₁ } := houtputs
      simp only [undoTx, hvalue, hhas, hspends, hx hspends, Bool.not_true, Bool.false_eq_true, if_false,
        hlength, ne_eq, not_true_eq_false]
      exact houtputs'.symm ▸ hinputs
    have hhave : (view₂.haveInputs tx).1 = true := by
      rw [haveInputs_eq_true_iff tx (spendsCoins_eq_true_iff.1 hspends).1]
      intro txin htxin
      rw [haveCoin_eq_true_iff, hutxo₂]
      exact hledger.exists_value (mem_map_of_mem htxin)
    have hvalueIn : (view₂.haveInputs tx).2.getValueIn tx = valueSpent E.crypto tx undo :=
      getValueIn_of_spends hspends (by rw [utxo_haveInputs, hutxo₂]; exact hledger)
    refine ⟨_, { acc₀ with
      view := (view₂.haveInputs tx).2
      nValueIn := acc.nValueIn + valueSpent E.crypto tx undo }, hundo, ?_, ?_⟩
    · simp [countInputs, hhas, hspends, hhave, hvalueIn, acc₀]
    · exact ⟨(hview₂.keeps_haveInputs tx).coherent, by rw [utxo_haveInputs, hutxo₂], rfl, rfl, rfl⟩
  | creating hspends hcreates =>
    obtain ⟨view₁, houtputs, hview₁, hutxo₁⟩ :=
      undoOutputs_of_spends (E := E) acc₀ hview hcreates.spends
    have hundo : undoTx E acc (tx, x) = .ok { acc₀ with view := view₁ } := by
      simp only [undoTx, hvalue, hhas, hspends]
      exact congrArg Except.ok houtputs
    have hcount : countInputs E { acc₀ with view := view₁ } (tx, x) = .ok { acc₀ with view := view₁ } := by
      simp [countInputs, hhas, hspends]
    exact ⟨_, _, hundo, hcount, hview₁, hutxo₁, rfl, by simp [valueSpent, hspends, acc₀], rfl⟩

/-- **All transactions are undone**, last one first. -/
theorem exists_undoTxs (acc : DisconnectState) {txs : List CTransaction} {undos : List CTxUndo}
    {U' : Utxo} (happlies : AppliesAll E.crypto nHeight txs undos U U') (hheight : nHeight ≠ 0)
    (hin : ∀ tx ∈ txs, InputsDistinct E.crypto tx)
    (hvalue : ∀ tx ∈ txs, tx.getValueOut = some tx.valueOut) (hU : Restorable U)
    {xs : List (Option CTxUndo)} (hxs : List.Forall₂
      (fun p x ↦ spendsCoins E.crypto p.1 = true → x = some p.2) (txs.zip undos) xs)
    (hview : acc.view.Coherent) (hutxo : acc.view.utxo = U') (burns : BurnCache) :
    ∃ burns' acc', D.undoTxs E (txs.zip xs).reverse burns acc = (burns', .ok acc') ∧
      Undone acc U (totalSpent E.crypto txs undos) (totalOut txs) acc' := by
  induction happlies generalizing xs with
  | nil =>
    refine ⟨burns, acc, rfl, hview, hutxo, rfl, ?_, ?_⟩
    · simp [totalSpent]
    · simp [totalOut]
  | @cons tx undo txs undos U U₁ U' happly _ ih =>
    rw [forall_mem_cons] at hin hvalue
    rw [zip_cons_cons] at hxs
    cases hxs with
    | @cons _ x _ xs hx hxs =>
      have hout := (CTransaction.getValueOut_eq_some hvalue.1).2
      obtain ⟨burns₁, acc₁, hloop, hundone⟩ :=
        ih hin.2 hvalue.2 (hU.applies hheight hout happly) hxs hutxo
      rw [← hundone.utxo] at happly
      obtain ⟨mid, acc', hundo, hcount, hundone'⟩ :=
        exists_undoTurn hundone.coherent hU hin.1 hvalue.1 happly hx
      refine ⟨D.removeBurn E mid (tx, x) burns₁, acc', ?_, hundone'.coherent, hundone'.utxo, ?_, ?_, ?_⟩
      · rw [zip_cons_cons, reverse_cons, undoTxs, effectLoop_append hloop]
        simp [List.effectLoop, hundo, hcount]
      · rw [hundone'.fClean, hundone.fClean]
      · rw [hundone'.nValueIn, hundone.nValueIn, totalSpent, totalSpent, zipWith_cons_cons,
          sum_cons, add_assoc, add_comm (valueSpent ..)]
      · rw [hundone'.nValueOut, hundone.nValueOut, totalOut, totalOut, map_cons, sum_cons,
          add_assoc, add_comm tx.valueOut]

end DisconnectInput

/-! ### A block -/

variable {C : Crypto} {nHeight : ℤ} {txs : List CTransaction} {undos : List CTxUndo} {U U' : Utxo}

theorem AppliesAll.length_eq (h : AppliesAll C nHeight txs undos U U') : undos.length = txs.length := by
  induction h with
  | nil => rfl
  | cons _ _ ih => rw [length_cons, length_cons, ih]

theorem AppliesAll.forall₂_some (h : AppliesAll C nHeight txs undos U U') :
    List.Forall₂ (fun p x ↦ spendsCoins C p.1 = true → x = some p.2) (txs.zip undos) (undos.map some) := by
  induction h with
  | nil => exact .nil
  | cons _ _ ih => exact .cons (fun _ ↦ rfl) ih

theorem AppliesAll.blockundo (h : AppliesAll C nHeight txs undos U U')
    (hfirst : txs.head?.any (·.isCoinBase) = true) :
    undos.tail.length + 1 = txs.length ∧ List.Forall₂
      (fun p x ↦ spendsCoins C p.1 = true → x = some p.2) (txs.zip undos)
      (none :: undos.tail.map some) := by
  cases h with
  | nil => simp at hfirst
  | cons _ hrest =>
    refine ⟨by rw [tail_cons, hrest.length_eq, length_cons], .cons (fun hspends ↦ ?_)
      hrest.forall₂_some⟩
    rw [head?_cons, Option.any_some, (spendsCoins_eq_true_iff.1 hspends).1] at hfirst
    cases hfirst

/-- A view as blocks make it. -/
structure CCoinsViewCache.WellFormed (view : CCoinsViewCache) : Prop where
  coherent : view.Coherent
  restorable : Restorable view.utxo

/-- No transaction of the block has the id of one with an unspent output. -/
def FreshIds (C : Crypto) (view : CCoinsViewCache) (block : CBlock) : Prop :=
  ∀ tx ∈ block.vtx, ∀ i < tx.vout.length, view.utxo ⟨tx.getHash C, UInt32.ofNat i⟩ = none

section Block

variable {ctx : ChainContext} {G G' : NodeState} {block : CBlock} {pindex : CBlockIndex}
  {view : CCoinsViewCache} {disk : DiskOutcome} {fAlreadyChecked : Bool} {connected : Connected}

theorem FreshIds.covered (h : FreshIds E.crypto view block) {tx : CTransaction} (htx : tx ∈ block.vtx)
    {nHeight : ℤ} {kv : COutPoint × Coin} (hkv : kv ∈ newCoins E.crypto tx nHeight) :
    view.Covered kv.1 := by
  obtain ⟨p, hp, hcoin⟩ := mem_filterMap.1 hkv
  rw [newCoin] at hcoin
  split_ifs at hcoin
  obtain rfl := Option.some.inj hcoin
  exact covered_of_utxo_none (h tx htx p.2 (snd_lt_of_mem_zipIdx hp))

theorem formChecked_of_connectBlock (hflag : block.fChecked = true → FormChecked E block)
    (hgenesis : block.getHash E.crypto ≠ E.consensus.hashGenesisBlock)
    (hok : connectBlock E ctx G block pindex view disk false fAlreadyChecked = (G', .ok connected)) :
    FormChecked E block := by
  cases hchecked : block.fChecked with
  | true => exact hflag hchecked
  | false =>
    obtain ⟨hbefore, -⟩ := (connectBlock_eq_ok_iff rfl hgenesis).1 hok
    rw [ConnectInput.checkBefore, hchecked] at hbefore
    simp only [Bool.not_false, Bool.and_self, Bool.or_true, if_true] at hbefore
    split at hbefore
    · rename_i b hb
      exact formChecked_of_checkBlock hb hchecked
    · split at hbefore <;> cases hbefore

/-- **What an accepted block has done** to the coins and the supply. -/
structure ConnectedCoins (E : ValidationEnv) (block : CBlock) (nHeight : ℤ) (view : CCoinsViewCache)
    (G G' : NodeState) (connected : Connected) (undos : List CTxUndo) : Prop where
  applies : AppliesAll E.crypto nHeight block.vtx undos view.utxo connected.view.utxo
  blockundo : connected.blockundo = undos.tail
  coherent : connected.view.Coherent
  supply : G'.nMoneySupply = G.nMoneySupply + (totalOut block.vtx - totalSpent E.crypto block.vtx undos)
  valueOut : ∀ tx ∈ block.vtx, tx.getValueOut = some tx.valueOut

theorem exists_connectedCoins (hview : view.Coherent) (hform : FormChecked E block)
    (hgenesis : block.getHash E.crypto ≠ E.consensus.hashGenesisBlock)
    (hfresh : FreshIds E.crypto view block)
    (hok : connectBlock E ctx G block pindex view disk false fAlreadyChecked = (G', .ok connected)) :
    ∃ undos, ConnectedCoins E block pindex.nHeight view G G' connected undos := by
  obtain ⟨-, -, burns, acc, hloop, -, hend⟩ := (connectBlock_eq_ok_iff rfl hgenesis).1 hok
  rw [if_neg Bool.false_ne_true] at hend
  obtain ⟨hG', hconnected⟩ := Prod.mk.inj hend.2
  obtain ⟨hkeeps, undos, happlies, hundos, hvalueIn, hvalueOut, hvalues⟩ :=
    ConnectInput.appliesAll_of_connectTxs
      (fun tx htx ↦ inputsDistinct_of_checkTransaction (hform.transactions tx htx)) hview
      (fun tx htx kv hkv ↦ hfresh.covered htx hkv) (congrArg Prod.snd hloop)
  rw [nil_append] at hundos
  subst hconnected hG'
  refine ⟨undos, happlies, congrArg List.tail hundos, ⟨hkeeps.coherent.fresh, hkeeps.coherent.clean⟩, ?_,
    hvalues⟩
  show G.nMoneySupply + (acc.nValueOut - acc.nValueIn) = _
  rw [hvalueIn, hvalueOut, zero_add, zero_add]

theorem wellFormed_of_connectBlock (hview : view.WellFormed) (hheight : pindex.nHeight ≠ 0)
    (hform : FormChecked E block)
    (hgenesis : block.getHash E.crypto ≠ E.consensus.hashGenesisBlock)
    (hfresh : FreshIds E.crypto view block)
    (hok : connectBlock E ctx G block pindex view disk false fAlreadyChecked = (G', .ok connected)) :
    connected.view.WellFormed := by
  obtain ⟨undos, h⟩ := exists_connectedCoins hview.coherent hform hgenesis hfresh hok
  exact ⟨h.coherent, hview.restorable.appliesAll hheight
    (fun tx htx ↦ (CTransaction.getValueOut_eq_some (h.valueOut tx htx)).2) h.applies⟩

/-- The result of `DisconnectBlock` once its loop has succeeded. -/
theorem disconnectBlock_of_undoTxs {vtxundo : List CTxUndo} {burns : BurnCache} {acc : DisconnectState}
    (hbest : view.getBestBlock = D.pindex.hash) (hlen : vtxundo.length + 1 = block.vtx.length)
    (h : D.undoTxs E (undoneTxs block vtxundo) G.mapAddressBurns { view := view } = (burns, .ok acc)) :
    disconnectBlock E D G block (some vtxundo) view =
      ({ G with
          mapAddressBurns := burns
          nMoneySupply := G.nMoneySupply - (acc.nValueOut - acc.nValueIn)
          masternodes := Masternode.disconnectMasternodes E.toActivityEnv
            (acc.view.setBestBlock D.pindex.hashPrev).getCoin D.readBlock G.masternodes block
            D.pindex.nHeight },
        .ok (acc.view.setBestBlock D.pindex.hashPrev, acc.fClean)) := by
  rw [disconnectBlock, if_neg (not_not.2 hbest.symm)]
  simp only [if_neg (not_not.2 hlen), h]

theorem disconnectBlock_of_appliesAll {undos : List CTxUndo} {U : Utxo} (hform : FormChecked E block)
    (hheight : D.pindex.nHeight ≠ 0) (hvalue : ∀ tx ∈ block.vtx, tx.getValueOut = some tx.valueOut)
    (hU : Restorable U) (hview : view.Coherent)
    (happlies : AppliesAll E.crypto D.pindex.nHeight block.vtx undos U view.utxo)
    (hbest : view.getBestBlock = D.pindex.hash) :
    ∃ G'' view'', disconnectBlock E D G block (some undos.tail) view = (G'', .ok (view'', true)) ∧
      view''.utxo = U ∧ G''.nMoneySupply =
        G.nMoneySupply - (totalOut block.vtx - totalSpent E.crypto block.vtx undos) := by
  have hin : ∀ tx ∈ block.vtx, InputsDistinct E.crypto tx := fun tx htx ↦
    inputsDistinct_of_checkTransaction (hform.transactions tx htx)
  obtain ⟨hundos, hxs⟩ := happlies.blockundo hform.first
  obtain ⟨burns, acc, hloop, hundone⟩ := DisconnectInput.exists_undoTxs (D := D) { view := view }
    happlies hheight hin hvalue hU hxs hview rfl G.mapAddressBurns
  have hresult := disconnectBlock_of_undoTxs hbest hundos hloop
  rw [hundone.fClean] at hresult
  refine ⟨_, _, hresult, hundone.utxo, ?_⟩
  show G.nMoneySupply - (acc.nValueOut - acc.nValueIn) = _
  rw [hundone.nValueIn, hundone.nValueOut, zero_add, zero_add]

/-- **Disconnecting restores the coins and the supply.** A block other than the genesis block that
connects to a well-formed view, and in which no transaction has the id of one with an unspent output,
is disconnected from any view with the same coins, with the undo data that was written: the result is
clean, and every unspent coin and the money supply are as before. -/
theorem coins_and_supply_restored (hview : view.WellFormed) (hheight : pindex.nHeight ≠ 0)
    (hflag : block.fChecked = true → FormChecked E block)
    (hgenesis : block.getHash E.crypto ≠ E.consensus.hashGenesisBlock)
    (hfresh : FreshIds E.crypto view block)
    (hok : connectBlock E ctx G block pindex view disk false fAlreadyChecked = (G', .ok connected))
    {view' : CCoinsViewCache} (hview' : view'.Coherent) (hsame : view'.utxo = connected.view.utxo)
    (hD : D.pindex = pindex) (hbest : view'.getBestBlock = pindex.hash) :
    ∃ G'' view'', disconnectBlock E D G' block (some connected.blockundo) view' =
        (G'', .ok (view'', true)) ∧
      view''.utxo = view.utxo ∧ G''.nMoneySupply = G.nMoneySupply := by
  have hform := formChecked_of_connectBlock hflag hgenesis hok
  obtain ⟨undos, h⟩ := exists_connectedCoins hview.coherent hform hgenesis hfresh hok
  subst hD
  obtain ⟨G'', view'', hresult, hutxo, hsupply⟩ := disconnectBlock_of_appliesAll (G := G') hform hheight
    h.valueOut hview.restorable hview' (hsame ▸ h.applies) hbest
  rw [← h.blockundo] at hresult
  exact ⟨G'', view'', hresult, hutxo, by rw [hsupply, h.supply, add_sub_cancel_right]⟩

end Block

/-! ### The burn, undone -/

section Example

theorem wellFormed_burnView : burnView.WellFormed := by
  refine ⟨coherent_ofBase _, fun o coin hcoin ↦ ?_⟩
  obtain ⟨hget, -⟩ := unspent_eq_some_iff.1 hcoin
  have hcases : (if o = burnedOutpoint then some (burnView.accessCoin burnedOutpoint) else none) =
      some coin := by
    rw [← hget]
    by_cases ho : o = burnedOutpoint
    · rw [if_pos ho, ho]
      decide
    · simp [burnView, getCoin, ofBase, ho]
  split_ifs at hcases
  obtain rfl := Option.some.inj hcases
  exact ⟨by decide, by decide, by decide⟩

def connectedBurn : Connected := (connectBurnBlock 100).2.okOr ⟨burnView, []⟩

/-- The block with the burn is undone from the view that it has left. -/
theorem burnBlock_restored : connectBurnBlock 100 = ((connectBurnBlock 100).1, .ok connectedBurn) ∧
    ∃ G view, disconnectBlock default ⟨burnIndex 100, fun _ ↦ none, fun _ ↦ none⟩
        (connectBurnBlock 100).1 (burnBlock 100) (some connectedBurn.blockundo) connectedBurn.view =
          (G, .ok (view, true)) ∧
      view.utxo = burnView.utxo ∧ G.nMoneySupply = emptyNode.nMoneySupply := by
  have hsnd : (connectBurnBlock 100).2 = .ok connectedBurn :=
    Except.eq_ok_okOr (by decide +kernel) _
  have hok : connectBurnBlock 100 = ((connectBurnBlock 100).1, .ok connectedBurn) :=
    Prod.mk.eta.symm.trans (congrArg (Prod.mk _) hsnd)
  have hfresh : FreshIds (default : ValidationEnv).crypto burnView (burnBlock 100) := by
    rw [FreshIds]
    decide +kernel
  have hgenesis : (burnBlock 100).getHash (default : ValidationEnv).crypto ≠
      (default : ValidationEnv).consensus.hashGenesisBlock := by decide +kernel
  have hheight : (burnIndex 100).nHeight ≠ 0 := show (2 : ℤ) ≠ 0 by decide
  have hflag : (burnBlock 100).fChecked = true → FormChecked default (burnBlock 100) := nofun
  have hconnected := wellFormed_of_connectBlock wellFormed_burnView hheight
    (formChecked_of_connectBlock hflag hgenesis hok) hgenesis hfresh hok
  have hbest : connectedBurn.view.getBestBlock = (burnIndex 100).hash := by decide +kernel
  exact ⟨hok, coins_and_supply_restored wellFormed_burnView hheight hflag hgenesis hfresh hok
    hconnected.coherent rfl rfl hbest⟩

end Example

end KristaTech
