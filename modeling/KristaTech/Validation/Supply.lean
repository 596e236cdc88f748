import KristaTech.Validation.ChainRun
import KristaTech.Chain.Values
import Mathlib.Tactic.Linarith
import Mathlib.Algebra.Order.BigOperators.Group.List

/-!
# The money supply of a run

What `ConnectBlock` and `DisconnectBlock` do to the money supply, whatever view they are given: a
block adds what it pays out and takes away what it spends, at most `GetBlockValue` on balance
(`exists_connectedSupply`), and disconnecting it takes the same amount back
(`supply_of_disconnectBlock`). So the supply stays within the money range in every run
(`ChainRun.supply_le`).

Nothing is asked of the view but that its coins can be spent; `AddCoin` stores no others.
-/

namespace KristaTech

open CCoinsViewCache List Except

variable {E : ValidationEnv} {I : ConnectInput}

/-! ### Fees -/

variable {inputs : CCoinsViewCache}

theorem sum_of_checkTxInput {nSpendHeight : ℤ} {vin : List CTxIn} {n n' : CAmount}
    (h : vin.foldlM (checkTxInput E inputs nSpendHeight) n = .ok n') :
    n' = n + (vin.map fun txin ↦ (inputs.accessCoin txin.prevout).out.nValue).sum ∧
      ∀ v ∈ vin.map fun txin ↦ (inputs.accessCoin txin.prevout).out.nValue, 0 ≤ v := by
  induction vin generalizing n with
  | nil =>
    obtain rfl := Except.ok.inj h
    simp
  | cons txin vin ih =>
    rw [foldlM_cons] at h
    obtain ⟨n₁, hn₁, hrest⟩ := bind_eq_ok_iff.1 h
    obtain ⟨_, -, hn₁⟩ := bind_eq_ok_iff.1 hn₁
    obtain ⟨_, hrange, hn₁⟩ := bind_eq_ok_iff.1 hn₁
    obtain rfl := Except.ok.inj hn₁
    obtain ⟨rfl, hvalues⟩ := ih hrest
    rw [map_cons, sum_cons, forall_mem_cons]
    refine ⟨by rw [add_assoc], ?_, hvalues⟩
    simp only [rejectIf_eq_ok_iff, Bool.or_eq_true, Bool.not_eq_true', not_or, Bool.not_eq_false,
      Params.moneyRange, Bool.and_eq_true, decide_eq_true_eq] at hrange
    exact hrange.1.1

theorem values_of_checkInputs {ctx : ChainContext} {s : Masternode.MasternodeState}
    {tx : CTransaction} {fScriptChecks fQueue : Bool} {flags : ScriptFlags}
    {checks : List CScriptCheck} (hspends : spendsCoins E.crypto tx = true)
    (hheight : E.consensus.totalBlocksEstimate < getSpendHeight ctx inputs)
    (h : checkInputs E ctx s inputs tx fScriptChecks flags fQueue = .ok checks) :
    0 ≤ inputs.getValueIn tx ∧ (tx.isCoinStake = false → tx.valueOut ≤ inputs.getValueIn tx) := by
  obtain ⟨hcoinbase, hzero⟩ : tx.isCoinBase = false ∧ E.isZeroCoinPoW tx = false :=
    spendsCoins_eq_true_iff.1 hspends
  rw [checkInputs, hcoinbase, if_neg Bool.false_ne_true] at h
  obtain ⟨_, hinputs, -⟩ := bind_eq_ok_iff.1 h
  rw [checkTxInputs, if_neg (not_le.2 hheight), hzero, if_neg Bool.false_ne_true] at hinputs
  obtain ⟨_, -, hinputs⟩ := bind_eq_ok_iff.1 hinputs
  obtain ⟨nValueIn, hsum, hinputs⟩ := bind_eq_ok_iff.1 hinputs
  obtain ⟨rfl, hvalues⟩ := sum_of_checkTxInput hsum
  rw [getValueIn, hcoinbase, if_neg Bool.false_ne_true]
  refine ⟨sum_nonneg hvalues, fun hstake ↦ ?_⟩
  simp only [hstake, Bool.not_false, if_true] at hinputs
  obtain ⟨nValueOut, hout, hinputs⟩ := bind_eq_ok_iff.1 hinputs
  obtain ⟨_, hle, -⟩ := bind_eq_ok_iff.1 hinputs
  rw [rejectIf_eq_ok_iff, not_lt, zero_add] at hle
  obtain ⟨rfl, -⟩ := CTransaction.getValueOut_eq_some (orThrow_eq_ok_iff.1 hout)
  exact hle

/-! ### Connecting -/

def Recorded (C : Crypto) (tx : CTransaction) (undo : CTxUndo) : Prop :=
  spendsCoins C tx = true → ∀ coin ∈ undo,
    CScript.isUnspendable coin.out.scriptPubKey = false ∧ coin.isSpent = false

namespace ConnectInput

/-- What a turn has written: the undo data are the coins that are read, and they can be put back. -/
structure RecordedTurn (E : ValidationEnv) (acc mid : ConnectState) (tx : CTransaction)
    (undo : CTxUndo) (acc' : ConnectState) : Prop where
  written : ∃ view', acc' = { mid with view := view', vtxundo := mid.vtxundo ++ [undo] }
  spendable : acc'.view.Spendable
  bestBlock : mid.view.getBestBlock = acc.view.getBestBlock ∧ acc'.view.getBestBlock = acc.view.getBestBlock
  spent : spendsCoins E.crypto tx = true → undo = tx.vin.map fun txin ↦ mid.view.accessCoin txin.prevout
  recorded : Recorded E.crypto tx undo

variable {vtx : List CTransaction}

theorem exists_recordedTurn (hin : InputsDistinct E.crypto tx) (hview : acc.view.Spendable)
    (hcheck : I.checkTx E acc tx = .ok mid) (hupdate : I.updateTx E mid tx = .ok acc') :
    ∃ undo, RecordedTurn E acc mid tx undo acc' := by
  have hchecked := txChecked_of_checkTx hcheck
  have hmid : mid.view.Spendable ∧ mid.view.getBestBlock = acc.view.getBestBlock := by
    rw [hchecked.view]
    split_ifs
    · exact ⟨hview.haveInputs tx, getBestBlock_haveInputs tx⟩
    · exact ⟨hview, rfl⟩
  obtain ⟨⟨undo, view'⟩, hcoins, hacc'⟩ := bind_eq_ok_iff.1 hupdate
  obtain rfl := Except.ok.inj hacc'
  have hcoins := orThrow_eq_ok_iff.1 hcoins
  have hundo : spendsCoins E.crypto tx = true →
      undo = tx.vin.map fun txin ↦ mid.view.accessCoin txin.prevout := fun hspends ↦
    (updateCoins_fst hcoins).trans (spendInputs_fst hspends hin)
  refine ⟨undo, ⟨view', rfl⟩, hmid.1.updateCoins hcoins,
    ⟨hmid.2, (getBestBlock_updateCoins hcoins).trans hmid.2⟩, hundo, fun hspends coin hcoin ↦ ?_⟩
  rw [hundo hspends] at hcoin
  obtain ⟨txin, htxin, rfl⟩ := mem_map.1 hcoin
  have hhave := (haveInputs_eq_true_iff tx (spendsCoins_eq_true_iff.1 hspends).1).1
    (hchecked.have_inputs hspends) txin htxin
  refine ⟨hmid.1.accessCoin _, ?_⟩
  rw [hchecked.view, if_pos hspends, accessCoin, getCoin_haveInputs, ← accessCoin]
  simpa [haveCoin] using hhave

/-- What some turns of the loop have counted. -/
structure Counted (E : ValidationEnv) (acc : ConnectState) (vtx : List CTransaction)
    (undos : List CTxUndo) (acc' : ConnectState) : Prop where
  spendable : acc'.view.Spendable
  bestBlock : acc'.view.getBestBlock = acc.view.getBestBlock
  recorded : List.Forall₂ (Recorded E.crypto) vtx undos
  vtxundo : acc'.vtxundo = acc.vtxundo ++ undos
  nValueIn : acc'.nValueIn = acc.nValueIn + totalSpent E.crypto vtx undos
  nValueOut : acc'.nValueOut = acc.nValueOut + totalOut vtx
  nFees : acc.nFees ≤ acc'.nFees ∧ acc'.nFees ≤ acc.nFees + totalSpent E.crypto vtx undos

variable {acc mid acc' : ConnectState} {tx : CTransaction}

theorem exists_countedTurn (hin : InputsDistinct E.crypto tx) (hview : acc.view.Spendable)
    (hheight : E.consensus.totalBlocksEstimate < getSpendHeight I.ctx acc.view)
    (hcheck : I.checkTx E acc tx = .ok mid) (hupdate : I.updateTx E mid tx = .ok acc') :
    ∃ undo, Counted E acc [tx] [undo] acc' := by
  have hchecked := txChecked_of_checkTx hcheck
  obtain ⟨undo, hturn⟩ := exists_recordedTurn hin hview hcheck hupdate
  obtain ⟨view', rfl⟩ := hturn.written
  have hout := (CTransaction.getValueOut_eq_some hchecked.valueOut).2
  have hvalueIn : spendsCoins E.crypto tx = true →
      mid.view.getValueIn tx = valueSpent E.crypto tx undo := by
    intro hspends
    rw [getValueIn, (spendsCoins_eq_true_iff.1 hspends).1, if_neg Bool.false_ne_true, valueSpent,
      if_pos hspends, hturn.spent hspends, map_map]
    rfl
  refine ⟨undo, hturn.spendable, hturn.bestBlock.2, .cons hturn.recorded .nil,
    by rw [hchecked.vtxundo], ?_, ?_, ?_⟩
  · show mid.nValueIn = _
    rw [hchecked.nValueIn, totalSpent, zipWith_cons_cons, zipWith_nil_left, sum_singleton]
    split_ifs with hspends
    · rw [hvalueIn hspends]
    · rw [valueSpent, if_neg hspends]
  · show mid.nValueOut = _
    rw [hchecked.nValueOut, totalOut, map_singleton, sum_singleton]
  · show acc.nFees ≤ mid.nFees ∧ mid.nFees ≤ _
    have hvalueOut : 0 ≤ tx.valueOut := sum_nonneg fun v hv ↦ by
      obtain ⟨out, hmem, rfl⟩ := mem_map.1 hv
      exact hout out hmem
    rw [hchecked.nFees, totalSpent, zipWith_cons_cons, zipWith_nil_left, sum_singleton]
    cases hspends : spendsCoins E.crypto tx with
    | false => simp [valueSpent, hspends]
    | true =>
      obtain ⟨checks, hchecks, -⟩ := hchecked.checks
      have hspendHeight : E.consensus.totalBlocksEstimate < getSpendHeight I.ctx mid.view := by
        rw [getSpendHeight, hturn.bestBlock.1, ← getSpendHeight]
        exact hheight
      obtain ⟨hnonneg, hle⟩ := values_of_checkInputs hspends hspendHeight hchecks
      rw [hvalueIn hspends] at hnonneg hle ⊢
      cases hstake : tx.isCoinStake with
      | true => simp [hnonneg]
      | false =>
        have hle := hle hstake
        simp only [Bool.not_false, Bool.and_self, if_true]
        constructor <;> linarith

theorem totalSpent_cons (C : Crypto) (tx : CTransaction) (undo : CTxUndo) (vtx : List CTransaction)
    (undos : List CTxUndo) : totalSpent C (tx :: vtx) (undo :: undos) =
      totalSpent C [tx] [undo] + totalSpent C vtx undos := by
  simp [totalSpent]

theorem totalOut_cons (tx : CTransaction) (vtx : List CTransaction) :
    totalOut (tx :: vtx) = totalOut [tx] + totalOut vtx := by
  simp [totalOut]

theorem Counted.cons {undo : CTxUndo} {undos : List CTxUndo} (h : Counted E acc [tx] [undo] mid)
    (h' : Counted E mid vtx undos acc') : Counted E acc (tx :: vtx) (undo :: undos) acc' where
  spendable := h'.spendable
  bestBlock := h'.bestBlock.trans h.bestBlock
  recorded := by
    cases h.recorded with
    | cons hrecorded _ => exact .cons hrecorded h'.recorded
  vtxundo := by rw [h'.vtxundo, h.vtxundo, append_assoc, singleton_append]
  nValueIn := by rw [h'.nValueIn, h.nValueIn, totalSpent_cons E.crypto tx undo vtx undos, add_assoc]
  nValueOut := by rw [h'.nValueOut, h.nValueOut, totalOut_cons tx vtx, add_assoc]
  nFees := by
    rw [totalSpent_cons E.crypto tx undo vtx undos]
    exact ⟨h.nFees.1.trans h'.nFees.1, by linarith [h.nFees.2, h'.nFees.2]⟩

/-- **What the loop has counted**, in any view. -/
theorem exists_counted {burns : BurnCache} (hin : ∀ tx ∈ vtx, InputsDistinct E.crypto tx)
    (hview : acc.view.Spendable)
    (hheight : E.consensus.totalBlocksEstimate < getSpendHeight I.ctx acc.view)
    (h : (I.connectTxs E vtx burns acc).2 = .ok acc') : ∃ undos, Counted E acc vtx undos acc' := by
  induction vtx generalizing acc burns with
  | nil =>
    obtain rfl := Except.ok.inj h
    exact ⟨[], hview, rfl, .nil, by simp, by simp [totalSpent], by simp [totalOut], by simp [totalSpent]⟩
  | cons tx vtx ih =>
    rw [forall_mem_cons] at hin
    obtain ⟨mid, acc₁, hmid, hacc₁, h⟩ := exists_of_effectLoop_cons h
    obtain ⟨undo, hturn⟩ := exists_countedTurn hin.1 hview hheight hmid hacc₁
    have hheight₁ : E.consensus.totalBlocksEstimate < getSpendHeight I.ctx acc₁.view := by
      rw [getSpendHeight, hturn.bestBlock, ← getSpendHeight]
      exact hheight
    obtain ⟨undos, hcounted⟩ := ih hin.2 hturn.spendable hheight₁ h
    exact ⟨undo :: undos, hturn.cons hcounted⟩

end ConnectInput

/-- **What an accepted block has done** to the supply: it was `n` before and is `n'` now. -/
structure ConnectedSupply (E : ValidationEnv) (block : CBlock) (nHeight : ℤ) (n n' : CAmount)
    (blockundo undos : List CTxUndo) : Prop where
  form : FormChecked E block
  recorded : List.Forall₂ (Recorded E.crypto) block.vtx undos
  blockundo : blockundo = undos.tail
  supply : n' = n + (totalOut block.vtx - totalSpent E.crypto block.vtx undos)
  minted : totalOut block.vtx - totalSpent E.crypto block.vtx undos ≤ E.consensus.getBlockValue n nHeight

section Connect

variable {s : ChainState} {c : ConnectCall} {G : NodeState} {connected : Connected}

theorem ConnectCall.OnTip.getSpendHeight_eq (htip : c.OnTip E s)
    (hbefore : (⟨c.ctx, s.node.masternodes, c.pindex, false⟩ : ConnectInput).checkBefore E c.block c.view
      c.fAlreadyChecked = .ok ()) : getSpendHeight c.ctx c.view = c.pindex.nHeight := by
  have hpprev : c.ctx.mapBlockIndex c.pindex.hashPrev = some s.tip := by
    rw [htip.hashPrev, htip.index]
  rw [getSpendHeight, ConnectInput.getBestBlock_of_checkBefore hbefore, ConnectInput.pprev, hpprev,
    Option.elim_some, htip.index, htip.nHeight]

theorem exists_connectedSupply (htip : c.OnTip E s) (hview : c.view.Spendable)
    (hheight : E.consensus.totalBlocksEstimate < c.pindex.nHeight)
    (hok : c.run E s.node = (G, .ok connected)) :
    ∃ undos, ConnectedSupply E c.block c.pindex.nHeight s.node.nMoneySupply G.nMoneySupply
      connected.blockundo undos := by
  have hform := formChecked_of_connectBlock htip.formChecked htip.notGenesis hok
  obtain ⟨hbefore, -, burns, acc, hloop, hafter, hend⟩ :=
    (connectBlock_eq_ok_iff rfl htip.notGenesis).1 hok
  rw [if_neg Bool.false_ne_true] at hend
  obtain ⟨rfl, rfl⟩ := Prod.mk.inj hend.2
  obtain ⟨undos, hcounted⟩ := ConnectInput.exists_counted
    (fun tx htx ↦ inputsDistinct_of_checkTransaction (hform.transactions tx htx)) hview
    (by rw [htip.getSpendHeight_eq hbefore]; exact hheight) (congrArg Prod.snd hloop)
  have hin : acc.nValueIn = totalSpent E.crypto c.block.vtx undos :=
    hcounted.nValueIn.trans (zero_add _)
  have hout : acc.nValueOut = totalOut c.block.vtx := hcounted.nValueOut.trans (zero_add _)
  have hfees : 0 ≤ acc.nFees := hcounted.nFees.1
  refine ⟨undos, hform, hcounted.recorded, congrArg List.tail hcounted.vtxundo, ?_, ?_⟩
  · show s.node.nMoneySupply + (acc.nValueOut - acc.nValueIn) = _
    rw [hin, hout]
  · have hpprev : c.ctx.mapBlockIndex c.pindex.hashPrev = some s.tip := by
      rw [htip.hashPrev, htip.index]
    rw [ConnectInput.checkAfter, ConnectInput.pprev, hpprev] at hafter
    obtain ⟨_, hmint, -⟩ := bind_eq_ok_iff.1 hafter
    simp only [rejectIf_eq_ok_iff, not_lt, hin, hout, ← htip.nHeight] at hmint
    split_ifs at hmint <;> linarith

end Connect

/-! ### Disconnecting -/

namespace DisconnectInput

variable {acc mid acc' : DisconnectState}
variable {view : CCoinsViewCache}

theorem applyTxInUndo_cases {undo : Coin} {view' : CCoinsViewCache} {o : COutPoint} {b : Bool}
    (h : applyTxInUndo undo view o = .ok (b, view')) :
    ∃ coin : Coin, coin.out = undo.out ∧ (view.fetchCoin o).addCoin o coin false = some view' := by
  simp only [applyTxInUndo] at h
  split_ifs at h
  · cases h
  all_goals
    rw [ok_bind] at h
    split at h
    · rename_i view₁ hview₁
      rw [(Prod.mk.inj (Except.ok.inj h)).2] at hview₁
      refine ⟨_, ?_, hview₁⟩
      rfl
    · cases h

/-- The input has a coin that is worth what the undo data says. -/
def Restored (view : CCoinsViewCache) (p : CTxIn × Coin) : Prop :=
  ∃ coin, view.getCoin p.1.prevout = some coin ∧ coin.out = p.2.out

theorem restored_of_foldlM_undoInput {l : List (CTxIn × Coin)}
    (hnodup : (l.map (·.1.prevout)).Nodup) (hnull : ∀ p ∈ l, p.1.prevout.isNull = false)
    (hscript : ∀ p ∈ l, CScript.isUnspendable p.2.out.scriptPubKey = false)
    (h : l.foldlM undoInput acc = .ok acc') :
    (∀ p ∈ l, Restored acc'.view p) ∧
      (∀ o, o ∉ l.map (·.1.prevout) → acc'.view.getCoin o = acc.view.getCoin o) ∧
      acc'.nValueIn = acc.nValueIn ∧ acc'.nValueOut = acc.nValueOut := by
  induction l generalizing acc with
  | nil =>
    obtain rfl := Except.ok.inj h
    exact ⟨nofun, fun _ _ ↦ rfl, rfl, rfl⟩
  | cons p l ih =>
    rw [map_cons, nodup_cons] at hnodup
    rw [forall_mem_cons] at hnull hscript
    rw [foldlM_cons] at h
    obtain ⟨acc₁, hacc₁, hrest⟩ := bind_eq_ok_iff.1 h
    rw [undoInput, hnull.1, if_neg Bool.false_ne_true] at hacc₁
    obtain ⟨⟨fClean, view₁⟩, hundo, hacc₁⟩ := bind_eq_ok_iff.1 hacc₁
    obtain rfl := Except.ok.inj hacc₁
    obtain ⟨coin, hout, hadd⟩ := applyTxInUndo_cases hundo
    have haltered : AltersOnly p.1.prevout acc.view view₁ :=
      (AltersOnly.fetchCoin acc.view _).trans (.addCoin hadd)
    obtain ⟨hrestored, hothers, hin, hvalueOut⟩ := ih hnodup.2 hnull.2 hscript.2 hrest
    refine ⟨?_, fun o ho ↦ ?_, hin, hvalueOut⟩
    · rw [forall_mem_cons]
      refine ⟨⟨coin, ?_, hout⟩, hrestored⟩
      rw [hothers _ hnodup.1]
      exact getCoin_of_addCoin hadd (by rw [hout]; exact hscript.1)
    · rw [map_cons, mem_cons, not_or] at ho
      rw [hothers o ho.2]
      exact haltered.getCoin_of_ne ho.1

theorem values_undoOutputs (tx : CTransaction) (acc : DisconnectState) :
    (undoOutputs E tx acc).nValueIn = acc.nValueIn ∧ (undoOutputs E tx acc).nValueOut = acc.nValueOut := by
  refine foldl_invariant (motive := fun acc' : DisconnectState ↦
    acc'.nValueIn = acc.nValueIn ∧ acc'.nValueOut = acc.nValueOut) ⟨rfl, rfl⟩ fun p _ acc' hacc' ↦ ?_
  split_ifs <;> exact hacc'

/-- What a transaction's undo data is worth; the first one has none. -/
def undoneValue (C : Crypto) (p : UndoneTx) : CAmount := valueSpent C p.1 (p.2.getD [])

theorem getValueIn_of_restored {tx : CTransaction} {undo : CTxUndo}
    (hspends : spendsCoins E.crypto tx = true) (hlength : undo.length = tx.vin.length)
    (hrecorded : Recorded E.crypto tx undo) (h : ∀ p ∈ tx.vin.zip undo, Restored view p) :
    (view.haveInputs tx).1 = true ∧ (view.haveInputs tx).2.getValueIn tx = valueSpent E.crypto tx undo := by
  have hcoinbase : tx.isCoinBase = false := (spendsCoins_eq_true_iff.1 hspends).1
  have hvin : (tx.vin.zip undo).map Prod.fst = tx.vin := map_fst_zip (Nat.le_of_eq hlength.symm)
  have hundo : (tx.vin.zip undo).map Prod.snd = undo := map_snd_zip (Nat.le_of_eq hlength)
  have haccess : ∀ p ∈ tx.vin.zip undo, (view.accessCoin p.1.prevout).out = p.2.out := by
    intro p hp
    obtain ⟨coin, hcoin, hout⟩ := h p hp
    rw [accessCoin, hcoin, Option.getD_some, hout]
  constructor
  · rw [haveInputs_eq_true_iff tx hcoinbase]
    intro txin htxin
    rw [← hvin] at htxin
    obtain ⟨p, hp, rfl⟩ := mem_map.1 htxin
    have hunspent := (hrecorded hspends p.2 (of_mem_zip hp).2).2
    rw [haveCoin, Coin.isSpent, haccess p hp, ← Coin.isSpent, hunspent, Bool.not_false]
  · rw [getValueIn, hcoinbase, if_neg Bool.false_ne_true, valueSpent, if_pos hspends, ← hundo,
      map_map, ← hvin, map_map, hvin]
    refine congrArg List.sum (map_congr_left fun p hp ↦ ?_)
    show ((view.haveInputs tx).2.accessCoin p.1.prevout).out.nValue = p.2.out.nValue
    rw [accessCoin, getCoin_haveInputs, ← accessCoin, haccess p hp]

/-- What undoing one transaction has left: the sum of the outputs is counted, and where coins were
spent, the inputs have their coins again. -/
structure UndoneTurn (E : ValidationEnv) (acc : DisconnectState) (p : UndoneTx)
    (mid : DisconnectState) : Prop where
  nValueIn : mid.nValueIn = acc.nValueIn
  nValueOut : mid.nValueOut = acc.nValueOut + p.1.valueOut
  restored : spendsCoins E.crypto p.1 = true → ∃ undo, p.2 = some undo ∧
    undo.length = p.1.vin.length ∧ ∀ q ∈ p.1.vin.zip undo, Restored mid.view q

theorem undoneTurn_of_undoTx {p : UndoneTx} (hin : InputsDistinct E.crypto p.1)
    (hrecorded : Recorded E.crypto p.1 (p.2.getD [])) (hundo : undoTx E acc p = .ok mid) :
    UndoneTurn E acc p mid := by
  obtain ⟨tx, x⟩ := p
  have hhas : hasInputs E tx = spendsCoins E.crypto tx := rfl
  simp only [undoTx] at hundo
  split at hundo
  · cases hundo
  rename_i nTxOut hvalue
  obtain ⟨rfl, -⟩ := CTransaction.getValueOut_eq_some hvalue
  obtain ⟨hvalueIn, hvalueOut⟩ :=
    values_undoOutputs (E := E) tx { acc with nValueOut := acc.nValueOut + tx.valueOut }
  cases hspends : spendsCoins E.crypto tx with
  | false =>
    simp only [hhas, hspends, Bool.not_false, if_true] at hundo
    obtain rfl := Except.ok.inj hundo
    exact ⟨hvalueIn, hvalueOut, fun h ↦ absurd (h.symm.trans hspends) (by decide)⟩
  | true =>
    simp only [hhas, hspends, Bool.not_true, Bool.false_eq_true, if_false] at hundo
    cases x with
    | none => cases hundo
    | some undo =>
      simp only at hundo
      split_ifs at hundo with hlength
      rw [not_not] at hlength
      dsimp only [Option.getD_some] at hin hrecorded
      have hvin : (tx.vin.zip undo).map Prod.fst = tx.vin :=
        map_fst_zip (Nat.le_of_eq hlength.symm)
      have hprevouts : (tx.vin.zip undo).reverse.map (·.1.prevout) = (tx.vin.map (·.prevout)).reverse := by
        rw [map_reverse, ← hvin, map_map, hvin]
        rfl
      obtain ⟨hrestored, -, hmidIn, hmidOut⟩ := restored_of_foldlM_undoInput
        (by rw [hprevouts, nodup_reverse]; exact hin.nodup)
        (fun p hp ↦ hin.notNull hspends p.1 (of_mem_zip (mem_reverse.1 hp)).1)
        (fun p hp ↦ (hrecorded hspends p.2 (of_mem_zip (mem_reverse.1 hp)).2).1) hundo
      exact ⟨hmidIn.trans hvalueIn, hmidOut.trans hvalueOut, fun _ ↦
        ⟨undo, rfl, hlength, fun p hp ↦ hrestored p (mem_reverse.2 hp)⟩⟩

theorem values_of_undoTurn {p : UndoneTx} (hin : InputsDistinct E.crypto p.1)
    (hrecorded : Recorded E.crypto p.1 (p.2.getD [])) (hundo : undoTx E acc p = .ok mid)
    (hcount : countInputs E mid p = .ok acc') :
    acc'.nValueIn = acc.nValueIn + undoneValue E.crypto p ∧
      acc'.nValueOut = acc.nValueOut + p.1.valueOut := by
  have hturn := undoneTurn_of_undoTx hin hrecorded hundo
  have hhas : hasInputs E p.1 = spendsCoins E.crypto p.1 := rfl
  cases hspends : spendsCoins E.crypto p.1 with
  | false =>
    simp only [countInputs, hhas, hspends, Bool.false_eq_true, if_false] at hcount
    obtain rfl := Except.ok.inj hcount
    rw [undoneValue, valueSpent, hspends, if_neg Bool.false_ne_true, add_zero]
    exact ⟨hturn.nValueIn, hturn.nValueOut⟩
  | true =>
    obtain ⟨undo, hundo, hlength, hrestored⟩ := hturn.restored hspends
    rw [hundo, Option.getD_some] at hrecorded
    obtain ⟨hhave, hgetValueIn⟩ := getValueIn_of_restored hspends hlength hrecorded hrestored
    simp only [countInputs, hhas, hspends, if_true, hhave, hgetValueIn] at hcount
    obtain rfl := Except.ok.inj hcount
    exact ⟨by rw [hturn.nValueIn, undoneValue, hundo, Option.getD_some], hturn.nValueOut⟩

/-- **What the loop of the undoing has counted.** -/
theorem values_of_undoTxs {D : DisconnectInput} {l : List UndoneTx} {burns : BurnCache}
    (hin : ∀ p ∈ l, InputsDistinct E.crypto p.1)
    (hrecorded : ∀ p ∈ l, Recorded E.crypto p.1 (p.2.getD []))
    (h : (D.undoTxs E l burns acc).2 = .ok acc') :
    acc'.nValueIn = acc.nValueIn + (l.map (undoneValue E.crypto)).sum ∧
      acc'.nValueOut = acc.nValueOut + (l.map (·.1.valueOut)).sum := by
  induction l generalizing acc burns with
  | nil =>
    obtain rfl := Except.ok.inj h
    simp
  | cons p l ih =>
    rw [forall_mem_cons] at hin hrecorded
    obtain ⟨mid, acc₁, hmid, hacc₁, h⟩ := exists_of_effectLoop_cons h
    obtain ⟨hturnIn, hturnOut⟩ := values_of_undoTurn hin.1 hrecorded.1 hmid hacc₁
    obtain ⟨hrestIn, hrestOut⟩ := ih hin.2 hrecorded.2 h
    rw [map_cons, sum_cons, map_cons, sum_cons, ← add_assoc, ← add_assoc, ← hturnIn, ← hturnOut]
    exact ⟨hrestIn, hrestOut⟩

end DisconnectInput

section Written

variable {C : Crypto} {txs : List CTransaction} {undos : List CTxUndo}

/-- What is known of transactions with their undo data, as they are undone. -/
structure Written (C : Crypto) (txs : List CTransaction) (undos : List CTxUndo)
    (l : List UndoneTx) : Prop where
  spent : (l.map (DisconnectInput.undoneValue C)).sum = totalSpent C txs undos
  out : (l.map (·.1.valueOut)).sum = totalOut txs
  recorded : ∀ p ∈ l, p.1 ∈ txs ∧ Recorded C p.1 (p.2.getD [])

theorem Written.cons {tx : CTransaction} {undo : CTxUndo} {x : Option CTxUndo} {l : List UndoneTx}
    (hx : spendsCoins C tx = true → x = some undo) (hrecorded : Recorded C tx undo)
    (h : Written C txs undos l) : Written C (tx :: txs) (undo :: undos) ((tx, x) :: l) where
  spent := by
    have hvalue : DisconnectInput.undoneValue C (tx, x) = valueSpent C tx undo := by
      rw [DisconnectInput.undoneValue, valueSpent, valueSpent]
      split_ifs with hspends
      · rw [hx hspends, Option.getD_some]
      · rfl
    rw [map_cons, sum_cons, hvalue, h.spent, totalSpent, totalSpent, zipWith_cons_cons, sum_cons]
  out := by rw [map_cons, sum_cons, h.out, totalOut, totalOut, map_cons, sum_cons]
  recorded := by
    rw [forall_mem_cons]
    refine ⟨⟨mem_cons_self, fun hspends ↦ ?_⟩, fun p hp ↦
      ⟨mem_cons_of_mem _ (h.recorded p hp).1, (h.recorded p hp).2⟩⟩
    rw [hx hspends, Option.getD_some]
    exact hrecorded hspends

theorem written_of_recorded (h : List.Forall₂ (Recorded C) txs undos) :
    Written C txs undos (txs.zip (undos.map some)) := by
  induction h with
  | nil => exact ⟨rfl, rfl, nofun⟩
  | cons hrecorded _ ih => exact ih.cons (fun _ ↦ rfl) hrecorded

theorem written_undoneTxs {block : CBlock} (hfirst : block.vtx.head?.any (·.isCoinBase) = true)
    (h : List.Forall₂ (Recorded C) block.vtx undos) :
    Written C block.vtx undos (undoneTxs block undos.tail) := by
  have hwritten : Written C block.vtx undos (block.vtx.zip (none :: undos.tail.map some)) := by
    generalize block.vtx = vtx at hfirst h
    cases h with
    | nil => simp at hfirst
    | cons hrecorded hrest =>
      refine (written_of_recorded hrest).cons (fun hspends ↦ ?_) hrecorded
      rw [head?_cons, Option.any_some, (spendsCoins_eq_true_iff.1 hspends).1] at hfirst
      cases hfirst
  refine ⟨?_, ?_, fun p hp ↦ hwritten.recorded p (mem_reverse.1 hp)⟩
  · rw [undoneTxs, map_reverse, sum_reverse, hwritten.spent]
  · rw [undoneTxs, map_reverse, sum_reverse, hwritten.out]

end Written

/-- **Disconnecting a block** takes back what connecting it has added. -/
theorem supply_of_disconnectBlock {D : DisconnectInput} {G G' : NodeState} {block : CBlock}
    {view view' : CCoinsViewCache} {b : Bool} {undos : List CTxUndo} (hform : FormChecked E block)
    (hrecorded : List.Forall₂ (Recorded E.crypto) block.vtx undos)
    (h : disconnectBlock E D G block (some undos.tail) view = (G', .ok (view', b))) :
    G'.nMoneySupply = G.nMoneySupply - (totalOut block.vtx - totalSpent E.crypto block.vtx undos) := by
  rw [disconnectBlock] at h
  split_ifs at h
  · cases h
  · cases h
  generalize hloop : D.undoTxs E (undoneTxs block undos.tail) G.mapAddressBurns { view := view } = loop at h
  obtain ⟨burns, result⟩ := loop
  cases result with
  | error e => cases h
  | ok acc =>
    obtain ⟨rfl, -⟩ := Prod.mk.inj h
    have hwritten := written_undoneTxs hform.first hrecorded
    obtain ⟨hin, hout⟩ := DisconnectInput.values_of_undoTxs (fun p hp ↦ inputsDistinct_of_checkTransaction
        (hform.transactions p.1 (hwritten.recorded p hp).1))
      (fun p hp ↦ (hwritten.recorded p hp).2) (congrArg Prod.snd hloop)
    rw [hwritten.spent, zero_add] at hin
    rw [hwritten.out, zero_add] at hout
    rw [hin, hout]

/-! ### Runs -/

/-- The supply as the blocks of the chain have made it. -/
inductive Supplied (E : ValidationEnv) : List Link → CAmount → Prop
  | nil : Supplied E [] 0
  | cons {link links undos n n'} : Supplied E links n →
    ConnectedSupply E link.block link.pindex.nHeight n n' link.blockundo undos →
    Supplied E (link :: links) n'

section Runs

variable {Sees : ChainState → CCoinsViewCache → Prop} {Allows : ChainState → CBlock → Prop} {s : ChainState}

theorem ChainRun.nHeight_pos {c : ConnectCall} (hrun : ChainRun E Sees Allows s)
    (htip : c.OnTip E s) : 0 < c.pindex.nHeight := by
  rw [htip.nHeight, hrun.heights.1]
  omega

/-- **The supply of a run** is what its blocks have made. -/
theorem ChainRun.supplied (hsees : ∀ s view, Sees s view → view.Spendable)
    (hestimate : E.consensus.totalBlocksEstimate ≤ 0) (hrun : ChainRun E Sees Allows s) :
    Supplied E s.links s.node.nMoneySupply := by
  induction hrun with
  | genesis => exact .nil
  | connect hrun htip hview _ hok ih =>
    obtain ⟨undos, hconnected⟩ := exists_connectedSupply htip (hsees _ _ hview)
      (lt_of_le_of_lt hestimate (hrun.nHeight_pos htip)) hok
    exact .cons ih hconnected
  | @disconnect s link links D view G view' hrun hlinks hview hD hok ih =>
    rw [hlinks] at ih
    cases ih with
    | @cons _ _ undos n _ hsupplied hconnected =>
      rw [hconnected.blockundo] at hok
      have hsupply := supply_of_disconnectBlock hconnected.form hconnected.recorded hok
      rw [hconnected.supply, add_sub_cancel_right] at hsupply
      show Supplied E links G.nMoneySupply
      rwa [hsupply]

end Runs

/-! ### The cap -/

namespace Params

variable {consensus : Params} {n : CAmount} {nHeight : ℤ}

theorem getBlockValue_le (h : nHeight < 10000) : consensus.getBlockValue n nHeight ≤ 100 * 10 ^ 8 := by
  simp only [getBlockValue, if_pos h]
  split_ifs <;> norm_num

/-- The reward stays within the cap: early because the blocks before have made so little, late
because it is cut. -/
theorem add_getBlockValue_le (hcap : 9999 * (100 * 10 ^ 8) ≤ consensus.nMaxMoneyOut) {k : ℕ}
    (hearly : k < 10000 → n ≤ k * (100 * 10 ^ 8)) (hn : n ≤ consensus.nMaxMoneyOut) :
    n + consensus.getBlockValue n (k + 1) ≤ consensus.nMaxMoneyOut := by
  by_cases hk : k < 9999
  · have hvalue : consensus.getBlockValue n (k + 1) ≤ 100 * 10 ^ 8 := getBlockValue_le (by omega)
    have hblocks : ((k : ℤ) + 1) * (100 * 10 ^ 8) ≤ 9999 * (100 * 10 ^ 8) := by
      gcongr
      omega
    linarith [hearly (by omega)]
  · have hlate : ¬(k : ℤ) + 1 < 10000 := by omega
    simp only [getBlockValue, if_neg hlate]
    split_ifs <;> linarith

end Params

theorem Supplied.le (hcap : 9999 * (100 * 10 ^ 8) ≤ E.consensus.nMaxMoneyOut) {links : List Link}
    {n : CAmount} (h : Supplied E links n) (hnumbered : Numbered links) :
    (links.length < 10000 → n ≤ links.length * (100 * 10 ^ 8)) ∧ n ≤ E.consensus.nMaxMoneyOut := by
  induction h with
  | nil => exact ⟨fun _ ↦ by simp, by linarith⟩
  | @cons link links undos n n' _ hconnected ih =>
    obtain ⟨-, hheight, hnumbered⟩ := hnumbered
    obtain ⟨hearly, hle⟩ := ih hnumbered
    have hminted : n' ≤ n + E.consensus.getBlockValue n (links.length + 1) := by
      rw [hconnected.supply, ← hheight]
      linarith [hconnected.minted]
    refine ⟨fun hlength ↦ ?_, hminted.trans (Params.add_getBlockValue_le hcap hearly hle)⟩
    rw [length_cons] at hlength
    have hvalue : E.consensus.getBlockValue n (links.length + 1) ≤ 100 * 10 ^ 8 :=
      Params.getBlockValue_le (by omega)
    rw [length_cons, Nat.cast_succ]
    linarith [hearly (by omega)]

section Cap

variable {Sees : ChainState → CCoinsViewCache → Prop} {Allows : ChainState → CBlock → Prop}
  {s : ChainState} (hsees : ∀ s view, Sees s view → view.Spendable)
  (hestimate : E.consensus.totalBlocksEstimate ≤ 0)
  (hcap : 9999 * (100 * 10 ^ 8) ≤ E.consensus.nMaxMoneyOut)

include hsees hestimate hcap

/-- **The supply never exceeds the cap.** -/
theorem ChainRun.supply_le (hrun : ChainRun E Sees Allows s) :
    s.node.nMoneySupply ≤ E.consensus.nMaxMoneyOut :=
  ((hrun.supplied hsees hestimate).le hcap hrun.heights.2).2

/-- The next reward does not take it there either. -/
theorem ChainRun.supply_add_getBlockValue_le (hrun : ChainRun E Sees Allows s) :
    s.node.nMoneySupply + E.consensus.getBlockValue s.node.nMoneySupply (s.tip.nHeight + 1) ≤
      E.consensus.nMaxMoneyOut := by
  obtain ⟨hearly, hle⟩ := (hrun.supplied hsees hestimate).le hcap hrun.heights.2
  rw [hrun.heights.1]
  exact Params.add_getBlockValue_le hcap hearly hle

end Cap

end KristaTech
