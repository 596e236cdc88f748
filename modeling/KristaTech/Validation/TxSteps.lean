import KristaTech.Validation.Connect
import KristaTech.Chain.Utxo

/-!
# Transactions of a block, one by one

What one turn of the loop of `ConnectBlock` says when it succeeds (`ConnectInput.TxChecked`),
and what the whole loop has then done: the unspent coins have changed as the transactions say
(`AppliesAll`), and the sums of what went in and out are those of the undo data and the outputs
(`ConnectInput.appliesAll_of_connectTxs`).
-/

namespace KristaTech

open CCoinsViewCache List Except

/-! ### Amounts -/

namespace CTransaction

def valueOut (tx : CTransaction) : CAmount := (tx.vout.map (·.nValue)).sum

theorem foldlM_addValueOut {outs : List CTxOut} {n v : CAmount} (h : outs.foldlM addValueOut n = some v) :
    v = n + (outs.map (·.nValue)).sum ∧ ∀ out ∈ outs, 0 ≤ out.nValue := by
  induction outs generalizing n with
  | nil =>
    obtain rfl := Option.some.inj h
    simp
  | cons out outs ih =>
    rw [foldlM_cons, Option.bind_eq_bind, Option.bind_eq_some_iff] at h
    obtain ⟨n₁, hn₁, hrest⟩ := h
    rw [addValueOut] at hn₁
    split_ifs at hn₁ with hneg hwrap
    obtain rfl := Option.some.inj hn₁
    obtain ⟨rfl, hpos⟩ := ih hrest
    refine ⟨by rw [map_cons, sum_cons, add_assoc], ?_⟩
    rw [forall_mem_cons]
    exact ⟨not_lt.1 hneg, hpos⟩

/-- `GetValueOut` is the sum of the outputs, none of which is negative. -/
theorem getValueOut_eq_some {tx : CTransaction} {v : CAmount} (h : tx.getValueOut = some v) :
    v = tx.valueOut ∧ ∀ out ∈ tx.vout, 0 ≤ out.nValue := by
  obtain ⟨rfl, hpos⟩ := foldlM_addValueOut h
  exact ⟨zero_add _, hpos⟩

end CTransaction

/-- What the coins of the undo data were worth, where coins were spent. -/
def valueSpent (C : Crypto) (tx : CTransaction) (undo : CTxUndo) : CAmount :=
  if spendsCoins C tx then (undo.map (·.out.nValue)).sum else 0

/-! ### One transaction -/

variable {E : ValidationEnv} {I : ConnectInput}

namespace ConnectInput

/-- What a transaction that passes its checks has done. -/
structure TxChecked (E : ValidationEnv) (I : ConnectInput) (acc : ConnectState) (tx : CTransaction)
    (acc' : ConnectState) : Prop where
  view : acc'.view = if spendsCoins E.crypto tx then (acc.view.haveInputs tx).2 else acc.view
  have_inputs : spendsCoins E.crypto tx = true → (acc.view.haveInputs tx).1 = true
  spentCoins : spendsCoins E.crypto tx = true → I.checkSpentCoins E acc'.view tx = .ok ()
  valueOut : tx.getValueOut = some tx.valueOut
  nValueIn : acc'.nValueIn = acc.nValueIn +
    if spendsCoins E.crypto tx then acc'.view.getValueIn tx else 0
  nValueOut : acc'.nValueOut = acc.nValueOut + tx.valueOut
  nFees : acc'.nFees = acc.nFees + if spendsCoins E.crypto tx && !tx.isCoinStake then
    acc'.view.getValueIn tx - tx.valueOut else 0
  vtxundo : acc'.vtxundo = acc.vtxundo
  checks : ∃ checks, checkInputs E I.ctx I.masternodes acc'.view tx (I.fScriptChecks E) (I.flags E)
    E.fScriptCheckThreads = .ok checks ∧ acc'.vChecks = acc.vChecks ++ checks

theorem txChecked_of_checkTx {acc acc' : ConnectState} {tx : CTransaction}
    (h : I.checkTx E acc tx = .ok acc') : I.TxChecked E acc tx acc' := by
  have hspends : (!tx.isCoinBase && !E.isZeroCoinPoW tx) = spendsCoins E.crypto tx := rfl
  simp only [checkTx, hspends] at h
  obtain ⟨_, -, h⟩ := bind_eq_ok_iff.1 h
  cases hs : spendsCoins E.crypto tx with
  | true =>
    simp only [hs, if_true, Bool.true_and] at h
    obtain ⟨_, hhave, h⟩ := bind_eq_ok_iff.1 h
    obtain ⟨_, hspent, h⟩ := bind_eq_ok_iff.1 h
    obtain ⟨_, -, h⟩ := bind_eq_ok_iff.1 h
    rw [rejectIf_eq_ok_iff, Bool.not_eq_true', Bool.not_eq_false] at hhave
    -- the fee is what is left over, but for a coinstake
    cases hstake : tx.isCoinStake
    all_goals
      simp only [hstake, Bool.not_false, Bool.not_true, Bool.false_eq_true, if_true, if_false] at h
      obtain ⟨nTxFee, hfee, h⟩ := bind_eq_ok_iff.1 h
      obtain ⟨checks, hchecks, h⟩ := bind_eq_ok_iff.1 h
      obtain ⟨nTxOut, hout, h⟩ := bind_eq_ok_iff.1 h
      obtain rfl := Except.ok.inj h
      have hvalue := orThrow_eq_ok_iff.1 hout
      obtain ⟨rfl, -⟩ := CTransaction.getValueOut_eq_some hvalue
      refine ⟨by simp [hs], fun _ ↦ hhave, fun _ ↦ hspent, hvalue, by simp [hs], rfl, ?_, rfl, checks,
        hchecks, rfl⟩
    · simpa [hs, hstake, hvalue, orThrow, Except.map, eq_comm] using hfee
    · simpa [hs, hstake, eq_comm] using hfee
  | false =>
    simp only [hs, Bool.false_and, Bool.false_eq_true, if_false] at h
    obtain ⟨nTxFee, hfee, h⟩ := bind_eq_ok_iff.1 h
    obtain ⟨checks, hchecks, h⟩ := bind_eq_ok_iff.1 h
    obtain ⟨nTxOut, hout, h⟩ := bind_eq_ok_iff.1 h
    obtain rfl := Except.ok.inj h
    have hvalue := orThrow_eq_ok_iff.1 hout
    obtain ⟨rfl, -⟩ := CTransaction.getValueOut_eq_some hvalue
    obtain rfl := Except.ok.inj hfee
    exact ⟨by simp [hs], fun h ↦ by simp [hs] at h, fun h ↦ by simp [hs] at h, hvalue, by simp [hs],
      rfl, by simp [hs], rfl, checks, hchecks, rfl⟩

end ConnectInput

variable {tx : CTransaction} {undo : CTxUndo} {txs : List CTransaction} {undos : List CTxUndo}

/-- `CheckTransaction` sees to it that the inputs are distinct. -/
theorem inputsDistinct_of_checkTransaction (h : checkTransaction E tx = .ok ()) :
    InputsDistinct E.crypto tx := by
  obtain ⟨_, -, h⟩ := bind_eq_ok_iff.1 h
  obtain ⟨_, -, h⟩ := bind_eq_ok_iff.1 h
  obtain ⟨_, -, h⟩ := bind_eq_ok_iff.1 h
  obtain ⟨_, -, h⟩ := bind_eq_ok_iff.1 h
  obtain ⟨_, hnodup, h⟩ := bind_eq_ok_iff.1 h
  rw [rejectIf_eq_ok_iff, not_not] at hnodup
  refine ⟨hnodup, fun hspends txin htxin ↦ ?_⟩
  obtain ⟨hcoinbase, hzero⟩ : tx.isCoinBase = false ∧ E.isZeroCoinPoW tx = false :=
    spendsCoins_eq_true_iff.1 hspends
  rw [hcoinbase, if_neg Bool.false_ne_true, hzero, rejectIf_eq_ok_iff] at h
  by_contra hnull
  rw [Bool.not_eq_false] at hnull
  refine h ?_
  rw [Bool.not_false, Bool.true_and, any_eq_true]
  exact ⟨txin, htxin, by simp [hnull]⟩

theorem getValueIn_of_spends {view : CCoinsViewCache} (hspends : spendsCoins E.crypto tx = true)
    (h : Ledger.Spends view.utxo (tx.vin.map (·.prevout)) undo U) :
    view.getValueIn tx = valueSpent E.crypto tx undo := by
  have hcoinbase : tx.isCoinBase = false := (spendsCoins_eq_true_iff.1 hspends).1
  rw [CCoinsViewCache.getValueIn, hcoinbase, if_neg Bool.false_ne_true, valueSpent, if_pos hspends]
  have hcoins := h.forall₂
  generalize tx.vin = vin at hcoins
  clear h
  induction vin generalizing undo with
  | nil =>
    cases hcoins
    rfl
  | cons txin vin ih =>
    cases hcoins with
    | cons hcoin hcoins =>
      rw [map_cons, sum_cons, map_cons, sum_cons, accessCoin_of_utxo hcoin, ih hcoins]

/-! ### All transactions -/

/-- What a list of transactions does to the unspent coins, with their undo data. -/
inductive AppliesAll (C : Crypto) (nHeight : ℤ) : List CTransaction → List CTxUndo → Utxo → Utxo → Prop
  | nil {U} : AppliesAll C nHeight [] [] U U
  | cons {tx undo txs undos U U₁ U'} : Applies C tx nHeight undo U U₁ →
    AppliesAll C nHeight txs undos U₁ U' → AppliesAll C nHeight (tx :: txs) (undo :: undos) U U'

def totalSpent (C : Crypto) (txs : List CTransaction) (undos : List CTxUndo) : CAmount :=
  (List.zipWith (valueSpent C) txs undos).sum

def totalOut (txs : List CTransaction) : CAmount := (txs.map (·.valueOut)).sum

namespace ConnectInput

variable {acc mid acc' : ConnectState} {tx : CTransaction}

/-- What one turn of the loop does. -/
structure Turn (E : ValidationEnv) (I : ConnectInput) (acc : ConnectState) (tx : CTransaction)
    (undo : CTxUndo) (acc' : ConnectState) : Prop where
  keeps : acc.view.Keeps acc'.view
  applies : Applies E.crypto tx I.pindex.nHeight undo acc.view.utxo acc'.view.utxo
  vtxundo : acc'.vtxundo = acc.vtxundo ++ [undo]
  nValueIn : acc'.nValueIn = acc.nValueIn + valueSpent E.crypto tx undo
  nValueOut : acc'.nValueOut = acc.nValueOut + tx.valueOut

theorem TxChecked.keeps (h : I.TxChecked E acc tx mid) (hview : acc.view.Coherent) :
    acc.view.Keeps mid.view ∧ mid.view.utxo = acc.view.utxo := by
  rw [h.view]
  split_ifs
  · exact ⟨hview.keeps_haveInputs tx, utxo_haveInputs tx⟩
  · exact ⟨hview.keeps_self, rfl⟩

theorem exists_turn (hin : InputsDistinct E.crypto tx) (hview : acc.view.Coherent)
    (hcovered : ∀ kv ∈ newCoins E.crypto tx I.pindex.nHeight, acc.view.Covered kv.1)
    (hcheck : I.checkTx E acc tx = .ok mid) (hupdate : I.updateTx E mid tx = .ok acc') :
    ∃ undo, I.Turn E acc tx undo acc' := by
  have hchecked := txChecked_of_checkTx hcheck
  obtain ⟨hkeeps, hutxo⟩ := hchecked.keeps hview
  have hhave : spendsCoins E.crypto tx = true → ∀ txin ∈ tx.vin, mid.view.haveCoin txin.prevout = true := by
    intro hspends txin htxin
    have hcoinbase : tx.isCoinBase = false := (spendsCoins_eq_true_iff.1 hspends).1
    rw [haveCoin_eq_true_iff, hutxo, ← haveCoin_eq_true_iff]
    exact (haveInputs_eq_true_iff tx hcoinbase).1 (hchecked.have_inputs hspends) txin htxin
  obtain ⟨⟨undo, view'⟩, hcoins, hacc'⟩ := bind_eq_ok_iff.1 hupdate
  obtain rfl := Except.ok.inj hacc'
  obtain ⟨hkeeps', happlies⟩ := hkeeps.coherent.updateCoins hin
    (CTransaction.getValueOut_eq_some hchecked.valueOut).2 hhave
    (fun kv hkv ↦ hkeeps.covered _ (hcovered kv hkv)) (orThrow_eq_ok_iff.1 hcoins)
  refine ⟨undo, hkeeps.trans hkeeps', hutxo ▸ happlies, by rw [hchecked.vtxundo], ?_, hchecked.nValueOut⟩
  show mid.nValueIn = _
  rw [hchecked.nValueIn]
  cases happlies with
  | spending hspends hledger _ => rw [if_pos hspends, getValueIn_of_spends hspends hledger]
  | creating hspends _ => simp [valueSpent, hspends]

/-- **What the loop does** to the coins and the sums. -/
theorem appliesAll_of_connectTxs {vtx : List CTransaction} {burns : BurnCache}
    (hin : ∀ tx ∈ vtx, InputsDistinct E.crypto tx) (hview : acc.view.Coherent)
    (hcovered : ∀ tx ∈ vtx, ∀ kv ∈ newCoins E.crypto tx I.pindex.nHeight, acc.view.Covered kv.1)
    (h : (I.connectTxs E vtx burns acc).2 = .ok acc') :
    acc.view.Keeps acc'.view ∧ ∃ undos,
      AppliesAll E.crypto I.pindex.nHeight vtx undos acc.view.utxo acc'.view.utxo ∧
      acc'.vtxundo = acc.vtxundo ++ undos ∧
      acc'.nValueIn = acc.nValueIn + totalSpent E.crypto vtx undos ∧
      acc'.nValueOut = acc.nValueOut + totalOut vtx ∧
      ∀ tx ∈ vtx, tx.getValueOut = some tx.valueOut := by
  induction vtx generalizing acc burns with
  | nil =>
    obtain rfl := Except.ok.inj h
    exact ⟨hview.keeps_self, [], .nil, by simp, by simp [totalSpent], by simp [totalOut], nofun⟩
  | cons tx vtx ih =>
    rw [forall_mem_cons] at hin hcovered
    obtain ⟨mid, acc₁, hmid, hacc₁, h⟩ := exists_of_effectLoop_cons h
    obtain ⟨undo, hturn⟩ := exists_turn hin.1 hview hcovered.1 hmid hacc₁
    obtain ⟨hkeeps, undos, happlies, hundos, hvalueIn, hvalueOut, hvalues⟩ := ih hin.2 hturn.keeps.coherent
      (fun tx htx kv hkv ↦ hturn.keeps.covered _ (hcovered.2 tx htx kv hkv)) h
    refine ⟨hturn.keeps.trans hkeeps, undo :: undos, .cons hturn.applies happlies, ?_, ?_, ?_, ?_⟩
    · rw [hundos, hturn.vtxundo, append_assoc, singleton_append]
    · rw [hvalueIn, hturn.nValueIn, add_assoc, totalSpent, totalSpent, zipWith_cons_cons, sum_cons]
    · rw [hvalueOut, hturn.nValueOut, add_assoc, totalOut, totalOut, map_cons, sum_cons]
    · rw [forall_mem_cons]
      exact ⟨(txChecked_of_checkTx hmid).valueOut, hvalues⟩

end ConnectInput

/-! ### Coins that can be put back -/

/-- What is known of a coin that was created by a block: where, and that it could be spent. -/
structure Coin.Restorable (coin : Coin) : Prop where
  height : coin.nHeight ≠ 0
  spendable : CScript.isUnspendable coin.out.scriptPubKey = false
  unspent : coin.isSpent = false

def Restorable (U : Utxo) : Prop := ∀ o coin, U o = some coin → coin.Restorable

theorem restorable_empty : Restorable Ledger.empty := nofun

variable {C : Crypto} {nHeight : ℤ} {U U' : Utxo}

theorem restorable_of_mem_newCoins (hheight : nHeight ≠ 0)
    (hvalue : ∀ out ∈ tx.vout, 0 ≤ out.nValue) {o : COutPoint} {coin : Coin}
    (h : (o, coin) ∈ newCoins C tx nHeight) : coin.Restorable := by
  obtain ⟨p, hp, hcoin⟩ := mem_filterMap.1 h
  rw [newCoin] at hcoin
  split_ifs at hcoin with hscript
  obtain ⟨-, rfl⟩ := Prod.mk.inj (Option.some.inj hcoin)
  exact ⟨hheight, by simpa using hscript, Coin.isSpent_eq_false (hvalue p.1 (fst_mem_of_mem_zipIdx hp))⟩

theorem Applies.forall_coin {P : Coin → Prop} (h : ∀ o coin, U o = some coin → P coin)
    (hnew : ∀ kv ∈ newCoins C tx nHeight, P kv.2) (happlies : Applies C tx nHeight undo U U') :
    ∀ o coin, U' o = some coin → P coin := by
  intro o coin hcoin
  cases happlies with
  | spending _ hspends hcreates =>
    rcases hcreates.of_some hcoin with hold | hmem
    · exact h o coin (hspends.of_some hold)
    · exact hnew _ hmem
  | creating _ hcreates =>
    rcases hcreates.of_some hcoin with hold | hmem
    · exact h o coin hold
    · exact hnew _ hmem

theorem AppliesAll.forall_coin {P : Coin → Prop} (h : ∀ o coin, U o = some coin → P coin)
    (hnew : ∀ tx ∈ txs, ∀ kv ∈ newCoins C tx nHeight, P kv.2)
    (happlies : AppliesAll C nHeight txs undos U U') : ∀ o coin, U' o = some coin → P coin := by
  induction happlies with
  | nil => exact h
  | cons happly _ ih =>
    rw [forall_mem_cons] at hnew
    exact ih (happly.forall_coin h hnew.1) hnew.2

theorem Restorable.applies (h : Restorable U) (hheight : nHeight ≠ 0)
    (hvalue : ∀ out ∈ tx.vout, 0 ≤ out.nValue) (happlies : Applies C tx nHeight undo U U') :
    Restorable U' :=
  happlies.forall_coin h fun _ hkv ↦ restorable_of_mem_newCoins hheight hvalue hkv

theorem Restorable.appliesAll (h : Restorable U) (hheight : nHeight ≠ 0)
    (hvalue : ∀ tx ∈ txs, ∀ out ∈ tx.vout, 0 ≤ out.nValue)
    (happlies : AppliesAll C nHeight txs undos U U') : Restorable U' :=
  happlies.forall_coin h fun tx htx _ hkv ↦ restorable_of_mem_newCoins hheight (hvalue tx htx) hkv

end KristaTech
