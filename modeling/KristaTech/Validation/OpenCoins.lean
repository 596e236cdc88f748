import KristaTech.Validation.CoinSpend
import KristaTech.Chain.Values
import KristaTech.Primitives.RoundTrip
import Mathlib.Tactic.Linarith

/-!
# Coins that anyone may spend

An output with the script `OP_1` is spent by an input without a script. A transaction that spends
such coins and pays what they are worth to one output of the same kind passes the loop of
`ConnectBlock` if the coins are mature and the place of its output is free (`exists_openTurn`), and
so does any number of them after one another.
-/

namespace KristaTech

open CCoinsViewCache List

variable {E : ValidationEnv} {I : ConnectInput}

/-! ### Scripts -/

def openScript : CScript := [Opcode.OP_1.toByte]

theorem isUnspendable_openScript : CScript.isUnspendable openScript = false := rfl

theorem paysDeveloperFund_openScript : paysDeveloperFund E openScript = false := rfl

theorem run_openScript (C : Crypto) (tx : CTransaction) (nIn : ℕ) (flags : ScriptFlags)
    (data : PrecomputedTransactionData) (hpush : flags.sigpushonly = false)
    (hin : (tx.vin[nIn]?.map (·.scriptSig)).getD [] = []) :
    (⟨openScript, tx, nIn, flags, data, []⟩ : CScriptCheck).run C = .ok () := by
  have hbase (checker : TransactionSignatureChecker) :
      evalBase C flags checker [] openScript = .ok [[1]] := rfl
  have hnil (checker : TransactionSignatureChecker) : evalBase C flags checker [] [] = .ok [] := rfl
  have htaproot : isTaprootScript openScript = false := rfl
  have hp2sh : CScript.isPayToScriptHash openScript = false := rfl
  have htrue : requireTrue [[1]] = .ok () := rfl
  rw [CScriptCheck.run, CScriptCheck.scriptSig, isEmpty_nil, if_pos rfl, hin, verifyScript,
    htaproot, hpush, hnil]
  simp [hbase, htrue, hp2sh]

/-! ### Transactions -/

/-- A transaction that spends coins without input scripts and pays one open output. -/
def openTx (nVersion : ℤ) (prevouts : List COutPoint) (nValue : CAmount) : CTransaction where
  nVersion := nVersion
  vin := prevouts.map fun o ↦ ⟨o, [], sequenceFinal⟩
  vout := [⟨nValue, openScript⟩]
  nLockTime := 0

/-- A coin that may be spent at a height. -/
structure OpenCoin (E : ValidationEnv) (nSpendHeight : ℤ) (coin : Coin) : Prop where
  script : coin.out.scriptPubKey = openScript
  value : E.consensus.moneyRange coin.out.nValue = true
  mature : (coin.fCoinBase || coin.fCoinStake) = true →
    E.consensus.nCoinbaseMaturity ≤ nSpendHeight - coin.nHeight

section OpenTx

variable {nVersion : ℤ} {prevouts : List COutPoint} {nValue : CAmount}

theorem prevouts_openTx : (openTx nVersion prevouts nValue).vin.map (·.prevout) = prevouts := by
  simp [openTx, Function.comp_def]

theorem not_isCoinStake_openTx : (openTx nVersion prevouts nValue).isCoinStake = false := by
  simp [openTx, CTransaction.isCoinStake]

theorem not_isCoinBase_openTx (hne : prevouts ≠ []) (hnull : ∀ o ∈ prevouts, o.isNull = false) :
    (openTx nVersion prevouts nValue).isCoinBase = false := by
  obtain ⟨o, ho⟩ := exists_mem_of_ne_nil prevouts hne
  rw [CTransaction.isCoinBase, Bool.and_eq_false_iff]
  refine Or.inr (all_eq_false.2 ⟨⟨o, [], sequenceFinal⟩, mem_map_of_mem ho, ?_⟩)
  simp [hnull o ho]

theorem not_isZeroCoinPoW_openTx : E.isZeroCoinPoW (openTx nVersion prevouts nValue) = false := by
  have hmatch : matchPoWLockRegistration openScript = none := rfl
  rw [ValidationEnv.isZeroCoinPoW, isZeroCoinPoWTransaction, Bool.and_eq_false_iff]
  refine Or.inr ?_
  rcases prevouts with _ | ⟨_, _ | _⟩
  · rfl
  · simp [openTx, hmatch]
  · rfl

theorem getLegacySigOpCount_openTx : getLegacySigOpCount (openTx nVersion prevouts nValue) = 0 := by
  have hsig : CScript.getSigOpCount [] false = 0 := rfl
  have hpub : CScript.getSigOpCount openScript false = 0 := rfl
  simp [getLegacySigOpCount, openTx, Function.comp_def, hsig, hpub]

theorem getValueOut_of_vout {tx : CTransaction} (hvout : tx.vout = [⟨nValue, openScript⟩])
    (hnonneg : 0 ≤ nValue) (hlt : nValue < 2 ^ 63) : tx.getValueOut = some nValue := by
  simp only [CTransaction.getValueOut, hvout, foldlM_cons, foldlM_nil,
    CTransaction.addValueOut, if_neg (not_lt.2 hnonneg), zero_add, if_neg (not_le.2 hlt)]
  rfl

end OpenTx

/-! ### The checks -/

/-- What is asked of the coins that a transaction spends. -/
structure OpenInputs (E : ValidationEnv) (ctx : ChainContext) (view : CCoinsViewCache)
    (prevouts : List COutPoint) (nValue : CAmount) : Prop where
  ne_nil : prevouts ≠ []
  nodup : prevouts.Nodup
  notNull : ∀ o ∈ prevouts, o.isNull = false
  coins : ∀ o ∈ prevouts, ∃ coin, view.utxo o = some coin ∧ OpenCoin E (getSpendHeight ctx view) coin
  sum : (prevouts.map fun o ↦ (view.accessCoin o).out.nValue).sum = nValue
  value : E.consensus.moneyRange nValue = true
  fits : nValue < 2 ^ 63

theorem OpenCoin.spendable {view : CCoinsViewCache} {o : COutPoint} {coin : Coin}
    (h : OpenCoin E (getSpendHeight I.ctx view) coin) (hcoin : view.utxo o = some coin)
    (ho : o.isNull = false) : SpendableCoin E I.ctx I.pindex view o coin where
  getCoin := (unspent_eq_some_iff.1 hcoin).1
  notNull := ho
  value := h.value
  mature := h.mature
  notBurned := by
    rw [h.script]
    exact forall_mem_nil _
  notFund := by
    rw [h.script]
    exact paysDeveloperFund_openScript

theorem OpenInputs.spendsCoins {nVersion : ℤ} {prevouts : List COutPoint} {nValue : CAmount}
    {view : CCoinsViewCache} (h : OpenInputs E I.ctx view prevouts nValue) :
    SpendsCoins E I view (openTx nVersion prevouts nValue) nValue nValue := by
  have hcoins : ∀ txin ∈ (openTx nVersion prevouts nValue).vin,
      SpendableCoin E I.ctx I.pindex view txin.prevout (view.accessCoin txin.prevout) ∧
        (view.accessCoin txin.prevout).out.scriptPubKey = openScript := by
    intro txin htxin
    obtain ⟨o, ho, rfl⟩ := mem_map.1 htxin
    obtain ⟨coin, hcoin, hopen⟩ := h.coins o ho
    rw [accessCoin_of_utxo hcoin]
    exact ⟨hopen.spendable hcoin (h.notNull o ho), hopen.script⟩
  obtain ⟨hnonneg, hle⟩ := Params.moneyRange_iff.1 h.value
  exact {
    not_isCoinBase := not_isCoinBase_openTx h.ne_nil h.notNull
    not_isCoinStake := not_isCoinStake_openTx
    not_isZeroCoinPoW := not_isZeroCoinPoW_openTx
    coins := fun txin htxin ↦ (hcoins txin htxin).1
    valueIn := by
      rw [openTx, map_map]
      exact h.sum
    valueIn_le := hle
    valueOut := getValueOut_of_vout rfl hnonneg h.fits
    valueOut_nonneg := hnonneg
    valueOut_le := le_rfl
    sigops := getLegacySigOpCount_openTx
    notScriptHash := fun txin htxin ↦ by
      rw [(hcoins txin htxin).2]
      rfl }

/-! ### Turns -/

/-- What the turn of a transaction has done that spends some coins and creates one. -/
structure OpenTurn (acc : ConnectState) (prevouts : List COutPoint) (hash : Uint256) (coin : Coin)
    (nIn : CAmount) (acc' : ConnectState) : Prop where
  coherent : acc'.view.Coherent
  bestBlock : acc'.view.getBestBlock = acc.view.getBestBlock
  nSigOps : acc'.nSigOps = acc.nSigOps
  nValueIn : acc'.nValueIn = acc.nValueIn + nIn
  nValueOut : acc'.nValueOut = acc.nValueOut + coin.out.nValue
  created : acc'.view.utxo ⟨hash, 0⟩ = some coin
  others : ∀ o ∉ prevouts, o ≠ ⟨hash, 0⟩ → acc'.view.utxo o = acc.view.utxo o

section Turns

variable {acc mid : ConnectState} {nVersion : ℤ} {prevouts : List COutPoint} {nValue : CAmount}

/-- A transaction with one open output that has passed its checks makes its coin. -/
theorem exists_updateTx_open {tx : CTransaction} (hview : acc.view.Coherent)
    (hin : InputsDistinct E.crypto tx) (hvout : tx.vout = [⟨nValue, openScript⟩]) (hvalue : 0 ≤ nValue)
    (hfree : acc.view.utxo ⟨tx.getHash E.crypto, 0⟩ = none) (hcheck : I.checkTx E acc tx = .ok mid) :
    ∃ acc', I.updateTx E mid tx = .ok acc' ∧ acc'.view.Coherent ∧
      acc'.view.getBestBlock = mid.view.getBestBlock ∧ acc'.nSigOps = mid.nSigOps ∧
      acc'.nValueIn = mid.nValueIn ∧ acc'.nValueOut = mid.nValueOut ∧
      acc'.view.utxo ⟨tx.getHash E.crypto, 0⟩ =
        some ⟨tx.isCoinBase, tx.isCoinStake, ⟨nValue, openScript⟩, I.pindex.nHeight⟩ ∧
      ∀ o, (spendsCoins E.crypto tx = true → o ∉ tx.vin.map (·.prevout)) →
        o ≠ ⟨tx.getHash E.crypto, 0⟩ → acc'.view.utxo o = acc.view.utxo o := by
  obtain ⟨hkeeps, hutxo⟩ := (ConnectInput.txChecked_of_checkTx hcheck).keeps hview
  have hfree' : ∀ i < tx.vout.length, mid.view.utxo ⟨tx.getHash E.crypto, UInt32.ofNat i⟩ = none := by
    rw [hvout, hutxo]
    intro i hi
    obtain rfl : i = 0 := Nat.lt_one_iff.1 hi
    exact hfree
  obtain ⟨undo, view', hcoins, hview', -⟩ := hkeeps.coherent.exists_updateCoins I.pindex.nHeight
    (by simp [hvout]) (by simpa [hvout] using hvalue) hfree'
  have hupdate : I.updateTx E mid tx =
      .ok { mid with view := view', vtxundo := mid.vtxundo ++ [undo] } := by
    simp [ConnectInput.updateTx, hcoins, orThrow]
  have hnew : newCoins E.crypto tx I.pindex.nHeight = [(⟨tx.getHash E.crypto, 0⟩,
      ⟨tx.isCoinBase, tx.isCoinStake, ⟨nValue, openScript⟩, I.pindex.nHeight⟩)] := by
    simp [newCoins, hvout, newCoin, isUnspendable_openScript]
  obtain ⟨_, hturn⟩ := ConnectInput.exists_turn hin hview (fun kv hkv ↦ by
    rw [hnew, mem_singleton] at hkv
    rw [hkv]
    exact covered_of_utxo_none hfree) hcheck hupdate
  refine ⟨_, hupdate, hview', getBestBlock_updateCoins hcoins, rfl, rfl, rfl, ?_⟩
  -- after what is spent, if anything is, the one coin is created
  obtain ⟨M, hM, hcreates⟩ : ∃ M : Utxo,
      (∀ o, (spendsCoins E.crypto tx = true → o ∉ tx.vin.map (·.prevout)) → M o = acc.view.utxo o) ∧
        Ledger.Creates M (newCoins E.crypto tx I.pindex.nHeight) view'.utxo := by
    cases hturn.applies with
    | spending hspent hspends hcreates =>
      exact ⟨_, fun o ho ↦ hspends.eq_of_notMem (ho hspent), hcreates⟩
    | creating _ hcreates => exact ⟨_, fun _ _ ↦ rfl, hcreates⟩
  rw [hnew] at hcreates
  have hput : view'.utxo = M.put _ _ := hcreates.eq_put
  exact ⟨hput ▸ Ledger.put_self, fun o ho hne ↦ by
    show view'.utxo o = _
    rw [hput, Ledger.put_of_ne hne, hM o ho]⟩

/-- **Open coins are passed on.** -/
theorem exists_openTurn (hview : acc.view.Coherent) (hsigops : acc.nSigOps ≤ maxBlockSigOpsCurrent)
    (h : OpenInputs E I.ctx acc.view prevouts nValue)
    (hfree : acc.view.utxo ⟨(openTx nVersion prevouts nValue).getHash E.crypto, 0⟩ = none) :
    ∃ mid acc', I.checkTx E acc (openTx nVersion prevouts nValue) = .ok mid ∧
      I.updateTx E mid (openTx nVersion prevouts nValue) = .ok acc' ∧
      OpenTurn acc prevouts ((openTx nVersion prevouts nValue).getHash E.crypto)
        ⟨false, false, ⟨nValue, openScript⟩, I.pindex.nHeight⟩ nValue acc' := by
  have hspends : SpendsCoins E I acc.view (openTx nVersion prevouts nValue) nValue nValue := h.spendsCoins
  have hspends' := hspends.of_haveInputs
  obtain ⟨checks, hcheck, -⟩ := hspends.checkTx acc hsigops fun _ p hp ↦ by
    have hmem := fst_mem_of_mem_zipIdx hp
    obtain ⟨o, ho, heq⟩ := mem_map.1 hmem
    obtain ⟨coin, hcoin, hopen⟩ := h.coins o ho
    rw [inputCheck, ← heq, accessCoin_of_utxo (by rw [utxo_haveInputs]; exact hcoin), hopen.script]
    refine run_openScript E.crypto _ p.2 _ _ rfl ?_
    rw [mem_zipIdx_iff_getElem?.1 hp, ← heq]
    rfl
  have hin : InputsDistinct E.crypto (openTx nVersion prevouts nValue) :=
    ⟨prevouts_openTx.symm ▸ h.nodup, fun _ txin htxin ↦ (hspends.coins txin htxin).notNull⟩
  obtain ⟨acc', hupdate, hview', hbest, hsig, hvalueIn, hvalueOut, hcreated, hothers⟩ :=
    exists_updateTx_open hview hin rfl hspends.valueOut_nonneg hfree hcheck
  rw [hspends.not_isCoinBase, hspends.not_isCoinStake] at hcreated
  rw [prevouts_openTx] at hothers
  exact ⟨_, acc', hcheck, hupdate, hview', hbest.trans (getBestBlock_haveInputs _), hsig, hvalueIn,
    hvalueOut, hcreated, fun o ho ↦ hothers o fun _ ↦ ho⟩

def mintTx (nVersion : ℤ) (nValue : CAmount) : CTransaction where
  nVersion := nVersion
  vin := [⟨COutPoint.null, [1, 2], sequenceFinal⟩]
  vout := [⟨nValue, openScript⟩]
  nLockTime := 0

theorem isCoinBase_mintTx : (mintTx nVersion nValue).isCoinBase = true := rfl

theorem isCoinStake_mintTx : (mintTx nVersion nValue).isCoinStake = false := rfl

/-- **A coin is minted.** Whether it is too much is not asked here. -/
theorem exists_mintTurn (hview : acc.view.Coherent) (hsigops : acc.nSigOps ≤ maxBlockSigOpsCurrent)
    (hvalue : 0 ≤ nValue) (hfits : nValue < 2 ^ 63)
    (hfree : acc.view.utxo ⟨(mintTx nVersion nValue).getHash E.crypto, 0⟩ = none) :
    ∃ mid acc', I.checkTx E acc (mintTx nVersion nValue) = .ok mid ∧
      I.updateTx E mid (mintTx nVersion nValue) = .ok acc' ∧
      OpenTurn acc [] ((mintTx nVersion nValue).getHash E.crypto)
        ⟨true, false, ⟨nValue, openScript⟩, I.pindex.nHeight⟩ 0 acc' := by
  set tx := mintTx nVersion nValue with htx
  have hcoinbase : tx.isCoinBase = true := isCoinBase_mintTx
  have hlegacy : getLegacySigOpCount tx = 0 := rfl
  have hsum : ¬maxBlockSigOpsCurrent < acc.nSigOps := not_lt.2 hsigops
  have hout : tx.getValueOut = some nValue := getValueOut_of_vout rfl hvalue hfits
  let mid : ConnectState := { acc with nValueOut := acc.nValueOut + nValue }
  have hcheck : I.checkTx E acc tx = .ok mid := by
    simp [ConnectInput.checkTx, checkInputs, hcoinbase, hlegacy, hsum, hout, rejectIf, orThrow, mid]
  have hspends : ¬spendsCoins E.crypto tx = true := by simp [spendsCoins, hcoinbase]
  have hin : InputsDistinct E.crypto tx := ⟨nodup_singleton _, fun h ↦ absurd h hspends⟩
  obtain ⟨acc', hupdate, hview', hbest, hsig, hvalueIn, hvalueOut, hcreated, hothers⟩ :=
    exists_updateTx_open hview hin rfl hvalue hfree hcheck
  exact ⟨mid, acc', hcheck, hupdate, hview', hbest, hsig, hvalueIn.trans (add_zero _).symm, hvalueOut,
    hcreated, fun o _ ↦ hothers o fun h ↦ absurd h hspends⟩

theorem ConnectInput.connectTxs_cons {tx : CTransaction} {vtx : List CTransaction} {burns : BurnCache}
    {mid acc' : ConnectState} (hcheck : I.checkTx E acc tx = .ok mid)
    (hupdate : I.updateTx E mid tx = .ok acc') : I.connectTxs E (tx :: vtx) burns acc =
      I.connectTxs E vtx (I.recordBurn E mid tx burns) acc' := by
  rw [connectTxs, List.effectLoop, hcheck]
  simp only [hupdate]

end Turns

/-! ### On their own -/

section Form

variable {nVersion : ℤ} {prevouts : List COutPoint} {nValue : CAmount}

theorem length_serializeOut_open (nValue : CAmount) :
    (Writer.vector CTransaction.serializeOut [⟨nValue, openScript⟩]).length = 11 := by
  simp [Writer.vector, Writer.compactSize, CTransaction.serializeOut, Writer.int, Writer.byteVector,
    openScript]

theorem length_serialize_openTx (hfew : prevouts.length < 253) :
    (openTx nVersion prevouts nValue).serialize.length = 41 * prevouts.length + 20 := by
  have hin : ((prevouts.map fun o ↦ (⟨o, [], sequenceFinal⟩ : CTxIn)).flatMap
      CTransaction.serializeIn).length = 41 * prevouts.length := by
    induction prevouts with
    | nil => rfl
    | cons o prevouts ih =>
      rw [map_cons, flatMap_cons, length_append, ih (Nat.lt_of_succ_lt hfew), length_cons]
      simp only [CTransaction.serializeIn, Writer.outPoint, Writer.byteVector, Uint256.toBytes,
        length_append, Reader.length_natToLE, length_nil]
      show 41 + _ = _
      omega
  have hout := length_serializeOut_open nValue
  have hcount : (Writer.compactSize prevouts.length).length = 1 := by rw [Writer.compactSize, if_pos hfew]; rfl
  simp only [CTransaction.serialize, openTx, Writer.vector, length_append, hin, length_map,
    Writer.int, Reader.length_natToLE] at hout ⊢
  omega

theorem length_serialize_mintTx : (mintTx nVersion nValue).serialize.length ≤ 100 := by
  have hout := length_serializeOut_open nValue
  have hin : (Writer.vector CTransaction.serializeIn [⟨COutPoint.null, [1, 2], sequenceFinal⟩]).length =
      44 := by
    decide
  simp only [CTransaction.serialize, mintTx, length_append, hin, hout, Writer.int, Reader.length_natToLE]
  decide

theorem foldlM_checkOutput_open {tx : CTransaction} (hvalue : E.consensus.moneyRange nValue = true) :
    [(⟨nValue, openScript⟩ : CTxOut)].foldlM (checkOutput E tx) 0 = .ok nValue := by
  have hrange := Params.moneyRange_iff.1 hvalue
  have hempty : CTxOut.isEmpty ⟨nValue, openScript⟩ = false := by simp [CTxOut.isEmpty, openScript]
  simp [checkOutput, hempty, hvalue, not_lt.2 hrange.1, not_lt.2 hrange.2, rejectIf]

theorem checkTransaction_openTx (hne : prevouts ≠ []) (hnodup : prevouts.Nodup)
    (hnull : ∀ o ∈ prevouts, o.isNull = false ∧ o ≠ zeroCoinSentinel)
    (hsize : prevouts.length < 253) (hvalue : E.consensus.moneyRange nValue = true) :
    checkTransaction E (openTx nVersion prevouts nValue) = .ok () := by
  set tx := openTx nVersion prevouts nValue with htx
  have hvin : tx.vin.isEmpty = false := by simpa [htx, openTx] using hne
  have hlength : ¬maxStandardTxSize < tx.serialize.length := by
    rw [htx, length_serialize_openTx hsize, maxStandardTxSize]
    omega
  have hout : tx.vout.foldlM (checkOutput E tx) 0 = .ok nValue := foldlM_checkOutput_open hvalue
  have hnodup' : (tx.vin.map (·.prevout)).Nodup := by
    rw [prevouts_openTx]
    exact hnodup
  have hcoinbase : tx.isCoinBase = false := not_isCoinBase_openTx hne fun o ho ↦ (hnull o ho).1
  have hprevouts : (tx.vin.any fun txin ↦ txin.prevout.isNull || txin.prevout == zeroCoinSentinel) =
      false := by
    rw [any_eq_false]
    intro txin htxin
    obtain ⟨o, ho, rfl⟩ := mem_map.1 htxin
    simp [hnull o ho]
  have hvout : tx.vout.isEmpty = false := rfl
  simp [checkTransaction, hvin, hvout, hlength, hout, hnodup', hcoinbase, hprevouts, rejectIf]

theorem checkTransaction_mintTx (hvalue : E.consensus.moneyRange nValue = true) :
    checkTransaction E (mintTx nVersion nValue) = .ok () := by
  set tx := mintTx nVersion nValue with htx
  have hlength : ¬maxStandardTxSize < tx.serialize.length := by
    have hle : tx.serialize.length ≤ 100 := length_serialize_mintTx
    rw [maxStandardTxSize]
    omega
  have hout : tx.vout.foldlM (checkOutput E tx) 0 = .ok nValue := foldlM_checkOutput_open hvalue
  have hempty : tx.vin.isEmpty = false ∧ tx.vout.isEmpty = false := ⟨rfl, rfl⟩
  have hnodup : (tx.vin.map (·.prevout)).Nodup := nodup_singleton _
  have hcoinbase : tx.isCoinBase = true := rfl
  have hscript : ∃ txin, tx.vin.head? = some txin ∧ txin.scriptSig.length = 2 := ⟨_, rfl, rfl⟩
  obtain ⟨txin, hhead, hscript⟩ := hscript
  simp [checkTransaction, hempty, hlength, hout, hnodup, hcoinbase, hhead, hscript, rejectIf]

end Form

end KristaTech
