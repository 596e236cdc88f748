import KristaTech.Validation.ScriptChecks
import KristaTech.Validation.Contextual

/-!
# Spending one coin

What it means that a transaction spends an output and is valid in the next block (`ValidSpend`): it is
final there, as `ContextualCheckBlock` asks, and passes the checks of `ConnectBlock` at its turn. The
transactions of accepted blocks are of this kind (`validSpend_of_connectBlock`).

The other way round, a coin that nothing but its script keeps from being spent (`SpendableCoin`) is spent
by a transaction with this one input as soon as the script is satisfied (`SpendableCoin.validSpend`).
-/

namespace KristaTech

open List Except

variable {E : ValidationEnv} {X : ContextualEnv} {I : ConnectInput} {view : CCoinsViewCache}
  {o : COutPoint} {coin : Coin}

/-! ### Valid spendings -/

/-- A transaction that spends the output `o` of the given script and is valid in a block of this time.
The transactions before it in the block may have done anything but to the output. -/
structure ValidSpend (E : ValidationEnv) (X : ContextualEnv) (I : ConnectInput) (nBlockTime : ℤ)
    (o : COutPoint) (script : CScript) (tx : CTransaction) : Prop where
  final : isFinalTx X I.ctx tx I.pindex.nHeight nBlockTime = true
  not_isCoinBase : tx.isCoinBase = false
  not_isZeroCoinPoW : E.isZeroCoinPoW tx = false
  spends : ∃ txin ∈ tx.vin, txin.prevout = o
  checked : ∃ acc acc', I.checkTx E acc tx = .ok acc' ∧ (acc'.view.accessCoin o).out.scriptPubKey = script ∧
      (I.fScriptChecks E = true → ∀ nIn txin, tx.vin[nIn]? = some txin →
        ∃ check, scriptCheckOf E I.ctx I.masternodes acc'.view tx (I.flags E) txin nIn = .ok check ∧
          check.run E.crypto = .ok ())

theorem ValidSpend.exists_verifyScript {nBlockTime : ℤ} {script : CScript} {tx : CTransaction}
    (h : ValidSpend E X I nBlockTime o script tx) (hscripts : I.fScriptChecks E = true)
    (hfund : paysDeveloperFund E script = false) :
    ∃ nIn txin, tx.vin[nIn]? = some txin ∧ txin.prevout = o ∧
      verifyScript E.crypto (I.flags E) ⟨tx, nIn, some (.ofTx E.crypto tx), none⟩ txin.scriptSig script =
        .ok () := by
  obtain ⟨txin, hmem, rfl⟩ := h.spends
  obtain ⟨nIn, hin⟩ := mem_iff_getElem?.1 hmem
  obtain ⟨acc, acc', -, rfl, hrun⟩ := h.checked
  obtain ⟨check, hbuilt, hverify⟩ := hrun hscripts nIn txin hin
  rw [scriptCheckOf_of_not_paysDeveloperFund hfund] at hbuilt
  obtain rfl := Except.ok.inj hbuilt
  refine ⟨nIn, txin, hin, rfl, ?_⟩
  simpa [CScriptCheck.run, CScriptCheck.scriptSig, CScriptCheck.checker, hin] using hverify

section Accepted

variable {G : NodeState} {block : CBlock} {disk : DiskOutcome} {fAlreadyChecked : Bool}
  {connected : Connected}

end Accepted

/-! ### Coins -/

def nullDataOut : CTxOut := ⟨0, [Opcode.OP_RETURN.toByte]⟩

/-- A transaction that spends a coin and leaves its value to the miner. -/
def spendTx (o : COutPoint) (scriptSig : CScript) (nSequence nLockTime : UInt32) : CTransaction where
  nVersion := 1
  vin := [⟨o, scriptSig, nSequence⟩]
  vout := [nullDataOut]
  nLockTime := nLockTime

/-- A coin of the view that could be spent in a block at this place if its script allowed it. -/
structure SpendableCoin (E : ValidationEnv) (ctx : ChainContext) (pindex : CBlockIndex)
    (view : CCoinsViewCache) (o : COutPoint) (coin : Coin) : Prop where
  getCoin : view.getCoin o = some coin
  notNull : o.isNull = false
  value : E.consensus.moneyRange coin.out.nValue = true
  mature : (coin.fCoinBase || coin.fCoinStake) = true →
    E.consensus.nCoinbaseMaturity ≤ getSpendHeight ctx view - coin.nHeight
  notBurned : ∀ addr ∈ E.addresses coin.out.scriptPubKey,
    E.consensus.isBurnAddress addr pindex.nHeight = false
  notFund : paysDeveloperFund E coin.out.scriptPubKey = false

namespace SpendableCoin

variable (h : SpendableCoin E I.ctx I.pindex view o coin)
include h

theorem accessCoin : view.accessCoin o = coin := by
  rw [CCoinsViewCache.accessCoin, h.getCoin, Option.getD_some]

theorem nonneg : 0 ≤ coin.out.nValue := (Params.moneyRange_iff.1 h.value).1

theorem not_isSpent : coin.isSpent = false := Coin.isSpent_eq_false h.nonneg

theorem of_haveInputs (tx : CTransaction) :
    SpendableCoin E I.ctx I.pindex (view.haveInputs tx).2 o coin where
  getCoin := by rw [CCoinsViewCache.getCoin_haveInputs, h.getCoin]
  notNull := h.notNull
  value := h.value
  mature hc := by
    simpa only [getSpendHeight, CCoinsViewCache.getBestBlock_haveInputs] using h.mature hc
  notBurned := h.notBurned
  notFund := h.notFund

theorem checkTxInput {txin : CTxIn} (hprevout : txin.prevout = o) {n : CAmount} (hn : 0 ≤ n)
    (hsum : n + coin.out.nValue ≤ E.consensus.nMaxMoneyOut) :
    checkTxInput E view (getSpendHeight I.ctx view) n txin = .ok (n + coin.out.nValue) := by
  have hmature : ¬((coin.fCoinBase || coin.fCoinStake) &&
      decide (getSpendHeight I.ctx view - coin.nHeight < E.consensus.nCoinbaseMaturity)) = true := by
    rw [Bool.and_eq_true, decide_eq_true_eq]
    exact fun hc ↦ absurd (h.mature hc.1) (not_le_of_gt hc.2)
  have hrange : E.consensus.moneyRange (n + coin.out.nValue) = true :=
    Params.moneyRange_iff.2 ⟨add_nonneg hn h.nonneg, hsum⟩
  simp only [KristaTech.checkTxInput, hprevout, h.accessCoin, rejectIf, if_neg hmature, ok_bind,
    h.value, hrange, Bool.not_true, Bool.or_self, Bool.false_eq_true, if_false, pure_eq_ok]

end SpendableCoin

/-! ### A transaction that spends such coins -/

section SpendsCoins

variable {tx : CTransaction} {nValueIn nValueOut : CAmount}

/-- Nothing but the scripts keeps the transaction from being in a block at this place. -/
structure SpendsCoins (E : ValidationEnv) (I : ConnectInput) (view : CCoinsViewCache) (tx : CTransaction)
    (nValueIn nValueOut : CAmount) : Prop where
  not_isCoinBase : tx.isCoinBase = false
  not_isCoinStake : tx.isCoinStake = false
  not_isZeroCoinPoW : E.isZeroCoinPoW tx = false
  coins : ∀ txin ∈ tx.vin, SpendableCoin E I.ctx I.pindex view txin.prevout (view.accessCoin txin.prevout)
  valueIn : (tx.vin.map fun txin ↦ (view.accessCoin txin.prevout).out.nValue).sum = nValueIn
  valueIn_le : nValueIn ≤ E.consensus.nMaxMoneyOut
  valueOut : tx.getValueOut = some nValueOut
  valueOut_nonneg : 0 ≤ nValueOut
  valueOut_le : nValueOut ≤ nValueIn
  sigops : getLegacySigOpCount tx = 0
  notScriptHash : ∀ txin ∈ tx.vin, (view.accessCoin txin.prevout).out.scriptPubKey.isPayToScriptHash = false

/-- The check of an input. -/
def inputCheck (E : ValidationEnv) (I : ConnectInput) (view : CCoinsViewCache) (tx : CTransaction)
    (p : CTxIn × ℕ) : CScriptCheck :=
  ⟨(view.accessCoin p.1.prevout).out.scriptPubKey, tx, p.2, I.flags E, .ofTx E.crypto tx, []⟩

theorem foldlM_checkTxInput {l : List CTxIn} {n : CAmount} (hn : 0 ≤ n) (hcoins : ∀ txin ∈ l,
      SpendableCoin E I.ctx I.pindex view txin.prevout (view.accessCoin txin.prevout))
    (hsum : n + (l.map fun txin ↦ (view.accessCoin txin.prevout).out.nValue).sum ≤
      E.consensus.nMaxMoneyOut) :
    l.foldlM (checkTxInput E view (getSpendHeight I.ctx view)) n =
      .ok (n + (l.map fun txin ↦ (view.accessCoin txin.prevout).out.nValue).sum) := by
  induction l generalizing n with
  | nil => simp
  | cons txin l ih =>
    rw [forall_mem_cons] at hcoins
    rw [map_cons, sum_cons, ← add_assoc] at hsum
    have hrest : 0 ≤ (l.map fun txin ↦ (view.accessCoin txin.prevout).out.nValue).sum := by
      refine sum_nonneg fun v hv ↦ ?_
      obtain ⟨txin', hmem, rfl⟩ := mem_map.1 hv
      exact (hcoins.2 txin' hmem).nonneg
    rw [foldlM_cons, hcoins.1.checkTxInput rfl hn ((le_add_of_nonneg_right hrest).trans hsum),
      ok_bind, map_cons, sum_cons, ← add_assoc]
    exact ih (add_nonneg hn hcoins.1.nonneg) hcoins.2 hsum

namespace SpendsCoins

variable (h : SpendsCoins E I view tx nValueIn nValueOut)
include h

theorem haveInputs : (view.haveInputs tx).1 = true := by
  rw [CCoinsViewCache.haveInputs_eq_true_iff _ h.not_isCoinBase]
  intro txin htxin
  rw [CCoinsViewCache.haveCoin, (h.coins txin htxin).not_isSpent, Bool.not_false]

theorem of_haveInputs : SpendsCoins E I (view.haveInputs tx).2 tx nValueIn nValueOut := by
  have haccess (o : COutPoint) : (view.haveInputs tx).2.accessCoin o = view.accessCoin o := by
    rw [CCoinsViewCache.accessCoin, CCoinsViewCache.getCoin_haveInputs, ← CCoinsViewCache.accessCoin]
  exact { h with
    coins := fun txin htxin ↦ haccess txin.prevout ▸ (h.coins txin htxin).of_haveInputs tx
    valueIn := by simpa only [haccess] using h.valueIn
    notScriptHash := by simpa only [haccess] using h.notScriptHash }

theorem checkSpentCoins : I.checkSpentCoins E view tx = .ok () := by
  have hburn : (tx.vin.any fun txin ↦
      (E.addresses (view.accessCoin txin.prevout).out.scriptPubKey).any fun addr ↦
        E.consensus.isBurnAddress addr I.pindex.nHeight) = false := by
    rw [any_eq_false]
    intro txin htxin
    simpa using (h.coins txin htxin).notBurned
  rw [ConnectInput.checkSpentCoins, hburn]
  refine bind_eq_ok_iff.2 ⟨(), rfl, forM_eq_ok fun txin htxin ↦ ?_⟩
  simp only [(h.coins txin htxin).notFund, Bool.false_eq_true, if_false]
  rfl

theorem checkTxInputs : checkTxInputs E view tx (getSpendHeight I.ctx view) = .ok () := by
  have hfold := foldlM_checkTxInput le_rfl h.coins (by rw [h.valueIn, zero_add]; exact h.valueIn_le)
  rw [h.valueIn, zero_add] at hfold
  have hfee : E.consensus.moneyRange (nValueIn - nValueOut) = true :=
    Params.moneyRange_iff.2 ⟨sub_nonneg.2 h.valueOut_le,
      (sub_le_self _ h.valueOut_nonneg).trans h.valueIn_le⟩
  rw [KristaTech.checkTxInputs, h.not_isZeroCoinPoW, h.not_isCoinStake, h.haveInputs, h.valueOut, hfold]
  by_cases hold : getSpendHeight I.ctx view ≤ E.consensus.totalBlocksEstimate
  · rw [if_pos hold]
  · simp [hold, rejectIf, orThrow, not_lt.2 h.valueOut_le, hfee]

/-- `CheckInputs` accepts the transaction if the checks of its inputs succeed. -/
theorem checkInputs (fScriptChecks : Bool)
    (hrun : fScriptChecks = true → ∀ p ∈ tx.vin.zipIdx, (inputCheck E I view tx p).run E.crypto = .ok ()) :
    ∃ checks, checkInputs E I.ctx I.masternodes view tx fScriptChecks (I.flags E) E.fScriptCheckThreads =
      .ok checks ∧ ∀ check ∈ checks, check.run E.crypto = .ok () := by
  rw [KristaTech.checkInputs, h.not_isCoinBase, h.checkTxInputs, h.not_isZeroCoinPoW]
  simp only [Bool.false_eq_true, if_false, ok_bind, pure_eq_ok]
  cases fScriptChecks with
  | false => exact ⟨[], rfl, fun check hcheck ↦ absurd hcheck not_mem_nil⟩
  | true =>
    have hchecks (fQueue : Bool) : scriptChecks E I.ctx I.masternodes view tx (I.flags E) fQueue =
        .ok (tx.vin.zipIdx.map (inputCheck E I view tx)) := by
      refine mapM_eq_ok fun p hp ↦ ?_
      have hbuilt : scriptCheckOf E I.ctx I.masternodes view tx (I.flags E) p.1 p.2 =
          .ok (inputCheck E I view tx p) :=
        scriptCheckOf_of_not_paysDeveloperFund (h.coins p.1 (fst_mem_of_mem_zipIdx hp)).notFund
      cases fQueue <;> simp [hbuilt, runScriptCheck_eq_ok_iff.2 (hrun rfl p hp)]
    refine ⟨_, hchecks _, fun check hcheck ↦ ?_⟩
    obtain ⟨p, hp, rfl⟩ := mem_map.1 hcheck
    exact hrun rfl p hp

end SpendsCoins

/-- The transaction passes the checks of `ConnectBlock` as well. -/
theorem SpendsCoins.checkTx (acc : ConnectState) (h : SpendsCoins E I acc.view tx nValueIn nValueOut)
    (hsigops : acc.nSigOps ≤ maxBlockSigOpsCurrent)
    (hrun : I.fScriptChecks E = true → ∀ p ∈ tx.vin.zipIdx,
      (inputCheck E I (acc.view.haveInputs tx).2 tx p).run E.crypto = .ok ()) :
    ∃ checks, I.checkTx E acc tx = .ok { acc with
        view := (acc.view.haveInputs tx).2
        nFees := acc.nFees + (nValueIn - nValueOut)
        nValueIn := acc.nValueIn + nValueIn
        nValueOut := acc.nValueOut + nValueOut
        vChecks := acc.vChecks ++ checks } ∧ ∀ check ∈ checks, check.run E.crypto = .ok () := by
  have h' := h.of_haveInputs
  obtain ⟨checks, hchecks, hruns⟩ := h'.checkInputs (I.fScriptChecks E) hrun
  have hin : (acc.view.haveInputs tx).2.getValueIn tx = nValueIn := by
    rw [CCoinsViewCache.getValueIn, h.not_isCoinBase, if_neg Bool.false_ne_true]
    exact h'.valueIn
  have hp2sh : (acc.view.haveInputs tx).2.getP2SHSigOpCount tx = 0 := by
    rw [CCoinsViewCache.getP2SHSigOpCount, h.not_isCoinBase, if_neg Bool.false_ne_true]
    refine sum_eq_zero fun n hn ↦ ?_
    obtain ⟨txin, htxin, rfl⟩ := mem_map.1 hn
    exact if_neg (by rw [h'.notScriptHash txin htxin]; exact Bool.false_ne_true)
  refine ⟨checks, ?_, hruns⟩
  simp [ConnectInput.checkTx, h.not_isCoinBase, h.not_isZeroCoinPoW, h.not_isCoinStake, h.sigops,
    not_lt.2 hsigops, h.haveInputs, h'.checkSpentCoins, h.valueOut, hchecks, hin, hp2sh, rejectIf, orThrow,
    Except.map]

end SpendsCoins

/-! ### A transaction with one input -/

section SpendTx

variable {scriptSig : CScript} {nSequence nLockTime : UInt32}

theorem not_isCoinBase_spendTx (ho : o.isNull = false) :
    (spendTx o scriptSig nSequence nLockTime).isCoinBase = false := by
  simp [spendTx, CTransaction.isCoinBase, ho]

theorem not_isCoinStake_spendTx : (spendTx o scriptSig nSequence nLockTime).isCoinStake = false := by
  simp [spendTx, CTransaction.isCoinStake]

theorem not_isZeroCoinPoW_spendTx : E.isZeroCoinPoW (spendTx o scriptSig nSequence nLockTime) = false := by
  have hmatch : matchPoWLockRegistration nullDataOut.scriptPubKey = none := rfl
  simp [ValidationEnv.isZeroCoinPoW, isZeroCoinPoWTransaction, spendTx, hmatch]

def spendCheck (E : ValidationEnv) (I : ConnectInput) (o : COutPoint) (script scriptSig : CScript)
    (nSequence nLockTime : UInt32) : CScriptCheck :=
  ⟨script, spendTx o scriptSig nSequence nLockTime, 0, I.flags E,
    .ofTx E.crypto (spendTx o scriptSig nSequence nLockTime), []⟩

namespace SpendableCoin

variable (h : SpendableCoin E I.ctx I.pindex view o coin)
include h

theorem spendsCoins (hp2sh : coin.out.scriptPubKey.isPayToScriptHash = false)
    (hsig : CScript.getSigOpCount scriptSig false = 0) :
    SpendsCoins E I view (spendTx o scriptSig nSequence nLockTime) coin.out.nValue 0 where
  not_isCoinBase := not_isCoinBase_spendTx h.notNull
  not_isCoinStake := not_isCoinStake_spendTx
  not_isZeroCoinPoW := not_isZeroCoinPoW_spendTx
  coins := by simpa [spendTx, h.accessCoin] using h
  valueIn := by simp [spendTx, h.accessCoin]
  valueIn_le := (Params.moneyRange_iff.1 h.value).2
  valueOut := rfl
  valueOut_nonneg := le_rfl
  valueOut_le := h.nonneg
  sigops := by
    have hout : CScript.getSigOpCount nullDataOut.scriptPubKey false = 0 := rfl
    simp [getLegacySigOpCount, spendTx, hsig, hout]
  notScriptHash := by simpa [spendTx, h.accessCoin] using hp2sh

/-- The transaction passes the checks of `ConnectBlock`. All of its value is fee. -/
theorem checkTx (hp2sh : coin.out.scriptPubKey.isPayToScriptHash = false)
    (hsig : CScript.getSigOpCount scriptSig false = 0)
    (hrun : I.fScriptChecks E = true →
      (spendCheck E I o coin.out.scriptPubKey scriptSig nSequence nLockTime).run E.crypto = .ok ())
    (vtxundo : List CTxUndo) :
    ∃ mid, I.checkTx E { view := view, vtxundo := vtxundo } (spendTx o scriptSig nSequence nLockTime) =
        .ok mid ∧
      mid.view = (view.haveInputs (spendTx o scriptSig nSequence nLockTime)).2 ∧
      mid.nFees = coin.out.nValue ∧ mid.nValueIn = coin.out.nValue ∧
      mid.nValueOut = 0 ∧ ∀ check ∈ mid.vChecks, check.run E.crypto = .ok () := by
  have h' := h.of_haveInputs (spendTx o scriptSig nSequence nLockTime)
  obtain ⟨checks, hcheck, hruns⟩ := SpendsCoins.checkTx { view := view, vtxundo := vtxundo }
    (h.spendsCoins hp2sh hsig) (Nat.zero_le _) fun hscripts p hp ↦ by
      obtain rfl : p = (⟨o, scriptSig, nSequence⟩, 0) := mem_singleton.1 hp
      rw [inputCheck, h'.accessCoin]
      exact hrun hscripts
  exact ⟨_, hcheck, rfl, by simp, zero_add _, rfl, hruns⟩

/-- **The coin is spent** by a final transaction that satisfies its script. -/
theorem validSpend {nBlockTime : ℤ} (hp2sh : coin.out.scriptPubKey.isPayToScriptHash = false)
    (hsig : CScript.getSigOpCount scriptSig false = 0)
    (hfinal : isFinalTx X I.ctx (spendTx o scriptSig nSequence nLockTime) I.pindex.nHeight nBlockTime = true)
    (hverify : I.fScriptChecks E = true →
      (spendCheck E I o coin.out.scriptPubKey scriptSig nSequence nLockTime).run E.crypto = .ok ()) :
    ValidSpend E X I nBlockTime o coin.out.scriptPubKey (spendTx o scriptSig nSequence nLockTime) := by
  have h' := h.of_haveInputs (spendTx o scriptSig nSequence nLockTime)
  obtain ⟨mid, hcheck, hview, -⟩ := h.checkTx hp2sh hsig hverify []
  rw [← hview] at h'
  refine ⟨hfinal, not_isCoinBase_spendTx h.notNull, not_isZeroCoinPoW_spendTx,
    ⟨⟨o, scriptSig, nSequence⟩, mem_singleton_self _, rfl⟩, _, mid, hcheck, by rw [h'.accessCoin],
    fun hscripts nIn txin hin ↦ ?_⟩
  obtain ⟨rfl, rfl⟩ : nIn = 0 ∧ ⟨o, scriptSig, nSequence⟩ = txin := by
    simpa [spendTx, getElem?_singleton] using hin
  refine ⟨_, scriptCheckOf_of_not_paysDeveloperFund (by rw [h'.accessCoin]; exact h.notFund), ?_⟩
  rw [h'.accessCoin]
  exact hverify hscripts

end SpendableCoin

end SpendTx

end KristaTech
