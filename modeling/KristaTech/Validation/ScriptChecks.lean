import KristaTech.Validation.TxSteps
import Mathlib.Data.Set.Basic

/-!
# The script checks of an accepted block

`CheckInputs` builds one script check for each input. It is made at once, or queued and made after
all transactions; either way a block is only accepted if all of its checks succeed
(`scriptCheck_of_connectBlock`).
-/

namespace KristaTech

variable {E : ValidationEnv}

/-! ### The checks of a transaction -/

section Inputs

variable {ctx : ChainContext} {s : Masternode.MasternodeState} {inputs : CCoinsViewCache}
  {tx : CTransaction} {flags : ScriptFlags} {txin : CTxIn} {nIn : ℕ}

theorem scriptCheckOf_of_not_paysDeveloperFund
    (h : paysDeveloperFund E (inputs.accessCoin txin.prevout).out.scriptPubKey = false) :
    scriptCheckOf E ctx s inputs tx flags txin nIn =
      .ok ⟨(inputs.accessCoin txin.prevout).out.scriptPubKey, tx, nIn, flags, .ofTx E.crypto tx, []⟩ := by
  simp [scriptCheckOf, h]

theorem runScriptCheck_eq_ok_iff {check : CScriptCheck} :
    runScriptCheck E check = .ok () ↔ check.run E.crypto = .ok () := by
  rw [runScriptCheck]
  cases check.run E.crypto with
  | ok u => simp
  | error e => split_ifs <;> simp

/-- When `CheckInputs` succeeds with script checks on, every input's check has been built. It has
succeeded if there is no queue. -/
theorem exists_check_of_checkInputs {fQueue : Bool} {checks : List CScriptCheck}
    (hok : checkInputs E ctx s inputs tx true flags fQueue = .ok checks)
    (hcoinbase : tx.isCoinBase = false) (hzero : E.isZeroCoinPoW tx = false)
    (hin : tx.vin[nIn]? = some txin) :
    ∃ check ∈ checks, scriptCheckOf E ctx s inputs tx flags txin nIn = .ok check ∧
      (fQueue = false → check.run E.crypto = .ok ()) := by
  simp only [checkInputs, hcoinbase, hzero, Bool.false_eq_true, if_false, if_true,
    Except.bind_eq_ok_iff] at hok
  obtain ⟨-, -, hchecks⟩ := hok
  have hmem : (txin, nIn) ∈ tx.vin.zipIdx := List.mem_zipIdx_iff_getElem?.2 hin
  obtain ⟨check, hcheck, hof⟩ := List.exists_of_mapM_eq_ok hchecks hmem
  obtain ⟨check', hbuilt, hrest⟩ := Except.bind_eq_ok_iff.1 hof
  clear hof
  cases fQueue with
  | true =>
    obtain rfl : check' = check := Except.ok.inj hrest
    exact ⟨check', hcheck, hbuilt, nofun⟩
  | false =>
    obtain ⟨u, hrun, heq⟩ := Except.bind_eq_ok_iff.1 hrest
    obtain rfl : check' = check := Except.ok.inj heq
    exact ⟨check', hcheck, hbuilt, fun _ ↦ runScriptCheck_eq_ok_iff.1 hrun⟩

end Inputs

/-! ### The checks of a block -/

namespace ConnectInput

variable {I : ConnectInput} {acc acc' : ConnectState} {tx : CTransaction}

theorem vChecks_updateTx (h : I.updateTx E acc tx = .ok acc') : acc'.vChecks = acc.vChecks := by
  obtain ⟨_, -, h⟩ := Except.bind_eq_ok_iff.1 h
  obtain rfl := Except.ok.inj h
  rfl

variable {vtx : List CTransaction} {check : CScriptCheck}

theorem mem_vChecks_of_connectTxs {burns : BurnCache} {t : ConnectState}
    (hacts : List.Acts (I.checkTx E) (I.updateTx E) vtx acc acc' tx)
    (hok : (I.connectTxs E vtx burns acc).2 = .ok t) (hcheck : check ∈ acc'.vChecks) :
    check ∈ t.vChecks := by
  refine hacts.le_of_effectLoop_eq_ok (μ := fun acc : ConnectState ↦ {c | c ∈ acc.vChecks})
    (fun acc tx acc' h ↦ ?_) (fun acc tx acc' h ↦ ?_) hok hcheck
  · obtain ⟨checks, -, heq⟩ := (txChecked_of_checkTx h).checks
    exact fun c hc ↦ heq ▸ List.mem_append_left checks hc
  · exact fun c hc ↦ (vChecks_updateTx h).symm ▸ hc

theorem exists_checkTx_of_acts (hacts : List.Acts (I.checkTx E) (I.updateTx E) vtx acc acc' tx) :
    ∃ before, I.checkTx E before tx = .ok acc' := by
  induction hacts with
  | here h => exact ⟨_, h⟩
  | there _ _ _ ih => exact ih

theorem run_of_checkAfter {block : CBlock} {nMoneySupply : CAmount}
    (hok : I.checkAfter E block nMoneySupply acc = .ok ()) (hthreads : E.fScriptCheckThreads = true)
    (hcheck : check ∈ acc.vChecks) : check.run E.crypto = .ok () := by
  rw [checkAfter] at hok
  split at hok
  · cases hok
  · obtain ⟨-, -, hrun⟩ := Except.bind_eq_ok_iff.1 hok
    simp only [hthreads, Bool.true_and, rejectIf_eq_ok_iff, List.any_eq_true, not_exists, not_and,
      Bool.not_eq_true', Bool.not_eq_false] at hrun
    have hisOk := hrun check hcheck
    cases hresult : check.run E.crypto with
    | ok u => rfl
    | error e => simp [hresult, Except.isOk, Except.toBool] at hisOk

end ConnectInput

section Accepted

variable {ctx : ChainContext} {G : NodeState} {block : CBlock} {pindex : CBlockIndex}
  {view : CCoinsViewCache} {disk : DiskOutcome} {fJustCheck fAlreadyChecked : Bool}
  {connected : Connected} {I : ConnectInput}

/-- **The script checks of an accepted block have succeeded**, one for each input of each transaction
that spends coins, against the coins as the transactions before have left them. -/
theorem scriptCheck_of_connectBlock (hI : I = ⟨ctx, G.masternodes, pindex, fJustCheck⟩)
    (hok : (connectBlock E ctx G block pindex view disk fJustCheck fAlreadyChecked).2 = .ok connected)
    (hgenesis : block.getHash E.crypto ≠ E.consensus.hashGenesisBlock)
    (hscripts : I.fScriptChecks E = true) {mid : ConnectState} {tx : CTransaction}
    (hacts : List.Acts (I.checkTx E) (I.updateTx E) block.vtx { view := view } mid tx)
    (hcoinbase : tx.isCoinBase = false) (hzero : E.isZeroCoinPoW tx = false) {nIn : ℕ} {txin : CTxIn}
    (hin : tx.vin[nIn]? = some txin) :
    ∃ check, scriptCheckOf E ctx G.masternodes mid.view tx (I.flags E) txin nIn = .ok check ∧
      check.run E.crypto = .ok () := by
  obtain ⟨-, -, burns, acc, hloop, hafter, -⟩ :=
    (connectBlock_eq_ok_iff hI hgenesis).1 (Prod.ext rfl hok)
  obtain ⟨before, hbefore⟩ := ConnectInput.exists_checkTx_of_acts hacts
  obtain ⟨checks, hchecks, hvChecks⟩ := (ConnectInput.txChecked_of_checkTx hbefore).checks
  rw [hscripts] at hchecks
  obtain ⟨check, hmem, hbuilt, hrun⟩ := exists_check_of_checkInputs hchecks hcoinbase hzero hin
  refine ⟨check, by subst hI; exact hbuilt, ?_⟩
  cases hthreads : E.fScriptCheckThreads with
  | false => exact hrun hthreads
  | true =>
    have hend : check ∈ acc.vChecks :=
      ConnectInput.mem_vChecks_of_connectTxs hacts (congrArg Prod.snd hloop)
        (hvChecks ▸ List.mem_append_right _ hmem)
    exact ConnectInput.run_of_checkAfter hafter hthreads hend

end Accepted

end KristaTech
