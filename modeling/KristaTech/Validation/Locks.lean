import KristaTech.Script.Completion
import KristaTech.Validation.CoinSpend

/-!
# Coins with a lock

Whether a coin with a lock can be moved is decided by `OP_CHECKLOCKTIMEVERIFY`, under the flags that
`ConnectBlock` sets, and by `IsFinalTx`. A lock time is a height below the threshold, and a time from
there on. A lock that is checked and has not expired keeps its coin (`not_validSpend_of_unexpired`); one
that is not checked, or has expired, does not keep it from its owner (`LockScript.exists_validSpend`).
-/

namespace KristaTech

/-! ### Locks and final transactions -/

section Final

variable {X : ContextualEnv} {ctx : ChainContext}

/-- The time that lock times are compared with in a block of this time. -/
def lockTimeCutoff (X : ContextualEnv) (nBlockTime : ℤ) : ℤ :=
  if nBlockTime = 0 then X.getAdjustedTime else nBlockTime

def Unexpired (X : ContextualEnv) (nHeight nBlockTime lockTime : ℤ) : Prop :=
  if lockTime < locktimeThreshold then nHeight ≤ lockTime else lockTimeCutoff X nBlockTime ≤ lockTime

instance (nHeight nBlockTime lockTime : ℤ) : Decidable (Unexpired X nHeight nBlockTime lockTime) :=
  inferInstanceAs (Decidable (if lockTime < locktimeThreshold then nHeight ≤ lockTime
    else lockTimeCutoff X nBlockTime ≤ lockTime))

theorem isFinalTx_eq_true_iff {tx : CTransaction} {nHeight nBlockTime : ℤ} (hheight : 0 < nHeight) :
    isFinalTx X ctx tx nHeight nBlockTime = true ↔ (tx.nLockTime.toNat : ℤ) = 0 ∨
      ¬Unexpired X nHeight nBlockTime tx.nLockTime.toNat ∨ ∀ txin ∈ tx.vin, txin.nSequence = sequenceFinal := by
  have hexpired : ¬Unexpired X nHeight nBlockTime tx.nLockTime.toNat ↔ (tx.nLockTime.toNat : ℤ) <
      if (tx.nLockTime.toNat : ℤ) < locktimeThreshold then nHeight else lockTimeCutoff X nBlockTime := by
    rw [Unexpired]
    split_ifs <;> exact not_le
  simp only [isFinalTx, hheight.ne', if_false, Bool.or_eq_true, beq_iff_eq, decide_eq_true_eq, List.all_eq_true,
    or_assoc, hexpired]
  rfl

/-- **A transaction that satisfies a lock which has not expired is not final.** -/
theorem not_isFinalTx_of_checkLockTime {checker : TransactionSignatureChecker} {txin : CTxIn}
    {nHeight nBlockTime lockTime : ℤ} (hin : checker.txTo.vin[checker.nIn]? = some txin)
    (hpos : 0 < lockTime) (hheight : 0 < nHeight) (hlock : Unexpired X nHeight nBlockTime lockTime)
    (hcheck : checker.checkLockTime lockTime = true) :
    isFinalTx X ctx checker.txTo nHeight nBlockTime = false := by
  simp only [TransactionSignatureChecker.checkLockTime, Bool.and_eq_true, decide_eq_true_eq, bne_iff_ne,
    beq_iff_eq, decide_eq_decide] at hcheck
  obtain ⟨⟨hkind, hle⟩, hsequence⟩ := hcheck
  rw [← Bool.not_eq_true, isFinalTx_eq_true_iff hheight, not_or, not_or, not_not]
  refine ⟨by omega, ?_, fun hall ↦ hsequence ?_⟩
  · -- the lock time of the transaction is of the same kind and not smaller
    have hkind : ((checker.txTo.nLockTime.toNat : ℤ) < locktimeThreshold) ↔ lockTime < locktimeThreshold :=
      hkind
    rw [Unexpired] at hlock ⊢
    rw [if_congr hkind rfl rfl]
    split_ifs at hlock ⊢
    · exact hlock.trans hle
    · exact hlock.trans hle
  · rw [TransactionSignatureChecker.nSequence, hin]
    exact hall txin (List.mem_of_getElem? hin)

end Final

/-! ### Satisfying a lock -/

/-- Whoever owns the coin can sign for it, and its script is within the limits. -/
structure OwnerCanSign (C : Crypto) (script : CScript) : Prop where
  length_le : script.length ≤ CScript.maxScriptSize
  size_le : ∀ op ∈ CScript.ops script, op.vch.length ≤ maxScriptElementSize
  signs : ∃ vchPubKey, paysTo C script vchPubKey = true ∧ vchPubKey.length ≤ maxScriptElementSize ∧
    ∀ checker : TransactionSignatureChecker, ∃ vchSig, vchSig.length ≤ maxScriptElementSize ∧
      isValidSignatureEncoding vchSig = true ∧
      checker.checkEcdsaSig C vchSig vchPubKey (signedCode .SIGVERSION_BASE script [vchSig]) = true

section Owner

variable {E : ValidationEnv} {X : ContextualEnv} {I : ConnectInput} {view : CCoinsViewCache}
  {o : COutPoint} {coin : Coin} {nSequence nLockTime : UInt32}

def spendChecker (C : Crypto) (o : COutPoint) (scriptSig : CScript) (nSequence nLockTime : UInt32) :
    TransactionSignatureChecker where
  txTo := spendTx o scriptSig nSequence nLockTime
  nIn := 0
  precomTxData := some (.ofTx C (spendTx o scriptSig nSequence nLockTime))

theorem signatureHash_spendTx (C : Crypto) (code scriptSig : CScript) (nHashType : HashType) :
    signatureHash code (spendTx o scriptSig nSequence nLockTime) 0 nHashType C =
      signatureHash code (spendTx o [] nSequence nLockTime) 0 nHashType C := by
  have hinputs (s : CScript) : Writer.vector (fun p ↦ serializeSignedInput code 0 nHashType p.1 p.2)
      (signedInputs (spendTx o s nSequence nLockTime) 0 nHashType) =
        Writer.vector (fun p ↦ serializeSignedInput code 0 nHashType p.1 p.2) [(0, ⟨o, [], nSequence⟩)] := by
    rw [signedInputs]
    split_ifs <;> rfl
  rw [signatureHash, signatureHash, hinputs, hinputs]
  rfl

theorem toBase_spendChecker (C : Crypto) (scriptSig : CScript) :
    (spendChecker C o scriptSig nSequence nLockTime).toBase C =
      (spendChecker C o [] nSequence nLockTime).toBase C := by
  have hecdsa : (spendChecker C o scriptSig nSequence nLockTime).checkEcdsaSig C =
      (spendChecker C o [] nSequence nLockTime).checkEcdsaSig C := by
    funext vchSig vchPubKey code
    simp only [TransactionSignatureChecker.checkEcdsaSig, spendChecker, signatureHash_spendTx]
  have hsig : (spendChecker C o scriptSig nSequence nLockTime).checkSig C =
      (spendChecker C o [] nSequence nLockTime).checkSig C := by
    funext vchSig vchPubKey code sigversion
    cases sigversion with
    | SIGVERSION_BASE => exact congrFun (congrFun (congrFun hecdsa _) _) _
    | SIGVERSION_TAPROOT => rfl
    | SIGVERSION_TAPSCRIPT =>
      simp only [TransactionSignatureChecker.checkSig, hecdsa]
      rfl
  rw [TransactionSignatureChecker.toBase, hsig]
  rfl

theorem checkEncodings_of_dersig {C : Crypto} {flags : ScriptFlags} {vchSig vchPubKey : Bytes}
    (hlowS : flags.lowS = false) (hstrictenc : flags.strictenc = false)
    (h : isValidSignatureEncoding vchSig = true) :
    checkEncodings C flags .SIGVERSION_BASE vchSig vchPubKey = .ok () := by
  simp [checkEncodings, checkSignatureEncoding, checkPubKeyEncoding, hlowS, hstrictenc, h]

theorem getSigOpCount_pushAll {bs : List Bytes} (h : ∀ b ∈ bs, b.length ≤ maxScriptElementSize) :
    CScript.getSigOpCount (pushAll bs) false = 0 := by
  have hloop (last : Option Opcode) :
      ((CScript.ops (pushAll bs)).foldl (CScript.countSigOp false) (0, last)).1 = 0 := by
    induction bs generalizing last with
    | nil => rfl
    | cons b bs ih =>
      rw [List.forall_mem_cons] at h
      obtain ⟨opcode, hle, hget⟩ := getOp_pushData h.1 (pushAll bs)
      have hne : ∀ op ∈ [Opcode.OP_CHECKSIG, .OP_CHECKSIGVERIFY, .OP_CHECKMULTISIG, .OP_CHECKMULTISIGVERIFY],
          ¬op ≤ .OP_PUSHDATA4 := by decide
      have hnot (op : Opcode) (hop : op ∈ [Opcode.OP_CHECKSIG, .OP_CHECKSIGVERIFY, .OP_CHECKMULTISIG,
          .OP_CHECKMULTISIGVERIFY]) : opcode ≠ op := fun heq ↦ hne op hop (heq ▸ hle)
      have hcount : CScript.countSigOp false (0, last) ⟨opcode, b, pushAll bs⟩ = (0, some opcode) := by
        simp [CScript.countSigOp, hnot]
      rw [pushAll_cons, CScript.ops_of_getOp hget, List.foldl_cons, hcount]
      exact ih h.2 _
  exact hloop none

variable {nBlockTime : ℤ}

/-- **The owner of a coin with a lock spends it** by a final transaction that the lock lets pass. -/
theorem LockScript.exists_validSpend {lock check : ScriptOp}
    (h : LockScript coin.out.scriptPubKey lock check)
    (hcoin : SpendableCoin E I.ctx I.pindex view o coin)
    (howner : OwnerCanSign E.crypto coin.out.scriptPubKey)
    (hfinal : ∀ scriptSig, isFinalTx X I.ctx (spendTx o scriptSig nSequence nLockTime) I.pindex.nHeight
      nBlockTime = true) (hcheck : I.fScriptChecks E = true → ∀ s, s.length ≤ 2 →
      Completes E.crypto (I.flags E) ((spendChecker E.crypto o [] nSequence nLockTime).toBase E.crypto)
        .SIGVERSION_BASE coin.out.scriptPubKey [check] 1 (lock.pushed :: s) (lock.pushed :: s)) :
    ∃ tx, ValidSpend E X I nBlockTime o coin.out.scriptPubKey tx ∧ tx.isCoinStake = false := by
  obtain ⟨vchPubKey, hpays, hkey, hsigns⟩ := howner.signs
  obtain ⟨vchSig, hsize, hencoding, hsig⟩ := hsigns (spendChecker E.crypto o [] nSequence nLockTime)
  have hsizes (bs : List Bytes) (hbs : bs = [vchSig, vchPubKey] ∨ bs = [vchSig]) :
      ∀ b ∈ bs, b.length ≤ maxScriptElementSize := by
    rcases hbs with rfl | rfl <;> simp [hkey, hsize]
  obtain ⟨bs, hbs, hverify⟩ : ∃ bs, (bs = [vchSig, vchPubKey] ∨ bs = [vchSig]) ∧
      (I.fScriptChecks E = true → verifyScript E.crypto (I.flags E)
        (spendChecker E.crypto o (pushAll bs) nSequence nLockTime) (pushAll bs) coin.out.scriptPubKey =
          .ok ()) := by
    by_cases hscripts : I.fScriptChecks E = true
    · obtain ⟨bs, hbs, hverify⟩ := h.exists_verifyScript (hcheck hscripts) ⟨rfl, rfl, rfl⟩ howner.length_le
        howner.size_le hpays hkey hsize (checkEncodings_of_dersig rfl rfl hencoding) hsig
      refine ⟨bs, hbs, fun _ ↦ ?_⟩
      have hbase (s : List Bytes) (script : CScript) : evalBase E.crypto (I.flags E)
          (spendChecker E.crypto o (pushAll bs) nSequence nLockTime) s script =
            evalBase E.crypto (I.flags E) (spendChecker E.crypto o [] nSequence nLockTime) s script := by
        rw [evalBase, toBase_spendChecker, evalBase]
      rw [verifyScript] at hverify ⊢
      simpa only [hbase, h.not_isPayToScriptHash, Bool.and_false, Bool.false_eq_true, if_false,
        show (I.flags E).taproot = false from rfl, Bool.false_and] using hverify
    · exact ⟨_, Or.inr rfl, fun hscripts' ↦ absurd hscripts' hscripts⟩
  exact ⟨_, hcoin.validSpend h.not_isPayToScriptHash (getSigOpCount_pushAll (hsizes bs hbs)) (hfinal _) hverify,
    not_isCoinStake_spendTx⟩

theorem isFinalTx_spendTx (scriptSig : CScript) {nHeight : ℤ} :
    isFinalTx X I.ctx (spendTx o scriptSig sequenceFinal 0) nHeight nBlockTime = true := by
  simp [isFinalTx, spendTx]

section Lock

variable {lock check : ScriptOp} {nBlockTime : ℤ} (h : LockScript coin.out.scriptPubKey lock check)
  (hcoin : SpendableCoin E I.ctx I.pindex view o coin) (howner : OwnerCanSign E.crypto coin.out.scriptPubKey)
include h hcoin howner

omit hcoin in
theorem LockScript.length_check_le : check.vch.length ≤ maxScriptElementSize := by
  obtain ⟨_, _, _, _, -, -, -, -, hops⟩ := h.exists_ops
  refine howner.size_le check ?_
  simp [hops]

/-- A lock that is not checked. -/
theorem LockScript.exists_validSpend_of_unchecked (hop : check.opcode = .OP_CHECKLOCKTIMEVERIFY)
    (hflag : (I.flags E).checklocktimeverify = false) :
    ∃ tx, ValidSpend E X I nBlockTime o coin.out.scriptPubKey tx ∧ tx.isCoinStake = false :=
  h.exists_validSpend hcoin howner (fun _ ↦ isFinalTx_spendTx _) fun _ s hs ↦
    completes_checkLockTimeVerify_nop hop (h.length_check_le howner) (by rw [List.length_cons]; omega)
      hflag rfl

/-- Relative locks are never checked. -/
theorem LockScript.exists_validSpend_of_relative (hop : check.opcode = .OP_CHECKSEQUENCEVERIFY) :
    ∃ tx, ValidSpend E X I nBlockTime o coin.out.scriptPubKey tx ∧ tx.isCoinStake = false :=
  h.exists_validSpend hcoin howner (fun _ ↦ isFinalTx_spendTx _) fun _ s hs ↦
    completes_checkSequenceVerify_nop hop (h.length_check_le howner) (by rw [List.length_cons]; omega) rfl

/-- A lock that has expired. -/
theorem LockScript.exists_validSpend_of_expired {lockTime : ℤ} (hop : check.opcode = .OP_CHECKLOCKTIMEVERIFY)
    (hflag : (I.flags E).checklocktimeverify = true)
    (hnum : CScriptNum.ofVch lock.pushed false 5 = some lockTime) (hnonneg : 0 ≤ lockTime)
    (hlt : lockTime < 2 ^ 31) (hheight : 0 < I.pindex.nHeight)
    (hexpired : ¬Unexpired X I.pindex.nHeight nBlockTime lockTime) :
    ∃ tx, ValidSpend E X I nBlockTime o coin.out.scriptPubKey tx ∧ tx.isCoinStake = false := by
  -- the lock time of the transaction is that of the script
  let nLockTime : UInt32 := UInt32.ofNat lockTime.toNat
  have htoNat : (nLockTime.toNat : ℤ) = lockTime := by
    rw [UInt32.toNat_ofNat_of_lt' (by simp only [UInt32.size]; omega)]
    omega
  have hfinal (scriptSig : CScript) :
      isFinalTx X I.ctx (spendTx o scriptSig 0 nLockTime) I.pindex.nHeight nBlockTime = true := by
    rw [isFinalTx_eq_true_iff hheight]
    refine Or.inr (Or.inl ?_)
    show ¬Unexpired X I.pindex.nHeight nBlockTime nLockTime.toNat
    rwa [htoNat]
  have hmet : ((spendChecker E.crypto o [] 0 nLockTime).toBase E.crypto).checkLockTime lockTime = true := by
    have hsequence : (spendChecker E.crypto o [] 0 nLockTime).nSequence = 0 := rfl
    have htx : (spendChecker E.crypto o [] 0 nLockTime).txTo.nLockTime = nLockTime := rfl
    rw [TransactionSignatureChecker.checkLockTime_toBase, TransactionSignatureChecker.checkLockTime, hsequence,
      htx, htoNat, beq_self_eq_true, Bool.true_and, decide_eq_true le_rfl]
    rfl
  exact h.exists_validSpend hcoin howner hfinal fun _ s hs ↦ completes_checkLockTimeVerify hop
    (h.length_check_le howner) (by omega) hflag hnum hnonneg hmet

end Lock

/-! ### What a lock keeps -/

theorem ConnectInput.flags_checklocktimeverify {pprev : CBlockIndex} (hpprev : I.pprev = some pprev) :
    (I.flags E).checklocktimeverify = true ↔ I.fScriptChecks E = true ∧
      E.consensus.networkUpgradeActive pprev.nHeight .UPGRADE_BIP65 = true := by
  simp [ConnectInput.flags, hpprev]

/-- **A lock that is checked and has not expired keeps the coin.** -/
theorem not_validSpend_of_unexpired {script : CScript} {lockTime : ℤ}
    (hflag : (I.flags E).checklocktimeverify = true) (hfund : paysDeveloperFund E script = false)
    (hpos : 0 < lockTime) (hheight : 0 < I.pindex.nHeight)
    (hlock : Unexpired X I.pindex.nHeight nBlockTime lockTime)
    (hcheck : ∀ (checker : TransactionSignatureChecker) (scriptSig : CScript),
      verifyScript E.crypto (I.flags E) checker scriptSig script = .ok () →
        checker.checkLockTime lockTime = true) (tx : CTransaction) :
    ¬ValidSpend E X I nBlockTime o script tx := by
  intro h
  have hscripts : I.fScriptChecks E = true := (Bool.and_eq_true_iff.1 hflag).1
  obtain ⟨nIn, txin, hin, -, hverify⟩ := h.exists_verifyScript hscripts hfund
  have hnot : isFinalTx X I.ctx tx I.pindex.nHeight nBlockTime = false :=
    not_isFinalTx_of_checkLockTime hin hpos hheight hlock (hcheck _ _ hverify)
  exact Bool.false_ne_true (hnot.symm.trans h.final)

end Owner

/-! ### Places for samples -/

section Sample

def quietContextual : ContextualEnv where
  getTransaction _ := none
  getAdjustedTime := 1700000060
  maxFutureBlockTime _ := 2000000000
  minPastBlockTime _ := 0
  nTimeSlotLength := 1
  sporkMaxBlockTime := 2000000000
  sporkMaxBlockSize := 2000000
  checkpointsCheckBlock _ _ := true
  lastCheckpoint := none
  nMaxReorgDepth := 100

def nextOf (tip : CBlockIndex) : ConnectInput where
  ctx :=
    { mapBlockIndex := fun hash ↦ if hash = tip.hash then some tip else none
      tip := some tip
      contains := fun hash ↦ hash == tip.hash
      isInitialBlockDownload := false
      fReindex := false
      fVerifyingBlocks := false
      fMasternodePingStateInitialized := true }
  masternodes := ⟨.empty, .empty, ∅⟩
  pindex := ⟨3, tip.hash, tip.nHeight + 1, tip.nTime + 60⟩
  fJustCheck := false

def shortSig : Bytes := [0x30, 6, 2, 1, 1, 2, 1, 1, 1]

theorem ownerCanSign_default {script : CScript} (vchPubKey : Bytes)
    (hlength : script.length ≤ CScript.maxScriptSize)
    (hsize : ∀ op ∈ CScript.ops script, op.vch.length ≤ maxScriptElementSize)
    (hpays : paysTo default script vchPubKey = true) (hkey : vchPubKey.length ≤ maxScriptElementSize)
    (hvalid : (CPubKey.set vchPubKey).isValid = true) : OwnerCanSign default script := by
  refine ⟨hlength, hsize, vchPubKey, hpays, hkey, fun checker ↦ ⟨shortSig, by decide, by decide, ?_⟩⟩
  show ((CPubKey.set vchPubKey).isValid && ((CPubKey.set vchPubKey).isValid && true)) = true
  rw [hvalid]
  rfl

end Sample

end KristaTech
