import KristaTech.Validation.Inputs
import KristaTech.Validation.Contextual
import KristaTech.Validation.TxSteps

/-!
# The memory pool

`AcceptToMemoryPool` of `main.cpp`, with the rules of `policy/policy.cpp` for what is relayed. A
transaction is checked on the active tip, with the outputs of the pool as further coins. What depends
on clocks, priorities and the settings of the node is a parameter (`MempoolEnv`): the fee rules, and
the limits on chains of transactions in the pool.

A transaction of the pool is final as of the median time of the tip (`Accepted.isFinalTx`), which is
earlier than any block on top of it. The limit on its signature operations is above the one that
`CheckBlock` puts on a whole block.
-/

namespace KristaTech

open Masternode List Except

/-- `MAX_TX_SIGOPS_CURRENT`. -/
def maxTxSigOpsCurrent : ℕ := 32000

/-- `MAX_P2SH_SIGOPS`. -/
def maxP2SHSigOps : ℕ := 15

/-- `MEMPOOL_HEIGHT`. -/
def mempoolHeight : ℤ := 0x7FFFFFFF

/-- The settings of the node, and what its policy decides. -/
structure MempoolEnv where
  /-- In units for 1000 bytes. -/
  minRelayTxFee : CAmount
  fIsBareMultisigStd : Bool
  fAcceptDatacarrier : Bool
  nMaxDatacarrierBytes : ℕ
  /-- `GetMedianTimePast` of the tip. -/
  medianTimePast : ℤ
  /-- How long a registration has to be locked. -/
  nRegPeriod : ℤ
  /-- The minimal fee, the priority and the rate of free transactions, the absurd fee, and the
  trimming of the pool. -/
  acceptsFee : CTransaction → CAmount → Bool
  /-- `CalculateMemPoolAncestors` stays within the limits. -/
  withinChainLimits : List CTransaction → CTransaction → Bool

variable (E : ValidationEnv) (X : ContextualEnv) (ctx : ChainContext) (Y : MempoolEnv)

/-! ### Standard transactions -/

/-- `CFeeRate::GetFee`. -/
def getFee (nSatoshisPerK : CAmount) (nSize : ℕ) : CAmount :=
  let nFee := nSatoshisPerK * nSize / 1000
  if nFee = 0 ∧ 0 < nSatoshisPerK then nSatoshisPerK else nFee

/-- `IsDust`. -/
def isDust (out : CTxOut) : Bool :=
  let threshold := if CScript.isUnspendable out.scriptPubKey then 0
    else 3 * getFee Y.minRelayTxFee ((CTransaction.serializeOut out).length + 148)
  out.nValue < threshold

/-- `IsStandard`: the form of the script, if it is a standard one. -/
def isStandard (scriptPubKey : CScript) : Option TxnOutType :=
  match solver E.mescalDecompiles scriptPubKey with
  | none => none
  | some (.TX_MULTISIG, vSolutions) =>
    let m := (vSolutions.head?.bind List.head?).getD 0
    let n := (vSolutions.getLast?.bind List.head?).getD 0
    if n < 1 ∨ 3 < n ∨ m < 1 ∨ n < m then none else some .TX_MULTISIG
  | some (.TX_NULL_DATA, _) =>
    if !Y.fAcceptDatacarrier ∨ Y.nMaxDatacarrierBytes < scriptPubKey.length then none
    else some .TX_NULL_DATA
  | some (whichType, _) => some whichType

/-- A registration may be dust: by its form, or because it holds a lock. -/
def isAdamReg (whichType : TxnOutType) (scriptPubKey : CScript) : Bool :=
  whichType == .TX_ADAM_POWLOCK || whichType == .TX_ADAM_COINLOCK ||
    (10 < scriptPubKey.length && scriptPubKey.contains Opcode.OP_CHECKLOCKTIMEVERIFY.toByte)

def checkStandardOutput (nDataOut : ℕ) (txout : CTxOut) : Except ValidationError ℕ := do
  match isStandard E Y txout.scriptPubKey with
  | none => .error (.invalid 0 "scriptpubkey" false)
  | some whichType =>
    if whichType = .TX_NULL_DATA then return nDataOut + 1
    else
      rejectIf (whichType = .TX_MULTISIG ∧ !Y.fIsBareMultisigStd) 0 "bare-multisig"
      rejectIf (isDust Y txout ∧ !isAdamReg whichType txout.scriptPubKey) 0 "dust"
      return nDataOut

/-- `IsStandardTx`. -/
def isStandardTx (tx : CTransaction) : Except ValidationError Unit := do
  rejectIf (tx.nVersion ≠ 1) 0 "version"
  rejectIf (!isFinalTx X ctx tx (ctx.height + 1) 0) 0 "non-final"
  rejectIf (maxStandardTxSize ≤ tx.serialize.length) 0 "tx-size"
  tx.vin.forM fun txin ↦ do
    rejectIf (1650 < txin.scriptSig.length) 0 "scriptsig-size"
    rejectIf (!CScript.isPushOnly txin.scriptSig) 0 "scriptsig-not-pushonly"
  let nDataOut ← tx.vout.foldlM (checkStandardOutput E Y) 0
  rejectIf (1 < nDataOut) 0 "multi-op-return"

/-- `ScriptSigArgsExpected`; -1 is `none`. -/
def scriptSigArgsExpected : TxnOutType → List Bytes → Option ℕ
  | .TX_NULL_DATA, _ => none
  | .TX_MESCAL_CONTRACT, _ => none
  | .TX_PUBKEY, _ => some 1
  | .TX_PUBKEYHASH, _ => some 2
  | .TX_ADAM_COINLOCK, _ => some 2
  | .TX_ADAM_POWLOCK, _ => some 2
  | .TX_MULTISIG, vSolutions => (vSolutions.head?.bind List.head?).map fun m ↦ m.toNat + 1
  | .TX_SCRIPTHASH, _ => some 1
  | .TX_WITNESS_V1_TAPROOT, _ => some 1

def rejectingChecker : BaseSignatureChecker := ⟨fun _ _ _ _ ↦ false, fun _ ↦ false, fun _ ↦ false⟩

/-- `AreInputsStandard`. An input with a redeem script of no known form ends the loop: the inputs
after it are not looked at. -/
def areInputsStandard (mapInputs : CCoinsViewCache) : List CTxIn → Bool
  | [] => true
  | txin :: vin =>
    let prevScript := (mapInputs.accessCoin txin.prevout).out.scriptPubKey
    match solver E.mescalDecompiles prevScript with
    | none => false
    | some (whichType, vSolutions) =>
      match evalScript E.crypto {} rejectingChecker .SIGVERSION_BASE [] txin.scriptSig with
      | .error _ => false
      | .ok stack =>
        let argsMatch (nArgsExpected : Option ℕ) : Bool :=
          nArgsExpected.all (· == stack.length) && areInputsStandard mapInputs vin
        match scriptSigArgsExpected whichType vSolutions with
        | none => whichType == .TX_MESCAL_CONTRACT && argsMatch none
        | some nArgsExpected =>
          if whichType = .TX_SCRIPTHASH then
            match stack with
            | [] => false
            | subscript :: _ =>
              match solver E.mescalDecompiles subscript with
              | none => CScript.getSigOpCount subscript true ≤ maxP2SHSigOps
              | some (whichType2, vSolutions2) =>
                match scriptSigArgsExpected whichType2 vSolutions2 with
                | none => false
                | some tmpExpected => argsMatch (some (nArgsExpected + tmpExpected))
          else argsMatch (some nArgsExpected)

/-! ### Acceptance -/

/-- `CCoinsViewMemPool`: the coins of the tip and the outputs of the pool. -/
def mempoolView (pcoinsTip : CCoinsView) (pool : List CTransaction) : CCoinsView where
  hashBlock := pcoinsTip.hashBlock
  getCoin outpoint :=
    match pool.find? fun tx ↦ tx.getHash E.crypto == outpoint.hash with
    | some tx => tx.vout[outpoint.n.toNat]?.map fun out ↦ ⟨false, false, out, mempoolHeight⟩
    | none => (pcoinsTip.getCoin outpoint).filter fun coin ↦ !coin.isSpent

/-- An input of a transaction for the pool does not come from a burn address. -/
def checkBurnedSource (txin : CTxIn) : Except ValidationError Unit :=
  match X.getTransaction txin.prevout.hash with
  | none => .ok ()
  | some txPrev =>
    match txPrev.vout[txin.prevout.n.toNat]? with
    | none => .error (.invalid 100 "bad-txns-prevout-null" false)
    | some out =>
      rejectIf ((extractDestination E.mescalDecompiles E.crypto out.scriptPubKey).any fun source ↦
        E.consensus.isBurnAddress source ctx.height) 0 "bad-txns-invalid-outputs"

/-- A registration without a coin: its form, its lock and its challenge. -/
def checkZeroCoin (tx : CTransaction) : Except ValidationError Unit :=
  match tx.vout with
  | [out] =>
    match matchPoWLockRegistration out.scriptPubKey with
    | none => .error (.invalid 100 "bad-zerocoin-pow-format" false)
    | some (_, challenge, r) => do
      rejectIf (r.pubkey.getID E.crypto ≠ r.pubkeyHash) 100 "bad-zerocoin-pow-format"
      let nNextHeight := ctx.height + 1
      rejectIf (r.lockTime < nNextHeight + Y.nRegPeriod ∨
        nNextHeight + Y.nRegPeriod + 2880 < r.lockTime) 20 "bad-zerocoin-pow-locktime"
      rejectIf (!(ctx.mapBlockIndex challenge).any fun pindexChallenge ↦
        0 ≤ pindexChallenge.nHeight && pindexChallenge.nHeight ≤ ctx.height &&
          ctx.contains challenge && nNextHeight - 100 ≤ pindexChallenge.nHeight &&
          pindexChallenge.nHeight < nNextHeight) 20 "bad-zerocoin-pow-challenge"
  | _ => .error (.invalid 100 "bad-zerocoin-pow-format" false)

/-- `MANDATORY_SCRIPT_VERIFY_FLAGS`. -/
def mandatoryScriptVerifyFlags : ScriptFlags where
  p2sh := true

/-- The checks of a transaction on its own, and against the pool. -/
def checkLoose (pool : List CTransaction) (tx : CTransaction) : Except ValidationError Unit := do
  checkTransaction E tx
  rejectIf tx.isCoinBase 100 "coinbase"
  rejectIf tx.isCoinStake 100 "coinstake"
  rejectIf (!isFinalTx X ctx tx (ctx.height + 1) Y.medianTimePast) 0 "non-final"
  (if E.consensus.isRegTestNet then .ok () else isStandardTx E X ctx Y tx)
  rejectIf (pool.any fun t ↦ t.getHash E.crypto == tx.getHash E.crypto) 0 "txn-already-in-mempool"
  (if E.consensus.mBurnAddresses.isEmpty then .ok () else tx.vin.forM (checkBurnedSource E X ctx))
  rejectIf (tx.vin.any fun txin ↦ pool.any fun t ↦ t.vin.any (·.prevout == txin.prevout)) 0
    "txn-mempool-conflict"

/-- The signature operations of a transaction, with those of the scripts behind its inputs. -/
def nTxSigOps (view : CCoinsViewCache) (tx : CTransaction) : ℕ :=
  getLegacySigOpCount tx + if E.isZeroCoinPoW tx then 0 else view.getP2SHSigOpCount tx

def checkSpending (s : MasternodeState) (view : CCoinsViewCache) (pool : List CTransaction)
    (tx : CTransaction) : Except ValidationError Unit := do
  let fZeroCoinPoW := E.isZeroCoinPoW tx
  rejectIf ((List.range tx.vout.length).any fun i ↦
    view.haveCoin ⟨tx.getHash E.crypto, UInt32.ofNat i⟩) 0 "txn-already-known"
  (if fZeroCoinPoW ∧ ctx.tip.isSome then checkZeroCoin E ctx Y tx else .ok ())
  -- missing inputs are reported apart from the state
  (if !fZeroCoinPoW ∧ !tx.vin.all (view.haveCoin ·.prevout) then .error (.error "") else .ok ())
  rejectIf (!E.consensus.isRegTestNet ∧ !fZeroCoinPoW ∧ !areInputsStandard E view tx.vin) 0
    "bad-txns-nonstandard-inputs"
  rejectIf (maxTxSigOpsCurrent < nTxSigOps E view tx) 0 "bad-txns-too-many-sigops"
  let nValueOut ← orThrow tx.getValueOut
  let nFees := (if fZeroCoinPoW then 0 else view.getValueIn tx) - nValueOut
  rejectIf (!Y.acceptsFee tx nFees) 0 "insufficient fee"
  (if !E.consensus.isRegTestNet ∧ !fZeroCoinPoW ∧ nFees = 0 then
    .error (.error "zero fees not accepted") else .ok ())
  rejectIf (!Y.withinChainLimits pool tx) 0 "too-long-mempool-chain"
  let fCLTVIsActivated := E.consensus.networkUpgradeActive ctx.height .UPGRADE_BIP65
  let _ ← checkInputs E ctx s view tx true .standardScriptVerifyFlags false
  let _ ← checkInputs E ctx s view tx true
    { mandatoryScriptVerifyFlags with checklocktimeverify := fCLTVIsActivated } false

/-- `AcceptToMemoryPool`: the pool with the transaction. -/
def acceptToMemoryPool (s : MasternodeState) (pcoinsTip : CCoinsView) (pool : List CTransaction)
    (tx : CTransaction) : Except ValidationError (List CTransaction) := do
  checkLoose E X ctx Y pool tx
  checkSpending E ctx Y s (.ofBase (mempoolView E pcoinsTip pool)) pool tx
  return pool ++ [tx]

/-- The pools of transactions that were accepted one after the other on the tip. -/
inductive Accepted (s : MasternodeState) (pcoinsTip : CCoinsView) : List CTransaction → Prop
  | empty : Accepted s pcoinsTip []
  | accept {pool pool' tx} : Accepted s pcoinsTip pool →
    acceptToMemoryPool E X ctx Y s pcoinsTip pool tx = .ok pool' → Accepted s pcoinsTip pool'

section

variable {E X ctx Y} {s : MasternodeState} {pcoinsTip : CCoinsView} {pool pool' : List CTransaction}
  {tx : CTransaction}

theorem acceptToMemoryPool_eq_ok_iff : acceptToMemoryPool E X ctx Y s pcoinsTip pool tx = .ok pool' ↔
      checkLoose E X ctx Y pool tx = .ok () ∧
      checkSpending E ctx Y s (.ofBase (mempoolView E pcoinsTip pool)) pool tx = .ok () ∧
      pool' = pool ++ [tx] := by
  rw [acceptToMemoryPool, bind_eq_ok_iff]
  constructor
  · rintro ⟨⟨⟩, hloose, h⟩
    obtain ⟨⟨⟩, hspending, h⟩ := bind_eq_ok_iff.1 h
    exact ⟨hloose, hspending, (Except.ok.inj h).symm⟩
  · rintro ⟨hloose, hspending, rfl⟩
    exact ⟨(), hloose, bind_eq_ok_iff.2 ⟨(), hspending, rfl⟩⟩

theorem checkLoose_spec (h : checkLoose E X ctx Y pool tx = .ok ()) : checkTransaction E tx = .ok () ∧
      isFinalTx X ctx tx (ctx.height + 1) Y.medianTimePast = true ∧
      ∀ t ∈ pool, t.getHash E.crypto ≠ tx.getHash E.crypto := by
  rw [checkLoose] at h
  obtain ⟨⟨⟩, htx, h⟩ := bind_eq_ok_iff.1 h
  obtain ⟨_, -, h⟩ := bind_eq_ok_iff.1 h
  obtain ⟨_, -, h⟩ := bind_eq_ok_iff.1 h
  obtain ⟨_, hfinal, h⟩ := bind_eq_ok_iff.1 h
  obtain ⟨_, -, h⟩ := bind_eq_ok_iff.1 h
  obtain ⟨_, hknown, -⟩ := bind_eq_ok_iff.1 h
  exact ⟨htx, by simpa using hfinal, by simpa using hknown⟩

theorem checkSpending_spec {view : CCoinsViewCache} (h : checkSpending E ctx Y s view pool tx = .ok ()) :
    (∀ i < tx.vout.length, view.haveCoin ⟨tx.getHash E.crypto, UInt32.ofNat i⟩ = false) ∧
      ∃ nValueOut, tx.getValueOut = some nValueOut := by
  rw [checkSpending] at h
  obtain ⟨_, hknown, h⟩ := bind_eq_ok_iff.1 h
  iterate 4 obtain ⟨_, -, h⟩ := bind_eq_ok_iff.1 h
  obtain ⟨nValueOut, hvalue, -⟩ := bind_eq_ok_iff.1 h
  exact ⟨by simpa using hknown, nValueOut, orThrow_eq_ok_iff.1 hvalue⟩

theorem Accepted.forall_mem (h : Accepted E X ctx Y s pcoinsTip pool) {P : CTransaction → Prop}
    (hstep : ∀ {pool tx}, checkLoose E X ctx Y pool tx = .ok () →
      checkSpending E ctx Y s (.ofBase (mempoolView E pcoinsTip pool)) pool tx = .ok () → P tx) :
    ∀ tx ∈ pool, P tx := by
  induction h with
  | empty => simp
  | accept _ haccept ih =>
    obtain ⟨hloose, hspending, rfl⟩ := acceptToMemoryPool_eq_ok_iff.1 haccept
    intro tx htx
    rcases mem_append.1 htx with htx | htx
    · exact ih tx htx
    · rw [mem_singleton.1 htx]
      exact hstep hloose hspending

/-- **What is in the pool is final** as of the median time of the tip. -/
theorem Accepted.isFinalTx (h : Accepted E X ctx Y s pcoinsTip pool) (htx : tx ∈ pool) :
    KristaTech.isFinalTx X ctx tx (ctx.height + 1) Y.medianTimePast = true :=
  h.forall_mem (fun hloose _ ↦ (checkLoose_spec hloose).2.1) tx htx

theorem Accepted.checkTransaction (h : Accepted E X ctx Y s pcoinsTip pool) (htx : tx ∈ pool) :
    KristaTech.checkTransaction E tx = .ok () :=
  h.forall_mem (fun hloose _ ↦ (checkLoose_spec hloose).1) tx htx

theorem Accepted.getValueOut (h : Accepted E X ctx Y s pcoinsTip pool) (htx : tx ∈ pool) :
    ∃ nValueOut, tx.getValueOut = some nValueOut :=
  h.forall_mem (P := fun tx ↦ ∃ nValueOut, tx.getValueOut = some nValueOut)
    (fun _ hspending ↦ (checkSpending_spec hspending).2) tx htx

theorem Accepted.nodup (h : Accepted E X ctx Y s pcoinsTip pool) :
    (pool.map (·.getHash E.crypto)).Nodup := by
  induction h with
  | empty => exact nodup_nil
  | accept _ haccept ih =>
    obtain ⟨hloose, -, rfl⟩ := acceptToMemoryPool_eq_ok_iff.1 haccept
    rw [map_append, map_singleton, nodup_append]
    refine ⟨ih, nodup_singleton _, fun hash hhash hash' hhash' ↦ ?_⟩
    obtain ⟨t, ht, rfl⟩ := mem_map.1 hhash
    rw [mem_singleton.1 hhash']
    exact (checkLoose_spec hloose).2.2 t ht

theorem Accepted.free (h : Accepted E X ctx Y s pcoinsTip pool) : ∀ tx ∈ pool, ∀ i < tx.vout.length,
      (CCoinsViewCache.ofBase pcoinsTip).utxo ⟨tx.getHash E.crypto, UInt32.ofNat i⟩ = none := by
  refine h.forall_mem (P := fun tx ↦ ∀ i < tx.vout.length, (CCoinsViewCache.ofBase pcoinsTip).utxo
    ⟨tx.getHash E.crypto, UInt32.ofNat i⟩ = none) fun {pool tx} hloose hspending i hi ↦ ?_
  have hfresh : pool.find? (fun t ↦ t.getHash E.crypto == tx.getHash E.crypto) = none := by
    simpa using (checkLoose_spec hloose).2.2
  have hhave := (checkSpending_spec hspending).1 i hi
  rw [← Bool.not_eq_true, CCoinsViewCache.haveCoin_eq_true_iff, not_exists] at hhave
  rw [Option.eq_none_iff_forall_ne_some]
  refine fun coin hcoin ↦ hhave coin ?_
  -- the view of the pool falls through to the tip
  rw [CCoinsViewCache.utxo_of_not_cached (by simp [CCoinsViewCache.ofBase])] at hcoin ⊢
  show CCoinsViewCache.unspent ((mempoolView E pcoinsTip pool).getCoin _) = some coin
  obtain ⟨hcoin, hspent⟩ := CCoinsViewCache.unspent_eq_some_iff.1 hcoin
  refine CCoinsViewCache.unspent_eq_some_iff.2 ⟨?_, hspent⟩
  simp only [mempoolView, hfresh]
  exact Option.filter_eq_some_iff.2 ⟨hcoin, by simp [hspent]⟩

end

end KristaTech
