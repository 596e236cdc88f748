import KristaTech.Validation.State
import KristaTech.Script.Verify

/-!
# Checking the inputs of a transaction

`CheckTxInputs` and `CheckInputs` of `main.cpp`: the coins that a transaction spends exist, are
mature and are worth enough, a spending of the developer fund carries a quorum certificate, and the
scripts are satisfied. The script checks are either made at once or returned for a queue; a check
(`CScriptCheck`) holds all that it needs.

A spending of the developer fund is checked twice, here and in `ConnectBlock`, against different
quorums; the check itself is the same.
-/

namespace KristaTech

open Masternode Llmq

variable (E : ValidationEnv)

/-! ### Script checks -/

structure CScriptCheck where
  scriptPubKey : CScript
  ptxTo : CTransaction
  nIn : ℕ
  nFlags : ScriptFlags
  precomTxData : PrecomputedTransactionData
  scriptSigOverride : CScript

namespace CScriptCheck

def checker (check : CScriptCheck) : TransactionSignatureChecker where
  txTo := check.ptxTo
  nIn := check.nIn
  precomTxData := some check.precomTxData

def scriptSig (check : CScriptCheck) : CScript :=
  if check.scriptSigOverride.isEmpty then
    (check.ptxTo.vin[check.nIn]?.map (·.scriptSig)).getD []
  else check.scriptSigOverride

/-- `operator()`. -/
def run (C : Crypto) (check : CScriptCheck) : Except ScriptError Unit :=
  verifyScript C check.nFlags check.checker check.scriptSig check.scriptPubKey

end CScriptCheck

/-! ### The developer fund -/

section DeveloperFund

/-- The scripts of the inputs that spend from the same script are cut down to their first two
pushes: the transaction that the quorum signs. -/
def withoutQuorumSig (view : CCoinsViewCache) (tx : CTransaction) (txin : CTxIn)
    (scriptPubKey : CScript) : CTransaction :=
  { tx with vin := tx.vin.map fun txin' ↦
      if txin'.prevout = txin.prevout ∨ (view.accessCoin txin'.prevout).out.scriptPubKey = scriptPubKey then
        match CScript.pushes txin'.scriptSig with
        | vch :: vch' :: _ =>
          { txin' with scriptSig := CScript.pushData (CScript.pushData [] vch) vch' }
        | _ => txin'
      else txin' }

/-- A spending of the developer fund: not before its height, and the third push of the input is a
certificate of the quorum for the transaction. -/
def checkDeveloperFundSpend (s : MasternodeState) (quorum : CQuorum) (nHeight : ℤ)
    (view : CCoinsViewCache) (tx : CTransaction) (txin : CTxIn) (scriptPubKey : CScript) :
    Except ValidationError Unit := do
  rejectIf (nHeight < E.consensus.nTreasuryGovernanceStartHeight) 100 "bad-txns-spend-devfund-early"
  match (CScript.pushes txin.scriptSig)[2]? with
  | none => .error (.invalid 100 "bad-txns-missing-quorum-sig" false)
  | some vch =>
    match CQuorumSignature.parse vch with
    | none => .error (.invalid 100 "bad-txns-malformed-quorum-sig" false)
    | some qsig =>
      let blockHash := (withoutQuorumSig view tx txin scriptPubKey).getHash E.crypto
      rejectIf (!({ qsig with blockHash := blockHash } : CQuorumSignature).verify E.crypto s.pins
        quorum) 100 "bad-txns-invalid-quorum-sig"

/-- One of the addresses of the script is the developer fund's. -/
def paysDeveloperFund (scriptPubKey : CScript) : Bool :=
  (E.addresses scriptPubKey).any E.consensus.isDeveloperFund

end DeveloperFund

/-! ### Inputs -/

section Inputs

variable (ctx : ChainContext) (s : MasternodeState) (inputs : CCoinsViewCache) (tx : CTransaction)

/-- `GetSpendHeight`. -/
def getSpendHeight : ℤ :=
  match ctx.mapBlockIndex inputs.getBestBlock with
  | some pindexPrev => pindexPrev.nHeight + 1
  | none => 0

def zeroCoinPuzzleValid : Bool :=
  match tx.vout.head?.bind fun out ↦ matchPoWLockRegistration out.scriptPubKey with
  | some (nonce, challenge, registration) =>
    registration.pubkey.isValid && registration.pubkey.getID E.crypto == registration.pubkeyHash &&
      nonce.length == 4 &&
      E.crypto.hash (nonce ++ challenge.toBytes ++ Writer.pubKey registration.pubkey) ≤
        E.consensus.zeroCoinPoWLimit
  | none => false

/-- One input: the coin is mature, and the sum so far is in range. -/
def checkTxInput (nSpendHeight : ℤ) (nValueIn : CAmount) (txin : CTxIn) :
    Except ValidationError CAmount := do
  let coin := inputs.accessCoin txin.prevout
  rejectIf ((coin.fCoinBase || coin.fCoinStake) &&
    nSpendHeight - coin.nHeight < E.consensus.nCoinbaseMaturity) 0
    "bad-txns-premature-spend-of-coinbase-coinstake"
  rejectIf (!E.consensus.moneyRange coin.out.nValue ||
    !E.consensus.moneyRange (nValueIn + coin.out.nValue)) 100 "bad-txns-inputvalues-outofrange"
  return nValueIn + coin.out.nValue

/-- `CheckTxInputs`. Nothing is checked up to the last checkpoint. -/
def checkTxInputs (nSpendHeight : ℤ) : Except ValidationError Unit :=
  if nSpendHeight ≤ E.consensus.totalBlocksEstimate then .ok ()
  else if E.isZeroCoinPoW tx then
    rejectIf (!zeroCoinPuzzleValid E tx) 100 "bad-txns-zerocoin-pow-invalid"
  else do
    rejectIf (!(inputs.haveInputs tx).1) 0 ""
    let nValueIn ← tx.vin.foldlM (checkTxInput E inputs nSpendHeight) 0
    if !tx.isCoinStake then
      let nValueOut ← orThrow tx.getValueOut
      rejectIf (nValueIn < nValueOut) 100 "bad-txns-in-belowout"
      rejectIf (!E.consensus.moneyRange (nValueIn - nValueOut)) 100 "bad-txns-fee-outofrange"

/-- The script check of an input. If it spends the developer fund, the quorum of the active chain
has to have signed, and the script that is checked is the spork key's. -/
def scriptCheckOf (flags : ScriptFlags) (txin : CTxIn) (nIn : ℕ) : Except ValidationError CScriptCheck := do
  let scriptPubKey := (inputs.accessCoin txin.prevout).out.scriptPubKey
  let check : CScriptCheck := ⟨scriptPubKey, tx, nIn, flags, .ofTx E.crypto tx, []⟩
  if paysDeveloperFund E scriptPubKey then
    let nSpendHeight := getSpendHeight ctx inputs
    checkDeveloperFundSpend E s (E.getActiveQuorum none s nSpendHeight none) nSpendHeight inputs tx
      txin scriptPubKey
    let sporkKey := E.consensus.sporkPubKey
    match CScript.pushes txin.scriptSig with
    | vch :: vch' :: _ =>
      if sporkKey.isValid then
        return { check with
          scriptPubKey := getScriptForDestination (.keyID (sporkKey.getID E.crypto))
          scriptSigOverride := CScript.pushData (CScript.pushData [] vch) vch' }
      else return check
    | _ => return check
  else return check

/-- A script check that is made at once. A failure that only the non-mandatory flags cause is not
held against the peer. -/
def runScriptCheck (check : CScriptCheck) : Except ValidationError Unit :=
  match check.run E.crypto with
  | .ok () => .ok ()
  | .error e =>
    if check.nFlags.anyNotMandatory &&
      ({ check with nFlags := check.nFlags.mandatoryOnly }.run E.crypto).isOk then
      .error (.invalid 0 ("non-mandatory-script-verify-flag (" ++ e.toString ++ ")") false)
    else .error (.invalid 100 ("mandatory-script-verify-flag-failed (" ++ e.toString ++ ")") false)

/-- The script checks of the inputs, in order; made at once if there is no queue. -/
def scriptChecks (flags : ScriptFlags) (fQueue : Bool) : Except ValidationError (List CScriptCheck) :=
  tx.vin.zipIdx.mapM fun p ↦ do
    let check ← scriptCheckOf E ctx s inputs tx flags p.1 p.2
    if !fQueue then runScriptCheck E check
    return check

/-- `CheckInputs`: the script checks that were built, which are still to be made if `fQueue`. -/
def checkInputs (fScriptChecks : Bool) (flags : ScriptFlags) (fQueue : Bool) :
    Except ValidationError (List CScriptCheck) :=
  if tx.isCoinBase then .ok []
  else do
    checkTxInputs E inputs tx (getSpendHeight ctx inputs)
    if E.isZeroCoinPoW tx then return []
    else if fScriptChecks then scriptChecks E ctx s inputs tx flags fQueue
    else return []

end Inputs

end KristaTech
