import KristaTech.Validation.TaprootSpend

/-!
# What a Taproot signature signs

The digest of a Taproot signature is made of hashes of the transaction that are computed once and
kept. Those of the spent outputs are only there after `PrecomputedTransactionData::Init`, and
`CheckInputs` is always given data that is fresh from its constructor. So for every input that is
checked through `CheckInputs` the digest is the error value, `UINT256_ONE`
(`CheckedInput.digest_eq`): the signature does not depend on the transaction at all.
-/

namespace KristaTech

open Masternode

variable {E : ValidationEnv}

/-- An input whose script check was built by `CheckInputs` under the Taproot flag. -/
structure CheckedInput (E : ValidationEnv) where
  ctx : ChainContext
  masternodes : MasternodeState
  inputs : CCoinsViewCache
  tx : CTransaction
  nIn : ℕ
  txin : CTxIn
  flags : ScriptFlags
  check : CScriptCheck
  mem : tx.vin[nIn]? = some txin
  taproot : flags.taproot = true
  built : scriptCheckOf E ctx masternodes inputs tx flags txin nIn = .ok check

theorem precomTxData_of_scriptCheckOf {ctx : ChainContext} {s : MasternodeState}
    {inputs : CCoinsViewCache} {tx : CTransaction} {flags : ScriptFlags} {txin : CTxIn} {nIn : ℕ}
    {check : CScriptCheck} (h : scriptCheckOf E ctx s inputs tx flags txin nIn = .ok check) :
    check.precomTxData = .ofTx E.crypto tx := by
  simp only [scriptCheckOf] at h
  split at h
  · obtain ⟨_, -, h⟩ := Except.bind_eq_ok_iff.1 h
    split at h
    · split at h <;> exact Except.ok.inj h ▸ rfl
    · exact Except.ok.inj h ▸ rfl
  · exact Except.ok.inj h ▸ rfl

namespace CheckedInput

variable (a b : CheckedInput E) (nHashType : HashType)

def spentOutputs : List CTxOut := a.tx.vin.map fun txin ↦ (a.inputs.accessCoin txin.prevout).out

/-- The digest that a Schnorr signature of the input is checked against: of a key path, or with a
leaf hash of a leaf script. -/
def digest (sigversion : SigVersion) (tapleafHash : Option Uint256) : Uint256 :=
  signatureHashTaproot E.crypto a.check.checker.txTo a.check.checker.nIn nHashType sigversion
    a.check.checker.precomTxData tapleafHash

/-- **The digest is a constant**: no output that is spent is known. -/
theorem digest_eq (sigversion : SigVersion) (tapleafHash : Option Uint256) :
    a.digest nHashType sigversion tapleafHash = uint256One := by
  have hdata : a.check.checker.precomTxData = some (.ofTx E.crypto a.tx) :=
    congrArg some (precomTxData_of_scriptCheckOf a.built)
  have hspent : (some (PrecomputedTransactionData.ofTx E.crypto a.tx)).filter
      (·.m_spent_outputs_ready) = none := rfl
  rw [digest, hdata, signatureHashTaproot]
  -- either the hashes of all spent outputs are missing, or the output that this input spends
  cases hin : a.check.checker.txTo.vin[a.check.checker.nIn]? with
  | none => simp
  | some txin =>
    by_cases hpay : (if nHashType = 0 then 1 else nHashType).anyoneCanPay = true <;>
      simp [hpay, hspent]

/-- The fields that a hash type commits to are the same in both inputs. -/
structure Agree : Prop where
  nVersion : a.tx.nVersion = b.tx.nVersion
  nLockTime : a.tx.nLockTime = b.tx.nLockTime
  nIn : a.nIn = b.nIn
  inputs : nHashType.anyoneCanPay = false → a.tx.vin.map (·.prevout) = b.tx.vin.map (·.prevout) ∧
      a.tx.vin.map (·.nSequence) = b.tx.vin.map (·.nSequence) ∧ a.spentOutputs = b.spentOutputs
  input : nHashType.anyoneCanPay = true →
    a.txin.prevout = b.txin.prevout ∧ a.txin.nSequence = b.txin.nSequence ∧
      a.spentOutputs[a.nIn]? = b.spentOutputs[b.nIn]?
  outputs : nHashType.isNone = false → nHashType.isSingle = false → a.tx.vout = b.tx.vout
  output : nHashType.isSingle = true → a.tx.vout[a.nIn]? = b.tx.vout[b.nIn]?

/-- An input without a coin of a transaction with the given version. -/
def ofVersion (E : ValidationEnv) (nVersion : ℤ) : CheckedInput E where
  ctx := burnContext
  masternodes := emptyNode.masternodes
  inputs := .ofBase ⟨fun _ ↦ none, 0⟩
  tx := { takingTx taprootOutpoint with nVersion := nVersion }
  nIn := 0
  txin := ⟨taprootOutpoint, [], sequenceFinal⟩
  flags := { taproot := true }
  check := ⟨[], { takingTx taprootOutpoint with nVersion := nVersion }, 0, { taproot := true },
    .ofTx E.crypto { takingTx taprootOutpoint with nVersion := nVersion }, []⟩
  mem := rfl
  taproot := rfl
  built := scriptCheckOf_of_not_paysDeveloperFund rfl

variable (E) in
/-- **A Taproot signature binds nothing.** For every two inputs checked through `CheckInputs`, equal
digests say that the transactions agree on what the hash type commits to only if they agree anyway;
and there are inputs that do not. This holds for every hash type and whatever the hash functions
are. -/
theorem digest_binds_iff (nHashType : HashType) (sigversion sigversion' : SigVersion)
    (leaf leaf' : Option Uint256) :
    (∀ a b : CheckedInput E, (a.digest nHashType sigversion leaf = b.digest nHashType sigversion' leaf' →
        Agree a b nHashType) ↔ Agree a b nHashType) ∧
    ¬∀ a b : CheckedInput E, a.digest nHashType sigversion leaf = b.digest nHashType sigversion' leaf' →
        Agree a b nHashType := by
  simp only [digest_eq, forall_const, iff_self, implies_true, true_and]
  intro h
  have hversion : (1 : ℤ) = 2 := (h (ofVersion E 1) (ofVersion E 2)).nVersion
  cases hversion

end CheckedInput

/-! ### One signature for two payments -/

section Example

/-- A toy scheme in which a signature repeats what is signed and the key. -/
def digestEnv : ValidationEnv :=
  { (default : ValidationEnv) with
    crypto := { (default : Crypto) with
      verifySchnorr := fun key digest sig ↦ sig == digest.toBytes ++ key } }

def constantSig : Bytes := uint256One.toBytes ++ List.replicate 32 1

def signedPayment (id : Uint160) : CTransaction where
  nVersion := 1
  vin := [⟨taprootOutpoint, CScript.pushData [] constantSig, sequenceFinal⟩]
  vout := [⟨10 * 10 ^ 8, getScriptForDestination (.keyID id)⟩]
  nLockTime := 0

/-- `CheckInputs` with the flags of the memory pool. -/
def checkPayment (id : Uint160) : Except ValidationError (List CScriptCheck) :=
  checkInputs digestEnv burnContext emptyNode.masternodes taprootView (signedPayment id) true
    ScriptFlags.standardScriptVerifyFlags false

/-- **One signature, two payments.** The signature is accepted for a payment to one key and for a
payment to another. -/
theorem signature_reused : (checkPayment 5).failure? = none ∧ (checkPayment 6).failure? = none ∧
      (signedPayment 5).vin = (signedPayment 6).vin ∧ (signedPayment 5).vout ≠ (signedPayment 6).vout :=
  ⟨by decide, by decide, rfl, by decide⟩

end Example

end KristaTech
