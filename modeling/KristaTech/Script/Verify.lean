import KristaTech.Script.Interpreter

/-!
# Signature hashes and script verification

The digests that signatures sign, the checker that a transaction's input is checked with, and
`VerifyScript`, all of `script/interpreter.cpp`.

The Taproot digest reads hashes that are computed once for a transaction
(`PrecomputedTransactionData`). Those of the spent amounts and scripts are only there after `Init`
has been given the spent outputs; without them the digest is the constant `UINT256_ONE`. The
signature cache, which only remembers checks that succeeded, is left out, and so is the amount,
which only the digest of version 0 witnesses reads.
-/

namespace KristaTech

/-- `UINT256_ONE`. -/
def uint256One : Uint256 := 1

/-! ### Digests -/

/-- `PrecomputedTransactionData`, without the double hashes of version 0 witnesses. -/
structure PrecomputedTransactionData where
  hashPrevoutsSingle : Uint256
  hashSequenceSingle : Uint256
  hashOutputsSingle : Uint256
  hashSpentAmounts : Uint256 := 0
  hashSpentScripts : Uint256 := 0
  m_spent_outputs_ready : Bool := false
  spentOutputs : List CTxOut := []

namespace PrecomputedTransactionData

variable (C : Crypto)

/-- `PrecomputedTransactionData(txTo)`. -/
def ofTx (txTo : CTransaction) : PrecomputedTransactionData where
  hashPrevoutsSingle := C.sha256 (txTo.vin.flatMap fun txin ↦ Writer.outPoint txin.prevout)
  hashSequenceSingle := C.sha256 (txTo.vin.flatMap fun txin ↦
    Reader.natToLE 4 txin.nSequence.toNat)
  hashOutputsSingle := C.sha256 (txTo.vout.flatMap CTransaction.serializeOut)

/-- `Init`. -/
def init (data : PrecomputedTransactionData) (spentOutputs : List CTxOut) :
    PrecomputedTransactionData :=
  { data with
    m_spent_outputs_ready := true
    spentOutputs := spentOutputs
    hashSpentAmounts := C.sha256 (spentOutputs.flatMap fun out ↦ Writer.int 8 out.nValue)
    hashSpentScripts := C.sha256 (spentOutputs.flatMap fun out ↦
      Writer.byteVector out.scriptPubKey) }

end PrecomputedTransactionData

abbrev HashType := UInt8

namespace HashType

def anyoneCanPay (nHashType : HashType) : Bool := nHashType &&& 0x80 != 0

def isNone (nHashType : HashType) : Bool := nHashType &&& 0x1f == 2

def isSingle (nHashType : HashType) : Bool := nHashType &&& 0x1f == 3

end HashType

namespace CScript

/-- Where the reading of an instruction stops that is cut off: after its opcode, and after the
length of its operand if that is complete. -/
def afterFailedOp : CScript → CScript
  | [] => []
  | opcode :: pc => ((operandSize opcode pc).map Prod.snd).getD pc

/-- The bytes of a script without its code separators, up to where reading stops. -/
def codeBytes : ℕ → CScript → Bytes
  | 0, _ => []
  | fuel + 1, s =>
    match getOp s with
    | none => s.take (s.length - (afterFailedOp s).length)
    | some op =>
      (if op.opcode = .OP_CODESEPARATOR then [] else s.take (s.length - op.rest.length)) ++
        codeBytes fuel op.rest

/-- `SerializeScriptCode`: the length that is written does not count the separators. -/
def serializeScriptCode (scriptCode : CScript) : Bytes :=
  let nCodeSeparators := (ops scriptCode).countP fun op ↦ op.opcode = .OP_CODESEPARATOR
  Writer.compactSize (scriptCode.length - nCodeSeparators) ++ codeBytes (scriptCode.length + 1) scriptCode

end CScript

section Base

variable (scriptCode : CScript) (txTo : CTransaction) (nIn : ℕ) (nHashType : HashType)

/-- `SerializeInput`: the scripts of other inputs are blanked, and their sequence numbers where the
hash type leaves them open. -/
def serializeSignedInput (nInput : ℕ) (txin : CTxIn) : Bytes :=
  Writer.outPoint txin.prevout ++
    (if nInput = nIn then CScript.serializeScriptCode scriptCode else Writer.byteVector []) ++
    (if nInput ≠ nIn ∧ (nHashType.isSingle ∨ nHashType.isNone) then Reader.natToLE 4 0
      else Reader.natToLE 4 txin.nSequence.toNat)

def signedInputs : List (ℕ × CTxIn) :=
  if nHashType.anyoneCanPay then (txTo.vin[nIn]?.map (nIn, ·)).toList
  else txTo.vin.zipIdx.map fun p ↦ (p.2, p.1)

/-- The outputs that are serialized; under `SIGHASH_SINGLE` the ones before that of the input are
blanked. -/
def signedOutputs : List CTxOut :=
  if nHashType.isNone then []
  else if nHashType.isSingle then List.replicate nIn CTxOut.null ++ (txTo.vout[nIn]?).toList
  else txTo.vout

/-- `SignatureHash` of an ordinary script. -/
def signatureHash (C : Crypto) : Uint256 :=
  if txTo.vin.length ≤ nIn then uint256One
  else if nHashType.isSingle ∧ txTo.vout.length ≤ nIn then uint256One
  else
    C.hash (Writer.int 4 txTo.nVersion ++
      Writer.vector (fun p ↦ serializeSignedInput scriptCode nIn nHashType p.1 p.2)
        (signedInputs txTo nIn nHashType) ++
      Writer.vector CTransaction.serializeOut (signedOutputs txTo nIn nHashType) ++
      Reader.natToLE 4 txTo.nLockTime.toNat ++ Reader.natToLE 4 nHashType.toNat)

end Base

/-- A tagged hash: the hash of the tag's name twice, then the data. -/
def Crypto.taggedHash (C : Crypto) (tag : String) (bs : Bytes) : Uint256 :=
  let tagHash := (C.sha256 tag.toUTF8.toList).toBytes
  C.sha256 (tagHash ++ tagHash ++ bs)

/-- `SignatureHashTaproot`, with a code separator position that is never set. -/
def signatureHashTaproot (C : Crypto) (txTo : CTransaction) (nIn : ℕ) (nHashType : HashType)
    (sigversion : SigVersion) (cache : Option PrecomputedTransactionData)
    (tapleafHash : Option Uint256) : Uint256 :=
  -- the error value is returned wherever something is missing
  let digest : Option Uint256 := do
    let txin ← txTo.vin[nIn]?
    let sighashType : HashType := if nHashType = 0 then 1 else nHashType
    -- the hashes of the transaction are computed when there is no cache
    let single := cache.getD (.ofTx C txTo)
    let spent := cache.filter (·.m_spent_outputs_ready)
    let inputs ←
      if sighashType.anyoneCanPay then some []
      else do
        let data ← spent
        some (single.hashPrevoutsSingle.toBytes ++ data.hashSpentAmounts.toBytes ++
          data.hashSpentScripts.toBytes ++ single.hashSequenceSingle.toBytes)
    let outputs :=
      if sighashType.isNone ∨ sighashType.isSingle then []
      else single.hashOutputsSingle.toBytes
    let thisInput ←
      if sighashType.anyoneCanPay then do
        let data ← spent
        let txout ← data.spentOutputs[nIn]?
        some (Writer.outPoint txin.prevout ++ Writer.int 8 txout.nValue ++
          Writer.byteVector txout.scriptPubKey ++ Reader.natToLE 4 txin.nSequence.toNat)
      else some []
    let thisOutput ←
      if sighashType.isSingle then do
        let txout ← txTo.vout[nIn]?
        some (C.sha256 (CTransaction.serializeOut txout)).toBytes
      else some []
    let leaf ←
      if sigversion = .SIGVERSION_TAPSCRIPT then do
        let leafHash ← tapleafHash
        some (leafHash.toBytes ++ 0 :: Reader.natToLE 4 0xffffffff)
      else some []
    let spendType : UInt8 := if sigversion = .SIGVERSION_TAPSCRIPT then 2 else 0
    some (C.taggedHash "TapSighash" (0 :: sighashType :: Writer.int 4 txTo.nVersion ++
      Reader.natToLE 4 txTo.nLockTime.toNat ++ inputs ++ outputs ++ spendType ::
      Reader.natToLE 4 nIn ++ thisInput ++ thisOutput ++ leaf))
  digest.getD uint256One

/-! ### The checker of an input -/

/-- `TransactionSignatureChecker`, and with a leaf hash `TapscriptSignatureChecker`. -/
structure TransactionSignatureChecker where
  txTo : CTransaction
  nIn : ℕ
  precomTxData : Option PrecomputedTransactionData
  tapleafHash : Option Uint256 := none

namespace TransactionSignatureChecker

variable (C : Crypto) (checker : TransactionSignatureChecker)

def checkSchnorrSig (vchSig vchPubKey : Bytes) (sigversion : SigVersion) : Bool :=
  if vchSig.isEmpty || vchPubKey.length != 32 then false
  else if vchSig.length = 65 then
    C.verifySchnorr vchPubKey
      (signatureHashTaproot C checker.txTo checker.nIn (vchSig.getLastD 0) sigversion
        checker.precomTxData checker.tapleafHash) vchSig.dropLast
  else if vchSig.length = 64 then
    C.verifySchnorr vchPubKey
      (signatureHashTaproot C checker.txTo checker.nIn 0 sigversion checker.precomTxData
        checker.tapleafHash) vchSig
  else false

/-- The check of an ordinary signature, whose last byte is the hash type. -/
def checkEcdsaSig (vchSig vchPubKey : Bytes) (scriptCode : CScript) : Bool :=
  let pubkey := CPubKey.set vchPubKey
  pubkey.isValid &&
    match vchSig.getLast? with
    | none => false
    | some nHashType =>
      pubkey.verify C (signatureHash scriptCode checker.txTo checker.nIn nHashType C) vchSig.dropLast

/-- `CheckSig`: the keys of 33 and 65 bytes in a leaf script are checked as ordinary ones. -/
def checkSig (vchSig vchPubKey : Bytes) (scriptCode : CScript) (sigversion : SigVersion) : Bool :=
  match sigversion with
  | .SIGVERSION_TAPSCRIPT =>
    if vchPubKey.length = 33 ∨ vchPubKey.length = 65 then
      checker.checkEcdsaSig C vchSig vchPubKey scriptCode
    else checker.checkSchnorrSig C vchSig vchPubKey sigversion
  | .SIGVERSION_TAPROOT => checker.checkSchnorrSig C vchSig vchPubKey sigversion
  | .SIGVERSION_BASE => checker.checkEcdsaSig C vchSig vchPubKey scriptCode

/-- `LOCKTIME_THRESHOLD`: lock times from here on are times, below they are heights. -/
def locktimeThreshold : ℤ := 500000000

def nSequence : UInt32 := (checker.txTo.vin[checker.nIn]?.map (·.nSequence)).getD 0

/-- `CheckLockTime`. -/
def checkLockTime (nLockTime : ℤ) : Bool :=
  let txLockTime : ℤ := checker.txTo.nLockTime.toNat
  (decide (txLockTime < locktimeThreshold) == decide (nLockTime < locktimeThreshold)) &&
    nLockTime ≤ txLockTime && checker.nSequence != sequenceFinal

/-- `SEQUENCE_LOCKTIME_TYPE_FLAG`. -/
def sequenceLocktimeTypeFlag : ℕ := 2 ^ 22

/-- `CheckSequence`. -/
def checkSequence (nSequence : ℤ) : Bool :=
  let nLockTimeMask := sequenceLocktimeTypeFlag ||| 0xffff
  let txToSequenceMasked := checker.nSequence.toNat &&& nLockTimeMask
  let nSequenceMasked := nSequence.toNat &&& nLockTimeMask
  2 ≤ checker.txTo.nVersion % 2 ^ 32 && checker.nSequence &&& 0x80000000 == 0 &&
    (decide (txToSequenceMasked < sequenceLocktimeTypeFlag) ==
      decide (nSequenceMasked < sequenceLocktimeTypeFlag)) &&
    nSequenceMasked ≤ txToSequenceMasked

def toBase : BaseSignatureChecker where
  checkSig := checker.checkSig C
  checkLockTime := checker.checkLockTime
  checkSequence := checker.checkSequence

end TransactionSignatureChecker

/-! ### Verification -/

section Verify

variable (C : Crypto)

/-- `ComputeTapLeafHash`. -/
def computeTapLeafHash (leafVersion : UInt8) (script : CScript) : Uint256 :=
  C.taggedHash "TapLeaf" (leafVersion :: Writer.byteVector script)

/-- `ComputeTapBranchHash`: the smaller hash comes first. -/
def computeTapBranchHash (left right : Uint256) : Uint256 :=
  C.taggedHash "TapBranch"
    (if left < right then left.toBytes ++ right.toBytes else right.toBytes ++ left.toBytes)

/-- The siblings in a control block, after the first 33 bytes. -/
def siblings : ℕ → Bytes → List Uint256
  | 0, _ => []
  | n + 1, path => Uint256.ofBytes (path.take 32) :: siblings n (path.drop 32)

/-- `DeriveTaprootMerkleRoot`. -/
def deriveTaprootMerkleRoot (controlBlock : Bytes) (leafHash : Uint256) : Uint256 :=
  (siblings ((controlBlock.length - 33) / 32) (controlBlock.drop 33)).foldl
    (computeTapBranchHash C) leafHash

/-- The script of a Taproot output: `OP_1` and a push of 32 bytes. -/
def isTaprootScript (scriptPubKey : CScript) : Bool :=
  scriptPubKey.length == 34 && scriptPubKey[0]? == some Opcode.OP_1.toByte && scriptPubKey[1]? == some 32

variable (flags : ScriptFlags) (checker : TransactionSignatureChecker)

/-- Evaluation with the checker of the input, of an ordinary script. -/
def evalBase (stack : List Bytes) (script : CScript) : Except ScriptError (List Bytes) :=
  evalScript C flags (checker.toBase C) .SIGVERSION_BASE stack script

def requireTrue : List Bytes → Except ScriptError Unit
  | [] => .error .SCRIPT_ERR_EVAL_FALSE
  | x :: _ => if castToBool x then .ok () else .error .SCRIPT_ERR_EVAL_FALSE

/-- The script path: the control block commits to the leaf script, which is executed. -/
def verifyScriptPath (Q controlBlock leafScript : Bytes) (stack : List Bytes) : Except ScriptError Unit :=
  if controlBlock.length < 33 ∨ (controlBlock.length - 33) % 32 ≠ 0 then
    .error .SCRIPT_ERR_INVALID_STACK_OPERATION
  else
    let leafVersion := controlBlock.headD 0 &&& 0xfe
    if leafVersion ≠ 0xc0 then .error .SCRIPT_ERR_BAD_OPCODE
    else
      let P := (controlBlock.drop 1).take 32
      let leafHash := computeTapLeafHash C leafVersion leafScript
      let merkleRoot := deriveTaprootMerkleRoot C controlBlock leafHash
      let parity := controlBlock.headD 0 &&& 1 != 0
      if !C.checkTapTweak Q P merkleRoot parity then .error .SCRIPT_ERR_EVAL_FALSE
      else if checker.precomTxData.isNone then .error .SCRIPT_ERR_UNKNOWN_ERROR
      else do
        let stack ← evalScript C flags
          ({ checker with tapleafHash := some leafHash }.toBase C) .SIGVERSION_TAPSCRIPT stack
          leafScript
        requireTrue stack

/-- The Taproot rule of `VerifyScript`: one element is a signature for the output key; of several,
the last two are the control block and the leaf script. -/
def verifyTaproot (scriptSig scriptPubKey : CScript) : Except ScriptError Unit :=
  if !CScript.isPushOnly scriptSig then .error .SCRIPT_ERR_SIG_PUSHONLY
  else do
    let Q := scriptPubKey.drop 2
    match ← evalBase C flags checker [] scriptSig with
    | [] => .error .SCRIPT_ERR_INVALID_STACK_OPERATION
    | [sig] =>
      if checker.checkSig C sig Q [] .SIGVERSION_TAPROOT then .ok ()
      else .error .SCRIPT_ERR_EVAL_FALSE
    | controlBlock :: leafScript :: stack =>
      verifyScriptPath C flags checker Q controlBlock leafScript stack

/-- The rule of a pay-to-script-hash output: the redeem script is executed on the rest of the
stack. -/
def verifyRedeemScript (scriptSig : CScript) (stackCopy : List Bytes) : Except ScriptError Unit :=
  if !CScript.isPushOnly scriptSig then .error .SCRIPT_ERR_SIG_PUSHONLY
  else
    match stackCopy with
    -- not reached: the hash of nothing was asked for before
    | [] => .error .SCRIPT_ERR_UNKNOWN_ERROR
    | pubKey2 :: stack => do requireTrue (← evalBase C flags checker stack pubKey2)

/-- `VerifyScript`. -/
def verifyScript (scriptSig scriptPubKey : CScript) : Except ScriptError Unit :=
  if flags.taproot && isTaprootScript scriptPubKey then
    verifyTaproot C flags checker scriptSig scriptPubKey
  else if flags.sigpushonly && !CScript.isPushOnly scriptSig then .error .SCRIPT_ERR_SIG_PUSHONLY
  else do
    let stackCopy ← evalBase C flags checker [] scriptSig
    requireTrue (← evalBase C flags checker stackCopy scriptPubKey)
    if flags.p2sh && CScript.isPayToScriptHash scriptPubKey then
      verifyRedeemScript C flags checker scriptSig stackCopy

end Verify

end KristaTech
