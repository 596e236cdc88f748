import KristaTech.Primitives.Block
import KristaTech.Quorum.Certificate
import KristaTech.Masternode.Delegation

/-!
# Masternode pings

`ExtractOnChainMasternodePing` of `adam.cpp`: the transaction by which a masternode says that it is
alive. The masternode's key is found in a leaf script among the inputs, or in an output; the
collateral outpoint, a signature and an optional delegation are read from the first `OP_RETURN`
output that holds them. No caller asks for the delegation to be recorded on the way, so that mode of
the function is left out.
-/

namespace KristaTech

namespace Reader

/-- A `bool` is one byte. -/
def readBool : Reader Bool := do return (← readLE 1) != 0

/-- `s.empty()`. -/
def isEmpty : Reader Bool := do return (← get).isEmpty

end Reader

namespace Llmq

/-- `ss >> qsig`. -/
def CQuorumSignature.read : Reader CQuorumSignature := do
  let blockHash ← Reader.readUint256
  let signatures ← Reader.readVector do
    let outpoint ← Reader.readOutPoint
    let sig ← Reader.readByteVector
    return (outpoint, sig)
  return ⟨blockHash, signatures⟩

def CQuorumSignature.parse (vQuorumSig : Bytes) : Option CQuorumSignature :=
  (CQuorumSignature.read vQuorumSig).map Prod.fst

end Llmq

namespace Masternode

/-! ### Delegations -/

def CService.read : Reader CService := do
  let ip ← Reader.readBytes 16
  let portN ← Reader.readBytes 2
  return ⟨BitVec.ofNat 128 (Reader.beToNat ip), UInt16.ofNat (Reader.beToNat portN)⟩

def COnChainMasternodeDelegation.read : Reader COnChainMasternodeDelegation := do
  let pubKeyCollateralAddress ← Reader.readPubKey
  let pubKeyMasternode ← Reader.readPubKey
  let addr ← CService.read
  let sigTime ← Reader.readInt 8
  let protocolVersion ← Reader.readInt 4
  let nMessVersion ← Reader.readInt 4
  let vchCollateralSig ← Reader.readByteVector
  return ⟨pubKeyCollateralAddress, pubKeyMasternode, addr, sigTime, protocolVersion, nMessVersion,
    vchCollateralSig⟩

/-- The signature checks a ping is put to: the primitives, and the signature of a masternode
broadcast with the delegation's data (`CMasternodeBroadcast::CheckSignature`). -/
structure PingChecks where
  crypto : Crypto
  checkSignature : COnChainMasternodeDelegation → COutPoint → Bool

variable (P : PingChecks)

/-- `VerifyOnChainDelegationSignature`. -/
def verifyOnChainDelegationSignature (del : COnChainMasternodeDelegation)
    (collateralOutpoint : COutPoint) : Bool :=
  del.pubKeyCollateralAddress.isValid && del.pubKeyMasternode.isValid &&
    !del.vchCollateralSig.isEmpty && P.checkSignature del collateralOutpoint

/-! ### Pings -/

/-- What a ping says. -/
structure MasternodePing where
  pubKeyMasternode : CPubKey
  collateralOutpoint : COutPoint
  /-- A delegation to this key whose signature verified. -/
  inlineDel : Option COnChainMasternodeDelegation
  deriving DecidableEq, Repr

/-- The key in a script `<pubkey> OP_CHECKSIGVERIFY OP_1`, if it is one. -/
def pingScriptKey (script : CScript) : Option CPubKey :=
  if script.length = 36 ∧ script[0]? = some 33 ∧
      script[34]? = some Opcode.OP_CHECKSIGVERIFY.toByte ∧ script[35]? = some Opcode.OP_1.toByte ∨
    script.length = 68 ∧ script[0]? = some 65 ∧
      script[66]? = some Opcode.OP_CHECKSIGVERIFY.toByte ∧ script[67]? = some Opcode.OP_1.toByte
  then
    let pubKey := CPubKey.set ((script.drop 1).take (script.length - 3))
    if pubKey.isValid then some pubKey else none
  else none

/-- The leaf script a script-path spend carries: its last push but one. -/
def leafScript (txin : CTxIn) : Option CScript :=
  let stack := CScript.pushes txin.scriptSig
  if 2 ≤ stack.length then stack[stack.length - 2]? else none

/-- The key the transaction speaks for, and whether an input's leaf script names it. -/
def findPingKey (tx : CTransaction) : Option (CPubKey × Bool) :=
  match tx.vin.findSome? fun txin ↦ (leafScript txin).bind pingScriptKey with
  | some pubKey => some (pubKey, true)
  | none => (tx.vout.findSome? fun out ↦ pingScriptKey out.scriptPubKey).map (·, false)

/-- The delegation in the rest of the payload, if there is one for this key that verifies. -/
def readInlineDelegation (foundPubKey : CPubKey) (collateralOutpoint : COutPoint) :
    Reader (Option COnChainMasternodeDelegation) := do
  if ← Reader.isEmpty then return none
  let hasDelegation ← Reader.readBool
  if !hasDelegation || (← Reader.isEmpty) then return none
  let del ← COnChainMasternodeDelegation.read
  if del.pubKeyMasternode = foundPubKey ∧ verifyOnChainDelegationSignature P del collateralOutpoint
  then return some del
  else return none

/-- The payload of an `OP_RETURN` output. The inner `none` gives up on the transaction: a ping that
only an output names must carry a signature of its collateral and first input. -/
def readPing (tx : CTransaction) (foundPubKey : CPubKey) (fSignedInput : Bool) :
    Reader (Option MasternodePing) := do
  let collateralOutpoint ← Reader.readOutPoint
  if fSignedInput then
    if !(← Reader.isEmpty) then
      let _ ← Reader.readByteVector
  else
    if ← Reader.isEmpty then return none
    let vchPingSig ← Reader.readByteVector
    let ssPingHash := Writer.outPoint collateralOutpoint ++
      (tx.vin.head?.map fun txin ↦ Writer.outPoint txin.prevout).getD []
    if vchPingSig.isEmpty || !foundPubKey.verify P.crypto (P.crypto.hash ssPingHash) vchPingSig then
      return none
  let inlineDel ← readInlineDelegation P foundPubKey collateralOutpoint
  return some ⟨foundPubKey, collateralOutpoint, inlineDel⟩

/-- One output: an exception while its payload is read moves on to the next output (`none`). -/
def readPingOutput (tx : CTransaction) (foundPubKey : CPubKey) (fSignedInput : Bool)
    (out : CTxOut) : Option (Option MasternodePing) := do
  guard (CScript.isUnspendable out.scriptPubKey && 38 ≤ out.scriptPubKey.length &&
    out.scriptPubKey.head? == some Opcode.OP_RETURN.toByte)
  let op ← CScript.getOp (out.scriptPubKey.drop 1)
  guard (36 ≤ op.vch.length)
  return (← readPing P tx foundPubKey fSignedInput op.vch).1

/-- `ExtractOnChainMasternodePing`. -/
def extractOnChainMasternodePing (tx : CTransaction) : Option MasternodePing := do
  guard (!tx.isCoinBase && !tx.vin.isEmpty)
  let (foundPubKey, fSignedInput) ← findPingKey tx
  (tx.vout.findSome? (readPingOutput P tx foundPubKey fSignedInput)).join

end Masternode

end KristaTech
