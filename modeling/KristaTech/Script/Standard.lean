import KristaTech.Primitives.Transaction

/-!
# Standard scripts and their addresses

`script/standard.cpp`: which of the known forms a script has (`Solver`), and the addresses it pays
to (`ExtractDestinations`). Whether a script is a MESCAL contract is decided by the decompiler,
which is a parameter here (`mescalDecompiles`); it comes before the two registration forms of the
ADAM consensus, so these are only recognised in scripts the decompiler refuses.
-/

namespace KristaTech

/-! ### Reading a script instruction by instruction -/

namespace CScript

/-- `script.GetOp(pc, op, vch)`, moving on. -/
def nextOp : Reader ScriptOp := fun s ↦ (getOp s).map fun op ↦ (op, op.rest)

def expectOp (opcode : Opcode) : Reader Unit := do
  guard ((← nextOp).opcode = opcode)

def nextPush : Reader Bytes := do return (← nextOp).vch

/-- `DecodeOP_N`. -/
def decodeOpN (opcode : Opcode) : ℕ :=
  if opcode = .OP_0 then 0 else opcode.toByte.toNat - (Opcode.OP_1.toByte.toNat - 1)

/-- `IsSmallInteger`. -/
def isSmallInteger (opcode : Opcode) : Bool := .OP_1 ≤ opcode && opcode ≤ .OP_16

/-! ### Counting signature operations -/

/-- `MAX_PUBKEYS_PER_MULTISIG`. -/
def maxPubkeysPerMultisig : ℕ := 20

/-- One turn of the loop of `GetSigOpCount`: the count, and the opcode before. -/
def countSigOp (fAccurate : Bool) (acc : ℕ × Option Opcode) (op : ScriptOp) : ℕ × Option Opcode :=
  let n :=
    if op.opcode = .OP_CHECKSIG ∨ op.opcode = .OP_CHECKSIGVERIFY then acc.1 + 1
    else if op.opcode = .OP_CHECKMULTISIG ∨ op.opcode = .OP_CHECKMULTISIGVERIFY then
      match acc.2 with
      | some lastOpcode =>
        if fAccurate && isSmallInteger lastOpcode then acc.1 + decodeOpN lastOpcode
        else acc.1 + maxPubkeysPerMultisig
      | none => acc.1 + maxPubkeysPerMultisig
    else acc.1
  (n, some op.opcode)

/-- `GetSigOpCount(fAccurate)`. -/
def getSigOpCount (script : CScript) (fAccurate : Bool) : ℕ :=
  ((ops script).foldl (countSigOp fAccurate) (0, none)).1

/-- `GetSigOpCount(scriptSig)`: the redeem script counts if the script is pay-to-script-hash. -/
def getSigOpCountWith (script scriptSig : CScript) : ℕ :=
  if !isPayToScriptHash script then getSigOpCount script true
  else if !isPushOnly scriptSig then 0
  else getSigOpCount (((ops scriptSig).getLast?.map (·.vch)).getD []) true

end CScript

/-! ### The forms -/

/-- `txnouttype`; the three stateful contract forms, which `Solver` never returns, are left out. -/
inductive TxnOutType
  | TX_PUBKEY
  | TX_PUBKEYHASH
  | TX_SCRIPTHASH
  | TX_MULTISIG
  | TX_NULL_DATA
  | TX_WITNESS_V1_TAPROOT
  | TX_MESCAL_CONTRACT
  | TX_ADAM_COINLOCK
  | TX_ADAM_POWLOCK
  deriving DecidableEq, Repr

open CScript

/-- The key in a script `<pubkey> OP_CHECKSIG` with a key of the given length. -/
def matchKeyOfSize (size : ℕ) (script : CScript) : Option Bytes :=
  if script.length = size + 2 ∧ script[0]? = some (UInt8.ofNat size) ∧
    script.getLast? = some Opcode.OP_CHECKSIG.toByte then some ((script.drop 1).take size)
  else none

/-- `MatchPayToPubkey`. -/
def matchPayToPubkey (script : CScript) : Option Bytes :=
  ((matchKeyOfSize CPubKey.publicKeySize script).or
    (matchKeyOfSize CPubKey.compressedPublicKeySize script)).filter
    fun pubkey ↦ decide (CPubKey.ValidSize pubkey)

/-- `MatchPayToPubkeyHash`. -/
def matchPayToPubkeyHash (script : CScript) : Option Bytes :=
  if script.length = 25 ∧ script[0]? = some Opcode.OP_DUP.toByte ∧
    script[1]? = some Opcode.OP_HASH160.toByte ∧ script[2]? = some 20 ∧
    script[23]? = some Opcode.OP_EQUALVERIFY.toByte ∧ script[24]? = some Opcode.OP_CHECKSIG.toByte
  then some ((script.drop 3).take 20)
  else none

/-- `MatchMultisig`: the number of keys required, and the keys. -/
def matchMultisig (script : CScript) : Option (ℕ × List Bytes) := do
  guard (script.getLast? = some Opcode.OP_CHECKMULTISIG.toByte)
  let first ← getOp script
  guard (isSmallInteger first.opcode)
  let required := decodeOpN first.opcode
  let isKey (op : ScriptOp) : Bool := decide (CPubKey.ValidSize op.vch)
  let pubkeys := ((ops first.rest).takeWhile isKey).map (·.vch)
  let count ← ((ops first.rest).dropWhile isKey).head?
  guard (isSmallInteger count.opcode)
  guard (pubkeys.length = decodeOpN count.opcode ∧ required ≤ decodeOpN count.opcode)
  guard (count.rest.length = 1)
  return (required, pubkeys)

def pushesBeforeLast : ℕ → CScript → Bool
  | 0, _ => true
  | fuel + 1, script =>
    if script.length ≤ 1 then true
    else
      match getOp script with
      | none => false
      | some op => op.opcode ≤ .OP_16 && pushesBeforeLast fuel op.rest

/-- `MatchContractPublish`, `MatchContractRun` and `MatchContractStatus`, by their opcode. -/
def matchContract (opcode : Opcode) (script : CScript) : Bool :=
  2 ≤ script.length && script.getLast? == some opcode.toByte && pushesBeforeLast script.length script

/-- What a registration script says. -/
structure LockRegistration where
  pubkey : CPubKey
  lockTime : ℤ
  pubkeyHash : Uint160
  deriving DecidableEq, Repr

/-- The common tail `<locktime> OP_CHECKLOCKTIMEVERIFY OP_DROP OP_DUP OP_HASH160 <hash>
OP_EQUALVERIFY OP_CHECKSIG` up to the end of the script. -/
def readLockTail (vchPubKey : Bytes) : Reader LockRegistration := do
  let vchLockTime ← nextPush
  expectOp .OP_CHECKLOCKTIMEVERIFY
  expectOp .OP_DROP
  expectOp .OP_DUP
  expectOp .OP_HASH160
  let vchHash ← nextPush
  guard (vchHash.length = 20)
  expectOp .OP_EQUALVERIFY
  expectOp .OP_CHECKSIG
  guard (← get).isEmpty
  let pubkey := CPubKey.set vchPubKey
  guard pubkey.isValid
  match CScriptNum.ofVch vchLockTime true with
  | some lockTime => return ⟨pubkey, lockTime, Uint160.ofBytes vchHash⟩
  | none => failure

/-- `MatchCoinLockRegistration`. -/
def matchCoinLockRegistration (script : CScript) : Option LockRegistration := do
  guard (60 ≤ script.length)
  (do
    let vchPubKey ← nextPush
    guard (vchPubKey.length = 33)
    expectOp .OP_DROP
    readLockTail vchPubKey : Reader LockRegistration).run' script

/-- `MatchPoWLockRegistration`: the nonce, the challenge and the registration. -/
def matchPoWLockRegistration (script : CScript) : Option (Bytes × Uint256 × LockRegistration) := do
  guard (95 ≤ script.length)
  (do
    let vchNonce ← nextPush
    guard (!vchNonce.isEmpty)
    let vchChallenge ← nextPush
    guard (vchChallenge.length = 32)
    let vchPubKey ← nextPush
    guard (vchPubKey.length = 33)
    expectOp .OP_DROP
    expectOp .OP_DROP
    expectOp .OP_DROP
    let registration ← readLockTail vchPubKey
    return (vchNonce, Uint256.ofBytes vchChallenge, registration) :
      Reader (Bytes × Uint256 × LockRegistration)).run' script

variable (mescalDecompiles : CScript → Bool)

/-- `Solver`. -/
def solver (script : CScript) : Option (TxnOutType × List Bytes) :=
  if isPayToScriptHash script then some (.TX_SCRIPTHASH, [(script.drop 2).take 20])
  else if script.length = 34 ∧ script[0]? = some Opcode.OP_1.toByte ∧ script[1]? = some 32 then
    some (.TX_WITNESS_V1_TAPROOT, [script.drop 2])
  else if script.head? = some Opcode.OP_RETURN.toByte ∧ isPushOnly (script.drop 1) then
    some (.TX_NULL_DATA, [])
  else if let some pubkey := matchPayToPubkey script then some (.TX_PUBKEY, [pubkey])
  else if let some pubkeyhash := matchPayToPubkeyHash script then
    some (.TX_PUBKEYHASH, [pubkeyhash])
  else if let some (required, keys) := matchMultisig script then
    some (.TX_MULTISIG, [UInt8.ofNat required] :: keys ++ [[UInt8.ofNat keys.length]])
  else if matchContract .OP_PUBLISH script || matchContract .OP_RUN script ||
    matchContract .OP_UPDATE_STATUS script then none
  else if !isPushOnly script && mescalDecompiles script then some (.TX_MESCAL_CONTRACT, [])
  else if let some lock := matchCoinLockRegistration script then
    some (.TX_ADAM_COINLOCK, [lock.pubkeyHash.toBytes, lock.pubkey.bytes])
  else if let some (_, _, lock) := matchPoWLockRegistration script then
    some (.TX_ADAM_POWLOCK, [lock.pubkeyHash.toBytes, lock.pubkey.bytes])
  else none

/-! ### Addresses -/

/-- `CTxDestination`. -/
inductive CTxDestination
  | noDestination
  | keyID (id : Uint160)
  | scriptID (id : Uint160)
  | witnessV1Taproot (xonly : Uint256)
  deriving DecidableEq, Repr

namespace CTxDestination

/-- The variant compares the alternatives first, then their values. -/
def key : CTxDestination → ℕ × ℕ
  | noDestination => (0, 0)
  | keyID id => (1, id.toNat)
  | scriptID id => (2, id.toNat)
  | witnessV1Taproot xonly => (3, xonly.toNat)

theorem key_injective : Function.Injective key := by
  intro a b h
  cases a <;> cases b <;> simp_all [key, BitVec.toNat_inj]

attribute [local instance] lexOrd

instance : Ord CTxDestination := KeyOrder.ord key

instance : Std.TransOrd CTxDestination := KeyOrder.transOrd key

instance : Std.LawfulEqOrd CTxDestination := KeyOrder.lawfulEqOrd key_injective

end CTxDestination

variable (C : Crypto)

/-- `ExtractDestination`. -/
def extractDestination (script : CScript) : Option CTxDestination :=
  match solver mescalDecompiles script with
  | some (.TX_PUBKEY, vch :: _) =>
    let pubKey := CPubKey.set vch
    if pubKey.isValid then some (.keyID (pubKey.getID C)) else none
  | some (.TX_PUBKEYHASH, vch :: _) => some (.keyID (Uint160.ofBytes vch))
  | some (.TX_ADAM_COINLOCK, vch :: _) => some (.keyID (Uint160.ofBytes vch))
  | some (.TX_ADAM_POWLOCK, vch :: _) => some (.keyID (Uint160.ofBytes vch))
  | some (.TX_SCRIPTHASH, vch :: _) => some (.scriptID (Uint160.ofBytes vch))
  | some (.TX_WITNESS_V1_TAPROOT, vch :: _) => some (.witnessV1Taproot (Uint256.ofBytes vch))
  | _ => none

/-- `ExtractDestinations`: the addresses, when it succeeds. There is always at least one. -/
def extractDestinations (script : CScript) : Option (List CTxDestination) :=
  match solver mescalDecompiles script with
  | none => none
  | some (.TX_NULL_DATA, _) => none
  | some (.TX_MULTISIG, vSolutions) =>
    let addresses := ((vSolutions.drop 1).dropLast.map CPubKey.set).filter (·.isValid) |>.map
      fun pubKey ↦ CTxDestination.keyID (pubKey.getID C)
    if addresses.isEmpty then none else some addresses
  | some _ => (extractDestination mescalDecompiles C script).map ([·])

/-- `GetScriptForDestination`. -/
def getScriptForDestination : CTxDestination → CScript
  | .noDestination => []
  | .keyID id => [Opcode.OP_DUP.toByte, Opcode.OP_HASH160.toByte, 20] ++ id.toBytes ++
      [Opcode.OP_EQUALVERIFY.toByte, Opcode.OP_CHECKSIG.toByte]
  | .scriptID id => [Opcode.OP_HASH160.toByte, 20] ++ id.toBytes ++ [Opcode.OP_EQUAL.toByte]
  | .witnessV1Taproot xonly => [Opcode.OP_1.toByte, 32] ++ xonly.toBytes

/-! ### Registrations without a coin -/

/-- The outpoint that a registration without a coin names as its input. -/
def zeroCoinSentinel : COutPoint := ⟨1, 0⟩

/-- `IsZeroCoinPoWTransaction`. -/
def isZeroCoinPoWTransaction (tx : CTransaction) : Bool :=
  !tx.isCoinBase && !tx.isCoinStake &&
    match tx.vin, tx.vout with
    | [txin], [txout] =>
      txin.prevout == zeroCoinSentinel && txout.nValue == 0 && tx.getValueOut == some 0 &&
        (matchPoWLockRegistration txout.scriptPubKey).any fun r ↦
          r.2.2.pubkey.isValid && r.2.2.pubkey.getID C == r.2.2.pubkeyHash && r.1.length == 4
    | _, _ => false

end KristaTech
