import KristaTech.Masternode.Registry

/-!
# The masternode activity of a block

`RegisterBlockMasternodeActivity` of `adam.cpp`, which `ConnectBlock` runs: the pings of the block,
then the masternodes that took part in making it (its ADAM solutions, its coordinator and the shares
of its quorum certificate) are registered at the block's height, and their BLS keys are pinned.

And the undoing of it, the last part of `DisconnectBlock` in `main.cpp`: the height is taken out of
the registry, the delegations of the block's pings are reverted, and for every key that is left
without a height the last 2880 blocks are searched for an earlier sign of life
(`RestoreMasternodeActivityFromBlock`).
-/

namespace KristaTech.Masternode

open Llmq

/-- What the activity of a block is judged by, besides the state: the election functions read the
registry and a coin view (the one of the tip if none is given), so they are functions of both. -/
structure ActivityEnv extends PingChecks where
  /-- `GetAdamSeed` of the block with this hash; null if it is not in the index. -/
  getAdamSeed : Uint256 → Uint256
  /-- `VerifyAdamSolution` of the previous hash, the seed, the miner, its solution, the target, the
  version, the height and the miner's index. -/
  verifyAdamSolution : PinnedBLSPubKeys → Uint256 → Uint256 → CPubKey → Bytes → UInt32 → ℤ → ℤ → ℤ → Bool
  /-- `SelectAdamNodes` of the seed and the height: the elected miners and the coordinator. -/
  selectAdamNodes : Option CoinLookup → MasternodeState → Uint256 → ℤ → Option (List CPubKey × CPubKey)
  /-- `GetAdamMinerPool`. -/
  getAdamMinerPool : Option CoinLookup → MasternodeState → ℤ → List CPubKey
  /-- `GetActiveQuorum` of the height and the previous block, the one of the active chain if none is
  given. -/
  getActiveQuorum : Option CoinLookup → MasternodeState → ℤ → Option Uint256 → CQuorum

variable (E : ActivityEnv) (view : CoinLookup)

namespace MasternodeState

/-- `PinBLSPubKey`. -/
def pin (s : MasternodeState) (k : CPubKey) (pk : CBLSPubKey) (nHeight : ℤ) : MasternodeState :=
  { s with pins := (s.pins.pinBLSPubKey k pk nHeight).2 }

def pinSigned (s : MasternodeState) (k : CPubKey) (vchSig : Bytes) (nHeight : ℤ) :
    MasternodeState :=
  match extractBLSPubKeyFromSignedData vchSig with
  | some pk => s.pin k pk nHeight
  | none => s

/-- `RegisterOnChainMasternodePing` with the collateral the key is bound to, if it is bound. -/
def refresh (s : MasternodeState) (k : CPubKey) (nHeight : ℤ) : MasternodeState :=
  match s.registry.mapMasternodeCollateralOutpoints[k]? with
  | some o => (registerOnChainMasternodePing E.toPingChecks view s k o nHeight none).2
  | none => s

end MasternodeState

/-! ### Connecting -/

def registerPing (nHeight : ℤ) (s : MasternodeState) (tx : CTransaction) : MasternodeState :=
  match extractOnChainMasternodePing E.toPingChecks tx with
  | some ping => (registerOnChainMasternodePing E.toPingChecks view s ping.pubKeyMasternode
      ping.collateralOutpoint nHeight ping.inlineDel).2
  | none => s

/-- The miners whose solutions count, with their solutions and indices: in version 11 the last
miner is the coordinator. -/
def minersToVerify (block : CBlock) : List ((CPubKey × Bytes) × ℕ) :=
  let miners := if block.nVersion = 11 then block.vAdamMiners.dropLast else block.vAdamMiners
  (miners.zip block.vAdamSolutions).zipIdx

/-- `VerifyAdamSolution` with the arguments a block gives. -/
def verifyBlockSolution (block : CBlock) (nHeight : ℤ) (pins : PinnedBLSPubKeys)
    (m : (CPubKey × Bytes) × ℕ) : Bool :=
  E.verifyAdamSolution pins block.hashPrevBlock (E.getAdamSeed block.hashPrevBlock) m.1.1 m.1.2
    block.nBits block.nVersion nHeight (if block.nVersion = 11 then -1 else m.2)

/-- The signature inside a solution: a nonce, then the signed data. -/
def solutionSig (vchSolution : Bytes) : Option Bytes :=
  (do let _ ← Reader.readLE 4; Reader.readByteVector : Reader Bytes) vchSolution |>.map Prod.fst

def registerSolution (block : CBlock) (nHeight : ℤ) (s : MasternodeState)
    (m : (CPubKey × Bytes) × ℕ) : MasternodeState :=
  if m.1.2.isEmpty || !m.1.1.isValid || E.getAdamSeed block.hashPrevBlock == 0 ||
    !verifyBlockSolution E block nHeight s.pins m then s
  else
    let s := match solutionSig m.1.2 with
      | some vchSig => s.pinSigned m.1.1 vchSig nHeight
      | none => s
    s.refresh E view m.1.1 nHeight

/-- The key that signed the coordinator's BLS key: the last miner, the elected coordinator, another
miner from the end of the list, or a key of the pool. -/
def matchedCoordKey (block : CBlock) (nHeight : ℤ) (s : MasternodeState)
    (signedData : CBLSSignedData) : Option CPubKey :=
  let hashPubKey := E.crypto.hash signedData.blsPubKey.data
  let signed (k : CPubKey) : Bool := k.isValid && k.verify E.crypto hashPubKey signedData.ecdsaSig
  let prevSeed := E.getAdamSeed block.hashPrevBlock
  (block.vAdamMiners.getLast?.filter signed).or <|
  ((if prevSeed == 0 then none
    else (E.selectAdamNodes none s prevSeed nHeight).map Prod.snd).filter signed).or <|
  (block.vAdamMiners.reverse.find? signed).or <|
  (E.getAdamMinerPool none s (nHeight - 1)).find? signed

def registerCoordinator (block : CBlock) (nHeight : ℤ) (s : MasternodeState) : MasternodeState :=
  match extractBLSPubKeyFromSignedData block.vAdamCoordinatorSig,
    CBLSSignedData.parse block.vAdamCoordinatorSig with
  | some coordBlsPubKey, some signedData =>
    match matchedCoordKey E block nHeight s signedData with
    | some k =>
      if verifyBLSWithECDSAFallback E.crypto s.pins (block.getHash E.crypto) k block.vAdamCoordinatorSig
      then (s.pin k coordBlsPubKey nHeight).refresh E view k nHeight
      else s
    | none => s
  | _, _ => s

/-- The key that speaks for the outpoint of a share: the quorum's member, or, if there is no quorum,
the key the outpoint is delegated to or else the one bound to it. -/
def shareKey (quorum : CQuorum) (s : MasternodeState) (outpoint : COutPoint) : Option CPubKey :=
  if !quorum.members.isEmpty then
    (quorum.members.find? fun member ↦
      member.collateralOutpoint == outpoint && member.pubKeyMasternode.isValid).map
      (·.pubKeyMasternode)
  else
    ((s.delegations.mapOnChainCollateralDelegations[outpoint]?.map (·.pubKeyMasternode)).filter
      (·.isValid)).or
    ((s.registry.mapMasternodeCollateralOutpoints.toList.find? fun kv ↦
      kv.2 == outpoint && kv.1.isValid).map Prod.fst)

def registerShare (block : CBlock) (nHeight : ℤ) (quorum : CQuorum) (s : MasternodeState)
    (sigPair : COutPoint × Bytes) : MasternodeState :=
  match shareKey quorum s sigPair.1 with
  | some k =>
    if verifyBLSWithECDSAFallback E.crypto s.pins (block.getHash E.crypto) k sigPair.2 then
      (registerOnChainMasternodePing E.toPingChecks view s k sigPair.1 nHeight none).2.pinSigned k
        sigPair.2 nHeight
    else s
  | none => s

/-- The shares of the certificate, if there is one for this block. -/
def blockShares (block : CBlock) : List (COutPoint × Bytes) :=
  match CQuorumSignature.parse block.vQuorumSig with
  | some qsig => if qsig.blockHash = block.getHash E.crypto then qsig.signatures else []
  | none => []

def registerQuorum (block : CBlock) (nHeight : ℤ) (s : MasternodeState) : MasternodeState :=
  let quorum := E.getActiveQuorum none s nHeight (some block.hashPrevBlock)
  (blockShares E block).foldl (registerShare E view block nHeight quorum) s

/-- `RegisterBlockMasternodeActivity`. -/
def registerBlockMasternodeActivity (s : MasternodeState) (block : CBlock) (nHeight : ℤ) :
    MasternodeState :=
  let s := block.vtx.foldl (registerPing E view nHeight) s
  if 11 ≤ block.nVersion then
    let s := (minersToVerify block).foldl (registerSolution E view block nHeight) s
    let s := registerCoordinator E view block nHeight s
    registerQuorum E view block nHeight s
  else s

/-! ### Restoring from an earlier block -/

/-- A registration as the restoring functions make it: the key if it was accepted. -/
def registerRestored (s : MasternodeState) (k : CPubKey) (o : COutPoint) (nHeight : ℤ)
    (inlineDel : Option COnChainMasternodeDelegation) : Option CPubKey × MasternodeState :=
  match registerOnChainMasternodePing E.toPingChecks view s k o nHeight inlineDel with
  | (true, s) => (some k, s)
  | (false, s) => (none, s)

def delegateKey (s : MasternodeState) (targetCollateral : COutPoint) : Option CPubKey :=
  (s.delegations.mapOnChainCollateralDelegations[targetCollateral]?.map (·.pubKeyMasternode)).filter
    (·.isValid)

section Restore

variable (block : CBlock) (nHeight : ℤ) (targetPubKey : CPubKey) (targetCollateral : COutPoint)

def restorePing (s : MasternodeState) (tx : CTransaction) : Option CPubKey × MasternodeState :=
  match extractOnChainMasternodePing E.toPingChecks tx with
  | some ping =>
    if ping.pubKeyMasternode = targetPubKey ∨
      (!targetCollateral.isNull) ∧ ping.collateralOutpoint = targetCollateral
    then registerRestored E view s ping.pubKeyMasternode ping.collateralOutpoint nHeight ping.inlineDel
    else (none, s)
  | none => (none, s)

/-- An ADAM solution of the target key or of the target collateral's delegate. -/
def restoreSolution (s : MasternodeState) (m : (CPubKey × Bytes) × ℕ) : Option CPubKey × MasternodeState :=
  if !m.1.2.isEmpty && m.1.1.isValid &&
      (m.1.1 == targetPubKey || delegateKey s targetCollateral == some m.1.1) &&
      E.getAdamSeed block.hashPrevBlock != 0 && verifyBlockSolution E block nHeight s.pins m
  then registerRestored E view s m.1.1 targetCollateral nHeight none
  else (none, s)

/-- The coordinator's signature, by the target key or by the target collateral's delegate. -/
def restoreCoordinator (s : MasternodeState) : Option CPubKey × MasternodeState :=
  match extractBLSPubKeyFromSignedData block.vAdamCoordinatorSig,
    CBLSSignedData.parse block.vAdamCoordinatorSig with
  | some _, some signedData =>
    let hashPubKey := E.crypto.hash signedData.blsPubKey.data
    let signed (k : CPubKey) : Bool := k.verify E.crypto hashPubKey signedData.ecdsaSig
    let candidateKey :=
      if targetPubKey.isValid && signed targetPubKey then some targetPubKey
      else (delegateKey s targetCollateral).filter signed
    match candidateKey with
    | some k =>
      if verifyBLSWithECDSAFallback E.crypto s.pins (block.getHash E.crypto) k block.vAdamCoordinatorSig
      then registerRestored E view s k targetCollateral nHeight none
      else (none, s)
    | none => (none, s)
  | _, _ => (none, s)

/-- A share of the target collateral: of the quorum's member, or of the target key if it signed, or
of the delegate. -/
def restoreShare (quorum : CQuorum) (s : MasternodeState) (sigPair : COutPoint × Bytes) :
    Option CPubKey × MasternodeState :=
  if sigPair.1 ≠ targetCollateral then (none, s)
  else
    let verified (k : CPubKey) : Bool :=
      verifyBLSWithECDSAFallback E.crypto s.pins (block.getHash E.crypto) k sigPair.2
    let quorumMnKey :=
      ((quorum.members.find? fun member ↦
        member.collateralOutpoint == targetCollateral && member.pubKeyMasternode.isValid).map
        (·.pubKeyMasternode)).or
      (if targetPubKey.isValid && verified targetPubKey then some targetPubKey
        else delegateKey s targetCollateral)
    match quorumMnKey.filter verified with
    | some k => registerRestored E view s k targetCollateral nHeight none
    | none => (none, s)

/-- `RestoreMasternodeActivityFromBlock`: the key that was registered again, if one was. -/
def restoreMasternodeActivityFromBlock (s : MasternodeState) : Option CPubKey × MasternodeState :=
  match block.vtx.tryEach (restorePing E view nHeight targetPubKey targetCollateral) s with
  | (some k, s) => (some k, s)
  | (none, s) =>
    if block.nVersion < 11 ∨ targetCollateral.isNull then (none, s)
    else
      match (minersToVerify block).tryEach
        (restoreSolution E view block nHeight targetPubKey targetCollateral) s with
      | (some k, s) => (some k, s)
      | (none, s) =>
        match restoreCoordinator E view block nHeight targetPubKey targetCollateral s with
        | (some k, s) => (some k, s)
        | (none, s) =>
          let quorum := E.getActiveQuorum (some view) s nHeight (some block.hashPrevBlock)
          (blockShares E block).tryEach
            (restoreShare E view block nHeight targetPubKey targetCollateral quorum) s

end Restore

/-! ### Disconnecting -/

/-- What the undoing of a block carries along: the keys that lost their last height, and the
collateral each of them had. -/
structure Emptied where
  state : MasternodeState
  setEmptiedMasternodes : Std.ExtTreeSet CPubKey
  mapEmptiedCollaterals : Std.ExtTreeMap CPubKey COutPoint

def eraseHeight (nHeight : ℤ) (a : Emptied) (k : CPubKey) : Emptied :=
  let R := a.state.registry
  match R.mapMasternodeActiveHeights[k]? with
  | none => a
  | some setHeights =>
    if setHeights.contains nHeight then
      let setHeights := setHeights.erase nHeight
      match Heights.last setHeights with
      | some m =>
        { a with state.registry :=
          { R with
            mapMasternodeActiveHeights := R.mapMasternodeActiveHeights.insert k setHeights
            mapMasternodeLastActiveHeight := R.mapMasternodeLastActiveHeight.insert k m } }
      | none =>
        { state := { a.state with registry :=
            { R with
              mapMasternodeActiveHeights := R.mapMasternodeActiveHeights.erase k
              mapMasternodeLastActiveHeight := R.mapMasternodeLastActiveHeight.erase k } }
          setEmptiedMasternodes := a.setEmptiedMasternodes.insert k
          mapEmptiedCollaterals :=
            match R.mapMasternodeCollateralOutpoints[k]? with
            | some o => a.mapEmptiedCollaterals.insert k o
            | none => a.mapEmptiedCollaterals }
    else a

/-- The height is out of every key's heights, and the keys that have none left are marked. -/
def eraseHeights (nHeight : ℤ) (s : MasternodeState) : Emptied :=
  s.registry.mapMasternodeActiveHeights.keys.foldl (eraseHeight nHeight) ⟨s, ∅, ∅⟩

/-- A key is to be restored, with its collateral if that is known. -/
def Emptied.mark (a : Emptied) (k : CPubKey) (o : COutPoint) : Emptied :=
  { a with
    setEmptiedMasternodes := a.setEmptiedMasternodes.insert k
    mapEmptiedCollaterals :=
      if o.isNull then a.mapEmptiedCollaterals else a.mapEmptiedCollaterals.insert k o }

def Emptied.markInactive (a : Emptied) (k : CPubKey) (o : COutPoint) : Emptied :=
  if a.state.registry.mapMasternodeActiveHeights.contains k then a else a.mark k o

/-- The delegation a ping carried is reverted; the key that comes back is to be restored if it is
inactive. -/
def revertDelegation (nHeight : ℤ) (a : Emptied) (ping : MasternodePing) : Emptied :=
  if !ping.collateralOutpoint.isNull && ping.inlineDel.any (·.pubKeyCollateralAddress.isValid) then
    let reverted := a.state.delegations.revertOnChainCollateralDelegation ping.collateralOutpoint
      ping.pubKeyMasternode nHeight
    let a := { a with state.delegations := reverted.1 }
    if reverted.2.isValid then a.markInactive reverted.2 ping.collateralOutpoint else a
  else a

def revertPing (nHeight : ℤ) (a : Emptied) (tx : CTransaction) : Emptied :=
  match extractOnChainMasternodePing E.toPingChecks tx with
  | none => a
  | some ping =>
    (revertDelegation nHeight a ping).markInactive ping.pubKeyMasternode ping.collateralOutpoint

/-- The heights of the ancestors of a block that are searched: 2880 of them, from the parent down,
without the genesis block. -/
def scanHeights (nHeight : ℤ) : List ℤ :=
  (List.range (min 2880 (nHeight - 1).toNat)).map fun (i : ℕ) ↦ nHeight - 1 - i

/-- One earlier block, as read from disk, is searched for a key. -/
def scanBlock (readBlock : ℤ → Option CBlock) (targetPubKey : CPubKey)
    (targetCollateral : COutPoint) (s : MasternodeState) (nScanHeight : ℤ) :
    Option CPubKey × MasternodeState :=
  match readBlock nScanHeight with
  | none => (none, s)
  | some block =>
    restoreMasternodeActivityFromBlock E view block nScanHeight targetPubKey targetCollateral s

/-- As `scanBlock`; when another key than the wanted one was found, the blocks above are searched
for that key. -/
def scanAndRescan (readBlock : ℤ → Option CBlock) (nHeight : ℤ) (targetPubKey : CPubKey)
    (targetCollateral : COutPoint) (s : MasternodeState) (nScanHeight : ℤ) :
    Option CPubKey × MasternodeState :=
  match scanBlock E view readBlock targetPubKey targetCollateral s nScanHeight with
  | (none, s) => (none, s)
  | (some restoredKey, s) =>
    if restoredKey.isValid && restoredKey != targetPubKey then
      (some restoredKey, (((scanHeights nHeight).filter (nScanHeight < ·)).tryEach
        (scanBlock E view readBlock restoredKey targetCollateral) s).2)
    else (some restoredKey, s)

/-- One key that is to be restored: it is dropped, and the blocks below are searched for it. -/
def restoreKey (readBlock : ℤ → Option CBlock) (nHeight : ℤ)
    (mapEmptiedCollaterals : Std.ExtTreeMap CPubKey COutPoint) (s : MasternodeState)
    (k : CPubKey) : MasternodeState :=
  let R := s.registry
  let prevCollateral :=
    (mapEmptiedCollaterals[k]?.or R.mapMasternodeCollateralOutpoints[k]?).getD COutPoint.null
  let s := { s with registry :=
    { R with
      mapMasternodeLastActiveHeight := R.mapMasternodeLastActiveHeight.erase k
      mapMasternodeCollateralOutpoints := R.mapMasternodeCollateralOutpoints.erase k } }
  ((scanHeights nHeight).tryEach (scanAndRescan E view readBlock nHeight k prevCollateral) s).2

/-- The masternode part of `DisconnectBlock`. -/
def disconnectMasternodes (readBlock : ℤ → Option CBlock) (s : MasternodeState) (block : CBlock)
    (nHeight : ℤ) : MasternodeState :=
  let s := { s with pins := s.pins.unpinBLSPubKeysAtHeight nHeight }
  let a := eraseHeights nHeight s
  let a := block.vtx.foldl (revertPing E nHeight) a
  a.setEmptiedMasternodes.toList.foldl (restoreKey E view readBlock nHeight a.mapEmptiedCollaterals) a.state

end KristaTech.Masternode
