import KristaTech.Validation.Connect
import KristaTech.Validation.Contextual
import KristaTech.Validation.OpenCoins
import KristaTech.Validation.SampleBlocks
import KristaTech.Quorum.Protocol
import KristaTech.Stake.Kernel

/-!
# Signing a proposed block

The handler of a `PROPOSEBLOCK` message in `main.cpp`. A proposed block is checked, relayed and, if
the node holds keys of the quorum, signed; the shares go out to all peers. A block that was proposed
before is only answered with the shares that are at hand.

Most of the checks are about the block alone. `ConnectBlock`, which checks what the block spends and
mints, needs the coins of the block's parent, and the node has those of its tip: it is called if the
parent is the tip, and left out if it is not.
-/

namespace KristaTech

open Masternode Llmq Adam List

/-- `CQuorumSigShareMsg`. -/
structure CQuorumSigShareMsg where
  blockHash : Uint256
  collateralOutpoint : COutPoint
  vchSig : Bytes
  deriving DecidableEq, Repr

/-- The state that connecting a block reads: the chain, the globals and the coins of the tip. -/
structure TipState where
  ctx : ChainContext
  node : NodeState
  pcoinsTip : CCoinsViewCache

/-- The node that receives the message. -/
structure ProposeNode extends TipState where
  E : ValidationEnv
  X : ContextualEnv
  K : StakeParams
  stakeView : StakeView
  /-- `GetNextWorkRequired`. -/
  getNextWorkRequired : CBlockIndex → CBlock → UInt32
  /-- `GetMasternodePrivKey` succeeds. -/
  getMasternodePrivKey : CPubKey → Bool
  /-- `SignBLSWithECDSAFallback` with this key and its BLS key. -/
  signShare : CPubKey → Uint256 → Option Bytes
  now : ℤ

/-- What the handler keeps between messages. -/
structure ProposeState where
  setSeenProposedBlocks : Std.ExtTreeSet Uint256
  mapQuorumBlockSigs : Std.ExtTreeMap Uint256 (Std.ExtTreeMap COutPoint Bytes)
  mapSignedProposalByPrev : SignedProposals

/-- What the handler does besides. -/
structure ProposeReply where
  /-- `Misbehaving` of the sender. -/
  nMisbehaving : ℕ := 0
  /-- The proposal is relayed. -/
  relayed : Bool := false
  /-- The shares that are sent, to the sender of a block seen before, else to all peers. -/
  shares : List CQuorumSigShareMsg := []

/-! ### Checking the proposal -/

/-- A block is connected to the tip without any effect: `ConnectBlock` with a new view and an index
entry made up for the block. -/
def TipState.connects (E : ValidationEnv) (T : TipState) (block : CBlock) (pindexPrev : CBlockIndex) :
    Except ValidationError Unit :=
  (connectBlock E T.ctx T.node block ⟨0, pindexPrev.hash, pindexPrev.nHeight + 1, block.nTime⟩
    (.ofBase { getCoin := T.pcoinsTip.getCoin, hashBlock := T.pcoinsTip.getBestBlock }) {} true true).2.map
      fun _ ↦ ()

namespace ProposeNode

variable (N : ProposeNode) (block : CBlock) (pindexPrev : CBlockIndex)

/-- The coordinator that signed the proposal: the expected one, or once its time is up the fallback
coordinator of the slot. -/
def findCoordinator (expectedCoordinator : CPubKey) : Option CPubKey :=
  let signed := verifyAdamCoordinatorSig N.E N.node.masternodes block
  let nProposalHeight := pindexPrev.nHeight + 1
  let nBlockTimeDiff : ℤ := block.nTime.toNat - pindexPrev.nTime.toNat
  if block.vAdamCoordinatorSig.isEmpty || block.vAdamVRFProof.isEmpty then none
  else if signed expectedCoordinator then some expectedCoordinator
  else if nBlockTimeDiff < adamFallbackCoordinatorTimeoutSecs then none
  else
    let mapBlockSolutions := (minersToVerify block).foldl (fun m sol ↦
      if !sol.1.2.isEmpty && verifyBlockSolution N.E.toActivityEnv block nProposalHeight
        N.node.masternodes.pins sol then m.insert sol.1.1 sol.1.2 else m) (∅ : Std.ExtTreeMap CPubKey Bytes)
    match getAdamFallbackCoordinatorForSlot N.E.crypto N.node.masternodes.pins
      (N.E.getAdamSeed pindexPrev.hash) nProposalHeight nBlockTimeDiff block.vAdamMiners
      mapBlockSolutions with
    | some c =>
      if signed c.activeFallback then some c.activeFallback
      else if signed c.prevFallback then some c.prevFallback else none
    | none => none

/-- The miners and the coordinator: the one who signed, or the penalty. Only version 12 is let
through, so the rules for version 11 that follow in the source are never used. -/
def checkElection : Except ℕ CPubKey :=
  if block.nVersion ≠ 12 then .error 20
  else if !(checkBlockHeader N.E block.toCBlockHeader (!block.isProofOfStake)).isOk then .error 20
  else
    match N.E.selectAdamNodes (some N.pcoinsTip.getCoin) N.node.masternodes
      (N.E.getAdamSeed pindexPrev.hash) (pindexPrev.nHeight + 1) with
    | none => .error 0
    | some (vExpectedMiners, expectedCoordinator) =>
      if block.vAdamMiners ≠ vExpectedMiners ∨
        block.vAdamSolutions.length ≠ vExpectedMiners.length then .error 20
      else
        match N.findCoordinator block pindexPrev expectedCoordinator with
        | none => .error 20
        | some signingCoordinator =>
          if verifyAdamVRFProof N.E N.node.masternodes block signingCoordinator then
            .ok signingCoordinator
          else .error 20

/-- The checks of the block before `ConnectBlock`. A check that fills in no state counts as an error
of the node. -/
def checkProposal : Except ValidationError Unit := do
  let enableP2PKH := N.E.consensus.networkUpgradeActive (pindexPrev.nHeight + 1)
    .UPGRADE_P2PKH_BLOCK_SIGNATURES
  let _ ← checkBlock N.E N.ctx N.node.masternodes block true true false (some N.pcoinsTip)
  if block.nBits ≠ N.getNextWorkRequired pindexPrev block then .error (.error "")
  contextualCheckBlockHeader N.E N.X N.ctx N.node.masternodes.pins block (some pindexPrev)
  contextualCheckBlock N.E N.X N.ctx block (some pindexPrev)
  if block.isProofOfStake ∧ !(checkBlockSignature N.E N.K N.node.masternodes.pins block enableP2PKH &&
      checkProofOfStake N.E N.K N.stakeView block pindexPrev) then .error (.error "")

/-- All checks: `ConnectBlock` is called if the parent is the tip. -/
def validateProposal : Except ValidationError Unit := do
  N.checkProposal block pindexPrev
  if N.ctx.tip.any (·.hash == pindexPrev.hash) then N.connects N.E block pindexPrev

def penalty : ValidationError → ℕ
  | .invalid nDoS _ _ => if 0 < nDoS then nDoS else 10
  | .error _ => 10
  | .thrown => 0

/-! ### Signing -/

def vSigners : List CQuorumMember :=
  (N.E.getActiveQuorum (some N.pcoinsTip.getCoin) N.node.masternodes (pindexPrev.nHeight + 1)
    (some pindexPrev.hash)).members.filter fun member ↦ N.getMasternodePrivKey member.pubKeyMasternode

/-- A share is stored; in a full map, the shares of the least other block make room. -/
def storeShare (sigs : Std.ExtTreeMap Uint256 (Std.ExtTreeMap COutPoint Bytes))
    (share : CQuorumSigShareMsg) : Std.ExtTreeMap Uint256 (Std.ExtTreeMap COutPoint Bytes) :=
  let sigs :=
    if 1000 < sigs.size ∧ !sigs.contains share.blockHash then
      match sigs.keys.head? with
      | some h => sigs.erase h
      | none => sigs
    else sigs
  sigs.insert share.blockHash ((sigs[share.blockHash]?.getD ∅).insert share.collateralOutpoint share.vchSig)

/-- The shares that the node's keys make; one that cannot be made is left out. -/
def makeShares (blockHash : Uint256) (signers : List CQuorumMember) : List CQuorumSigShareMsg :=
  signers.filterMap fun member ↦ (N.signShare member.pubKeyMasternode blockHash).map fun vchSig ↦
    ⟨blockHash, member.collateralOutpoint, vchSig⟩

def cachedShares (S : ProposeState) (blockHash : Uint256) : List CQuorumSigShareMsg :=
  (S.mapQuorumBlockSigs[blockHash]?.getD ∅).toList.map fun sig ↦ ⟨blockHash, sig.1, sig.2⟩

/-- A valid proposal is signed, unless the node holds no key or the guard refuses. -/
def signProposal (S : ProposeState) (signingCoordinator : CPubKey) : ProposeState × ProposeReply :=
  let blockHash := block.getHash N.E.crypto
  let signers := N.vSigners pindexPrev
  if signers.isEmpty then (S, { relayed := true })
  else
    let (allowed, m) := allowQuorumSignature N.now block.hashPrevBlock signingCoordinator blockHash
      S.mapSignedProposalByPrev
    let S := { S with mapSignedProposalByPrev := m }
    if !allowed then (S, { relayed := true })
    else
      let shares := N.makeShares blockHash signers
      ({ S with mapQuorumBlockSigs := shares.foldl storeShare S.mapQuorumBlockSigs },
        { relayed := true, shares := shares })

/-- The handler of `PROPOSEBLOCK`. -/
def proposeBlock (S : ProposeState) : ProposeState × ProposeReply :=
  let blockHash := block.getHash N.E.crypto
  if S.setSeenProposedBlocks.contains blockHash then (S, { shares := cachedShares S blockHash })
  else
    match N.ctx.mapBlockIndex block.hashPrevBlock with
    | none => (S, {})
    | some pindexPrev =>
      match N.checkElection block pindexPrev with
      | .error nMisbehaving => (S, { nMisbehaving := nMisbehaving })
      | .ok signingCoordinator =>
        match N.validateProposal block pindexPrev with
        | .error e => (S, { nMisbehaving := penalty e })
        | .ok () =>
          let S := { S with
            setSeenProposedBlocks := World.rememberProposal S.setSeenProposedBlocks blockHash }
          N.signProposal block pindexPrev S signingCoordinator

/-! ### What a share says -/

def parentIsTip : Bool := N.ctx.tip.any (·.hash == pindexPrev.hash)

/-- There is a share to send, `ConnectBlock` left aside: one at hand for a block seen before; for
another one, it passes the other checks and the node can and may sign it. -/
def hasShare (S : ProposeState) : Bool :=
  let blockHash := block.getHash N.E.crypto
  if S.setSeenProposedBlocks.contains blockHash then !(cachedShares S blockHash).isEmpty
  else
    match N.checkElection block pindexPrev with
    | .error _ => false
    | .ok signingCoordinator =>
      (N.checkProposal block pindexPrev).isOk &&
      (allowQuorumSignature N.now block.hashPrevBlock signingCoordinator blockHash
        S.mapSignedProposalByPrev).1 &&
      !(N.makeShares blockHash (N.vSigners pindexPrev)).isEmpty

section Shares

variable {N block pindexPrev} {S : ProposeState}

theorem shares_signProposal_ne_nil_iff {signingCoordinator : CPubKey} :
    (N.signProposal block pindexPrev S signingCoordinator).2.shares ≠ [] ↔
      (allowQuorumSignature N.now block.hashPrevBlock signingCoordinator (block.getHash N.E.crypto)
        S.mapSignedProposalByPrev).1 = true ∧
      N.makeShares (block.getHash N.E.crypto) (N.vSigners pindexPrev) ≠ [] := by
  rw [signProposal]
  by_cases hsigners : (N.vSigners pindexPrev).isEmpty = true
  · simp [makeShares, isEmpty_iff.1 hsigners]
  · obtain ⟨allowed, m⟩ := allowQuorumSignature N.now block.hashPrevBlock signingCoordinator
      (block.getHash N.E.crypto) S.mapSignedProposalByPrev
    cases allowed <;> simp [hsigners]

/-- `ConnectBlock` is one of the checks if the parent is the tip, and only then. -/
theorem isOk_validateProposal : (N.validateProposal block pindexPrev).isOk =
    ((N.checkProposal block pindexPrev).isOk &&
      (!N.parentIsTip pindexPrev || (N.connects N.E block pindexPrev).isOk)) := by
  rw [validateProposal, parentIsTip]
  cases N.checkProposal block pindexPrev with
  | error e => rfl
  | ok u => cases N.ctx.tip.any (·.hash == pindexPrev.hash) <;> rfl

/-- **When shares are sent.** -/
theorem shares_ne_nil_iff (hparent : N.ctx.mapBlockIndex block.hashPrevBlock = some pindexPrev) :
    (N.proposeBlock block S).2.shares ≠ [] ↔ N.hasShare block pindexPrev S = true ∧
      (S.setSeenProposedBlocks.contains (block.getHash N.E.crypto) = false →
        N.parentIsTip pindexPrev = true → (N.connects N.E block pindexPrev).isOk = true) := by
  simp only [proposeBlock, hasShare, hparent]
  cases S.setSeenProposedBlocks.contains (block.getHash N.E.crypto) with
  | true => simp
  | false =>
    cases N.checkElection block pindexPrev with
    | error e => simp
    | ok signingCoordinator =>
      have hvalid : (N.validateProposal block pindexPrev).isOk = _ := isOk_validateProposal
      cases hresult : N.validateProposal block pindexPrev with
      | error e =>
        rw [hresult, show (Except.error e : Except ValidationError Unit).isOk = false from rfl, eq_comm,
          Bool.and_eq_false_iff, Bool.or_eq_false_iff, Bool.not_eq_false'] at hvalid
        rcases hvalid with hcheck | ⟨htip, hconnects⟩
        · simp [hcheck]
        · simp [htip, hconnects]
      | ok u =>
        rw [hresult, show (Except.ok u : Except ValidationError Unit).isOk = true from rfl, eq_comm,
          Bool.and_eq_true, Bool.or_eq_true, Bool.not_eq_true'] at hvalid
        have hconnects : N.parentIsTip pindexPrev = true →
            (N.connects N.E block pindexPrev).isOk = true := by
          intro htip
          simpa [htip] using hvalid.2
        simp only [Bool.false_eq_true, if_false, shares_signProposal_ne_nil_iff, hvalid.1,
          Bool.true_and, Bool.and_eq_true, Bool.not_eq_true', isEmpty_eq_false_iff]
        exact (and_iff_left fun _ ↦ hconnects).symm

end Shares

end ProposeNode

open ProposeNode

def genesisTipState : TipState where
  ctx := tipContext genesisTip
  node := genesisState.node
  pcoinsTip := sampleView genesisState

def rivalCall : ConnectCall := sampleCall genesisState 1 [mintTx 1 0]

def rivalTipState (G : NodeState) (connected : Connected) : TipState where
  ctx := { tipContext rivalCall.pindex with
    mapBlockIndex := fun hash ↦
      if hash = genesisTip.hash then some genesisTip
      else if hash = rivalCall.pindex.hash then some rivalCall.pindex else none }
  node := G
  pcoinsTip := connected.view

def proposeNode (T : TipState) : ProposeNode where
  toTipState := T
  E := sampleEnv
  X := ⟨fun _ ↦ none, 0, fun _ ↦ 0, fun _ ↦ -1, 15, 0, maxBlockSizeCurrent, fun _ _ ↦ true, none, 100⟩
  K := ⟨3600, 0, 0, 0, 0, fun _ ↦ (false, 0), fun _ _ ↦ none⟩
  stakeView := ⟨T.ctx.mapBlockIndex, fun _ ↦ none, 0, T.pcoinsTip.getCoin, T.node.masternodes,
    T.node.mapAddressBurns, fun _ ↦ none⟩
  getNextWorkRequired _ _ := 0
  getMasternodePrivKey _ := true
  signShare _ _ := some sampleSigned
  now := 0

def mintingProposal : CBlock := sampleBlock genesisTip.hash 2 [mintTx 2 (1000000 * 10 ^ 8)]

theorem not_connects_mintingProposal : genesisTipState.connects sampleEnv mintingProposal genesisTip =
    .error (.invalid 100 "bad-cb-amount" false) := by
  decide

/-- The shares are sent for a member of the quorum whose key the node holds. -/
def SendsOwnShare (N : ProposeNode) (pindexPrev : CBlockIndex) (blockHash : Uint256)
    (shares : List CQuorumSigShareMsg) : Prop :=
  ∃ share ∈ shares, share.blockHash = blockHash ∧
    ∃ member ∈ N.vSigners pindexPrev, share.collateralOutpoint = member.collateralOutpoint

/-- A share of a member whose key the node holds is at hand. -/
def HasOwnShare (N : ProposeNode) (pindexPrev : CBlockIndex) (blockHash : Uint256)
    (S : ProposeState) : Prop :=
  ∃ member ∈ N.vSigners pindexPrev, member.collateralOutpoint ∈ S.mapQuorumBlockSigs[blockHash]?.getD ∅

variable {pindexPrev : CBlockIndex} {blockHash : Uint256}

theorem sendsOwnShare_cachedShares_iff {N : ProposeNode} {S : ProposeState} :
    SendsOwnShare N pindexPrev blockHash (cachedShares S blockHash) ↔
      HasOwnShare N pindexPrev blockHash S := by
  constructor
  · rintro ⟨share, hshare, -, member, hmember, houtpoint⟩
    obtain ⟨⟨outpoint, vchSig⟩, hsig, rfl⟩ := mem_map.1 hshare
    rw [Std.ExtTreeMap.mem_toList_iff_getElem?_eq_some] at hsig
    refine ⟨member, hmember, houtpoint ▸ ?_⟩
    exact Std.ExtTreeMap.mem_iff_isSome_getElem?.2 (hsig ▸ rfl)
  · rintro ⟨member, hmember, hmem⟩
    obtain ⟨vchSig, hsig⟩ := Option.isSome_iff_exists.1 (Std.ExtTreeMap.mem_iff_isSome_getElem?.1 hmem)
    refine ⟨⟨blockHash, member.collateralOutpoint, vchSig⟩, mem_map.2
      ⟨(member.collateralOutpoint, vchSig), ?_, rfl⟩, rfl, member, hmember, rfl⟩
    exact Std.ExtTreeMap.mem_toList_iff_getElem?_eq_some.2 hsig

theorem sendsOwnShare_makeShares {N : ProposeNode} (hsigner : ∃ member ∈ N.vSigners pindexPrev,
      (N.signShare member.pubKeyMasternode blockHash).isSome = true) :
    SendsOwnShare N pindexPrev blockHash (N.makeShares blockHash (N.vSigners pindexPrev)) := by
  obtain ⟨member, hmember, hsign⟩ := hsigner
  obtain ⟨vchSig, hsig⟩ := Option.isSome_iff_exists.1 hsign
  refine ⟨⟨blockHash, member.collateralOutpoint, vchSig⟩, ?_, rfl, member, hmember, rfl⟩
  exact mem_filterMap.2 ⟨member, hmember, by rw [hsig]; rfl⟩

def proposeNodeAt (now : ℤ) : ProposeNode := { proposeNode genesisTipState with now := now }

def firstProposal : CBlock := sampleBlock genesisTip.hash 1 [mintTx 1 0]

def secondProposal : CBlock := sampleBlock genesisTip.hash 2 [mintTx 2 0]

/-- The node is a member of the quorum and can sign. -/
theorem exists_signer_proposeNodeAt (now : ℤ) (blockHash : Uint256) :
    ∃ member ∈ (proposeNodeAt now).vSigners genesisTip,
      ((proposeNodeAt now).signShare member.pubKeyMasternode blockHash).isSome = true :=
  ⟨⟨sampleOutpoint, sampleCoordinator⟩, mem_singleton.2 rfl, rfl⟩

/-- The messages of a node, one after the other, with the node as it is at each. -/
def ProposeNode.runProposals (S : ProposeState) (messages : List (ProposeNode × CBlock)) : ProposeState :=
  messages.foldl (fun S message ↦ (message.1.proposeBlock message.2 S).1) S

/-- The second proposal comes five seconds after the first. -/
def afterRefusal : ProposeState :=
  ProposeNode.runProposals ⟨∅, ∅, ∅⟩ [(proposeNodeAt 0, firstProposal), (proposeNodeAt 5, secondProposal)]

end KristaTech
