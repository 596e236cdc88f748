import KristaTech.Library.Claims
import KristaTech.Library.Shares
import KristaTech.Adam.Election
import KristaTech.Masternode.Collateral

/-!
# The payments of a block

How the reward of a block is divided, by the two functions of `masternode-payments.cpp` that have to
agree on it: `FillBlockPayee` adds the payments to the coinbase or coinstake of a new block, and
`IsBlockPayeeValid` looks for them in a block that is checked. From Model D on, half of the reward
goes to a masternode, a tenth to the members of the quorum and a quarter to the miners with a
solution; before, only the treasury and the faucet are checked.

The validator takes an output for each payment it expects, by destination and amount. What the
producer has built has them all, in whichever order (`isBlockPayeeValid_newBlock`).
-/

namespace KristaTech.Masternode

open Adam Llmq List
open scoped List

/-- What the payments depend on besides the elections. -/
structure PaymentEnv where
  /-- `GetScriptForDestination(DecodeDestination(Params().DeveloperFundAddress()))`. -/
  treasuryScript : CScript
  /-- `GetScriptForDestination(DecodeDestination(Params().BootstrapFaucetAddress()))`. -/
  faucetScript : CScript
  /-- `SPORK_8_MASTERNODE_PAYMENT_ENFORCEMENT`. -/
  fPaymentEnforcement : Bool
  fMasternodePingStateInitialized : Bool
  nMoneySupply : CAmount
  /-- The payee before Model D: voted for (`GetBlockPayee`), or the current masternode. -/
  legacyPayee : ℤ → Option CScript

variable (E : ValidationEnv) (N : PoolParams) (Q : PaymentEnv)

/-! ### The amounts -/

/-- `nBlockValActual`. -/
def blockValActual (nHeight : ℤ) : CAmount := E.consensus.getBlockValue Q.nMoneySupply nHeight

def treasurySplit (nHeight : ℤ) : CAmount :=
  if 1 < nHeight then blockValActual E Q nHeight * 7 / 100 else 0

def faucetSplit (nHeight : ℤ) : CAmount :=
  if 1 < nHeight ∧ nHeight ≤ 50000 then blockValActual E Q nHeight * 7 / 1000 else 0

/-- `nTotalTreasuryFaucet`. -/
def totalTreasuryFaucet (nHeight : ℤ) : CAmount := treasurySplit E Q nHeight + faucetSplit E Q nHeight

/-- `nBlockVal`: what is left for the others. -/
def blockVal (nHeight : ℤ) : CAmount := blockValActual E Q nHeight - totalTreasuryFaucet E Q nHeight

/-- `nMNSplit`. -/
def mnSplit (nHeight : ℤ) : CAmount := blockVal E Q nHeight * 50 / 100

/-- `nLLMQSplitTotal`. -/
def llmqSplitTotal (nHeight : ℤ) : CAmount := blockVal E Q nHeight * 10 / 100

/-- `nPartSplitTotal`. -/
def partSplitTotal (nHeight : ℤ) : CAmount := blockVal E Q nHeight * 25 / 100

/-- `GetMasternodePayment` before Model D. -/
def getMasternodePayment (nHeight : ℤ) : CAmount :=
  if nHeight ≤ 5000 then 0
  else if nHeight ≤ 100000 then blockValActual E Q nHeight * 80 / 100
  else blockValActual E Q nHeight * 60 / 100

/-- An amount in equal parts, with what remains added to the last one. -/
def splitAmong (total : CAmount) (payees : List CScript) : List (CScript × CAmount) :=
  payees.zipIdx.map fun p ↦
    (p.1, total / payees.length + if p.2 = payees.length - 1 then total % payees.length else 0)

/-! ### The payees -/

section Payees

variable (S : ElectionState)

def collateralPayee (view : CoinLookup) (nHeight : ℤ) (o : COutPoint) : Option CScript :=
  (view o).bind fun coin ↦
    if !coin.isSpent && coin.out.nValue == getMasternodeNodeCollateral nHeight then
      some coin.out.scriptPubKey else none

def boundPayee (nHeight : ℤ) (k : CPubKey) : Option CScript :=
  (S.masternodes.registry.mapMasternodeCollateralOutpoints[k]?).bind (collateralPayee S.view nHeight)

/-- `GetModelDPassiveMasternodePayee`: a masternode that the seed picks, or else a key of the
pool. -/
def getModelDPassiveMasternodePayee (nBlockHeight : ℤ) : Option CScript :=
  let seed := (S.seedAt (nBlockHeight - 1)).toNat % 2 ^ 64
  let vActiveMns := ((activeMasternodes E S.view S.masternodes (nBlockHeight - 1)).map
    Prod.swap).insertionSort fun a b ↦ ((compare a.1 b.1).then (compare a.2 b.2)).isLE
  let vOnChainPool := S.getAdamMinerPool (nBlockHeight - 1)
  let fromMns := (vActiveMns[seed % vActiveMns.length]?).bind fun win ↦
    collateralPayee S.view nBlockHeight win.1
  fromMns.or ((vOnChainPool[seed % vOnChainPool.length]?).bind fun winKey ↦
    (boundPayee S nBlockHeight winKey).or
      (if winKey.isValid then some (getScriptForDestination (.keyID (winKey.getID E.crypto)))
      else none))

/-- `vLlmqPayees`. -/
def llmqPayees (nHeight : ℤ) : List CScript :=
  (getActiveQuorum E N S nHeight).members.filterMap fun member ↦
    (collateralPayee S.view nHeight member.collateralOutpoint).or
      (boundPayee S nHeight member.pubKeyMasternode)

/-- `resolveValidatorPayeeScript`. -/
def resolveValidatorPayeeScript (nHeight : ℤ) (minerKey : CPubKey) : CScript :=
  (boundPayee S nHeight minerKey).getD
    (if minerKey.isValid then getScriptForDestination (.keyID (minerKey.getID E.crypto)) else [])

def destination (script : CScript) : Option CTxDestination :=
  extractDestination E.mescalDecompiles E.crypto script

/-- `sameDest`. -/
def sameDest (producerScript minerScript : CScript) : Bool :=
  (destination E producerScript).isSome && destination E producerScript == destination E minerScript

/-- `vPartPayees`: in a proof-of-stake block the producer is not paid again. -/
def partPayees (nHeight : ℤ) (fProofOfStake : Bool) (producerScript : CScript)
    (miners : List CPubKey) : List CScript :=
  let scripts := (miners.map (resolveValidatorPayeeScript E S nHeight)).filter (!·.isEmpty)
  if fProofOfStake then scripts.filter fun script ↦ !sameDest E producerScript script else scripts

/-- `vMiners`. -/
def electedMiners (nHeight : ℤ) : List CPubKey :=
  (selectAdamNodes E S (S.seedAt (nHeight - 1)) nHeight).elim [] Prod.fst

/-- `vEffectivePartMiners`: all elected miners if none has a solution. -/
def effectivePartMiners (nHeight : ℤ) (validMiners : List CPubKey) : List CPubKey :=
  if validMiners.isEmpty then electedMiners E S nHeight else validMiners

/-- The payments from Model D on: to a masternode, the quorum and the miners. -/
def modelDPayments (nHeight : ℤ) (fProofOfStake : Bool) (producerScript payee : CScript)
    (miners : List CPubKey) : List (CScript × CAmount) :=
  (payee, mnSplit E Q nHeight) :: (splitAmong (llmqSplitTotal E Q nHeight) (llmqPayees E N S nHeight) ++
      splitAmong (partSplitTotal E Q nHeight) (partPayees E S nHeight fProofOfStake producerScript miners))

end Payees

/-! ### The producer -/

section Producer

variable (S : ElectionState)

def outputs (payments : List (CScript × CAmount)) : List CTxOut := payments.map fun p ↦ ⟨p.2, p.1⟩

/-- An amount is taken from the outputs of a stake in equal parts, what remains from the last one. -/
def subtractFromStake (total : CAmount) (vout : List CTxOut) : List CTxOut :=
  let n := vout.length - 1
  vout.zipIdx.map fun p ↦
    if p.2 = 0 then p.1
    else { p.1 with
      nValue := p.1.nValue - total / n - if p.2 = n then total - total / n * n else 0 }

def firstOutput (nValue : CAmount) (vout : List CTxOut) : List CTxOut :=
  (vout.take 1).map fun out ↦ { out with nValue := nValue }

def fillWithoutPayee (nHeight : ℤ) (fProofOfStake : Bool) (vout : List CTxOut) : List CTxOut :=
  let total := totalTreasuryFaucet E Q nHeight
  if fProofOfStake then if 2 ≤ vout.length then subtractFromStake total vout else vout
  else firstOutput (blockValActual E Q nHeight - total) vout ++ vout.drop 1

/-- The payments from Model D on. The producer gets what is left. -/
def fillModelD (nHeight : ℤ) (fProofOfStake : Bool) (validMiners : List CPubKey) (payee : CScript)
    (vout : List CTxOut) : List CTxOut :=
  let producerScript := (vout[if fProofOfStake then 1 else 0]?).elim [] (·.scriptPubKey)
  let miners := effectivePartMiners E S nHeight validMiners
  let part := partPayees E S nHeight fProofOfStake producerScript miners
  let totalMasternodePayments := mnSplit E Q nHeight +
    (if (llmqPayees E N S nHeight).isEmpty then 0 else llmqSplitTotal E Q nHeight) +
    (if part.isEmpty then 0 else partSplitTotal E Q nHeight)
  let payments := outputs (modelDPayments E N Q S nHeight fProofOfStake producerScript payee miners)
  if fProofOfStake then
    subtractFromStake (totalMasternodePayments + totalTreasuryFaucet E Q nHeight) vout ++ payments
  else firstOutput (blockVal E Q nHeight - totalMasternodePayments) vout ++ payments

def fillLegacy (nHeight : ℤ) (fProofOfStake : Bool) (payee : CScript) (vout : List CTxOut) : List CTxOut :=
  let masternodePayment := getMasternodePayment E Q nHeight
  let total := masternodePayment + totalTreasuryFaucet E Q nHeight
  let paid : CTxOut := ⟨masternodePayment, payee⟩
  if fProofOfStake then
    (if 2 ≤ vout.length then subtractFromStake total vout else vout) ++ [paid]
  else firstOutput (blockValActual E Q nHeight - total) vout ++ [paid]

def treasuryOutputs (nHeight : ℤ) : List CTxOut :=
  if 1 < nHeight then
    ⟨treasurySplit E Q nHeight, Q.treasuryScript⟩ ::
      if 0 < faucetSplit E Q nHeight then [⟨faucetSplit E Q nHeight, Q.faucetScript⟩] else []
  else []

/-- `FillBlockPayee`, on the outputs of the coinbase or coinstake of the block of a height. -/
def fillBlockPayee (nHeight : ℤ) (fProofOfStake : Bool) (validMiners : List CPubKey)
    (vout : List CTxOut) : List CTxOut :=
  let filled :=
    if E.consensus.isModelDActive nHeight then
      match getModelDPassiveMasternodePayee E S nHeight with
      | some payee => fillModelD E N Q S nHeight fProofOfStake validMiners payee vout
      | none => fillWithoutPayee E Q nHeight fProofOfStake vout
    else
      match Q.legacyPayee nHeight with
      | some payee =>
        if getMasternodePayment E Q nHeight = 0 then fillWithoutPayee E Q nHeight fProofOfStake vout
        else fillLegacy E Q nHeight fProofOfStake payee vout
      | none => fillWithoutPayee E Q nHeight fProofOfStake vout
  filled ++ treasuryOutputs E Q nHeight

/-- The outputs of a new coinbase: `CreateCoinbaseTx`, and the fees of `CreateNewBlock`. -/
def coinbaseOutputs (nHeight : ℤ) (validMiners : List CPubKey) (scriptPubKeyIn : CScript)
    (nFees : CAmount) : List CTxOut :=
  let vout := fillBlockPayee E N Q S nHeight false validMiners [⟨-1, scriptPubKeyIn⟩]
  let vout := if vout.length = 1 then firstOutput (blockValActual E Q nHeight) vout else vout
  vout.modifyHead fun out ↦ { out with nValue := out.nValue + nFees }

end Producer

/-! ### The validator -/

section Validator

variable (S : ElectionState)

/-- The verified solutions of a block: the miners at whose place there is one. -/
def solvedBy (block : CBlockHeader) (nHeight : ℤ) (vMiners : List CPubKey) : List CPubKey :=
  ((vMiners.zip block.vAdamSolutions).zipIdx.filter fun p ↦
    !p.1.2.isEmpty && E.verifyAdamSolution S.masternodes.pins block.hashPrevBlock
      (S.seedAt (nHeight - 1)) p.1.1 p.1.2 block.nBits block.nVersion nHeight p.2).map (·.1.1)

/-- The outputs, with those of the producer marked as used: the first of a coinbase; of a coinstake
the second, and the following ones with its script and more than a whole reward. -/
def outputCells (fCoinStake : Bool) (nBlockValActual : CAmount) (vout : List CTxOut) :
    List (Bool × CTxOut) :=
  match fCoinStake, vout with
  | false, out :: vout => (true, out) :: vout.map (false, ·)
  | true, out :: producer :: vout =>
    let isSplit (out : CTxOut) : Bool :=
      out.scriptPubKey == producer.scriptPubKey && nBlockValActual < out.nValue
    (false, out) :: (true, producer) ::
      ((vout.takeWhile isSplit).map (true, ·) ++ (vout.dropWhile isSplit).map (false, ·))
  | _, vout => vout.map (false, ·)

def label (payment : CScript × CAmount) : Option CTxDestination × CAmount :=
  (destination E payment.1, payment.2)

/-- Every payment finds an output of its own, if it has a destination. -/
def paymentsFound (cells : List (Bool × CTxOut)) (payments : List (CScript × CAmount)) : Bool :=
  payments.all (fun p ↦ (destination E p.1).isSome) && ((payments.map (label E)).claimAll
      (cells.map fun cell ↦ (cell.1, label E (cell.2.scriptPubKey, cell.2.nValue)))).isSome

/-- The payments that a block has to make from Model D on. -/
def requiredPayments (block : CBlock) (txNew : CTransaction) (nHeight : ℤ) : List (CScript × CAmount) :=
  let producerScript := (txNew.vout[if txNew.isCoinStake then 1 else 0]?).elim [] (·.scriptPubKey)
  let miners := effectivePartMiners E S nHeight
    (solvedBy E S block.toCBlockHeader nHeight (electedMiners E S nHeight))
  let part := splitAmong (partSplitTotal E Q nHeight)
    (partPayees E S nHeight txNew.isCoinStake producerScript miners)
  match getModelDPassiveMasternodePayee E S nHeight with
  | some payee =>
    modelDPayments E N Q S nHeight txNew.isCoinStake producerScript payee miners
  | none => splitAmong (llmqSplitTotal E Q nHeight) (llmqPayees E N S nHeight) ++ part

def treasuryPaid (txNew : CTransaction) (nHeight : ℤ) : Bool :=
  txNew.vout.any (· == ⟨treasurySplit E Q nHeight, Q.treasuryScript⟩) &&
    (!decide (0 < faucetSplit E Q nHeight) ||
      txNew.vout.any (· == ⟨faucetSplit E Q nHeight, Q.faucetScript⟩))

/-- `IsBlockPayeeValid`, in the state of the block's parent; none if that is not in the index. -/
def isBlockPayeeValid (S : Option ElectionState) (block : CBlock) (nBlockHeight : ℤ) : Bool :=
  match block.vtx[if block.isProofOfStake then 1 else 0]? with
  | none => !decide (1 < nBlockHeight) && !E.consensus.isModelDActive nBlockHeight
  | some txNew =>
    (!decide (1 < nBlockHeight) || treasuryPaid E Q txNew nBlockHeight) &&
      (!E.consensus.isModelDActive nBlockHeight || !Q.fPaymentEnforcement ||
        !(Q.fMasternodePingStateInitialized || E.consensus.isRegTestNet) ||
        match S with
        | none => false
        | some S =>
          paymentsFound E (outputCells txNew.isCoinStake (blockValActual E Q nBlockHeight) txNew.vout)
            (requiredPayments E N Q S block txNew nBlockHeight))

end Validator

/-! ### Payments have a destination -/

/-- The state that rewards are paid in. Its masternodes result from a run of the node, on coins that
are the outputs their outpoints name. -/
structure PaymentState extends ElectionState where
  outs : COutPoint → CTxOut
  nTip : ℤ
  reachable : ReachableOn outs masternodes nTip
  agrees : view.Agrees outs
  /-- No transaction has the hash of a key as its id. -/
  view_madeUp : ∀ (k : CPubKey) n, view ⟨E.crypto.hash k.bytes, n⟩ = none

section Destinations

variable {E N Q} {S : PaymentState E} {nHeight : ℤ} {script : CScript}

theorem isSome_destination_keyID (id : Uint160) :
    (destination E (getScriptForDestination (.keyID id))).isSome := by
  rw [destination, extractDestination_keyID]
  rfl

theorem isSome_destination_of_paysToKey {out : CTxOut} (h : PaysToKey out) :
    (destination E out.scriptPubKey).isSome := by
  obtain ⟨id, hid⟩ := h
  rw [hid]
  exact isSome_destination_keyID id

theorem exists_coin_of_collateralPayee {view : CoinLookup} {o : COutPoint}
    (h : collateralPayee view nHeight o = some script) :
    ∃ coin, view o = some coin ∧ coin.isSpent = false ∧ coin.out.scriptPubKey = script := by
  obtain ⟨coin, hcoin, h⟩ := Option.bind_eq_some_iff.1 h
  split_ifs at h with hunspent
  simp only [Bool.and_eq_true, Bool.not_eq_true'] at hunspent
  exact ⟨coin, hcoin, hunspent.1, Option.some.inj h⟩

theorem isSome_destination_of_boundPayee {k : CPubKey}
    (h : boundPayee S.toElectionState nHeight k = some script) : (destination E script).isSome := by
  obtain ⟨o, ho, hpayee⟩ := Option.bind_eq_some_iff.1 h
  obtain ⟨coin, hcoin, hspent, rfl⟩ := exists_coin_of_collateralPayee hpayee
  rw [S.agrees o coin hcoin hspent]
  exact isSome_destination_of_paysToKey (S.reachable.boundToKeys k o ho)

theorem isSome_destination_of_mem_activeMasternodes {k : CPubKey} {o : COutPoint} {refHeight : ℤ}
    (hmem : (k, o) ∈ activeMasternodes E S.view S.masternodes refHeight)
    (h : collateralPayee S.view nHeight o = some script) : (destination E script).isSome := by
  obtain ⟨coin, hcoin, -, rfl⟩ := exists_coin_of_collateralPayee h
  obtain ⟨coin', hcoin', -, hpays⟩ := exists_coin_of_isValid (mem_activeMasternodes hmem).2
  obtain rfl : coin' = coin := Option.some.inj (hcoin'.symm.trans hcoin)
  exact isSome_destination_of_paysToKey hpays

theorem isSome_destination_of_passivePayee
    (h : getModelDPassiveMasternodePayee E S.toElectionState nHeight = some script) :
    (destination E script).isSome := by
  rcases Option.or_eq_some_iff.1 h with h | ⟨-, h⟩
  · obtain ⟨win, hwin, hpayee⟩ := Option.bind_eq_some_iff.1 h
    have hmem := (perm_insertionSort _ _).mem_iff.1 (mem_of_getElem? hwin)
    obtain ⟨kv, hkv, rfl⟩ := mem_map.1 hmem
    exact isSome_destination_of_mem_activeMasternodes hkv hpayee
  · obtain ⟨winKey, -, hpayee⟩ := Option.bind_eq_some_iff.1 h
    rcases Option.or_eq_some_iff.1 hpayee with hbound | ⟨-, hkey⟩
    · exact isSome_destination_of_boundPayee hbound
    · split_ifs at hkey
      obtain rfl := Option.some.inj hkey
      exact isSome_destination_keyID _

theorem isSome_destination_of_mem_llmqPayees (h : script ∈ llmqPayees E N S.toElectionState nHeight) :
    (destination E script).isSome := by
  obtain ⟨member, hmember, hpayee⟩ := mem_filterMap.1 h
  rcases Option.or_eq_some_iff.1 hpayee with hcollateral | ⟨-, hbound⟩
  · rcases mem_electQuorumMembers hmember with hmem | ⟨k, -, n, rfl⟩
    · exact isSome_destination_of_mem_activeMasternodes hmem hcollateral
    · -- nothing is paid to a collateral that is made up
      obtain ⟨coin, hcoin, -⟩ := exists_coin_of_collateralPayee hcollateral
      rw [S.view_madeUp] at hcoin
      cases hcoin
  · exact isSome_destination_of_boundPayee hbound

variable {fProofOfStake : Bool} {producerScript : CScript} {miners : List CPubKey} {p : CScript × CAmount}

theorem isSome_destination_of_mem_partPayees
    (h : script ∈ partPayees E S.toElectionState nHeight fProofOfStake producerScript miners) :
    (destination E script).isSome := by
  have hmem : script ∈ (miners.map
      (resolveValidatorPayeeScript E S.toElectionState nHeight)).filter (!·.isEmpty) := by
    rw [partPayees] at h
    split_ifs at h
    · exact mem_of_mem_filter h
    · exact h
  obtain ⟨hscript, hempty⟩ := mem_filter.1 hmem
  obtain ⟨k, -, rfl⟩ := mem_map.1 hscript
  rw [resolveValidatorPayeeScript] at hempty ⊢
  cases hbound : boundPayee S.toElectionState nHeight k with
  | some script => exact isSome_destination_of_boundPayee hbound
  | none =>
    rw [hbound, Option.getD_none] at hempty
    rw [Option.getD_none]
    split_ifs at hempty ⊢
    · exact isSome_destination_keyID _
    · cases hempty

theorem mem_of_mem_splitAmong {total : CAmount} {payees : List CScript}
    (h : p ∈ splitAmong total payees) : p.1 ∈ payees := by
  obtain ⟨q, hq, rfl⟩ := mem_map.1 h
  exact (mem_zipIdx hq).2.2 ▸ getElem_mem _

theorem isSome_destination_of_mem_modelDPayments {payee : CScript}
    (hpayee : getModelDPassiveMasternodePayee E S.toElectionState nHeight = some payee)
    (hp : p ∈ modelDPayments E N Q S.toElectionState nHeight fProofOfStake producerScript payee
      miners) : (destination E p.1).isSome := by
  rcases mem_cons.1 hp with rfl | hp
  · exact isSome_destination_of_passivePayee hpayee
  · rcases mem_append.1 hp with hp | hp
    · exact isSome_destination_of_mem_llmqPayees (mem_of_mem_splitAmong hp)
    · exact isSome_destination_of_mem_partPayees (mem_of_mem_splitAmong hp)

theorem exists_passivePayee {S : ElectionState} (h : electedMiners E S nHeight ≠ []) :
    ∃ payee, getModelDPassiveMasternodePayee E S nHeight = some payee := by
  obtain ⟨k, hk⟩ := exists_mem_of_ne_nil _ h
  rw [electedMiners] at hk
  cases hselect : selectAdamNodes E S (S.seedAt (nHeight - 1)) nHeight with
  | none => simp [hselect] at hk
  | some elected =>
    rw [hselect] at hk
    have hpool := mem_minerPool_of_selectAdamNodes hselect hk
    set pool := S.getAdamMinerPool (nHeight - 1) with hpool_eq
    have hlt : (S.seedAt (nHeight - 1)).toNat % 2 ^ 64 % pool.length < pool.length :=
      Nat.mod_lt _ (length_pos_of_mem hpool)
    have hvalid := S.isValid_minerPool (nHeight - 1) _ (getElem_mem hlt)
    rw [← Option.isSome_iff_exists, getModelDPassiveMasternodePayee, Option.isSome_or,
      ← hpool_eq, getElem?_eq_getElem hlt, Option.bind_some, Option.isSome_or, if_pos hvalid]
    simp

end Destinations

/-! ### What the producer builds -/

section Built

variable {E N Q} {S : ElectionState}

/-- The payments to others than the producer, the treasury and the faucet. -/
def paidOutputs (E : ValidationEnv) (N : PoolParams) (Q : PaymentEnv) (S : ElectionState)
    (nHeight : ℤ) (fProofOfStake : Bool) (validMiners : List CPubKey) (producerScript : CScript) :
    List CTxOut :=
  if E.consensus.isModelDActive nHeight then
    match getModelDPassiveMasternodePayee E S nHeight with
    | some payee => outputs (modelDPayments E N Q S nHeight fProofOfStake producerScript payee
        (effectivePartMiners E S nHeight validMiners))
    | none => []
  else
    match Q.legacyPayee nHeight with
    | some payee =>
      if getMasternodePayment E Q nHeight = 0 then []
      else [⟨getMasternodePayment E Q nHeight, payee⟩]
    | none => []

theorem coinbaseOutputs_eq (nHeight : ℤ) (validMiners : List CPubKey) (scriptPubKeyIn : CScript)
    (nFees : CAmount) :
    ∃ nValue, coinbaseOutputs E N Q S nHeight validMiners scriptPubKeyIn nFees = ⟨nValue, scriptPubKeyIn⟩ ::
        (paidOutputs E N Q S nHeight false validMiners scriptPubKeyIn ++ treasuryOutputs E Q nHeight) := by
  have hfill : ∃ nValue, fillBlockPayee E N Q S nHeight false validMiners [⟨-1, scriptPubKeyIn⟩] =
      ⟨nValue, scriptPubKeyIn⟩ :: (paidOutputs E N Q S nHeight false validMiners scriptPubKeyIn ++
          treasuryOutputs E Q nHeight) := by
    simp only [fillBlockPayee, paidOutputs]
    split
    · split <;> exact ⟨_, rfl⟩
    · split
      · split_ifs <;> exact ⟨_, rfl⟩
      · exact ⟨_, rfl⟩
  obtain ⟨nValue, hfill⟩ := hfill
  simp only [coinbaseOutputs, hfill]
  split_ifs with hlength
  · -- nobody else is paid
    rw [length_cons, Nat.add_eq_right, length_eq_zero_iff] at hlength
    rw [hlength]
    exact ⟨_, rfl⟩
  · exact ⟨_, rfl⟩

theorem map_scriptPubKey_subtractFromStake (total : CAmount) (vout : List CTxOut) :
    (subtractFromStake total vout).map (·.scriptPubKey) = vout.map (·.scriptPubKey) := by
  have hmap : (subtractFromStake total vout).map (·.scriptPubKey) =
      vout.zipIdx.map fun p ↦ p.1.scriptPubKey := by
    rw [subtractFromStake, map_map]
    refine map_congr_left fun p _ ↦ ?_
    simp only [Function.comp]
    split_ifs <;> rfl
  rw [hmap, ← Function.comp_def, ← map_map, zipIdx_map_fst]

theorem fillBlockPayee_coinstake (nHeight : ℤ) (validMiners : List CPubKey)
    (first producer : CTxOut) (vout : List CTxOut) :
    ∃ own, own.map (·.scriptPubKey) = (first :: producer :: vout).map (·.scriptPubKey) ∧
      fillBlockPayee E N Q S nHeight true validMiners (first :: producer :: vout) =
        own ++ (paidOutputs E N Q S nHeight true validMiners producer.scriptPubKey ++
          treasuryOutputs E Q nHeight) := by
  have hlength : 2 ≤ (first :: producer :: vout).length := by simp
  have hnone : fillWithoutPayee E Q nHeight true (first :: producer :: vout) =
      subtractFromStake (totalTreasuryFaucet E Q nHeight) (first :: producer :: vout) ++ [] := by
    rw [fillWithoutPayee, if_pos rfl, if_pos hlength, append_nil]
  have hown (total : CAmount) := map_scriptPubKey_subtractFromStake total (first :: producer :: vout)
  simp only [fillBlockPayee, paidOutputs, ← append_assoc, hnone]
  split
  · split <;> exact ⟨_, hown _, rfl⟩
  · split
    · split_ifs
      · exact ⟨_, hown _, rfl⟩
      · rw [fillLegacy, if_pos rfl, if_pos hlength]
        exact ⟨_, hown _, rfl⟩
    · exact ⟨_, hown _, rfl⟩

end Built

/-! ### The producer and the validator agree -/

section Agreement

variable {E N Q} {nHeight : ℤ}

theorem blockVal_range : 0 ≤ blockVal E Q nHeight ∧ blockVal E Q nHeight ≤ blockValActual E Q nHeight := by
  have hrest (v t f : ℤ) (hv : 0 ≤ v) (ht : t = v * 7 / 100 ∨ t = 0) (hf : f = v * 7 / 1000 ∨ f = 0) :
      0 ≤ v - (t + f) ∧ v - (t + f) ≤ v := by
    have hpos : 0 ≤ v * 7 / 100 ∧ 0 ≤ v * 7 / 1000 := by omega
    omega
  exact hrest _ _ _ (E.consensus.getBlockValue_nonneg _ _) (ite_eq_or_eq _ _ _) (ite_eq_or_eq _ _ _)

theorem mnSplit_le : mnSplit E Q nHeight ≤ blockValActual E Q nHeight := by
  have hhalf (v w : ℤ) (h : 0 ≤ v ∧ v ≤ w) : v * 50 / 100 ≤ w := by omega
  exact hhalf _ _ blockVal_range

theorem treasuryPaid_of_subset {txNew : CTransaction} (hheight : 1 < nHeight)
    (h : treasuryOutputs E Q nHeight ⊆ txNew.vout) : treasuryPaid E Q txNew nHeight = true := by
  rw [treasuryOutputs, if_pos hheight] at h
  rw [treasuryPaid, Bool.and_eq_true, any_eq_true]
  refine ⟨⟨_, h mem_cons_self, by simp⟩, ?_⟩
  by_cases hfaucet : 0 < faucetSplit E Q nHeight
  · rw [if_pos hfaucet] at h
    rw [Bool.or_eq_true, any_eq_true]
    exact Or.inr ⟨_, h (mem_cons_of_mem _ mem_cons_self), by simp⟩
  · simp [hfaucet]

theorem paymentsFound_of_sublist {cells : List (Bool × CTxOut)} {payments : List (CScript × CAmount)}
    (hdest : ∀ p ∈ payments, (destination E p.1).isSome)
    (h : outputs payments <+ cells.unused) : paymentsFound E cells payments = true := by
  have hlabels : payments.map (label E) =
      (outputs payments).map fun out ↦ label E (out.scriptPubKey, out.nValue) := by
    simp [outputs]
  rw [paymentsFound, Bool.and_eq_true, all_eq_true]
  refine ⟨hdest, isSome_claimAll ?_⟩
  rw [unused_map (fun out : CTxOut ↦ label E (out.scriptPubKey, out.nValue)), hlabels]
  exact (h.map _).subperm

theorem unused_outputCells_coinbase (nBlockValActual : CAmount) (producer : CTxOut) (vout : List CTxOut) :
    (outputCells false nBlockValActual (producer :: vout)).unused = vout := by
  rw [outputCells, unused_cons_true, unused_map_false]

theorem exists_cons_cons {α : Type*} {l : List α} (h : 2 ≤ l.length) : ∃ a b l', l = a :: b :: l' := by
  obtain ⟨a, l, rfl⟩ := exists_cons_of_length_pos (Nat.zero_lt_of_lt h)
  obtain ⟨b, l, rfl⟩ := exists_cons_of_length_pos (Nat.lt_of_succ_lt_succ h)
  exact ⟨a, b, l, rfl⟩

theorem sublist_unused_outputCells_coinstake {nBlockValActual : CAmount} {own vout : List CTxOut}
    {paid : CTxOut} (hown : 2 ≤ own.length) (hpaid : paid.nValue ≤ nBlockValActual) :
    paid :: vout <+ (outputCells true nBlockValActual (own ++ paid :: vout)).unused := by
  obtain ⟨first, producer, own, rfl⟩ := exists_cons_cons hown
  simp only [cons_append, outputCells, unused_cons_false, unused_cons_true,
    unused_append, unused_map_true, unused_map_false, nil_append]
  refine List.Sublist.cons _ (suffix_dropWhile ?_ own vout).sublist
  simp [not_lt.2 hpaid]

theorem not_isCoinStake_of_isCoinBase {tx : CTransaction} (h : tx.isCoinBase = true) :
    tx.isCoinStake = false := by
  rw [CTransaction.isCoinBase, Bool.and_eq_true, all_eq_true] at h
  rw [CTransaction.isCoinStake]
  cases hvin : tx.vin with
  | nil => rfl
  | cons txin vin => simp [h.2 txin (hvin ▸ mem_cons_self)]

variable (E N Q) in
/-- The block pays its rewards as `FillBlockPayee` and `CreateNewBlock` write them, to the miners
whose solutions it carries. -/
inductive Rewarded (S : ElectionState) (nHeight : ℤ) (block : CBlock) : Prop
  | proofOfWork (tx : CTransaction) (scriptPubKeyIn : CScript) (nFees : CAmount)
    (hpow : block.isProofOfStake = false) (htx : block.vtx[0]? = some tx)
    (hcoinbase : tx.isCoinBase = true)
    (hvout : tx.vout = coinbaseOutputs E N Q S nHeight
      (solvedBy E S block.toCBlockHeader nHeight (electedMiners E S nHeight)) scriptPubKeyIn nFees)
  | proofOfStake (tx : CTransaction) (first producer : CTxOut) (vout : List CTxOut)
    (hpos : block.isProofOfStake = true) (htx : block.vtx[1]? = some tx)
    (hvout : tx.vout = fillBlockPayee E N Q S nHeight true
      (solvedBy E S block.toCBlockHeader nHeight (electedMiners E S nHeight))
      (first :: producer :: vout))

theorem Rewarded.exists_tx {S : ElectionState} {block : CBlock} (h : Rewarded E N Q S nHeight block) :
    ∃ tx own producer, block.vtx[if block.isProofOfStake then 1 else 0]? = some tx ∧
      tx.isCoinStake = block.isProofOfStake ∧
      own[if tx.isCoinStake then 1 else 0]? = some producer ∧
      (tx.isCoinStake = false → own = [producer]) ∧
      tx.vout = own ++ (paidOutputs E N Q S nHeight tx.isCoinStake
        (solvedBy E S block.toCBlockHeader nHeight (electedMiners E S nHeight))
        producer.scriptPubKey ++ treasuryOutputs E Q nHeight) := by
  cases h with
  | proofOfWork tx scriptPubKeyIn nFees hpow htx hcoinbase hvout =>
    obtain ⟨nValue, heq⟩ := coinbaseOutputs_eq nHeight _ scriptPubKeyIn nFees
    have hstake := not_isCoinStake_of_isCoinBase hcoinbase
    refine ⟨tx, [⟨nValue, scriptPubKeyIn⟩], ⟨nValue, scriptPubKeyIn⟩, ?_, ?_, ?_, fun _ ↦ rfl, ?_⟩
    · rw [hpow]
      exact htx
    · rw [hstake, hpow]
    · rw [hstake]
      rfl
    · rw [hstake, hvout]
      exact heq
  | proofOfStake tx first producer vout hpos htx hvout =>
    obtain ⟨own, hown, heq⟩ := fillBlockPayee_coinstake nHeight _ first producer vout
    have hstake : tx.isCoinStake = true := by
      simpa [CBlock.isProofOfStake, htx] using hpos
    have hlength := congrArg length hown
    rw [length_map, length_map, length_cons, length_cons] at hlength
    obtain ⟨first', producer', own, rfl⟩ := exists_cons_cons (show 2 ≤ own.length by omega)
    have hscript : producer'.scriptPubKey = producer.scriptPubKey := by
      simp only [map_cons, List.cons.injEq] at hown
      exact hown.2.1
    refine ⟨tx, first' :: producer' :: own, producer', ?_, ?_, ?_, ?_, ?_⟩
    · rw [hpos]
      exact htx
    · rw [hstake, hpos]
    · rw [hstake]
      rfl
    · rw [hstake]
      exact fun h ↦ nomatch h
    · rw [hstake, hscript, hvout]
      exact heq

/-- **The producer and the validator agree on the rewards.** Before Model D nothing else is needed;
from then on there have to be elected miners, whichever of their solutions the block carries. -/
theorem isBlockPayeeValid_newBlock (S : PaymentState E) (block : CBlock) (nHeight : ℤ)
    (hminers : E.consensus.isModelDActive nHeight = true → electedMiners E S.toElectionState nHeight ≠ [])
    (h : Rewarded E N Q S.toElectionState nHeight block) :
    isBlockPayeeValid E N Q (some S.toElectionState) block nHeight = true := by
  obtain ⟨tx, own, producer, htx, -, hproducer, hcoinbase, hvout⟩ := h.exists_tx
  have htreasury : treasuryOutputs E Q nHeight ⊆ tx.vout := by
    rw [hvout]
    exact subset_append_of_subset_right _ (subset_append_right _ _)
  rw [isBlockPayeeValid, htx]
  simp only [Bool.and_eq_true, Bool.or_eq_true, Bool.not_eq_true', decide_eq_false_iff_not]
  refine ⟨or_iff_not_imp_left.2 fun hheight ↦
    treasuryPaid_of_subset (not_not.1 hheight) htreasury, ?_⟩
  cases hmodelD : E.consensus.isModelDActive nHeight with
  | false => exact Or.inl (Or.inl (Or.inl rfl))
  | true =>
    obtain ⟨payee, hpayee⟩ := exists_passivePayee (hminers hmodelD)
    have hget : tx.vout[if tx.isCoinStake then 1 else 0]? = some producer := by
      rw [hvout, List.getElem?_append_left (List.getElem?_eq_some_iff.1 hproducer).1]
      exact hproducer
    -- the validator expects what the producer has written
    have hrequired : requiredPayments E N Q S.toElectionState block tx nHeight =
        modelDPayments E N Q S.toElectionState nHeight tx.isCoinStake producer.scriptPubKey payee
          (effectivePartMiners E S.toElectionState nHeight (solvedBy E S.toElectionState
            block.toCBlockHeader nHeight (electedMiners E S.toElectionState nHeight))) := by
      simp only [requiredPayments, hget, hpayee, Option.elim_some]
    simp only [paidOutputs, hmodelD, if_true, hpayee, ← hrequired] at hvout
    refine Or.inr (paymentsFound_of_sublist ?_ ?_)
    · rw [hrequired]
      exact fun p hp ↦ isSome_destination_of_mem_modelDPayments hpayee hp
    · cases hstake : tx.isCoinStake with
      | false =>
        rw [hvout, hcoinbase hstake, singleton_append, unused_outputCells_coinbase]
        exact sublist_append_left _ _
      | true =>
        have hown : 2 ≤ own.length := by
          rw [hstake] at hproducer
          exact (List.getElem?_eq_some_iff.1 hproducer).1
        rw [hvout]
        refine (sublist_append_left _ (treasuryOutputs E Q nHeight)).trans ?_
        rw [hrequired]
        exact sublist_unused_outputCells_coinstake hown mnSplit_le

def solvingEnv : ValidationEnv :=
  { (default : ValidationEnv) with verifyAdamSolution := fun _ _ _ _ _ _ _ _ _ ↦ true }

def samplePaymentEnv : PaymentEnv where
  treasuryScript := getScriptForDestination (.keyID 1)
  faucetScript := getScriptForDestination (.keyID 2)
  fPaymentEnforcement := true
  fMasternodePingStateInitialized := true
  nMoneySupply := 0
  legacyPayee := fun _ ↦ none

def samplePaymentState : PaymentState solvingEnv where
  view := fun _ ↦ none
  masternodes := ⟨.empty, .empty, ∅⟩
  getAdamMinerPool := fun _ ↦ [1, 2, 3, 4, 5, 6, 7].map minedKey
  seedAt := fun _ ↦ 1
  isValid_minerPool := fun _ ↦ by decide
  nodup_minerPool := fun _ ↦ by decide
  outs := fun _ ↦ ⟨0, []⟩
  nTip := 0
  reachable := .start
  agrees := nofun
  view_madeUp := fun _ _ ↦ rfl

def sampleHeader (vAdamSolutions : List Bytes) : CBlockHeader where
  nVersion := 12
  hashPrevBlock := 0
  hashMerkleRoot := 0
  nTime := 0
  nBits := 0
  nNonce := 0
  vAdamSolutions := vAdamSolutions

/-- A block of height 2200 with the solutions of five miners pays its rewards. -/
def sampleRewardBlock : CBlock :=
  { sampleHeader [[1], [], [1], [1], [], [1], [1]] with
    vtx := [{
      nVersion := 1
      vin := [⟨.null, [1], sequenceFinal⟩]
      vout := coinbaseOutputs solvingEnv mainPoolParams samplePaymentEnv
        samplePaymentState.toElectionState 2200
        (solvedBy solvingEnv samplePaymentState.toElectionState
          (sampleHeader [[1], [], [1], [1], [], [1], [1]]) 2200
          (electedMiners solvingEnv samplePaymentState.toElectionState 2200)) [1] 500
      nLockTime := 0 }] }

theorem isBlockPayeeValid_sampleRewardBlock : isBlockPayeeValid solvingEnv mainPoolParams samplePaymentEnv
      (some samplePaymentState.toElectionState) sampleRewardBlock 2200 = true := by
  have hminers : electedMiners solvingEnv samplePaymentState.toElectionState 2200 ≠ [] := by
    decide +kernel
  refine isBlockPayeeValid_newBlock samplePaymentState sampleRewardBlock 2200 (fun _ ↦ hminers) ?_
  have hheader : sampleRewardBlock.toCBlockHeader = sampleHeader [[1], [], [1], [1], [], [1], [1]] := rfl
  refine .proofOfWork _ [1] 500 rfl rfl rfl ?_
  rw [hheader]

end Agreement

/-! ### What a miner is paid for its solution -/

section Shares

variable (S : ElectionState)

/-- The miners among whom their part of the reward is divided. -/
def paidMiners (nHeight : ℤ) (fProofOfStake : Bool) (producerScript : CScript)
    (header : CBlockHeader) : List CPubKey :=
  let miners := effectivePartMiners E S nHeight (solvedBy E S header nHeight (electedMiners E S nHeight))
  miners.filter fun k ↦
    let script := resolveValidatorPayeeScript E S nHeight k
    !script.isEmpty && !(fProofOfStake && sameDest E producerScript script)

/-- What a block with this header has to pay to a miner, as one of those with a solution. -/
def requiredFor (nHeight : ℤ) (fProofOfStake : Bool) (producerScript : CScript)
    (header : CBlockHeader) (k : CPubKey) : CAmount :=
  if E.consensus.isModelDActive nHeight then
    let payments := splitAmong (partSplitTotal E Q nHeight)
      (partPayees E S nHeight fProofOfStake producerScript (effectivePartMiners E S nHeight
        (solvedBy E S header nHeight (electedMiners E S nHeight))))
    ((((paidMiners E S nHeight fProofOfStake producerScript header).zip payments).filter
      fun p ↦ p.1 = k).map fun p ↦ p.2.2).sum
  else 0

variable {E N Q S} {nHeight : ℤ} {fProofOfStake : Bool} {producerScript : CScript}

theorem partPayees_eq_map (header : CBlockHeader) :
    partPayees E S nHeight fProofOfStake producerScript (effectivePartMiners E S nHeight
        (solvedBy E S header nHeight (electedMiners E S nHeight))) =
      (paidMiners E S nHeight fProofOfStake producerScript header).map
        (resolveValidatorPayeeScript E S nHeight) := by
  simp only [partPayees, paidMiners, filter_map]
  cases fProofOfStake with
  | false => simp [Function.comp_def]
  | true => simp [Function.comp_def, filter_filter, Bool.and_comm]

theorem solvedBy_sublist (header : CBlockHeader) (vMiners : List CPubKey) :
    solvedBy E S header nHeight vMiners <+ vMiners := by
  have hzip (solutions : List Bytes) : (vMiners.zip solutions).map Prod.fst <+ vMiners := by
    induction vMiners generalizing solutions with
    | nil => exact List.Sublist.slnil
    | cons k vMiners ih =>
      cases solutions with
      | nil => exact nil_sublist _
      | cons solution solutions => exact (ih solutions).cons_cons k
  have hsub := hzip header.vAdamSolutions
  rw [← zipIdx_map_fst 0 (vMiners.zip header.vAdamSolutions), map_map] at hsub
  exact (filter_sublist.map _).trans hsub

theorem paidMiners_sublist (header : CBlockHeader) :
    paidMiners E S nHeight fProofOfStake producerScript header <+ electedMiners E S nHeight := by
  refine filter_sublist.trans ?_
  rw [effectivePartMiners]
  split_ifs
  · exact List.Sublist.refl _
  · exact solvedBy_sublist header _

theorem nodup_electedMiners : (electedMiners E S nHeight).Nodup := by
  rw [electedMiners]
  cases hselect : selectAdamNodes E S (S.seedAt (nHeight - 1)) nHeight with
  | none => exact nodup_nil
  | some elected => exact nodup_of_selectAdamNodes hselect

theorem nodup_paidMiners (header : CBlockHeader) :
    (paidMiners E S nHeight fProofOfStake producerScript header).Nodup :=
  nodup_electedMiners.sublist (paidMiners_sublist header)

theorem requiredFor_eq_share (hmodelD : E.consensus.isModelDActive nHeight = true)
    (header : CBlockHeader) (k : CPubKey) :
    requiredFor E Q S nHeight fProofOfStake producerScript header k =
      (paidMiners E S nHeight fProofOfStake producerScript header).share
        (partSplitTotal E Q nHeight) k := by
  rw [← sum_parts_eq_share (nodup_paidMiners header), requiredFor, if_pos hmodelD, partPayees_eq_map]
  generalize paidMiners E S nHeight fProofOfStake producerScript header = miners
  -- each miner stands with its payment
  have hzip (resolve : CPubKey → CScript) (total : CAmount) :
      miners.zip (splitAmong total (miners.map resolve)) = miners.zipIdx.map fun p ↦
        (p.1, resolve p.1, total / miners.length +
          if p.2 = miners.length - 1 then total % miners.length else 0) := by
    rw [splitAmong, zipIdx_map, map_map, length_map]
    conv_lhs =>
      arg 1
      rw [← zipIdx_map_fst 0 miners]
    rw [zip_map']
    rfl
  simp only [hzip, filter_map, map_map]
  rfl

theorem partSplitTotal_nonneg : 0 ≤ partSplitTotal E Q nHeight :=
  Int.ediv_nonneg (Int.mul_nonneg blockVal_range.1 (by decide)) (by decide)

variable (E Q S nHeight fProofOfStake producerScript) in
/-- **When two vectors of solutions give every miner the same payment**: if the same miners are paid.
Otherwise there is nothing to divide, or all of it goes to one and the same miner. -/
theorem requiredFor_eq_iff (b₁ b₂ : CBlockHeader) : (∀ k ∈ electedMiners E S nHeight,
      requiredFor E Q S nHeight fProofOfStake producerScript b₁ k =
        requiredFor E Q S nHeight fProofOfStake producerScript b₂ k) ↔
    E.consensus.isModelDActive nHeight = false ∨ paidMiners E S nHeight fProofOfStake producerScript b₁ =
        paidMiners E S nHeight fProofOfStake producerScript b₂ ∨
      partSplitTotal E Q nHeight = 0 ∨
      ((paidMiners E S nHeight fProofOfStake producerScript b₁).getLast? =
          (paidMiners E S nHeight fProofOfStake producerScript b₂).getLast? ∧
        (paidMiners E S nHeight fProofOfStake producerScript b₁).OneShare (partSplitTotal E Q nHeight) ∧
        (paidMiners E S nHeight fProofOfStake producerScript b₂).OneShare
          (partSplitTotal E Q nHeight)) := by
  cases hmodelD : E.consensus.isModelDActive nHeight with
  | false => simp [requiredFor, hmodelD]
  | true =>
    simp only [requiredFor_eq_share hmodelD, Bool.true_eq_false, false_or]
    exact share_eq_iff partSplitTotal_nonneg nodup_electedMiners (paidMiners_sublist b₁)
      (paidMiners_sublist b₂)

/-- **Who leaves out solutions raises the other payments.** Of seven elected miners at least five have
to have a solution. With the solutions of five only, the first miner is paid a fifth, not a seventh. -/
theorem requiredFor_raised :
    let required (vAdamSolutions : List Bytes) (k : CPubKey) : CAmount :=
      requiredFor solvingEnv samplePaymentEnv samplePaymentState.toElectionState 2200 false []
        (sampleHeader vAdamSolutions) k
    let solved (vAdamSolutions : List Bytes) : List CPubKey :=
      solvedBy solvingEnv samplePaymentState.toElectionState (sampleHeader vAdamSolutions) 2200
        (electedMiners solvingEnv samplePaymentState.toElectionState 2200)
    let all : List Bytes := [[1], [1], [1], [1], [1], [1], [1]]
    let five : List Bytes := [[1], [1], [1], [1], [1], [], []]
    solvingEnv.consensus.getAdamThreshold 2200 = 5 ∧ (solved all).length = 7 ∧ (solved five).length = 5 ∧
      ∃ k ∈ solved five, required all k = 329642857 ∧ required five k = 461500000 := by
  decide +kernel

end Shares

end KristaTech.Masternode
