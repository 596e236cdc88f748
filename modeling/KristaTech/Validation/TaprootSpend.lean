import KristaTech.Validation.CoinSpend
import KristaTech.Validation.ConnectFailure
import KristaTech.Script.Taproot

/-!
# Taproot outputs are not protected by the blocks' flags

`ConnectBlock` checks scripts without the Taproot flag; only the flags of the memory pool have it. So
a block may spend a Taproot output with an empty input script, unless the output key reads as zero
(`taprootProtected_iff`). That no block is then accepted which breaks the Taproot rule is for the
wrong reason: nobody at all can spend such an output.
-/

namespace KristaTech

variable {E : ValidationEnv} {ctx : ChainContext} {G : NodeState} {pindex : CBlockIndex}
  {view : CCoinsViewCache} {o : COutPoint} {coin : Coin}

/-- No block that `ConnectBlock` accepts spends a coin of this script by an input that breaks the
Taproot rule. The coins are the ones that the transactions before have left. -/
def TaprootProtected (E : ValidationEnv) (ctx : ChainContext) (G : NodeState) (pindex : CBlockIndex)
    (view : CCoinsViewCache) (script : CScript) (flags : ScriptFlags)
    (data : CTransaction → Option PrecomputedTransactionData) : Prop :=
  let I : ConnectInput := ⟨ctx, G.masternodes, pindex, false⟩
  ∀ (block : CBlock) (disk : DiskOutcome) (fAlreadyChecked : Bool) (connected : Connected),
    (connectBlock E ctx G block pindex view disk false fAlreadyChecked).2 = .ok connected →
    block.getHash E.crypto ≠ E.consensus.hashGenesisBlock →
    ∀ mid tx, List.Acts (I.checkTx E) (I.updateTx E) block.vtx { view := view } mid tx →
      tx.isCoinBase = false → E.isZeroCoinPoW tx = false →
      ∀ nIn txin, tx.vin[nIn]? = some txin → (mid.view.accessCoin txin.prevout).out.scriptPubKey = script →
        verifyTaproot E.crypto flags { txTo := tx, nIn := nIn, precomTxData := data tx } txin.scriptSig
          script = .ok ()

theorem taprootProtected_of_zero {script : CScript} (hscript : isTaprootScript script = true)
    (hfund : paysDeveloperFund E script = false)
    (hscripts : E.consensus.totalBlocksEstimate ≤ pindex.nHeight)
    (hzero : castToBool (script.drop 2) = false) (flags : ScriptFlags)
    (data : CTransaction → Option PrecomputedTransactionData) :
    TaprootProtected E ctx G pindex view script flags data := by
  intro block disk fAlreadyChecked connected hok hgenesis mid tx hacts hcoinbase hzeroCoin nIn txin
    hin hcoin
  obtain ⟨check, hbuilt, hrun⟩ := scriptCheck_of_connectBlock rfl hok hgenesis
    (decide_eq_true hscripts) hacts hcoinbase hzeroCoin hin
  rw [scriptCheckOf_of_not_paysDeveloperFund (hcoin ▸ hfund), hcoin] at hbuilt
  obtain rfl := Except.ok.inj hbuilt
  obtain ⟨k, rfl, hk⟩ := isTaprootScript_iff.1 hscript
  have htrue := ((verifyScript_of_not_taproot _ _ _ rfl rfl rfl hk _).1 hrun).1
  rw [show castToBool k = false from hzero] at htrue
  cases htrue

/-! ### A block that takes the coin -/

def emptyCoinbase : CTransaction where
  nVersion := 1
  vin := [⟨COutPoint.null, [1, 2], sequenceFinal⟩]
  vout := [nullDataOut]
  nLockTime := 0

/-- A transaction that spends a coin with an empty script and leaves its value to the miner: `spendTx` with
that script. -/
def takingTx (o : COutPoint) : CTransaction where
  nVersion := 1
  vin := [⟨o, [], sequenceFinal⟩]
  vout := [nullDataOut]
  nLockTime := 0

/-- A block that takes a coin, as it is once `CheckBlock` has passed. -/
def takingBlock (header : CBlockHeader) (o : COutPoint) : CBlock :=
  { header with vtx := [emptyCoinbase, takingTx o], fChecked := true }

/-- A coin of the view with a Taproot script that could be spent in a block at this place if its
script allowed it, and a place at which a block can stand. -/
structure SpendableTaproot (E : ValidationEnv) (ctx : ChainContext) (pindex : CBlockIndex)
    (view : CCoinsViewCache) (o : COutPoint) (coin : Coin) : Prop where
  script : isTaprootScript coin.out.scriptPubKey = true
  getCoin : view.getCoin o = some coin
  notNull : o.isNull = false
  value : E.consensus.moneyRange coin.out.nValue = true
  mature : (coin.fCoinBase || coin.fCoinStake) = true →
    E.consensus.nCoinbaseMaturity ≤ getSpendHeight ctx view - coin.nHeight
  notBurned : ∀ addr ∈ E.addresses coin.out.scriptPubKey,
    E.consensus.isBurnAddress addr pindex.nHeight = false
  notFund : paysDeveloperFund E coin.out.scriptPubKey = false
  parent : ∃ pprev, ctx.mapBlockIndex pindex.hashPrev = some pprev ∧ pprev.hash = view.getBestBlock
  kind : E.consensus.networkUpgradeActive pindex.nHeight .UPGRADE_POS = true →
    E.consensus.isAdamActive pindex.nHeight = true

section Taking

variable (I : ConnectInput)

theorem updateCoins_of_nullDataOut (C : Crypto) {tx : CTransaction} (htx : tx.vout = [nullDataOut])
    (view : CCoinsViewCache) (nHeight : ℤ) :
    updateCoins C tx view nHeight = some (spendInputs C tx view) := by
  have hadd (view : CCoinsViewCache) : view.addCoins C tx nHeight = some view := by
    rw [CCoinsViewCache.addCoins, htx]
    rfl
  simp [updateCoins, hadd]

theorem checkTx_emptyCoinbase (view : CCoinsViewCache) :
    I.checkTx E { view := view } emptyCoinbase = .ok { view := view } := by
  have hcoinbase : emptyCoinbase.isCoinBase = true := rfl
  have hsigops : getLegacySigOpCount emptyCoinbase = 0 := rfl
  have hout : emptyCoinbase.getValueOut = some 0 := rfl
  simp [ConnectInput.checkTx, hcoinbase, hsigops, hout, rejectIf, checkInputs, orThrow]

theorem updateTx_emptyCoinbase (view : CCoinsViewCache) :
    I.updateTx E { view := view } emptyCoinbase = .ok { view := view, vtxundo := [[]] } := by
  rw [ConnectInput.updateTx, updateCoins_of_nullDataOut _ rfl]
  rfl

def takingCheck (E : ValidationEnv) (I : ConnectInput) (o : COutPoint) (coin : Coin) : CScriptCheck :=
  ⟨coin.out.scriptPubKey, takingTx o, 0, I.flags E, .ofTx E.crypto (takingTx o), []⟩

theorem run_takingCheck (hscript : isTaprootScript coin.out.scriptPubKey = true)
    (hkey : castToBool (coin.out.scriptPubKey.drop 2) = true) :
    (takingCheck E I o coin).run E.crypto = .ok () := by
  obtain ⟨k, heq, hk⟩ := isTaprootScript_iff.1 hscript
  rw [heq] at hkey
  show verifyScript _ _ _ [] coin.out.scriptPubKey = _
  rw [heq]
  exact (verifyScript_of_not_taproot _ _ _ rfl rfl rfl hk _).2 ⟨hkey, [], rfl, Nat.zero_le _⟩

namespace SpendableTaproot

variable {I : ConnectInput} (h : SpendableTaproot E I.ctx I.pindex view o coin)
include h

theorem spendableCoin : SpendableCoin E I.ctx I.pindex view o coin :=
  ⟨h.getCoin, h.notNull, h.value, h.mature, h.notBurned, h.notFund⟩

/-- The transaction passes the checks of `ConnectBlock` without a Taproot flag. All of its value is
fee. -/
theorem checkTx (hkey : castToBool (coin.out.scriptPubKey.drop 2) = true) (vtxundo : List CTxUndo) :
    ∃ mid, I.checkTx E { view := view, vtxundo := vtxundo } (takingTx o) = .ok mid ∧
      mid.view.accessCoin o = coin ∧ mid.nFees = coin.out.nValue ∧ mid.nValueIn = coin.out.nValue ∧
      mid.nValueOut = 0 ∧ ∀ check ∈ mid.vChecks, check.run E.crypto = .ok () := by
  have hp2sh : coin.out.scriptPubKey.isPayToScriptHash = false := by
    obtain ⟨k, heq, -⟩ := isTaprootScript_iff.1 h.script
    rw [heq, not_isPayToScriptHash]
  obtain ⟨mid, hcheck, hview, hrest⟩ := h.spendableCoin.checkTx hp2sh rfl
    (fun _ ↦ run_takingCheck I h.script hkey) vtxundo
  refine ⟨mid, hcheck, ?_, hrest⟩
  rw [hview]
  exact (h.spendableCoin.of_haveInputs _).accessCoin

omit h in
theorem updateTx (mid : ConnectState) : ∃ acc, I.updateTx E mid (takingTx o) = .ok acc ∧
    acc.nFees = mid.nFees ∧ acc.nValueIn = mid.nValueIn ∧ acc.nValueOut = mid.nValueOut ∧
      acc.vChecks = mid.vChecks := by
  rw [ConnectInput.updateTx, updateCoins_of_nullDataOut _ rfl]
  exact ⟨_, rfl, rfl, rfl, rfl, rfl⟩

theorem checkBefore (header : CBlockHeader) (hjust : I.fJustCheck = false) :
    I.checkBefore E (takingBlock header o) view true = .ok () ∧
      I.checkKind E (takingBlock header o) = .ok () := by
  obtain ⟨pprev, hpprev, hbest⟩ := h.parent
  have hstake : (takingBlock header o).isProofOfStake = false := not_isCoinStake_spendTx
  constructor
  · simp [ConnectInput.checkBefore, ConnectInput.pprev, hpprev, hbest, hjust, takingBlock]
  · have hkind := h.kind
    simp only [ConnectInput.checkKind, CBlock.isProofOfWork, hstake]
    cases hpos : E.consensus.networkUpgradeActive I.pindex.nHeight .UPGRADE_POS with
    | false => rfl
    | true => simp [hkind hpos, rejectIf]

theorem checkAfter (header : CBlockHeader) (nMoneySupply : CAmount) {acc : ConnectState}
    (hfees : acc.nFees = coin.out.nValue) (hin : acc.nValueIn = coin.out.nValue)
    (hout : acc.nValueOut = 0) (hrun : ∀ check ∈ acc.vChecks, check.run E.crypto = .ok ()) :
    I.checkAfter E (takingBlock header o) nMoneySupply acc = .ok () := by
  obtain ⟨pprev, hpprev, -⟩ := h.parent
  have hstake : (takingBlock header o).isProofOfStake = false := not_isCoinStake_spendTx
  have hreward := E.consensus.getBlockValue_nonneg nMoneySupply (pprev.nHeight + 1)
  have hmint : ¬E.consensus.getBlockValue nMoneySupply (pprev.nHeight + 1) + coin.out.nValue < 0 :=
    not_lt_of_ge (add_nonneg hreward h.spendableCoin.nonneg)
  have hqueue : (acc.vChecks.any fun check ↦ !(check.run E.crypto).isOk) = false := by
    rw [List.any_eq_false]
    intro check hcheck
    simp [hrun check hcheck, Except.isOk, Except.toBool]
  simp [ConnectInput.checkAfter, ConnectInput.pprev, hpprev, CBlock.isProofOfWork, hstake, hfees, hin,
    hout, hmint, hqueue, rejectIf]

/-- **A block takes the coin.** It is accepted whatever its header is. -/
theorem connectBlock_takingBlock (hI : I = ⟨I.ctx, G.masternodes, I.pindex, false⟩)
    (hkey : castToBool (coin.out.scriptPubKey.drop 2) = true) (header : CBlockHeader)
    (hheader : header.getHash E.crypto ≠ E.consensus.hashGenesisBlock) :
    ∃ connected mid, (connectBlock E I.ctx G (takingBlock header o) I.pindex view {} false true).2 =
        .ok connected ∧
      List.Acts (I.checkTx E) (I.updateTx E) (takingBlock header o).vtx { view := view } mid (takingTx o) ∧
      mid.view.accessCoin o = coin := by
  obtain ⟨mid, hcheck, hcoin, hfees, hin, hout, hrun⟩ := h.checkTx hkey [[]]
  obtain ⟨acc, hupdate, hfees', hin', hout', hvChecks⟩ := updateTx (E := E) (I := I) (o := o) mid
  have hacts : List.Acts (I.checkTx E) (I.updateTx E) (takingBlock header o).vtx { view := view } mid
      (takingTx o) :=
    .there (checkTx_emptyCoinbase I view) (updateTx_emptyCoinbase I view) (.here hcheck)
  have hloop : (I.connectTxs E (takingBlock header o).vtx G.mapAddressBurns { view := view }).2 =
      .ok acc := by
    simp [ConnectInput.connectTxs, takingBlock, List.effectLoop, checkTx_emptyCoinbase,
      updateTx_emptyCoinbase, hcheck, hupdate]
  obtain ⟨hbefore, hkind⟩ := h.checkBefore header (by rw [hI])
  have hafter := h.checkAfter header G.nMoneySupply (hfees'.trans hfees) (hin'.trans hin)
    (hout'.trans hout) (hvChecks ▸ hrun)
  have hhash : (takingBlock header o).getHash E.crypto ≠ E.consensus.hashGenesisBlock := hheader
  have hdisk : ({} : DiskOutcome).result = .ok () := rfl
  have hok := (connectBlock_eq_ok_iff hI hhash).2
    ⟨hbefore, hkind, _, acc, Prod.ext rfl hloop, hafter, hdisk, rfl⟩
  exact ⟨_, mid, congrArg Prod.snd hok, hacts, hcoin⟩

end SpendableTaproot

end Taking

/-- **Taproot outputs in blocks.** Take a coin with a Taproot script, at a place of the chain where
scripts are checked and where the coin could be spent as far as all other rules go. Every block that
is accepted there keeps the Taproot rule for the coin's script exactly when the output key reads as
zero, whatever the flags and the precomputed data are that the rule is read with. -/
theorem taprootProtected_iff (h : SpendableTaproot E ctx pindex view o coin)
    (hheader : ∃ header : CBlockHeader, header.getHash E.crypto ≠ E.consensus.hashGenesisBlock)
    (hscripts : E.consensus.totalBlocksEstimate ≤ pindex.nHeight) (flags : ScriptFlags)
    (data : CTransaction → Option PrecomputedTransactionData) :
    TaprootProtected E ctx G pindex view coin.out.scriptPubKey flags data ↔
      castToBool (coin.out.scriptPubKey.drop 2) = false := by
  refine ⟨fun hprotected ↦ ?_, fun hzero ↦
    taprootProtected_of_zero h.script h.notFund hscripts hzero flags data⟩
  by_contra hkey
  rw [Bool.not_eq_false] at hkey
  obtain ⟨header, hheader⟩ := hheader
  let I : ConnectInput := ⟨ctx, G.masternodes, pindex, false⟩
  obtain ⟨connected, mid, hok, hacts, hcoin⟩ :=
    h.connectBlock_takingBlock (I := I) rfl hkey header hheader
  exact verifyTaproot_nil _ _ _ _ (hprotected (takingBlock header o) {} true connected hok hheader mid
    (takingTx o) hacts (not_isCoinBase_spendTx h.notNull) not_isZeroCoinPoW_spendTx 0
    ⟨o, [], sequenceFinal⟩ rfl (by rw [hcoin]))

/-! ### A coin that is taken -/

section Example

def taprootOutpoint : COutPoint := ⟨6, 0⟩

def taprootCoin : Coin :=
  ⟨false, false, ⟨10 * 10 ^ 8, Opcode.OP_1.toByte :: 32 :: List.replicate 32 1⟩, 1⟩

def taprootView : CCoinsViewCache := .ofBase
  { getCoin := fun o ↦ if o = taprootOutpoint then some taprootCoin else none
    hashBlock := 1 }

def takingHeader : CBlockHeader where
  nVersion := 1
  hashPrevBlock := 1
  hashMerkleRoot := 0
  nTime := 0
  nBits := 0
  nNonce := 0

/-- The block as it comes from the network, not yet checked. -/
def takingExample : CBlock := { takingBlock takingHeader taprootOutpoint with fChecked := false }

def takingIndex : CBlockIndex := ⟨takingExample.getHash default, 1, 2, 0⟩

/-- The flags of the block's script checks with the Taproot flag. -/
def withTaproot : ScriptFlags :=
  { ConnectInput.flags default ⟨burnContext, emptyNode.masternodes, takingIndex, false⟩ with
    taproot := true }

/-- **A Taproot output spent without a signature.** `ConnectBlock` accepts a block, with all checks,
that spends the coin with an empty input script, which the Taproot rule refuses. -/
theorem taproot_coin_taken :
    (connectBlock default burnContext emptyNode takingExample takingIndex taprootView {} false
        false).2.failure? = none ∧
      takingExample.vtx[1]? = some (takingTx taprootOutpoint) ∧
      (taprootView.accessCoin taprootOutpoint).out.scriptPubKey = taprootCoin.out.scriptPubKey ∧
      isTaprootScript taprootCoin.out.scriptPubKey = true ∧
      verifyTaproot default withTaproot
          { txTo := takingTx taprootOutpoint
            nIn := 0
            precomTxData := some (.ofTx default (takingTx taprootOutpoint)) }
          [] taprootCoin.out.scriptPubKey = .error .SCRIPT_ERR_INVALID_STACK_OPERATION :=
  ⟨by decide +kernel, rfl, by decide +kernel, by decide +kernel, Except.failure?_eq_some_iff.1 (by decide)⟩

theorem taprootCoin_spendable :
    SpendableTaproot default burnContext takingIndex taprootView taprootOutpoint taprootCoin where
  script := by decide
  getCoin := by decide
  notNull := by decide
  value := by decide
  mature := nofun
  notBurned := by decide
  notFund := by decide
  parent := ⟨parentIndex, by decide, by decide⟩
  kind := by decide

/-- The general statement for this coin. -/
theorem taprootProtected_taprootCoin_iff :
    TaprootProtected default burnContext emptyNode takingIndex taprootView
        taprootCoin.out.scriptPubKey withTaproot (fun tx ↦ some (.ofTx default tx)) ↔
      castToBool (taprootCoin.out.scriptPubKey.drop 2) = false :=
  taprootProtected_iff taprootCoin_spendable ⟨takingHeader, by decide +kernel⟩ (by decide +kernel)
    withTaproot _

end Example

end KristaTech
