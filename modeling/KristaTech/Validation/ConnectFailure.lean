import KristaTech.Validation.Connect

/-!
# What a failed connection leaves behind

When `ConnectBlock` fails, the masternode state and the money supply are as before: they are only
touched once nothing can fail any more. The burn cache is not: a burn is recorded as soon as its
transaction has passed, while later transactions, the minted amount and the queued scripts are still
to be checked. A burn that is recorded is never taken back, so the cache is as before exactly when
none was recorded (`connectTxs_fst_eq_iff`).
-/

namespace KristaTech

namespace ConnectInput

variable (E : ValidationEnv) (I : ConnectInput)

/-- A burn is recorded: the transactions before it connect, and its own passes its checks. -/
def Burns (vtx : List CTransaction) (acc : ConnectState) : Prop :=
  ∃ mid tx, List.Acts (I.checkTx E) (I.updateTx E) vtx acc mid tx ∧ (I.burn E mid tx).isSome

variable {E I}

theorem recordBurn_eq_self_iff {acc : ConnectState} {tx : CTransaction} {burns : BurnCache} :
    I.recordBurn E acc tx burns = burns ↔ I.burn E acc tx = none := by
  rw [recordBurn]
  cases I.burn E acc tx with
  | none => simp
  | some b =>
    have hlt := burns.load_lt_addBurnToCache b.1 b.2
    exact iff_of_false (fun h ↦ by simp [h] at hlt) (by simp)

theorem load_lt_recordBurn (acc : ConnectState) (tx : CTransaction) (burns : BurnCache)
    (h : I.recordBurn E acc tx burns ≠ burns) :
    burns.load < (I.recordBurn E acc tx burns).load := by
  rw [recordBurn] at h ⊢
  cases hburn : I.burn E acc tx with
  | none => simp [hburn] at h
  | some b => exact burns.load_lt_addBurnToCache b.1 b.2

/-- **The cache is as before exactly when no burn was recorded**, whether the loop fails or not. -/
theorem connectTxs_fst_eq_iff (vtx : List CTransaction) (burns : BurnCache) (acc : ConnectState) :
    (I.connectTxs E vtx burns acc).1 = burns ↔ ¬I.Burns E vtx acc := by
  rw [connectTxs, List.effectLoop_fst_eq_iff (μ := BurnCache.load) load_lt_recordBurn]
  simp only [recordBurn_eq_self_iff, Burns, not_exists, not_and, Option.not_isSome_iff_eq_none]

end ConnectInput

section Failed

variable {E : ValidationEnv} {ctx : ChainContext} {G : NodeState} {block : CBlock}
  {pindex : CBlockIndex} {view : CCoinsViewCache} {disk : DiskOutcome} {fAlreadyChecked : Bool}

/-- The checks before the loop over the transactions pass. -/
def EntersLoop (E : ValidationEnv) (I : ConnectInput) (block : CBlock) (view : CCoinsViewCache)
    (fAlreadyChecked : Bool) : Prop :=
  I.checkBefore E block view fAlreadyChecked = .ok () ∧ I.checkKind E block = .ok ()

/-- The loop over the transactions is reached and a burn is recorded in it. -/
def RecordsBurn (E : ValidationEnv) (ctx : ChainContext) (G : NodeState) (block : CBlock)
    (pindex : CBlockIndex) (view : CCoinsViewCache) (fAlreadyChecked : Bool) : Prop :=
  let I : ConnectInput := ⟨ctx, G.masternodes, pindex, false⟩
  EntersLoop E I block view fAlreadyChecked ∧ I.Burns E block.vtx { view := view }

theorem connectBlock_fst_of_error {e : ValidationError} {I : ConnectInput}
    (hI : I = ⟨ctx, G.masternodes, pindex, false⟩)
    (hfail : (connectBlock E ctx G block pindex view disk false fAlreadyChecked).2 = .error e) :
    (connectBlock E ctx G block pindex view disk false fAlreadyChecked).1 = G ∧
        ¬EntersLoop E I block view fAlreadyChecked ∨
      (connectBlock E ctx G block pindex view disk false fAlreadyChecked).1 =
          { G with mapAddressBurns :=
            (I.connectTxs E block.vtx G.mapAddressBurns { view := view }).1 } ∧
        EntersLoop E I block view fAlreadyChecked := by
  simp only [connectBlock, ← hI] at hfail ⊢
  cases hbefore : I.checkBefore E block view fAlreadyChecked with
  | error e => simp [EntersLoop, hbefore]
  | ok u =>
    simp only [hbefore] at hfail ⊢
    by_cases hgenesis : block.getHash E.crypto = E.consensus.hashGenesisBlock
    · simp [hgenesis] at hfail
    · simp only [hgenesis, if_false] at hfail ⊢
      cases hkind : I.checkKind E block with
      | error e => simp [EntersLoop, hkind]
      | ok u =>
        refine Or.inr ⟨?_, hbefore, hkind⟩
        simp only [hkind] at hfail ⊢
        -- the state is the one after the loop, wherever the call fails from here on
        generalize I.connectTxs E block.vtx G.mapAddressBurns { view := view } = loop at hfail ⊢
        obtain ⟨burns, result⟩ := loop
        cases result with
        | error e => rfl
        | ok acc =>
          cases hafter : I.checkAfter E block G.nMoneySupply acc with
          | error e => simp [hafter]
          | ok u =>
            cases hdisk : disk.result with
            | error e => simp [hafter]
            | ok u => simp [hafter, hdisk] at hfail

/-- **What a failed connection changes.** If `ConnectBlock` fails, the money supply, the masternode
state and the burn cache are as before exactly when no burn was recorded before the failure. -/
theorem failed_connectBlock_unchanged_iff {e : ValidationError}
    (hfail : (connectBlock E ctx G block pindex view disk false fAlreadyChecked).2 = .error e) :
    (connectBlock E ctx G block pindex view disk false fAlreadyChecked).1 = G ↔
      ¬RecordsBurn E ctx G block pindex view fAlreadyChecked := by
  set I : ConnectInput := ⟨ctx, G.masternodes, pindex, false⟩ with hI
  rcases connectBlock_fst_of_error hI hfail with ⟨heq, hnot⟩ | ⟨heq, henters⟩
  · exact ⟨fun _ h ↦ hnot h.1, fun _ ↦ heq⟩
  · have hcache : ({ G with mapAddressBurns :=
        (I.connectTxs E block.vtx G.mapAddressBurns { view := view }).1 } : NodeState) = G ↔
        ¬I.Burns E block.vtx { view := view } := by
      rw [← ConnectInput.connectTxs_fst_eq_iff block.vtx G.mapAddressBurns { view := view }]
      exact ⟨congrArg NodeState.mapAddressBurns, fun h ↦ by rw [h]⟩
    rw [heq, hcache]
    exact ⟨fun h h' ↦ h h'.2, fun h h' ↦ h ⟨henters, h'⟩⟩

end Failed

/-! ### A burn in a block that mints too much -/

section Overmint

def burnerKey : CPubKey := CPubKey.set (2 :: List.replicate 32 1)

def burnedOutpoint : COutPoint := ⟨5, 0⟩

/-- The genesis block is the tip, and below the view there is one coin of ten. -/
def burnView : CCoinsViewCache := .ofBase
  { getCoin := fun o ↦ if o = burnedOutpoint then
      some ⟨false, false, ⟨10 * 10 ^ 8, CScript.pushOp (CScript.pushData [] burnerKey.bytes) .OP_CHECKSIG⟩,
        1⟩ else none
    hashBlock := 1 }

def parentIndex : CBlockIndex := ⟨1, 0, 1, 0⟩

def burnContext : ChainContext where
  mapBlockIndex hash := if hash = 1 then some parentIndex else none
  tip := some parentIndex
  contains hash := hash == 1
  isInitialBlockDownload := false
  fReindex := false
  fVerifyingBlocks := false
  fMasternodePingStateInitialized := true

/-- A coinbase that pays itself the given number of coins. -/
def coinbaseTx (coins : ℤ) : CTransaction where
  nVersion := 1
  vin := [⟨COutPoint.null, [1, 2], sequenceFinal⟩]
  vout := [⟨coins * 10 ^ 8, [Opcode.OP_1.toByte]⟩]
  nLockTime := 0

def burnTx : CTransaction where
  nVersion := 1
  vin := [⟨burnedOutpoint, CScript.pushData [] [0x30, 6, 2, 1, 1, 2, 1, 1, 1], sequenceFinal⟩]
  vout := [⟨10 * 10 ^ 8, getScriptForDestination (.keyID 0)⟩]
  nLockTime := 0

def burnBlock (coins : ℤ) : CBlock where
  nVersion := 1
  hashPrevBlock := 1
  hashMerkleRoot := 0
  nTime := 0
  nBits := 0
  nNonce := 0
  vtx := [coinbaseTx coins, burnTx]

def burnIndex (coins : ℤ) : CBlockIndex := ⟨(burnBlock coins).getHash default, 1, 2, 0⟩

def emptyNode : NodeState := ⟨⟨.empty, .empty, ∅⟩, ∅, 0⟩

def connectBurnBlock (coins : ℤ) : NodeState × Except ValidationError Connected :=
  connectBlock default burnContext emptyNode (burnBlock coins) (burnIndex coins) burnView {} false false

/-- **A burn of a block that was refused.** The coinbase mints 101 coins, so the block is refused,
but the burn of its second transaction stays in the cache. -/
theorem burn_of_refused_block : (connectBurnBlock 101).2 = .error (.invalid 100 "bad-cb-amount" false) ∧
      (connectBurnBlock 101).1.mapAddressBurns[CTxDestination.keyID (burnerKey.getID default)]? =
        some [⟨10 * 10 ^ 8, 2⟩] ∧
      emptyNode.mapAddressBurns[CTxDestination.keyID (burnerKey.getID default)]? = none :=
  ⟨Except.failure?_eq_some_iff.1 (by decide +kernel), by decide +kernel, by decide +kernel⟩

example : (connectBurnBlock 100).2.failure? = none := by decide +kernel

/-- The refused block, by the general statement. -/
theorem refused_burnBlock_unchanged_iff :
    (connectBurnBlock 101).2 = .error (.invalid 100 "bad-cb-amount" false) ∧
      ((connectBurnBlock 101).1 = emptyNode ↔
        ¬RecordsBurn default burnContext emptyNode (burnBlock 101) (burnIndex 101) burnView false) := by
  have hfail : (connectBurnBlock 101).2 = .error (.invalid 100 "bad-cb-amount" false) :=
    Except.failure?_eq_some_iff.1 (by decide +kernel)
  exact ⟨hfail, failed_connectBlock_unchanged_iff hfail⟩

end Overmint

end KristaTech
