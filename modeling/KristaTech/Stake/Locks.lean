import KristaTech.Stake.Kernel
import KristaTech.Validation.Locks

/-!
# Locks that give weight to a stake

`ExtractTimelock` reads a lock out of a script, and `CalculateMPAWeight` gives a coin more weight for the
blocks that it says the coin is locked. What it reads is where the lock stands in the script
(`exists_lockScript_of_extractTimelock`): there are only pushes that are dropped before it, and nothing
after it goes around it. But of the two kinds of locks that are read, blocks only enforce one. The flags of
`ConnectBlock` never enable `OP_CHECKSEQUENCEVERIFY`, so a relative lock gives weight and holds nothing
(`stakeLock_enforced_iff`).
-/

namespace KristaTech

open CScript

/-! ### Reading a lock -/

section Reading

variable {s rest : CScript} {lock : ℤ × Bool} {op : ScriptOp}

theorem lift_eq_some_iff {α : Type} {x : Option α} {a : α} {s s' : Bytes} :
    (liftM x : Reader α) s = some (a, s') ↔ x = some a ∧ s = s' := by
  show (x.bind fun a ↦ some (a, s)) = some (a, s') ↔ _
  rw [Option.bind_eq_some_iff]
  constructor
  · rintro ⟨b, hb, heq⟩
    obtain ⟨rfl, rfl⟩ := Prod.mk.inj (Option.some.inj heq)
    exact ⟨hb, rfl⟩
  · rintro ⟨hx, rfl⟩
    exact ⟨a, hx, rfl⟩

theorem exists_ofByte_of_getOp (h : getOp s = some op) :
    ∃ b pc, s = b :: pc ∧ op.opcode = Opcode.ofByte b := by
  cases s with
  | nil => cases h
  | cons b pc =>
    rw [getOp] at h
    split_ifs at h
    · simp only [Option.bind_eq_bind, Option.bind_eq_some_iff, Option.pure_def, Option.some.injEq] at h
      obtain ⟨_, -, _, -, rfl⟩ := h
      exact ⟨b, pc, rfl, rfl⟩
    · obtain rfl := Option.some.inj h
      exact ⟨b, pc, rfl, rfl⟩

/-- The opcodes that are read as small integers are `OP_1` to `OP_16`. -/
theorem mem_smallIntegers_of_isSmallInteger (h : getOp s = some op) (hsmall : isSmallInteger op.opcode = true) :
    op.opcode ∈ smallIntegers := by
  have hall (b : UInt8) : isSmallInteger (Opcode.ofByte b) = true → Opcode.ofByte b ∈ smallIntegers :=
    CScriptNum.forall_byte (P := fun b ↦ isSmallInteger (Opcode.ofByte b) = true → Opcode.ofByte b ∈ smallIntegers)
      (by decide +kernel) b
  obtain ⟨b, -, -, hb⟩ := exists_ofByte_of_getOp h
  rw [hb] at hsmall ⊢
  exact hall b hsmall

/-- `OP_0` pushes nothing. -/
theorem vch_eq_nil_of_op_0 (h : getOp s = some op) (hzero : op.opcode = .OP_0) : op.vch = [] := by
  obtain ⟨b, pc, rfl, hb⟩ := exists_ofByte_of_getOp h
  obtain rfl : b = Opcode.OP_0.toByte := by rw [← hzero, hb, Opcode.toByte_ofByte]
  have hget : getOp (Opcode.OP_0.toByte :: pc) = some ⟨.OP_0, [], pc⟩ :=
    getOp_of_operandSize (b := []) (by decide) rfl
  rw [hget] at h
  rw [← Option.some.inj h]

theorem pushes_of_lockCandidate {candidate : Option ℤ} (h : getOp s = some op)
    (hcandidate : lockCandidate op = some candidate) :
    op.Pushes ∧ ∀ n, candidate = some n → CScriptNum.setVch op.pushed = n := by
  have hsmallSet : ∀ opcode ∈ smallIntegers, ¬opcode ≤ .OP_PUSHDATA4 ∧
      CScriptNum.setVch (CScriptNum.serialize (decodeOpN opcode)) = decodeOpN opcode := by decide
  rw [lockCandidate] at hcandidate
  split_ifs at hcandidate with hzero hsmall hpush habove
  · have hle : op.opcode ≤ .OP_PUSHDATA4 := by rw [hzero]; decide
    refine ⟨Or.inl hle, fun n hn ↦ ?_⟩
    obtain rfl := Option.some.inj ((Option.some.inj hcandidate).trans hn)
    rw [ScriptOp.pushed, if_pos hle, vch_eq_nil_of_op_0 h hzero]
    rfl
  · have hmem := mem_smallIntegers_of_isSmallInteger h hsmall
    obtain ⟨hle, hset⟩ := hsmallSet _ hmem
    refine ⟨Or.inr hmem, fun n hn ↦ ?_⟩
    obtain rfl := Option.some.inj ((Option.some.inj hcandidate).trans hn)
    rw [ScriptOp.pushed, if_neg hle, hset]
  · have hle : op.opcode ≤ .OP_PUSHDATA4 := UInt8.le_of_lt hpush.1
    refine ⟨Or.inl hle, fun n hn ↦ ?_⟩
    rw [ScriptOp.pushed, if_pos hle]
    exact (CScriptNum.eq_setVch_of_ofVch ((Option.some.inj hcandidate).trans hn)).symm
  · refine ⟨Or.inl (UInt8.not_lt.1 habove), fun n hn ↦ ?_⟩
    cases (Option.some.inj hcandidate).trans hn

theorem isSpendTail_of_readSpendTail {u : Unit} (h : readSpendTail s = some (u, rest)) :
    wellFormed s = true ∧ IsSpendTail (ops s) := by
  rw [readSpendTail, Reader.bind_eq_some_iff] at h
  simp only [nextOp_eq_some_iff] at h
  obtain ⟨op, _, ⟨hop, rfl⟩, h⟩ := h
  split_ifs at h with hdup
  · simp only [Reader.bind_eq_some_iff, Reader.guard_eq_some_iff, expectOp_eq_some_iff,
      nextPush_eq_some_iff] at h
    obtain ⟨_, _, ⟨hash160, hhash160Op, hhash160, rfl⟩, _, _, ⟨hash, hhashOp, rfl, rfl⟩, _, _, ⟨hlength, rfl⟩,
      _, _, ⟨equalVerify, hequalVerifyOp, hequalVerify, rfl⟩, _, _, ⟨checkSig, hcheckSigOp, hcheckSig, rfl⟩,
      _, _, hend, rfl, -⟩ := h
    have hempty : checkSig.rest = [] := List.isEmpty_iff.1 (Prod.mk.inj (Option.some.inj hend)).1
    have hreads : Reads s [op, hash160, hash, equalVerify, checkSig] [] :=
      .cons hop <| .cons hhash160Op <| .cons hhashOp <| .cons hequalVerifyOp <| .cons hcheckSigOp <| hempty ▸ .nil
    rw [hreads.wellFormed, hreads.ops]
    exact ⟨rfl, .keyHash (.intro hdup hhash160 (le_pushData4_of_length hhashOp (by omega)) rfl hequalVerify hcheckSig)⟩
  · simp only [Reader.bind_eq_some_iff, Reader.guard_eq_some_iff, expectOp_eq_some_iff] at h
    obtain ⟨_, _, ⟨⟨hlength, -⟩, rfl⟩, _, _, ⟨checkSig, hcheckSigOp, hcheckSig, rfl⟩, _, _, hend, rfl,
      -⟩ := h
    have hempty : checkSig.rest = [] := List.isEmpty_iff.1 (Prod.mk.inj (Option.some.inj hend)).1
    have hreads : Reads s [op, checkSig] [] := .cons hop <| .cons hcheckSigOp <| hempty ▸ .nil
    rw [hreads.wellFormed, hreads.ops]
    exact ⟨rfl, .key (le_pushData4_of_length hop (by omega)) hcheckSig⟩

theorem cases_of_readLock {again : Reader (ℤ × Bool)} (h : readLock again s = some (lock, rest)) :
    (∃ op check drop, ops s = op :: check :: drop :: ops drop.rest ∧ wellFormed s = true ∧ op.Pushes ∧
        drop.opcode = .OP_DROP ∧ IsSpendTail (ops drop.rest) ∧
        (lock.2 = true ∧ check.opcode = .OP_CHECKSEQUENCEVERIFY ∨
          lock.2 = false ∧ check.opcode = .OP_CHECKLOCKTIMEVERIFY ∧ CScriptNum.setVch op.pushed = lock.1)) ∨
      ∃ op drop, getOp s = some op ∧ getOp op.rest = some drop ∧ op.Pushes ∧ drop.opcode = .OP_DROP ∧
        again drop.rest = some (lock, rest) := by
  simp only [readLock, Reader.bind_eq_some_iff, nextOp_eq_some_iff, lift_eq_some_iff] at h
  obtain ⟨op, _, ⟨hop, rfl⟩, candidate, _, ⟨hcandidate, rfl⟩, next, _, ⟨hnext, rfl⟩, h⟩ := h
  obtain ⟨hpushes, hnumber⟩ := pushes_of_lockCandidate hop hcandidate
  split at h
  · rename_i hdrop
    exact Or.inr ⟨op, next, hop, hnext, hpushes, hdrop, h⟩
  · simp only [Reader.bind_eq_some_iff, Reader.guard_eq_some_iff, lift_eq_some_iff, expectOp_eq_some_iff] at h
    obtain ⟨_, _, ⟨hcheck, rfl⟩, n, _, ⟨hn, rfl⟩, _, _, ⟨-, rfl⟩, _, _, ⟨drop, hdropOp, hdrop, rfl⟩,
      _, _, htail, h⟩ := h
    obtain ⟨hwell, htail⟩ := isSpendTail_of_readSpendTail htail
    have hreads : Reads s [op, next, drop] drop.rest := .cons hop (.cons hnext (.cons hdropOp .nil))
    refine Or.inl ⟨op, next, drop, hreads.ops, hreads.wellFormed.trans hwell, hpushes, hdrop, htail, ?_⟩
    split_ifs at h with hcltv
    · obtain rfl := (Prod.mk.inj (Option.some.inj h)).1
      exact Or.inr ⟨rfl, hcltv, hnumber n hn⟩
    · simp only [Reader.bind_eq_some_iff, Reader.guard_eq_some_iff] at h
      obtain ⟨_, _, -, h⟩ := h
      obtain rfl := (Prod.mk.inj (Option.some.inj h)).1
      exact Or.inl ⟨rfl, hcheck.resolve_left hcltv⟩

/-- What `readTimelock` finds: pushes that are dropped, and a lock. -/
theorem exists_of_readTimelock {drops : ℕ} (h : readTimelock drops s = some (lock, rest)) :
    ∃ op check k before drop tail, k ≤ drops ∧ Dropping k before ∧ op.Pushes ∧ drop.opcode = .OP_DROP ∧
      IsSpendTail tail ∧ ops s = before ++ op :: check :: drop :: tail ∧ wellFormed s = true ∧
      (lock.2 = true ∧ check.opcode = .OP_CHECKSEQUENCEVERIFY ∨
        lock.2 = false ∧ check.opcode = .OP_CHECKLOCKTIMEVERIFY ∧ CScriptNum.setVch op.pushed = lock.1) := by
  induction drops generalizing s with
  | zero =>
    rcases cases_of_readLock h with ⟨op, check, drop, hops, hwell, hpushes, hdrop, htail, hlock⟩ | ⟨_, _, _, _, _, _, h⟩
    · exact ⟨op, check, 0, [], drop, _, le_rfl, .nil, hpushes, hdrop, htail, hops, hwell, hlock⟩
    · cases h
  | succ drops ih =>
    rcases cases_of_readLock h with ⟨op, check, drop, hops, hwell, hpushes, hdrop, htail, hlock⟩ |
      ⟨op, drop, hop, hdropOp, hpushes, hdrop, h⟩
    · exact ⟨op, check, 0, [], drop, _, Nat.zero_le _, .nil, hpushes, hdrop, htail, hops, hwell, hlock⟩
    · obtain ⟨op', check, k, before, drop', tail, hk, hdropping, hpushes', hdrop', htail, hops, hwell, hlock⟩ := ih h
      have hreads : Reads s [op, drop] drop.rest := .cons hop (.cons hdropOp .nil)
      refine ⟨op', check, 1 + k, [op, drop] ++ before, drop', tail, by omega,
        .append (.wrap .nil hpushes hdrop) hdropping, hpushes', hdrop', htail, ?_, hreads.wellFormed.trans hwell, hlock⟩
      rw [hreads.ops, hops]
      rfl

/-- **The lock that is extracted stands in the script.** -/
theorem exists_lockScript_of_extractTimelock {script : CScript} {lock : Timelock}
    (h : extractTimelock script = some lock) (hpos : lock.fIsRelative = false → 0 < lock.nLockTime) :
    ∃ op check, LockScript script op check ∧
      (lock.fIsRelative = true ∧ check.opcode = .OP_CHECKSEQUENCEVERIFY ∨
        lock.fIsRelative = false ∧ check.opcode = .OP_CHECKLOCKTIMEVERIFY ∧
          CScriptNum.setVch op.pushed = lock.nLockTime) := by
  rw [extractTimelock] at h
  split at h
  · rename_i r hmatch
    split_ifs at h
    obtain rfl := Option.some.inj h
    have hlocked : IsLocked script r := by
      rcases Option.or_eq_some_iff.1 hmatch with hmatch | ⟨-, hmatch⟩
      · exact isLocked_of_matchCoinLockRegistration hmatch
      · obtain ⟨⟨nonce, challenge, _⟩, hpow, rfl⟩ := Option.map_eq_some_iff.1 hmatch
        exact isLocked_of_matchPoWLockRegistration hpow
    obtain ⟨op, check, hscript, hop, -, hnum⟩ := hlocked.exists_lockScript (hpos rfl)
    exact ⟨op, check, hscript, Or.inr ⟨rfl, hop, (CScriptNum.eq_setVch_of_ofVch hnum).symm⟩⟩
  · obtain ⟨read, hread, rfl⟩ := Option.map_eq_some_iff.1 h
    obtain ⟨rest, hread⟩ := Reader.run'_eq_some_iff.1 hread
    obtain ⟨op, check, k, before, drop, tail, hk, hdropping, hpushes, hdrop, htail, hops, hwell, hlock⟩ :=
      exists_of_readTimelock hread
    exact ⟨op, check, ⟨hwell, hpushes, k, before, drop, tail, by omega, hdropping, hdrop, htail, hops⟩, hlock⟩

theorem fIsBlockHeight_of_extractTimelock {script : CScript} {lock : Timelock}
    (h : extractTimelock script = some lock) (habsolute : lock.fIsRelative = false)
    (hblocks : lock.fIsBlockHeight = true) : lock.nLockTime < locktimeThreshold := by
  rw [extractTimelock] at h
  split at h
  · split_ifs at h
    obtain rfl := Option.some.inj h
    exact of_decide_eq_true hblocks
  · obtain ⟨read, -, rfl⟩ := Option.map_eq_some_iff.1 h
    have hread : read.2 = false := habsolute
    have hlt : (read.2 || decide (read.1 < 500000000)) = true := hblocks
    rw [hread, Bool.false_or] at hlt
    exact of_decide_eq_true hlt

end Reading

/-! ### The bonus -/

section Bonus

variable {E : ValidationEnv} {K : StakeParams} {V : StakeView} {prevout : COutPoint} {nAmount : CAmount}
  {pindexPrev : CBlockIndex} {txout : CTxOut} {lock : Timelock}

/-- The coin is given weight for a lock, on the block `pindexPrev`. -/
structure LockBonus (E : ValidationEnv) (K : StakeParams) (V : StakeView) (prevout : COutPoint)
    (nAmount : CAmount) (pindexPrev : CBlockIndex) (txout : CTxOut) (lock : Timelock) : Prop where
  upgraded : E.consensus.networkUpgradeActive (pindexPrev.nHeight + 1) .UPGRADE_POMBL = true
  notCollateral : collateralWeight E K V prevout nAmount (pindexPrev.nHeight + 1) = none
  output : getTxOut V prevout = some txout
  extracted : extractTimelock txout.scriptPubKey = some lock
  granted : (lockWeight txout.scriptPubKey nAmount (pindexPrev.nHeight + 1)).isSome = true

namespace LockBonus

variable (h : LockBonus E K V prevout nAmount pindexPrev txout lock)
include h

theorem blocks_pos : lock.fIsBlockHeight = true ∧
    0 < (if lock.fIsRelative then lock.nLockTime else lock.nLockTime - (pindexPrev.nHeight + 1)) := by
  obtain ⟨w, hw⟩ := Option.isSome_iff_exists.1 h.granted
  simp only [lockWeight, h.extracted, Option.bind_eq_bind, Option.bind_some, Option.bind_eq_some_iff,
    guard_eq_some_iff] at hw
  obtain ⟨_, hheight, _, hpos, -⟩ := hw
  exact ⟨hheight, hpos⟩

end LockBonus

/-- Blocks enforce the lock: scripts and lock times are checked, and the lock is not a relative one. -/
def LockEnforced (E : ValidationEnv) (I : ConnectInput) (pindexPrev : CBlockIndex) (lock : Timelock) : Prop :=
  I.fScriptChecks E = true ∧ E.consensus.networkUpgradeActive pindexPrev.nHeight .UPGRADE_BIP65 = true ∧
    lock.fIsRelative = false

variable {X : ContextualEnv} {I : ConnectInput}

/-- **Weight for a lock, and the lock.** While a coin is given weight for a lock, no transaction that spends
it is valid in the next block if blocks enforce the lock. If they do not, the owner can spend the coin by a
transaction that is no coinstake, as far as nothing but the lock is in the way. -/
theorem stakeLock_enforced_iff (hbonus : LockBonus E K V prevout nAmount pindexPrev txout lock)
    (hnonneg : 0 ≤ pindexPrev.nHeight) (hheight : I.pindex.nHeight = pindexPrev.nHeight + 1)
    (hpprev : I.pprev = some pindexPrev) (nBlockTime : ℤ) :
    (paysDeveloperFund E txout.scriptPubKey = false → LockEnforced E I pindexPrev lock →
        ∀ tx, ¬ValidSpend E X I nBlockTime prevout txout.scriptPubKey tx) ∧
      (∀ view coin, coin.out = txout → SpendableCoin E I.ctx I.pindex view prevout coin →
        OwnerCanSign E.crypto txout.scriptPubKey →
          ((∀ tx, tx.isCoinStake = false → ¬ValidSpend E X I nBlockTime prevout txout.scriptPubKey tx) ↔
            LockEnforced E I pindexPrev lock)) := by
  obtain ⟨hblocks, hpos⟩ := hbonus.blocks_pos
  have hlockTime (habsolute : lock.fIsRelative = false) : pindexPrev.nHeight + 1 < lock.nLockTime := by
    rw [habsolute, if_neg Bool.false_ne_true] at hpos
    omega
  obtain ⟨op, check, hscript, hlock⟩ := exists_lockScript_of_extractTimelock hbonus.extracted fun habsolute ↦ by
    have hlt := hlockTime habsolute
    omega
  have hsafe (hfund : paysDeveloperFund E txout.scriptPubKey = false) (henforced : LockEnforced E I pindexPrev lock)
      (tx : CTransaction) : ¬ValidSpend E X I nBlockTime prevout txout.scriptPubKey tx := by
    obtain ⟨hscripts, hbip65, habsolute⟩ := henforced
    have hflag := (ConnectInput.flags_checklocktimeverify hpprev).2 ⟨hscripts, hbip65⟩
    obtain ⟨-, hop, hset⟩ := hlock.resolve_left fun hrelative ↦
      Bool.false_ne_true (habsolute.symm.trans hrelative.1)
    have hlt := hlockTime habsolute
    have hkind := fIsBlockHeight_of_extractTimelock hbonus.extracted habsolute hblocks
    have hunexpired : Unexpired X I.pindex.nHeight nBlockTime lock.nLockTime := by
      rw [Unexpired, if_pos hkind]
      omega
    refine not_validSpend_of_unexpired hflag hfund (by omega) (by omega) hunexpired
      (fun checker scriptSig hverify ↦ ?_) tx
    rw [← hset]
    exact hscript.checkLockTime_of_verifyScript hop rfl hflag hverify
  refine ⟨hsafe, ?_⟩
  rintro view coin rfl hcoin howner
  refine ⟨fun hnone ↦ ?_, fun henforced tx _ ↦ hsafe hcoin.notFund henforced tx⟩
  by_contra henforced
  obtain ⟨tx, hvalid, hstake⟩ : ∃ tx, ValidSpend E X I nBlockTime prevout coin.out.scriptPubKey tx ∧
      tx.isCoinStake = false := by
    rcases hlock with ⟨-, hop⟩ | ⟨habsolute, hop, -⟩
    · exact hscript.exists_validSpend_of_relative hcoin howner hop
    · refine hscript.exists_validSpend_of_unchecked hcoin howner hop (Bool.eq_false_iff.2 fun hflag ↦ ?_)
      obtain ⟨hscripts, hbip65⟩ := (ConnectInput.flags_checklocktimeverify hpprev).1 hflag
      exact henforced ⟨hscripts, hbip65, habsolute⟩
  exact hnone tx hstake hvalid

end Bonus

/-! ### A relative lock -/

section Example

def stakerKey : Bytes := 2 :: List.replicate 32 5

def stakerScript (check : Opcode) (n : ℤ) : CScript :=
  pushAll [CScriptNum.serialize n] ++ [check, .OP_DROP, .OP_DUP, .OP_HASH160].map Opcode.toByte ++
    pushAll [((default : Crypto).hash160 stakerKey).toBytes] ++
    [Opcode.OP_EQUALVERIFY, .OP_CHECKSIG].map Opcode.toByte

def stakerOut (check : Opcode) (n : ℤ) : CTxOut := ⟨1000 * 10 ^ 8, stakerScript check n⟩

def stakerOutpoint : COutPoint := ⟨8, 0⟩

def stakerCoin (check : Opcode) (n : ℤ) : Coin := ⟨false, false, stakerOut check n, 2400⟩

def stakerView (check : Opcode) (n : ℤ) : CCoinsViewCache := .ofBase
  { getCoin := fun o ↦ if o = stakerOutpoint then some (stakerCoin check n) else none
    hashBlock := 2 }

def stakerTip : CBlockIndex := ⟨2, 1, 2500, 1700000000⟩

def stakerParams : StakeParams where
  nStakeMinAge := 3600
  nBurnDecayBlocks := 1000
  nMasternodeUptimeLimit := 50000
  nTimeLastCheckpoint := 0
  oldModifierInterval := 60
  stakeModifier _ := (false, 0)
  activeLifetime _ _ := none

def stakerStakeView (check : Opcode) (n : ℤ) : StakeView where
  mapBlockIndex := (nextOf stakerTip).ctx.mapBlockIndex
  chainActive nHeight := if nHeight = 2500 then some stakerTip else none
  height := 2500
  pcoinsTip := (stakerView check n).getCoin
  masternodes := (nextOf stakerTip).masternodes
  mapAddressBurns := ∅
  getTransaction _ := none

theorem getCoin_stakerView (check : Opcode) (n : ℤ) :
    (stakerView check n).getCoin stakerOutpoint = some (stakerCoin check n) := by
  simp [stakerView, CCoinsViewCache.getCoin, CCoinsViewCache.ofBase]

theorem lockBonus_staker {check : Opcode} {n : ℤ} {lock : Timelock}
    (hlock : extractTimelock (stakerScript check n) = some lock)
    (hgranted : (lockWeight (stakerScript check n) (1000 * 10 ^ 8) 2501).isSome = true) :
    LockBonus default stakerParams (stakerStakeView check n) stakerOutpoint (1000 * 10 ^ 8) stakerTip
      (stakerOut check n) lock where
  upgraded := by decide
  notCollateral := rfl
  output := by
    simp only [getTxOut, stakerStakeView, getCoin_stakerView]
    rfl
  extracted := hlock
  granted := hgranted

/-- A lock until height 50000 keeps the coin. -/
theorem stakeLock_enforced_height :
    extractTimelock (stakerScript .OP_CHECKLOCKTIMEVERIFY 50000) = some ⟨50000, true, false⟩ ∧
      ∀ tx, ¬ValidSpend default quietContextual (nextOf stakerTip) 1700000060 stakerOutpoint
        (stakerScript .OP_CHECKLOCKTIMEVERIFY 50000) tx := by
  have hlock : extractTimelock (stakerScript .OP_CHECKLOCKTIMEVERIFY 50000) = some ⟨50000, true, false⟩ := by
    decide
  have hiff := stakeLock_enforced_iff (X := quietContextual) (I := nextOf stakerTip)
    (lockBonus_staker hlock (by decide)) (by decide) rfl (by decide) 1700000060
  exact ⟨hlock, hiff.1 (by decide) ⟨by decide, by decide, rfl⟩⟩

/-- **Weight for a lock that holds nothing.** A coin with a relative lock of 10000 blocks is given weight for
it at every height, and its owner can spend it in the next block. -/
theorem stakeLock_relative_spent :
    LockBonus default stakerParams (stakerStakeView .OP_CHECKSEQUENCEVERIFY 10000) stakerOutpoint (1000 * 10 ^ 8)
        stakerTip (stakerOut .OP_CHECKSEQUENCEVERIFY 10000) ⟨10000, true, true⟩ ∧
      ∃ tx, ValidSpend default quietContextual (nextOf stakerTip) 1700000060 stakerOutpoint
        (stakerScript .OP_CHECKSEQUENCEVERIFY 10000) tx ∧ tx.isCoinStake = false := by
  have hlock : extractTimelock (stakerScript .OP_CHECKSEQUENCEVERIFY 10000) = some ⟨10000, true, true⟩ := by
    decide
  have hspendable : SpendableCoin default (nextOf stakerTip).ctx (nextOf stakerTip).pindex
      (stakerView .OP_CHECKSEQUENCEVERIFY 10000) stakerOutpoint (stakerCoin .OP_CHECKSEQUENCEVERIFY 10000) :=
    ⟨getCoin_stakerView _ _, by decide, by decide, nofun, by decide, by decide⟩
  have howner : OwnerCanSign default (stakerScript .OP_CHECKSEQUENCEVERIFY 10000) :=
    ownerCanSign_default stakerKey (by decide +kernel) (by decide +kernel) (by decide +kernel) (by decide)
      (by decide)
  obtain ⟨op, check, hscript, hcheck⟩ := exists_lockScript_of_extractTimelock hlock nofun
  obtain ⟨-, hop⟩ := hcheck.resolve_right nofun
  exact ⟨lockBonus_staker hlock (by decide), hscript.exists_validSpend_of_relative hspendable howner hop⟩

end Example

end KristaTech
