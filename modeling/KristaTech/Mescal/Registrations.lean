import KristaTech.Script.Timelocks
import KristaTech.Script.Numbers
import KristaTech.Mescal.Structure

/-!
# Registrations of miners

The two scripts by which a miner registers are compiled by MESCAL, recognised by
`MatchCoinLockRegistration` and `MatchPoWLockRegistration`, and run by the interpreter when they are
spent. The recognisers are sound for the interpreter, and they recognise what MESCAL compiles with the
values it was given (`registrations_recognised`): the lock time is always written as a push, never by one
of the opcodes for small numbers, whose operand would be read as zero.
-/

namespace KristaTech.Mescal

open CScript List Reader

/-! ### Reading what was compiled -/

section Reading

theorem nextPush_push {b : Bytes} (h : b.length < 2 ^ 32) (t : CScript) : nextPush (push b ++ t) = some (b, t) := by
  obtain ⟨size, hsize, hpush⟩ := pushSize_pushData h
  obtain ⟨opcode, -, hget⟩ := hsize.getOp
  refine nextPush_eq_some_iff.2 ⟨⟨opcode, b, t⟩, ?_, rfl, rfl⟩
  rw [push, hpush, append_assoc]
  exact hget t

def registrationOpcodes : List Opcode :=
  [.OP_DROP, .OP_CHECKLOCKTIMEVERIFY, .OP_DUP, .OP_HASH160, .OP_EQUALVERIFY, .OP_CHECKSIG]

theorem expectOp_opcodes {op : Opcode} (hop : op ∈ registrationOpcodes) (ops : List Opcode) (t : CScript) :
    expectOp op (opcodes (op :: ops) ++ t) = some ((), opcodes ops ++ t) := by
  have hall : ∀ op ∈ registrationOpcodes, Opcode.ofByte op.toByte = op ∧ .OP_PUSHDATA4 < op := by decide
  obtain ⟨hbyte, hlt⟩ := hall op hop
  exact expectOp_eq_some_iff.2 ⟨_, getOp_toByte hbyte hlt _, rfl, rfl⟩

theorem opcodes_nil_append (t : CScript) : opcodes [] ++ t = t := rfl

theorem guard_eq_some {p : Prop} [Decidable p] (h : p) (s : Bytes) :
    (guard p : Reader Unit) s = some ((), s) :=
  guard_eq_some_iff.2 ⟨h, rfl⟩

end Reading

variable {vchPubKey vchHash : Bytes} {t : ℤ} {r : LockRegistration} {checker : TransactionSignatureChecker}

theorem readLockTail_lockedKeyScript (hkey : (CPubKey.set vchPubKey).isValid = true)
    (hhash : vchHash.length = 20) (hnonneg : 0 ≤ t) (hlt : t < 2 ^ 31) :
    readLockTail vchPubKey (lockedKeyScript t vchHash) =
      some (⟨CPubKey.set vchPubKey, t, Uint160.ofBytes vchHash⟩, []) := by
  have hnum := CScriptNum.ofVch_serialize hnonneg hlt
  have hsize : (CScriptNum.serialize t).length < 2 ^ 32 := (length_serialize_le t).trans_lt (by decide)
  have hhashSize : vchHash.length < 2 ^ 32 := by rw [hhash]; decide
  rw [lockedKeyScript, pushScriptNum, append_assoc, append_assoc, readLockTail,
    bind_of_eq_some (nextPush_push hsize _), bind_of_eq_some (expectOp_opcodes (by decide) _ _),
    bind_of_eq_some (expectOp_opcodes (by decide) _ _),
    bind_of_eq_some (expectOp_opcodes (by decide) _ _),
    bind_of_eq_some (expectOp_opcodes (by decide) _ _), opcodes_nil_append,
    bind_of_eq_some (nextPush_push hhashSize _),
    bind_of_eq_some (guard_eq_some hhash _), ← append_nil (opcodes [.OP_EQUALVERIFY, _]),
    bind_of_eq_some (expectOp_opcodes (by decide) _ _),
    bind_of_eq_some (expectOp_opcodes (by decide) _ _),
    bind_of_eq_some (show (get : Reader Bytes) _ = some (_, _) from rfl),
    bind_of_eq_some (guard_eq_some (by rfl) _),
    bind_of_eq_some (guard_eq_some hkey _), hnum]
  rfl

/-! ### The blocks of the two scripts -/

section Blocks

variable {vchPubKey vchHash : Bytes} {t : ℤ}

theorem le_length_lockedKeyScript (hhash : vchHash.length = 20) : 26 ≤ (lockedKeyScript t vchHash).length := by
  have hpush := length_le_push vchHash
  simp only [lockedKeyScript, opcodes, map_cons, map_nil, length_append, length_cons, length_nil]
  omega

theorem matchCoinLockRegistration_block (hlength : vchPubKey.length = 33)
    (hkey : (CPubKey.set vchPubKey).isValid = true) (hhash : vchHash.length = 20) (hnonneg : 0 ≤ t)
    (hlt : t < 2 ^ 31) :
    matchCoinLockRegistration (push vchPubKey ++ opcodes [.OP_DROP] ++ lockedKeyScript t vchHash) =
      some ⟨CPubKey.set vchPubKey, t, Uint160.ofBytes vchHash⟩ := by
  have hsize : vchPubKey.length < 2 ^ 32 := by rw [hlength]; decide
  have hscript : 60 ≤ (push vchPubKey ++ opcodes [.OP_DROP] ++ lockedKeyScript t vchHash).length := by
    have hpush := length_le_push vchPubKey
    have htail : 26 ≤ (lockedKeyScript t vchHash).length := le_length_lockedKeyScript hhash
    simp only [opcodes, map_cons, map_nil, length_append, length_cons, length_nil]
    omega
  refine Option.bind_eq_some_iff.2 ⟨(), guard_eq_some_iff.2 hscript, run'_eq_some_iff.2 ⟨[], ?_⟩⟩
  rw [append_assoc, bind_of_eq_some (nextPush_push hsize _), bind_of_eq_some (guard_eq_some hlength _),
    bind_of_eq_some (expectOp_opcodes (by decide) _ _), opcodes_nil_append]
  exact readLockTail_lockedKeyScript hkey hhash hnonneg hlt

theorem matchPoWLockRegistration_block {vchNonce vchChallenge : Bytes} (hnonce : vchNonce ≠ [])
    (hnonceSize : vchNonce.length < 2 ^ 32) (hchallenge : vchChallenge.length = 32)
    (hlength : vchPubKey.length = 33) (hkey : (CPubKey.set vchPubKey).isValid = true)
    (hhash : vchHash.length = 20) (hnonneg : 0 ≤ t) (hlt : t < 2 ^ 31) :
    matchPoWLockRegistration (push vchNonce ++ push vchChallenge ++ push vchPubKey ++
        opcodes [.OP_DROP, .OP_DROP, .OP_DROP] ++ lockedKeyScript t vchHash) =
      some (vchNonce, Uint256.ofBytes vchChallenge,
        ⟨CPubKey.set vchPubKey, t, Uint160.ofBytes vchHash⟩) := by
  have hsize : vchPubKey.length < 2 ^ 32 := by rw [hlength]; decide
  have hchallengeSize : vchChallenge.length < 2 ^ 32 := by rw [hchallenge]; decide
  have hscript : 95 ≤ (push vchNonce ++ push vchChallenge ++ push vchPubKey ++
      opcodes [.OP_DROP, .OP_DROP, .OP_DROP] ++ lockedKeyScript t vchHash).length := by
    have hpush₁ := length_le_push vchNonce
    have hpush₂ := length_le_push vchChallenge
    have hpush₃ := length_le_push vchPubKey
    have hpos := length_pos_iff.2 hnonce
    have htail : 26 ≤ (lockedKeyScript t vchHash).length := le_length_lockedKeyScript hhash
    simp only [opcodes, map_cons, map_nil, length_append, length_cons, length_nil]
    omega
  have hne : (!vchNonce.isEmpty) = true := by simpa using hnonce
  refine Option.bind_eq_some_iff.2 ⟨(), guard_eq_some_iff.2 hscript, run'_eq_some_iff.2 ⟨[], ?_⟩⟩
  rw [append_assoc, append_assoc, append_assoc,
    bind_of_eq_some (nextPush_push hnonceSize _), bind_of_eq_some (guard_eq_some hne _),
    bind_of_eq_some (nextPush_push hchallengeSize _),
    bind_of_eq_some (guard_eq_some hchallenge _), bind_of_eq_some (nextPush_push hsize _),
    bind_of_eq_some (guard_eq_some hlength _),
    bind_of_eq_some (expectOp_opcodes (by decide) _ _),
    bind_of_eq_some (expectOp_opcodes (by decide) _ _),
    bind_of_eq_some (expectOp_opcodes (by decide) _ _), opcodes_nil_append,
    bind_of_eq_some (readLockTail_lockedKeyScript hkey hhash hnonneg hlt)]
  rfl

end Blocks

/-! ### Recogniser, interpreter and compiler -/

def Recognised (script : CScript) (r : LockRegistration) : Prop :=
  matchCoinLockRegistration script = some r ∨
    ∃ nonce challenge, matchPoWLockRegistration script = some (nonce, challenge, r)

theorem Recognised.le_length {script : CScript} (h : Recognised script r) : 60 ≤ script.length := by
  rcases h with h | ⟨_, _, h⟩
  · obtain ⟨_, hsize, -⟩ := Option.bind_eq_some_iff.1 h
    exact guard_eq_some_iff.1 hsize
  · obtain ⟨_, hsize, -⟩ := Option.bind_eq_some_iff.1 h
    exact (by decide : 60 ≤ 95).trans (guard_eq_some_iff.1 hsize)

/-- A spent registration, from the side of `VerifyScript`. -/
theorem unlocked_of_verifyScript {C : Crypto} {flags : ScriptFlags} {scriptSig script : CScript}
    (hmatch : Recognised script r) (hflag : flags.checklocktimeverify = true)
    (h : verifyScript C flags checker scriptSig script = .ok ()) :
    ∃ stack, evalBase C flags checker [] scriptSig = .ok stack ∧
      Unlocked C (checker.toBase C) .SIGVERSION_BASE script r stack := by
  have hlength := hmatch.le_length
  have htaproot : isTaprootScript script = false := by
    rw [isTaprootScript, beq_eq_false_iff_ne.2 (by omega : script.length ≠ 34)]
    rfl
  have hlocked : IsLocked script r := by
    rcases hmatch with hmatch | ⟨nonce, challenge, hmatch⟩
    · exact isLocked_of_matchCoinLockRegistration hmatch
    · exact isLocked_of_matchPoWLockRegistration hmatch
  obtain ⟨stack, stack', hstack, hstack', htrue⟩ :=
    exists_of_verifyScript (by rw [htaproot, Bool.and_false]) h
  exact ⟨stack, hstack, unlocked_of_evalScript hlocked hflag hstack' htrue⟩

theorem orThrow_ok {α : Type} (a : α) : orThrow (.ok a) = .ok a := rfl

/-- A `coin-lock-miner` block with the given key, lock time and hash. -/
structure CoinLockMinerBlock (block : UniValue) (vchPubKey : Bytes) (t : ℤ) (vchHash : Bytes) : Prop where
  role : (block.get "role").getStr = .ok "coin-lock-miner"
  inputs : ∃ pubkey lockTime pubkeyHash rest pubkeyHex pubkeyHashHex,
    (block.get "inputs").values = pubkey :: lockTime :: pubkeyHash :: rest ∧
      (pubkey.get "value").getStr = .ok pubkeyHex ∧ parseHex pubkeyHex = vchPubKey ∧
      (lockTime.get "value").getInt64 = .ok t ∧
      (pubkeyHash.get "value").getStr = .ok pubkeyHashHex ∧ parseHex pubkeyHashHex = vchHash

theorem CoinLockMinerBlock.compileBasicBlock_eq {block : UniValue}
    (h : CoinLockMinerBlock block vchPubKey t vchHash) : compileBasicBlock block =
      .ok (push vchPubKey ++ opcodes [.OP_DROP] ++ lockedKeyScript t vchHash) := by
  obtain ⟨pubkey, lockTime, pubkeyHash, rest, _, _, hinputs, hkey, rfl, ht, hhash, rfl⟩ := h.inputs
  rw [compileBasicBlock, h.role, hinputs, orThrow_ok, Except.ok_bind]
  show compileCoinLockMiner (pubkey :: lockTime :: pubkeyHash :: rest) = _
  rw [compileCoinLockMiner, hkey, ht, hhash]
  rfl

/-- A `pow-miner` block with the given values. -/
structure PowMinerBlock (block : UniValue) (vchNonce vchChallenge vchPubKey : Bytes) (t : ℤ)
    (vchHash : Bytes) : Prop where
  role : (block.get "role").getStr = .ok "pow-miner"
  inputs : ∃ nonce challenge pubkey lockTime pubkeyHash rest nonceHex challengeHex pubkeyHex pubkeyHashHex,
    (block.get "inputs").values = nonce :: challenge :: pubkey :: lockTime :: pubkeyHash :: rest ∧
      (nonce.get "value").getStr = .ok nonceHex ∧ parseHex nonceHex = vchNonce ∧
      (challenge.get "value").getStr = .ok challengeHex ∧ parseHex challengeHex = vchChallenge ∧
      (pubkey.get "value").getStr = .ok pubkeyHex ∧ parseHex pubkeyHex = vchPubKey ∧
      (lockTime.get "value").getInt64 = .ok t ∧
      (pubkeyHash.get "value").getStr = .ok pubkeyHashHex ∧ parseHex pubkeyHashHex = vchHash

theorem PowMinerBlock.compileBasicBlock_eq {block : UniValue} {vchNonce vchChallenge : Bytes}
    (h : PowMinerBlock block vchNonce vchChallenge vchPubKey t vchHash) :
    compileBasicBlock block = .ok (push vchNonce ++ push vchChallenge ++ push vchPubKey ++
      opcodes [.OP_DROP, .OP_DROP, .OP_DROP] ++ lockedKeyScript t vchHash) := by
  obtain ⟨nonce, challenge, pubkey, lockTime, pubkeyHash, rest, _, _, _, _, hinputs, hnonce, rfl, hchallenge,
    rfl, hkey, rfl, ht, hhash, rfl⟩ := h.inputs
  rw [compileBasicBlock, h.role, hinputs, orThrow_ok, Except.ok_bind]
  show compilePowMiner (nonce :: challenge :: pubkey :: lockTime :: pubkeyHash :: rest) = _
  rw [compilePowMiner, hnonce, hchallenge, hkey, ht, hhash]
  rfl

theorem of_checkLockTime {C : Crypto} {n : ℤ} (h : (checker.toBase C).checkLockTime n = true) :
    n ≤ checker.txTo.nLockTime.toNat ∧ checker.nSequence ≠ sequenceFinal := by
  simp only [TransactionSignatureChecker.toBase, TransactionSignatureChecker.checkLockTime, Bool.and_eq_true, decide_eq_true_eq,
    bne_iff_ne] at h
  exact ⟨h.1.2, h.2⟩

/-- **The recognisers fit the interpreter and the compiler.** Whoever spends a registration satisfies its
lock time and signs with its key; and what MESCAL compiles is recognised with its values. -/
theorem registrations_recognised (C : Crypto) :
    (∀ (flags : ScriptFlags) (checker : TransactionSignatureChecker) (scriptSig script : CScript)
        (r : LockRegistration), flags.checklocktimeverify = true → Recognised script r →
      verifyScript C flags checker scriptSig script = .ok () →
      r.lockTime ≤ checker.txTo.nLockTime.toNat ∧ checker.nSequence ≠ sequenceFinal ∧
        ∃ stack, evalBase C flags checker [] scriptSig = .ok stack ∧
          ∃ vchSig ∈ stack, ∃ vchPubKey ∈ stack, C.hash160 vchPubKey = r.pubkeyHash ∧
            ∃ code, code <:+ script ∧ checker.checkEcdsaSig C vchSig vchPubKey
              (signedCode .SIGVERSION_BASE code [vchSig]) = true) ∧
    (∀ (block : UniValue) (vchPubKey : Bytes) (t : ℤ) (vchHash : Bytes),
      CoinLockMinerBlock block vchPubKey t vchHash → vchPubKey.length = 33 →
      (CPubKey.set vchPubKey).isValid = true → vchHash.length = 20 → 0 ≤ t → t < 2 ^ 31 →
      ∃ script, compileBasicBlock block = .ok script ∧
        matchCoinLockRegistration script = some ⟨CPubKey.set vchPubKey, t, Uint160.ofBytes vchHash⟩) ∧
    (∀ (block : UniValue) (vchNonce vchChallenge vchPubKey : Bytes) (t : ℤ) (vchHash : Bytes),
      PowMinerBlock block vchNonce vchChallenge vchPubKey t vchHash → vchNonce ≠ [] →
      vchNonce.length < 2 ^ 32 → vchChallenge.length = 32 → vchPubKey.length = 33 →
      (CPubKey.set vchPubKey).isValid = true → vchHash.length = 20 → 0 ≤ t → t < 2 ^ 31 →
      ∃ script, compileBasicBlock block = .ok script ∧
        matchPoWLockRegistration script = some (vchNonce, Uint256.ofBytes vchChallenge,
          ⟨CPubKey.set vchPubKey, t, Uint160.ofBytes vchHash⟩)) := by
  refine ⟨fun flags checker scriptSig script r hflag hmatch h ↦ ?_,
    fun block vchPubKey t vchHash hblock hlength hkey hhash hnonneg hlt ↦ ?_,
    fun block vchNonce vchChallenge vchPubKey t vchHash hblock hnonce hsize hchallenge hlength hkey hhash
      hnonneg hlt ↦ ?_⟩
  · obtain ⟨stack, hstack, hunlocked⟩ := unlocked_of_verifyScript hmatch hflag h
    obtain ⟨n, hchecked, hle, -⟩ := hunlocked.checkLockTime
    obtain ⟨hlockTime, hfinal⟩ := of_checkLockTime hchecked
    exact ⟨hle.trans hlockTime, hfinal, stack, hstack, hunlocked.checkSig⟩
  · exact ⟨_, hblock.compileBasicBlock_eq, matchCoinLockRegistration_block hlength hkey hhash hnonneg hlt⟩
  · exact ⟨_, hblock.compileBasicBlock_eq,
      matchPoWLockRegistration_block hnonce hsize hchallenge hlength hkey hhash hnonneg hlt⟩

def lockedKey : Bytes := 2 :: List.replicate 32 7

def lockedScript : CScript :=
  push lockedKey ++ opcodes [.OP_DROP] ++ lockedKeyScript 500 ((default : Crypto).hash160 lockedKey).toBytes

def unlockChecker : TransactionSignatureChecker where
  txTo :=
    { nVersion := 1
      vin := [⟨⟨1, 0⟩, push [1] ++ push lockedKey, 0⟩]
      vout := [⟨0, []⟩]
      nLockTime := 600 }
  nIn := 0
  precomTxData := none

/-- The lock of a coin that is spent. -/
theorem registrations_recognised_lockedScript :
    verifyScript default { p2sh := true, checklocktimeverify := true } unlockChecker
        (push [1] ++ push lockedKey) lockedScript = .ok () ∧
      (500 : ℤ) ≤ unlockChecker.txTo.nLockTime.toNat ∧ unlockChecker.nSequence ≠ sequenceFinal := by
  have hverify : verifyScript default { p2sh := true, checklocktimeverify := true } unlockChecker
      (push [1] ++ push lockedKey) lockedScript = .ok () := Except.eq_ok_unit (by decide +kernel)
  have hmatch : matchCoinLockRegistration lockedScript =
      some ⟨CPubKey.set lockedKey, 500, (default : Crypto).hash160 lockedKey⟩ := by decide +kernel
  obtain ⟨hle, hfinal, -⟩ := (registrations_recognised default).1 _ _ _ _ _ rfl (Or.inl hmatch) hverify
  exact ⟨hverify, hle, hfinal⟩

end KristaTech.Mescal
