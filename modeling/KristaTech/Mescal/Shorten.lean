import KristaTech.Mescal.Emit
import KristaTech.Mescal.Structure

/-!
# What decompiling loses

A script that is decompiled and compiled again is not always the same, but it is never changed by
accident into the same: every loss lowers a *potential* (`Shortens`). A push becomes shorter, an
`OP_BOOLAND` or `OP_ELSE` is dropped, and where an `OP_1` is invented the potential counts it against
the length. As the potential of parts adds up, a whole is unchanged if and only if all of its parts
are (`Shortens.append_eq_iff`).

Every block that a turn of the decompiler finds is shortened by its script (`nextTurn_spec`), and so
are the branches of a conditional (`splitBranches_spec`).
-/

namespace KristaTech.Mescal

open List Option

open Action.script (scripts)

/-! ### The potential -/

/-- The length, in which an `OP_1` counts as less than nothing. -/
def potential (s : CScript) : ℤ := s.length - 2 * s.opcodes.count .OP_1

/-- The script `e` is `s`, or has a lower potential. Both are whole instructions. -/
structure Shortens (s e : CScript) : Prop where
  wellFormed : s.wellFormed = true
  wellFormed' : e.wellFormed = true
  eq_or_lt : e = s ∨ potential e < potential s

section Potential

variable {s t e f : CScript}

theorem potential_append (hs : s.wellFormed = true) (t : CScript) :
    potential (s ++ t) = potential s + potential t := by
  simp only [potential, CScript.opcodes_append hs, count_append, length_append]
  push_cast
  ring

namespace Shortens

theorem refl (hs : s.wellFormed = true) : Shortens s s := ⟨hs, hs, .inl rfl⟩

theorem le (h : Shortens s e) : potential e ≤ potential s := by
  rcases h.eq_or_lt with rfl | hlt
  · exact le_rfl
  · exact hlt.le

theorem eq_of_le (h : Shortens s e) (hle : potential s ≤ potential e) : e = s :=
  h.eq_or_lt.resolve_right hle.not_gt

/-- **A whole is unchanged if and only if its parts are.** -/
theorem append_eq_iff (hs : Shortens s e) (ht : Shortens t f) : e ++ f = s ++ t ↔ e = s ∧ f = t := by
  refine ⟨fun heq ↦ ?_, fun ⟨he, hf⟩ ↦ by rw [he, hf]⟩
  have hsum := congrArg potential heq
  rw [potential_append hs.wellFormed', potential_append hs.wellFormed] at hsum
  have hle := hs.le
  have hle' := ht.le
  exact ⟨hs.eq_of_le (by omega), ht.eq_of_le (by omega)⟩

theorem append (hs : Shortens s e) (ht : Shortens t f) : Shortens (s ++ t) (e ++ f) where
  wellFormed := by rw [CScript.wellFormed_append hs.wellFormed, ht.wellFormed]
  wellFormed' := by rw [CScript.wellFormed_append hs.wellFormed', ht.wellFormed']
  eq_or_lt := by
    rw [append_eq_iff hs ht, potential_append hs.wellFormed', potential_append hs.wellFormed]
    have hle := hs.le
    have hle' := ht.le
    rcases hs.eq_or_lt with he | hlt
    · rcases ht.eq_or_lt with hf | hlt'
      · exact .inl ⟨he, hf⟩
      · exact .inr (by omega)
    · exact .inr (by omega)

/-- Two steps change nothing if and only if neither does. -/
theorem trans_eq_iff (hs : Shortens s e) (he : Shortens e f) : f = s ↔ e = s ∧ f = e := by
  refine ⟨fun heq ↦ ?_, fun ⟨hes, hfe⟩ ↦ hfe.trans hes⟩
  have hle := hs.le
  have hle' := he.le
  rw [← heq] at hle
  have hfe : f = e := he.eq_of_le hle
  exact ⟨hfe.symm.trans heq, hfe⟩

theorem trans (hs : Shortens s e) (he : Shortens e f) : Shortens s f where
  wellFormed := hs.wellFormed
  wellFormed' := he.wellFormed'
  eq_or_lt := by
    have hle := hs.le
    have hle' := he.le
    rcases hs.eq_or_lt with rfl | hlt
    · exact he.eq_or_lt
    · exact .inr (by omega)

end Shortens

end Potential

/-! ### Instructions -/

/-- The front of the script is shortened to `e`, and the rest is `rest`. -/
def Consumes (s rest e : CScript) : Prop := ∃ raw, s = raw ++ rest ∧ Shortens raw e

theorem Consumes.trans {s t rest e f : CScript} (hs : Consumes s t e) (ht : Consumes t rest f) :
    Consumes s rest (e ++ f) := by
  obtain ⟨raw, rfl, hraw⟩ := hs
  obtain ⟨raw', rfl, hraw'⟩ := ht
  exact ⟨raw ++ raw', (append_assoc _ _ _).symm, hraw.append hraw'⟩

theorem Consumes.shortens {s rest e f : CScript} (hs : Consumes s rest e) (he : Shortens e f) :
    Consumes s rest f := by
  obtain ⟨raw, rfl, hraw⟩ := hs
  exact ⟨raw, rfl, hraw.trans he⟩

section Instructions

variable {s rest : CScript} {op : ScriptOp}

theorem potential_of_getOp (h : s.getOp = some op) (hrest : op.rest = []) (hop : op.opcode ≠ .OP_1) :
    potential s = s.length := by
  have hopcodes : s.opcodes = [op.opcode] := by
    rw [CScript.opcodes_of_getOp h, hrest]
    rfl
  simp [potential, hopcodes, hop]

variable {pattern : List Opcode} {pushes : List Bytes} {turn : Turn}

theorem pushSize_raw {size : Bytes} (hsize : CScript.PushSize vch.length size) :
    CScript.wellFormed (size ++ vch) = true ∧ potential (size ++ vch) = (size ++ vch).length := by
  obtain ⟨opcode, hopcode, hget⟩ := hsize.getOp
  have hraw : CScript.getOp (size ++ vch) = some ⟨opcode, vch, []⟩ := by
    rw [← hget, append_nil]
  refine ⟨CScript.wellFormed_single hraw rfl, potential_of_getOp hraw rfl ?_⟩
  rintro rfl
  exact absurd hopcode (by decide)

theorem push_raw (h : vch.length < 2 ^ 32) :
    CScript.wellFormed (push vch) = true ∧ potential (push vch) = (push vch).length := by
  obtain ⟨size, hsize, hpush⟩ := CScript.pushSize_pushData h
  rw [push, hpush]
  exact pushSize_raw hsize

theorem consumes_push (h : s.getOp = some op) (hle : op.opcode ≤ .OP_PUSHDATA4) :
    Consumes s op.rest (push op.vch) := by
  obtain ⟨size, hsize, hs⟩ := CScript.exists_pushSize h hle
  obtain ⟨hwf, hpotential⟩ := pushSize_raw hsize
  obtain ⟨hwf', hpotential'⟩ := push_raw hsize.lt
  refine ⟨size ++ op.vch, by rw [hs, append_assoc], hwf, hwf', ?_⟩
  rcases hsize.eq_or_lt with heq | hlt
  · exact .inl heq.symm
  · refine .inr ?_
    rw [hpotential, hpotential']
    exact_mod_cast hlt

theorem consumes_opcode (h : s.getOp = some op) (hle : ¬op.opcode ≤ .OP_PUSHDATA4) :
    Consumes s op.rest (opcodes [op.opcode]) := by
  obtain ⟨raw, hs, hget⟩ := CScript.exists_raw h
  obtain ⟨hcons, -⟩ := CScript.eq_cons_of_getOp h hle
  have hraw : raw = opcodes [op.opcode] := by
    rw [hs] at hcons
    exact (append_left_inj op.rest).1 hcons
  have hwf : raw.wellFormed = true := CScript.wellFormed_single ((append_nil raw) ▸ hget []) rfl
  exact ⟨raw, hs, hraw ▸ .refl hwf⟩

/-! ### Numbers -/

variable {vch : Bytes} {n : ShortNum}

theorem serialize_of_readNum (h : readNum vch = .ok n) : CScriptNum.serialize n = vch := by
  rw [readNum] at h
  split_ifs at h with hlength hmin
  obtain rfl := Except.ok.inj h
  exact CScriptNum.serialize_setVch (hlength.trans (by decide)) hmin

theorem pushScriptNum_of_readNum (h : readNum vch = .ok n) : pushScriptNum n = push vch := by
  rw [pushScriptNum, serialize_of_readNum h]

theorem length_of_readNum (h : readNum vch = .ok n) : vch.length ≤ 4 := by
  rw [readNum] at h
  split_ifs at h with hlength
  exact hlength

theorem potential_le (s : CScript) : potential s ≤ s.length := by
  rw [potential]
  omega

theorem shortens_pushInt (h : readNum vch = .ok n) : Shortens (push vch) (pushInt n) := by
  have hlength := length_of_readNum h
  have hserialize := serialize_of_readNum h
  obtain ⟨hwf, hpotential⟩ := push_raw (show vch.length < 2 ^ 32 by omega)
  refine ⟨hwf, (structured_pushInt n).wellFormed, ?_⟩
  rw [pushInt, CScript.pushInt64]
  split_ifs with hsmall hzero
  · -- the push has two bytes at least
    refine .inr ?_
    have hne : vch ≠ [] := by
      rintro rfl
      have hzero : readNum [] = .ok ⟨0, by decide⟩ := rfl
      rw [hzero] at h
      have hn : 0 = n.1 := congrArg Subtype.val (Except.ok.inj h)
      omega
    have hpos := length_pos_iff.2 hne
    have hpush : (push vch).length = vch.length + 1 := by
      rw [push, CScript.pushData, if_pos (by omega)]
      rfl
    rw [hpotential, hpush]
    refine (potential_le _).trans_lt ?_
    rw [nil_append, length_singleton]
    omega
  · rw [hzero] at hserialize
    rw [← hserialize]
    exact .inl rfl
  · rw [hserialize]
    exact .inl rfl

theorem pushInt_decodeOpN {opcode : Opcode}
    (h : opcode = .OP_1NEGATE ∨ (.OP_1 ≤ opcode ∧ opcode ≤ .OP_16)) :
    pushInt (decodeOpN opcode) = opcodes [opcode] := by
  have hrange : opcode.toByte.toNat = 79 ∨ (81 ≤ opcode.toByte.toNat ∧ opcode.toByte.toNat ≤ 96) := by
    rcases h with rfl | ⟨hlo, hhi⟩
    · exact .inl rfl
    · exact .inr ⟨UInt8.le_iff_toNat_le.1 hlo, UInt8.le_iff_toNat_le.1 hhi⟩
  have hone : (Opcode.OP_1.toByte.toNat : ℤ) = 81 := rfl
  have hn : (decodeOpN opcode).1 = (opcode.toByte.toNat : ℤ) - 80 := by
    show (opcode.toByte.toNat : ℤ) - (Opcode.OP_1.toByte.toNat - 1) = _
    omega
  rw [pushInt, CScript.pushInt64, hn, hone, if_pos (by omega)]
  have hbyte : ((opcode.toByte.toNat : ℤ) - 80 + (81 - 1)).toNat = opcode.toByte.toNat := by omega
  rw [hbyte, UInt8.ofNat_toNat]
  rfl

/-! ### Patterns -/

/-- A pattern with its pushes, as the compiler writes them. -/
def render : List Opcode → List Bytes → CScript
  | [], _ => []
  | expected :: pattern, pushes =>
    if expected = .OP_PUSHDATA4 then push (pushes.headD []) ++ render pattern pushes.tail
    else opcodes [expected] ++ render pattern pushes

/-- **A pattern consumes its instructions.** -/
theorem matchPattern_spec (hpattern : ∀ op ∈ pattern, op = .OP_PUSHDATA4 ∨ ¬op ≤ .OP_PUSHDATA4)
    (h : matchPattern pattern s = some (pushes, rest)) :
    Consumes s rest (render pattern pushes) ∧ rest.length + pattern.length ≤ s.length := by
  induction pattern generalizing s pushes with
  | nil =>
    obtain ⟨rfl, rfl⟩ := Prod.mk.inj (Option.some.inj h)
    exact ⟨⟨[], rfl, .refl rfl⟩, le_rfl⟩
  | cons expected pattern ih =>
    rw [forall_mem_cons] at hpattern
    rw [matchPattern] at h
    obtain ⟨op, hop, h⟩ := bind_eq_some_iff.1 h
    have hlt := CScript.length_rest_lt hop
    rw [length_cons]
    split_ifs at h with hwild
    · obtain ⟨_, hguard, h⟩ := bind_eq_some_iff.1 h
      obtain ⟨⟨pushes', rest'⟩, hmatch, h⟩ := bind_eq_some_iff.1 h
      obtain ⟨rfl, rfl⟩ := Prod.mk.inj (Option.some.inj h)
      obtain ⟨hrest, hlength⟩ := ih hpattern.2 hmatch
      rw [render, if_pos hwild]
      exact ⟨(consumes_push hop (guard_eq_some_iff.1 hguard)).trans hrest, by omega⟩
    · obtain ⟨_, hguard, h⟩ := bind_eq_some_iff.1 h
      obtain ⟨hrest, hlength⟩ := ih hpattern.2 h
      obtain rfl := guard_eq_some_iff.1 hguard
      rw [render, if_neg hwild]
      exact ⟨(consumes_opcode hop (hpattern.1.resolve_left hwild)).trans hrest, by omega⟩

/-- What a turn of the loop may find: a block that shortens the front of the script, or an `OP_IF`. -/
def Turn.Sound (s : CScript) : Turn → Prop
  | .block b rest => Consumes s rest b.script ∧ rest.length < s.length
  | .condition rest => s = Opcode.OP_IF.toByte :: rest

def SoundAt (find : CScript → Option (Except String Turn)) : Prop :=
  ∀ s turn, find s = some (.ok turn) → turn.Sound s

theorem readNum_of_readLockTime (h : readLockTime vch = .ok n) : readNum vch = .ok n :=
  Except.mapError_eq_ok_iff.1 h

theorem sound_of_matchPattern {pattern : List Opcode} {pushes : List Bytes} {b : BasicBlock}
    (hpattern : ∀ op ∈ pattern, op = .OP_PUSHDATA4 ∨ ¬op ≤ .OP_PUSHDATA4) (hne : pattern ≠ [])
    (h : matchPattern pattern s = some (pushes, rest)) (hscript : render pattern pushes = b.script) :
    (Turn.block b rest).Sound s := by
  obtain ⟨hconsumes, hlength⟩ := matchPattern_spec hpattern h
  have hpos := length_pos_iff.2 hne
  exact ⟨hscript ▸ hconsumes, by omega⟩

theorem eq_of_map_readLockTime {f : ShortNum → Turn}
    (h : some ((readLockTime vch).map f) = some (.ok turn)) :
    ∃ n, readNum vch = .ok n ∧ turn = f n := by
  cases hn : readLockTime vch with
  | error e =>
    rw [hn] at h
    cases Option.some.inj h
  | ok n =>
    rw [hn] at h
    exact ⟨n, readNum_of_readLockTime hn, (Except.ok.inj (Option.some.inj h)).symm⟩

theorem soundAt_coinLockMiner : SoundAt coinLockMinerAt := by
  intro s turn h
  rw [coinLockMinerAt] at h
  split at h
  · rename_i pubkey lockTimeVal pubkeyHash rest hmatch
    split_ifs at h
    obtain ⟨n, hn, rfl⟩ := eq_of_map_readLockTime h
    refine sound_of_matchPattern (by decide) (by simp) hmatch ?_
    simp [render, lockedKeyPattern, BasicBlock.script, lockedKeyScript, opcodes,
      pushScriptNum_of_readNum hn]
  · cases h

theorem soundAt_powMiner : SoundAt powMinerAt := by
  intro s turn h
  rw [powMinerAt] at h
  split at h
  · rename_i nonce challenge pubkey lockTimeVal pubkeyHash rest hmatch
    split_ifs at h
    obtain ⟨n, hn, rfl⟩ := eq_of_map_readLockTime h
    refine sound_of_matchPattern (by decide) (by simp) hmatch ?_
    simp [render, lockedKeyPattern, BasicBlock.script, lockedKeyScript, opcodes,
      pushScriptNum_of_readNum hn]
  · cases h

theorem soundAt_lockTime : SoundAt lockTimeAt := by
  intro s turn h
  rw [lockTimeAt] at h
  split at h
  · rename_i val rest hmatch
    obtain ⟨n, hn, rfl⟩ := eq_of_map_readLockTime h
    refine sound_of_matchPattern (by decide) (by simp) hmatch ?_
    simp [render, BasicBlock.script, opcodes, pushScriptNum_of_readNum hn]
  · cases h

theorem soundAt_equalverifyChecksig : SoundAt equalverifyChecksigAt := by
  intro s turn h
  rw [equalverifyChecksigAt] at h
  split at h
  · rename_i pubkeyHash rest hmatch
    obtain rfl := Except.ok.inj (Option.some.inj h)
    exact sound_of_matchPattern (by decide) (by simp) hmatch (by simp [render, BasicBlock.script, opcodes])
  · cases h

theorem soundAt_checkSignature (verify : Bool) : SoundAt (checkSignatureAt verify) := by
  intro s turn h
  rw [checkSignatureAt] at h
  split at h
  · rename_i pubkey rest hmatch
    split_ifs at h
    obtain rfl := Except.ok.inj (Option.some.inj h)
    cases verify
    all_goals
      exact sound_of_matchPattern (by decide) (by simp) hmatch
        (by simp [render, BasicBlock.script, opcodes])
  · cases h

theorem soundAt_hash160Equal : SoundAt hash160EqualAt := by
  intro s turn h
  rw [hash160EqualAt] at h
  split at h
  · rename_i hash rest hmatch
    split_ifs at h
    obtain rfl := Except.ok.inj (Option.some.inj h)
    exact sound_of_matchPattern (by decide) (by simp) hmatch (by simp [render, BasicBlock.script, opcodes])
  · cases h

theorem soundAt_hash160 : SoundAt hash160At := by
  intro s turn h
  rw [hash160At] at h
  split at h
  · rename_i value rest hmatch
    obtain rfl := Except.ok.inj (Option.some.inj h)
    exact sound_of_matchPattern (by decide) (by simp) hmatch (by simp [render, BasicBlock.script, opcodes])
  · cases h

theorem consumes_scriptInt (h : s.getOp = some op) (hn : decodeScriptInt op = some n) (hpos : 0 < n.1) :
    Consumes s op.rest (pushInt n) := by
  rw [decodeScriptInt] at hn
  split_ifs at hn with hzero hsmall hpush
  · obtain rfl := Option.some.inj hn
    exact absurd hpos (by decide)
  · obtain rfl := Option.some.inj hn
    rw [pushInt_decodeOpN (.inr hsmall)]
    refine consumes_opcode h fun hle ↦ ?_
    exact absurd (UInt8.le_trans hsmall.1 hle) (by decide)
  · have hread : readNum op.vch = .ok n := by
      cases hread : readNum op.vch with
      | error e =>
        rw [hread] at hn
        cases hn
      | ok n' =>
        rw [hread] at hn
        rw [Option.some.inj hn]
    exact (consumes_push h hpush.1).shortens (shortens_pushInt hread)

theorem consumes_keys (h : (s.ops.dropWhile isKeyPush).head? = some op) :
    ∃ t, CScript.getOp t = some op ∧ t.length ≤ s.length ∧
      Consumes s t (((s.ops.takeWhile isKeyPush).map (·.vch)).flatMap push) := by
  induction hlength : s.length using Nat.strong_induction_on generalizing s with
  | _ l ih =>
    cases hget : s.getOp with
    | none =>
      rw [CScript.ops_of_getOp_eq_none hget] at h
      cases h
    | some key =>
      rw [CScript.ops_of_getOp hget] at h ⊢
      by_cases hkey : isKeyPush key = true
      · rw [dropWhile_cons_of_pos hkey] at h
        rw [takeWhile_cons_of_pos hkey]
        have hlt := CScript.length_rest_lt hget
        obtain ⟨t, ht, hle, hconsumes⟩ := ih _ (hlength ▸ hlt) h rfl
        have hpush : key.opcode ≤ .OP_PUSHDATA4 := by
          rw [isKeyPush, Bool.and_eq_true, decide_eq_true_eq] at hkey
          exact hkey.1
        exact ⟨t, ht, by omega, (consumes_push hget hpush).trans hconsumes⟩
      · rw [dropWhile_cons_of_neg hkey] at h
        rw [takeWhile_cons_of_neg hkey]
        obtain rfl := Option.some.inj h
        exact ⟨s, hget, hlength.le, [], rfl, .refl rfl⟩

theorem soundAt_multiSignature : SoundAt multiSignatureAt := by
  intro s turn h
  obtain ⟨opM, hopM, h⟩ := bind_eq_some_iff.1 h
  obtain ⟨m, hm, h⟩ := bind_eq_some_iff.1 h
  obtain ⟨opN, hopN, h⟩ := bind_eq_some_iff.1 h
  obtain ⟨n, hn, h⟩ := bind_eq_some_iff.1 h
  obtain ⟨opCheck, hopCheck, h⟩ := bind_eq_some_iff.1 h
  split_ifs at h with hall
  obtain rfl := Except.ok.inj (Option.some.inj h)
  obtain ⟨⟨hpos, -⟩, hne, hlength, -, hcheck⟩ := hall
  obtain ⟨t, ht, hle, hkeys⟩ := consumes_keys hopN
  have hposN : 0 < n.1 := by
    have hkeysPos := length_pos_iff.2 hne
    omega
  have hmulti : ¬opCheck.opcode ≤ .OP_PUSHDATA4 := by
    rw [hcheck]
    decide
  have hm := consumes_scriptInt hopM hm hpos
  have hn := consumes_scriptInt ht hn hposN
  have hcheckSig := consumes_opcode hopCheck hmulti
  rw [hcheck] at hcheckSig
  rw [hlength] at hn
  have hltM := CScript.length_rest_lt hopM
  have hltN := CScript.length_rest_lt ht
  have hltCheck := CScript.length_rest_lt hopCheck
  refine ⟨?_, by omega⟩
  exact ((hm.trans hkeys).trans hn).trans hcheckSig

theorem genericTurn_sound (h : genericTurn s = .ok turn) : turn.Sound s := by
  rw [genericTurn] at h
  split at h
  · cases h
  · rename_i op hop
    have hlt := CScript.length_rest_lt hop
    by_cases hpush : op.opcode ≤ .OP_PUSHDATA4
    · rw [if_pos hpush] at h
      split at h
      · rename_i n hn
        obtain rfl := Except.ok.inj h
        exact ⟨(consumes_push hop hpush).shortens (shortens_pushInt hn), hlt⟩
      · cases h
    rw [if_neg hpush] at h
    have hconsumes := consumes_opcode hop hpush
    by_cases hsmall : op.opcode = .OP_1NEGATE ∨ (.OP_1 ≤ op.opcode ∧ op.opcode ≤ .OP_16)
    · rw [if_pos hsmall] at h
      obtain rfl := Except.ok.inj h
      rw [← pushInt_decodeOpN hsmall] at hconsumes
      exact ⟨hconsumes, hlt⟩
    rw [if_neg hsmall] at h
    split at h
    · rename_i operation hfind
      obtain rfl := Except.ok.inj h
      have hopcode : operation.opcode = op.opcode := by simpa using find?_some hfind
      rw [← hopcode] at hconsumes
      exact ⟨hconsumes, hlt⟩
    · split_ifs at h with hif
      obtain rfl := Except.ok.inj h
      rw [Turn.Sound, ← hif]
      exact (CScript.eq_cons_of_getOp hop hpush).1

/-- **What a turn finds is sound.** -/
theorem nextTurn_spec (h : nextTurn s = .ok turn) : turn.Sound s := by
  rw [nextTurn] at h
  cases hfind : List.findSome? (· s) [coinLockMinerAt, powMinerAt, multiSignatureAt, lockTimeAt,
      equalverifyChecksigAt, checkSignatureAt true, checkSignatureAt false, hash160EqualAt,
      hash160At] with
  | none =>
    rw [hfind] at h
    exact genericTurn_sound h
  | some found =>
    rw [hfind] at h
    obtain rfl : found = .ok turn := h
    have hsound : ∀ find ∈ [coinLockMinerAt, powMinerAt, multiSignatureAt, lockTimeAt,
        equalverifyChecksigAt, checkSignatureAt true, checkSignatureAt false, hash160EqualAt,
        hash160At], SoundAt find := by
      simp only [forall_mem_cons, not_mem_nil, false_implies, implies_true, and_true]
      exact ⟨soundAt_coinLockMiner, soundAt_powMiner, soundAt_multiSignature, soundAt_lockTime,
        soundAt_equalverifyChecksig, soundAt_checkSignature true, soundAt_checkSignature false,
        soundAt_hash160Equal, soundAt_hash160⟩
    obtain ⟨find, hmem, hfound⟩ := exists_of_findSome?_eq_some hfind
    exact hsound find hmem s turn hfound

end Instructions

/-! ### Branches -/

/-- A false branch with its `OP_ELSE`, if there is one. -/
def elsePart (f : CScript) : CScript := if f.isEmpty then [] else opcodes [.OP_ELSE] ++ f

section Branches

variable {s p raw : CScript} {op : ScriptOp} {b b' : Branches}

/-- What was read of a conditional, `p`, against the branches that were found in it. -/
structure SplitInvariant (p : CScript) (b : Branches) : Prop where
  trueScript : b.trueScript.wellFormed = true
  falseScript : b.falseScript.wellFormed = true
  inTrue : b.inFalse = false → p = b.trueScript ∧ b.falseScript = []
  inFalse : b.inFalse = true → Shortens p (b.trueScript ++ (opcodes [.OP_ELSE] ++ b.falseScript))

theorem potential_else : potential (opcodes [.OP_ELSE]) = 1 := by decide

theorem SplitInvariant.add (h : SplitInvariant p b) (hraw : raw.wellFormed = true) :
    SplitInvariant (p ++ raw) (b.add raw) := by
  cases hin : b.inFalse with
  | false =>
    obtain ⟨rfl, hfalse⟩ := h.inTrue hin
    rw [Branches.add, hin, if_neg Bool.false_ne_true]
    refine ⟨?_, h.falseScript, fun _ ↦ ⟨rfl, hfalse⟩, fun htrue ↦ ?_⟩
    · exact (CScript.wellFormed_append h.trueScript raw).trans hraw
    · cases htrue
  | true =>
    rw [Branches.add, hin, if_pos rfl]
    refine ⟨h.trueScript, ?_, fun hfalse ↦ ?_, fun _ ↦ ?_⟩
    · exact (CScript.wellFormed_append h.falseScript raw).trans hraw
    · cases hfalse
    · have happend := (h.inFalse hin).append (.refl hraw)
      rwa [append_assoc, append_assoc] at happend

/-- An `OP_ELSE` starts the false branch; a second one is lost. -/
theorem SplitInvariant.else (h : SplitInvariant p b) :
    SplitInvariant (p ++ opcodes [.OP_ELSE]) { b with inFalse := true } := by
  refine ⟨h.trueScript, h.falseScript, fun hfalse ↦ (by cases hfalse), fun _ ↦ ?_⟩
  cases hin : b.inFalse with
  | false =>
    obtain ⟨rfl, hfalse⟩ := h.inTrue hin
    rw [hfalse, append_nil]
    exact .refl ((CScript.wellFormed_append h.trueScript _).trans rfl)
  | true =>
    have hshort := h.inFalse hin
    refine ⟨(CScript.wellFormed_append hshort.wellFormed _).trans rfl, hshort.wellFormed', .inr ?_⟩
    have hle := hshort.le
    rw [potential_append hshort.wellFormed, potential_else]
    exact Int.lt_add_one_of_le hle

theorem SplitInvariant.close (h : SplitInvariant p b) :
    Shortens p (b.trueScript ++ elsePart b.falseScript) := by
  cases hin : b.inFalse with
  | false =>
    obtain ⟨rfl, hfalse⟩ := h.inTrue hin
    rw [hfalse, elsePart, isEmpty_nil, if_pos rfl, append_nil]
    exact .refl h.trueScript
  | true =>
    have hshort := h.inFalse hin
    rw [elsePart]
    split_ifs with hempty
    · -- the `OP_ELSE` of an empty branch is lost
      rw [isEmpty_iff.1 hempty, append_nil] at hshort
      rw [append_nil]
      refine ⟨hshort.wellFormed, h.trueScript, .inr ?_⟩
      have hle := hshort.le
      rw [potential_append h.trueScript, potential_else] at hle
      omega
    · exact hshort

/-- The branches `b'` that were found in `s`, after those of `b` in `p`. -/
structure Splits (p s : CScript) (b b' : Branches) : Prop where
  trueScript : b'.trueScript.wellFormed = true
  falseScript : b'.falseScript.wellFormed = true
  shorter : b'.trueScript.length + b'.falseScript.length + b'.rest.length <
    b.trueScript.length + b.falseScript.length + s.length
  shortens : ∃ raw, s = raw ++ b'.rest ∧
    Shortens (p ++ raw) (b'.trueScript ++ elsePart b'.falseScript ++ opcodes [.OP_ENDIF])

theorem Splits.after {rest : CScript} {b₁ : Branches} (hs : s = raw ++ rest)
    (hlength : b₁.trueScript.length + b₁.falseScript.length ≤
      b.trueScript.length + b.falseScript.length + raw.length)
    (h : Splits (p ++ raw) rest b₁ b') : Splits p s b b' := by
  obtain ⟨raw', hrest, hshort⟩ := h.shortens
  have hlt := h.shorter
  have hlen := congrArg List.length hs
  rw [length_append] at hlen
  refine ⟨h.trueScript, h.falseScript, by omega, raw ++ raw', ?_, ?_⟩
  · rw [append_assoc, ← hrest, hs]
  · rwa [← append_assoc]

/-- **The branches shorten the conditional.** -/
theorem splitBranches_spec {levels fuel ifDepth : ℕ} (h : splitBranches levels fuel ifDepth b s = .ok b')
    (hp : SplitInvariant p b) : Splits p s b b' := by
  induction fuel generalizing p b s ifDepth with
  | zero => cases h
  | succ fuel ih =>
    rw [splitBranches] at h
    split at h
    · cases h
    rename_i op hop
    obtain ⟨raw, hs, hget⟩ := CScript.exists_raw hop
    have hraw : raw.wellFormed = true := CScript.wellFormed_single ((append_nil raw) ▸ hget []) rfl
    have hbefore : rawBefore s op.rest = raw := by
      rw [rawBefore, hs, length_append, Nat.add_sub_cancel, take_left]
    -- an instruction that belongs to a branch
    have hadd {ifDepth : ℕ} (h : splitBranches levels fuel ifDepth (b.add raw) op.rest = .ok b') :
        Splits p s b b' := by
      refine (ih h (hp.add hraw)).after hs ?_
      rw [Branches.add]
      split_ifs <;> simp only [length_append] <;> omega
    -- an opcode that is one byte
    have hbyte {opcode : Opcode} (hopcode : op.opcode = opcode) (hgt : ¬opcode ≤ .OP_PUSHDATA4) :
        s = opcodes [opcode] ++ op.rest := by
      rw [← hopcode] at hgt ⊢
      exact (CScript.eq_cons_of_getOp hop hgt).1
    rw [hbefore] at h
    dsimp only at h
    split_ifs at h with hif hdepth hendif hclosed helse
    · exact hadd h
    · obtain rfl := Except.ok.inj h
      have hs' := hbyte hendif (by decide)
      refine ⟨hp.trueScript, hp.falseScript, ?_, opcodes [.OP_ENDIF], hs', ?_⟩
      · have hlen := CScript.length_rest_lt hop
        dsimp only
        omega
      · exact hp.close.append (.refl rfl)
    · exact hadd h
    · refine (ih h hp.else).after (hbyte helse.1 (by decide)) ?_
      exact Nat.le_add_right _ _
    · exact hadd h

end Branches

/-! ### Expressions -/

section Expressions

variable {exprs stack : List Action}

def stackScript (stack : List Action) : CScript := (scripts stack.reverse).flatten

theorem scripts_append (l l' : List Action) : scripts (l ++ l') = scripts l ++ scripts l' := by
  induction l with
  | nil => rfl
  | cons action l ih => rw [cons_append, scripts, ih]; rfl

@[simp]
theorem stackScript_cons (action : Action) (stack : List Action) :
    stackScript (action :: stack) = stackScript stack ++ action.script := by
  rw [stackScript, reverse_cons, scripts_append, flatten_append]
  simp [scripts, stackScript]

theorem script_of_isBoolAnd {action : Action} (h : action.isBoolAnd = true) :
    action.script = opcodes [.OP_BOOLAND] := by
  cases action with
  | basic name block =>
    rw [Action.isBoolAnd, BasicBlock.isBoolAnd.eq_def] at h
    split at h
    · rfl
    · cases h
  | alwaysTrue => cases h
  | condition name exprs trueBranch falseBranch => cases h

/-- A `bool-and` two below another one, which `popExpressions` takes for an expression. -/
def chained {α : Type} (isBoolAnd : α → Bool) : List α → Bool
  | top :: _ :: z :: _ => isBoolAnd top && isBoolAnd z
  | _ => false

def AllWellFormed (l : List Action) : Prop := ∀ action ∈ l, action.script.wellFormed = true

theorem wellFormed_flatten {l : List CScript} (h : ∀ s ∈ l, s.wellFormed = true) :
    CScript.wellFormed l.flatten = true := by
  induction l with
  | nil => rfl
  | cons s l ih =>
    rw [forall_mem_cons] at h
    rw [flatten_cons, CScript.wellFormed_append h.1, ih h.2]

theorem mem_scripts {l : List Action} {s : CScript} (h : s ∈ scripts l) : ∃ a ∈ l, s = a.script := by
  induction l with
  | nil => cases h
  | cons action l ih =>
    rcases mem_cons.1 h with rfl | h
    · exact ⟨action, mem_cons_self, rfl⟩
    · obtain ⟨a, ha, rfl⟩ := ih h
      exact ⟨a, mem_cons_of_mem _ ha, rfl⟩

namespace AllWellFormed

theorem scripts (h : AllWellFormed stack) : ∀ s ∈ scripts stack, s.wellFormed = true := by
  intro s hs
  obtain ⟨a, ha, rfl⟩ := mem_scripts hs
  exact h a ha

theorem stackScript (h : AllWellFormed stack) : (stackScript stack).wellFormed = true :=
  wellFormed_flatten (scripts fun a ha ↦ h a (mem_reverse.1 ha))

theorem joinExpressions (h : AllWellFormed exprs) :
    (joinExpressions (Action.script.scripts exprs)).wellFormed = true := by
  cases exprs with
  | nil => rfl
  | cons e exprs =>
    rw [Action.script.scripts, Mescal.joinExpressions,
      CScript.wellFormed_append (h e mem_cons_self), flatMap_def]
    refine wellFormed_flatten (forall_mem_map.2 fun s hs ↦ ?_)
    have hs := scripts (fun a ha ↦ h a (mem_cons_of_mem _ ha)) s hs
    exact (CScript.wellFormed_append hs _).trans rfl

end AllWellFormed

/-- The script of a stack and of the expressions that were taken from it. -/
def poppedScript (r : List Action × List Action) : CScript :=
  stackScript r.2 ++ joinExpressions (scripts r.1)

theorem popExpressions_of_not {α : Type} {isBoolAnd : α → Bool} {last : α} {exprs stack : List α}
    (h : isBoolAnd last = false) :
    popExpressions isBoolAnd (last :: exprs) stack = (last :: exprs, stack) := by
  rw [popExpressions.eq_def]
  split
  · rename_i heq
    obtain ⟨rfl, rfl⟩ := List.cons.inj heq
    rw [h, if_neg Bool.false_ne_true]
  · rfl

variable {last : Action}

/-- The `bool-and` that is taken for an expression is lost. -/
theorem potential_poppedScript_lt {y z : Action} (hlast : last.isBoolAnd = true)
    (hstack : AllWellFormed (y :: z :: stack)) : potential (poppedScript (y :: exprs, z :: stack)) <
      potential (poppedScript (last :: exprs, y :: z :: stack)) := by
  have hy : y.script.wellFormed = true := hstack y mem_cons_self
  have hz : (stackScript (z :: stack)).wellFormed = true :=
    AllWellFormed.stackScript fun a ha ↦ hstack a (mem_cons_of_mem _ ha)
  have hand : potential (opcodes [.OP_BOOLAND]) = 1 := by decide
  have hyz : (stackScript (z :: stack) ++ y.script).wellFormed = true :=
    (CScript.wellFormed_append hz _).trans hy
  simp only [poppedScript, scripts, joinExpressions, script_of_isBoolAnd hlast]
  rw [stackScript_cons y, potential_append hz, potential_append hy, potential_append hyz,
    potential_append hz, potential_append (show CScript.wellFormed (opcodes [.OP_BOOLAND]) = true from rfl),
    hand]
  omega

/-- The `bool-and` between two other expressions is written again. -/
theorem poppedScript_eq {y z : Action} (hlast : last.isBoolAnd = true) :
    poppedScript (z :: y :: exprs, stack) = poppedScript (last :: exprs, y :: z :: stack) := by
  simp [poppedScript, scripts, joinExpressions, script_of_isBoolAnd hlast]

theorem popExpressions_shortens (hexprs : AllWellFormed exprs) (hstack : AllWellFormed stack) :
    Shortens (poppedScript (exprs, stack))
      (poppedScript (popExpressions Action.isBoolAnd exprs stack)) := by
  have hsame : (poppedScript (exprs, stack)).wellFormed = true :=
    (CScript.wellFormed_append hstack.stackScript _).trans hexprs.joinExpressions
  fun_induction popExpressions Action.isBoolAnd exprs stack with
  | case1 last exprs y z stack hlast hz ih =>
    have hexprs' : AllWellFormed (y :: exprs) :=
      forall_mem_cons.2 ⟨hstack y mem_cons_self, (forall_mem_cons.1 hexprs).2⟩
    have hstack' : AllWellFormed (z :: stack) := (forall_mem_cons.1 hstack).2
    have hwf : (poppedScript (y :: exprs, z :: stack)).wellFormed = true :=
      (CScript.wellFormed_append hstack'.stackScript _).trans hexprs'.joinExpressions
    have hstep : Shortens (poppedScript (last :: exprs, y :: z :: stack))
        (poppedScript (y :: exprs, z :: stack)) :=
      ⟨hsame, hwf, .inr (potential_poppedScript_lt hlast hstack)⟩
    exact hstep.trans (ih hexprs' hstack' hwf)
  | case2 last exprs y z stack hlast hz ih =>
    have hexprs' : AllWellFormed (z :: y :: exprs) :=
      forall_mem_cons.2 ⟨hstack z (by simp), forall_mem_cons.2
        ⟨hstack y mem_cons_self, (forall_mem_cons.1 hexprs).2⟩⟩
    have hstack' : AllWellFormed stack := (forall_mem_cons.1 (forall_mem_cons.1 hstack).2).2
    rw [← poppedScript_eq hlast] at hsame ⊢
    exact ih hexprs' hstack' hsame
  | case3 => exact .refl hsame
  | case4 => exact .refl hsame

/-- **The expressions of a condition shorten the stack**: an `OP_BOOLAND` is lost where two are
chained. -/
theorem popExpressions_eq_iff (hwf : AllWellFormed (last :: stack)) :
    poppedScript (popExpressions Action.isBoolAnd [last] stack) = stackScript (last :: stack) ↔
      chained Action.isBoolAnd (last :: stack) = false := by
  have hstart : stackScript (last :: stack) = poppedScript ([last], stack) := by
    simp [poppedScript, scripts, joinExpressions]
  rw [hstart]
  cases hlast : last.isBoolAnd with
  | false =>
    have hchained : chained Action.isBoolAnd (last :: stack) = false := by
      rw [chained.eq_def]
      split <;> simp_all
    rw [popExpressions_of_not hlast]
    exact ⟨fun _ ↦ hchained, fun _ ↦ rfl⟩
  | true =>
    rcases stack with _ | ⟨y, _ | ⟨z, stack⟩⟩
    · exact ⟨fun _ ↦ rfl, fun _ ↦ rfl⟩
    · exact ⟨fun _ ↦ rfl, fun _ ↦ rfl⟩
    · obtain ⟨-, hstack⟩ := forall_mem_cons.1 hwf
      rw [popExpressions, if_pos hlast]
      cases hz : z.isBoolAnd with
      | false =>
        rw [if_neg Bool.false_ne_true, popExpressions_of_not hz, poppedScript_eq hlast]
        exact ⟨fun _ ↦ by simp [chained, hz], fun _ ↦ rfl⟩
      | true =>
        -- the rest can only lose more
        have hy : AllWellFormed [y] := forall_mem_singleton.2 (hstack y mem_cons_self)
        have hle := (popExpressions_shortens hy (forall_mem_cons.1 hstack).2).le
        have hlt : potential (poppedScript ([y], z :: stack)) <
          potential (poppedScript ([last], y :: z :: stack)) := potential_poppedScript_lt hlast hstack
        rw [if_pos rfl]
        refine ⟨fun heq ↦ ?_, fun h ↦ by simp [chained, hlast, hz] at h⟩
        rw [heq] at hle
        omega

theorem mem_of_mem_popExpressions {α : Type} {isBoolAnd : α → Bool} {exprs stack : List α} {a : α}
    (ha : a ∈ (popExpressions isBoolAnd exprs stack).1 ∨ a ∈ (popExpressions isBoolAnd exprs stack).2) :
    a ∈ exprs ∨ a ∈ stack := by
  fun_induction popExpressions isBoolAnd exprs stack with
  | case1 last exprs y z stack hlast hz ih =>
    have := ih ha
    simp only [mem_cons] at this ⊢
    tauto
  | case2 last exprs y z stack hlast hz ih =>
    have := ih ha
    simp only [mem_cons] at this ⊢
    tauto
  | case3 => exact ha
  | case4 => exact ha

variable {st : DecompileState}

theorem allWellFormed_expressions (h : AllWellFormed st.stack) :
    AllWellFormed st.expressions.1 ∧ AllWellFormed st.expressions.2 := by
  rw [DecompileState.expressions]
  cases hstack : st.stack with
  | nil => exact ⟨forall_mem_singleton.2 rfl, fun _ hmem ↦ by cases hmem⟩
  | cons last stack =>
    rw [hstack] at h
    have hall {a : Action} (ha : a ∈ [last] ∨ a ∈ stack) : a.script.wellFormed = true :=
      h a (mem_append.2 ha)
    exact ⟨fun a ha ↦ hall (mem_of_mem_popExpressions (.inl ha)),
      fun a ha ↦ hall (mem_of_mem_popExpressions (.inr ha))⟩

/-- **What an `OP_IF` takes from the stack shortens it**; on an empty stack, an `OP_1` is invented. -/
theorem expressions_spec (h : AllWellFormed st.stack) :
    Shortens (stackScript st.stack) (poppedScript st.expressions) ∧
      (poppedScript st.expressions = stackScript st.stack ↔
        st.stack ≠ [] ∧ chained Action.isBoolAnd st.stack = false) := by
  rw [DecompileState.expressions]
  cases hstack : st.stack with
  | nil =>
    have hone : poppedScript ([.alwaysTrue], []) = opcodes [.OP_1] := rfl
    dsimp only
    rw [hone]
    refine ⟨⟨rfl, rfl, .inr (by decide)⟩, fun heq ↦ ?_, fun hne ↦ absurd rfl hne.1⟩
    cases heq
  | cons last stack =>
    rw [hstack] at h
    have hlast : AllWellFormed [last] := forall_mem_singleton.2 (h last mem_cons_self)
    have hstart : poppedScript ([last], stack) = stackScript (last :: stack) := by
      simp [poppedScript, scripts, joinExpressions]
    have hshort := popExpressions_shortens hlast (forall_mem_cons.1 h).2
    rw [hstart] at hshort
    dsimp only
    rw [popExpressions_eq_iff h]
    exact ⟨hshort, fun hchained ↦ ⟨cons_ne_nil _ _, hchained⟩, And.right⟩

end Expressions

end KristaTech.Mescal
