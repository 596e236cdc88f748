import KristaTech.Mescal.Compile
import KristaTech.Script.Run

/-!
# The structure of a compiled contract

Every contract that compiles is a sequence of whole instructions in which the conditionals are
balanced and have at most one `OP_ELSE` (`fits_compile`), as long as the script's length fits into the
32 bits that a `CScript` has for it.

The conditionals are followed from part to part (`CScript.Scans`): `OP_IF` opens one, `OP_ELSE` turns
it, `OP_ENDIF` closes it, and the other parts leave the open ones alone.
-/

namespace KristaTech

open List Except

/-! ### Parts that are structured -/

/-- An opcode that is one byte, is always ordinary and opens or closes nothing. -/
structure Opcode.Plain (op : Opcode) : Prop where
  byte : Opcode.ofByte op.toByte = op
  notPush : .OP_PUSHDATA4 < op
  separator : op ≠ .OP_CODESEPARATOR
  enabled : isDisabled op = false
  conditional : ¬(.OP_IF ≤ op ∧ op ≤ .OP_ENDIF)

instance (op : Opcode) : Decidable op.Plain :=
  decidable_of_iff (Opcode.ofByte op.toByte = op ∧ .OP_PUSHDATA4 < op ∧ op ≠ .OP_CODESEPARATOR ∧
    isDisabled op = false ∧ ¬(.OP_IF ≤ op ∧ op ≤ .OP_ENDIF))
    ⟨fun ⟨h₁, h₂, h₃, h₄, h₅⟩ ↦ ⟨h₁, h₂, h₃, h₄, h₅⟩,
      fun h ↦ ⟨h.byte, h.notPush, h.separator, h.enabled, h.conditional⟩⟩

theorem Opcode.not_mem_conditionalOpcodes {op : Opcode} (h : ¬(.OP_IF ≤ op ∧ op ≤ .OP_ENDIF)) :
    op ∉ conditionalOpcodes := by
  have hall : ∀ op ∈ conditionalOpcodes, .OP_IF ≤ op ∧ op ≤ .OP_ENDIF := by decide
  exact fun hmem ↦ h (hall op hmem)

theorem Opcode.not_isDisabled_of_le {op : Opcode} (h : op ≤ .OP_PUSHDATA4) : isDisabled op = false := by
  cases op
  all_goals first
    | rfl
    | exact absurd h (by decide)

/-- A part of a script that takes the open conditionals `a` to `b`. -/
structure CScript.Scans (s : CScript) (a b : List Bool) : Prop where
  wellFormed : s.wellFormed = true
  scan : ∀ conds, s.opcodes.foldlM scanConditional (a ++ conds) = some (b ++ conds)
  ordinary : ∀ op ∈ s.opcodes, op.Ordinary

namespace CScript.Scans

variable {s t : CScript} {a b c : List Bool}

theorem structured (hs : s.Scans [] []) : s.Structured := ⟨hs.wellFormed, hs.scan, hs.ordinary⟩

theorem of_structured (hs : s.Structured) (a : List Bool) : s.Scans a a :=
  ⟨hs.wellFormed, fun conds ↦ hs.nested (a ++ conds), hs.ordinary⟩

theorem append (hs : s.Scans a b) (ht : t.Scans b c) : (s ++ t).Scans a c where
  wellFormed := by rw [wellFormed_append hs.wellFormed, ht.wellFormed]
  scan conds := by
    rw [opcodes_append hs.wellFormed, foldlM_append, hs.scan]
    exact ht.scan conds
  ordinary op hop := by
    rw [opcodes_append hs.wellFormed, mem_append] at hop
    exact hop.elim (hs.ordinary op) (ht.ordinary op)

theorem single {op : ScriptOp} (h : s.getOp = some op) (hrest : op.rest = []) (hop : op.opcode.Ordinary)
    (hscan : ∀ conds, scanConditional (a ++ conds) op.opcode = some (b ++ conds)) : s.Scans a b := by
  have hopcodes : s.opcodes = [op.opcode] := by
    rw [opcodes_of_getOp h, hrest]
    rfl
  refine ⟨wellFormed_single h hrest, fun conds ↦ ?_, fun opcode hmem ↦ ?_⟩
  · rw [hopcodes]
    show scanConditional (a ++ conds) op.opcode >>= _ = _
    rw [hscan]
    rfl
  · rw [hopcodes, mem_singleton] at hmem
    exact hmem ▸ hop

theorem conditional {op : Opcode} (hop : op ∈ conditionalOpcodes)
    (hscan : ∀ conds, scanConditional (a ++ conds) op = some (b ++ conds)) :
    Scans (Mescal.opcodes [op]) a b := by
  have hall : ∀ op ∈ conditionalOpcodes, Opcode.ofByte op.toByte = op ∧ .OP_PUSHDATA4 < op ∧
      op ≠ .OP_CODESEPARATOR ∧ isDisabled op = false := by decide
  obtain ⟨hbyte, hpush, hseparator, henabled⟩ := hall op hop
  exact single (getOp_toByte hbyte hpush []) rfl ⟨hseparator, henabled, fun _ _ ↦ hop⟩ hscan

end CScript.Scans

namespace CScript.Structured

variable {s t : CScript}

theorem nil : Structured [] := ⟨rfl, fun _ ↦ rfl, fun _ h ↦ by cases h⟩

theorem append (hs : s.Structured) (ht : t.Structured) : (s ++ t).Structured :=
  ((Scans.of_structured hs []).append (.of_structured ht [])).structured

theorem flatten {l : List CScript} (h : ∀ s ∈ l, s.Structured) : CScript.Structured l.flatten := by
  induction l with
  | nil => exact nil
  | cons s l ih =>
    rw [forall_mem_cons] at h
    exact h.1.append (ih h.2)

theorem single {op : ScriptOp} (h : s.getOp = some op) (hrest : op.rest = [])
    (hop : op.opcode ≠ .OP_CODESEPARATOR) (henabled : isDisabled op.opcode = false)
    (hcond : ¬(.OP_IF ≤ op.opcode ∧ op.opcode ≤ .OP_ENDIF)) : s.Structured :=
  (Scans.single (a := []) (b := []) h hrest ⟨hop, henabled, fun hif hendif ↦ absurd ⟨hif, hendif⟩ hcond⟩
    (scanConditional_of_not_mem (Opcode.not_mem_conditionalOpcodes hcond))).structured

theorem plain {op : Opcode} (h : op.Plain) : Structured [op.toByte] :=
  single (getOp_toByte h.byte h.notPush []) rfl h.separator h.enabled h.conditional

theorem opcodes {ops : List Opcode} (h : ∀ op ∈ ops, op.Plain) : Structured (Mescal.opcodes ops) := by
  induction ops with
  | nil => exact nil
  | cons op ops ih =>
    rw [forall_mem_cons] at h
    exact (plain h.1).append (ih h.2)

theorem push {b : Bytes} (h : b.length < 2 ^ 32) : Structured (Mescal.push b) := by
  obtain ⟨size, hsize, hpush⟩ := pushSize_pushData h
  obtain ⟨opcode, hle, hget⟩ := hsize.getOp
  have hread : getOp (Mescal.push b) = some ⟨opcode, b, []⟩ := by
    rw [Mescal.push, hpush, ← hget, append_nil]
  refine single hread rfl ?_ (Opcode.not_isDisabled_of_le hle) fun h ↦ ?_
  · rintro heq
    rw [show opcode = .OP_CODESEPARATOR from heq] at hle
    exact absurd hle (by decide)
  · exact absurd (UInt8.le_trans h.1 hle) (by decide)

end CScript.Structured

namespace Mescal

/-! ### Compiled blocks -/

theorem length_magnitude_le (fuel v : ℕ) : (CScriptNum.magnitude fuel v).length ≤ fuel := by
  induction fuel generalizing v with
  | zero => cases v <;> exact le_rfl
  | succ fuel ih =>
    cases v with
    | zero => exact Nat.zero_le _
    | succ v => exact Nat.succ_le_succ (ih _)

theorem length_serialize_le (n : ℤ) : (CScriptNum.serialize n).length ≤ 9 := by
  have hle := length_magnitude_le 8 n.natAbs
  rw [CScriptNum.serialize]
  split
  · exact Nat.zero_le _
  · rename_i b _
    have hdrop := (CScriptNum.magnitude 8 n.natAbs).length_dropLast
    split_ifs
    · rw [length_append, length_singleton]
      omega
    · rw [length_append, length_singleton]
      omega
    · rw [length_append, length_singleton]
      omega
    · omega

theorem structured_pushScriptNum (n : ℤ) : CScript.Structured (pushScriptNum n) :=
  .push ((length_serialize_le n).trans_lt (by decide))

theorem plain_smallNumber {m : ℕ} (hlo : 79 ≤ m) (hhi : m < 97) :
    (Opcode.ofByte (UInt8.ofNat m)).Plain := by
  have hall : ∀ m < 97, 79 ≤ m → (Opcode.ofByte (UInt8.ofNat m)).Plain := by decide
  exact hall m hhi hlo

theorem structured_pushInt (n : ℤ) : CScript.Structured (pushInt n) := by
  rw [pushInt, CScript.pushInt64]
  split_ifs with hsmall hzero
  · rw [nil_append, ← Opcode.toByte_ofByte (UInt8.ofNat _)]
    refine .plain (plain_smallNumber ?_ ?_)
    all_goals
      have htoNat : (Opcode.OP_1.toByte.toNat : ℤ) = 81 := rfl
      rw [htoNat]
      omega
  · exact .push (b := []) (by decide)
  · exact structured_pushScriptNum n

theorem length_le_push (b : Bytes) : b.length ≤ (push b).length := by
  rw [push, CScript.pushData, length_append]
  exact Nat.le_add_left _ _

/-- The script is structured if its length fits into 32 bits. -/
def Fits (s : CScript) : Prop := s.length < 2 ^ 32 → s.Structured

namespace Fits

variable {s t : CScript}

theorem append (hs : Fits s) (ht : Fits t) : Fits (s ++ t) := fun h ↦ by
  rw [length_append] at h
  exact (hs (by omega)).append (ht (by omega))

theorem flatten {l : List CScript} (h : ∀ s ∈ l, Fits s) : Fits l.flatten := by
  induction l with
  | nil => exact fun _ ↦ .nil
  | cons s l ih =>
    rw [forall_mem_cons] at h
    exact h.1.append (ih h.2)

theorem opcodes {ops : List Opcode} (h : ∀ op ∈ ops, op.Plain) : Fits (Mescal.opcodes ops) :=
  fun _ ↦ .opcodes h

theorem push (b : Bytes) : Fits (push b) := fun h ↦ .push ((length_le_push b).trans_lt h)

theorem pushInt (n : ℤ) : Fits (pushInt n) := fun _ ↦ structured_pushInt n

theorem lockedKeyScript (lockTime : ℤ) (pubkeyHash : Bytes) : Fits (lockedKeyScript lockTime pubkeyHash) :=
  (((push _).append (opcodes (by decide))).append (push _)).append (opcodes (by decide))

end Fits

section Blocks

variable {block : UniValue} {inputs : List UniValue} {s : CScript}

theorem fits_compileHash160 (h : compileHash160 block inputs = .ok s) : Fits s := by
  cases inputs with
  | nil => cases h
  | cons input inputs =>
    obtain ⟨valStr, -, h⟩ := bind_eq_ok_iff.1 h
    dsimp only at h
    split at h <;> obtain rfl := Except.ok.inj h
    · exact ((Fits.opcodes (by decide)).append (.push _)).append (.opcodes (by decide))
    · exact (Fits.push _).append (.opcodes (by decide))

theorem fits_compileCheckSignature (h : compileCheckSignature block inputs = .ok s) : Fits s := by
  cases inputs with
  | nil => cases h
  | cons input inputs =>
    obtain ⟨pubkeyHex, -, h⟩ := bind_eq_ok_iff.1 h
    obtain rfl := Except.ok.inj h
    refine (Fits.push _).append (.opcodes ?_)
    rw [forall_mem_singleton]
    split_ifs <;> decide

theorem fits_compileEqualverifyChecksig (h : compileEqualverifyChecksig inputs = .ok s) : Fits s := by
  cases inputs with
  | nil => cases h
  | cons input inputs =>
    obtain ⟨pubkeyHashHex, -, h⟩ := bind_eq_ok_iff.1 h
    obtain rfl := Except.ok.inj h
    exact ((Fits.opcodes (by decide)).append (.push _)).append (.opcodes (by decide))

theorem fits_compileNumber (h : compileNumber inputs = .ok s) : Fits s := by
  cases inputs with
  | nil => cases h
  | cons input inputs =>
    obtain ⟨n, -, h⟩ := bind_eq_ok_iff.1 h
    obtain rfl := Except.ok.inj h
    exact .pushInt n

theorem fits_compileMultiSignature (h : compileMultiSignature inputs = .ok s) : Fits s := by
  obtain ⟨⟨m, n, sigs⟩, -, h⟩ := bind_eq_ok_iff.1 h
  dsimp only at h
  split_ifs at h
  obtain ⟨keys, -, h⟩ := bind_eq_ok_iff.1 h
  obtain rfl := Except.ok.inj h
  refine (((Fits.pushInt m).append ?_).append (.pushInt n)).append (.opcodes (by decide))
  rw [flatMap_def]
  exact .flatten (forall_mem_map.2 fun key _ ↦ .push _)

theorem fits_compileLockTime (h : compileLockTime inputs = .ok s) : Fits s := by
  cases inputs with
  | nil => cases h
  | cons input inputs =>
    obtain ⟨lockTime, -, h⟩ := bind_eq_ok_iff.1 h
    obtain rfl := Except.ok.inj h
    exact (Fits.push _).append (.opcodes (by decide))

theorem fits_compileCoinLockMiner (h : compileCoinLockMiner inputs = .ok s) : Fits s := by
  rw [compileCoinLockMiner.eq_def] at h
  split at h
  · obtain ⟨_, -, h⟩ := bind_eq_ok_iff.1 h
    obtain ⟨_, -, h⟩ := bind_eq_ok_iff.1 h
    obtain ⟨_, -, h⟩ := bind_eq_ok_iff.1 h
    obtain rfl := Except.ok.inj h
    exact ((Fits.push _).append (.opcodes (by decide))).append (.lockedKeyScript _ _)
  · cases h

theorem fits_compilePowMiner (h : compilePowMiner inputs = .ok s) : Fits s := by
  rw [compilePowMiner.eq_def] at h
  split at h
  · iterate 5 obtain ⟨_, -, h⟩ := bind_eq_ok_iff.1 h
    obtain rfl := Except.ok.inj h
    exact ((((Fits.push _).append (.push _)).append (.push _)).append (.opcodes (by decide))).append
      (.lockedKeyScript _ _)
  · cases h

theorem fits_compileBasicBlock (h : compileBasicBlock block = .ok s) : Fits s := by
  obtain ⟨role, -, h⟩ := bind_eq_ok_iff.1 h
  dsimp only at h
  split at h
  · exact fits_compileHash160 h
  · exact fits_compileCheckSignature h
  · exact fits_compileEqualverifyChecksig h
  · exact fits_compileNumber h
  · exact fits_compileMultiSignature h
  · exact fits_compileLockTime h
  iterate 7
    · obtain rfl := Except.ok.inj h
      exact .opcodes (by decide)
  · exact fits_compileCoinLockMiner h
  · exact fits_compilePowMiner h
  · cases h

end Blocks

/-! ### Compiled conditions -/

section Conditions

variable {exprs trueBranch falseBranch : List CScript} {T : SymbolTables} {levels : ℕ}
  {action condObj root : UniValue} {s : CScript}

theorem structured_joinExpressions (h : ∀ s ∈ exprs, s.Structured) :
    CScript.Structured (joinExpressions exprs) := by
  cases exprs with
  | nil => exact .nil
  | cons s exprs =>
    rw [forall_mem_cons] at h
    refine h.1.append ?_
    rw [flatMap_def]
    exact .flatten (forall_mem_map.2 fun s hs ↦ (h.2 s hs).append (.opcodes (by decide)))

theorem length_le_joinExpressions (hs : s ∈ exprs) : s.length ≤ (joinExpressions exprs).length := by
  cases exprs with
  | nil => cases hs
  | cons e exprs =>
    rw [joinExpressions, length_append]
    rcases mem_cons.1 hs with rfl | hs
    · exact Nat.le_add_right _ _
    · have hsub : (s ++ opcodes [.OP_BOOLAND]).Sublist (exprs.flatMap (· ++ opcodes [.OP_BOOLAND])) := by
        rw [flatMap_def]
        exact sublist_flatten_of_mem (mem_map.2 ⟨s, hs, rfl⟩)
      have hle := hsub.length_le
      rw [length_append] at hle
      exact (Nat.le_of_add_right_le hle).trans (Nat.le_add_left _ _)

theorem Fits.joinExpressions (h : ∀ s ∈ exprs, Fits s) : Fits (joinExpressions exprs) :=
  fun hlength ↦ structured_joinExpressions fun s hs ↦
    h s hs ((length_le_joinExpressions hs).trans_lt hlength)

/-- **An `OP_IF` with its branches is structured**: it opens a conditional, may turn it once, and closes
it. -/
theorem structured_conditional {t f : CScript} (ht : t.Structured) (hf : f.Structured) :
    CScript.Structured (opcodes [.OP_IF] ++ t ++
      (if falseBranch.isEmpty then [] else opcodes [.OP_ELSE] ++ f) ++ opcodes [.OP_ENDIF]) := by
  have hopen : CScript.Scans (opcodes [.OP_IF] ++ t) [] [false] :=
    (CScript.Scans.conditional (by decide) fun _ ↦ rfl).append (.of_structured ht _)
  refine CScript.Scans.structured ?_
  split_ifs
  · rw [append_nil]
    exact hopen.append (.conditional (by decide) fun _ ↦ rfl)
  · have helse : CScript.Scans (opcodes [.OP_ELSE] ++ f) [false] [true] :=
      (CScript.Scans.conditional (by decide) fun _ ↦ rfl).append (.of_structured hf _)
    exact (hopen.append helse).append (.conditional (by decide) fun _ ↦ rfl)

theorem conditionScript_eq : conditionScript exprs trueBranch falseBranch =
    joinExpressions exprs ++ (opcodes [.OP_IF] ++ trueBranch.flatten ++
      (if falseBranch.isEmpty then [] else opcodes [.OP_ELSE] ++ falseBranch.flatten) ++
      opcodes [.OP_ENDIF]) := by
  simp only [conditionScript, append_assoc]

theorem length_le_conditionScript (exprs trueBranch falseBranch : List CScript) :
    (joinExpressions exprs).length + trueBranch.flatten.length + falseBranch.flatten.length ≤
      (conditionScript exprs trueBranch falseBranch).length := by
  rw [conditionScript_eq]
  cases falseBranch with
  | nil =>
    simp only [length_append, flatten_nil, length_nil]
    omega
  | cons s falseBranch =>
    simp only [isEmpty_cons, Bool.false_eq_true, if_false, length_append]
    omega

theorem Fits.conditionScript (hexprs : ∀ s ∈ exprs, Fits s) (htrue : ∀ s ∈ trueBranch, Fits s)
    (hfalse : ∀ s ∈ falseBranch, Fits s) :
    Fits (conditionScript exprs trueBranch falseBranch) := fun h ↦ by
  have hle := length_le_conditionScript exprs trueBranch falseBranch
  rw [conditionScript_eq]
  exact (Fits.joinExpressions hexprs (by omega)).append
    (structured_conditional (Fits.flatten htrue (by omega)) (Fits.flatten hfalse (by omega)))

/-- The parts of a condition with their scripts. -/
structure CompilesParts (T : SymbolTables) (levels : ℕ) (condObj : UniValue)
    (exprs trueBranch falseBranch : List CScript) : Prop where
  exprs : (condObj.get "expressions").values.mapM (compileAction T levels) = .ok exprs
  trueBranch : (condObj.get "true").values.mapM (compileAction T levels) = .ok trueBranch
  falseBranch : (condObj.get "false").values.mapM (compileAction T levels) = .ok falseBranch

theorem compileCondition_eq_ok (h : compileCondition T levels condObj = .ok s) :
    ∃ levels' exprs trueBranch falseBranch, levels = levels' + 1 ∧
      CompilesParts T levels' condObj exprs trueBranch falseBranch ∧
      s = conditionScript exprs trueBranch falseBranch := by
  cases levels with
  | zero => cases h
  | succ levels =>
    rw [compileCondition] at h
    obtain ⟨exprs, hexprs, h⟩ := bind_eq_ok_iff.1 h
    obtain ⟨trueBranch, htrue, h⟩ := bind_eq_ok_iff.1 h
    obtain ⟨falseBranch, hfalse, h⟩ := bind_eq_ok_iff.1 h
    exact ⟨levels, exprs, trueBranch, falseBranch, rfl, ⟨hexprs, htrue, hfalse⟩, (Except.ok.inj h).symm⟩

theorem compileAction_eq_ok (h : compileAction T levels action = .ok s) :
    ∃ levels', levels = levels' + 1 ∧ ((∃ block, compileBasicBlock block = .ok s) ∨
      ∃ condObj, compileCondition T levels' condObj = .ok s) := by
  cases levels with
  | zero => cases h
  | succ levels =>
    refine ⟨levels, rfl, ?_⟩
    rw [compileAction] at h
    obtain ⟨type, -, h⟩ := bind_eq_ok_iff.1 h
    obtain ⟨name, -, h⟩ := bind_eq_ok_iff.1 h
    split at h
    · split at h
      · exact .inl ⟨_, h⟩
      · split_ifs at h
        exact .inl ⟨_, h⟩
    · split at h
      · exact .inr ⟨_, h⟩
      · split_ifs at h
        obtain ⟨role, -, h⟩ := bind_eq_ok_iff.1 h
        split_ifs at h
        exact .inr ⟨_, h⟩
    · cases h

/-- **Whatever compiles is structured.** The induction is on the levels: an action needs one for a block
and two for a condition. -/
theorem fits_compile (levels : ℕ) : (∀ action s, compileAction T levels action = .ok s → Fits s) ∧
    ∀ condObj s, compileCondition T levels condObj = .ok s → Fits s := by
  induction levels with
  | zero => exact ⟨fun _ _ h ↦ (by cases h), fun _ _ h ↦ (by cases h)⟩
  | succ levels ih =>
    refine ⟨fun action s h ↦ ?_, fun condObj s h ↦ ?_⟩
    · obtain ⟨_, heq, ⟨block, h⟩ | ⟨condObj, h⟩⟩ := compileAction_eq_ok h
      · exact fits_compileBasicBlock h
      · obtain rfl := Nat.succ.inj heq
        exact ih.2 condObj s h
    · obtain ⟨_, exprs, trueBranch, falseBranch, heq, hparts, rfl⟩ := compileCondition_eq_ok h
      obtain rfl := Nat.succ.inj heq
      exact .conditionScript (forall_mem_of_mapM_eq_ok hparts.exprs ih.1)
        (forall_mem_of_mapM_eq_ok hparts.trueBranch ih.1) (forall_mem_of_mapM_eq_ok hparts.falseBranch ih.1)

theorem fits_compileRoot (h : compile root = .ok s) : Fits s := by
  have hroot : compileRoot root = .ok s := mapError_eq_ok_iff.1 h
  rw [compileRoot] at hroot
  split at hroot
  · cases hroot
  · split at hroot
    · obtain ⟨scripts, hscripts, hroot⟩ := bind_eq_ok_iff.1 hroot
      obtain rfl := Except.ok.inj hroot
      exact .flatten (forall_mem_of_mapM_eq_ok hscripts (fits_compile _).1)
    · cases hroot

end Conditions

end Mescal

end KristaTech
