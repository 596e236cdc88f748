import KristaTech.Primitives.RoundTrip
import KristaTech.Script.Script

/-!
# Scripts as sequences of instructions

A script of whole instructions (`CScript.wellFormed`) can be read piece by piece: what follows it
does not change how it is read (`ops_append`). The pieces that a program writes are single
instructions: an opcode, or a push of bytes, which is read as a size and the data (`exists_pushSize`);
of the ways to write a size, a program takes the shortest (`PushSize.eq_or_lt`).

The conditionals of a script are followed by a scan that keeps, for every open one, whether its
`OP_ELSE` was seen (`scanConditional`).
-/

namespace KristaTech

open List Reader

def ScriptOp.followedBy (op : ScriptOp) (t : CScript) : ScriptOp := { op with rest := op.rest ++ t }

namespace CScript

variable {s t : CScript} {op : ScriptOp}

/-! ### Reading on -/

variable {n : ℕ} {opcode : UInt8} {pc : CScript} {b size : Bytes}

theorem readBytes_append_of_eq_some {vch rest : Bytes} (h : Reader.readBytes n s = some (vch, rest))
    (t : Bytes) : Reader.readBytes n (s ++ t) = some (vch, rest ++ t) := by
  obtain ⟨hle, rfl, rfl⟩ := readBytes_eq_some_iff.1 h
  refine readBytes_eq_some_iff.2 ⟨?_, ?_, ?_⟩
  · rw [length_append]
    omega
  · rw [take_append_of_le_length hle]
  · rw [drop_append_of_le_length hle]

theorem readLE_append_of_eq_some {v : ℕ} {rest : Bytes} (h : Reader.readLE n s = some (v, rest))
    (t : Bytes) : Reader.readLE n (s ++ t) = some (v, rest ++ t) := by
  obtain ⟨bs, s', hbs, h⟩ := bind_eq_some_iff.1 h
  obtain ⟨rfl, rfl⟩ := Prod.mk.inj (Option.some.inj h)
  exact bind_eq_some_iff.2 ⟨bs, s' ++ t, readBytes_append_of_eq_some hbs t, rfl⟩

theorem operandSize_append (h : operandSize opcode s = some (n, pc)) (t : CScript) :
    operandSize opcode (s ++ t) = some (n, pc ++ t) := by
  rw [operandSize] at h ⊢
  split_ifs at h ⊢
  · obtain ⟨rfl, rfl⟩ := Prod.mk.inj (Option.some.inj h)
    rfl
  · exact readLE_append_of_eq_some h t
  · exact readLE_append_of_eq_some h t
  · exact readLE_append_of_eq_some h t

/-- An instruction is read in the same way whatever follows it. -/
theorem getOp_append (h : getOp s = some op) (t : CScript) : getOp (s ++ t) = some (op.followedBy t) := by
  cases s with
  | nil => cases h
  | cons opcode pc =>
    rw [cons_append, getOp] at *
    split_ifs at h ⊢
    · simp only [Option.bind_eq_bind, Option.bind_eq_some_iff, Option.pure_def, Option.some.injEq] at h ⊢
      obtain ⟨⟨n, pc'⟩, hsize, ⟨vch, rest⟩, hread, rfl⟩ := h
      exact ⟨_, operandSize_append hsize t, _, readBytes_append_of_eq_some hread t, rfl⟩
    · obtain rfl := Option.some.inj h
      rfl

/-! ### Whole instructions -/

@[simp]
theorem wellFormed_nil : wellFormed [] = true := rfl

theorem wellFormed_of_getOp (h : getOp s = some op) : wellFormed s = wellFormed op.rest := by
  simp only [wellFormed, unparsed, ops_of_getOp h, getLast?_cons]
  cases hlast : (ops op.rest).getLast? with
  | none =>
    rw [getLast?_eq_none_iff] at hlast
    simp
  | some last => simp

theorem wellFormed_of_getOp_eq_none (h : getOp s = none) : wellFormed s = s.isEmpty := by
  simp [wellFormed, unparsed, ops_of_getOp_eq_none h]

theorem wellFormed_induction {motive : CScript → Prop} (hs : wellFormed s = true) (nil : motive [])
    (cons : ∀ {s op}, getOp s = some op → wellFormed op.rest = true → motive op.rest → motive s) :
    motive s := by
  induction hn : s.length using Nat.strong_induction_on generalizing s with
  | _ n ih =>
    cases hop : getOp s with
    | none =>
      rw [wellFormed_of_getOp_eq_none hop, List.isEmpty_iff] at hs
      exact hs ▸ nil
    | some op =>
      rw [wellFormed_of_getOp hop] at hs
      exact cons hop hs (ih _ (hn ▸ length_rest_lt hop) hs rfl)

/-- **A script of whole instructions is read before what follows it.** -/
theorem ops_append (hs : wellFormed s = true) (t : CScript) :
    ops (s ++ t) = (ops s).map (·.followedBy t) ++ ops t := by
  refine wellFormed_induction (motive := fun s ↦ ops (s ++ t) =
    (ops s).map (·.followedBy t) ++ ops t) hs rfl fun {s op} hop _ ih ↦ ?_
  rw [ops_of_getOp (getOp_append hop t), ops_of_getOp hop]
  exact congrArg (op.followedBy t :: ·) ih

theorem wellFormed_append (hs : wellFormed s = true) (t : CScript) :
    wellFormed (s ++ t) = wellFormed t := by
  refine wellFormed_induction (motive := fun s ↦ wellFormed (s ++ t) = wellFormed t) hs rfl
    fun {s op} hop _ ih ↦ ?_
  rw [wellFormed_of_getOp (getOp_append hop t)]
  exact ih

def opcodes (s : CScript) : List Opcode := (ops s).map (·.opcode)

theorem opcodes_append (hs : wellFormed s = true) (t : CScript) :
    opcodes (s ++ t) = opcodes s ++ opcodes t := by
  rw [opcodes, ops_append hs, map_append, map_map]
  rfl

theorem opcodes_of_getOp (h : getOp s = some op) : opcodes s = op.opcode :: opcodes op.rest := by
  rw [opcodes, ops_of_getOp h]
  rfl

/-! ### Single instructions -/

theorem wellFormed_single (h : getOp s = some op) (hrest : op.rest = []) : wellFormed s = true := by
  rw [wellFormed_of_getOp h, hrest, wellFormed_nil]

theorem getOp_toByte {op : Opcode} (hop : Opcode.ofByte op.toByte = op) (hlt : .OP_PUSHDATA4 < op)
    (t : CScript) : getOp (op.toByte :: t) = some ⟨op, [], t⟩ := by
  have hnot : ¬op.toByte ≤ Opcode.OP_PUSHDATA4.toByte := UInt8.not_le.2 hlt
  rw [getOp, if_neg hnot, hop]

theorem getOp_of_operandSize {b : CScript} (hle : opcode ≤ Opcode.OP_PUSHDATA4.toByte)
    (hsize : operandSize opcode pc = some (b.length, b ++ t)) :
    getOp (opcode :: pc) = some ⟨Opcode.ofByte opcode, b, t⟩ := by
  have hbytes : Reader.readBytes b.length (b ++ t) = some (b, t) := readBytes_append rfl t
  rw [getOp, if_pos hle, hsize]
  simp [hbytes]

/-! ### Back to the bytes -/

/-- The ways to write the size of a push: all that have room for it. -/
inductive PushSize (n : ℕ) : Bytes → Prop
  | direct (h : n < 0x4c) : PushSize n [UInt8.ofNat n]
  | one (h : n < 256 ^ 1) : PushSize n (Opcode.OP_PUSHDATA1.toByte :: Reader.natToLE 1 n)
  | two (h : n < 256 ^ 2) : PushSize n (Opcode.OP_PUSHDATA2.toByte :: Reader.natToLE 2 n)
  | four (h : n < 256 ^ 4) : PushSize n (Opcode.OP_PUSHDATA4.toByte :: Reader.natToLE 4 n)

theorem PushSize.lt (h : PushSize n size) : n < 2 ^ 32 := by
  cases h <;> omega

/-- **A push that is written has one of these sizes**, if its length fits. -/
theorem pushSize_pushData (h : b.length < 2 ^ 32) :
    ∃ size, PushSize b.length size ∧ pushData [] b = size ++ b := by
  rw [pushData, nil_append]
  split_ifs with h1 h2 h3
  · exact ⟨_, .direct h1, rfl⟩
  · exact ⟨_, .one (by omega), rfl⟩
  · exact ⟨_, .two (by omega), rfl⟩
  · exact ⟨_, .four (by omega), rfl⟩

/-- **No size is shorter than the one that is written**, and no other is as short. -/
theorem PushSize.eq_or_lt (h : PushSize b.length size) :
    size ++ b = pushData [] b ∨ (pushData [] b).length < (size ++ b).length := by
  rw [pushData, nil_append]
  cases h with
  | direct h =>
    rw [if_pos h]
    exact .inl rfl
  | one h =>
    split_ifs
    · exact .inr (by simp)
    · exact .inl rfl
    all_goals omega
  | two h =>
    split_ifs
    · exact .inr (by simp)
    · exact .inr (by simp)
    · exact .inl rfl
    · omega
  | four h =>
    split_ifs
    · exact .inr (by simp)
    · exact .inr (by simp)
    · exact .inr (by simp)
    · exact .inl rfl

theorem pushSize_of_operandSize {pc' : CScript} (hle : opcode ≤ Opcode.OP_PUSHDATA4.toByte)
    (h : operandSize opcode pc = some (n, pc')) :
    ∃ size, PushSize n size ∧ opcode :: pc = size ++ pc' := by
  rw [operandSize] at h
  split_ifs at h with hdirect hone htwo
  · obtain ⟨rfl, rfl⟩ := Prod.mk.inj (Option.some.inj h)
    exact ⟨_, .direct hdirect, by rw [UInt8.ofNat_toNat]; rfl⟩
  · obtain ⟨rfl, hlt⟩ := eq_append_of_readLE h
    exact ⟨_, .one hlt, by rw [hone]; rfl⟩
  · obtain ⟨rfl, hlt⟩ := eq_append_of_readLE h
    exact ⟨_, .two hlt, by rw [htwo]; rfl⟩
  · -- what is left below `OP_PUSHDATA4` is `OP_PUSHDATA4`
    have hfour : opcode = Opcode.OP_PUSHDATA4.toByte := by
      rw [UInt8.lt_iff_toNat_lt] at hdirect
      rw [UInt8.le_iff_toNat_le] at hle
      rw [← UInt8.toNat_inj] at hone htwo ⊢
      have h1 : Opcode.OP_PUSHDATA1.toByte.toNat = 0x4c := rfl
      have h2 : Opcode.OP_PUSHDATA2.toByte.toNat = 0x4d := rfl
      have h4 : Opcode.OP_PUSHDATA4.toByte.toNat = 0x4e := rfl
      omega
    obtain ⟨rfl, hlt⟩ := eq_append_of_readLE h
    exact ⟨_, .four hlt, by rw [hfour]; rfl⟩

/-- **A push in a script is a size and the data.** -/
theorem exists_pushSize (h : getOp s = some op) (hle : op.opcode ≤ .OP_PUSHDATA4) :
    ∃ size, PushSize op.vch.length size ∧ s = size ++ (op.vch ++ op.rest) := by
  cases s with
  | nil => cases h
  | cons opcode pc =>
    rw [getOp] at h
    split_ifs at h with hpush
    · simp only [Option.bind_eq_bind, Option.bind_eq_some_iff, Option.pure_def, Option.some.injEq] at h
      obtain ⟨⟨n, pc'⟩, hsize, ⟨vch, rest⟩, hread, rfl⟩ := h
      obtain ⟨size, hn, hs⟩ := pushSize_of_operandSize hpush hsize
      obtain ⟨rfl, rfl⟩ := eq_append_of_readBytes hread
      exact ⟨size, hn, hs⟩
    · obtain rfl := Option.some.inj h
      exact absurd (show opcode ≤ _ by rwa [← Opcode.toByte_ofByte opcode]) hpush

theorem eq_cons_of_getOp (h : getOp s = some op) (hle : ¬op.opcode ≤ .OP_PUSHDATA4) :
    s = op.opcode.toByte :: op.rest ∧ op.vch = [] := by
  cases s with
  | nil => cases h
  | cons opcode pc =>
    rw [getOp] at h
    split_ifs at h with hpush
    · simp only [Option.bind_eq_bind, Option.bind_eq_some_iff, Option.pure_def, Option.some.injEq] at h
      obtain ⟨_, -, _, -, rfl⟩ := h
      refine absurd ?_ hle
      show (Opcode.ofByte opcode).toByte ≤ _
      rwa [Opcode.toByte_ofByte]
    · obtain rfl := Option.some.inj h
      exact ⟨by rw [Opcode.toByte_ofByte], rfl⟩

theorem PushSize.getOp (h : PushSize b.length size) :
    ∃ opcode ≤ .OP_PUSHDATA4, ∀ t, CScript.getOp (size ++ (b ++ t)) = some ⟨opcode, b, t⟩ := by
  cases h with
  | direct h =>
    have htoNat : (UInt8.ofNat b.length).toNat = b.length :=
      UInt8.toNat_ofNat_of_lt' (by simp only [UInt8.size]; omega)
    have hlt : UInt8.ofNat b.length < Opcode.OP_PUSHDATA1.toByte := by
      rw [UInt8.lt_iff_toNat_lt, htoNat]
      exact h
    have hle : UInt8.ofNat b.length ≤ Opcode.OP_PUSHDATA4.toByte :=
      UInt8.le_trans (UInt8.le_of_lt hlt) (by decide)
    refine ⟨Opcode.ofByte (UInt8.ofNat b.length), ?_, fun t ↦ getOp_of_operandSize hle ?_⟩
    · show (Opcode.ofByte (UInt8.ofNat b.length)).toByte ≤ _
      rwa [Opcode.toByte_ofByte]
    · rw [operandSize, if_pos hlt, htoNat]
      rfl
  | one h =>
    exact ⟨_, by decide, fun t ↦ getOp_of_operandSize (by decide) (readLE_append h (b ++ t))⟩
  | two h =>
    exact ⟨_, by decide, fun t ↦ getOp_of_operandSize (by decide) (readLE_append h (b ++ t))⟩
  | four h =>
    exact ⟨_, by decide, fun t ↦ getOp_of_operandSize (by decide) (readLE_append h (b ++ t))⟩

/-- **The bytes of an instruction** are read in the same way whatever follows. -/
theorem exists_raw (h : getOp s = some op) :
    ∃ raw, s = raw ++ op.rest ∧ ∀ t, getOp (raw ++ t) = some ⟨op.opcode, op.vch, t⟩ := by
  by_cases hle : op.opcode ≤ .OP_PUSHDATA4
  · obtain ⟨size, hsize, rfl⟩ := exists_pushSize h hle
    obtain ⟨opcode, -, hget⟩ := hsize.getOp
    refine ⟨size ++ op.vch, (append_assoc _ _ _).symm, fun t ↦ ?_⟩
    rw [hget] at h
    obtain ⟨rfl⟩ := ScriptOp.mk.inj (Option.some.inj h)
    rw [append_assoc, hget]
  · obtain ⟨hs, hvch⟩ := eq_cons_of_getOp h hle
    refine ⟨[op.opcode.toByte], hs, fun t ↦ ?_⟩
    have hbyte : Opcode.ofByte op.opcode.toByte = op.opcode := by
      rw [hs, getOp, if_neg (show ¬op.opcode.toByte ≤ _ from hle)] at h
      exact congrArg ScriptOp.opcode (Option.some.inj h)
    rw [hvch]
    exact getOp_toByte hbyte (UInt8.not_le.1 hle) t

/-! ### Conditionals -/

/-- One opcode, with the conditionals that are open and whether the `OP_ELSE` of each was seen. A
second `OP_ELSE`, and one or an `OP_ENDIF` without a conditional, are refused. -/
def scanConditional : List Bool → Opcode → Option (List Bool)
  | conds, .OP_IF => some (false :: conds)
  | conds, .OP_NOTIF => some (false :: conds)
  | false :: conds, .OP_ELSE => some (true :: conds)
  | _, .OP_ELSE => none
  | _ :: conds, .OP_ENDIF => some conds
  | [], .OP_ENDIF => none
  | conds, _ => some conds

/-- The conditionals are balanced, with at most one `OP_ELSE` for each. -/
def balanced (s : CScript) : Bool := (opcodes s).foldlM scanConditional [] == some []

end CScript

end KristaTech
