import KristaTech.Library.EarlyExit
import KristaTech.Mescal.Decompile

/-!
# Compiling what was decompiled

A decompiled contract compiles to the scripts of its blocks, one after the other
(`compile_contractJson`), unless its conditions are nested too deeply: the compiler counts two levels
for every condition, the decompiler one.
-/

namespace KristaTech.Mescal

open Except

/-! ### Scripts of blocks -/

def BasicBlock.script : BasicBlock → CScript
  | coinLockMiner pubkey lockTimeVal pubkeyHash =>
    push pubkey ++ opcodes [.OP_DROP] ++ lockedKeyScript lockTimeVal pubkeyHash
  | powMiner nonce challenge pubkey lockTimeVal pubkeyHash =>
    push nonce ++ push challenge ++ push pubkey ++ opcodes [.OP_DROP, .OP_DROP, .OP_DROP] ++
      lockedKeyScript lockTimeVal pubkeyHash
  | multiSignature keys =>
    pushInt keys.m ++ keys.keys.flatMap push ++ pushInt keys.keys.length ++ opcodes [.OP_CHECKMULTISIG]
  | lockTime val => pushScriptNum val ++ opcodes [.OP_CHECKLOCKTIMEVERIFY, .OP_DROP]
  | equalverifyChecksig pubkeyHash =>
    opcodes [.OP_DUP, .OP_HASH160] ++ push pubkeyHash ++ opcodes [.OP_EQUALVERIFY, .OP_CHECKSIG]
  | checkSignature verify pubkey =>
    push pubkey ++ opcodes [if verify then .OP_CHECKSIGVERIFY else .OP_CHECKSIG]
  | hash160Equal hash => opcodes [.OP_HASH160] ++ push hash ++ opcodes [.OP_EQUAL]
  | hash160 value => push value ++ opcodes [.OP_HASH160]
  | number n => pushInt n
  | operation op => opcodes [op.opcode]

section Inputs

variable (type name : String) (value : UniValue) (vch : Bytes)

@[simp]
theorem get_value_input : (BasicBlock.input type name value).get "value" = value := rfl

@[simp]
theorem get_value_namedInput : (BasicBlock.namedInput name type value).get "value" = value := rfl

@[simp]
theorem get_name_namedInput : (BasicBlock.namedInput name type value).get "name" = .VSTR name := rfl

@[simp]
theorem getStr_hexStr : orThrow (UniValue.VSTR name).getStr = .ok name := rfl

@[simp]
theorem getInt64_shortNum (n : ShortNum) : orThrow (UniValue.VNUM (some n)).getInt64 = .ok n.1 := by
  have hn := n.2
  have hint : (UniValue.VNUM (some n)).getInt64 = .ok n.1 := if_pos (by omega)
  rw [hint]
  rfl

theorem getInt_of_bounds {n : ℤ} (hlo : 0 ≤ n) (hhi : n < 2 ^ 31) :
    orThrow (UniValue.VNUM (some n)).getInt = .ok n := by
  have hint : (UniValue.VNUM (some n)).getInt = .ok n := if_pos (by omega)
  rw [hint]
  rfl

end Inputs

theorem mapM_hexStr (keys : List Bytes) :
    (keys.map (UniValue.VSTR ∘ hexStr)).mapM (fun sig ↦ orThrow sig.getStr) = .ok (keys.map hexStr) := by
  rw [List.mapM_map]
  exact List.mapM_eq_ok fun key _ ↦ rfl

theorem compileMultiSignature_eq (keys : MultiSignature) :
    compileMultiSignature [BasicBlock.namedInput "m" "number" (.VNUM (some keys.m)),
        BasicBlock.namedInput "n" "number" (.VNUM (some keys.keys.length)),
        BasicBlock.namedInput "Signatures" "array" (.VARR (keys.keys.map (.VSTR ∘ hexStr)))] =
      .ok (BasicBlock.multiSignature keys).script := by
  have hpos := keys.pos
  have hmax := keys.le_max
  have hlt := keys.length_lt
  have hne : 0 < keys.keys.length := List.length_pos_iff.2 keys.keys_ne_nil
  have hm := getInt_of_bounds hpos.le (by omega)
  have hn := getInt_of_bounds (Int.natCast_nonneg keys.keys.length) (by omega)
  have hread : List.foldlM readMultiSignature (0, 0, UniValue.VNULL)
      [BasicBlock.namedInput "m" "number" (.VNUM (some keys.m)),
        BasicBlock.namedInput "n" "number" (.VNUM (some keys.keys.length)),
        BasicBlock.namedInput "Signatures" "array" (.VARR (keys.keys.map (.VSTR ∘ hexStr)))] =
      .ok (keys.m, (keys.keys.length : ℤ), .VARR (keys.keys.map (.VSTR ∘ hexStr))) := by
    simp [readMultiSignature, hm, hn]
  have hvalid : ¬(keys.m ≤ 0 ∨ (keys.keys.length : ℤ) ≤ 0 ∨
      (UniValue.VARR (keys.keys.map (.VSTR ∘ hexStr))).values.isEmpty) := by
    simp [UniValue.values, keys.keys_ne_nil, hpos]
  rw [compileMultiSignature, hread, ok_bind]
  dsimp only
  rw [if_neg hvalid, UniValue.values, mapM_hexStr, ok_bind, List.flatMap_map]
  simp only [parseHex_hexStr]
  rfl

/-- **A block compiles to its script.** -/
theorem compileBasicBlock_toJson (name : String) (block : BasicBlock) :
    compileBasicBlock (block.toJson name) = .ok block.script := by
  cases block with
  | coinLockMiner pubkey lockTimeVal pubkeyHash =>
    show compileCoinLockMiner [BasicBlock.bytesInput "pubkey" "Pubkey" pubkey,
      BasicBlock.lockTimeInput lockTimeVal, BasicBlock.bytesInput "pubkeyhash" "PubkeyHash" pubkeyHash] = _
    simp [compileCoinLockMiner, BasicBlock.bytesInput, BasicBlock.lockTimeInput, BasicBlock.script]
  | powMiner nonce challenge pubkey lockTimeVal pubkeyHash =>
    show compilePowMiner [BasicBlock.bytesInput "nonce" "Nonce" nonce, BasicBlock.bytesInput "challenge" "Challenge" challenge,
      BasicBlock.bytesInput "pubkey" "Pubkey" pubkey, BasicBlock.lockTimeInput lockTimeVal,
      BasicBlock.bytesInput "pubkeyhash" "PubkeyHash" pubkeyHash] = _
    simp [compilePowMiner, BasicBlock.bytesInput, BasicBlock.lockTimeInput, BasicBlock.script]
  | multiSignature keys => exact compileMultiSignature_eq keys
  | lockTime val =>
    show compileLockTime [BasicBlock.lockTimeInput val] = _
    simp [compileLockTime, BasicBlock.lockTimeInput, BasicBlock.script]
  | equalverifyChecksig pubkeyHash =>
    show compileEqualverifyChecksig [BasicBlock.bytesInput "pubkeyhash" "PubkeyHash" pubkeyHash] = _
    simp [compileEqualverifyChecksig, BasicBlock.bytesInput, BasicBlock.script]
  | checkSignature verify pubkey =>
    show compileCheckSignature (BasicBlock.toJson name (.checkSignature verify pubkey))
      [BasicBlock.bytesInput "pubkey" "Pubkey" pubkey] = _
    have hverify : (BasicBlock.toJson name (.checkSignature verify pubkey)).get "verify" =
      .VBOOL verify := rfl
    simp [compileCheckSignature, BasicBlock.bytesInput, hverify, BasicBlock.script]
  | hash160Equal hash =>
    show compileHash160 (BasicBlock.toJson name (.hash160Equal hash))
      [BasicBlock.bytesInput "hash160" "hash160" hash] = _
    have hmode : ((BasicBlock.toJson name (.hash160Equal hash)).get "mode").isStrOf "htlc-equal" =
      true := rfl
    have hne : hash.1.isEmpty = false := by
      rw [List.isEmpty_eq_false_iff, ← List.length_pos_iff, hash.2]
      decide
    simp [compileHash160, BasicBlock.bytesInput, hmode, isHex_hexStr, length_hexStr, hash.2, hne,
      BasicBlock.script]
  | hash160 value =>
    show compileHash160 (BasicBlock.toJson name (.hash160 value))
      [BasicBlock.bytesInput "string-or-number" "String-or-Number-to-Hash" value] = _
    have hmode : (((BasicBlock.toJson name (.hash160 value)).get "mode").isStrOf "htlc-equal" ||
        ((BasicBlock.bytesInput "string-or-number" "String-or-Number-to-Hash" value).get "name").isStrOf
          "hash160" ||
        ((BasicBlock.bytesInput "string-or-number" "String-or-Number-to-Hash" value).get "type").isStrOf
          "hash160") = false := rfl
    have hvch : (if isHex (hexStr value) then parseHex (hexStr value)
        else (hexStr value).toUTF8.toList) = value := by
      rw [isHex_hexStr, parseHex_hexStr]
      cases value with
      | nil =>
        show (hexStr []).toUTF8.toList = []
        decide +kernel
      | cons b value => rfl
    rw [compileHash160, hmode, BasicBlock.bytesInput, get_value_input, getStr_hexStr, ok_bind]
    dsimp only
    rw [Bool.false_and, Bool.false_and, if_neg Bool.false_ne_true, hvch]
    rfl
  | number n =>
    show compileNumber [BasicBlock.input "number" "Number" (.VNUM (some n))] = _
    simp [compileNumber, BasicBlock.script]
  | operation op => cases op <;> rfl

/-! ### Scripts of contracts -/

namespace Action

def script : Action → CScript
  | basic _ block => block.script
  | alwaysTrue => pushInt 1
  | condition _ expressions trueBranch falseBranch =>
    conditionScript (scripts expressions) (scripts trueBranch) (scripts falseBranch)
where
  /-- The scripts of a list. -/
  scripts : List Action → List CScript
    | [] => []
    | action :: actions => script action :: scripts actions

def need : Action → ℕ
  | basic _ _ => 1
  | alwaysTrue => 1
  | condition _ expressions trueBranch falseBranch =>
    max (needs expressions) (max (needs trueBranch) (needs falseBranch)) + 2
where
  /-- The levels for a list. -/
  needs : List Action → ℕ
    | [] => 0
    | action :: actions => max (need action) (needs actions)

end Action

open Action.script (scripts)
open Action.need (needs)
open Action.toJson (toJsonList)

def tooDeep : CompileError := .reported "Maximum MESCAL recursion depth exceeded"

section Compile

variable {T : SymbolTables} {levels : ℕ}

theorem mapM_toJsonList {compile : UniValue → Except CompileError CScript}
    (h : ∀ action : Action, compile action.toJson =
      if action.need ≤ levels then .ok action.script else .error tooDeep) (actions : List Action) :
    (toJsonList actions).mapM compile =
      if needs actions ≤ levels then .ok (scripts actions) else .error tooDeep := by
  induction actions with
  | nil => rfl
  | cons action actions ih =>
    rw [toJsonList, List.mapM_cons, h, ih, needs, scripts]
    by_cases hhead : action.need ≤ levels
    · by_cases htail : needs actions ≤ levels
      · rw [if_pos hhead, if_pos htail, if_pos (max_le hhead htail)]
        rfl
      · rw [if_pos hhead, if_neg htail, if_neg fun hle ↦ htail ((le_max_right _ _).trans hle)]
        rfl
    · rw [if_neg hhead, if_neg fun hle ↦ hhead ((le_max_left _ _).trans hle)]
      rfl

theorem get_toJson_condition (name : String) (expressions trueBranch falseBranch : List Action) :
    ((Action.condition name expressions trueBranch falseBranch).toJson.get "expressions").values =
        toJsonList expressions ∧
      ((Action.condition name expressions trueBranch falseBranch).toJson.get "true").values =
        toJsonList trueBranch ∧
      ((Action.condition name expressions trueBranch falseBranch).toJson.get "false").values =
        toJsonList falseBranch := by
  cases falseBranch with
  | nil => exact ⟨rfl, rfl, rfl⟩
  | cons action falseBranch => exact ⟨rfl, rfl, rfl⟩

theorem compileAction_basic (hbasic : ∀ name, T.basicBlocks name = none) {action : UniValue}
    {name : String} (htype : action.get "type" = .VSTR "basic") (hname : action.get "name" = .VSTR name)
    (hrole : (action.findKey "role").isSome = true) :
    compileAction T (levels + 1) action = compileBasicBlock action := by
  rw [compileAction, htype, hname, getStr_hexStr, ok_bind, getStr_hexStr, ok_bind]
  simp only [hbasic, if_pos hrole]

theorem compileAction_condition (hcond : ∀ name, T.conditions name = none) {action : UniValue}
    {name : String} (htype : action.get "type" = .VSTR "condition")
    (hname : action.get "name" = .VSTR name) (hrole : action.findKey "role" = some (.VSTR "if-condition")) :
    compileAction T (levels + 1) action = compileCondition T levels action := by
  have hget : action.get "role" = .VSTR "if-condition" := by rw [UniValue.get, hrole]; rfl
  rw [compileAction, htype, hname, getStr_hexStr, ok_bind, getStr_hexStr, ok_bind]
  simp only [hcond, hrole, Option.isSome_some, if_true, hget, getStr_hexStr, ok_bind]

/-- **An action compiles to its script if there are levels enough.** -/
theorem compileAction_toJson (hbasic : ∀ name, T.basicBlocks name = none)
    (hcond : ∀ name, T.conditions name = none) (levels : ℕ) (action : Action) :
    compileAction T levels action.toJson =
      if action.need ≤ levels then .ok action.script else .error tooDeep := by
  -- a condition needs two levels and its parts the rest
  induction levels using Nat.strong_induction_on generalizing action with
  | _ levels ih =>
    cases levels with
    | zero => cases action <;> rfl
    | succ levels =>
      cases action with
      | basic name block =>
        have hrole : ((block.toJson name).findKey "role").isSome = true := by cases block <;> rfl
        rw [Action.toJson, compileAction_basic hbasic rfl rfl hrole, compileBasicBlock_toJson]
        exact (if_pos (Nat.le_add_left 1 levels)).symm
      | alwaysTrue =>
        rw [compileAction_basic hbasic rfl rfl rfl]
        exact (if_pos (Nat.le_add_left 1 levels)).symm
      | condition name expressions trueBranch falseBranch =>
        obtain ⟨hexprs, htrue, hfalse⟩ :=
          get_toJson_condition name expressions trueBranch falseBranch
        rw [compileAction_condition hcond rfl rfl rfl]
        cases levels with
        | zero => exact (if_neg (by rw [Action.need]; omega)).symm
        | succ levels =>
          have hlist := mapM_toJsonList (ih levels (by omega))
          rw [compileCondition, hexprs, htrue, hfalse, hlist, hlist, hlist, Action.need, Action.script]
          split_ifs <;> first | rfl | omega

end Compile

/-- **A decompiled contract compiles to the scripts of its actions**, if they are not nested too
deeply. -/
theorem compile_contractJson (actions : List Action) :
    compile (contractJson actions) = if needs actions ≤ maxMescalConditionDepth + 1 then
      .ok (scripts actions).flatten else .error "Maximum MESCAL recursion depth exceeded" := by
  have htarget : targetContract (contractJson actions) = some (contractJson actions) := rfl
  have hactions : (contractJson actions).get "actions" = .VARR (toJsonList actions) := rfl
  have hlist := mapM_toJsonList (compileAction_toJson
    (T := ⟨symbolTable (contractJson actions) "basic", symbolTable (contractJson actions) "condition"⟩)
    (fun _ ↦ rfl) (fun _ ↦ rfl) (maxMescalConditionDepth + 1)) actions
  rw [compile, compileRoot, htarget]
  dsimp only
  rw [hactions]
  dsimp only
  rw [hlist]
  split_ifs <;> rfl

end KristaTech.Mescal
