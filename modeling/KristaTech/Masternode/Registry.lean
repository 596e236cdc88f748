import Mathlib.Tactic.SplitIfs
import KristaTech.Masternode.Ping
import KristaTech.Script.Standard

/-!
# The masternode registry

The three maps of `adam.cpp` that say which masternodes are alive: the heights at which a key was
active, the last of them, and the collateral each key is bound to, with
`RegisterOnChainMasternodePing`, which writes them, and `IsMasternodeActiveAtHeight`, which reads
them. All three are looked at one key at a time (`Registry.entry`).

Whatever is registered, in whatever order, a last active height is the newest of the heights, a
bound key has heights, and no collateral is bound to two keys (`Registry.Inv`).
-/

namespace KristaTech.Masternode

open List

/-- `std::set<int>`. -/
abbrev Heights := Std.ExtTreeSet ℤ

structure Registry where
  mapMasternodeActiveHeights : Std.ExtTreeMap CPubKey Heights
  mapMasternodeLastActiveHeight : Std.ExtTreeMap CPubKey ℤ
  mapMasternodeCollateralOutpoints : Std.ExtTreeMap CPubKey COutPoint

/-- The registry, the delegations and the pinned BLS keys: what a block's masternode activity
reads and writes. -/
structure MasternodeState where
  registry : Registry
  delegations : Delegations
  pins : PinnedBLSPubKeys

namespace Heights

/-- `*setHeights.begin()`. -/
def first (setHeights : Heights) : Option ℤ := setHeights.toList.head?

/-- `*setHeights.rbegin()`. -/
def last (setHeights : Heights) : Option ℤ := setHeights.toList.getLast?

/-- The loop that drops the oldest heights below the cutoff, but never the last one left. -/
def trim (nCutoffHeight : ℤ) : ℕ → Heights → Heights
  | 0, setHeights => setHeights
  | fuel + 1, setHeights =>
    match setHeights.first with
    | none => setHeights
    | some m =>
      if 1 < setHeights.size ∧ m < nCutoffHeight then trim nCutoffHeight fuel (setHeights.erase m)
      else setHeights

/-- A height is added; above 64 of them, those of more than 5760 blocks ago are dropped. -/
def record (setHeights : Heights) (nHeight : ℤ) : Heights :=
  let setHeights := setHeights.insert nHeight
  if 64 < setHeights.size then trim (nHeight - 5760) setHeights.size setHeights else setHeights

end Heights

namespace Registry

def empty : Registry := ⟨∅, ∅, ∅⟩

/-- `IsMasternodeActiveAtHeight`. -/
def isMasternodeActiveAtHeight (R : Registry) (k : CPubKey) (nQueryHeight : ℤ)
    (nWindow : ℤ := 2880) : Bool :=
  let recent (pingHeight : ℤ) : Bool :=
    pingHeight ≤ nQueryHeight && nQueryHeight - pingHeight ≤ nWindow
  k.isValid && ((R.mapMasternodeActiveHeights[k]?.bind fun setHeights ↦
        Heights.last (setHeights.filter (· ≤ nQueryHeight))).any recent ||
      R.mapMasternodeLastActiveHeight[k]?.any recent)

/-- Another key bound to a collateral that is registered for `k` is dropped from all three maps. -/
def evictOthers (R : Registry) (k : CPubKey) (collateralOutpoint : COutPoint) : Registry :=
  let kept (k' : CPubKey) : Bool :=
    R.mapMasternodeCollateralOutpoints[k']? != some collateralOutpoint || k' == k
  { mapMasternodeActiveHeights := R.mapMasternodeActiveHeights.filter fun k' _ ↦ kept k'
    mapMasternodeLastActiveHeight := R.mapMasternodeLastActiveHeight.filter fun k' _ ↦ kept k'
    mapMasternodeCollateralOutpoints :=
      R.mapMasternodeCollateralOutpoints.filter fun k' _ ↦ kept k' }

/-- The writes of a registration that has passed its checks. -/
def bind (R : Registry) (k : CPubKey) (collateralOutpoint : COutPoint) (nHeight : ℤ) : Registry :=
  let R := R.evictOthers k collateralOutpoint
  let setHeights := (R.mapMasternodeActiveHeights[k]?.getD ∅).record nHeight
  { mapMasternodeActiveHeights := R.mapMasternodeActiveHeights.insert k setHeights
    mapMasternodeLastActiveHeight :=
      R.mapMasternodeLastActiveHeight.insert k (setHeights.last.getD nHeight)
    mapMasternodeCollateralOutpoints :=
      R.mapMasternodeCollateralOutpoints.insert k collateralOutpoint }

end Registry

/-! ### Registration -/

/-- `COIN`. -/
def coin : CAmount := 100000000

/-- `CMasternode::GetMasternodeNodeCollateral`: the same at every height. -/
def getMasternodeNodeCollateral (_nHeight : ℤ) : CAmount := 4200 * coin

/-- What is read from a coin view: `GetCoin`. -/
abbrev CoinLookup := COutPoint → Option Coin

variable (P : PingChecks)

/-- A delegation that lets `k` speak for a collateral with this script. -/
def delegates (del : COnChainMasternodeDelegation) (k : CPubKey) (collateralOutpoint : COutPoint)
    (scriptPubKey : CScript) : Bool :=
  del.pubKeyMasternode == k && del.pubKeyCollateralAddress.isValid &&
    scriptPubKey == getScriptForDestination (.keyID (del.pubKeyCollateralAddress.getID P.crypto)) &&
    verifyOnChainDelegationSignature P del collateralOutpoint

/-- `IsValidMasternodeCollateralAndAuth`, for a non-negative height: the collateral is an unspent
coin of the required amount that pays to the key, or that a delegation passes on to it. -/
def isValidMasternodeCollateralAndAuth (view : CoinLookup) (S : Delegations) (k : CPubKey)
    (collateralOutpoint : COutPoint) (nHeight : ℤ)
    (inlineDel : Option COnChainMasternodeDelegation) : Bool :=
  k.isValid && !collateralOutpoint.isNull &&
    match view collateralOutpoint with
    | none => false
    | some coin =>
      !coin.isSpent && coin.out.nValue == getMasternodeNodeCollateral nHeight &&
        (coin.out.scriptPubKey == getScriptForDestination (.keyID (k.getID P.crypto)) ||
          inlineDel.any (delegates P · k collateralOutpoint coin.out.scriptPubKey) ||
          S.mapOnChainCollateralDelegations[collateralOutpoint]?.any
            (delegates P · k collateralOutpoint coin.out.scriptPubKey))

/-- The delegation a registration carries is recorded if it is the coin's owner's. -/
def recordInlineDelegation (view : CoinLookup) (S : Delegations) (k : CPubKey)
    (collateralOutpoint : COutPoint) (nHeight : ℤ) :
    Option COnChainMasternodeDelegation → Delegations
  | none => S
  | some del =>
    if (view collateralOutpoint).any fun coin ↦
        !coin.isSpent && delegates P del k collateralOutpoint coin.out.scriptPubKey
    then S.recordCollateralDelegationWithHistory collateralOutpoint del nHeight
    else S

/-- `RegisterOnChainMasternodePing`: whether the registration was accepted, and the state it
leaves. -/
def registerOnChainMasternodePing (view : CoinLookup) (s : MasternodeState) (k : CPubKey)
    (collateralOutpoint : COutPoint) (nHeight : ℤ)
    (inlineDel : Option COnChainMasternodeDelegation) : Bool × MasternodeState :=
  if isValidMasternodeCollateralAndAuth P view s.delegations k collateralOutpoint nHeight inlineDel
  then
    (true,
      { s with
        registry := s.registry.bind k collateralOutpoint nHeight
        delegations :=
          recordInlineDelegation P view s.delegations k collateralOutpoint nHeight inlineDel })
  else (false, s)

/-! ### Sets of heights -/

namespace Heights

variable {S : Heights} {c h x y m : ℤ} {n : ℕ}

theorem last_eq_some_iff : S.last = some m ↔ m ∈ S ∧ ∀ x ∈ S, x ≤ m := by
  have hsorted : S.toList.Pairwise (· < ·) :=
    Std.ExtTreeSet.ordered_toList.imp fun h ↦ compare_lt_iff_lt.mp h
  simp only [last, ← Std.ExtTreeSet.mem_toList]
  generalize S.toList = l at hsorted
  rw [getLast?_eq_some_iff]
  constructor
  · rintro ⟨ys, rfl⟩
    rw [pairwise_append] at hsorted
    exact ⟨by simp, fun x hx ↦ by
      rcases mem_append.mp hx with hx | hx
      · exact (hsorted.2.2 x hx m mem_cons_self).le
      · exact (mem_singleton.mp hx).le⟩
  · rintro ⟨hm, hmax⟩
    obtain ⟨ys, zs, rfl⟩ := append_of_mem hm
    rw [pairwise_append, pairwise_cons] at hsorted
    cases zs with
    | nil => exact ⟨ys, rfl⟩
    | cons z zs =>
      have hlt := hsorted.2.1.1 z mem_cons_self
      exact absurd (hmax z (by simp)) (by omega)

theorem mem_insert : x ∈ S.insert y ↔ x = y ∨ x ∈ S := by
  rw [Std.ExtTreeSet.mem_insert, compare_eq_iff_eq, eq_comm]

theorem mem_erase : x ∈ S.erase y ↔ x ≠ y ∧ x ∈ S := by
  rw [Std.ExtTreeSet.mem_erase, Ne, compare_eq_iff_eq, ne_comm, Ne]

theorem exists_last (h : x ∈ S) : ∃ m, S.last = some m := by
  have hne : S.toList ≠ [] := ne_nil_of_mem (Std.ExtTreeSet.mem_toList.mpr h)
  exact ⟨S.toList.getLast hne, getLast?_eq_some_getLast hne⟩

theorem mem_of_mem_trim (hx : x ∈ trim c n S) : x ∈ S := by
  induction n generalizing S with
  | zero => exact hx
  | succ n ih =>
    simp only [trim] at hx
    split at hx
    · exact hx
    · split_ifs at hx
      · exact (mem_erase.mp (ih hx)).2
      · exact hx

theorem mem_trim_of_le (hc : c ≤ x) (hx : x ∈ S) : x ∈ trim c n S := by
  induction n generalizing S with
  | zero => exact hx
  | succ n ih =>
    simp only [trim]
    split
    · exact hx
    · split_ifs with hcond
      · exact ih (mem_erase.mpr ⟨by omega, hx⟩)
      · exact hx

theorem mem_of_mem_record (hx : x ∈ S.record h) : x = h ∨ x ∈ S := by
  simp only [record] at hx
  split_ifs at hx
  · exact mem_insert.mp (mem_of_mem_trim hx)
  · exact mem_insert.mp hx

theorem mem_record (hx : x ∈ S) (hkeep : S.size < 64 ∨ h - 5760 ≤ x) : x ∈ S.record h := by
  have hins : x ∈ S.insert h := mem_insert.mpr (Or.inr hx)
  simp only [record]
  split_ifs with hsize
  · rcases hkeep with hlt | hle
    · have := Std.ExtTreeSet.size_insert_le (t := S) (k := h)
      omega
    · exact mem_trim_of_le hle hins
  · exact hins

theorem self_mem_record (S : Heights) (h : ℤ) : h ∈ S.record h := by
  have hins : h ∈ S.insert h := mem_insert.mpr (Or.inl rfl)
  simp only [record]
  split_ifs
  · exact mem_trim_of_le (by omega) hins
  · exact hins

end Heights

/-! ### One key at a time -/

namespace Registry

def entry (R : Registry) (k : CPubKey) : Option Heights × Option ℤ × Option COutPoint :=
  (R.mapMasternodeActiveHeights[k]?, R.mapMasternodeLastActiveHeight[k]?,
    R.mapMasternodeCollateralOutpoints[k]?)

variable {R : Registry} {k k' : CPubKey} {o : COutPoint} {nHeight nTip : ℤ}

theorem entry_evictOthers (R : Registry) (k : CPubKey) (o : COutPoint) (k' : CPubKey) :
    (R.evictOthers k o).entry k' =
      if R.mapMasternodeCollateralOutpoints[k']? = some o ∧ k' ≠ k then (none, none, none)
      else R.entry k' := by
  by_cases h : R.mapMasternodeCollateralOutpoints[k']? = some o ∧ k' ≠ k
  · simp [entry, evictOthers, h]
  · rw [if_neg h]
    have hkept : (R.mapMasternodeCollateralOutpoints[k']? != some o || k' == k) = true := by
      simpa [or_iff_not_imp_left] using h
    have hall {α : Type} (a : Option α) : a.filter (fun _ ↦ true) = a := by cases a <;> rfl
    simp [entry, evictOthers, hkept, hall]

theorem entry_bind (R : Registry) (k : CPubKey) (o : COutPoint) (nHeight : ℤ) (k' : CPubKey) :
    (R.bind k o nHeight).entry k' =
      if k' = k then
        let setHeights := (R.mapMasternodeActiveHeights[k]?.getD ∅).record nHeight
        (some setHeights, setHeights.last, some o)
      else if R.mapMasternodeCollateralOutpoints[k']? = some o then (none, none, none)
      else R.entry k' := by
  have hself := entry_evictOthers R k o k
  rw [if_neg (by simp), entry, entry, Prod.mk.injEq] at hself
  by_cases hk : k' = k
  · subst hk
    rw [if_pos rfl]
    obtain ⟨m, hm⟩ := Heights.exists_last
      (Heights.self_mem_record (R.mapMasternodeActiveHeights[k']?.getD ∅) nHeight)
    simp [entry, bind, hself.1, hm]
  · rw [if_neg hk]
    have hother := entry_evictOthers R k o k'
    simp only [hk, not_false_eq_true, and_true, ne_eq] at hother
    rw [← hother]
    simp [entry, bind, Std.ExtTreeMap.getElem?_insert, Ne.symm hk]

/-! ### What holds of every registry -/

/-- The invariant of the three maps at a tip. Between the two halves of a disconnection the keys in
`pending` have lost their heights and still hold their collateral. -/
structure Inv (R : Registry) (nTip : ℤ) (pending : CPubKey → Prop) : Prop where
  /-- Heights are recorded for blocks of the chain only, and no empty set of them is kept. -/
  heights : ∀ (k : CPubKey) S, R.mapMasternodeActiveHeights[k]? = some S → (∃ x, x ∈ S) ∧ ∀ x ∈ S, x ≤ nTip
  /-- The last active height is the newest of the heights. -/
  last : ∀ (k : CPubKey) l, R.mapMasternodeLastActiveHeight[k]? = some l →
    ∃ S, R.mapMasternodeActiveHeights[k]? = some S ∧ S.last = some l
  /-- A bound key has been active. -/
  bound : ∀ (k : CPubKey) o, R.mapMasternodeCollateralOutpoints[k]? = some o →
    (∃ S, R.mapMasternodeActiveHeights[k]? = some S) ∨ pending k
  /-- No collateral is bound to two keys. -/
  injective : ∀ (k k' : CPubKey) o, R.mapMasternodeCollateralOutpoints[k]? = some o →
    R.mapMasternodeCollateralOutpoints[k']? = some o → k = k'

theorem inv_empty (nTip : ℤ) : Inv empty nTip fun _ ↦ False where
  heights := by simp [empty]
  last := by simp [empty]
  bound := by simp [empty]
  injective := by simp [empty]

theorem bind_cases (R : Registry) (k : CPubKey) (o : COutPoint) (nHeight : ℤ) (k' : CPubKey) :
    let R' := R.bind k o nHeight
    (k' = k ∧ ∃ setHeights, setHeights = (R.mapMasternodeActiveHeights[k]?.getD ∅).record nHeight ∧
      R'.mapMasternodeActiveHeights[k']? = some setHeights ∧
      R'.mapMasternodeLastActiveHeight[k']? = setHeights.last ∧
      R'.mapMasternodeCollateralOutpoints[k']? = some o) ∨
    (k' ≠ k ∧ R.mapMasternodeCollateralOutpoints[k']? = some o ∧
      R'.mapMasternodeActiveHeights[k']? = none ∧ R'.mapMasternodeLastActiveHeight[k']? = none ∧
      R'.mapMasternodeCollateralOutpoints[k']? = none) ∨
    (k' ≠ k ∧ R.mapMasternodeCollateralOutpoints[k']? ≠ some o ∧
      R'.mapMasternodeActiveHeights[k']? = R.mapMasternodeActiveHeights[k']? ∧
      R'.mapMasternodeLastActiveHeight[k']? = R.mapMasternodeLastActiveHeight[k']? ∧
      R'.mapMasternodeCollateralOutpoints[k']? = R.mapMasternodeCollateralOutpoints[k']?) := by
  have h := entry_bind R k o nHeight k'
  split_ifs at h with hk ho
  · simp only [entry, Prod.mk.injEq] at h
    exact Or.inl ⟨hk, _, rfl, h⟩
  · simp only [entry, Prod.mk.injEq] at h
    exact Or.inr (Or.inl ⟨hk, ho, h⟩)
  · simp only [entry, Prod.mk.injEq] at h
    exact Or.inr (Or.inr ⟨hk, ho, h⟩)

theorem Inv.bind {pending : CPubKey → Prop} (h : Inv R nTip pending) (hle : nHeight ≤ nTip)
    (k : CPubKey) (o : COutPoint) : Inv (R.bind k o nHeight) nTip pending where
  heights k' S hS := by
    obtain ⟨-, _, rfl, hA, -⟩ | ⟨-, -, hA, -⟩ | ⟨-, -, hA, -⟩ := bind_cases R k o nHeight k'
    · rw [hA, Option.some.injEq] at hS
      subst hS
      refine ⟨⟨nHeight, Heights.self_mem_record _ _⟩, fun x hx ↦ ?_⟩
      rcases Heights.mem_of_mem_record hx with rfl | hx
      · exact hle
      · cases hold : R.mapMasternodeActiveHeights[k]? with
        | none => simp [hold] at hx
        | some S => exact (h.heights k S hold).2 x (by simpa [hold] using hx)
    · simp [hA] at hS
    · exact h.heights k' S (hA ▸ hS)
  last k' l hl := by
    obtain ⟨-, S, -, hA, hL, -⟩ | ⟨-, -, -, hL, -⟩ | ⟨-, -, hA, hL, -⟩ := bind_cases R k o nHeight k'
    · exact ⟨S, hA, hL ▸ hl⟩
    · simp [hL] at hl
    · rw [hA]
      exact h.last k' l (hL ▸ hl)
  bound k' o' ho := by
    obtain ⟨-, S, -, hA, -⟩ | ⟨-, -, -, -, hC⟩ | ⟨-, -, hA, -, hC⟩ := bind_cases R k o nHeight k'
    · exact Or.inl ⟨S, hA⟩
    · simp [hC] at ho
    · rw [hA]
      exact h.bound k' o' (hC ▸ ho)
  injective k₁ k₂ o' h₁ h₂ := by
    obtain ⟨hk₁, -, -, -, -, hC₁⟩ | ⟨-, -, -, -, hC₁⟩ | ⟨-, hne₁, -, -, hC₁⟩ :=
      bind_cases R k o nHeight k₁ <;>
    obtain ⟨hk₂, -, -, -, -, hC₂⟩ | ⟨-, -, -, -, hC₂⟩ | ⟨-, hne₂, -, -, hC₂⟩ :=
      bind_cases R k o nHeight k₂
    · rw [hk₁, hk₂]
    · simp [hC₂] at h₂
    · rw [hC₁, Option.some.injEq] at h₁
      exact absurd (hC₂ ▸ h₂) (h₁ ▸ hne₂)
    · simp [hC₁] at h₁
    · simp [hC₁] at h₁
    · simp [hC₁] at h₁
    · rw [hC₂, Option.some.injEq] at h₂
      exact absurd (hC₁ ▸ h₁) (h₂ ▸ hne₁)
    · simp [hC₂] at h₂
    · exact h.injective k₁ k₂ o' (hC₁ ▸ h₁) (hC₂ ▸ h₂)

end Registry

end KristaTech.Masternode
