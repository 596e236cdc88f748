import KristaTech.Masternode.Delegation

/-!
# Undoing whole blocks of delegations

Connecting a block records its delegations in block order; disconnecting it calls
`RevertOnChainCollateralDelegation` for its pings, again in block order (`DisconnectBlock` in
`main.cpp`). This is not the reverse order, a delegation to the key already current is overwritten
without a trace, and the history is capped, so blocks exist that are not undone
(`delegations_not_restored`). `Undoable` is the condition on a block and the state it meets under
which it is, and `restores_delegations` carries it through whole runs.

Beside the capped maps stands an ideal: the uncapped stack that the blocks of the present chain
build, computed from the chain alone. A run keeps the maps' stacks a cut-off of the ideal ones.
-/

namespace KristaTech.Masternode

open UndoStack List

/-- A ping that carries a delegation. Whether its delegation was recorded when the block was
connected depends on the collateral; it is reverted in any case. -/
structure DelegationPing where
  collateralOutpoint : COutPoint
  delegation : COnChainMasternodeDelegation
  recorded : Bool
  deriving DecidableEq

/-- A block, as far as delegations are concerned. -/
structure DelegationBlock where
  nHeight : ℤ
  pings : List DelegationPing
  deriving DecidableEq

namespace DelegationBlock

/-- What the block records for an outpoint, in block order. -/
def delegationsOf (b : DelegationBlock) (o : COutPoint) : List COnChainMasternodeDelegation :=
  (b.pings.filter fun p ↦ p.recorded && p.collateralOutpoint == o).map (·.delegation)

/-- The keys that disconnecting the block reverts for an outpoint, in block order. -/
def keysOf (b : DelegationBlock) (o : COutPoint) : List CPubKey :=
  (b.pings.filter fun p ↦ p.collateralOutpoint == o).map (·.delegation.pubKeyMasternode)

end DelegationBlock

namespace Delegations

variable {S : Delegations} {b : DelegationBlock} {o : COutPoint}

/-! ### Connecting and disconnecting a block -/

def connectPing (nHeight : ℤ) (S : Delegations) (p : DelegationPing) : Delegations :=
  if p.recorded then
    S.recordCollateralDelegationWithHistory p.collateralOutpoint p.delegation nHeight
  else S

def disconnectPing (nHeight : ℤ) (S : Delegations) (p : DelegationPing) : Delegations :=
  (S.revertOnChainCollateralDelegation p.collateralOutpoint p.delegation.pubKeyMasternode nHeight).1

def connect (S : Delegations) (b : DelegationBlock) : Delegations :=
  b.pings.foldl (connectPing b.nHeight) S

def disconnect (S : Delegations) (b : DelegationBlock) : Delegations :=
  b.pings.foldl (disconnectPing b.nHeight) S

def putCapped (nHeight : ℤ) (t : List (ℤ × COnChainMasternodeDelegation))
    (d : COnChainMasternodeDelegation) : List (ℤ × COnChainMasternodeDelegation) :=
  (put COnChainMasternodeDelegation.pubKeyMasternode nHeight t d).take 17

theorem foldl_connectPing (nHeight : ℤ) (o : COutPoint) (ps : List DelegationPing) :
    ∀ S : Delegations, S.WellFormed → (ps.foldl (connectPing nHeight) S).WellFormed ∧
      (ps.foldl (connectPing nHeight) S).stack o =
        ((ps.filter fun p ↦ p.recorded && p.collateralOutpoint == o).map (·.delegation)).foldl
          (putCapped nHeight) (S.stack o) := by
  induction ps with
  | nil => exact fun S hS ↦ ⟨hS, rfl⟩
  | cons p ps ih =>
    intro S hS
    rw [foldl_cons, connectPing]
    split_ifs with hrec
    · obtain ⟨hwf, hstack⟩ := ih _ (hS.record (o := p.collateralOutpoint))
      refine ⟨hwf, hstack.trans ?_⟩
      rw [stack_record hS]
      by_cases ho : p.collateralOutpoint = o
      · simp [hrec, ho, putCapped]
      · simp [ho]
    · simpa [hrec] using ih S hS

theorem foldl_disconnectPing (nHeight : ℤ) (o : COutPoint) (ps : List DelegationPing) :
    ∀ S : Delegations, S.WellFormed → (ps.foldl (disconnectPing nHeight) S).WellFormed ∧
      (ps.foldl (disconnectPing nHeight) S).stack o = ((ps.filter fun p ↦ p.collateralOutpoint == o).map
          (·.delegation.pubKeyMasternode)).foldl
          (undo COnChainMasternodeDelegation.pubKeyMasternode nHeight) (S.stack o) := by
  induction ps with
  | nil => exact fun S hS ↦ ⟨hS, rfl⟩
  | cons p ps ih =>
    intro S hS
    rw [foldl_cons, disconnectPing]
    obtain ⟨hwf, hstack⟩ := ih _ (hS.revert (o := p.collateralOutpoint))
    refine ⟨hwf, hstack.trans ?_⟩
    rw [stack_revert hS]
    by_cases ho : p.collateralOutpoint = o
    · simp [ho]
    · simp [ho]

theorem WellFormed.connect (hS : S.WellFormed) (b : DelegationBlock) : (S.connect b).WellFormed :=
  (foldl_connectPing b.nHeight COutPoint.null b.pings S hS).1

theorem WellFormed.disconnect (hS : S.WellFormed) (b : DelegationBlock) : (S.disconnect b).WellFormed :=
  (foldl_disconnectPing b.nHeight COutPoint.null b.pings S hS).1

theorem stack_connect (hS : S.WellFormed) :
    (S.connect b).stack o = (b.delegationsOf o).foldl (putCapped b.nHeight) (S.stack o) :=
  (foldl_connectPing b.nHeight o b.pings S hS).2

theorem stack_disconnect (hS : S.WellFormed) : (S.disconnect b).stack o =
      (b.keysOf o).foldl (undo COnChainMasternodeDelegation.pubKeyMasternode b.nHeight) (S.stack o) :=
  (foldl_disconnectPing b.nHeight o b.pings S hS).2

/-! ### Blocks that can be undone -/

def currentKey (S : Delegations) (o : COutPoint) : Option CPubKey :=
  S.mapOnChainCollateralDelegations[o]?.map (·.pubKeyMasternode)

/-- What the block does to one outpoint will be undone when it is disconnected. -/
structure UndoableAt (S : Delegations) (b : DelegationBlock) (o : COutPoint) : Prop where
  /-- Delegations to the key that is current, before the key first changes, end where they began. -/
  sameKey : ∀ del ∈ S.mapOnChainCollateralDelegations[o]?,
    ((b.delegationsOf o).takeWhile fun d ↦ d.pubKeyMasternode = del.pubKeyMasternode).getLastD del = del
  /-- The keys to which the block changes the delegation, last one first, occur in this order among
  the keys of the block's pings. -/
  order : (changes COnChainMasternodeDelegation.pubKeyMasternode (S.currentKey o)
    (b.delegationsOf o)).reverse.Sublist (b.keysOf o)

instance (S : Delegations) (b : DelegationBlock) (o : COutPoint) : Decidable (S.UndoableAt b o) :=
  decidable_of_iff (_ ∧ _) ⟨fun h ↦ ⟨h.1, h.2⟩, fun h ↦ ⟨h.sameKey, h.order⟩⟩

/-- The block meets a state in which disconnecting it will undo it. -/
def Undoable (S : Delegations) (b : DelegationBlock) : Prop := ∀ o, S.UndoableAt b o

/-- How many delegations of an outpoint the block moves to the history. -/
def rotations (S : Delegations) (b : DelegationBlock) (o : COutPoint) : ℕ :=
  pushes COnChainMasternodeDelegation.pubKeyMasternode (S.currentKey o) (b.delegationsOf o)

theorem delegationsOf_eq_nil (ho : ∀ p ∈ b.pings, p.collateralOutpoint ≠ o) : b.delegationsOf o = [] := by
  rw [DelegationBlock.delegationsOf, map_eq_nil_iff, filter_eq_nil_iff]
  exact fun p hp ↦ by simp [ho p hp]

theorem undoable_of_pings (h : ∀ p ∈ b.pings, S.UndoableAt b p.collateralOutpoint) : S.Undoable b := by
  intro o
  by_cases ho : ∃ p ∈ b.pings, p.collateralOutpoint = o
  · obtain ⟨p, hp, rfl⟩ := ho
    exact h p hp
  · have hnil := delegationsOf_eq_nil (b := b) (o := o) fun p hp hpo ↦ ho ⟨p, hp, hpo⟩
    exact ⟨fun del _ ↦ by simp [hnil], by simp [hnil, changes]⟩

theorem topKey_stack :
    topKey COnChainMasternodeDelegation.pubKeyMasternode (S.stack o) = S.currentKey o := by
  cases hcur : S.mapOnChainCollateralDelegations[o]? <;> simp [stack, currentKey, topKey, hcur]

/-- A run of connected and disconnected blocks, every step of which meets the condition. The chain
is listed last block first, each block with the state it was connected to. -/
inductive Run : List (DelegationBlock × Delegations) → Delegations → Prop
  | start : Run [] empty
  | connect {chain S} (b : DelegationBlock) : Run chain S →
      (∀ p ∈ chain.head?, p.1.nHeight < b.nHeight) → S.Undoable b →
      Run ((b, S) :: chain) (S.connect b)
  /-- The history must still hold what the block moved there. -/
  | disconnect {chain S} (b : DelegationBlock) (S₀ : Delegations) : Run ((b, S₀) :: chain) S →
      (∀ o, S₀.rotations b o ≤ (S.history o).length) → Run chain (S.disconnect b)

/-! ### The ideal stacks -/

/-- The uncapped stack of an outpoint that a chain of blocks builds. -/
def ideal (o : COutPoint) : List (DelegationBlock × Delegations) → List (ℤ × COnChainMasternodeDelegation)
  | [] => []
  | (b, _) :: chain => (b.delegationsOf o).foldl
      (put COnChainMasternodeDelegation.pubKeyMasternode b.nHeight) (ideal o chain)

/-- What connecting `b` on ideal stacks needs to be undone, and keeps the heights in order. -/
structure IdealUndoable (chain : List (DelegationBlock × Delegations)) (b : DelegationBlock)
    (S : Delegations) : Prop where
  older : ∀ o, Older b.nHeight (ideal o chain)
  base : ∀ o, base COnChainMasternodeDelegation.pubKeyMasternode (ideal o chain)
    (b.delegationsOf o) = ideal o chain
  topKey : ∀ o, topKey COnChainMasternodeDelegation.pubKeyMasternode (ideal o chain) = S.currentKey o
  order : ∀ o, (changes COnChainMasternodeDelegation.pubKeyMasternode (S.currentKey o)
    (b.delegationsOf o)).reverse.Sublist (b.keysOf o)

/-- Every block of the chain can be undone on the ideal stacks. -/
def ChainUndoable : List (DelegationBlock × Delegations) → Prop
  | [] => True
  | (b, S) :: chain => IdealUndoable chain b S ∧ ChainUndoable chain

variable {s : List (ℤ × COnChainMasternodeDelegation)}

theorem older_ideal (hchain : ChainUndoable chain)
    (hheight : ∀ p ∈ chain.head?, p.1.nHeight < b.nHeight) (o : COutPoint) :
    Older b.nHeight (ideal o chain) := by
  cases chain with
  | nil => simp [Older, ideal]
  | cons p chain =>
    obtain ⟨b', S'⟩ := p
    have hlt : b'.nHeight < b.nHeight := hheight (b', S') rfl
    have hold := hchain.1.older o
    obtain ⟨above, hfold, -, hmarks⟩ :=
      exists_above COnChainMasternodeDelegation.pubKeyMasternode hold (b'.delegationsOf o)
    intro e he
    rw [ideal, hfold, hchain.1.base o] at he
    cases above with
    | nil => exact (hold e he).trans hlt
    | cons e' above =>
      obtain rfl : e' = e := by simpa using he
      exact (hmarks e' mem_cons_self).trans_lt hlt

/-- What a good run keeps: the maps hold the ideal stacks, cut off, but never the current entry. -/
structure RunInv (chain : List (DelegationBlock × Delegations)) (S : Delegations) : Prop where
  wellFormed : S.WellFormed
  chainUndoable : ChainUndoable chain
  keeps : ∀ o, Keeps 1 (S.stack o) (ideal o chain)

theorem base_eq_self (hS : S.Undoable b) (hhead : (S.stack o).head? = s.head?) :
    base COnChainMasternodeDelegation.pubKeyMasternode s (b.delegationsOf o) = s := by
  cases s with
  | nil => rfl
  | cons e t =>
    cases hcur : S.mapOnChainCollateralDelegations[o]? with
    | none => simp [stack, hcur] at hhead
    | some del =>
      obtain rfl : _ = e := by simpa [stack, hcur] using hhead
      simp only [base, (hS o).sameKey del hcur]

theorem RunInv.idealUndoable (h : RunInv chain S)
    (hheight : ∀ p ∈ chain.head?, p.1.nHeight < b.nHeight) (hb : S.Undoable b) :
    IdealUndoable chain b S where
  older := older_ideal h.chainUndoable hheight
  base o := base_eq_self hb ((h.keeps o).head?_eq le_rfl)
  topKey o := by
    rw [← topKey_stack]
    exact congrArg (Option.map _) ((h.keeps o).head?_eq le_rfl).symm
  order o := (hb o).order

/-! ### Steps and runs -/

variable {chain : List (DelegationBlock × Delegations)} {S₀ : Delegations} {n : ℕ}

theorem keeps_connect (hS : S.WellFormed) (hb : IdealUndoable chain b S) (hn : 1 ≤ n)
    (hcap : n ≤ 17) (hk : Keeps n (S.stack o) (ideal o chain)) :
    Keeps (min 17 (n + S.rotations b o)) ((S.connect b).stack o) (ideal o ((b, S) :: chain)) := by
  have hput : Keeps _ ((b.delegationsOf o).foldl (putCapped b.nHeight) (S.stack o)) _ :=
    hk.foldl_put (b.delegationsOf o) hn hcap
  rw [hb.topKey o, ← stack_connect hS] at hput
  exact hput

theorem keeps_disconnect (hS : S.WellFormed) (hb : IdealUndoable chain b S₀) (hn : 1 ≤ n)
    (hk : Keeps (n + S₀.rotations b o) (S.stack o) (ideal o ((b, S₀) :: chain))) :
    Keeps n ((S.disconnect b).stack o) (ideal o chain) := by
  rw [stack_disconnect hS]
  have htop := hb.topKey o
  refine Keeps.foldl_undo (hb.older o) (hb.base o) ?_ hn ?_
  · rw [htop]
    exact hb.order o
  · rw [htop]
    exact hk

theorem keeps_of_le_history (hk : Keeps 1 (S.stack o) s) (hn : n ≤ (S.history o).length) :
    Keeps (1 + n) (S.stack o) s := by
  refine ⟨hk.1, ?_⟩
  cases hcur : S.mapOnChainCollateralDelegations[o]? with
  | none =>
    have hlen := hk.2
    simp only [stack, hcur, length_nil] at hlen ⊢
    omega
  | some del =>
    simp only [stack, hcur, length_cons, length_reverse]
    omega

theorem RunInv.connect (h : RunInv chain S) (hheight : ∀ p ∈ chain.head?, p.1.nHeight < b.nHeight)
    (hb : S.Undoable b) : RunInv ((b, S) :: chain) (S.connect b) := by
  have hideal := h.idealUndoable hheight hb
  refine ⟨h.wellFormed.connect b, ⟨hideal, h.chainUndoable⟩, fun o ↦ ?_⟩
  exact (keeps_connect h.wellFormed hideal le_rfl (by omega) (h.keeps o)).mono (by omega)

theorem RunInv.disconnect (h : RunInv ((b, S₀) :: chain) S)
    (hhist : ∀ o, S₀.rotations b o ≤ (S.history o).length) : RunInv chain (S.disconnect b) := by
  obtain ⟨hb, hchain⟩ := h.chainUndoable
  refine ⟨h.wellFormed.disconnect b, hchain, fun o ↦ ?_⟩
  exact keeps_disconnect h.wellFormed hb le_rfl (keeps_of_le_history (h.keeps o) (hhist o))

/-- **Every good run keeps the invariant.** -/
theorem Run.inv (h : Run chain S) : RunInv chain S := by
  induction h with
  | start => exact ⟨wellFormed_empty, trivial, fun o ↦ by simp [stack, empty, ideal, Keeps]⟩
  | connect b _ hheight hb ih => exact ih.connect hheight hb
  | disconnect b S₀ _ hhist ih => exact ih.disconnect hhist

/-! ### Sequences of blocks -/

def connectAll (S : Delegations) (bs : List DelegationBlock) : Delegations := bs.foldl connect S

def disconnectAll (S : Delegations) (bs : List DelegationBlock) : Delegations :=
  bs.foldr (fun b S ↦ S.disconnect b) S

/-- Blocks at increasing heights, each undoable in the state it meets. -/
def UndoableAll : List (DelegationBlock × Delegations) → Delegations → List DelegationBlock → Prop
  | _, _, [] => True
  | chain, S, b :: bs => (∀ p ∈ chain.head?, p.1.nHeight < b.nHeight) ∧ S.Undoable b ∧
      UndoableAll ((b, S) :: chain) (S.connect b) bs

/-- How many delegations of an outpoint the blocks move to the history. -/
def rotationsAll : Delegations → List DelegationBlock → COutPoint → ℕ
  | _, [], _ => 0
  | S, b :: bs, o => S.rotations b o + rotationsAll (S.connect b) bs o

theorem keeps_disconnectAll (bs : List DelegationBlock) : ∀ {chain S n}, RunInv chain S →
    UndoableAll chain S bs → 1 ≤ n → Keeps n (S.stack o) (ideal o chain) →
    n + S.rotationsAll bs o ≤ 17 →
    ((S.connectAll bs).disconnectAll bs).WellFormed ∧
      Keeps n (((S.connectAll bs).disconnectAll bs).stack o) (ideal o chain) := by
  induction bs with
  | nil => exact fun hinv _ _ hk _ ↦ ⟨hinv.wellFormed, hk⟩
  | cons b bs ih =>
    rintro chain S n hinv ⟨hheight, hb, hbs⟩ hn hk hcap
    rw [rotationsAll] at hcap
    have hideal := hinv.idealUndoable hheight hb
    have hk' := keeps_connect hinv.wellFormed hideal hn (by omega) hk
    rw [min_eq_right (by omega)] at hk'
    -- the blocks above `b` are undone, and leave room for what `b` itself pushed
    obtain ⟨hwf, hrest⟩ := ih (hinv.connect hheight hb) hbs (by omega) hk' (by omega)
    exact ⟨hwf.disconnect b, keeps_disconnect hwf hideal hn hrest⟩

/-- **The history is a faithful undo log, on blocks that can be undone.** From every state that a
good run reaches, connecting blocks at increasing heights and then disconnecting them, last one
first, restores every outpoint's delegation, as long as the blocks move at most 16 delegations of an
outpoint to its history. -/
theorem restores_delegations (chain : List (DelegationBlock × Delegations)) (S : Delegations)
    (bs : List DelegationBlock) (hrun : Run chain S) (hbs : UndoableAll chain S bs)
    (hcap : ∀ o, S.rotationsAll bs o ≤ 16) (o : COutPoint) :
    ((S.connectAll bs).disconnectAll bs).mapOnChainCollateralDelegations[o]? =
      S.mapOnChainCollateralDelegations[o]? := by
  have hinv := hrun.inv
  have hstack : ∀ S : Delegations, (S.stack o).head?.map Prod.snd =
      S.mapOnChainCollateralDelegations[o]? := by
    intro S
    cases hcur : S.mapOnChainCollateralDelegations[o]? <;> simp [stack, hcur]
  obtain ⟨-, hkeeps⟩ := keeps_disconnectAll (o := o) bs hinv hbs le_rfl (hinv.keeps o)
    (by have := hcap o; omega)
  rw [← hstack, ← hstack, hkeeps.head?_eq le_rfl, (hinv.keeps o).head?_eq le_rfl]

/-! ### Two delegations in one block -/

/-- A delegation of the example outpoint to the key with bytes `i`. -/
def exampleDelegation (i : UInt8) : COnChainMasternodeDelegation :=
  { (default : COnChainMasternodeDelegation) with
    pubKeyMasternode := CPubKey.set (2 :: List.replicate 32 i) }

def examplePing (i : UInt8) : DelegationPing := ⟨⟨7, 0⟩, exampleDelegation i, true⟩

/-- **A block that is not undone.** An outpoint without a delegation is delegated in one block to
one key and then to another. Disconnecting the block reverts in block order: the first ping's key is
no longer current, and only the second delegation is taken back. -/
theorem delegations_not_restored : Run [] empty ∧
      ((empty.connect ⟨5, [examplePing 1, examplePing 2]⟩).disconnect
        ⟨5, [examplePing 1, examplePing 2]⟩).mapOnChainCollateralDelegations[
          (⟨7, 0⟩ : COutPoint)]? = some (exampleDelegation 1) ∧
      empty.mapOnChainCollateralDelegations[(⟨7, 0⟩ : COutPoint)]? = none :=
  ⟨Run.start, by decide, by decide⟩

/-- A state in which the example outpoint is delegated to the first key. -/
def exampleState : Delegations := empty.connect ⟨1, [examplePing 1]⟩

/-- A rotation to the second key and a renewal of it, in two blocks, are undone. -/
theorem restores_delegations_rotation :
    ((exampleState.connectAll [⟨2, [examplePing 2]⟩, ⟨3, [examplePing 2]⟩]).disconnectAll
        [⟨2, [examplePing 2]⟩, ⟨3, [examplePing 2]⟩]).mapOnChainCollateralDelegations[
          (⟨7, 0⟩ : COutPoint)]? =
      exampleState.mapOnChainCollateralDelegations[(⟨7, 0⟩ : COutPoint)]? := by
  have hpings : ∀ b : DelegationBlock, (∃ i, b.pings = [examplePing i]) → ∀ (S : Delegations) o,
      o ≠ ⟨7, 0⟩ → S.rotations b o = 0 := by
    rintro b ⟨i, hb⟩ S o ho
    have hnil := delegationsOf_eq_nil (b := b) (o := o) fun p hp ↦ by
      rw [hb, mem_singleton] at hp
      rw [hp]
      exact Ne.symm ho
    simp [rotations, hnil, pushes, changes]
  refine restores_delegations [(⟨1, [examplePing 1]⟩, empty)] exampleState _
    (Run.connect _ Run.start (by simp) (undoable_of_pings (by decide))) ?_ ?_ _
  · exact ⟨by decide, undoable_of_pings (by decide), by decide, undoable_of_pings (by decide), trivial⟩
  · intro o
    by_cases ho : o = ⟨7, 0⟩
    · subst ho
      decide
    · simp only [rotationsAll]
      rw [hpings _ ⟨2, rfl⟩ _ _ ho, hpings _ ⟨2, rfl⟩ _ _ ho]
      omega

end Delegations

end KristaTech.Masternode
