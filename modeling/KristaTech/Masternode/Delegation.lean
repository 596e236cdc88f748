import Mathlib.Tactic.SplitIfs
import KristaTech.Library.UndoStack
import KristaTech.Primitives.Basic

/-!
# Collateral delegations and their undo log

A masternode's collateral may delegate its signing rights to another key on chain. `adam.cpp` keeps
three maps: the current delegation of each collateral outpoint, the height at which its key became
current, and a history of the delegations it replaced, capped at 16 entries, from which a
disconnected block is undone.

Seen for one outpoint, the three maps are one stack: the current delegation on top of the history,
each entry with the height at which it became current (`Delegations.stack`). Recording is `put` on
that stack, cut off at 17 entries, and reverting is `undo` (`stack_record`, `stack_revert`).
-/

namespace KristaTech.Masternode

open UndoStack List

/-- A network address and port. -/
structure CService where
  ip : BitVec 128
  port : UInt16
  deriving DecidableEq, Repr, Inhabited

structure COnChainMasternodeDelegation where
  pubKeyCollateralAddress : CPubKey
  pubKeyMasternode : CPubKey
  addr : CService
  sigTime : ℤ
  protocolVersion : ℤ
  nMessVersion : ℤ
  vchCollateralSig : Bytes
  deriving DecidableEq, Repr, Inhabited

structure Delegations where
  mapOnChainCollateralDelegations : Std.ExtTreeMap COutPoint COnChainMasternodeDelegation
  mapCollateralDelegationFirstHeight : Std.ExtTreeMap COutPoint ℤ
  mapCollateralDelegationHistory : Std.ExtTreeMap COutPoint (List (ℤ × COnChainMasternodeDelegation))

namespace Delegations

def empty : Delegations := ⟨∅, ∅, ∅⟩

/-! ### Recording and reverting -/

/-- `RecordCollateralDelegationWithHistory`. -/
def recordCollateralDelegationWithHistory (S : Delegations) (o : COutPoint)
    (newDel : COnChainMasternodeDelegation) (nHeight : ℤ) : Delegations :=
  let S := match S.mapOnChainCollateralDelegations[o]? with
    | some old =>
      if old.pubKeyMasternode ≠ newDel.pubKeyMasternode then
        let prevFirstHeight := S.mapCollateralDelegationFirstHeight[o]?.getD 1
        let vecHist := S.mapCollateralDelegationHistory[o]?.getD [] ++ [(prevFirstHeight, old)]
        let vecHist := if 16 < vecHist.length then vecHist.drop 1 else vecHist
        { S with
          mapCollateralDelegationHistory := S.mapCollateralDelegationHistory.insert o vecHist
          mapCollateralDelegationFirstHeight :=
            S.mapCollateralDelegationFirstHeight.insert o nHeight }
      else
        let firstHeight := match S.mapCollateralDelegationFirstHeight[o]? with
          | some f => min f nHeight
          | none => nHeight
        { S with mapCollateralDelegationFirstHeight :=
            S.mapCollateralDelegationFirstHeight.insert o firstHeight }
    | none =>
      { S with mapCollateralDelegationFirstHeight :=
          S.mapCollateralDelegationFirstHeight.insert o nHeight }
  { S with mapOnChainCollateralDelegations := S.mapOnChainCollateralDelegations.insert o newDel }

/-- Make an earlier delegation current again, with what is left of the history; a history that has
become empty is removed. -/
def restore (S : Delegations) (o : COutPoint) (e : ℤ × COnChainMasternodeDelegation)
    (vecHist : List (ℤ × COnChainMasternodeDelegation)) : Delegations where
  mapOnChainCollateralDelegations := S.mapOnChainCollateralDelegations.insert o e.2
  mapCollateralDelegationFirstHeight := S.mapCollateralDelegationFirstHeight.insert o e.1
  mapCollateralDelegationHistory :=
    if vecHist.isEmpty then S.mapCollateralDelegationHistory.erase o
    else S.mapCollateralDelegationHistory.insert o vecHist

def forget (S : Delegations) (o : COutPoint) : Delegations where
  mapOnChainCollateralDelegations := S.mapOnChainCollateralDelegations.erase o
  mapCollateralDelegationFirstHeight := S.mapCollateralDelegationFirstHeight.erase o
  mapCollateralDelegationHistory := S.mapCollateralDelegationHistory

/-- `RevertOnChainCollateralDelegation`, with the key it restores: the invalid key if none. -/
def revertOnChainCollateralDelegation (S : Delegations) (o : COutPoint)
    (disconnectedPubKey : CPubKey) (nDisconnectedHeight : ℤ) : Delegations × CPubKey :=
  match S.mapOnChainCollateralDelegations[o]? with
  | none => (S, CPubKey.invalid)
  | some del =>
    let firstHeight := S.mapCollateralDelegationFirstHeight[o]?.getD nDisconnectedHeight
    if del.pubKeyMasternode = disconnectedPubKey ∧ nDisconnectedHeight ≤ firstHeight then
      let vecHist := S.mapCollateralDelegationHistory[o]?.getD []
      match vecHist.getLast? with
      | some e => (S.restore o e vecHist.dropLast, e.2.pubKeyMasternode)
      | none => (S.forget o, CPubKey.invalid)
    else (S, CPubKey.invalid)

/-! ### One outpoint's stack -/

def history (S : Delegations) (o : COutPoint) : List (ℤ × COnChainMasternodeDelegation) :=
  S.mapCollateralDelegationHistory[o]?.getD []

def stack (S : Delegations) (o : COutPoint) : List (ℤ × COnChainMasternodeDelegation) :=
  match S.mapOnChainCollateralDelegations[o]? with
  | none => []
  | some del => (S.mapCollateralDelegationFirstHeight[o]?.getD 1, del) :: (S.history o).reverse

/-- What the three maps keep: an outpoint with a delegation has a first height, one without has
no history, and no history is longer than the cap. -/
structure WellFormed (S : Delegations) : Prop where
  first : ∀ (o : COutPoint) del, S.mapOnChainCollateralDelegations[o]? = some del →
    ∃ f, S.mapCollateralDelegationFirstHeight[o]? = some f
  noHistory : ∀ o : COutPoint, S.mapOnChainCollateralDelegations[o]? = none → S.history o = []
  capped : ∀ o, (S.history o).length ≤ 16

theorem wellFormed_empty : WellFormed empty where
  first := by simp [empty]
  noHistory := by simp [empty, history]
  capped := by simp [empty, history]

variable {S : Delegations} {o o' : COutPoint} {newDel : COnChainMasternodeDelegation} {nHeight : ℤ}
  {k : CPubKey}

theorem stack_congr {S' : Delegations}
    (h₁ : S'.mapOnChainCollateralDelegations[o]? = S.mapOnChainCollateralDelegations[o]?)
    (h₂ : S'.mapCollateralDelegationFirstHeight[o]? = S.mapCollateralDelegationFirstHeight[o]?)
    (h₃ : S'.history o = S.history o) : S'.stack o = S.stack o := by
  simp only [stack, h₁, h₂, h₃]

theorem record_self (S : Delegations) (o : COutPoint) (newDel : COnChainMasternodeDelegation)
    (nHeight : ℤ) :
    let S' := S.recordCollateralDelegationWithHistory o newDel nHeight
    S'.mapOnChainCollateralDelegations[o]? = some newDel ∧
    S'.mapCollateralDelegationFirstHeight[o]? = some (
      match S.mapOnChainCollateralDelegations[o]? with
      | some old =>
        if old.pubKeyMasternode ≠ newDel.pubKeyMasternode then nHeight
        else match S.mapCollateralDelegationFirstHeight[o]? with
          | some f => min f nHeight
          | none => nHeight
      | none => nHeight) ∧
    S'.history o = match S.mapOnChainCollateralDelegations[o]? with
      | some old =>
        if old.pubKeyMasternode ≠ newDel.pubKeyMasternode then
          let v := S.history o ++ [(S.mapCollateralDelegationFirstHeight[o]?.getD 1, old)]
          if 16 < v.length then v.drop 1 else v
        else S.history o
      | none => S.history o := by
  unfold recordCollateralDelegationWithHistory
  cases hcur : S.mapOnChainCollateralDelegations[o]? with
  | none => simp [history]
  | some old =>
    by_cases hkey : old.pubKeyMasternode = newDel.pubKeyMasternode
    · simp [hkey, history]
    · simp [hkey, history]

theorem record_of_ne (S : Delegations) (newDel : COnChainMasternodeDelegation) (nHeight : ℤ) (h : o ≠ o') :
    let S' := S.recordCollateralDelegationWithHistory o newDel nHeight
    S'.mapOnChainCollateralDelegations[o']? = S.mapOnChainCollateralDelegations[o']? ∧
    S'.mapCollateralDelegationFirstHeight[o']? = S.mapCollateralDelegationFirstHeight[o']? ∧
    S'.history o' = S.history o' := by
  unfold recordCollateralDelegationWithHistory
  cases hcur : S.mapOnChainCollateralDelegations[o]? with
  | none => simp [Std.ExtTreeMap.getElem?_insert, h, history]
  | some old =>
    by_cases hkey : old.pubKeyMasternode = newDel.pubKeyMasternode <;>
      simp [hkey, Std.ExtTreeMap.getElem?_insert, h, history]

/-- **Recording is putting on the stack**, cut off at the current delegation and 16 more. -/
theorem stack_record (hS : S.WellFormed) :
    (S.recordCollateralDelegationWithHistory o newDel nHeight).stack o' =
      if o = o' then
        (put COnChainMasternodeDelegation.pubKeyMasternode nHeight (S.stack o) newDel).take 17
      else S.stack o' := by
  split_ifs with ho
  · subst ho
    obtain ⟨hcur, hfirst, hhist⟩ := record_self S o newDel nHeight
    have hcap := hS.capped o
    rw [stack, hcur]
    simp only [hfirst, hhist, Option.getD_some]
    rw [stack]
    cases hold : S.mapOnChainCollateralDelegations[o]? with
    | none => simp [put, hS.noHistory o hold]
    | some old =>
      obtain ⟨f, hf⟩ := hS.first o old hold
      by_cases hkey : old.pubKeyMasternode = newDel.pubKeyMasternode
      · simp only [hkey, hf, put, Option.getD_some, ne_eq, not_true_eq_false, if_false, if_true]
        rw [take_of_length_le (by rw [length_cons, length_reverse]; exact Nat.succ_le_succ hcap)]
      · simp only [hkey, hf, put, Option.getD_some, ne_eq, not_false_eq_true, if_false, if_true,
          length_append, length_singleton]
        split_ifs with hfull
        · -- a full history loses its oldest entry, the bottom of the stack
          have hlen : (S.history o).length = 16 := by omega
          cases hist : S.history o with
          | nil => simp [hist] at hlen
          | cons e rest =>
            have hrest : rest.length = 15 := by simpa [hist] using hlen
            simp [hrest]
        · rw [take_of_length_le (by simp; omega)]
          simp
  · obtain ⟨hcur, hfirst, hhist⟩ := record_of_ne S newDel nHeight ho
    exact stack_congr hcur hfirst hhist

theorem WellFormed.record (hS : S.WellFormed) :
    (S.recordCollateralDelegationWithHistory o newDel nHeight).WellFormed := by
  obtain ⟨hcur, hfirst, hhist⟩ := record_self S o newDel nHeight
  refine ⟨?_, ?_, ?_⟩
  · intro o' del hdel
    by_cases ho : o = o'
    · subst ho
      exact ⟨_, hfirst⟩
    · obtain ⟨hcur', hfirst', -⟩ := record_of_ne S newDel nHeight ho
      rw [hfirst']
      exact hS.first o' del (hcur' ▸ hdel)
  · intro o' hnone
    by_cases ho : o = o'
    · subst ho
      simp [hcur] at hnone
    · obtain ⟨hcur', -, hhist'⟩ := record_of_ne S newDel nHeight ho
      rw [hhist']
      exact hS.noHistory o' (hcur' ▸ hnone)
  · intro o'
    by_cases ho : o = o'
    · subst ho
      have hcap := hS.capped o
      rw [hhist]
      split
      · split_ifs
        · simp only
          split_ifs <;> simp_all
        · exact hcap
      · exact hcap
    · rw [(record_of_ne S newDel nHeight ho).2.2]
      exact hS.capped o'

/-- The current delegation of an outpoint is the one being reverted: it has the disconnected key,
and became current no earlier than the disconnected block. -/
def IsReverted (S : Delegations) (o : COutPoint) (k : CPubKey) (nHeight : ℤ) : Prop :=
  ∃ del, S.mapOnChainCollateralDelegations[o]? = some del ∧ del.pubKeyMasternode = k ∧
    nHeight ≤ S.mapCollateralDelegationFirstHeight[o]?.getD nHeight

/-- **One revert**: nothing, or the newest entry of the history becomes current again, or, without
a history, the delegation goes. -/
theorem revert_cases (S : Delegations) (o : COutPoint) (k : CPubKey) (nHeight : ℤ) :
    (¬ S.IsReverted o k nHeight ∧ (S.revertOnChainCollateralDelegation o k nHeight).1 = S) ∨
    (S.IsReverted o k nHeight ∧ ∃ hist e, S.history o = hist ++ [e] ∧
      (S.revertOnChainCollateralDelegation o k nHeight).1 = S.restore o e hist) ∨
    (S.IsReverted o k nHeight ∧ S.history o = [] ∧
      (S.revertOnChainCollateralDelegation o k nHeight).1 = S.forget o) := by
  simp only [revertOnChainCollateralDelegation, IsReverted]
  cases hcur : S.mapOnChainCollateralDelegations[o]? with
  | none => exact Or.inl ⟨by simp, rfl⟩
  | some del =>
    by_cases hrev : del.pubKeyMasternode = k ∧
        nHeight ≤ S.mapCollateralDelegationFirstHeight[o]?.getD nHeight
    · right
      simp only [if_pos hrev]
      cases hlast : (S.mapCollateralDelegationHistory[o]?.getD []).getLast? with
      | none => exact Or.inr ⟨⟨del, rfl, hrev⟩, getLast?_eq_none_iff.mp hlast, rfl⟩
      | some e =>
        refine Or.inl ⟨⟨del, rfl, hrev⟩, _, e, ?_, rfl⟩
        rw [history, dropLast_append_getLast? e hlast]
    · refine Or.inl ⟨?_, by simp only [if_neg hrev]⟩
      rintro ⟨del', hdel', hrev'⟩
      cases hdel'
      exact hrev hrev'

theorem history_restore {e : ℤ × COnChainMasternodeDelegation}
    {hist : List (ℤ × COnChainMasternodeDelegation)} :
    (S.restore o e hist).history o' = if o = o' then hist else S.history o' := by
  by_cases ho : o = o'
  · subst ho
    by_cases hempty : hist = [] <;> simp [restore, history, hempty]
  · by_cases hempty : hist = [] <;> simp [restore, history, hempty, ho,
      Std.ExtTreeMap.getElem?_erase, Std.ExtTreeMap.getElem?_insert]

theorem undo_of_isReverted (hS : S.WellFormed) (h : S.IsReverted o k nHeight) :
    undo COnChainMasternodeDelegation.pubKeyMasternode nHeight (S.stack o) k = (S.history o).reverse := by
  obtain ⟨del, hcur, hkey, hheight⟩ := h
  obtain ⟨f, hf⟩ := hS.first o del hcur
  rw [hf, Option.getD_some] at hheight
  simp [stack, hcur, hf, undo, hkey, hheight]

theorem undo_of_not_isReverted (hS : S.WellFormed) (h : ¬ S.IsReverted o k nHeight) :
    undo COnChainMasternodeDelegation.pubKeyMasternode nHeight (S.stack o) k = S.stack o := by
  cases hcur : S.mapOnChainCollateralDelegations[o]? with
  | none => simp [stack, hcur, undo]
  | some del =>
    obtain ⟨f, hf⟩ := hS.first o del hcur
    have hne : ¬ (del.pubKeyMasternode = k ∧ nHeight ≤ f) := by
      rintro ⟨hkey, hheight⟩
      exact h ⟨del, hcur, hkey, by simpa [hf] using hheight⟩
    simp [stack, hcur, hf, undo, hne]

/-- **Reverting is undoing the stack.** -/
theorem stack_revert (hS : S.WellFormed) : (S.revertOnChainCollateralDelegation o k nHeight).1.stack o' =
      if o = o' then
        undo COnChainMasternodeDelegation.pubKeyMasternode nHeight (S.stack o) k
      else S.stack o' := by
  by_cases ho : o = o'
  · subst ho
    rw [if_pos rfl]
    rcases revert_cases S o k nHeight with
      ⟨hnot, hres⟩ | ⟨hrev, hist, e, hhist, hres⟩ | ⟨hrev, hhist, hres⟩
    · rw [hres, undo_of_not_isReverted hS hnot]
    · rw [hres, undo_of_isReverted hS hrev, hhist, stack, history_restore, if_pos rfl]
      simp [restore]
    · rw [hres, undo_of_isReverted hS hrev, hhist]
      simp [stack, forget]
  · rw [if_neg ho]
    rcases revert_cases S o k nHeight with ⟨-, hres⟩ | ⟨-, hist, e, -, hres⟩ | ⟨-, -, hres⟩ <;>
      rw [hres]
    · exact stack_congr (by simp [restore, Std.ExtTreeMap.getElem?_insert, ho])
        (by simp [restore, Std.ExtTreeMap.getElem?_insert, ho]) (by simp [history_restore, ho])
    · exact stack_congr (by simp [forget, Std.ExtTreeMap.getElem?_erase, ho])
        (by simp [forget, Std.ExtTreeMap.getElem?_erase, ho]) rfl

theorem WellFormed.revert (hS : S.WellFormed) :
    (S.revertOnChainCollateralDelegation o k nHeight).1.WellFormed := by
  rcases revert_cases S o k nHeight with
    ⟨-, hres⟩ | ⟨hrev, hist, e, hhist, hres⟩ | ⟨hrev, hhist, hres⟩ <;> rw [hres]
  · exact hS
  · refine ⟨?_, ?_, ?_⟩ <;> intro o' <;> by_cases ho : o = o'
    · subst ho
      simp [restore]
    · simpa [restore, Std.ExtTreeMap.getElem?_insert, ho] using hS.first o'
    · subst ho
      simp [restore]
    · rw [history_restore, if_neg ho]
      simpa [restore, Std.ExtTreeMap.getElem?_insert, ho] using hS.noHistory o'
    · subst ho
      have hcap := hS.capped o
      rw [hhist, length_append] at hcap
      rw [history_restore, if_pos rfl]
      omega
    · rw [history_restore, if_neg ho]
      exact hS.capped o'
  · refine ⟨?_, ?_, hS.capped⟩ <;> intro o' <;> by_cases ho : o = o'
    · subst ho
      simp [forget]
    · simpa [forget, Std.ExtTreeMap.getElem?_erase, ho] using hS.first o'
    · subst ho
      exact fun _ ↦ hhist
    · intro hnone
      exact hS.noHistory o' (by simpa [forget, Std.ExtTreeMap.getElem?_erase, ho] using hnone)

end Delegations

end KristaTech.Masternode
