import Mathlib.Tactic.SplitIfs
import KristaTech.Primitives.Basic

/-!
# The anti-equivocation guard

`llmq::AllowQuorumSignature` of `llmq.cpp`: before a node lets its quorum keys sign a block, the
guard compares the block with the proposal it last recorded on the same parent. A repetition of that
block passes and changes nothing; another block passes, and is recorded instead, once the recorded
one is old enough: 12 seconds for a block of the same coordinator, 30 for a competing one.

What the guard enforces is an order between the records it writes on one parent. `Supersedes r' r`
says that `r'` was written late enough after `r`; the relation is transitive, so it reaches from any
record to the last one, over any number of replacements (`Supersedes.trans`). Records leave the map
only when they are more than an hour old.
-/

namespace KristaTech.Llmq

/-- What the guard remembers of a proposal it let pass. -/
structure SignedProposal where
  blockHash : Uint256
  coordinator : CPubKey
  nTime : ℤ
  deriving DecidableEq, Repr

/-- `mapSignedProposalByPrev`. -/
abbrev SignedProposals := Std.ExtTreeMap Uint256 SignedProposal

/-- `QUORUM_EQUIVOCATION_GUARD_SECS`. -/
def quorumEquivocationGuardSecs : ℤ := 30

/-- How long a recorded proposal bars another block: less if both are the same coordinator's. -/
def guardWindow (prev : SignedProposal) (coordinator : CPubKey) : ℤ :=
  if prev.coordinator = coordinator then 12 else quorumEquivocationGuardSecs

/-- The clean-up at the head of the guard: in a large map, records over an hour old are dropped. -/
def pruneSignedProposals (now : ℤ) (m : SignedProposals) : SignedProposals :=
  if 1000 < m.size then m.filter fun _ prev ↦ decide (¬ 3600 < now - prev.nTime) else m

/-- `AllowQuorumSignature`: whether the block may be signed, and the map afterwards. -/
def allowQuorumSignature (now : ℤ) (prevHash : Uint256) (coordinator : CPubKey)
    (blockHash : Uint256) (m : SignedProposals) : Bool × SignedProposals :=
  let m := pruneSignedProposals now m
  match m[prevHash]? with
  | none => (true, m.insert prevHash ⟨blockHash, coordinator, now⟩)
  | some prev =>
    if prev.blockHash = blockHash then (true, m)
    else if guardWindow prev coordinator ≤ now - prev.nTime then
      (true, m.insert prevHash ⟨blockHash, coordinator, now⟩)
    else (false, m)

/-! ### Records that supersede each other -/

/-- `r'` is `r` itself, or was written when `r` no longer barred it. -/
def Supersedes (r' r : SignedProposal) : Prop :=
  r' = r ∨ r.nTime + guardWindow r r'.coordinator ≤ r'.nTime

theorem Supersedes.refl (r : SignedProposal) : Supersedes r r := Or.inl rfl

theorem le_guardWindow (r : SignedProposal) (c : CPubKey) : 12 ≤ guardWindow r c := by
  unfold guardWindow quorumEquivocationGuardSecs
  split <;> omega

theorem guardWindow_le (r : SignedProposal) (c : CPubKey) : guardWindow r c ≤ 30 := by
  unfold guardWindow quorumEquivocationGuardSecs
  split <;> omega

variable {r r' : SignedProposal} {m : SignedProposals}

theorem Supersedes.nTime_le (h : Supersedes r' r) : r.nTime ≤ r'.nTime := by
  rcases h with rfl | h
  · exact le_rfl
  · have := le_guardWindow r r'.coordinator
    omega

/-- The guard's windows add up: whoever bars `r''` on account of `r` is met on the way. -/
theorem Supersedes.trans {r'' : SignedProposal} (h : Supersedes r' r) (h' : Supersedes r'' r') :
    Supersedes r'' r := by
  rcases h with rfl | h
  · exact h'
  rcases h' with rfl | h'
  · exact Or.inr h
  right
  have hpos := le_guardWindow r r'.coordinator
  by_cases hc : r'.coordinator = r''.coordinator
  · have := le_guardWindow r' r''.coordinator
    rw [← hc]
    omega
  · have hlong : guardWindow r' r''.coordinator = 30 := by
      simp [guardWindow, hc, quorumEquivocationGuardSecs]
    have := guardWindow_le r r''.coordinator
    omega

theorem Supersedes.add_twelve_le (h : Supersedes r' r) (hne : r' ≠ r) : r.nTime + 12 ≤ r'.nTime := by
  have := le_guardWindow r r'.coordinator
  have := h.resolve_left hne
  omega

theorem Supersedes.coordinator_eq (h : Supersedes r' r) (hlt : r'.nTime < r.nTime + 30) :
    r.coordinator = r'.coordinator := by
  by_contra hc
  rcases h with rfl | h
  · exact hc rfl
  · simp only [guardWindow, hc, quorumEquivocationGuardSecs, if_false] at h
    omega

/-! ### What one call does -/

theorem getElem?_of_pruneSignedProposals {now : ℤ} {p : Uint256}
    (h : (pruneSignedProposals now m)[p]? = some r) : m[p]? = some r := by
  unfold pruneSignedProposals at h
  split at h
  · rw [Std.ExtTreeMap.getElem?_filter', Option.filter_eq_some_iff] at h
    exact h.1
  · exact h

theorem getElem?_pruneSignedProposals_or {now : ℤ} {p : Uint256} (h : m[p]? = some r) :
    (pruneSignedProposals now m)[p]? = some r ∨
      (pruneSignedProposals now m)[p]? = none ∧ r.nTime + 3600 < now := by
  unfold pruneSignedProposals
  split
  · rw [Std.ExtTreeMap.getElem?_filter', h]
    by_cases hold : 3600 < now - r.nTime
    · exact Or.inr ⟨by simp only [Option.filter_some, hold]; rfl, by omega⟩
    · exact Or.inl (by simp only [Option.filter_some, hold]; rfl)
  · exact Or.inl h

/-- **One call of the guard**: it refuses, or lets the recorded block pass again, or records the
block because whatever was recorded no longer bars it. In every case the map is otherwise only
pruned. -/
theorem allowQuorumSignature_cases (now : ℤ) (prevHash : Uint256) (coordinator : CPubKey)
    (blockHash : Uint256) (m : SignedProposals) :
    allowQuorumSignature now prevHash coordinator blockHash m = (false, pruneSignedProposals now m) ∨
      (∃ r, (pruneSignedProposals now m)[prevHash]? = some r ∧ r.blockHash = blockHash ∧
        allowQuorumSignature now prevHash coordinator blockHash m = (true, pruneSignedProposals now m)) ∨
      ((∀ r, (pruneSignedProposals now m)[prevHash]? = some r →
          Supersedes ⟨blockHash, coordinator, now⟩ r) ∧
        allowQuorumSignature now prevHash coordinator blockHash m =
          (true, (pruneSignedProposals now m).insert prevHash ⟨blockHash, coordinator, now⟩)) := by
  unfold allowQuorumSignature
  simp only
  split
  · rename_i hnone
    exact Or.inr (Or.inr ⟨by simp [hnone], rfl⟩)
  rename_i r hsome
  split_ifs with hhash hwindow
  · exact Or.inr (Or.inl ⟨r, hsome, hhash, rfl⟩)
  · refine Or.inr (Or.inr ⟨?_, rfl⟩)
    intro r' hr'
    obtain rfl : r = r' := by simpa [hsome] using hr'
    exact Or.inr (by simp only; omega)
  · exact Or.inl rfl

end KristaTech.Llmq
