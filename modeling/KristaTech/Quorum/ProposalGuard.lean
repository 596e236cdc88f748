import Mathlib.Data.List.Induction
import Mathlib.Data.List.Pairwise
import Mathlib.Algebra.Order.Group.Unbundled.Abs
import Mathlib.Algebra.Order.Group.Int
import Mathlib.Tactic.SplitIfs
import KristaTech.Primitives.Basic

/-!
# One proposal at a time

Before `CreateNewBlock` of `miner.cpp` asks the quorum for its signatures, it takes the
`ActiveProposalGuard`, so that a second call for the same parent and the same coordinator gives up.
The guard is a single slot for the whole node: the parent, the coordinator and the time of the last
call that took it. A call for another parent or coordinator overwrites the slot, and a call that
leaves without enough signatures sets the time back to 0, whosever slot it is by then.

**Which interleavings are safe**: two calls for one parent and coordinator collect side by side
exactly if the second one comes less than 15 seconds after the first, while the first still collects,
and in between the slot was overwritten or set back by a third one (`ProposalRun.exclusive_iff`).
-/

namespace KristaTech.Llmq

/-! ### The guard -/

/-- `hashActiveProposalParent`, `pubKeyActiveProposalCoord` and `nActiveProposalStartTime`. -/
structure ActiveProposal where
  hashParent : Uint256
  pubKeyCoord : CPubKey
  nStartTime : ℤ
  deriving DecidableEq

/-- The guard is not given: the same proposal was begun less than 15 seconds ago. -/
def ActiveProposal.bars (p : ActiveProposal) (parentHash : Uint256) (coordKey : CPubKey) (now : ℤ) :
    Bool :=
  p.hashParent == parentHash && p.pubKeyCoord == coordKey && decide (now - p.nStartTime < 15)

/-- How a call that has the guard leaves. -/
inductive ProposalOutcome
  | noQuorum
  /-- A shutdown, an interruption or a new tip. -/
  | aborted
  | notEnoughSignatures
  | signed
  deriving DecidableEq

/-- `fSucceeded`, when the guard is destroyed. -/
def ProposalOutcome.fSucceeded : ProposalOutcome → Bool
  | .signed => true
  | _ => false

/-- A call of `CreateNewBlock` that has taken the guard. -/
structure Proposing where
  id : ℕ
  parentHash : Uint256
  coordKey : CPubKey
  startTime : ℤ
  deriving DecidableEq

/-- The slot, and the calls that collect signatures. -/
structure ProposalState where
  active : ActiveProposal
  collecting : List Proposing

/-- What the mutex `cs_active_proposal` orders: the constructors and destructors of the guards. -/
inductive ProposalEvent
  | construct (id : ℕ) (parentHash : Uint256) (coordKey : CPubKey) (now : ℤ)
  | destroy (id : ℕ) (outcome : ProposalOutcome)
  deriving DecidableEq

namespace ProposalState

def start : ProposalState := ⟨⟨0, .invalid, 0⟩, []⟩

/-- The constructor or the destructor of a guard. A call that does not get the guard returns, and its
destructor does nothing. -/
def step (s : ProposalState) : ProposalEvent → ProposalState
  | .construct id parentHash coordKey now =>
    if s.active.bars parentHash coordKey now then s
    else ⟨⟨parentHash, coordKey, now⟩, ⟨id, parentHash, coordKey, now⟩ :: s.collecting⟩
  | .destroy id outcome =>
    if s.collecting.any (·.id == id) then
      ⟨if outcome.fSucceeded then s.active else { s.active with nStartTime := 0 },
        s.collecting.filter (·.id != id)⟩
    else s

def after (events : List ProposalEvent) : ProposalState := events.foldl step start

/-- No two calls that took the guard less than 15 seconds apart for one parent and coordinator. -/
def Exclusive (s : ProposalState) : Prop :=
  ∀ c ∈ s.collecting, ∀ c' ∈ s.collecting, c ≠ c' → c.parentHash = c'.parentHash →
    c.coordKey = c'.coordKey → 15 ≤ |c.startTime - c'.startTime|

theorem after_concat (events : List ProposalEvent) (e : ProposalEvent) :
    after (events ++ [e]) = (after events).step e := by
  rw [after, List.foldl_append]
  rfl

end ProposalState

namespace Proposing

def entry (c : Proposing) : ProposalEvent := .construct c.id c.parentHash c.coordKey c.startTime

def Owns (c : Proposing) (s : ProposalState) : Prop :=
  s.active = ⟨c.parentHash, c.coordKey, c.startTime⟩

/-- The slot does not hold back another call for the same parent and coordinator. -/
def Lost (c : Proposing) (s : ProposalState) : Prop :=
  ¬ (s.active.hashParent = c.parentHash ∧ s.active.pubKeyCoord = c.coordKey) ∨ s.active.nStartTime = 0

/-- A third call disturbs the slot: it takes the guard for another parent or coordinator, or leaves
without success. -/
def Disturbed (c : Proposing) (s : ProposalState) : ProposalEvent → Prop
  | .construct _ parentHash coordKey now =>
    s.active.bars parentHash coordKey now = false ∧ ¬ (parentHash = c.parentHash ∧ coordKey = c.coordKey)
  | .destroy id outcome =>
    id ≠ c.id ∧ s.collecting.any (·.id == id) ∧ outcome.fSucceeded = false

end Proposing

theorem ActiveProposal.bars_eq_true_iff {p : ActiveProposal} {parentHash : Uint256}
    {coordKey : CPubKey} {now : ℤ} : p.bars parentHash coordKey now = true ↔
      p.hashParent = parentHash ∧ p.pubKeyCoord = coordKey ∧ now - p.nStartTime < 15 := by
  simp only [bars, Bool.and_eq_true, beq_iff_eq, decide_eq_true_eq, and_assoc]

/-! ### One event -/

section Step

variable {c : Proposing} {s : ProposalState} {e : ProposalEvent}

open ProposalState

theorem mem_collecting_step (h : c ∈ (s.step e).collecting) : c ∈ s.collecting ∨ e = c.entry ∧
    s.active.bars c.parentHash c.coordKey c.startTime = false := by
  cases e with
  | construct id parentHash coordKey now =>
    rw [step] at h
    split_ifs at h with hbars
    · exact .inl h
    · rcases List.mem_cons.1 h with rfl | h
      · exact .inr ⟨rfl, by simpa using hbars⟩
      · exact .inl h
  | destroy id outcome =>
    rw [step] at h
    split_ifs at h
    · exact .inl (List.mem_of_mem_filter h)
    · exact .inl (List.mem_of_mem_filter h)
    · exact .inl h

/-- **The slot stays with a call** that keeps collecting, as long as nobody disturbs it and its 15
seconds are not over. -/
theorem Proposing.Owns.step (h : c.Owns s) (hcollects : c ∈ (s.step e).collecting)
    (hfresh : ∀ id parentHash coordKey now, e = .construct id parentHash coordKey now →
      now - c.startTime < 15) (hundisturbed : ¬ c.Disturbed s e) : c.Owns (s.step e) := by
  cases e with
  | construct id parentHash coordKey now =>
    have hbars : s.active.bars parentHash coordKey now = true := by
      by_contra hbars
      have hkey : parentHash = c.parentHash ∧ coordKey = c.coordKey := by
        by_contra hkey
        exact hundisturbed ⟨by simpa using hbars, hkey⟩
      refine hbars (ActiveProposal.bars_eq_true_iff.2 ?_)
      rw [h]
      exact ⟨hkey.1.symm, hkey.2.symm, hfresh _ _ _ _ rfl⟩
    rwa [ProposalState.step, if_pos hbars]
  | destroy id outcome =>
    rw [ProposalState.step] at hcollects ⊢
    split_ifs at hcollects ⊢ with hany hsucceeded
    · exact h
    · have hid : id ≠ c.id := by
        rintro rfl
        simpa using (List.mem_filter.1 hcollects).2
      exact absurd ⟨hid, hany, by simpa using hsucceeded⟩ hundisturbed
    · exact h

theorem Proposing.Disturbed.lost (h : c.Disturbed s e) : c.Lost (s.step e) := by
  cases e with
  | construct id parentHash coordKey now =>
    rw [ProposalState.step, h.1, if_neg Bool.false_ne_true]
    exact .inl h.2
  | destroy id outcome =>
    rw [ProposalState.step, if_pos h.2.1, h.2.2]
    exact .inr rfl

theorem Proposing.Lost.step (h : c.Lost s)
    (hbarred : ∀ id now, e = .construct id c.parentHash c.coordKey now →
      s.active.bars c.parentHash c.coordKey now = true) : c.Lost (s.step e) := by
  cases e with
  | construct id parentHash coordKey now =>
    by_cases hbars : s.active.bars parentHash coordKey now = true
    · rwa [ProposalState.step, if_pos hbars]
    · rw [ProposalState.step, if_neg hbars]
      refine .inl ?_
      rintro ⟨rfl, rfl⟩
      exact hbars (hbarred id now rfl)
  | destroy id outcome =>
    rw [ProposalState.step]
    split_ifs
    · exact h
    · exact .inr rfl
    · exact h

theorem Proposing.Lost.bars (h : c.Lost s) {now : ℤ} (hnow : 15 ≤ now) :
    s.active.bars c.parentHash c.coordKey now = false := by
  by_contra hbars
  obtain ⟨hparent, hcoord, htime⟩ := ActiveProposal.bars_eq_true_iff.1 (by simpa using hbars)
  rcases h with h | h
  · exact h ⟨hparent, hcoord⟩
  · omega

end Step

/-! ### Runs -/

def ProposalEvent.id? : ProposalEvent → Option ℕ
  | .construct id .. => some id
  | .destroy .. => none

/-- `GetTime()`, if the event reads it. -/
def ProposalEvent.now? : ProposalEvent → Option ℤ
  | .construct _ _ _ now => some now
  | .destroy .. => none

/-- An interleaving of calls on one node: every call begins once, and the clock does not go back. -/
structure ProposalRun where
  events : List ProposalEvent
  once : events.Pairwise fun e e' ↦ ∀ id ∈ e.id?, id ∉ e'.id?
  clock : events.Pairwise fun e e' ↦ ∀ t ∈ e.now?, ∀ t' ∈ e'.now?, t ≤ t'

namespace ProposalRun

open ProposalState

/-- In no state that is reached two calls collect side by side. -/
def Exclusive (r : ProposalRun) : Prop := ∀ events, events <+: r.events → (after events).Exclusive

/-- If a call comes for the parent and coordinator of one that took the guard less than 15 seconds ago
and still collects, then no third one has disturbed the slot in between. -/
def Undisturbed (r : ProposalRun) : Prop :=
  ∀ (c : Proposing) (pre mid post : List ProposalEvent) (id : ℕ) (now : ℤ),
    r.events = pre ++ c.entry :: (mid ++ .construct id c.parentHash c.coordKey now :: post) →
    c ∈ (after (pre ++ c.entry :: mid)).collecting → now - c.startTime < 15 →
    ∀ mid₁ e mid₂, mid = mid₁ ++ e :: mid₂ → ¬ c.Disturbed (after (pre ++ c.entry :: mid₁)) e

variable {r : ProposalRun} {c : Proposing} {pre mid post : List ProposalEvent}
variable {events events' : List ProposalEvent}

theorem exists_entry (h : c ∈ (after events).collecting) : ∃ pre mid, events = pre ++ c.entry :: mid ∧
      (after pre).active.bars c.parentHash c.coordKey c.startTime = false := by
  induction events using List.reverseRecOn with
  | nil => cases h
  | append_singleton events e ih =>
    rw [after_concat] at h
    rcases mem_collecting_step h with h | ⟨rfl, hbars⟩
    · obtain ⟨pre, mid, rfl, hbars⟩ := ih h
      exact ⟨pre, mid ++ [e], by simp, hbars⟩
    · exact ⟨events, [], rfl, hbars⟩

/-- A call that collects did so before, if it did not begin since. -/
theorem collecting_of_append (h : c ∈ (after (events ++ events')).collecting)
    (hentry : c.entry ∉ events') : c ∈ (after events).collecting := by
  induction events' using List.reverseRecOn with
  | nil => rwa [List.append_nil] at h
  | append_singleton events' e ih =>
    rw [← List.append_assoc, after_concat] at h
    simp only [List.mem_append, List.mem_singleton, not_or] at hentry
    rcases mem_collecting_step h with h | ⟨rfl, -⟩
    · exact ih h hentry.1
    · exact absurd rfl hentry.2

theorem entry_notMem (hevents : r.events = pre ++ c.entry :: mid) : c.entry ∉ mid := by
  intro hmem
  have honce := r.once
  rw [hevents, List.pairwise_append, List.pairwise_cons] at honce
  exact honce.2.1.1 c.entry hmem c.id rfl rfl

theorem le_of_clock {e e' : ProposalEvent} {t t' : ℤ} (hevents : r.events = pre ++ e' :: post)
    (he : e ∈ pre) (ht : e.now? = some t) (ht' : e'.now? = some t') : t ≤ t' := by
  have hclock := r.clock
  rw [hevents, List.pairwise_append] at hclock
  exact hclock.2.2 e he e' List.mem_cons_self t ht t' ht'

/-- **An undisturbed slot stays with its call**, for as long as the call collects and its 15 seconds
are not over. -/
theorem owns_of_undisturbed (hbars : (after pre).active.bars c.parentHash c.coordKey c.startTime = false)
    (hentry : c.entry ∉ mid) (hcollects : c ∈ (after (pre ++ c.entry :: mid)).collecting)
    (hfresh : ∀ e ∈ mid, ∀ t ∈ e.now?, t - c.startTime < 15)
    (h : ∀ mid₁ e mid₂, mid = mid₁ ++ e :: mid₂ → ¬ c.Disturbed (after (pre ++ c.entry :: mid₁)) e) :
    c.Owns (after (pre ++ c.entry :: mid)) := by
  induction mid using List.reverseRecOn with
  | nil =>
    rw [after_concat, Proposing.entry, step, if_neg (by simp [hbars])]
    rfl
  | append_singleton mid e ih =>
    simp only [List.mem_append, List.mem_singleton, not_or] at hentry
    have hsplit : pre ++ c.entry :: (mid ++ [e]) = (pre ++ c.entry :: mid) ++ [e] := by simp
    rw [hsplit] at hcollects ⊢
    have hbefore : c ∈ (after (pre ++ c.entry :: mid)).collecting :=
      collecting_of_append hcollects (by simpa using hentry.2)
    have howns := ih hentry.1 hbefore (fun e' he' ↦ hfresh e' (List.mem_append_left _ he'))
      fun mid₁ e' mid₂ hmid ↦ h mid₁ e' (mid₂ ++ [e]) (by simp [hmid])
    rw [after_concat] at hcollects ⊢
    refine howns.step hcollects (fun id parentHash coordKey now he ↦ ?_) (h mid e [] rfl)
    exact hfresh e (by simp) now (by rw [he]; rfl)

/-- **Undisturbed calls exclude each other.** -/
theorem exclusive_of_undisturbed (h : r.Undisturbed) : r.Exclusive := by
  intro events hinit
  induction events using List.reverseRecOn with
  | nil => nofun
  | append_singleton events e ih =>
    have hexclusive := ih ((List.prefix_append events [e]).trans hinit)
    obtain ⟨post, hpost⟩ := hinit
    have hevents : r.events = events ++ e :: post := by rw [← hpost]; simp
    -- a call that is new is 15 seconds later than those for the same parent and coordinator
    have hnew (c c' : Proposing) (hc : c ∈ (after events).collecting) (he : e = c'.entry)
        (hbars : (after events).active.bars c'.parentHash c'.coordKey c'.startTime = false)
        (hparent : c.parentHash = c'.parentHash) (hcoord : c.coordKey = c'.coordKey) :
        15 ≤ c'.startTime - c.startTime := by
      by_contra hfresh
      obtain ⟨pre, mid, rfl, hfree⟩ := exists_entry hc
      have hevents' : r.events = pre ++ c.entry ::
          (mid ++ .construct c'.id c.parentHash c.coordKey c'.startTime :: post) := by
        rw [hevents, he, hparent, hcoord]
        simp [Proposing.entry]
      have hundisturbed := h c pre mid post c'.id c'.startTime hevents' hc (not_le.1 hfresh)
      have hentry : c.entry ∉ mid := fun hmem ↦
        entry_notMem hevents' (List.mem_append_left _ hmem)
      have htimes : ∀ e' ∈ mid, ∀ t ∈ e'.now?, t - c.startTime < 15 := by
        intro e' he' t ht
        have hle : t ≤ c'.startTime := le_of_clock hevents
          (List.mem_append_right _ (List.mem_cons_of_mem _ he')) ht (by rw [he]; rfl)
        omega
      have howns := owns_of_undisturbed hfree hentry hc htimes hundisturbed
      have hbars' : (after (pre ++ c.entry :: mid)).active.bars c'.parentHash c'.coordKey
          c'.startTime = true := by
        rw [howns]
        exact ActiveProposal.bars_eq_true_iff.2 ⟨hparent, hcoord, not_le.1 hfresh⟩
      rw [hbars] at hbars'
      cases hbars'
    intro c hc c' hc' hne hparent hcoord
    rw [after_concat] at hc hc'
    rcases mem_collecting_step hc with hc | ⟨hec, hbars⟩ <;>
      rcases mem_collecting_step hc' with hc' | ⟨hec', hbars'⟩
    · exact hexclusive c hc c' hc' hne hparent hcoord
    · rw [abs_sub_comm]
      exact (hnew c c' hc hec' hbars' hparent hcoord).trans (le_abs_self _)
    · exact (hnew c' c hc' hec hbars hparent.symm hcoord.symm).trans (le_abs_self _)
    · refine absurd ?_ hne
      cases c
      cases c'
      simpa [Proposing.entry] using hec.symm.trans hec'

theorem bars_of_exclusive (h : r.Exclusive) {id : ℕ} {now : ℤ}
    (hevents : r.events = pre ++ .construct id c.parentHash c.coordKey now :: post)
    (hcollects : c ∈ (after pre).collecting) (hfresh : now - c.startTime < 15) :
    (after pre).active.bars c.parentHash c.coordKey now = true := by
  by_contra hbars
  obtain ⟨pre₁, mid, rfl, -⟩ := exists_entry hcollects
  have hle : c.startTime ≤ now :=
    le_of_clock hevents (List.mem_append_right _ List.mem_cons_self) rfl rfl
  have hid : id ≠ c.id := by
    rintro rfl
    have honce := r.once
    rw [hevents, List.pairwise_append] at honce
    exact honce.2.2 c.entry (List.mem_append_right _ List.mem_cons_self) _ List.mem_cons_self c.id rfl
      rfl
  have hstate : after (pre₁ ++ c.entry :: mid ++ [.construct id c.parentHash c.coordKey now]) =
      ⟨⟨c.parentHash, c.coordKey, now⟩, ⟨id, c.parentHash, c.coordKey, now⟩ ::
        (after (pre₁ ++ c.entry :: mid)).collecting⟩ := by
    rw [after_concat, step, if_neg hbars]
  have hexclusive := h (pre₁ ++ c.entry :: mid ++ [.construct id c.parentHash c.coordKey now])
    ⟨post, by rw [hevents]; simp⟩
  rw [hstate] at hexclusive
  have habs := hexclusive ⟨id, c.parentHash, c.coordKey, now⟩ List.mem_cons_self c
    (List.mem_cons_of_mem _ hcollects) (fun heq ↦ hid (congrArg Proposing.id heq)) rfl rfl
  have hnonneg : 0 ≤ now - c.startTime := sub_nonneg.2 hle
  exact absurd (habs.trans_eq (abs_of_nonneg hnonneg)) (not_le.2 hfresh)

theorem lost_append (h : r.Exclusive) (hevents : r.events = events ++ events' ++ post)
    (hlost : c.Lost (after events)) (hentry : c.entry ∉ events')
    (hcollects : c ∈ (after (events ++ events')).collecting)
    (hfresh : ∀ e ∈ events', ∀ t ∈ e.now?, t - c.startTime < 15) :
    c.Lost (after (events ++ events')) := by
  induction events' using List.reverseRecOn generalizing post with
  | nil => rwa [List.append_nil]
  | append_singleton events' e ih =>
    simp only [List.mem_append, List.mem_singleton, not_or] at hentry
    rw [← List.append_assoc] at hcollects ⊢
    have hbefore : c ∈ (after (events ++ events')).collecting :=
      collecting_of_append hcollects (by simpa using hentry.2)
    have hevents' : r.events = events ++ events' ++ e :: post := by rw [hevents]; simp
    have hlost' := ih hevents' hentry.1 hbefore fun e' he' ↦ hfresh e' (List.mem_append_left _ he')
    rw [after_concat]
    refine hlost'.step fun id now he ↦ ?_
    subst he
    exact bars_of_exclusive h hevents' hbefore 
      (hfresh _ (List.mem_append_right _ List.mem_cons_self) now rfl)

/-- **Calls that exclude each other are undisturbed**, after the first seconds of the clock. -/
theorem undisturbed_of_exclusive (hclock : ∀ e ∈ r.events, ∀ t ∈ e.now?, 15 ≤ t)
    (h : r.Exclusive) : r.Undisturbed := by
  intro c pre mid post id now hevents hcollects hfresh mid₁ e mid₂ hmid hdisturbed
  have hentry : c.entry ∉ mid := fun hmem ↦ entry_notMem hevents (List.mem_append_left _ hmem)
  have hevents' : r.events = (pre ++ c.entry :: mid) ++
      .construct id c.parentHash c.coordKey now :: post := by rw [hevents]; simp
  have hfresh' : ∀ e ∈ mid, ∀ t ∈ e.now?, t - c.startTime < 15 := by
    intro e he t ht
    have hle : t ≤ now := le_of_clock hevents' (List.mem_append_right _ (List.mem_cons_of_mem _ he)) ht rfl
    omega
  have hsplit : pre ++ c.entry :: mid = (pre ++ c.entry :: mid₁ ++ [e]) ++ mid₂ := by rw [hmid]; simp
  have hlost : c.Lost (after (pre ++ c.entry :: mid)) := by
    rw [hsplit] at hevents' hcollects ⊢
    refine lost_append h hevents' ?_ (fun hmem ↦ hentry ?_) hcollects fun e' he' ↦ hfresh' e' ?_
    · rw [after_concat]
      exact hdisturbed.lost
    · rw [hmid]
      exact List.mem_append_right _ (List.mem_cons_of_mem _ hmem)
    · rw [hmid]
      exact List.mem_append_right _ (List.mem_cons_of_mem _ he')
  have hnow : 15 ≤ now := hclock (.construct id c.parentHash c.coordKey now)
    (by rw [hevents']; exact List.mem_append_right _ List.mem_cons_self) now rfl
  have hbars := bars_of_exclusive h hevents' hcollects hfresh
  rw [hlost.bars hnow] at hbars
  cases hbars

variable (r) in
/-- **When proposals exclude each other.** If no third call disturbs the slot between two calls for
one parent and coordinator, then the two never collect side by side; and, after the first 15 seconds
of the clock, only then. -/
theorem exclusive_iff : (r.Undisturbed → r.Exclusive) ∧
    ((∀ e ∈ r.events, ∀ t ∈ e.now?, 15 ≤ t) → r.Exclusive → r.Undisturbed) :=
  ⟨exclusive_of_undisturbed, undisturbed_of_exclusive⟩

end ProposalRun

/-- Two calls for one parent and coordinator, five seconds apart. -/
def twoCalls : ProposalRun where
  events := [.construct 1 7 .invalid 100, .construct 2 7 .invalid 105]
  once := by decide
  clock := by decide

/-- The second call gives up. -/
theorem exclusive_twoCalls : twoCalls.Exclusive := by
  refine twoCalls.exclusive_iff.1 fun c pre mid post id now hevents _ _ mid₁ e mid₂ hmid ↦ ?_
  -- there is no event between the two calls
  have hlength := congrArg List.length hevents
  simp only [twoCalls, hmid, List.length_append, List.length_cons, List.length_nil] at hlength
  omega

/-- A call for another parent comes between two calls for one parent and coordinator. -/
def overwrittenCalls : ProposalRun where
  events := [.construct 1 7 .invalid 100, .construct 2 8 .invalid 101, .construct 3 7 .invalid 102]
  once := by decide
  clock := by decide

/-- A call whose 15 seconds are over gives up after another one has taken the guard. -/
def resetCalls : ProposalRun where
  events := [.construct 1 7 .invalid 100, .construct 2 7 .invalid 115,
    .destroy 1 .notEnoughSignatures, .construct 3 7 .invalid 116]
  once := by decide
  clock := by decide

/-- **Two proposals side by side**: in both runs two calls for one parent and coordinator collect
signatures, the second of which has begun one or two seconds after the first. -/
theorem not_exclusive_calls : ¬ overwrittenCalls.Exclusive ∧ ¬ resetCalls.Exclusive := by
  refine ⟨fun h ↦ ?_, fun h ↦ ?_⟩
  · have habs := h _ (List.prefix_refl _) ⟨1, 7, .invalid, 100⟩ (by decide) ⟨3, 7, .invalid, 102⟩
      (by decide) (by decide) rfl rfl
    revert habs
    decide
  · have habs := h _ (List.prefix_refl _) ⟨2, 7, .invalid, 115⟩ (by decide) ⟨3, 7, .invalid, 116⟩
      (by decide) (by decide) rfl rfl
    revert habs
    decide

end KristaTech.Llmq
