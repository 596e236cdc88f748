import KristaTech.Validation.Contextual
import KristaTech.Validation.SampleBlocks

/-!
# The queue of future blocks

A block whose time is too far ahead of the node's clock is not refused for good: the handlers of the
messages `BLOCK` and `HEADERS` in `main.cpp` put it into `mapFutureBlocks`, and `ProcessFutureBlocks`
passes it on when its time has come. The queue has at most 64 entries; when it is full, a nearer block
takes the place of the one that is farthest ahead.

The queue is keyed by the hash of the block, which covers neither the coordinator's signature nor the
quorum certificate, and the time is checked before the signatures are. So another block with the same
hash takes the place of the one that waits, whatever its signatures are, and a header with that hash
does so too. **What is kept**: if no other block with its hash is put into the queue, then a block
that is not evicted is passed on by the first pass that may do so (`DeferredBlock.kept_of_noOtherCopy`).
-/

namespace KristaTech

open List

structure CFutureBlock where
  block : CBlock
  peerAddr : String
  deriving DecidableEq

/-- `mapFutureBlocks`. -/
abbrev FutureBlocks := Std.ExtTreeMap Uint256 CFutureBlock

/-- What the handlers read besides the queue. -/
structure FutureEnv where
  contextual : ContextualEnv
  chain : ChainContext
  /-- `GetTime()`, in seconds. -/
  getTime : ℤ

/-- What the handlers do with a block. -/
inductive FutureAction
  | processNewBlock (block : CBlock)
  | acceptBlockHeader (block : CBlock)
  deriving DecidableEq

variable (C : Crypto)

/-! ### Putting a block into the queue -/

/-- `fFutureFieldsOk`: the signatures that the version has are there. -/
def futureFieldsOk (header : CBlockHeader) : Bool :=
  (decide (header.nVersion < 11) ||
    (!header.vAdamCoordinatorSig.isEmpty && !header.vAdamVRFProof.isEmpty)) &&
  (decide (header.nVersion < 12) || !header.vQuorumSig.isEmpty)

/-- `itMax`: the first of the entries that are farthest ahead. -/
def farthest (queue : FutureBlocks) : Option (Uint256 × CFutureBlock) :=
  queue.toList.foldl (fun itMax it ↦
    match itMax with
    | none => some it
    | some itMax => if itMax.2.block.nTime < it.2.block.nTime then some it else some itMax) none

/-- The entry that is erased for a block, if the queue is full and the block is nearer. -/
def evicted (queue : FutureBlocks) (block : CBlock) : Option Uint256 :=
  if 64 ≤ queue.size then
    (farthest queue).bind fun itMax ↦
      if block.nTime < itMax.2.block.nTime then some itMax.1 else none
  else none

def makeRoom (queue : FutureBlocks) (block : CBlock) : FutureBlocks :=
  (evicted queue block).elim queue queue.erase

def defer (queue : FutureBlocks) (fb : CFutureBlock) : FutureBlocks :=
  let queue := makeRoom queue fb.block
  if queue.size < 64 then queue.insert (fb.block.getHash C) fb else queue

/-- Whether the node, having said `verdict` to a block, keeps it for later: its time is too far ahead,
but by no more than a quarter of an hour. -/
def isDeferrable (E : FutureEnv) (block : CBlock) (verdict : Except ValidationError Unit) : Bool :=
  match verdict with
  | .error (.invalid _ "time-too-new" _) =>
    futureFieldsOk block.toCBlockHeader &&
      decide ((block.nTime.toNat : ℤ) ≤ E.contextual.getAdjustedTime + 15 * 60)
  | _ => false

structure FutureQueue where
  mapFutureBlocks : FutureBlocks
  nLastFutureProcess : ℤ

/-- `ProcessMessage` for `BLOCK`, with what `ProcessNewBlock` says to the block. -/
def onBlock (E : FutureEnv) (q : FutureQueue) (fb : CFutureBlock)
    (verdict : Except ValidationError Unit) : FutureQueue × List FutureAction :=
  if (E.chain.mapBlockIndex fb.block.hashPrevBlock).isNone then (q, [])
  else if (E.chain.mapBlockIndex (fb.block.getHash C)).isSome then (q, [])
  else
    (if isDeferrable E fb.block verdict then
      { q with mapFutureBlocks := defer C q.mapFutureBlocks fb } else q,
      [.processNewBlock fb.block])

/-- `(CBlock)header`. -/
def CBlockHeader.toBlock (header : CBlockHeader) : CBlock := { header with vtx := [] }

/-- One header of `ProcessMessage` for `HEADERS`, with what `AcceptBlockHeader` says to it. -/
def onHeader (E : FutureEnv) (q : FutureQueue) (header : CBlockHeader) (peerAddr : String)
    (verdict : Except ValidationError Unit) : FutureQueue × List FutureAction :=
  (if isDeferrable E header.toBlock verdict then
    { q with mapFutureBlocks := defer C q.mapFutureBlocks ⟨header.toBlock, peerAddr⟩ } else q,
    [.acceptBlockHeader header.toBlock])

/-! ### Passing the blocks on -/

/-- The parent of an entry is known and its time is allowed. -/
def isDue (E : FutureEnv) (block : CBlock) : Bool :=
  (E.chain.mapBlockIndex block.hashPrevBlock).any fun pindexPrev ↦
    (block.nTime.toNat : ℤ) ≤ E.contextual.maxFutureBlockTime pindexPrev

def isStale (E : FutureEnv) (block : CBlock) : Bool :=
  (E.chain.mapBlockIndex block.hashPrevBlock).isNone &&
    decide (3600 < E.contextual.getAdjustedTime - (block.nTime.toNat : ℤ))

def passOn (alreadyHave : Uint256 → Bool) (fb : CFutureBlock) : List FutureAction :=
  if fb.block.vtx.isEmpty then [.acceptBlockHeader fb.block]
  else if alreadyHave (fb.block.getHash C) then [] else [.processNewBlock fb.block]

/-- `ProcessFutureBlocks`: once in a second. `alreadyHave` is what the index says when the turn of an
entry comes. -/
def processFutureBlocks (E : FutureEnv) (q : FutureQueue) (alreadyHave : Uint256 → Bool) :
    FutureQueue × List FutureAction :=
  if E.getTime = q.nLastFutureProcess then (q, [])
  else
    ({ mapFutureBlocks := q.mapFutureBlocks.filter fun _ fb ↦ !isDue E fb.block && !isStale E fb.block
       nLastFutureProcess := E.getTime },
      ((q.mapFutureBlocks.toList.map Prod.snd).filter (isDue E ·.block)).flatMap (passOn C alreadyHave))

/-! ### Runs -/

inductive FutureEvent
  | block (fb : CFutureBlock) (verdict : Except ValidationError Unit)
  | header (header : CBlockHeader) (peerAddr : String) (verdict : Except ValidationError Unit)
  | pass (alreadyHave : Uint256 → Bool)

namespace FutureQueue

def start : FutureQueue := ⟨∅, 0⟩

def step (q : FutureQueue) (E : FutureEnv) : FutureEvent → FutureQueue × List FutureAction
  | .block fb verdict => onBlock C E q fb verdict
  | .header header peerAddr verdict => onHeader C E q header peerAddr verdict
  | .pass alreadyHave => processFutureBlocks C E q alreadyHave

def run (q : FutureQueue) (events : List (FutureEnv × FutureEvent)) : FutureQueue :=
  events.foldl (fun q p ↦ (q.step C p.1 p.2).1) q

end FutureQueue

def FutureEvent.deferred (E : FutureEnv) : FutureEvent → Option CFutureBlock
  | .block fb verdict =>
    if (E.chain.mapBlockIndex fb.block.hashPrevBlock).isNone then none
    else if (E.chain.mapBlockIndex (fb.block.getHash C)).isSome then none
    else if isDeferrable E fb.block verdict then some fb else none
  | .header h peerAddr verdict =>
    if isDeferrable E h.toBlock verdict then some ⟨h.toBlock, peerAddr⟩ else none
  | .pass _ => none

namespace FutureQueue

variable {C} {q : FutureQueue} {E : FutureEnv} {e : FutureEvent} {fb : CFutureBlock} {b : CBlock}

theorem step_of_deferred (h : e.deferred C E = some fb) :
    (q.step C E e).1 = { q with mapFutureBlocks := defer C q.mapFutureBlocks fb } := by
  cases e with
  | block fb' verdict =>
    rw [FutureEvent.deferred] at h
    split_ifs at h with hparent hnew hdefer
    obtain rfl := Option.some_inj.1 h
    rw [step, onBlock, if_neg hparent, if_neg hnew, if_pos hdefer]
  | header header peerAddr verdict =>
    rw [FutureEvent.deferred, Option.ite_none_right_eq_some, Option.some_inj] at h
    obtain ⟨hdefer, rfl⟩ := h
    rw [step, onHeader, if_pos hdefer]
  | pass alreadyHave => cases h

theorem step_of_not_deferred (h : e.deferred C E = none) :
    (q.step C E e).1 = q ∨ ∃ alreadyHave, e = .pass alreadyHave ∧ E.getTime ≠ q.nLastFutureProcess ∧
      (q.step C E e).1.mapFutureBlocks =
        q.mapFutureBlocks.filter fun _ fb ↦ !isDue E fb.block && !isStale E fb.block := by
  cases e with
  | block fb verdict =>
    refine .inl ?_
    rw [step, onBlock]
    split_ifs with hparent hnew hdefer
    · rfl
    · rfl
    · rw [FutureEvent.deferred, if_neg hparent, if_neg hnew, if_pos hdefer] at h
      cases h
    · rfl
  | header header peerAddr verdict =>
    refine .inl ?_
    rw [step, onHeader]
    split_ifs with hdefer
    · rw [FutureEvent.deferred, if_pos hdefer] at h
      cases h
    · rfl
  | pass alreadyHave =>
    rw [step, processFutureBlocks]
    split_ifs with htime
    · exact .inl rfl
    · exact .inr ⟨alreadyHave, rfl, htime, rfl⟩

end FutureQueue

/-! ### The bound -/

theorem size_makeRoom_le (queue : FutureBlocks) (block : CBlock) :
    (makeRoom queue block).size ≤ queue.size := by
  rw [makeRoom]
  cases evicted queue block with
  | none => exact le_rfl
  | some hash => exact Std.ExtTreeMap.size_erase_le

theorem size_defer_le {queue : FutureBlocks} (fb : CFutureBlock) (h : queue.size ≤ 64) :
    (defer C queue fb).size ≤ 64 := by
  rw [defer]
  split_ifs with hroom
  · exact Std.ExtTreeMap.size_insert_le.trans (Nat.succ_le_of_lt hroom)
  · exact (size_makeRoom_le queue fb.block).trans h

variable {C} in
theorem FutureQueue.size_step_le {q : FutureQueue} (E : FutureEnv) (e : FutureEvent)
    (h : q.mapFutureBlocks.size ≤ 64) : (q.step C E e).1.mapFutureBlocks.size ≤ 64 := by
  cases hoffer : e.deferred C E with
  | some fb =>
    rw [step_of_deferred hoffer]
    exact size_defer_le C fb h
  | none =>
    obtain hsame | ⟨-, -, -, hfilter⟩ := step_of_not_deferred (q := q) hoffer
    · rwa [hsame]
    · rw [hfilter]
      exact Std.ExtTreeMap.size_filter_le_size.trans h

/-- **The queue never has more than 64 entries.** -/
theorem FutureQueue.size_run_le {q : FutureQueue} (events : List (FutureEnv × FutureEvent))
    (h : q.mapFutureBlocks.size ≤ 64) : (q.run C events).mapFutureBlocks.size ≤ 64 := by
  induction events generalizing q with
  | nil => exact h
  | cons p events ih => exact ih (size_step_le p.1 p.2 h)

/-! ### A block that waits -/

namespace FutureQueue

def Holds (q : FutureQueue) (b : CBlock) : Prop :=
  ∃ fb, q.mapFutureBlocks[b.getHash C]? = some fb ∧ fb.block = b

/-- The event erases the block's entry for a nearer block. -/
def Evicts (q : FutureQueue) (E : FutureEnv) (e : FutureEvent) (b : CBlock) : Prop :=
  ∃ fb, e.deferred C E = some fb ∧ evicted q.mapFutureBlocks fb.block = some (b.getHash C)

def Releases (q : FutureQueue) (E : FutureEnv) (b : CBlock) : FutureEvent → Prop
  | .pass _ => E.getTime ≠ q.nLastFutureProcess ∧ isDue E b
  | _ => False

/-- Of all events, none evicts the block and none is a pass that may pass it on. -/
def Waits (b : CBlock) : FutureQueue → List (FutureEnv × FutureEvent) → Prop
  | _, [] => True
  | q, (E, e) :: events =>
    ¬ Evicts C q E e b ∧ ¬ Releases q E b e ∧ Waits b (q.step C E e).1 events

variable {C} {q : FutureQueue} {E : FutureEnv} {e : FutureEvent} {fb : CFutureBlock} {b : CBlock}

theorem getElem?_makeRoom {queue : FutureBlocks} {block : CBlock} {hash : Uint256}
    (h : evicted queue block ≠ some hash) : (makeRoom queue block)[hash]? = queue[hash]? := by
  rw [makeRoom]
  cases hevict : evicted queue block with
  | none => rfl
  | some other =>
    rw [Option.elim_some, Std.ExtTreeMap.getElem?_erase, if_neg]
    rintro hcmp
    exact h (hevict.trans (congrArg some (Std.LawfulEqOrd.eq_of_compare hcmp)))

theorem Holds.defer (h : q.Holds C b) (hevict : evicted q.mapFutureBlocks fb.block ≠ some (b.getHash C))
    (hcopy : fb.block.getHash C = b.getHash C → fb.block = b) :
    ({ q with mapFutureBlocks := defer C q.mapFutureBlocks fb } : FutureQueue).Holds C b := by
  obtain ⟨fb₀, hget, hblock⟩ := h
  rw [← getElem?_makeRoom hevict] at hget
  rw [Holds, KristaTech.defer]
  split_ifs with hroom
  · by_cases hhash : fb.block.getHash C = b.getHash C
    · refine ⟨fb, ?_, hcopy hhash⟩
      rw [hhash, Std.ExtTreeMap.getElem?_insert_self]
    · refine ⟨fb₀, ?_, hblock⟩
      rw [Std.ExtTreeMap.getElem?_insert, if_neg (fun hcmp ↦ hhash (Std.LawfulEqOrd.eq_of_compare hcmp))]
      exact hget
  · exact ⟨fb₀, hget, hblock⟩

/-- **One event** leaves the block where it is, unless it evicts it, passes it on or brings another
block with its hash. -/
theorem Holds.step (h : q.Holds C b) (hparent : (E.chain.mapBlockIndex b.hashPrevBlock).isSome)
    (hevict : ¬ Evicts C q E e b) (hrelease : ¬ Releases q E b e)
    (hcopy : ∀ fb, e.deferred C E = some fb → fb.block.getHash C = b.getHash C → fb.block = b) :
    (q.step C E e).1.Holds C b := by
  cases hoffer : e.deferred C E with
  | some fb =>
    rw [step_of_deferred hoffer]
    exact h.defer (fun hfb ↦ hevict ⟨fb, hoffer, hfb⟩) (hcopy fb hoffer)
  | none =>
    obtain hsame | ⟨alreadyHave, rfl, htime, hfilter⟩ := step_of_not_deferred (q := q) hoffer
    · rwa [hsame]
    · obtain ⟨fb, hget, rfl⟩ := h
      have hdue : isDue E fb.block = false := by
        rw [← Bool.not_eq_true]
        exact fun hdue ↦ hrelease ⟨htime, hdue⟩
      have hstale : isStale E fb.block = false := by
        rw [isStale, Option.isNone_eq_false_iff.2 hparent, Bool.false_and]
      refine ⟨fb, ?_, rfl⟩
      rw [hfilter, Std.ExtTreeMap.getElem?_filter, hget]
      simp [hdue, hstale]

/-- **A run** leaves the block where it is, on the same conditions. -/
theorem Holds.run {events : List (FutureEnv × FutureEvent)} (h : q.Holds C b)
    (hparent : ∀ p ∈ events, (p.1.chain.mapBlockIndex b.hashPrevBlock).isSome)
    (hwaits : q.Waits C b events)
    (hcopy : ∀ p ∈ events, ∀ fb, p.2.deferred C p.1 = some fb →
      fb.block.getHash C = b.getHash C → fb.block = b) : (q.run C events).Holds C b := by
  induction events generalizing q with
  | nil => exact h
  | cons p events ih =>
    obtain ⟨hp, hparent⟩ := forall_mem_cons.1 hparent
    obtain ⟨hc, hcopy⟩ := forall_mem_cons.1 hcopy
    obtain ⟨hevict, hrelease, hwaits⟩ := hwaits
    exact ih (h.step hp hevict hrelease hc) hparent hwaits hcopy

theorem waits_block (verdict : Except ValidationError Unit) (h : q.mapFutureBlocks.size < 64) :
    q.Waits C b [(E, .block fb verdict)] := by
  refine ⟨?_, not_false, trivial⟩
  rintro ⟨fb', -, hfb'⟩
  rw [evicted, if_neg (not_le.2 h)] at hfb'
  cases hfb'

theorem Holds.mem_pass {alreadyHave : Uint256 → Bool} (h : q.Holds C b) (hvtx : b.vtx ≠ [])
    (hrelease : Releases q E b (.pass alreadyHave)) (hnew : alreadyHave (b.getHash C) = false) :
    .processNewBlock b ∈ (q.step C E (.pass alreadyHave)).2 := by
  obtain ⟨fb, hget, rfl⟩ := h
  obtain ⟨htime, hdue⟩ := hrelease
  show _ ∈ (processFutureBlocks C E q alreadyHave).2
  rw [processFutureBlocks, if_neg htime]
  refine mem_flatMap.2 ⟨fb, mem_filter.2 ⟨mem_map.2 ⟨(_, fb),
    Std.ExtTreeMap.mem_toList_iff_getElem?_eq_some.2 hget, rfl⟩, hdue⟩, ?_⟩
  rw [passOn, if_neg (by simpa using hvtx), hnew, if_neg Bool.false_ne_true]
  exact mem_singleton_self _

end FutureQueue

/-! ### The fate of a block -/

/-- A full block is received and put into the queue, after any messages and passes; then come others,
and a pass. The index only grows. -/
structure DeferredBlock where
  before : List (FutureEnv × FutureEvent)
  env : FutureEnv
  fb : CFutureBlock
  verdict : Except ValidationError Unit
  after : List (FutureEnv × FutureEvent)
  passEnv : FutureEnv
  alreadyHave : Uint256 → Bool
  full : fb.block.vtx ≠ []
  deferred : (FutureEvent.block fb verdict).deferred C env = some fb
  grows : ∀ E ∈ after.map Prod.fst, ∀ hash, (env.chain.mapBlockIndex hash).isSome →
    (E.chain.mapBlockIndex hash).isSome

namespace DeferredBlock

variable {C} (D : DeferredBlock C)

def arrived : FutureQueue := FutureQueue.start.run C D.before

def HasRoom : Prop := (makeRoom D.arrived.mapFutureBlocks D.fb.block).size < 64

def queued : FutureQueue := (D.arrived.step C D.env (.block D.fb D.verdict)).1

def waited : FutureQueue := D.queued.run C D.after

/-- The block is kept: if it is put into the queue and not evicted until the first pass that may pass
it on, then this pass gives the block itself to `ProcessNewBlock`, unless the index has its hash. -/
def Kept : Prop :=
  D.HasRoom → D.queued.Waits C D.fb.block D.after →
    D.waited.Releases D.passEnv D.fb.block (.pass D.alreadyHave) →
    D.alreadyHave (D.fb.block.getHash C) = false →
    .processNewBlock D.fb.block ∈ (D.waited.step C D.passEnv (.pass D.alreadyHave)).2

/-- No other block with its hash is put into the queue while the block waits. -/
def NoOtherCopy : Prop :=
  ∀ p ∈ D.after, ∀ fb, p.2.deferred C p.1 = some fb →
    fb.block.getHash C = D.fb.block.getHash C → fb.block = D.fb.block

theorem holds_queued (h : D.HasRoom) : D.queued.Holds C D.fb.block := by
  refine ⟨D.fb, ?_, rfl⟩
  rw [queued, FutureQueue.step_of_deferred D.deferred]
  show (defer C D.arrived.mapFutureBlocks D.fb)[D.fb.block.getHash C]? = some D.fb
  rw [HasRoom] at h
  rw [defer, if_pos h, Std.ExtTreeMap.getElem?_insert_self]

theorem isSome_parent : (D.env.chain.mapBlockIndex D.fb.block.hashPrevBlock).isSome := by
  have h := D.deferred
  rw [FutureEvent.deferred] at h
  split_ifs at h with hparent hnew hdefer
  rwa [Option.isNone_iff_eq_none, ← ne_eq, ← Option.isSome_iff_ne_none] at hparent

/-- **Blocks in the queue are kept**, if no other block with the hash takes their place; and the queue
never has more than 64 entries. -/
theorem kept_of_noOtherCopy (hcopy : D.NoOtherCopy) :
    D.Kept ∧ ∀ events, (FutureQueue.start.run C events).mapFutureBlocks.size ≤ 64 := by
  refine ⟨fun hroom hwaits hrelease hnew ↦ ?_, fun events ↦ ?_⟩
  · have hparent : ∀ p ∈ D.after, (p.1.chain.mapBlockIndex D.fb.block.hashPrevBlock).isSome :=
      fun p hp ↦ D.grows p.1 (mem_map_of_mem hp) _ D.isSome_parent
    have hholds : D.waited.Holds C D.fb.block := (D.holds_queued hroom).run hparent hwaits hcopy
    exact hholds.mem_pass D.full hrelease hnew
  · exact FutureQueue.size_run_le C events (by simp [FutureQueue.start])

end DeferredBlock

/-! ### A sample block -/

/-- The parent of the sample, on a branch that is not active. -/
def waitingParent : CBlockIndex := ⟨7, 6, 2999, 900⟩

/-- A node at a time of its clock; blocks may be 14 seconds ahead. -/
def clockEnv (now : ℤ) : FutureEnv where
  contextual :=
    { getTransaction := fun _ ↦ none
      getAdjustedTime := now
      maxFutureBlockTime := fun _ ↦ now + 14
      minPastBlockTime := fun pindexPrev ↦ pindexPrev.nTime.toNat
      nTimeSlotLength := 15
      sporkMaxBlockTime := 2000000000
      sporkMaxBlockSize := maxBlockSizeCurrent
      checkpointsCheckBlock := fun _ _ ↦ true
      lastCheckpoint := none
      nMaxReorgDepth := 100 }
  chain := { tipContext ⟨8, 6, 2999, 900⟩ with
    mapBlockIndex := fun hash ↦ if hash = 7 then some waitingParent else none }
  getTime := now

def waitingBlock : CBlock :=
  { sampleBlock 7 9 [⟨1, [⟨⟨0, 0xffffffff⟩, [0, 0], 0xffffffff⟩], [⟨0, [0]⟩], 0⟩] with nTime := 1020 }

def forgedCopy : CBlock := { waitingBlock with vQuorumSig := Uint256.toBytes 9 ++ [0] }

def headerVerdict (now : ℤ) (block : CBlock) : Except ValidationError Unit :=
  contextualCheckBlockHeader sampleEnv (clockEnv now).contextual (clockEnv now).chain ∅ block
    (some waitingParent)

/-- The block comes from one peer, then copies of it from another one, and 20 seconds later the queue
is looked at. -/
def waitingRun (copies : List CBlock) : DeferredBlock sampleCrypto where
  before := []
  env := clockEnv 990
  fb := ⟨waitingBlock, "first"⟩
  verdict := headerVerdict 990 waitingBlock
  after := copies.map fun copy ↦ (clockEnv 990, .block ⟨copy, "second"⟩ (headerVerdict 990 copy))
  passEnv := clockEnv 1010
  alreadyHave := fun _ ↦ false
  full := cons_ne_nil _ _
  deferred := by decide +kernel
  grows := by
    intro E hE hash hsome
    simp only [map_map, mem_map, Function.comp_apply] at hE
    obtain ⟨-, -, rfl⟩ := hE
    exact hsome

theorem hasRoom_waitingRun (copies : List CBlock) : (waitingRun copies).HasRoom := by
  show (makeRoom ∅ waitingBlock).size < 64
  decide

/-- The block once more is not another block. -/
theorem kept_waitingRun : .processNewBlock waitingBlock ∈
    ((waitingRun [waitingBlock]).waited.step sampleCrypto (clockEnv 1010)
      (.pass (waitingRun [waitingBlock]).alreadyHave)).2 := by
  have hcopy : (waitingRun [waitingBlock]).NoOtherCopy := by
    intro p hp fb hfb _
    obtain rfl := mem_singleton.1 hp
    have hsame : (FutureEvent.block ⟨waitingBlock, "second"⟩ (headerVerdict 990 waitingBlock)).deferred
        sampleCrypto (clockEnv 990) = some ⟨waitingBlock, "second"⟩ := by decide +kernel
    rw [← Option.some_inj.1 (hsame.symm.trans hfb)]
    rfl
  exact ((waitingRun [waitingBlock]).kept_of_noOtherCopy hcopy).1 (hasRoom_waitingRun _)
    (FutureQueue.waits_block _ (by decide)) ⟨by decide, by decide⟩ rfl

/-- **A block that is replaced.** A copy of the block with a certificate that nobody signed has the
same hash and passes the same checks, as the parent is not the tip and the block's time is not yet
allowed. It takes the place of the block in the queue, and is passed on instead of it. -/
theorem not_kept_waitingRun :
    checkBlock sampleEnv (clockEnv 990).chain emptyNode.masternodes waitingBlock true true true none =
        .ok false ∧
      checkBlock sampleEnv (clockEnv 990).chain emptyNode.masternodes forgedCopy true true true none =
        .ok false ∧
      headerVerdict 990 waitingBlock = .error (.invalid 0 "time-too-new" false) ∧
      headerVerdict 990 forgedCopy = .error (.invalid 0 "time-too-new" false) ∧
      headerVerdict 1010 waitingBlock = .ok () ∧
      checkQuorumSig sampleEnv emptyNode.masternodes none waitingBlock 3000 false true = .ok () ∧
      checkQuorumSig sampleEnv emptyNode.masternodes none forgedCopy 3000 false true =
        .error (.invalid 0 "bad-quorum-sig-verify" false) ∧
      ¬ (waitingRun [forgedCopy]).Kept := by
  refine ⟨by decide +kernel, by decide +kernel, by decide +kernel, by decide +kernel,
    by decide +kernel, by decide +kernel, by decide +kernel, fun hkept ↦ ?_⟩
  have hmem := hkept (hasRoom_waitingRun _) (FutureQueue.waits_block _ (by decide))
    ⟨by decide, by decide⟩ rfl
  have hnot : FutureAction.processNewBlock waitingBlock ∉
      ((waitingRun [forgedCopy]).waited.step sampleCrypto (clockEnv 1010)
        (.pass (waitingRun [forgedCopy]).alreadyHave)).2 := by decide
  exact hnot hmem

end KristaTech
