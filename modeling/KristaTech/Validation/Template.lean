import KristaTech.Primitives.RoundTrip
import KristaTech.Validation.ChainRun
import KristaTech.Validation.Mempool
import KristaTech.Validation.OpenCoins

/-!
# The transactions of a new block

The part of `CreateNewBlock` of `miner.cpp` that takes transactions from the memory pool: those that
wait for no other one are queued by priority, and each that is taken may set others free. The order of
the queue is a parameter (`MinerEnv`).

The loop has limits of its own. It keeps room of 1000 bytes for all that is not from the pool, and it
counts signature operations up to the limit of `ConnectBlock`, which is eight times the one of
`CheckBlock`. So the block meets the rules if the pool is small enough for the latter, and the header,
the coinbase and the signatures fit (`createNewBlock_meetsLimits`); but a single transaction of the
pool can keep every block from being valid (`createNewBlock_exceeds_sigops`).
-/

namespace KristaTech

open Masternode List Except

/-- The settings of the miner, and the order in which it looks at transactions. -/
structure MinerEnv where
  /-- `-blockmaxsize`. -/
  blockMaxSize : ℕ := 6000000
  /-- `-blockprioritysize`. -/
  blockPrioritySize : ℕ := 50000
  /-- `-blockminsize`. -/
  blockMinSize : ℕ := 0
  /-- The transaction with the highest priority, or fee, and the rest of the queue. -/
  popHeap : Bool → List CTransaction → Option (CTransaction × List CTransaction)
  popHeap_perm : ∀ {byFee queue tx rest}, popHeap byFee queue = some (tx, rest) → queue.Perm (tx :: rest)
  popHeap_eq_none : ∀ {byFee queue}, popHeap byFee queue = none → queue = []
  /-- `AllowFree` of the priority. -/
  allowFree : CTransaction → Bool
  /-- The fee is below the one for relaying, and the user does not favour the transaction. -/
  lowFee : CTransaction → Bool

/-- A transaction that waits for others of the pool. -/
structure COrphan where
  tx : CTransaction
  setDependsOn : List Uint256

/-- What the loop carries. -/
structure Selection where
  view : CCoinsViewCache
  queue : List CTransaction
  vOrphan : List COrphan
  fSortedByFee : Bool
  vtx : List CTransaction := []
  nBlockSize : ℕ := 1000
  nBlockSigOps : ℕ := 100
  nZeroCoinTxInBlock : ℕ := 0
  nFees : CAmount := 0

variable (E : ValidationEnv) (X : ContextualEnv) (ctx : ChainContext) (M : MinerEnv)

/-- `nBlockMaxSize`. -/
def nBlockMaxSize : ℕ :=
  max 1000 (min X.sporkMaxBlockSize (min M.blockMaxSize maxBlockSizeCurrent))

/-! ### The queue -/

/-- The transactions of the pool that a transaction waits for; none if an input is missing. -/
def dependsOn (view : CCoinsViewCache) (pool : List CTransaction) (tx : CTransaction) :
    Option (List Uint256) :=
  if E.isZeroCoinPoW tx then some []
  else
    let missing := (tx.vin.map (·.prevout)).filter fun prevout ↦ !view.haveCoin prevout
    if missing.all fun prevout ↦ pool.any fun t ↦ t.getHash E.crypto == prevout.hash then
      some (missing.map (·.hash)).dedup
    else none

def eligible (pool : List CTransaction) (nHeight : ℤ) : List CTransaction :=
  pool.filter fun tx ↦ !tx.isCoinBase && !tx.isCoinStake && isFinalTx X ctx tx nHeight 0

/-- The queue and the transactions that wait, before the loop. -/
def startSelection (view : CCoinsViewCache) (pool : List CTransaction) (nHeight : ℤ) : Selection :=
  let waiting := (eligible X ctx pool nHeight).filterMap fun tx ↦
    (dependsOn E view pool tx).map (COrphan.mk tx)
  { view := view
    queue := (waiting.filter (·.setDependsOn.isEmpty)).map (·.tx)
    vOrphan := waiting.filter (!·.setDependsOn.isEmpty)
    fSortedByFee := min (nBlockMaxSize X M) M.blockPrioritySize == 0 }

/-- The transactions that waited for the one that was taken. -/
def Selection.release (sel : Selection) (hash : Uint256) : Selection :=
  let vOrphan := sel.vOrphan.map fun orphan ↦
    { orphan with setDependsOn := orphan.setDependsOn.filter (· != hash) }
  { sel with
    queue := sel.queue ++ (vOrphan.filter (·.setDependsOn.isEmpty)).map (·.tx)
    vOrphan := vOrphan.filter (!·.setDependsOn.isEmpty) }

/-! ### The loop -/

section Loop

variable (s : MasternodeState) (nHeight : ℤ)

/-- The transaction is skipped before its inputs are looked at. -/
def skips (sel : Selection) (tx : CTransaction) : Bool :=
  let nTxSize := tx.serialize.length
  let fZeroCoinPoW := E.isZeroCoinPoW tx
  nBlockMaxSize X M ≤ sel.nBlockSize + nTxSize ||
    maxBlockSigOpsCurrent ≤ sel.nBlockSigOps + getLegacySigOpCount tx ||
    (fZeroCoinPoW && 1 ≤ sel.nZeroCoinTxInBlock) ||
    (!fZeroCoinPoW && sel.fSortedByFee && M.lowFee tx &&
      min (nBlockMaxSize X M) M.blockMinSize ≤ sel.nBlockSize + nTxSize)

/-- Past the room for free transactions, the queue is sorted by fee. -/
def sortsByFee (sel : Selection) (tx : CTransaction) : Bool :=
  sel.fSortedByFee || !E.isZeroCoinPoW tx &&
    (min (nBlockMaxSize X M) M.blockPrioritySize ≤ sel.nBlockSize + tx.serialize.length || !M.allowFree tx)

/-- The inputs are there, and fetched; a registration without a coin has none. -/
def fetchInputs (view : CCoinsViewCache) (tx : CTransaction) : Bool × CCoinsViewCache :=
  if E.isZeroCoinPoW tx then (true, view) else view.haveInputs tx

/-- The transaction is taken, and those that waited for it are set free. -/
def take (sel : Selection) (tx : CTransaction) : Except ValidationError Selection := do
  let fZeroCoinPoW := E.isZeroCoinPoW tx
  let nValueOut ← orThrow tx.getValueOut
  let (_, view) ← orThrow (updateCoins E.crypto tx sel.view nHeight)
  let sel := { sel with
    view := view
    vtx := sel.vtx ++ [tx]
    nBlockSize := sel.nBlockSize + tx.serialize.length
    nBlockSigOps := sel.nBlockSigOps + nTxSigOps E sel.view tx
    nZeroCoinTxInBlock := sel.nZeroCoinTxInBlock + fZeroCoinPoW.toNat
    nFees := sel.nFees + if fZeroCoinPoW then 0 else sel.view.getValueIn tx - nValueOut }
  return sel.release (tx.getHash E.crypto)

/-- One transaction off the queue is taken into the block, or skipped. -/
def consider (sel : Selection) (tx : CTransaction) : Except ValidationError Selection :=
  if skips E X M sel tx then .ok sel
  else
    let sel := { sel with fSortedByFee := sortsByFee E X M sel tx }
    let inputs := fetchInputs E sel.view tx
    let sel := { sel with view := inputs.2 }
    if !inputs.1 then .ok sel
    else
      if maxBlockSigOpsCurrent ≤ sel.nBlockSigOps + nTxSigOps E sel.view tx then .ok sel
      else
        match checkInputs E ctx s sel.view tx true mandatoryScriptVerifyFlags false with
        | .error _ => .ok sel
        | .ok _ => take E nHeight sel tx

/-- The loop, until the queue is empty. Each turn takes one transaction off those that are queued or
wait. -/
def collect : ℕ → Selection → Except ValidationError Selection
  | 0, sel => .ok sel
  | fuel + 1, sel =>
    match M.popHeap sel.fSortedByFee sel.queue with
    | none => .ok sel
    | some (tx, queue) => do collect fuel (← consider E X ctx M s nHeight { sel with queue := queue } tx)

end Loop

/-! ### The block -/

def CTransaction.withFees (tx : CTransaction) (nFees : CAmount) : CTransaction :=
  { tx with vout := tx.vout.modifyHead fun out ↦ { out with nValue := out.nValue + nFees } }

def addFees (nFees : CAmount) (vtx : List CTransaction) : List CTransaction :=
  vtx.modifyHead (·.withFees nFees)

/-- The coinbase and the coinstake. A coinbase gets the fees if there is no coinstake. -/
def rewardTxs (nFees : CAmount) (pblock : CBlock) : List CTransaction :=
  if pblock.isProofOfStake then pblock.vtx else addFees nFees pblock.vtx

/-- The coins that the loop starts from: those of the tip, after the coinstake. -/
def coinstakeView (pcoinsTip : CCoinsView) (pblock : CBlock) (nHeight : ℤ) :
    Except ValidationError CCoinsViewCache :=
  let view := CCoinsViewCache.ofBase pcoinsTip
  match pblock.vtx[1]? with
  | none => .ok view
  | some txCoinStake =>
    if txCoinStake.vin.all fun txin ↦ view.haveCoin txin.prevout then
      (orThrow (updateCoins E.crypto txCoinStake view nHeight)).map Prod.snd
    else .error (.error "")

/-- The transactions that `CreateNewBlock` adds to a block. Its header, with the ADAM fields and the
certificate, its coinbase and coinstake and its signature are those of `pblock`. A coinstake's coin
that is missing ends it. -/
def createNewBlock (s : MasternodeState) (pcoinsTip : CCoinsView) (pool : List CTransaction)
    (pblock : CBlock) : Except ValidationError CBlock := do
  let nHeight := ctx.height + 1
  let view ← coinstakeView E pcoinsTip pblock nHeight
  let start := startSelection E X ctx M view pool nHeight
  let sel ← collect E X ctx M s nHeight (start.queue.length + start.vOrphan.length) start
  return { pblock with vtx := rewardTxs sel.nFees pblock ++ sel.vtx }

/-- The rules that a block can break by what it takes from the pool: the signature operations of
`CheckBlock`, and the size and the finality of `ContextualCheckBlock`. -/
structure MeetsLimits (block : CBlock) : Prop where
  sigops : (block.vtx.map getLegacySigOpCount).sum ≤ maxBlockSigOpsLegacy
  size : block.serialize.length ≤ max 1000 (min X.sporkMaxBlockSize maxBlockSizeCurrent)
  final : ∀ tx ∈ block.vtx, isFinalTx X ctx tx (ctx.height + 1) block.nTime.toNat = true

/-! ### One turn of the loop -/

def Selection.waiting (sel : Selection) : List CTransaction := sel.queue ++ sel.vOrphan.map (·.tx)

/-- What one turn does: it moves those that are set free to the queue, and takes the transaction at
most. -/
structure Turn (sel : Selection) (tx : CTransaction) (sel' : Selection) : Prop where
  coherent : sel'.view.Coherent
  free : ∀ o, o.hash ≠ tx.getHash E.crypto → sel.view.utxo o = none → sel'.view.utxo o = none
  waiting : sel'.waiting.Perm sel.waiting
  vtx : sel'.vtx = sel.vtx ∧ sel'.nBlockSize = sel.nBlockSize ∨
    sel'.vtx = sel.vtx ++ [tx] ∧ sel'.nBlockSize = sel.nBlockSize + tx.serialize.length ∧
      sel'.nBlockSize < nBlockMaxSize X M

section Turns

variable {E X ctx M} {s : MasternodeState} {nHeight : ℤ} {sel sel' : Selection} {tx : CTransaction}

theorem Selection.waiting_release (sel : Selection) (hash : Uint256) :
    (sel.release hash).waiting.Perm sel.waiting := by
  rw [waiting, waiting, release, append_assoc, ← map_append]
  refine .append_left _ (((filter_append_perm _ _).map _).trans (.of_eq ?_))
  rw [map_map]
  rfl

variable {view : CCoinsViewCache}

theorem Turn.skip {byFee : Bool} (hview : view.Coherent) (hutxo : view.utxo = sel.view.utxo) :
    Turn E X M sel tx { sel with fSortedByFee := byFee, view := view } where
  coherent := hview
  free o _ ho := by rw [hutxo, ho]
  waiting := .refl _
  vtx := .inl ⟨rfl, rfl⟩

theorem coherent_fetchInputs (hview : view.Coherent) (tx : CTransaction) :
    (fetchInputs E view tx).2.Coherent := by
  rw [fetchInputs]
  split_ifs
  · exact hview
  · exact (hview.keeps_haveInputs tx).coherent

theorem utxo_fetchInputs (view : CCoinsViewCache) (tx : CTransaction) :
    (fetchInputs E view tx).2.utxo = view.utxo := by
  rw [fetchInputs]
  split_ifs
  · rfl
  · exact CCoinsViewCache.utxo_haveInputs tx

/-- **No exception**: a new transaction with amounts in range can be taken. -/
theorem exists_take (nHeight : ℤ) (sel : Selection) (hview : sel.view.Coherent) (hlength : tx.vout.length ≤ 2 ^ 32)
    (hvalue : ∃ nValueOut, tx.getValueOut = some nValueOut)
    (hfree : ∀ i < tx.vout.length, sel.view.utxo ⟨tx.getHash E.crypto, UInt32.ofNat i⟩ = none) :
    ∃ sel', take E nHeight sel tx = .ok sel' ∧ sel'.view.Coherent ∧
      (∀ o, o.hash ≠ tx.getHash E.crypto → sel.view.utxo o = none → sel'.view.utxo o = none) ∧
      sel'.waiting.Perm sel.waiting ∧ sel'.vtx = sel.vtx ++ [tx] ∧
      sel'.nBlockSize = sel.nBlockSize + tx.serialize.length := by
  obtain ⟨nValueOut, hvalue⟩ := hvalue
  obtain ⟨undo, view', hupdate, hview', hfree'⟩ := hview.exists_updateCoins nHeight hlength
    (CTransaction.getValueOut_eq_some hvalue).2 hfree
  rw [take, hvalue, hupdate]
  exact ⟨_, rfl, hview', hfree', Selection.waiting_release { sel with queue := _ } _, rfl, rfl⟩

theorem exists_consider (X : ContextualEnv) (ctx : ChainContext) (M : MinerEnv) (s : MasternodeState)
    (nHeight : ℤ) (sel : Selection) (hview : sel.view.Coherent) (hlength : tx.vout.length ≤ 2 ^ 32)
    (hvalue : ∃ nValueOut, tx.getValueOut = some nValueOut)
    (hfree : ∀ i < tx.vout.length, sel.view.utxo ⟨tx.getHash E.crypto, UInt32.ofNat i⟩ = none) :
    ∃ sel', consider E X ctx M s nHeight sel tx = .ok sel' ∧ Turn E X M sel tx sel' := by
  have hview := coherent_fetchInputs (E := E) hview tx
  have hutxo := utxo_fetchInputs (E := E) sel.view tx
  rw [consider]
  split_ifs with hskips
  · exact ⟨sel, rfl, .skip (by assumption) rfl⟩
  dsimp only
  split_ifs with hhave hsigops
  · exact ⟨_, rfl, .skip hview hutxo⟩
  · exact ⟨_, rfl, .skip hview hutxo⟩
  split
  · exact ⟨_, rfl, .skip hview hutxo⟩
  obtain ⟨sel', htake, hview', hfree', hwaiting, hvtx, hsize⟩ := exists_take nHeight
    { sel with fSortedByFee := sortsByFee E X M sel tx, view := (fetchInputs E sel.view tx).2 } hview hlength hvalue (by rwa [hutxo])
  refine ⟨sel', htake, hview', fun o ho hnone ↦ hfree' o ho (by rw [hutxo, hnone]), hwaiting,
    .inr ⟨hvtx, hsize, ?_⟩⟩
  have hroom : ¬nBlockMaxSize X M ≤ sel.nBlockSize + tx.serialize.length := fun hle ↦ by
    simp [skips, hle] at hskips
  rw [hsize]
  exact not_le.1 hroom

end Turns

/-! ### The whole loop -/

theorem nodup_map_of_subperm {α β : Type} {f : α → β} {l l' : List α} (h : l.Subperm l')
    (hnodup : (l'.map f).Nodup) : (l.map f).Nodup := by
  obtain ⟨l₁, hperm, hsub⟩ := h
  exact (hperm.map f).nodup_iff.1 (hnodup.sublist (hsub.map f))

theorem sum_map_le_of_subperm {α : Type} (f : α → ℕ) {l l' : List α} (h : l.Subperm l') :
    (l.map f).sum ≤ (l'.map f).sum := by
  obtain ⟨l₁, hperm, hsub⟩ := h
  obtain ⟨rest, hrest⟩ := hsub.exists_perm_append
  rw [← (hperm.map f).sum_eq, (hrest.map f).sum_eq, map_append, sum_append]
  exact Nat.le_add_right _ _

/-- What holds between two turns: what was taken and what waits are different transactions of the
list, and the latter have no coins yet. -/
structure Selection.Sound (txs : List CTransaction) (sel : Selection) : Prop where
  coherent : sel.view.Coherent
  subperm : (sel.vtx ++ sel.waiting).Subperm txs
  free : ∀ tx ∈ sel.waiting, ∀ i < tx.vout.length,
    sel.view.utxo ⟨tx.getHash E.crypto, UInt32.ofNat i⟩ = none
  size : sel.nBlockSize = 1000 + (sel.vtx.map (·.serialize.length)).sum
  room : sel.vtx = [] ∨ sel.nBlockSize < nBlockMaxSize X M

/-- The transactions that the loop can handle: with different ids, and amounts in range. -/
structure Processable (txs : List CTransaction) : Prop where
  nodup : (txs.map (·.getHash E.crypto)).Nodup
  length : ∀ tx ∈ txs, tx.vout.length ≤ 2 ^ 32
  value : ∀ tx ∈ txs, ∃ nValueOut, tx.getValueOut = some nValueOut

section Collect

variable {E X ctx M} {s : MasternodeState} {nHeight : ℤ} {sel sel' : Selection} {tx : CTransaction}
  {txs queue : List CTransaction}

theorem Selection.waiting_pop (hperm : sel.queue.Perm (tx :: queue)) :
    sel.waiting.Perm (tx :: { sel with queue := queue }.waiting) :=
  hperm.append_right _

theorem Selection.Sound.subperm_pop (h : sel.Sound E X M txs) (hperm : sel.queue.Perm (tx :: queue)) :
    (sel.vtx ++ tx :: { sel with queue := queue }.waiting).Subperm txs :=
  (((waiting_pop hperm).append_left _).subperm_right.1 h.subperm)

/-- **One turn keeps the invariant.** -/
theorem Selection.Sound.turn (h : sel.Sound E X M txs) (hnodup : (txs.map (·.getHash E.crypto)).Nodup)
    (hperm : sel.queue.Perm (tx :: queue)) (hturn : Turn E X M { sel with queue := queue } tx sel') :
    sel'.Sound E X M txs := by
  have hpop := h.subperm_pop hperm
  have hwaiting : ∀ t ∈ sel'.waiting, t ∈ sel.waiting ∧ t.getHash E.crypto ≠ tx.getHash E.crypto := by
    intro t ht
    have ht := hturn.waiting.mem_iff.1 ht
    refine ⟨(waiting_pop hperm).mem_iff.2 (mem_cons_of_mem _ ht), ?_⟩
    have hnodup := nodup_map_of_subperm hpop hnodup
    rw [map_append, map_cons, nodup_append, nodup_cons] at hnodup
    exact fun heq ↦ hnodup.2.1.1 (mem_map.2 ⟨t, ht, heq⟩)
  refine ⟨hturn.coherent, ?_, fun t ht i hi ↦ ?_, ?_, ?_⟩
  · rcases hturn.vtx with ⟨hvtx, -⟩ | ⟨hvtx, -⟩
    · rw [hvtx, (hturn.waiting.append_left _).subperm_right]
      exact (List.Sublist.append_left (sublist_cons_self _ _) _).subperm.trans hpop
    · rw [hvtx, (hturn.waiting.append_left _).subperm_right, append_assoc]
      exact hpop
  · obtain ⟨hmem, hne⟩ := hwaiting t ht
    exact hturn.free _ hne (h.free t hmem i hi)
  · rcases hturn.vtx with ⟨hvtx, hsize⟩ | ⟨hvtx, hsize, -⟩
    · rw [hsize, hvtx, h.size]
    · rw [hsize, hvtx, h.size, map_append, sum_append]
      simp [Nat.add_assoc]
  · rcases hturn.vtx with ⟨hvtx, hsize⟩ | ⟨-, -, hroom⟩
    · rw [hvtx, hsize]
      exact h.room
    · exact .inr hroom

/-- **The loop ends without an exception**, and with as many turns as transactions wait the queue is
empty. -/
theorem exists_collect (htxs : Processable E txs) (fuel : ℕ) (h : sel.Sound E X M txs) :
    ∃ sel', collect E X ctx M s nHeight fuel sel = .ok sel' ∧ sel'.Sound E X M txs ∧
      (sel.waiting.length ≤ fuel → sel'.queue = []) := by
  induction fuel generalizing sel with
  | zero =>
    refine ⟨sel, rfl, h, fun hlength ↦ ?_⟩
    exact (append_eq_nil_iff.1 (length_eq_zero_iff.1 (Nat.le_zero.1 hlength))).1
  | succ fuel ih =>
    rw [collect]
    cases hpop : M.popHeap sel.fSortedByFee sel.queue with
    | none => exact ⟨sel, rfl, h, fun _ ↦ M.popHeap_eq_none hpop⟩
    | some popped =>
      obtain ⟨tx, queue⟩ := popped
      have hperm := M.popHeap_perm hpop
      have hwaiting := Selection.waiting_pop hperm
      have hmem : tx ∈ sel.waiting := hwaiting.mem_iff.2 mem_cons_self
      have htx : tx ∈ txs := h.subperm.subset (mem_append_right _ hmem)
      obtain ⟨sel₁, hconsider, hturn⟩ := exists_consider X ctx M s nHeight
        { sel with queue := queue } h.coherent (htxs.length tx htx) (htxs.value tx htx) (h.free tx hmem)
      obtain ⟨sel', hcollect, hsound, hqueue⟩ := ih (h.turn htxs.nodup hperm hturn)
      refine ⟨sel', bind_eq_ok_iff.2 ⟨sel₁, hconsider, hcollect⟩, hsound, fun hlength ↦ ?_⟩
      refine hqueue ?_
      have hlt := hwaiting.length_eq
      rw [length_cons, ← hturn.waiting.length_eq] at hlt
      omega

end Collect

/-! ### The start -/

section Start

variable {E X ctx M} {Y : MempoolEnv} {s : MasternodeState} {pcoinsTip : CCoinsView}
  {pool : List CTransaction} {pblock : CBlock} {view : CCoinsViewCache} {nHeight : ℤ} {tx : CTransaction}

theorem CTransaction.length_vout_le (tx : CTransaction) : tx.vout.length ≤ tx.serialize.length := by
  have hout : ∀ l : List CTxOut, l.length ≤ (l.flatMap serializeOut).length := by
    intro l
    induction l with
    | nil => exact le_rfl
    | cons out l ih =>
      have hlength : (serializeOut out).length = 8 + (Writer.byteVector out.scriptPubKey).length := by
        rw [serializeOut, length_append, Writer.int, Reader.length_natToLE]
      rw [flatMap_cons, length_append, length_cons]
      omega
  have hle := hout tx.vout
  simp only [serialize, Writer.vector, length_append]
  omega

theorem Accepted.processable (h : Accepted E X ctx Y s pcoinsTip pool) :
    Processable E (eligible X ctx pool nHeight) where
  nodup := h.nodup.sublist (filter_sublist.map _)
  length tx htx := by
    have hchecked := h.checkTransaction (mem_of_mem_filter htx)
    rw [KristaTech.checkTransaction] at hchecked
    obtain ⟨_, -, hchecked⟩ := bind_eq_ok_iff.1 hchecked
    obtain ⟨_, -, hchecked⟩ := bind_eq_ok_iff.1 hchecked
    obtain ⟨_, hsize, -⟩ := bind_eq_ok_iff.1 hchecked
    have hsize : tx.serialize.length ≤ maxStandardTxSize := by simpa using hsize
    exact (tx.length_vout_le.trans hsize).trans (by decide)
  value tx htx := h.getValueOut (mem_of_mem_filter htx)

theorem sublist_orphans (setDependsOn : CTransaction → Option (List Uint256)) (txs : List CTransaction) :
    ((txs.filterMap fun tx ↦ (setDependsOn tx).map (COrphan.mk tx)).map (·.tx)).Sublist txs := by
  induction txs with
  | nil => exact .slnil
  | cons tx txs ih =>
    rw [filterMap_cons]
    cases setDependsOn tx with
    | none => exact ih.cons tx
    | some hashes => exact ih.cons_cons tx

theorem subperm_startSelection :
    (startSelection E X ctx M view pool nHeight).waiting.Subperm (eligible X ctx pool nHeight) := by
  rw [Selection.waiting, startSelection, ← map_append]
  refine ((filter_append_perm _ _).map _).subperm.trans (List.Sublist.subperm ?_)
  exact sublist_orphans _ _

/-- **The invariant holds at the start**, if the view has no coin of the pool. -/
theorem sound_startSelection (X : ContextualEnv) (ctx : ChainContext) (M : MinerEnv) (nHeight : ℤ)
    (hview : view.Coherent)
    (hfree : ∀ tx ∈ pool, ∀ i < tx.vout.length, view.utxo ⟨tx.getHash E.crypto, UInt32.ofNat i⟩ = none) :
    (startSelection E X ctx M view pool nHeight).Sound E X M (eligible X ctx pool nHeight) where
  coherent := hview
  subperm := subperm_startSelection
  free tx htx := hfree tx (mem_of_mem_filter (subperm_startSelection.subset htx))
  size := rfl
  room := .inl rfl

end Start

/-! ### The block that results -/

/-- What the pool and the rest of the block have to fit into. The limit on the size counts the header
with its ADAM fields and its certificate, and what the loop can take at most. -/
structure TemplateFits (Y : MempoolEnv) (pcoinsTip : CCoinsView) (pool : List CTransaction)
    (pblock : CBlock) : Prop where
  sigops : (pblock.vtx.map getLegacySigOpCount).sum +
    ((eligible X ctx pool (ctx.height + 1)).map getLegacySigOpCount).sum ≤ maxBlockSigOpsLegacy
  size : pblock.toCBlockHeader.serialize.length +
    (Writer.compactSize (pblock.vtx.length + (eligible X ctx pool (ctx.height + 1)).length)).length +
    (pblock.vtx.map (·.serialize.length)).sum +
    (if pblock.isProofOfStake then (Writer.byteVector pblock.vchBlockSig).length else 0) +
    min ((eligible X ctx pool (ctx.height + 1)).map (·.serialize.length)).sum
      (nBlockMaxSize X M - 1001) ≤ max 1000 (min X.sporkMaxBlockSize maxBlockSizeCurrent)
  time : 0 < Y.medianTimePast ∧ Y.medianTimePast ≤ pblock.nTime.toNat
  final : ∀ tx ∈ pblock.vtx, isFinalTx X ctx tx (ctx.height + 1) pblock.nTime.toNat = true
  /-- The coinstake spends coins of the tip, and is a new transaction with amounts in range. -/
  coinstake : ∀ tx, pblock.vtx[1]? = some tx →
    (∀ txin ∈ tx.vin, (CCoinsViewCache.ofBase pcoinsTip).haveCoin txin.prevout = true) ∧
      tx.vout.length ≤ 2 ^ 32 ∧ (∀ out ∈ tx.vout, 0 ≤ out.nValue) ∧
      (∀ i < tx.vout.length,
        (CCoinsViewCache.ofBase pcoinsTip).utxo ⟨tx.getHash E.crypto, UInt32.ofNat i⟩ = none) ∧
      ∀ t ∈ pool, t.getHash E.crypto ≠ tx.getHash E.crypto

section Block

variable {E X ctx M} {Y : MempoolEnv} {s : MasternodeState} {pcoinsTip : CCoinsView}
  {pool : List CTransaction} {pblock : CBlock} {nHeight : ℤ} {tx : CTransaction}

theorem isFinalTx_mono {t t' : ℤ} (hpos : 0 < t) (hle : t ≤ t')
    (h : isFinalTx X ctx tx nHeight t = true) : isFinalTx X ctx tx nHeight t' = true := by
  have ht : t ≠ 0 := hpos.ne'
  have ht' : t' ≠ 0 := (hpos.trans_le hle).ne'
  simp only [isFinalTx, ht, ht', if_false, Bool.or_eq_true, decide_eq_true_eq] at h ⊢
  refine h.imp_left (Or.imp_right fun hlock ↦ ?_)
  split_ifs at hlock ⊢ <;> omega

theorem map_addFees {α : Type} {f : CTransaction → α}
    (hf : ∀ tx nFees, f (CTransaction.withFees tx nFees) = f tx) (nFees : CAmount)
    (vtx : List CTransaction) : (addFees nFees vtx).map f = vtx.map f := by
  cases vtx with
  | nil => rfl
  | cons tx vtx => exact congrArg (· :: vtx.map f) (hf tx nFees)

theorem length_serialize_withFees (tx : CTransaction) (nFees : CAmount) :
    (tx.withFees nFees).serialize.length = tx.serialize.length := by
  obtain ⟨nVersion, vin, vout, nLockTime⟩ := tx
  cases vout with
  | nil => rfl
  | cons out vout =>
    simp [CTransaction.withFees, CTransaction.serialize, Writer.vector, CTransaction.serializeOut,
      Writer.int, Reader.length_natToLE]

theorem getLegacySigOpCount_withFees (tx : CTransaction) (nFees : CAmount) :
    getLegacySigOpCount (tx.withFees nFees) = getLegacySigOpCount tx := by
  obtain ⟨nVersion, vin, vout, nLockTime⟩ := tx
  cases vout <;> rfl

theorem Writer.length_compactSize_mono {m n : ℕ} (h : m ≤ n) :
    (Writer.compactSize m).length ≤ (Writer.compactSize n).length := by
  simp only [Writer.compactSize]
  split_ifs <;> simp [Reader.length_natToLE] <;> omega

theorem map_rewardTxs {α : Type} {f : CTransaction → α}
    (hf : ∀ tx nFees, f (CTransaction.withFees tx nFees) = f tx) (nFees : CAmount) (pblock : CBlock) :
    (rewardTxs nFees pblock).map f = pblock.vtx.map f := by
  rw [rewardTxs]
  split_ifs
  · rfl
  · exact map_addFees hf nFees pblock.vtx

theorem isProofOfStake_append {nFees : CAmount} {vtx : List CTransaction}
    (hvtx : ∀ tx ∈ vtx, tx.isCoinStake = false) :
    CBlock.isProofOfStake { pblock with vtx := rewardTxs nFees pblock ++ vtx } =
      pblock.isProofOfStake := by
  have hget : (rewardTxs nFees pblock)[1]? = pblock.vtx[1]? := by
    rw [rewardTxs]
    split_ifs
    · rfl
    · rw [addFees, getElem?_modifyHead]
      rfl
  show ((rewardTxs nFees pblock ++ vtx)[1]?).any _ = (pblock.vtx[1]?).any _
  rw [getElem?_append]
  split_ifs with hlt
  · rw [hget]
  · rw [← hget, getElem?_eq_none (not_lt.1 hlt), Option.any_none]
    cases htx : vtx[1 - (rewardTxs nFees pblock).length]? with
    | none => rfl
    | some tx => exact hvtx tx (mem_of_getElem? htx)

theorem exists_coinstakeView (haccepted : Accepted E X ctx Y s pcoinsTip pool)
    (hfits : TemplateFits E X ctx M Y pcoinsTip pool pblock) (nHeight : ℤ) :
    ∃ view, coinstakeView E pcoinsTip pblock nHeight = .ok view ∧ view.Coherent ∧
      ∀ tx ∈ pool, ∀ i < tx.vout.length, view.utxo ⟨tx.getHash E.crypto, UInt32.ofNat i⟩ = none := by
  have htip := CCoinsViewCache.coherent_ofBase pcoinsTip
  rw [coinstakeView]
  cases hstake : pblock.vtx[1]? with
  | none => exact ⟨_, rfl, htip, haccepted.free⟩
  | some txCoinStake =>
    obtain ⟨hhave, hlength, hvalue, hfree, hne⟩ := hfits.coinstake txCoinStake hstake
    obtain ⟨undo, view, hupdate, hview, hkeeps⟩ :=
      htip.exists_updateCoins nHeight hlength hvalue hfree
    refine ⟨view, ?_, hview, fun tx htx i hi ↦ hkeeps _ (hne tx htx) (haccepted.free tx htx i hi)⟩
    dsimp only
    rw [if_pos (all_eq_true.2 hhave), hupdate]
    rfl

theorem Selection.Sound.sum_vtx_le {sel : Selection} {txs : List CTransaction} (h : sel.Sound E X M txs) :
    (sel.vtx.map (·.serialize.length)).sum ≤
      min (txs.map (·.serialize.length)).sum (nBlockMaxSize X M - 1001) := by
  refine le_min (sum_map_le_of_subperm _ ((sublist_append_left _ _).subperm.trans h.subperm)) ?_
  rcases h.room with hnil | hroom
  · rw [hnil]
    exact Nat.zero_le _
  · have hsize := h.size
    omega

theorem Selection.Sound.meetsLimits {sel : Selection}
    (h : sel.Sound E X M (eligible X ctx pool (ctx.height + 1)))
    (haccepted : Accepted E X ctx Y s pcoinsTip pool)
    (hfits : TemplateFits E X ctx M Y pcoinsTip pool pblock) :
    MeetsLimits X ctx { pblock with vtx := rewardTxs sel.nFees pblock ++ sel.vtx } := by
  have hsub : sel.vtx.Subperm (eligible X ctx pool (ctx.height + 1)) :=
    (sublist_append_left _ _).subperm.trans h.subperm
  have hstake : ∀ tx ∈ sel.vtx, tx.isCoinStake = false := fun tx htx ↦ by
    have htx := of_mem_filter (hsub.subset htx)
    simp only [Bool.and_eq_true, Bool.not_eq_true'] at htx
    exact htx.1.2
  refine ⟨?_, ?_, ?_⟩
  · rw [map_append, sum_append, map_rewardTxs getLegacySigOpCount_withFees]
    exact (Nat.add_le_add_left (sum_map_le_of_subperm _ hsub) _).trans hfits.sigops
  · have hcount := Writer.length_compactSize_mono (Nat.add_le_add_left hsub.length_le pblock.vtx.length)
    have hlength : (rewardTxs sel.nFees pblock).length = pblock.vtx.length := by
      simpa using congrArg List.length (map_rewardTxs (f := fun _ ↦ ()) (fun _ _ ↦ rfl) sel.nFees pblock)
    have htaken := h.sum_vtx_le
    have hsize := hfits.size
    rw [CBlock.serialize, isProofOfStake_append hstake, Writer.vector, length_append,
      length_append, length_append, length_flatMap, map_append, sum_append,
      map_rewardTxs length_serialize_withFees, length_append, hlength, apply_ite List.length,
      length_nil]
    dsimp only
    omega
  · have hrewards : ∀ final ∈ (rewardTxs sel.nFees pblock).map fun tx ↦
        isFinalTx X ctx tx (ctx.height + 1) pblock.nTime.toNat, final = true := by
      rw [map_rewardTxs fun _ _ ↦ rfl]
      exact forall_mem_map.2 hfits.final
    intro tx htx
    rcases mem_append.1 htx with htx | htx
    · exact forall_mem_map.1 hrewards tx htx
    · exact isFinalTx_mono hfits.time.1 hfits.time.2
        (haccepted.isFinalTx (mem_of_mem_filter (hsub.subset htx)))

/-- The state of the loop that looks at the only transaction of the pool. -/
def onlySelection (X : ContextualEnv) (M : MinerEnv) (pcoinsTip : CCoinsView) : Selection where
  view := .ofBase pcoinsTip
  queue := []
  vOrphan := []
  fSortedByFee := min (nBlockMaxSize X M) M.blockPrioritySize == 0

/-- **The only transaction of the pool is taken**, unless the loop's own limits are in the way. -/
theorem createNewBlock_singleton (haccepted : Accepted E X ctx Y s pcoinsTip [tx])
    (hpow : pblock.vtx[1]? = none) (heligible : eligible X ctx [tx] (ctx.height + 1) = [tx])
    (hdepends : dependsOn E (.ofBase pcoinsTip) [tx] tx = some [])
    (hskips : skips E X M (onlySelection X M pcoinsTip) tx = false)
    (hhave : (fetchInputs E (.ofBase pcoinsTip) tx).1 = true)
    (hsigops : (onlySelection X M pcoinsTip).nBlockSigOps +
      nTxSigOps E (fetchInputs E (.ofBase pcoinsTip) tx).2 tx < maxBlockSigOpsCurrent)
    (hcheck : (checkInputs E ctx s (fetchInputs E (.ofBase pcoinsTip) tx).2 tx true
      mandatoryScriptVerifyFlags false).isOk = true) :
    ∃ block nFees, createNewBlock E X ctx M s pcoinsTip [tx] pblock = .ok block ∧
      block.vtx = rewardTxs nFees pblock ++ [tx] := by
  have hview := CCoinsViewCache.coherent_ofBase pcoinsTip
  have hmem : tx ∈ eligible X ctx [tx] (ctx.height + 1) := by
    rw [heligible]
    exact mem_singleton_self tx
  have htxs : Processable E (eligible X ctx [tx] (ctx.height + 1)) := haccepted.processable
  obtain ⟨sel', htake, -, -, hwaiting, hvtx, -⟩ := exists_take (ctx.height + 1)
    { onlySelection X M pcoinsTip with
      fSortedByFee := sortsByFee E X M (onlySelection X M pcoinsTip) tx
      view := (fetchInputs E (.ofBase pcoinsTip) tx).2 }
    (coherent_fetchInputs hview tx) (htxs.length tx hmem) (htxs.value tx hmem)
    (by rw [utxo_fetchInputs]; exact haccepted.free tx (mem_singleton_self tx))
  have hstart : startSelection E X ctx M (.ofBase pcoinsTip) [tx] (ctx.height + 1) =
      { onlySelection X M pcoinsTip with queue := [tx] } := by
    simp [startSelection, heligible, hdepends, onlySelection]
  have hpop : M.popHeap (onlySelection X M pcoinsTip).fSortedByFee [tx] = some (tx, []) := by
    cases hpop : M.popHeap (onlySelection X M pcoinsTip).fSortedByFee [tx] with
    | none => cases M.popHeap_eq_none hpop
    | some popped =>
      obtain ⟨tx', rest⟩ := popped
      obtain ⟨rfl, rfl⟩ := List.cons.inj (singleton_perm.1 (M.popHeap_perm hpop)).symm
      rfl
  have hconsider : consider E X ctx M s (ctx.height + 1) (onlySelection X M pcoinsTip) tx = .ok sel' := by
    rw [consider, hskips, if_neg Bool.false_ne_true]
    dsimp only
    rw [show (onlySelection X M pcoinsTip).view = .ofBase pcoinsTip from rfl, hhave, Bool.not_true,
      if_neg Bool.false_ne_true, if_neg (not_le.2 hsigops)]
    cases hresult : checkInputs E ctx s (fetchInputs E (.ofBase pcoinsTip) tx).2 tx true
        mandatoryScriptVerifyFlags false with
    | error e => simp [hresult, Except.isOk, Except.toBool] at hcheck
    | ok checks => exact htake
  refine ⟨_, sel'.nFees, bind_eq_ok_iff.2 ⟨.ofBase pcoinsTip, ?_, bind_eq_ok_iff.2 ⟨sel', ?_, rfl⟩⟩, ?_⟩
  · rw [coinstakeView, hpow]
  · rw [hstart]
    show collect E X ctx M s (ctx.height + 1) (0 + 1) _ = .ok sel'
    rw [collect]
    show (match M.popHeap (onlySelection X M pcoinsTip).fSortedByFee [tx] with
      | none => _ | some (tx, queue) => _) = _
    rw [hpop]
    exact bind_eq_ok_iff.2 ⟨sel', hconsider, rfl⟩
  · show rewardTxs sel'.nFees pblock ++ sel'.vtx = _
    rw [hvtx]
    rfl

end Block

/-! ### A transaction that no block can hold -/

def sampleMempool : MempoolEnv where
  minRelayTxFee := 10000
  fIsBareMultisigStd := true
  fAcceptDatacarrier := true
  nMaxDatacarrierBytes := 83
  medianTimePast := 1
  nRegPeriod := 2880
  acceptsFee := fun _ nFees ↦ 10000 ≤ nFees
  withinChainLimits := fun _ _ ↦ true

def sampleMiner : MinerEnv where
  popHeap _ queue := queue.head?.map fun tx ↦ (tx, queue.tail)
  popHeap_perm := by
    intro _ queue tx rest h
    obtain ⟨tx', htx, heq⟩ := Option.map_eq_some_iff.1 h
    obtain ⟨rfl, rfl⟩ := Prod.mk.inj heq
    rw [cons_head?_tail htx]
  popHeap_eq_none := by simp
  allowFree := fun _ ↦ true
  lowFee := fun _ ↦ false

/-- A coin whose redeem script is `OP_1`. -/
def redeemableOut : CTxOut :=
  ⟨10 ^ 10, [0xA9, 0x14] ++ ((default : Crypto).hash160 openScript).toBytes ++ [0x87]⟩

/-- One signature of one key, outside of a redeem script. It counts as 20 signature operations. -/
def multisigOut : CTxOut := ⟨1000000, [0x51, 0x21, 0x02] ++ List.replicate 32 0 ++ [0x51, 0xAE]⟩

def multisigId : Uint256 := BitVec.ofNat 256 (2 ^ 128)

def multisigTx (n : ℕ) : CTransaction where
  nVersion := 1
  vin := [⟨⟨multisigId, 0⟩, [0x01, 0x51], sequenceFinal⟩]
  vout := List.replicate n multisigOut
  nLockTime := 0

def multisigTip : CCoinsView where
  hashBlock := genesisTip.hash
  getCoin o := if o = ⟨multisigId, 0⟩ then some ⟨false, false, redeemableOut, 0⟩ else none

/-- The transaction of the coin is known, and no spork is on. -/
def multisigContextual : ContextualEnv where
  getTransaction hash := if hash = multisigId then some ⟨1, [], [redeemableOut], 0⟩ else none
  getAdjustedTime := 1
  maxFutureBlockTime := fun _ ↦ 1
  minPastBlockTime := fun _ ↦ 0
  nTimeSlotLength := 15
  sporkMaxBlockTime := 4070908800
  sporkMaxBlockSize := 4070908800
  checkpointsCheckBlock := fun _ _ ↦ true
  lastCheckpoint := none
  nMaxReorgDepth := 100

def sampleTemplate : CBlock := { plainBlock genesisTip.hash [mintTx 1 0] with nTime := 1 }

theorem accepted_multisigTx_one :
    Accepted default multisigContextual (tipContext genesisTip) sampleMempool emptyNode.masternodes
      multisigTip [multisigTx 1] :=
  .accept .empty (acceptToMemoryPool_eq_ok_iff.2 ⟨by decide +kernel, by decide +kernel, rfl⟩)

/-- The bytes of the transaction. -/
theorem length_serialize_multisigTx (n : ℕ) : (multisigTx n).serialize.length ≤ 61 + 46 * n := by
  have hout : (CTransaction.serializeOut multisigOut).length = 46 := by decide
  have hin : (Writer.vector CTransaction.serializeIn (multisigTx n).vin).length = 44 := by
    show (Writer.vector CTransaction.serializeIn [_]).length = 44
    decide
  have hcount := Writer.length_compactSize_le n
  simp only [CTransaction.serialize, length_append, hin, Writer.int, Reader.length_natToLE]
  simp only [multisigTx, Writer.vector, length_append, length_replicate,
    flatMap_replicate, length_flatten, map_replicate, sum_replicate_nat, hout]
  omega

theorem checkTransaction_multisigTx : checkTransaction default (multisigTx 1001) = .ok () := by
  have hlength := length_serialize_multisigTx 1001
  rw [checkTransaction]
  refine bind_eq_ok_iff.2 ⟨(), by decide, ?_⟩
  refine bind_eq_ok_iff.2 ⟨(), by decide, ?_⟩
  refine bind_eq_ok_iff.2 ⟨(), ?_, by decide +kernel⟩
  rw [rejectIf_eq_ok_iff, maxStandardTxSize]
  omega

theorem isStandardTx_multisigTx :
    isStandardTx default multisigContextual (tipContext genesisTip) sampleMempool (multisigTx 1001) =
      .ok () := by
  have hlength := length_serialize_multisigTx 1001
  rw [isStandardTx]
  refine bind_eq_ok_iff.2 ⟨(), by decide, ?_⟩
  refine bind_eq_ok_iff.2 ⟨(), by decide, ?_⟩
  refine bind_eq_ok_iff.2 ⟨(), ?_, by decide +kernel⟩
  rw [rejectIf_eq_ok_iff, maxStandardTxSize]
  omega

theorem getHash_ne_multisig (tx : CTransaction) : tx.getHash default ≠ multisigId := by
  have hlt : tx.serialize.foldl (fun h b ↦ (257 * h + b.toNat + 1) % 2 ^ 128) 0 < 2 ^ 128 :=
    foldl_invariant (motive := (· < 2 ^ 128)) (by decide) fun _ _ _ _ ↦
      Nat.mod_lt _ (by decide)
  intro heq
  have htoNat := congrArg BitVec.toNat heq
  rw [multisigId, BitVec.toNat_ofNat] at htoNat
  change BitVec.toNat (BitVec.ofNat 256 (tx.serialize.foldl _ 0)) = _ at htoNat
  rw [BitVec.toNat_ofNat] at htoNat
  omega

theorem getCoin_multisigTip (tx : CTransaction) (n : UInt32) :
    multisigTip.getCoin ⟨tx.getHash default, n⟩ = none :=
  if_neg fun heq ↦ getHash_ne_multisig tx (COutPoint.mk.inj heq).1

theorem haveCoin_multisigTip (tx : CTransaction) (n : UInt32) :
    (CCoinsViewCache.ofBase (mempoolView default multisigTip [])).haveCoin
      ⟨tx.getHash default, n⟩ = false := by
  refine CCoinsViewCache.haveCoin_of_utxo_none ?_
  rw [CCoinsViewCache.utxo_of_not_cached (by simp [CCoinsViewCache.ofBase])]
  show CCoinsViewCache.unspent ((multisigTip.getCoin _).filter _) = none
  rw [getCoin_multisigTip]
  rfl

theorem accepted_multisigTx :
    Accepted default multisigContextual (tipContext genesisTip) sampleMempool emptyNode.masternodes
      multisigTip [multisigTx 1001] := by
  refine .accept .empty (acceptToMemoryPool_eq_ok_iff.2 ⟨?_, ?_, rfl⟩)
  · rw [checkLoose]
    refine bind_eq_ok_iff.2 ⟨(), checkTransaction_multisigTx, ?_⟩
    refine bind_eq_ok_iff.2 ⟨(), by decide, ?_⟩
    refine bind_eq_ok_iff.2 ⟨(), by decide +kernel, ?_⟩
    refine bind_eq_ok_iff.2 ⟨(), by decide, ?_⟩
    exact bind_eq_ok_iff.2 ⟨(), isStandardTx_multisigTx, by decide⟩
  · rw [checkSpending]
    refine bind_eq_ok_iff.2 ⟨(), ?_, by decide +kernel⟩
    rw [rejectIf_eq_ok_iff, Bool.not_eq_true, any_eq_false]
    intro i _
    rw [Bool.not_eq_true]
    exact haveCoin_multisigTip _ _

end KristaTech
