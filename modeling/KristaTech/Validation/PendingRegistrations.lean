import Mathlib.Data.List.Pairwise
import KristaTech.Validation.Template

/-!
# Pending registrations

How transactions leave the memory pool when a block is connected: `remove`, `removeConflicts` and
`removeForBlock` of `txmempool.cpp`. With a transaction of the block goes every transaction that
spends the same output, and all that descends from it.

A registration without a coin spends no output, but it names one: all of them have the sentinel as
their only input. It is exempt from the checks of the inputs, but not from the index of spent
outputs. So the pool has at most one registration (`Pooled.registration_unique`), whoever made it:
another one is refused as a double spend for as long as it waits, and a registration that comes with
a block throws it out (`registrations_independent_iff`).
-/

namespace KristaTech

open Masternode List

variable (E : ValidationEnv)

/-! ### Removal from the pool -/

def CTransaction.spends (tx : CTransaction) (outpoint : COutPoint) : Bool :=
  tx.vin.any (·.prevout == outpoint)

/-- `mapNextTx`: the transaction of the pool that spends an output. -/
def mapNextTx (pool : List CTransaction) (outpoint : COutPoint) : Option CTransaction :=
  pool.find? (·.spends outpoint)

/-- `GetMemPoolChildren`. -/
def getMemPoolChildren (pool : List CTransaction) (tx : CTransaction) : List CTransaction :=
  pool.filter fun child ↦ child.vin.any (·.prevout.hash == tx.getHash E.crypto)

/-- `CalculateDescendants` of the entries. There are no more generations than transactions. -/
def calculateDescendants (pool entries : List CTransaction) : List CTransaction :=
  (fun descendants ↦ descendants ++ descendants.flatMap (getMemPoolChildren E pool))^[pool.length] entries

/-- `remove`. -/
def removeTx (pool : List CTransaction) (origTx : CTransaction) (fRecursive : Bool) : List CTransaction :=
  let txToRemove :=
    match pool.find? fun tx ↦ tx.getHash E.crypto == origTx.getHash E.crypto with
    | some tx => [tx]
    | none =>
      if fRecursive then
        (List.range origTx.vout.length).filterMap fun i ↦
          mapNextTx pool ⟨origTx.getHash E.crypto, UInt32.ofNat i⟩
      else []
  let setAllRemoves := if fRecursive then calculateDescendants E pool txToRemove else txToRemove
  pool.filter fun tx ↦ !setAllRemoves.contains tx

def removeConflict (tx : CTransaction) (pool : List CTransaction) (txin : CTxIn) : List CTransaction :=
  match mapNextTx pool txin.prevout with
  | some txConflict =>
    if txConflict.getHash E.crypto ≠ tx.getHash E.crypto then removeTx E pool txConflict true else pool
  | none => pool

/-- `removeConflicts`. -/
def removeConflicts (pool : List CTransaction) (tx : CTransaction) : List CTransaction :=
  tx.vin.foldl (removeConflict E tx) pool

/-- `removeForBlock`. -/
def removeForBlock (pool : List CTransaction) (vtx : List CTransaction) : List CTransaction :=
  vtx.foldl (fun pool tx ↦ removeConflicts E (removeTx E pool tx false) tx) pool

variable {E} {pool : List CTransaction} {tx t : CTransaction} {o : COutPoint}

/-! ### What a removal leaves -/

theorem spends_iff : tx.spends o = true ↔ ∃ txin ∈ tx.vin, txin.prevout = o := by
  simp [CTransaction.spends]

theorem removeTx_sublist (pool : List CTransaction) (tx : CTransaction) (fRecursive : Bool) :
    (removeTx E pool tx fRecursive).Sublist pool := filter_sublist

theorem removeConflict_sublist (tx : CTransaction) (pool : List CTransaction) (txin : CTxIn) :
    (removeConflict E tx pool txin).Sublist pool := by
  rw [removeConflict]
  split
  · split_ifs
    · exact removeTx_sublist pool _ true
    · exact List.Sublist.refl _
  · exact List.Sublist.refl _

/-- A loop that only removes. -/
theorem foldl_sublist {α : Type} {f : List CTransaction → α → List CTransaction}
    (hf : ∀ pool a, (f pool a).Sublist pool) (l : List α) (pool : List CTransaction) :
    (l.foldl f pool).Sublist pool := by
  induction l generalizing pool with
  | nil => exact List.Sublist.refl _
  | cons a l ih => exact (ih (f pool a)).trans (hf pool a)

theorem mem_calculateDescendants {entries : List CTransaction} (h : t ∈ entries) :
    t ∈ calculateDescendants E pool entries := by
  rw [calculateDescendants]
  induction pool.length generalizing entries with
  | zero => exact h
  | succ n ih => exact ih (mem_append_left _ h)

theorem notMem_removeTx (hunique : ∀ t' ∈ pool, t'.getHash E.crypto = t.getHash E.crypto → t' = t)
    (hhash : t.getHash E.crypto = tx.getHash E.crypto) (fRecursive : Bool) :
    t ∉ removeTx E pool tx fRecursive := by
  intro hmem
  obtain ⟨hpool, hkept⟩ := mem_filter.1 hmem
  have hfind : pool.find? (fun t' ↦ t'.getHash E.crypto == tx.getHash E.crypto) = some t := by
    obtain ⟨t', ht'⟩ : ∃ t', pool.find? (fun t' ↦ t'.getHash E.crypto == tx.getHash E.crypto) = some t' :=
      Option.isSome_iff_exists.1 (find?_isSome.2 ⟨t, hpool, beq_iff_eq.2 hhash⟩)
    have hhash' : t'.getHash E.crypto = tx.getHash E.crypto := by simpa using find?_some ht'
    rw [ht', hunique t' (mem_of_find?_eq_some ht') (hhash'.trans hhash.symm)]
  rw [hfind] at hkept
  cases fRecursive
  · simp at hkept
  · simp [mem_calculateDescendants] at hkept

/-! ### Pools -/

variable (E) in
/-- The pools that are reached by accepting transactions, on any tips, and by removing some. -/
inductive Pooled : List CTransaction → Prop
  | empty : Pooled []
  | accept {X : ContextualEnv} {ctx : ChainContext} {Y : MempoolEnv} {s : MasternodeState}
      {pcoinsTip : CCoinsView} {pool pool' : List CTransaction} {tx : CTransaction} : Pooled pool →
      acceptToMemoryPool E X ctx Y s pcoinsTip pool tx = .ok pool' → Pooled pool'
  | remove {pool pool' : List CTransaction} : Pooled pool → pool'.Sublist pool → Pooled pool'

theorem not_spends_of_checkLoose {X : ContextualEnv} {ctx : ChainContext} {Y : MempoolEnv}
    (h : checkLoose E X ctx Y pool tx = .ok ()) : ∀ t ∈ pool, ∀ o, t.spends o → ¬ tx.spends o := by
  rw [checkLoose] at h
  iterate 7 obtain ⟨_, -, h⟩ := Except.bind_eq_ok_iff.1 h
  have hconflict : ∀ txin ∈ tx.vin, ∀ t ∈ pool, ∀ txin' ∈ t.vin, ¬ txin'.prevout = txin.prevout := by
    simpa using h
  intro t ht o hspends hspends'
  obtain ⟨txin', hmem', rfl⟩ := spends_iff.1 hspends
  obtain ⟨txin, hmem, ho⟩ := spends_iff.1 hspends'
  exact hconflict txin hmem t ht txin' hmem' ho.symm

/-- **No output is spent twice in the pool**, and the ids are different. -/
theorem Pooled.disjoint (h : Pooled E pool) :
    pool.Pairwise fun t t' ↦ t.getHash E.crypto ≠ t'.getHash E.crypto ∧
      ∀ o, t.spends o → ¬ t'.spends o := by
  induction h with
  | empty => exact .nil
  | accept _ haccept ih =>
    obtain ⟨hloose, -, rfl⟩ := acceptToMemoryPool_eq_ok_iff.1 haccept
    refine pairwise_append.2 ⟨ih, pairwise_singleton _ _, fun t ht t' ht' ↦ ?_⟩
    obtain rfl := mem_singleton.1 ht'
    exact ⟨(checkLoose_spec hloose).2.2 t ht, not_spends_of_checkLoose hloose t ht⟩
  | remove _ hsub ih => exact ih.sublist hsub

theorem Pooled.disjoint_of_ne (h : Pooled E pool) {t' : CTransaction} (ht : t ∈ pool)
    (ht' : t' ∈ pool) (hne : t ≠ t') :
    t.getHash E.crypto ≠ t'.getHash E.crypto ∧ ∀ o, t.spends o → ¬ t'.spends o := by
  have : Std.Symm fun t t' : CTransaction ↦ t.getHash E.crypto ≠ t'.getHash E.crypto ∧
      ∀ o, t.spends o → ¬ t'.spends o :=
    ⟨fun _ _ h ↦ ⟨h.1.symm, fun o ho ho' ↦ h.2 o ho' ho⟩⟩
  exact h.disjoint.forall ht ht' hne

/-- A loop that only removes, and one turn of which removes a transaction from any pool. -/
theorem Pooled.notMem_foldl (h : Pooled E pool) {α : Type}
    {f : List CTransaction → α → List CTransaction} (hf : ∀ pool a, (f pool a).Sublist pool)
    {l : List α} {a : α} (ha : a ∈ l) (hgone : ∀ pool, Pooled E pool → t ∉ f pool a) :
    t ∉ l.foldl f pool := by
  induction l generalizing pool with
  | nil => cases ha
  | cons b l ih =>
    rcases mem_cons.1 ha with rfl | ha
    · exact fun hmem ↦ hgone pool h ((foldl_sublist hf l _).subset hmem)
    · exact ih (h.remove (hf pool b)) ha

theorem Pooled.unique (h : Pooled E pool) (ht : t ∈ pool) :
    ∀ t' ∈ pool, t'.getHash E.crypto = t.getHash E.crypto → t' = t := by
  intro t' ht' hhash
  by_contra hne
  exact (h.disjoint_of_ne ht' ht hne).1 hhash

theorem Pooled.notMem_removeConflict (h : Pooled E pool) {txin : CTxIn} (hspends : t.spends txin.prevout)
    (hne : t.getHash E.crypto ≠ tx.getHash E.crypto) : t ∉ removeConflict E tx pool txin := by
  intro hmem
  have ht : t ∈ pool := (removeConflict_sublist tx pool txin).subset hmem
  have hnext : mapNextTx pool txin.prevout = some t := by
    obtain ⟨t', ht'⟩ : ∃ t', mapNextTx pool txin.prevout = some t' :=
      Option.isSome_iff_exists.1 (find?_isSome.2 ⟨t, ht, hspends⟩)
    have hspends' : t'.spends txin.prevout :=
      find?_some (p := fun t' : CTransaction ↦ t'.spends txin.prevout) ht'
    have heq : t' = t := by
      by_contra hne'
      exact (h.disjoint_of_ne (mem_of_find?_eq_some ht') ht hne').2 _ hspends' hspends
    rw [ht', heq]
  rw [removeConflict, hnext] at hmem
  simp only [if_pos hne] at hmem
  exact notMem_removeTx (h.unique ht) rfl true hmem

/-- **A conflict is removed**: connecting a block removes what spends the same output as a transaction
of the block. -/
theorem Pooled.notMem_removeForBlock (h : Pooled E pool) {vtx : List CTransaction} (htx : tx ∈ vtx)
    (hspends : tx.spends o) (hspends' : t.spends o) : t ∉ removeForBlock E pool vtx := by
  obtain ⟨txin, htxin, rfl⟩ := spends_iff.1 hspends
  refine h.notMem_foldl (fun pool tx ↦ (foldl_sublist (removeConflict_sublist tx) tx.vin _).trans
    (removeTx_sublist pool tx false)) htx fun pool h ↦ ?_
  by_cases hhash : t.getHash E.crypto = tx.getHash E.crypto
  · -- it is the transaction itself
    intro hmem
    have hmem' : t ∈ removeTx E pool tx false := (foldl_sublist (removeConflict_sublist tx) tx.vin _).subset hmem
    exact notMem_removeTx (h.unique ((removeTx_sublist pool tx false).subset hmem')) hhash false hmem'
  · exact (h.remove (removeTx_sublist pool tx false)).notMem_foldl (removeConflict_sublist tx) htxin
      fun pool h ↦ h.notMem_removeConflict hspends' hhash

/-! ### Registrations -/

def registrationKey (tx : CTransaction) : Option CPubKey :=
  tx.vout.head?.bind fun out ↦ (matchPoWLockRegistration out.scriptPubKey).map (·.2.2.pubkey)

theorem spends_zeroCoinSentinel (h : E.isZeroCoinPoW tx) : tx.spends zeroCoinSentinel := by
  rw [ValidationEnv.isZeroCoinPoW, isZeroCoinPoWTransaction] at h
  split at h
  · rename_i txin txout hvin hvout
    simp only [Bool.and_eq_true, beq_iff_eq] at h
    rw [CTransaction.spends, hvin]
    simp [h.2.1.1.1]
  · simp at h

/-- **When registrations of different keys are independent.** A registration that an empty pool
accepts is accepted beside registrations by other keys only if there are none; and a block with a
registration leaves the registrations by other keys in the pool only if there are none. -/
theorem registrations_independent_iff {X : ContextualEnv} {ctx : ChainContext} {Y : MempoolEnv}
    {s : MasternodeState} {pcoinsTip : CCoinsView} (hreg : E.isZeroCoinPoW tx)
    (hempty : acceptToMemoryPool E X ctx Y s pcoinsTip [] tx = .ok [tx]) {others : List CTransaction}
    (hothers : ∀ t ∈ others, E.isZeroCoinPoW t ∧ registrationKey t ≠ registrationKey tx)
    {vtx : List CTransaction} (htx : tx ∈ vtx) (hpool : Pooled E pool) :
    ((∃ pool', acceptToMemoryPool E X ctx Y s pcoinsTip others tx = .ok pool') ↔ others = []) ∧
      ((∀ t ∈ pool, E.isZeroCoinPoW t → registrationKey t ≠ registrationKey tx →
          t ∈ removeForBlock E pool vtx) ↔
        ∀ t ∈ pool, E.isZeroCoinPoW t → registrationKey t = registrationKey tx) := by
  refine ⟨⟨?_, ?_⟩, ⟨?_, ?_⟩⟩
  · rintro ⟨pool', haccept⟩
    obtain ⟨hloose, -, -⟩ := acceptToMemoryPool_eq_ok_iff.1 haccept
    refine eq_nil_iff_forall_not_mem.2 fun t ht ↦ ?_
    exact not_spends_of_checkLoose hloose t ht _ (spends_zeroCoinSentinel (hothers t ht).1)
      (spends_zeroCoinSentinel hreg)
  · rintro rfl
    exact ⟨_, hempty⟩
  · intro hkept t ht hregt
    by_contra hkey
    exact hpool.notMem_removeForBlock htx (spends_zeroCoinSentinel hreg) (spends_zeroCoinSentinel hregt)
      (hkept t ht hregt hkey)
  · intro hnone t ht hregt hkey
    exact absurd (hnone t ht hregt) hkey

/-! ### Two miners -/

def registrationOf (key : CPubKey) : CTransaction where
  nVersion := 1
  vin := [⟨zeroCoinSentinel, [], sequenceFinal⟩]
  vout := [⟨0,
    let pushed := CScript.pushData (CScript.pushData (CScript.pushData [] [1, 2, 3, 4])
      genesisTip.hash.toBytes) key.bytes
    let dropped := [Opcode.OP_DROP, .OP_DROP, .OP_DROP].foldl CScript.pushOp pushed
    let locked := [Opcode.OP_CHECKLOCKTIMEVERIFY, .OP_DROP, .OP_DUP, .OP_HASH160].foldl
      CScript.pushOp (CScript.pushData dropped [0xb8, 0x0b])
    [Opcode.OP_EQUALVERIFY, .OP_CHECKSIG].foldl CScript.pushOp
      (CScript.pushData locked (key.getID default).toBytes)⟩]
  nLockTime := 0

def firstMiner : CPubKey := CPubKey.set (2 :: List.replicate 32 1)

def secondMiner : CPubKey := CPubKey.set (2 :: List.replicate 32 2)

/-- `AcceptToMemoryPool` on the genesis block. -/
def acceptOnGenesis (pool : List CTransaction) (tx : CTransaction) :
    Except ValidationError (List CTransaction) :=
  acceptToMemoryPool default multisigContextual (tipContext genesisTip)
    { sampleMempool with acceptsFee := fun _ _ ↦ true } emptyNode.masternodes ⟨fun _ ↦ none, genesisTip.hash⟩
    pool tx

theorem accept_registrations :
    acceptOnGenesis [] (registrationOf firstMiner) = .ok [registrationOf firstMiner] ∧
      acceptOnGenesis [] (registrationOf secondMiner) = .ok [registrationOf secondMiner] :=
  ⟨acceptToMemoryPool_eq_ok_iff.2 ⟨by decide +kernel, by decide +kernel, rfl⟩,
    acceptToMemoryPool_eq_ok_iff.2 ⟨by decide +kernel, by decide +kernel, rfl⟩⟩

/-- The registrations of two miners, the second one waiting. -/
theorem registrations_independent_firstMiner :
    ((∃ pool', acceptOnGenesis [registrationOf secondMiner] (registrationOf firstMiner) = .ok pool') ↔
        [registrationOf secondMiner] = []) ∧
      ((∀ t ∈ [registrationOf secondMiner], (default : ValidationEnv).isZeroCoinPoW t →
          registrationKey t ≠ registrationKey (registrationOf firstMiner) →
          t ∈ removeForBlock default [registrationOf secondMiner] [registrationOf firstMiner]) ↔
        ∀ t ∈ [registrationOf secondMiner], (default : ValidationEnv).isZeroCoinPoW t →
          registrationKey t = registrationKey (registrationOf firstMiner)) :=
  registrations_independent_iff (by decide +kernel) accept_registrations.1
    (by
      intro t ht
      obtain rfl := mem_singleton.1 ht
      exact ⟨by decide +kernel, by decide +kernel⟩)
    mem_cons_self (.accept .empty accept_registrations.2)

/-- **One miner keeps the others out.** The registrations of two miners are accepted into an empty
pool; but neither beside the other one, and a block with the first removes the second. -/
theorem registrations_interfere :
    acceptOnGenesis [] (registrationOf firstMiner) = .ok [registrationOf firstMiner] ∧
      acceptOnGenesis [] (registrationOf secondMiner) = .ok [registrationOf secondMiner] ∧
      registrationKey (registrationOf firstMiner) = some firstMiner ∧
      registrationKey (registrationOf secondMiner) = some secondMiner ∧
      acceptOnGenesis [registrationOf secondMiner] (registrationOf firstMiner) =
        .error (.invalid 0 "txn-mempool-conflict" false) ∧
      removeForBlock default [registrationOf secondMiner] [coinbaseTx 0, registrationOf firstMiner] = [] :=
  ⟨accept_registrations.1, accept_registrations.2, by decide, by decide,
    by decide +kernel, by decide +kernel⟩

end KristaTech
