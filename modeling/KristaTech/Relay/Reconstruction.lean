import Mathlib.Data.List.Induction
import KristaTech.Relay.CompactBlock
import KristaTech.Script.Numbers

/-!
# Compact blocks are reconstructed

A block that is sent as a compact block reaches `ProcessNewBlock` of the receiver as it was, after at
most one request for transactions, if no short identifiers collide. There is one exception. The indexes
of the missing transactions have 16 bits, but a compact block may announce 133333 transactions: one
that is missing at a later place is never asked for (`exchange_eq_iff`).
-/

namespace KristaTech

open List Reader

/-! ### What is sent -/

theorem CBlock.getBlockHeader_eq {block : CBlock} (h : block.toCBlockHeader.OnWire) :
    block.getBlockHeader = block.toCBlockHeader := by
  have hif {α : Type} {p : Prop} [Decidable p] {a default : α} (h : ¬p → a = default) :
      (if p then a else default) = a := ite_eq_left_iff.2 fun hp ↦ (h hp).symm
  rw [getBlockHeader, hif h.nAccumulatorCheckpoint, hif fun hv ↦ (h.noAdam hv).1,
    hif fun hv ↦ (h.noAdam hv).2.1, hif fun hv ↦ (h.noAdam hv).2.2.1,
    hif fun hv ↦ (h.noAdam hv).2.2.2, hif h.noQuorum]

def CBlock.prefillCount (block : CBlock) : ℕ := if block.isProofOfStake then 2 else 1

theorem isPrefilled_eq (block : CBlock) (i : ℕ) :
    isPrefilled block i = decide (i < block.prefillCount) := by
  rw [isPrefilled, CBlock.prefillCount]
  cases block.isProofOfStake with
  | false => rcases i with _ | i <;> simp
  | true =>
    simp only [Bool.and_true, if_true]
    rcases i with _ | _ | i <;> simp

theorem prefillFrom_eq_nil {block : CBlock} {i : ℕ} (h : block.prefillCount ≤ i) (prev : Option ℕ)
    (vtx : List CTransaction) : prefillFrom block i prev vtx = [] := by
  induction vtx generalizing i with
  | nil => rfl
  | cons tx vtx ih =>
    rw [prefillFrom, isPrefilled_eq, if_neg (by simpa using h)]
    exact ih (by omega)

theorem prefillFrom_eq (block : CBlock) (vtx : List CTransaction) : prefillFrom block 0 none vtx =
      (vtx.take block.prefillCount).map (PrefilledTransaction.mk 0) := by
  have hfirst : isPrefilled block 0 = true := rfl
  have hsecond : isPrefilled block 1 = block.isProofOfStake := rfl
  rcases vtx with _ | ⟨coinbase, vtx⟩
  · simp [prefillFrom]
  rw [prefillFrom, if_pos hfirst]
  cases hstake : block.isProofOfStake with
  | false =>
    have hcount : block.prefillCount = 1 := by simp [CBlock.prefillCount, hstake]
    rw [prefillFrom_eq_nil hcount.le, hcount]
    rfl
  | true =>
    have hcount : block.prefillCount = 2 := by simp [CBlock.prefillCount, hstake]
    rcases vtx with _ | ⟨coinstake, vtx⟩
    · rw [hcount]
      rfl
    · rw [prefillFrom, if_pos (hsecond.trans hstake), prefillFrom_eq_nil hcount.le, hcount]
      rfl

/-- The other transactions, from index `i` on. -/
theorem filter_not_isPrefilled (block : CBlock) (vtx : List CTransaction) (i : ℕ) :
    ((vtx.zipIdx i).filter fun p ↦ !isPrefilled block p.2).map Prod.fst =
      vtx.drop (block.prefillCount - i) := by
  induction vtx generalizing i with
  | nil => simp
  | cons tx vtx ih =>
    rw [zipIdx_cons, filter_cons, isPrefilled_eq]
    by_cases hlt : i < block.prefillCount
    · rw [decide_eq_true hlt, Bool.not_true, if_neg Bool.false_ne_true, ih,
        ← Nat.sub_add_cancel (Nat.sub_pos_of_lt hlt), drop_succ_cons, Nat.sub_sub]
    · have hdrop : block.prefillCount - (i + 1) = 0 := by omega
      rw [decide_eq_false hlt, Bool.not_false, if_pos rfl, map_cons, ih, hdrop,
        Nat.sub_eq_zero_of_le (not_lt.1 hlt), drop_zero, drop_zero]

theorem shorttxids_eq (R : RelayEnv) (nonce : UInt64) (block : CBlock) :
    (CBlockHeaderAndShortTxIDs.ofBlock R nonce block).shorttxids =
      (block.vtx.drop block.prefillCount).map fun tx ↦
        getShortID R block.getBlockHeader nonce (tx.getHash R.crypto) := by
  have hdrop := filter_not_isPrefilled block block.vtx 0
  rw [Nat.sub_zero] at hdrop
  rw [← hdrop, map_map]
  rfl

namespace CBlockHeaderAndShortTxIDs

/-! ### What is found -/

section Lookup

variable {shortID : CTransaction → UInt64}
variable (shortID) in
theorem indexMempool_spec (mempool : List CTransaction) (sid : UInt64) :
    (indexMempool shortID mempool).1[sid]? = (mempool.filter (shortID · == sid)).head? ∧
      (sid ∈ (indexMempool shortID mempool).2 ↔ 2 ≤ (mempool.filter (shortID · == sid)).length) := by
  induction mempool using List.reverseRecOn with
  | nil => simp [indexMempool]
  | append_singleton mempool tx ih =>
    obtain ⟨hmap, hcollided⟩ := ih
    set index := indexMempool shortID mempool with hindex
    have hstep : indexMempool shortID (mempool ++ [tx]) =
        if shortID tx ∈ index.1 then (index.1, index.2.insert (shortID tx))
        else (index.1.insert (shortID tx) tx, index.2) := by
      rw [hindex, indexMempool, foldl_append]
      rfl
    rw [hstep, filter_append]
    by_cases heq : shortID tx = sid
    · have hlast : [tx].filter (shortID · == sid) = [tx] := by simp [heq]
      have hmem : sid ∈ index.1 ↔ (index.1[sid]?).isSome := by simp
      rw [hlast, heq]
      cases hfilter : mempool.filter (shortID · == sid) with
      | nil =>
        rw [hfilter] at hmap hcollided
        rw [if_neg (by simp [hmem, hmap])]
        simp [hcollided]
      | cons tx' txs =>
        rw [hfilter] at hmap
        rw [if_pos (by simp [hmem, hmap])]
        simp [hmap]
    · have hlast : [tx].filter (shortID · == sid) = [] := by simp [heq]
      rw [hlast, append_nil]
      split_ifs
      · simp [hmap, hcollided, heq]
      · simp [hmap, hcollided, Std.ExtTreeMap.getElem?_insert, heq]

theorem lookup_eq {mempool : List CTransaction} {tx : CTransaction} (hnodup : mempool.Nodup)
    (hfree : ∀ tx' ∈ mempool, shortID tx' = shortID tx → tx' = tx) :
    lookup shortID mempool (shortID tx) = if tx ∈ mempool then some tx else none := by
  obtain ⟨hmap, hcollided⟩ := indexMempool_spec shortID mempool (shortID tx)
  have hfilter : mempool.filter (shortID · == shortID tx) = mempool.filter (· == tx) := by
    refine filter_congr fun tx' htx' ↦ ?_
    rw [Bool.eq_iff_iff, beq_iff_eq, beq_iff_eq]
    exact ⟨hfree tx' htx', fun h ↦ h ▸ rfl⟩
  rw [hfilter, filter_beq] at hmap hcollided
  rw [lookup, hmap]
  by_cases hmem : tx ∈ mempool
  · rw [count_eq_one_of_mem hnodup hmem] at hcollided ⊢
    simp [hcollided, hmem]
  · rw [count_eq_zero_of_not_mem hmem] at hcollided ⊢
    simp [hcollided, hmem]

end Lookup

/-! ### What is filled -/

theorem placePrefilled_eq (abs_index : Option ℕ) (placed txs : List CTransaction) (n : ℕ)
    (habs : abs_index.elim 0 (· + 1) = placed.length) :
    placePrefilled abs_index (txs.map (PrefilledTransaction.mk 0))
        (placed ++ List.replicate (txs.length + n) .empty) =
      some (placed ++ txs ++ List.replicate n .empty) := by
  induction txs generalizing abs_index placed with
  | nil => simp [placePrefilled]
  | cons tx txs ih =>
    have hindex : abs_index.elim (0 : UInt16).toNat (· + ((0 : UInt16).toNat + 1)) = placed.length := by
      rw [← habs]
      cases abs_index <;> rfl
    have hlt : placed.length < (placed ++ List.replicate ((tx :: txs).length + n)
        CTransaction.empty).length := by
      rw [length_append, length_replicate, length_cons]
      omega
    have hset : (placed ++ List.replicate ((tx :: txs).length + n) CTransaction.empty).set
        placed.length tx = (placed ++ [tx]) ++ List.replicate (txs.length + n) .empty := by
      rw [set_append_right _ _ le_rfl, Nat.sub_self, length_cons, Nat.add_right_comm,
        replicate_succ, set_cons_zero, append_assoc, singleton_append]
    rw [map_cons, placePrefilled, hindex, if_neg (not_le.2 hlt), hset, ih _ _ (by simp)]
    simp

variable {i : ℕ} {txs mempool : List CTransaction}

theorem fillFrom_append {found : UInt64 → Option CTransaction}
    (htxs : ∀ tx ∈ txs, tx.isNull = false) (vtx : List CTransaction) (shorttxids : List UInt64) :
    fillFrom found i (txs ++ vtx) shorttxids =
      (fillFrom found (i + txs.length) vtx shorttxids).map fun r ↦ (txs ++ r.1, r.2) := by
  induction txs generalizing i with
  | nil => simp
  | cons tx txs ih =>
    obtain ⟨htx, htxs⟩ := forall_mem_cons.1 htxs
    rw [cons_append, fillFrom.eq_def]
    simp only [htx, Bool.false_eq_true, if_false]
    rw [ih htxs, Option.map_map, length_cons, Nat.add_right_comm, ← Nat.add_assoc]
    rfl

/-- The indexes of the transactions that are not found, from index `i` on. -/
def missingFrom (mempool : List CTransaction) : ℕ → List CTransaction → List ℕ
  | _, [] => []
  | i, tx :: txs =>
    if tx ∈ mempool then missingFrom mempool (i + 1) txs else i :: missingFrom mempool (i + 1) txs

theorem fillFrom_replicate {shortID : CTransaction → UInt64} (hnodup : mempool.Nodup)
    (txs : List CTransaction)
    (hfree : ∀ tx ∈ txs, ∀ tx' ∈ mempool, shortID tx' = shortID tx → tx' = tx) (i : ℕ) :
    fillFrom (lookup shortID mempool) i (List.replicate txs.length .empty) (txs.map shortID) =
      some (txs.map fun tx ↦ if tx ∈ mempool then tx else .empty,
        (missingFrom mempool i txs).map UInt16.ofNat) := by
  induction txs generalizing i with
  | nil => rfl
  | cons tx txs ih =>
    obtain ⟨hfirst, hfree⟩ := forall_mem_cons.1 hfree
    have hnull : CTransaction.empty.isNull = true := rfl
    rw [length_cons, replicate_succ, map_cons, fillFrom.eq_def]
    simp only [hnull, if_true, lookup_eq hnodup hfirst, ih hfree (i + 1), missingFrom]
    by_cases hmem : tx ∈ mempool <;> simp [hmem]

theorem mem_missingFrom {p : ℕ} :
    p ∈ missingFrom mempool i txs ↔ ∃ j tx, p = i + j ∧ txs[j]? = some tx ∧ tx ∉ mempool := by
  induction txs generalizing i with
  | nil => simp [missingFrom]
  | cons tx txs ih =>
    have hcases : (∃ j tx', p = i + j ∧ (tx :: txs)[j]? = some tx' ∧ tx' ∉ mempool) ↔
        p = i ∧ tx ∉ mempool ∨ ∃ j tx', p = i + 1 + j ∧ txs[j]? = some tx' ∧ tx' ∉ mempool := by
      constructor
      · rintro ⟨_ | j, tx', hp, hget, hmem⟩
        · obtain rfl := Option.some.inj hget
          exact Or.inl ⟨hp, hmem⟩
        · exact Or.inr ⟨j, tx', by omega, hget, hmem⟩
      · rintro (⟨hp, hmem⟩ | ⟨j, tx', hp, hget, hmem⟩)
        · exact ⟨0, tx, hp, rfl, hmem⟩
        · exact ⟨j + 1, tx', by omega, hget, hmem⟩
    rw [hcases, missingFrom]
    split_ifs with hmem <;> simp [ih, hmem]

theorem map_eq_of_missingFrom_eq_nil (h : missingFrom mempool i txs = []) :
    (txs.map fun tx ↦ if tx ∈ mempool then tx else .empty) = txs := by
  have hmem (tx : CTransaction) (htx : tx ∈ txs) : tx ∈ mempool := by
    by_contra hnot
    obtain ⟨j, hj⟩ := getElem?_of_mem htx
    exact not_mem_nil (h ▸ mem_missingFrom.2 ⟨j, tx, rfl, hj, hnot⟩)
  exact map_congr_left (fun tx htx ↦ if_pos (hmem tx htx)) |>.trans (map_id _)

theorem pairwise_missingFrom (mempool : List CTransaction) (i : ℕ) (txs : List CTransaction) :
    (missingFrom mempool i txs).Pairwise (· < ·) := by
  induction txs generalizing i with
  | nil => exact List.Pairwise.nil
  | cons tx txs ih =>
    rw [missingFrom]
    split_ifs
    · exact ih (i + 1)
    · refine pairwise_cons.2 ⟨fun p hp ↦ ?_, ih (i + 1)⟩
      obtain ⟨j, -, rfl, -⟩ := mem_missingFrom.1 hp
      omega

/-! ### A whole block -/

section Block

variable {R : RelayEnv} {nonce : UInt64} {block : CBlock} {mempool : List CTransaction}
variable (R nonce block mempool) in
/-- No two transactions of the block and the mempool have one short identifier. -/
def CollisionFree : Prop :=
  ∀ tx ∈ block.vtx ++ mempool, ∀ tx' ∈ block.vtx ++ mempool,
    getShortID R block.toCBlockHeader nonce (tx.getHash R.crypto) =
      getShortID R block.toCBlockHeader nonce (tx'.getHash R.crypto) → tx = tx'

variable (block mempool) in
/-- The transactions that are there without a request, the others empty. -/
def filled : List CTransaction :=
  block.vtx.take block.prefillCount ++
    (block.vtx.drop block.prefillCount).map fun tx ↦ if tx ∈ mempool then tx else .empty

variable (block mempool) in
/-- The indexes of the transactions that have to be asked for. -/
def missing : List ℕ :=
  missingFrom mempool (block.vtx.take block.prefillCount).length (block.vtx.drop block.prefillCount)

theorem mem_missing {p : ℕ} : p ∈ missing block mempool ↔
      ∃ tx, block.prefillCount ≤ p ∧ block.vtx[p]? = some tx ∧ tx ∉ mempool := by
  rw [missing, mem_missingFrom]
  constructor
  · rintro ⟨j, tx, rfl, htx, hmem⟩
    rw [getElem?_drop] at htx
    have hlt := (List.getElem?_eq_some_iff.1 htx).1
    rw [length_take_of_le (by omega)]
    exact ⟨tx, Nat.le_add_right _ _, htx, hmem⟩
  · rintro ⟨tx, hp, htx, hmem⟩
    have hlt := (List.getElem?_eq_some_iff.1 htx).1
    refine ⟨p - block.prefillCount, tx, ?_, ?_, hmem⟩
    · rw [length_take_of_le (by omega)]
      omega
    · rw [getElem?_drop, Nat.add_sub_cancel' hp, htx]

theorem filled_eq (h : missing block mempool = []) : filled block mempool = block.vtx := by
  rw [filled, map_eq_of_missingFrom_eq_nil h, take_append_drop]

theorem isProofOfStake_ofBlock : (ofBlock R nonce block).isProofOfStake = block.isProofOfStake := by
  rw [isProofOfStake, ofBlock, prefillFrom_eq, getElem?_map, getElem?_take]
  cases hstake : block.isProofOfStake with
  | false => simp [CBlock.prefillCount, hstake]
  | true =>
    rw [CBlock.isProofOfStake, Option.any_eq_true] at hstake
    obtain ⟨tx, htx, hcoinstake⟩ := hstake
    have hcount : 1 < block.prefillCount := by
      simp [CBlock.prefillCount, CBlock.isProofOfStake, htx, hcoinstake]
    simp [hcount, htx, hcoinstake]

theorem header_ofBlock (hwire : block.OnWire) : (ofBlock R nonce block).header = block.toCBlockHeader :=
  CBlock.getBlockHeader_eq hwire.header

theorem prefilledtxn_ofBlock : (ofBlock R nonce block).prefilledtxn =
    (block.vtx.take block.prefillCount).map (PrefilledTransaction.mk 0) :=
  prefillFrom_eq block block.vtx

theorem toBlock_ofBlock (hwire : block.OnWire) (vtx : List CTransaction) :
    (ofBlock R nonce block).toBlock vtx = { block with vtx := vtx } := by
  have hsig : (if block.isProofOfStake then (ofBlock R nonce block).vchBlockSig else []) =
      block.vchBlockSig := by
    rw [ofBlock]
    split_ifs with hstake
    · rfl
    · exact (hwire.noBlockSig hstake).symm
  rw [toBlock, isProofOfStake_ofBlock, header_ofBlock hwire, hsig, ← hwire.fChecked]

/-- **What a compact block is filled to.** -/
theorem fill_ofBlock (hwire : block.OnWire) (hnull : ∀ tx ∈ block.vtx, tx.isNull = false)
    (hnodup : mempool.Nodup) (hfree : CollisionFree R nonce block mempool) :
    (ofBlock R nonce block).fill R mempool =
      some (filled block mempool, (missing block mempool).map UInt16.ofNat) := by
  have hshort : (ofBlock R nonce block).shorttxids = (block.vtx.drop block.prefillCount).map fun tx ↦
        getShortID R block.toCBlockHeader nonce (tx.getHash R.crypto) := by
    rw [shorttxids_eq, CBlock.getBlockHeader_eq hwire.header]
  have hplace := placePrefilled_eq none [] (block.vtx.take block.prefillCount)
    (block.vtx.drop block.prefillCount).length rfl
  rw [nil_append, nil_append] at hplace
  have hfill := fillFrom_replicate hnodup (block.vtx.drop block.prefillCount)
    (fun tx htx tx' htx' h ↦ hfree tx' (mem_append_right _ htx') tx
      (mem_append_left _ (mem_of_mem_drop htx)) h)
    (block.vtx.take block.prefillCount).length
  rw [fill, header_ofBlock hwire, hshort, prefilledtxn_ofBlock, length_map, length_map, hplace, Option.bind_some,
    fillFrom_append fun tx htx ↦ hnull tx (mem_of_mem_take htx), Nat.zero_add]
  exact congrArg _ hfill

/-! ### On the wire -/

theorem getShortID_lt (header : CBlockHeader) (txhash : Uint256) :
    (getShortID R header nonce txhash).toNat < 256 ^ 6 := by
  rw [getShortID, UInt64.toNat_and]
  exact (Nat.and_le_right).trans_lt (by decide)

variable (R nonce) in
theorem read_serialize_ofBlock (hwire : block.OnWire) (rest : Bytes) :
    read ((ofBlock R nonce block).serialize ++ rest) = some (ofBlock R nonce block, rest) := by
  have hshort (sid : UInt64) (hsid : sid ∈ (ofBlock R nonce block).shorttxids) (rest : Bytes) :
      readShortID (Reader.natToLE 6 sid.toNat ++ rest) = some (sid, rest) := by
    obtain ⟨p, -, rfl⟩ := mem_map.1 hsid
    rw [readShortID, bind_of_eq_some (readLE_append (getShortID_lt _ _) _), UInt64.ofNat_toNat]
    rfl
  have hptx (ptx : PrefilledTransaction) (h : ptx ∈ (ofBlock R nonce block).prefilledtxn)
      (rest : Bytes) : readPrefilled (serializePrefilled ptx ++ rest) = some (ptx, rest) := by
    rw [prefilledtxn_ofBlock] at h
    obtain ⟨tx, htx, rfl⟩ := mem_map.1 h
    have hindex : (0 : UInt16).toNat ≤ Reader.maxSize := Nat.zero_le _
    rw [readPrefilled, serializePrefilled, append_assoc]
    rw [bind_of_eq_some (readCompactSize_append hindex _), bind_of_eq_some (readTransaction_append
        (hwire.vtx tx (mem_of_mem_take htx)) _)]
    rfl
  have hlength : (ofBlock R nonce block).shorttxids.length ≤ Reader.maxSize := by
    rw [shorttxids_eq, length_map, length_drop]
    exact (Nat.sub_le _ _).trans hwire.length_vtx
  have hlength' : (ofBlock R nonce block).prefilledtxn.length ≤ Reader.maxSize := by
    rw [prefilledtxn_ofBlock, length_map, length_take]
    exact (Nat.min_le_right _ _).trans hwire.length_vtx
  have hsig : (ofBlock R nonce block).vchBlockSig.length ≤ Reader.maxSize := by
    rw [ofBlock]
    split_ifs
    · exact hwire.vchBlockSig
    · exact Nat.zero_le _
  have hnosig : ¬(ofBlock R nonce block).isProofOfStake = true →
      (ofBlock R nonce block).vchBlockSig = [] := by
    rw [isProofOfStake_ofBlock]
    exact fun hstake ↦ if_neg hstake
  rw [read, serialize, append_assoc, append_assoc, append_assoc, append_assoc,
    bind_of_eq_some (readHeader_append (header_ofBlock hwire ▸ hwire.header) _),
    bind_of_eq_some (readLE_append (UInt64.toNat_lt _) _),
    bind_of_eq_some (readVector_append hshort hlength _),
    bind_of_eq_some (readVector_append hptx hlength' _),
    show (ofBlock R nonce block).prefilledtxn[1]?.any (·.tx.isCoinStake) =
      (ofBlock R nonce block).isProofOfStake from rfl,
    bind_of_eq_some (readIf_append (fun _ ↦ readByteVector_append hsig) hnosig _), UInt64.ofNat_toNat]
  rfl

end Block

end CBlockHeaderAndShortTxIDs

theorem BlockTransactions.read_serialize_append {resp : BlockTransactions}
    (htxn : ∀ tx ∈ resp.txn, tx.OnWire) (hsize : resp.txn.length ≤ Reader.maxSize) (rest : Bytes) :
    read (resp.serialize ++ rest) = some (resp, rest) := by
  rw [read, serialize, append_assoc, bind_of_eq_some (readUint256_append _ _),
    bind_of_eq_some (readVector_append (fun tx htx ↦ readTransaction_append (htxn tx htx)) hsize _)]
  rfl

/-! ### The transactions that are asked for -/

open CBlockHeaderAndShortTxIDs

section Missing

variable {mempool txs : List CTransaction} {i : ℕ}

theorem length_missingFrom (mempool : List CTransaction) (i : ℕ) (txs : List CTransaction) :
    (missingFrom mempool i txs).length = (txs.filter (· ∉ mempool)).length := by
  induction txs generalizing i with
  | nil => rfl
  | cons tx txs ih =>
    rw [missingFrom]
    by_cases hmem : tx ∈ mempool <;> simp [hmem, ih]

theorem mapM_missingFrom (h : ∀ p ∈ missingFrom mempool i txs, p < 2 ^ 16)
    (done : List CTransaction) (hdone : done.length = i) :
    ((missingFrom mempool i txs).map UInt16.ofNat).mapM (fun idx ↦ (done ++ txs)[idx.toNat]?) =
      some (txs.filter (· ∉ mempool)) := by
  induction txs generalizing i done with
  | nil => rfl
  | cons tx txs ih =>
    have hshift : done ++ tx :: txs = (done ++ [tx]) ++ txs := by simp
    rw [missingFrom] at h ⊢
    by_cases hmem : tx ∈ mempool
    · rw [if_pos hmem] at h ⊢
      rw [filter_cons_of_neg (by simp [hmem]), hshift, ih h _ (by simp [hdone])]
    · rw [if_neg hmem] at h ⊢
      obtain ⟨hi, hlater⟩ := forall_mem_cons.1 h
      have hget : (done ++ tx :: txs)[(UInt16.ofNat i).toNat]? = some tx := by
        rw [UInt16.toNat_ofNat_of_lt' hi, ← hdone]
        simp
      rw [filter_cons_of_pos (by simp [hmem]), map_cons, mapM_cons, hget, hshift,
        ih hlater _ (by simp [hdone])]
      rfl

theorem placeMissing_missingFrom (h : ∀ p ∈ missingFrom mempool i txs, p < 2 ^ 16)
    (done : List CTransaction) (hdone : done.length = i) :
    placeMissing (((missingFrom mempool i txs).map UInt16.ofNat).zip (txs.filter (· ∉ mempool)))
        (done ++ txs.map fun tx ↦ if tx ∈ mempool then tx else .empty) = some (done ++ txs) := by
  induction txs generalizing i done with
  | nil => rfl
  | cons tx txs ih =>
    have hshift (tx : CTransaction) (txs : List CTransaction) :
        done ++ tx :: txs = (done ++ [tx]) ++ txs := by simp
    rw [missingFrom] at h ⊢
    by_cases hmem : tx ∈ mempool
    · rw [if_pos hmem] at h ⊢
      rw [filter_cons_of_neg (by simp [hmem]), map_cons, if_pos hmem, hshift,
        ih h _ (by simp [hdone]), append_assoc, singleton_append]
    · rw [if_neg hmem] at h ⊢
      obtain ⟨hi, hlater⟩ := forall_mem_cons.1 h
      rw [filter_cons_of_pos (by simp [hmem]), map_cons, map_cons, if_neg hmem,
        zip_cons_cons, placeMissing, UInt16.toNat_ofNat_of_lt' hi, if_neg (by simp [← hdone]),
        ← hdone, set_append_right _ _ le_rfl, Nat.sub_self, set_cons_zero, hshift,
        hdone, ih hlater _ (by simp [hdone]), append_assoc, singleton_append]

theorem getElem?_of_placeMissing {missing : List (UInt16 × CTransaction)}
    {vtx vtx' : List CTransaction} (h : placeMissing missing vtx = some vtx') {p : ℕ}
    (hp : 2 ^ 16 ≤ p) : vtx'[p]? = vtx[p]? := by
  induction missing generalizing vtx with
  | nil => rw [Option.some.inj h]
  | cons m missing ih =>
    obtain ⟨idx, tx⟩ := m
    have hlt := idx.toNat_lt
    rw [placeMissing] at h
    split_ifs at h
    rw [ih h, getElem?_set_ne (by omega)]

end Missing

section Answer

variable {R : RelayEnv} {mempool : List CTransaction} {pending : PendingBlocks}
  {blocks : Uint256 → Option CBlock} {nonce : UInt64} {block : CBlock}

def request (R : RelayEnv) (block : CBlock) (mempool : List CTransaction) :
    BlockTransactionsRequest :=
  ⟨block.getHash R.crypto, (missing block mempool).map UInt16.ofNat⟩

def response (R : RelayEnv) (block : CBlock) (mempool : List CTransaction) : BlockTransactions :=
  ⟨block.getHash R.crypto, (block.vtx.drop block.prefillCount).filter (· ∉ mempool)⟩

def partialBlock (R : RelayEnv) (nonce : UInt64) (block : CBlock) (mempool : List CTransaction) :
    PartiallyDownloadedBlock :=
  ⟨ofBlock R nonce block, filled block mempool, (missing block mempool).map UInt16.ofNat⟩

theorem length_response_le (hwire : block.OnWire) :
    (response R block mempool).txn.length ≤ Reader.maxSize :=
  ((length_filter_le _ _).trans (by simp)).trans hwire.length_vtx

theorem read_request (hwire : block.OnWire) (hmissing : ∀ p ∈ missing block mempool, p < 2 ^ 16) :
    BlockTransactionsRequest.read (request R block mempool).serialize =
      some (request R block mempool, []) := by
  have hpairwise : (request R block mempool).indexes.Pairwise (· < ·) := by
    refine pairwise_map.2 ((pairwise_missingFrom _ _ _).imp_of_mem fun hp hq hlt ↦ ?_)
    rwa [UInt16.lt_iff_toNat_lt, UInt16.toNat_ofNat_of_lt' (hmissing _ hp),
      UInt16.toNat_ofNat_of_lt' (hmissing _ hq)]
  have hsize : (request R block mempool).indexes.length ≤ Reader.maxSize := by
    rw [request, length_map, missing, length_missingFrom]
    exact length_response_le (R := R) hwire
  have h := BlockTransactionsRequest.read_serialize_append hpairwise hsize []
  rwa [append_nil] at h

theorem onGetBlockTxn_request (hblocks : blocks (block.getHash R.crypto) = some block)
    (hmissing : ∀ p ∈ missing block mempool, p < 2 ^ 16) :
    onGetBlockTxn blocks (request R block mempool) = some (response R block mempool) := by
  have hmapM := mapM_missingFrom hmissing (block.vtx.take block.prefillCount) rfl
  rw [take_append_drop] at hmapM
  show (blocks (block.getHash R.crypto)).bind _ = _
  rw [hblocks, Option.bind_some]
  show (Option.bind (((missing block mempool).map UInt16.ofNat).mapM _) _) = _
  rw [missing, hmapM]
  rfl

theorem read_response (hwire : block.OnWire) : BlockTransactions.read (response R block mempool).serialize =
      some (response R block mempool, []) := by
  have htxn (tx : CTransaction) (htx : tx ∈ (response R block mempool).txn) : tx.OnWire :=
    hwire.vtx tx (mem_of_mem_drop (mem_of_mem_filter htx))
  have h := BlockTransactions.read_serialize_append htxn (length_response_le hwire) []
  rwa [append_nil] at h

theorem onBlockTxn_response (hwire : block.OnWire) (hmissing : ∀ p ∈ missing block mempool, p < 2 ^ 16)
    (hpending : pending[block.getHash R.crypto]? = some (partialBlock R nonce block mempool)) :
    (onBlockTxn pending (response R block mempool)).2 = [.processNewBlock block] := by
  have hplace := placeMissing_missingFrom hmissing (block.vtx.take block.prefillCount) rfl
  rw [take_append_drop] at hplace
  have hlength : (response R block mempool).txn.length =
      (partialBlock R nonce block mempool).missing_indexes.length := by
    rw [partialBlock, length_map, missing, length_missingFrom]
    rfl
  have hget : pending[(response R block mempool).blockhash]? =
      some (partialBlock R nonce block mempool) := hpending
  have hplace' : placeMissing ((partialBlock R nonce block mempool).missing_indexes.zip
      (response R block mempool).txn) (partialBlock R nonce block mempool).vtx = some block.vtx := hplace
  simp only [onBlockTxn, hget, hlength, ne_eq, not_true, if_false, hplace']
  rw [partialBlock, toBlock_ofBlock hwire]

end Answer

/-! ### The exchange of messages -/

def answer (blocks : Uint256 → Option CBlock) (req : BlockTransactionsRequest) :
    Option BlockTransactions := do
  let (req, _) ← BlockTransactionsRequest.read req.serialize
  let resp ← onGetBlockTxn blocks req
  let (resp, _) ← BlockTransactions.read resp.serialize
  return resp

def answered (blocks : Uint256 → Option CBlock) (pending : PendingBlocks)
    (req : BlockTransactionsRequest) : List CBlock :=
  (answer blocks req).elim [] fun resp ↦ (onBlockTxn pending resp).2.filterMap Action.block?

/-- A peer with the given blocks sends one of them as a compact block. The blocks that the receiver
calls `ProcessNewBlock` with. -/
def exchange (R : RelayEnv) (V : NodeView) (pending : PendingBlocks)
    (blocks : Uint256 → Option CBlock) (nonce : UInt64) (block : CBlock) : List CBlock :=
  (CBlockHeaderAndShortTxIDs.read (ofBlock R nonce block).serialize).elim [] fun (cmpct, _) ↦
    let received := onCompactBlock R V pending cmpct
    received.2.filterMap Action.block? ++
      (received.2.filterMap Action.request?).flatMap (answered blocks received.1)

section Exchange

variable {R : RelayEnv} {V : NodeView} {pending : PendingBlocks} {blocks : Uint256 → Option CBlock}
  {nonce : UInt64} {block : CBlock}

theorem getElem?_insert_pending (pending : PendingBlocks) (hash : Uint256)
    (pdb : PartiallyDownloadedBlock) :
    ((evictFirst pending).insert hash pdb)[hash]? = some pdb := by
  simp

theorem answered_eq (hwire : block.OnWire) (hblocks : blocks (block.getHash R.crypto) = some block)
    (hmissing : ∀ p ∈ missing block V.mempool, p < 2 ^ 16)
    (hpending : pending[block.getHash R.crypto]? = some (partialBlock R nonce block V.mempool)) :
    answered blocks pending (request R block V.mempool) = [block] := by
  simp only [answered, answer, read_request hwire hmissing, onGetBlockTxn_request hblocks hmissing,
    read_response hwire, Option.bind_eq_bind, Option.bind_some, Option.pure_def, Option.elim_some,
    onBlockTxn_response hwire hmissing hpending]
  rfl

variable {req : BlockTransactionsRequest}

theorem blockhash_of_read_request {req' : BlockTransactionsRequest} {rest : Bytes}
    (h : BlockTransactionsRequest.read req.serialize = some (req', rest)) :
    req'.blockhash = req.blockhash := by
  obtain ⟨diffs, s, hhash, -⟩ := BlockTransactionsRequest.read_eq_some_iff.1 h
  rw [BlockTransactionsRequest.serialize_eq, readUint256_append] at hhash
  exact (Prod.mk.inj (Option.some.inj hhash)).1.symm

theorem blockhash_of_read_response {resp resp' : BlockTransactions} {rest : Bytes}
    (h : BlockTransactions.read resp.serialize = some (resp', rest)) :
    resp'.blockhash = resp.blockhash := by
  rw [BlockTransactions.read, BlockTransactions.serialize, bind_of_eq_some (readUint256_append _ _)] at h
  obtain ⟨txn, s, -, h⟩ := bind_eq_some_iff.1 h
  obtain ⟨rfl, -⟩ := Prod.mk.inj (Option.some.inj h)
  rfl

theorem exists_vtx_of_mem_answered {pdb : PartiallyDownloadedBlock}
    (hpending : pending[req.blockhash]? = some pdb) (h : block ∈ answered blocks pending req) :
    ∃ vtx, block = pdb.cmpct.toBlock vtx ∧ ∀ p, 2 ^ 16 ≤ p → vtx[p]? = pdb.vtx[p]? := by
  rw [answered] at h
  cases hanswer : answer blocks req with
  | none => simp [hanswer] at h
  | some resp =>
    rw [hanswer, Option.elim_some] at h
    simp only [answer, Option.bind_eq_bind, Option.bind_eq_some_iff] at hanswer
    obtain ⟨⟨req', rest⟩, hreq, resp', hresp', ⟨resp'', rest'⟩, hread, heq⟩ := hanswer
    obtain rfl := Option.some.inj heq
    -- all messages are about one block
    have hhash : resp''.blockhash = req.blockhash := by
      simp only [onGetBlockTxn, Option.bind_eq_bind, Option.bind_eq_some_iff] at hresp'
      obtain ⟨_, -, _, -, heq'⟩ := hresp'
      rw [blockhash_of_read_response hread, ← Option.some.inj heq']
      exact blockhash_of_read_request hreq
    rw [← hhash] at hpending
    simp only [onBlockTxn, hpending] at h
    split_ifs at h with hlength
    · simp [Action.block?] at h
    · cases hplace : placeMissing (pdb.missing_indexes.zip resp''.txn) pdb.vtx with
      | none => simp [hplace] at h
      | some vtx =>
        rw [hplace] at h
        refine ⟨vtx, ?_, fun p hp ↦ getElem?_of_placeMissing hplace hp⟩
        simpa [Action.block?] using h

theorem getElem?_filled {mempool : List CTransaction} {i : ℕ} {tx : CTransaction}
    (hi : block.prefillCount ≤ i) (htx : block.vtx[i]? = some tx) (hmem : tx ∉ mempool) :
    (filled block mempool)[i]? = some .empty := by
  have hlt := (List.getElem?_eq_some_iff.1 htx).1
  have hlength : (block.vtx.take block.prefillCount).length = block.prefillCount :=
    length_take_of_le (by omega)
  rw [filled, getElem?_append_right (by omega), hlength, getElem?_map, getElem?_drop,
    Nat.add_sub_cancel' hi, htx, Option.map_some, if_neg hmem]

section

variable (hwire : block.OnWire) (hnull : ∀ tx ∈ block.vtx, tx.isNull = false)
  (hsize : block.vtx.length ≤ maxCompactTransactions) (hfree : CollisionFree R nonce block V.mempool)

include hwire hnull hsize hfree

theorem onCompactBlock_ofBlock (pending : PendingBlocks) :
    onCompactBlock R V pending (ofBlock R nonce block) =
      if V.mapBlockIndex (block.getHash R.crypto) then (pending, [])
      else if !V.mapBlockIndex block.hashPrevBlock then
        (pending, [.getHeaders (block.getHash R.crypto)])
      else if missing block V.mempool = [] then (pending, [.processNewBlock block])
      else
        ((evictFirst pending).insert (block.getHash R.crypto)
          (partialBlock R nonce block V.mempool), [.getBlockTxn (request R block V.mempool)]) := by
  have hlength : ¬maxCompactTransactions < (ofBlock R nonce block).prefilledtxn.length +
      (ofBlock R nonce block).shorttxids.length := by
    rw [shorttxids_eq, ofBlock, prefillFrom_eq, length_map, length_map, length_take, length_drop]
    omega
  simp only [onCompactBlock, header_ofBlock hwire, hlength, if_false, toBlock_ofBlock hwire,
    fill_ofBlock hwire hnull V.nodup_mempool hfree, List.isEmpty_map, List.isEmpty_iff,
    show block.toCBlockHeader.getHash R.crypto = block.getHash R.crypto from rfl]
  by_cases hmissing : missing block V.mempool = []
  · rw [if_pos hmissing, if_pos hmissing, filled_eq hmissing]
  · rw [if_neg hmissing, if_neg hmissing]
    rfl

theorem exchange_eq (pending : PendingBlocks) (blocks : Uint256 → Option CBlock) :
    exchange R V pending blocks nonce block =
      if V.mapBlockIndex (block.getHash R.crypto) || !V.mapBlockIndex block.hashPrevBlock then []
      else if missing block V.mempool = [] then [block]
      else answered blocks
        ((evictFirst pending).insert (block.getHash R.crypto) (partialBlock R nonce block V.mempool))
        (request R block V.mempool) := by
  have hread := read_serialize_ofBlock R nonce hwire []
  rw [append_nil] at hread
  rw [exchange, hread, Option.elim_some]
  simp only [onCompactBlock_ofBlock hwire hnull hsize hfree pending]
  cases V.mapBlockIndex (block.getHash R.crypto) with
  | true => rfl
  | false =>
    cases V.mapBlockIndex block.hashPrevBlock with
    | false => rfl
    | true => by_cases hmissing : missing block V.mempool = [] <;>
        simp [hmissing, Action.block?, Action.request?]

theorem mem_mempool_of_exchange (h : exchange R V pending blocks nonce block = [block]) :
    ∀ i tx, 65536 ≤ i → block.vtx[i]? = some tx → tx ∈ V.mempool := by
  intro i tx hi htx
  by_contra hmem
  have hcount : block.prefillCount ≤ i := by
    rw [CBlock.prefillCount]
    split_ifs <;> omega
  have hmissing : missing block V.mempool ≠ [] :=
    ne_nil_of_mem (mem_missing.2 ⟨tx, hcount, htx, hmem⟩)
  rw [exchange_eq hwire hnull hsize hfree, if_neg hmissing] at h
  split_ifs at h
  have hpending := getElem?_insert_pending pending (request R block V.mempool).blockhash
    (partialBlock R nonce block V.mempool)
  obtain ⟨vtx, hblock, hvtx⟩ :=
    exists_vtx_of_mem_answered hpending (h ▸ mem_singleton_self block)
  -- the place of the transaction is still empty
  rw [partialBlock, toBlock_ofBlock hwire] at hblock
  have hvtx' : block.vtx = vtx := congrArg CBlock.vtx hblock
  have hget := hvtx i hi
  rw [partialBlock, getElem?_filled hcount htx hmem, ← hvtx', htx] at hget
  have hempty := hnull tx (mem_of_getElem? htx)
  rw [Option.some.inj hget] at hempty
  cases hempty

end

/-- **Compact blocks are reconstructed**: a peer that sends a block it holds makes the receiver
call `ProcessNewBlock` with this block exactly if the block is new to the receiver and its parent is
not, and the receiver has the transactions that 16 bits cannot ask for. -/
theorem exchange_eq_iff (hwire : block.OnWire) (hnull : ∀ tx ∈ block.vtx, tx.isNull = false)
    (hsize : block.vtx.length ≤ maxCompactTransactions)
    (hfree : CollisionFree R nonce block V.mempool)
    (hblocks : blocks (block.getHash R.crypto) = some block) :
    exchange R V pending blocks nonce block = [block] ↔ V.mapBlockIndex (block.getHash R.crypto) = false ∧
        V.mapBlockIndex block.hashPrevBlock = true ∧
        ∀ i tx, 65536 ≤ i → block.vtx[i]? = some tx → tx ∈ V.mempool := by
  have hexchange := exchange_eq hwire hnull hsize hfree pending blocks
  constructor
  · intro h
    have hmem := mem_mempool_of_exchange hwire hnull hsize hfree h
    rw [h] at hexchange
    split_ifs at hexchange with hknown
    all_goals
      simp only [Bool.or_eq_true, Bool.not_eq_true', not_or, Bool.not_eq_true, Bool.not_eq_false] at hknown
      exact ⟨hknown.1, hknown.2, hmem⟩
  · rintro ⟨hnew, hparent, hmem⟩
    have hmissing (p : ℕ) (hp : p ∈ missing block V.mempool) : p < 2 ^ 16 := by
      obtain ⟨tx, -, htx, hnot⟩ := mem_missing.1 hp
      by_contra hge
      exact hnot (hmem p tx (not_lt.1 hge) htx)
    rw [hexchange, hnew, hparent]
    by_cases hnone : missing block V.mempool = []
    · rw [if_neg (by simp), if_pos hnone]
    · rw [if_neg (by simp), if_neg hnone]
      exact answered_eq hwire hblocks hmissing (getElem?_insert_pending _ _ _)

end Exchange

/-! ### Blocks of numbered transactions -/

/-- A hash that can be read, and short identifiers that are the beginning of it. -/
def readableEnv : RelayEnv where
  crypto := { (default : Crypto) with hash := fun bs ↦ BitVec.ofNat 256 (Reader.leToNat bs) }
  sipHash := fun _ _ h ↦ UInt64.ofNat h.toNat

def numberedTx (i : ℕ) : CTransaction := ⟨i, [], [⟨0, []⟩], 0⟩

def numberedBlock (n : ℕ) : CBlock where
  nVersion := 1
  hashPrevBlock := 0
  hashMerkleRoot := 0
  nTime := 0
  nBits := 0
  nNonce := 0
  vtx := (List.range n).map numberedTx

/-- A node that knows the parent only and has no transactions. -/
def emptyView : NodeView where
  mapBlockIndex := fun hash ↦ hash == 0
  mempool := []
  nodup_mempool := nodup_nil

theorem toNat_shortID_numberedTx {i : ℕ} (hi : i < 2 ^ 32) (header : CBlockHeader) (nonce : UInt64) :
    (getShortID readableEnv header nonce ((numberedTx i).getHash readableEnv.crypto)).toNat % 2 ^ 32 =
      i := by
  have hserialize : ∃ rest, (numberedTx i).serialize = Reader.natToLE 4 i ++ rest := by
    have hversion : Writer.int 4 (numberedTx i).nVersion = Reader.natToLE 4 i := by
      have hmod : ((i : ℤ) % 256 ^ 4).toNat = i := by omega
      rw [numberedTx, Writer.int, hmod]
    rw [CTransaction.serialize, hversion, append_assoc, append_assoc]
    exact ⟨_, rfl⟩
  obtain ⟨rest, hrest⟩ := hserialize
  have hmask : (0x0000ffffffffffff : UInt64).toNat = 2 ^ 48 - 1 := rfl
  have hhash : ((numberedTx i).getHash readableEnv.crypto).toNat =
      (Reader.leToNat (Reader.natToLE 4 i ++ rest)) % 2 ^ 256 := by
    rw [CTransaction.getHash, hrest]
    exact BitVec.toNat_ofNat _ _
  have hbytes : Reader.leToNat (Reader.natToLE 4 i ++ rest) = i + 2 ^ 32 * Reader.leToNat rest := by
    rw [CScriptNum.leToNat_append, leToNat_natToLE, length_natToLE, Nat.mod_eq_of_lt (by omega)]
    rfl
  show ((UInt64.ofNat ((numberedTx i).getHash readableEnv.crypto).toNat) &&&
    0x0000ffffffffffff).toNat % 2 ^ 32 = i
  rw [UInt64.toNat_and, hmask, Nat.and_two_pow_sub_one_eq_mod, UInt64.toNat_ofNat', hhash, hbytes]
  omega

variable {n : ℕ}

theorem onWire_numberedBlock (hn : n ≤ maxCompactTransactions) : (numberedBlock n).OnWire where
  header :=
    { nVersion := show FitsBytes 4 1 by decide
      nAccumulatorCheckpoint := fun _ ↦ rfl
      length_vAdamMiners := Nat.zero_le _
      length_vAdamSolutions := Nat.zero_le _
      vAdamSolutions := nofun
      vAdamVRFProof := Nat.zero_le _
      vAdamCoordinatorSig := Nat.zero_le _
      vQuorumSig := Nat.zero_le _
      noAdam := fun _ ↦ ⟨rfl, rfl, rfl, rfl⟩
      noQuorum := fun _ ↦ rfl }
  length_vtx := by
    simp only [numberedBlock, length_map, length_range]
    exact hn.trans (by decide)
  vtx := by
    intro tx htx
    obtain ⟨i, hi, rfl⟩ := mem_map.1 htx
    have hlt : i < maxCompactTransactions := (mem_range.1 hi).trans_le hn
    have hmax : maxCompactTransactions = 133333 := rfl
    exact
      { nVersion := by simp only [FitsBytes, numberedTx]; omega
        length_vin := Nat.zero_le _
        vin := nofun
        length_vout := show 1 ≤ Reader.maxSize by decide
        vout := fun out hout ↦ by
          obtain rfl := mem_singleton.1 hout
          exact ⟨by decide, Nat.zero_le _⟩ }
  vchBlockSig := Nat.zero_le _
  noBlockSig := fun _ ↦ rfl
  fChecked := rfl

theorem isNull_numberedBlock : ∀ tx ∈ (numberedBlock n).vtx, tx.isNull = false := by
  intro tx htx
  obtain ⟨i, -, rfl⟩ := mem_map.1 htx
  rfl

theorem collisionFree_numberedBlock (hn : n ≤ maxCompactTransactions) (nonce : UInt64) :
    CollisionFree readableEnv nonce (numberedBlock n) emptyView.mempool := by
  have hmax : maxCompactTransactions = 133333 := rfl
  have hnumber (tx : CTransaction) (htx : tx ∈ (numberedBlock n).vtx ++ emptyView.mempool) :
      ∃ i < 2 ^ 32, numberedTx i = tx := by
    rw [show emptyView.mempool = [] from rfl, append_nil] at htx
    obtain ⟨i, hi, rfl⟩ := mem_map.1 htx
    exact ⟨i, by have := mem_range.1 hi; omega, rfl⟩
  intro tx htx tx' htx' h
  obtain ⟨i, hi, rfl⟩ := hnumber tx htx
  obtain ⟨i', hi', rfl⟩ := hnumber tx' htx'
  have hnat := congrArg (fun sid ↦ sid.toNat % 2 ^ 32) h
  simp only [toNat_shortID_numberedTx hi, toNat_shortID_numberedTx hi'] at hnat
  rw [hnat]

/-- Three transactions of which two have to be asked for arrive. -/
theorem exchange_numberedBlock_three :
    exchange readableEnv emptyView ∅ (fun _ ↦ some (numberedBlock 3)) 0 (numberedBlock 3) =
      [numberedBlock 3] :=
  (exchange_eq_iff (onWire_numberedBlock (by decide)) isNull_numberedBlock (by decide)
    (collisionFree_numberedBlock (by decide) 0) rfl).2
    ⟨by decide +kernel, by decide +kernel, fun i tx hi htx ↦ by
      have hlt := (List.getElem?_eq_some_iff.1 htx).1
      simp [numberedBlock] at hlt
      omega⟩

/-- Of 65537 transactions, which a compact block may have, the last one is not asked for. -/
theorem exchange_numberedBlock_many : (numberedBlock 65537).vtx.length ≤ maxCompactTransactions ∧
      emptyView.mapBlockIndex ((numberedBlock 65537).getHash readableEnv.crypto) = false ∧
      emptyView.mapBlockIndex (numberedBlock 65537).hashPrevBlock = true ∧
      exchange readableEnv emptyView ∅ (fun _ ↦ some (numberedBlock 65537)) 0 (numberedBlock 65537) ≠
        [numberedBlock 65537] := by
  have hsize : (numberedBlock 65537).vtx.length ≤ maxCompactTransactions := by
    simp [numberedBlock, maxCompactTransactions]
  refine ⟨hsize, by decide +kernel, by decide +kernel, fun h ↦ ?_⟩
  refine not_mem_nil (mem_mempool_of_exchange (onWire_numberedBlock (by decide))
    isNull_numberedBlock hsize (collisionFree_numberedBlock (by decide) 0) h 65536
    (numberedTx 65536) le_rfl ?_)
  simp [numberedBlock]

end KristaTech
