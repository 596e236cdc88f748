import KristaTech.Relay.Reconstruction

/-!
# Compact blocks and other peers

Blocks that wait for transactions are kept under their hash, whoever sent them, and the hash does not
cover the signatures in the header. While a peer answers the node's request, messages of others for
the same block reach the same entry: a compact block replaces it, a list of transactions uses it up.

The answer leads to the block if the others send copies of this block only and no transactions
(`delivered_of_undisturbed`). One list of transactions, even an empty one, is enough to lose the
block (`not_delivered_of_blockTxn`).
-/

namespace KristaTech

open CBlockHeaderAndShortTxIDs List

inductive RelayMessage
  | cmpctBlock (cmpct : CBlockHeaderAndShortTxIDs)
  | blockTxn (resp : BlockTransactions)

variable (R : RelayEnv)

/-- `ProcessMessage` for the two messages. -/
def onMessage (V : NodeView) (pending : PendingBlocks) : RelayMessage → PendingBlocks × List Action
  | .cmpctBlock cmpct => onCompactBlock R V pending cmpct
  | .blockTxn resp => onBlockTxn pending resp

/-- The node does not keep a compact block: it knows the block, does not know its parent, refuses what
was sent, or has all of its transactions. -/
def NotKept (V : NodeView) (cmpct : CBlockHeaderAndShortTxIDs) : Prop :=
  V.mapBlockIndex (cmpct.header.getHash R.crypto) = true ∨
    V.mapBlockIndex cmpct.header.hashPrevBlock = false ∨
    maxCompactTransactions < cmpct.prefilledtxn.length + cmpct.shorttxids.length ∨
    ∀ vtx missing, cmpct.fill R V.mempool = some (vtx, missing) → missing = []

variable {R} in
theorem onCompactBlock_of_notKept {V : NodeView} {cmpct : CBlockHeaderAndShortTxIDs}
    (h : NotKept R V cmpct) (pending : PendingBlocks) :
    (onCompactBlock R V pending cmpct).1 = pending := by
  simp only [onCompactBlock]
  split_ifs with hknown hparent hmany
  · rfl
  · rfl
  · rfl
  · have hfill := ((h.resolve_left hknown).resolve_left (by simpa using hparent)).resolve_left hmany
    cases hcases : cmpct.fill R V.mempool with
    | none => rfl
    | some filled => simp [hfill filled.1 filled.2 hcases]

/-- What messages leave pending, each one received in a state of the node. -/
def receiveAll (pending : PendingBlocks) (ms : List (NodeView × RelayMessage)) : PendingBlocks :=
  ms.foldl (fun pending p ↦ (onMessage R p.1 pending p.2).1) pending

/-- A peer sends a block that the node has to ask transactions of. -/
structure CompactDelivery where
  block : CBlock
  nonce : UInt64
  /-- The node when it receives the compact block. -/
  view : NodeView
  /-- What is pending then. -/
  pending : PendingBlocks
  onWire : block.OnWire
  isNull : ∀ tx ∈ block.vtx, tx.isNull = false
  length_vtx : block.vtx.length ≤ maxCompactTransactions
  new : view.mapBlockIndex (block.getHash R.crypto) = false
  parent : view.mapBlockIndex block.hashPrevBlock = true
  collisionFree : CollisionFree R nonce block view.mempool
  missing : CBlockHeaderAndShortTxIDs.missing block view.mempool ≠ []

namespace CompactDelivery

variable {R} (D : CompactDelivery R)

def sent : PendingBlocks := (onCompactBlock R D.view D.pending (ofBlock R D.nonce D.block)).1

/-- **The answer leads to the block**: after messages of others, `ProcessNewBlock` is called with the
block when the peer has answered. -/
def Delivered (ms : List (NodeView × RelayMessage)) : Prop :=
  (onBlockTxn (receiveAll R D.sent ms) (response R D.block D.view.mempool)).2 = [.processNewBlock D.block]

/-- A message of another peer for the block is harmless: a compact block that the node does not keep,
or one that was made of the same block, with the same of its transactions in the mempool. -/
def Harmless (p : NodeView × RelayMessage) : Prop :=
  match p.2 with
  | .blockTxn _ => False
  | .cmpctBlock cmpct =>
    NotKept R p.1 cmpct ∨
      ∃ nonce, cmpct = ofBlock R nonce D.block ∧ CollisionFree R nonce D.block p.1.mempool ∧
        ∀ tx ∈ D.block.vtx, tx ∈ p.1.mempool ↔ tx ∈ D.view.mempool

/-- The entry of the block is the one that the answer completes. -/
def Waiting (pending : PendingBlocks) : Prop :=
  ∃ nonce, pending[D.block.getHash R.crypto]? = some (partialBlock R nonce D.block D.view.mempool)

variable {D} {pending : PendingBlocks}

theorem waiting_sent : D.Waiting D.sent := by
  refine ⟨D.nonce, ?_⟩
  rw [sent, onCompactBlock_ofBlock D.onWire D.isNull D.length_vtx D.collisionFree, D.new, D.parent,
    if_neg Bool.false_ne_true, if_neg (by simp), if_neg D.missing]
  exact getElem?_insert_pending _ _ _

/-- What is missing and what is there depends on the block's transactions in the mempool only. -/
theorem partialBlock_congr (R : RelayEnv) (nonce : UInt64) {block : CBlock}
    {mempool mempool' : List CTransaction}
    (h : ∀ tx ∈ block.vtx, tx ∈ mempool ↔ tx ∈ mempool') :
    partialBlock R nonce block mempool = partialBlock R nonce block mempool' ∧
      CBlockHeaderAndShortTxIDs.missing block mempool =
        CBlockHeaderAndShortTxIDs.missing block mempool' := by
  have hmissing (i : ℕ) (txs : List CTransaction) (htxs : txs ⊆ block.vtx) :
      missingFrom mempool i txs = missingFrom mempool' i txs := by
    induction txs generalizing i with
    | nil => rfl
    | cons tx txs ih =>
      obtain ⟨htx, htxs⟩ := cons_subset.1 htxs
      rw [missingFrom, missingFrom, ih (i + 1) htxs]
      simp only [h tx htx]
  have hmissing := hmissing (block.vtx.take block.prefillCount).length
    (block.vtx.drop block.prefillCount) (drop_subset _ _)
  have hfilled : filled block mempool = filled block mempool' := by
    rw [filled, filled]
    refine congrArg (block.vtx.take block.prefillCount ++ ·) (map_congr_left fun tx htx ↦ ?_)
    simp only [h tx (mem_of_mem_drop htx)]
  refine ⟨?_, hmissing⟩
  rw [partialBlock, partialBlock, hfilled, CBlockHeaderAndShortTxIDs.missing, hmissing]
  rfl

/-- **A harmless message** leaves the block waiting. -/
theorem Waiting.onMessage {p : NodeView × RelayMessage} (h : D.Waiting pending)
    (hp : D.Harmless p) : D.Waiting (onMessage R p.1 pending p.2).1 := by
  obtain ⟨V, cmpct | resp⟩ := p
  · show D.Waiting (onCompactBlock R V pending cmpct).1
    rcases hp with hnot | ⟨nonce, rfl, hfree, hmempool⟩
    · rwa [onCompactBlock_of_notKept hnot]
    · obtain ⟨hpdb, hmissing⟩ := partialBlock_congr R nonce hmempool
      rw [onCompactBlock_ofBlock D.onWire D.isNull D.length_vtx hfree, hmissing,
        if_neg D.missing, hpdb]
      split_ifs
      · exact h
      · exact h
      · exact ⟨nonce, getElem?_insert_pending _ _ _⟩
  · exact hp.elim

theorem Waiting.receiveAll {ms : List (NodeView × RelayMessage)} (h : D.Waiting pending)
    (hms : ∀ p ∈ ms, D.Harmless p) : D.Waiting (receiveAll R pending ms) := by
  induction ms generalizing pending with
  | nil => exact h
  | cons p ms ih =>
    obtain ⟨hp, hms⟩ := forall_mem_cons.1 hms
    exact ih (h.onMessage hp) hms

variable (D) in
/-- **A block is delivered undisturbed**: if its missing transactions can be asked for, and other
peers send harmless messages for it only, then the answer leads to the block. -/
theorem delivered_of_undisturbed (ms : List (NodeView × RelayMessage)) (hms : ∀ p ∈ ms, D.Harmless p)
    (hmissing : ∀ i tx, 65536 ≤ i → D.block.vtx[i]? = some tx → tx ∈ D.view.mempool) :
    D.Delivered ms := by
  obtain ⟨nonce, hwaiting⟩ := waiting_sent.receiveAll hms
  refine onBlockTxn_response D.onWire (fun p hp ↦ ?_) hwaiting
  obtain ⟨tx, -, htx, hmem⟩ := mem_missing.1 hp
  by_contra hge
  exact hmem (hmissing p tx (not_lt.1 hge) htx)

/-- **A list of transactions uses up the entry**, whatever it is. -/
theorem onBlockTxn_twice (pending : PendingBlocks) (resp resp' : BlockTransactions)
    (h : resp'.blockhash = resp.blockhash) :
    (onBlockTxn (onBlockTxn pending resp).1 resp').2 = [] := by
  have hnone : (onBlockTxn pending resp).1[resp'.blockhash]? = none := by
    rw [h, onBlockTxn]
    cases hget : pending[resp.blockhash]? with
    | none => exact hget
    | some pdb =>
      simp only
      split_ifs
      · simp
      · split <;> simp
  rw [onBlockTxn, hnone]

variable (D) in
/-- **Transactions of another peer lose the block**, if they are the last message before the answer. -/
theorem not_delivered_of_blockTxn (ms : List (NodeView × RelayMessage)) (V : NodeView)
    (resp : BlockTransactions) (h : resp.blockhash = D.block.getHash R.crypto) :
    ¬ D.Delivered (ms ++ [(V, .blockTxn resp)]) := by
  intro hdelivered
  rw [Delivered, receiveAll, foldl_append] at hdelivered
  have hlost := onBlockTxn_twice (receiveAll R D.sent ms) resp (response R D.block D.view.mempool) h.symm
  exact cons_ne_nil _ _ (hdelivered.symm.trans hlost)

end CompactDelivery

/-! ### Three transactions -/

/-- A block with three transactions is sent to a node that has none. -/
def numberedDelivery : CompactDelivery readableEnv where
  block := numberedBlock 3
  nonce := 0
  view := emptyView
  pending := ∅
  onWire := onWire_numberedBlock (by decide)
  isNull := isNull_numberedBlock
  length_vtx := by decide
  new := by decide +kernel
  parent := by decide
  collisionFree := collisionFree_numberedBlock (by decide) 0
  missing := by decide

/-- Another peer sends the same block, with another nonce. -/
theorem delivered_numberedDelivery : numberedDelivery.Delivered
      [(emptyView, .cmpctBlock (ofBlock readableEnv 1 (numberedBlock 3)))] := by
  refine numberedDelivery.delivered_of_undisturbed _ (fun p hp ↦ ?_) fun i tx hi htx ↦ ?_
  · obtain rfl := mem_singleton.1 hp
    exact Or.inr ⟨1, rfl, collisionFree_numberedBlock (by decide) 1, fun _ _ ↦ Iff.rfl⟩
  · have hlt := (List.getElem?_eq_some_iff.1 htx).1
    simp only [numberedDelivery, numberedBlock, length_map, length_range] at hlt
    omega

/-- Another peer sends an empty list of transactions. -/
theorem not_delivered_numberedDelivery : ¬ numberedDelivery.Delivered
      [(emptyView, .blockTxn ⟨(numberedBlock 3).getHash readableEnv.crypto, []⟩)] :=
  numberedDelivery.not_delivered_of_blockTxn [] emptyView _ rfl

end KristaTech
