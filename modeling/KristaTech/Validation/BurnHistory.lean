import KristaTech.Validation.Supply

/-!
# The burns of a chain

The burn cache of a node that connects and disconnects blocks is made by single additions and
removals. The undo data of a block tell which burns it has made: a burn is on the account of the first
address of the first coin that its transaction spent (`Link.burns`). Connecting a block adds exactly
these (`ConnectCall.OnTip.adds_burns`) and disconnecting it removes them, since the coins that
were put back are those of the undo data (`Link.Recorded.removes_burns`). So a node that started with
an empty cache at the genesis block has for every address the burns of its chain, in their order
(`Unbroken.books`).
-/

namespace KristaTech

open CCoinsViewCache List

variable (E : ValidationEnv)

/-! ### The burns of a block -/

def txBurn (nHeight : ℤ) (tx : CTransaction) (undo : CTxUndo) : Option BurnCache.Entry :=
  if spendsCoins E.crypto tx then burnOf E tx nHeight (undo.head?.map (·.out.scriptPubKey)) else none

def txBurns (nHeight : ℤ) (txs : List (CTransaction × CTxUndo)) : List BurnCache.Entry :=
  txs.filterMap fun p ↦ txBurn E nHeight p.1 p.2

/-- The transactions of a block with their undo data; the first one has none. -/
def Link.txs (link : Link) : List (CTransaction × CTxUndo) := link.block.vtx.zip ([] :: link.blockundo)

def Link.burns (link : Link) : List BurnCache.Entry := txBurns E link.pindex.nHeight link.txs

def chainBurns : List Link → List BurnCache.Entry
  | [] => []
  | link :: links => chainBurns links ++ link.burns E

/-- What is known of a block that was connected: its undo data can be put back. -/
structure Link.Recorded (link : Link) : Prop where
  form : FormChecked E link.block
  undo : ∃ undos, List.Forall₂ (KristaTech.Recorded E.crypto) link.block.vtx undos ∧
    link.blockundo = undos.tail
  nonneg : ∀ tx ∈ link.block.vtx, ∀ out ∈ tx.vout, 0 ≤ out.nValue

variable {E}

theorem txBurns_cons (nHeight : ℤ) (p : CTransaction × CTxUndo) (txs : List (CTransaction × CTxUndo)) :
    txBurns E nHeight (p :: txs) = (txBurn E nHeight p.1 p.2).toList ++ txBurns E nHeight txs := by
  rw [txBurns, filterMap_cons, txBurns]
  cases txBurn E nHeight p.1 p.2 <;> rfl

variable {e : BurnCache.Entry} {link : Link} {links : List Link} {view : CCoinsViewCache}

theorem eq_of_burnOf {tx : CTransaction} {nHeight : ℤ} {prevScript : Option CScript}
    (h : burnOf E tx nHeight prevScript = some e) :
    e.2 = ⟨(burnValues E tx nHeight).sum, nHeight⟩ := by
  simp only [burnOf, Option.bind_eq_bind, Option.bind_eq_some_iff, Option.pure_def, Option.some.injEq] at h
  obtain ⟨_, _, _, _, _, -, rfl⟩ := h
  rfl

theorem Link.exists_of_mem_burns (h : e ∈ link.burns E) :
    ∃ tx ∈ link.block.vtx, e.2 = ⟨(burnValues E tx link.pindex.nHeight).sum, link.pindex.nHeight⟩ := by
  obtain ⟨p, hp, hburn⟩ := mem_filterMap.1 h
  rw [txBurn] at hburn
  split_ifs at hburn
  exact ⟨p.1, (of_mem_zip hp).1, eq_of_burnOf hburn⟩

theorem Link.nHeight_of_mem_burns (h : e ∈ link.burns E) : e.2.nHeight = link.pindex.nHeight := by
  obtain ⟨_, -, he⟩ := Link.exists_of_mem_burns h
  rw [he]

theorem Link.Recorded.nonneg_of_mem_burns (hlink : link.Recorded E) (h : e ∈ link.burns E) :
    0 ≤ e.2.nAmount := by
  obtain ⟨tx, htx, he⟩ := Link.exists_of_mem_burns h
  rw [he]
  refine sum_nonneg fun v hv ↦ ?_
  obtain ⟨out, hout, hv⟩ := mem_flatMap.1 hv
  obtain ⟨_, -, rfl⟩ := mem_map.1 hv
  exact hlink.nonneg tx htx out hout

theorem nonneg_of_mem_chainBurns (hlinks : ∀ link ∈ links, link.Recorded E)
    (h : e ∈ chainBurns E links) : 0 ≤ e.2.nAmount := by
  induction links with
  | nil => cases h
  | cons link links ih =>
    rw [forall_mem_cons] at hlinks
    rcases mem_append.1 h with h | h
    · exact ih hlinks.2 h
    · exact hlinks.1.nonneg_of_mem_burns h

theorem le_length_of_mem_chainBurns (hlinks : Numbered links) (h : e ∈ chainBurns E links) :
    e.2.nHeight ≤ links.length := by
  induction links with
  | nil => cases h
  | cons link links ih =>
    rw [length_cons, Nat.cast_succ]
    rcases mem_append.1 h with h | h
    · exact (ih hlinks.2.2 h).trans (by omega)
    · rw [Link.nHeight_of_mem_burns h]
      exact hlinks.2.1.le

theorem sorted_chainBurns (hlinks : Numbered links) :
    (chainBurns E links).Pairwise fun e e' ↦ e.2.nHeight ≤ e'.2.nHeight := by
  induction links with
  | nil => exact .nil
  | cons link links ih =>
    refine pairwise_append.2 ⟨ih hlinks.2.2, ?_, fun e he e' he' ↦ ?_⟩
    · exact pairwise_of_forall_mem_list fun e he e' he' ↦
        ((Link.nHeight_of_mem_burns he).trans (Link.nHeight_of_mem_burns he').symm).le
    · rw [Link.nHeight_of_mem_burns he', hlinks.2.1]
      exact (le_length_of_mem_chainBurns hlinks.2.2 he).trans (by omega)

/-! ### Whose a burn is -/

theorem firstInputScript_of_restored {tx : CTransaction} {undo : CTxUndo}
    (hlength : undo.length = tx.vin.length) (hunspent : ∀ coin ∈ undo, coin.isSpent = false)
    (h : ∀ q, (tx.vin.zip undo).head? = some q → DisconnectInput.Restored view q) :
    firstInputScript view.getCoin tx = undo.head?.map (·.out.scriptPubKey) := by
  rw [firstInputScript]
  cases hvin : tx.vin with
  | nil =>
    rw [hvin, length_nil, length_eq_zero_iff] at hlength
    rw [hlength]
    rfl
  | cons txin vin =>
    cases undo with
    | nil => simp [hvin] at hlength
    | cons coin undo =>
      rw [hvin, zip_cons_cons] at h
      obtain ⟨coin', hcoin', hout⟩ := h _ rfl
      have hspent : coin'.isSpent = false := by
        rw [Coin.isSpent, hout, ← Coin.isSpent]
        exact hunspent coin mem_cons_self
      simp only [head?_cons, Option.bind_eq_bind, Option.bind_some, hcoin', hspent, hout, Option.map_some]
      rfl

namespace ConnectInput

variable {I : ConnectInput} {acc mid acc' : ConnectState} {tx : CTransaction} {undo : CTxUndo}

theorem burn_of_recordedTurn (hI : I.fJustCheck = false) (h : RecordedTurn E acc mid tx undo acc') :
    I.burn E mid tx = txBurn E I.pindex.nHeight tx undo := by
  have hif : (!I.fJustCheck && !tx.isCoinBase && !E.isZeroCoinPoW tx) = spendsCoins E.crypto tx := by
    rw [hI, Bool.not_false, Bool.true_and]
    rfl
  rw [burn, txBurn, hif]
  refine if_ctx_congr Iff.rfl (fun hspends ↦ ?_) fun _ ↦ rfl
  have hunspent : ∀ coin ∈ undo, coin.isSpent = false := fun coin hcoin ↦
    (h.recorded hspends coin hcoin).2
  have hspent := h.spent hspends
  refine congrArg _ (firstInputScript_of_restored (by rw [hspent, length_map]) hunspent
    fun q hq ↦ ?_)
  cases hvin : tx.vin with
  | nil => simp [hvin] at hq
  | cons txin vin =>
    rw [hvin, map_cons] at hspent
    rw [hvin, hspent, zip_cons_cons, head?_cons, Option.some.injEq] at hq
    -- the undo data has what is read, and that is a coin
    have hcoin := hunspent (mid.view.accessCoin txin.prevout) (hspent ▸ mem_cons_self)
    have hhave : mid.view.haveCoin txin.prevout = true := by rw [haveCoin, hcoin, Bool.not_false]
    obtain ⟨coin, hutxo⟩ := haveCoin_eq_true_iff.1 hhave
    subst hq
    exact ⟨coin, (unspent_eq_some_iff.1 hutxo).1, by rw [accessCoin_of_utxo hutxo]⟩

/-- **What the loop does to the burn cache**, whatever it was before. -/
theorem exists_recordedBurns {vtx : List CTransaction} {burns : BurnCache} (hI : I.fJustCheck = false)
    (hin : ∀ tx ∈ vtx, InputsDistinct E.crypto tx) (hview : acc.view.Spendable)
    (h : (I.connectTxs E vtx burns acc).2 = .ok acc') :
    ∃ undos, acc'.vtxundo = acc.vtxundo ++ undos ∧ List.Forall₂ (KristaTech.Recorded E.crypto) vtx undos ∧
      (∀ tx ∈ vtx, ∀ out ∈ tx.vout, 0 ≤ out.nValue) ∧
      ∀ burns, I.connectTxs E vtx burns acc =
        (burns.addBurns (txBurns E I.pindex.nHeight (vtx.zip undos)), .ok acc') := by
  induction vtx generalizing acc burns with
  | nil =>
    obtain rfl := Except.ok.inj h
    exact ⟨[], (append_nil _).symm, .nil, nofun, fun _ ↦ rfl⟩
  | cons tx vtx ih =>
    rw [forall_mem_cons] at hin
    obtain ⟨mid, acc₁, hmid, hacc₁, h⟩ := exists_of_effectLoop_cons h
    obtain ⟨undo, hturn⟩ := exists_recordedTurn hin.1 hview hmid hacc₁
    obtain ⟨undos, hundos, hrecorded, hvalues, hburns⟩ := ih hin.2 hturn.spendable h
    obtain ⟨view', hwritten⟩ := hturn.written
    have hchecked := txChecked_of_checkTx hmid
    refine ⟨undo :: undos, ?_, .cons hturn.recorded hrecorded, ?_, fun burns ↦ ?_⟩
    · rw [hundos, hwritten, hchecked.vtxundo, append_assoc, singleton_append]
    · rw [forall_mem_cons]
      exact ⟨(CTransaction.getValueOut_eq_some hchecked.valueOut).2, hvalues⟩
    · rw [connectTxs, List.effectLoop]
      simp only [hmid, hacc₁]
      rw [← connectTxs, hburns, recordBurn, burn_of_recordedTurn hI hturn, zip_cons_cons,
        txBurns_cons, BurnCache.addBurns_append]
      cases txBurn E I.pindex.nHeight tx undo <;> rfl

end ConnectInput

theorem txBurns_zip_tail {nHeight : ℤ} {vtx : List CTransaction} {undos : List CTxUndo}
    (hfirst : vtx.head?.any (·.isCoinBase) = true)
    (h : List.Forall₂ (Recorded E.crypto) vtx undos) :
    txBurns E nHeight (vtx.zip undos) = txBurns E nHeight (vtx.zip ([] :: undos.tail)) := by
  cases h with
  | nil => rfl
  | @cons tx undo vtx undos _ _ =>
    have hnone (undo : CTxUndo) : txBurn E nHeight tx undo = none := by
      have hcoinbase : tx.isCoinBase = true := by simpa using hfirst
      rw [txBurn, if_neg]
      rw [spendsCoins_eq_true_iff, hcoinbase]
      simp
    rw [tail_cons, zip_cons_cons, zip_cons_cons, txBurns_cons, txBurns_cons, hnone, hnone]

/-- **Connecting a block adds its burns** to the cache, whatever the cache is. -/
theorem ConnectCall.OnTip.adds_burns {s : ChainState} {c : ConnectCall} {G : NodeState}
    {connected : Connected} (htip : c.OnTip E s) (hview : c.view.Spendable)
    (hok : c.run E s.node = (G, .ok connected))
    (hlink : link = ⟨c.block, c.pindex, s.tip, connected.blockundo⟩) :
    link.Recorded E ∧ ∀ burns : BurnCache, c.run E { s.node with mapAddressBurns := burns } =
      ({ G with mapAddressBurns := burns.addBurns (link.burns E) }, .ok connected) := by
  have hform := formChecked_of_connectBlock htip.formChecked htip.notGenesis hok
  obtain ⟨hbefore, hkind, burns₀, acc, hloop, hafter, hend⟩ :=
    (connectBlock_eq_ok_iff rfl htip.notGenesis).1 hok
  rw [if_neg Bool.false_ne_true] at hend
  obtain ⟨hdisk, hfinish⟩ := hend
  obtain ⟨rfl, rfl⟩ := Prod.mk.inj hfinish
  obtain ⟨undos, hundos, hrecorded, hvalues, hburns⟩ := ConnectInput.exists_recordedBurns rfl
    (fun tx htx ↦ inputsDistinct_of_checkTransaction (hform.transactions tx htx)) hview
    (congrArg Prod.snd hloop)
  have hblockundo : acc.vtxundo.tail = undos.tail := congrArg List.tail hundos
  subst hlink
  refine ⟨⟨hform, ⟨undos, hrecorded, hblockundo⟩, hvalues⟩, fun burns ↦ ?_⟩
  refine (connectBlock_eq_ok_iff rfl htip.notGenesis).2 ⟨hbefore, hkind, _, acc, hburns burns, hafter, ?_⟩
  rw [if_neg Bool.false_ne_true, txBurns_zip_tail hform.first hrecorded, ← hblockundo]
  exact ⟨hdisk, rfl⟩

/-! ### Disconnecting -/

namespace DisconnectInput

variable {D : DisconnectInput} {acc mid acc' : DisconnectState}

theorem burn_of_undoneTurn {p : UndoneTx} (hrecorded : Recorded E.crypto p.1 (p.2.getD []))
    (h : UndoneTurn E acc p mid) :
    D.burn E mid p.1 = txBurn E D.pindex.nHeight p.1 (p.2.getD []) := by
  have hif : hasInputs E p.1 = spendsCoins E.crypto p.1 := rfl
  rw [burn, txBurn, hif]
  refine if_ctx_congr Iff.rfl (fun hspends ↦ ?_) fun _ ↦ rfl
  obtain ⟨undo, hundo, hlength, hrestored⟩ := h.restored hspends
  rw [hundo, Option.getD_some] at hrecorded ⊢
  rw [prevScript, firstInputScript_of_restored hlength (fun coin hcoin ↦ (hrecorded hspends coin hcoin).2)
    (fun q hq ↦ hrestored q (mem_of_mem_head? hq))]
  cases hvin : p.1.vin with
  | nil =>
    rw [hvin, length_nil, length_eq_zero_iff] at hlength
    rw [hlength]
    rfl
  | cons txin vin =>
    cases undo with
    | nil => simp [hvin] at hlength
    | cons coin undo => rfl

/-- **What the loop of the undoing does to the burn cache**, whatever it was before. -/
theorem removes_burns {l : List UndoneTx} {burns₀ : BurnCache} (hin : ∀ p ∈ l, InputsDistinct E.crypto p.1)
    (hrecorded : ∀ p ∈ l, Recorded E.crypto p.1 (p.2.getD []))
    (h : (D.undoTxs E l burns₀ acc).2 = .ok acc') (burns : BurnCache) :
    D.undoTxs E l burns acc = (burns.removeBurns (txBurns E D.pindex.nHeight
      (l.map fun p ↦ (p.1, p.2.getD []))), .ok acc') := by
  induction l generalizing acc burns burns₀ with
  | nil =>
    obtain rfl := Except.ok.inj h
    rfl
  | cons p l ih =>
    rw [forall_mem_cons] at hin hrecorded
    obtain ⟨mid, acc₁, hmid, hacc₁, h⟩ := exists_of_effectLoop_cons h
    have hturn := undoneTurn_of_undoTx hin.1 hrecorded.1 hmid
    rw [undoTxs, List.effectLoop]
    simp only [hmid, hacc₁]
    rw [← undoTxs, ih hin.2 hrecorded.2 h, removeBurn, burn_of_undoneTurn hrecorded.1 hturn,
      map_cons, txBurns_cons, BurnCache.removeBurns_append]
    cases txBurn E D.pindex.nHeight p.1 (p.2.getD []) <;> rfl

end DisconnectInput

/-- **Disconnecting a block removes its burns** from the cache, whatever the cache is. -/
theorem Link.Recorded.removes_burns (hlink : link.Recorded E) {D : DisconnectInput}
    (hD : D.pindex = link.pindex) {G G' : NodeState} {view' : CCoinsViewCache} {b : Bool}
    (hok : disconnectBlock E D G link.block (some link.blockundo) view = (G', .ok (view', b)))
    (burns : BurnCache) :
    disconnectBlock E D { G with mapAddressBurns := burns } link.block (some link.blockundo) view =
      ({ G' with mapAddressBurns := burns.removeBurns (link.burns E).reverse }, .ok (view', b)) := by
  obtain ⟨undos, hrecorded, hblockundo⟩ := hlink.undo
  have hwritten := written_undoneTxs hlink.form.first hrecorded
  rw [← hblockundo] at hwritten
  have hentries : txBurns E D.pindex.nHeight
      ((undoneTxs link.block link.blockundo).map fun p ↦ (p.1, p.2.getD [])) = (link.burns E).reverse := by
    have hmap : (link.block.vtx.zip (none :: link.blockundo.map some)).map
        (fun p ↦ (p.1, p.2.getD [])) = link.txs := by
      have hundo : (none :: link.blockundo.map some).map (fun x ↦ x.getD []) = [] :: link.blockundo := by
        rw [map_cons, map_map]
        exact congrArg _ (map_id _)
      rw [Link.txs, ← hundo, zip_map_right]
      rfl
    rw [undoneTxs, map_reverse, hmap, txBurns, filterMap_reverse, hD, Link.burns, txBurns]
  rw [disconnectBlock] at hok ⊢
  split_ifs at hok ⊢ with hbest hlength
  · cases hok
  · cases hok
  generalize hloop : D.undoTxs E (undoneTxs link.block link.blockundo) G.mapAddressBurns
    { view := view } = loop at hok
  obtain ⟨burns₀, result⟩ := loop
  cases result with
  | error e => cases hok
  | ok acc =>
    have hburns := DisconnectInput.removes_burns (fun p hp ↦ inputsDistinct_of_checkTransaction
        (hlink.form.transactions p.1 (hwritten.recorded p hp).1))
      (fun p hp ↦ (hwritten.recorded p hp).2) (congrArg Prod.snd hloop) burns
    obtain ⟨rfl, hresult⟩ := Prod.mk.inj hok
    simp only [hburns, hentries]
    exact congrArg _ hresult

/-! ### Runs -/

/-- The cache has for every address the burns of the chain at the heights that `p` allows. -/
def Books (E : ValidationEnv) (links : List Link) (p : ℤ → Prop) [DecidablePred p] (burns : BurnCache) :
    Prop :=
  ∀ dest, burns.burnsOf dest = ((chainBurns E links).account dest).filter fun b ↦ p b.nHeight

namespace Books

variable {link : Link} {links : List Link} {p q : ℤ → Prop} [DecidablePred p] [DecidablePred q]
  {burns : BurnCache}

theorem congr (h : Books E links p burns) (hlinks : Numbered links)
    (hpq : ∀ n : ℤ, n ≤ links.length → (p n ↔ q n)) : Books E links q burns := by
  intro dest
  rw [h dest]
  exact filter_congr fun b hb ↦
    decide_eq_decide.2 (hpq b.nHeight (le_length_of_mem_chainBurns hlinks (mem_account.1 hb)))

theorem connect (h : Books E links p burns) (hp : p link.pindex.nHeight) :
    Books E (link :: links) p (burns.addBurns (link.burns E)) := by
  intro dest
  have hnew : (List.account (link.burns E) dest).filter (fun b ↦ p b.nHeight) =
      List.account (link.burns E) dest := by
    refine filter_eq_self.2 fun b hb ↦ ?_
    have hheight : b.nHeight = link.pindex.nHeight := Link.nHeight_of_mem_burns (mem_account.1 hb)
    rw [hheight]
    exact decide_eq_true hp
  rw [BurnCache.burnsOf_addBurns, h dest, chainBurns, account_append, filter_append, hnew]

theorem disconnect (h : Books E (link :: links) p burns) (hlinks : Numbered (link :: links)) :
    Books E links p (burns.removeBurns (link.burns E).reverse) := by
  intro dest
  have hother : ∀ e ∈ chainBurns E links, e ∉ link.burns E := by
    intro e he hburn
    have hle := le_length_of_mem_chainBurns hlinks.2.2 he
    rw [Link.nHeight_of_mem_burns hburn, hlinks.2.1] at hle
    omega
  rw [BurnCache.burnsOf_removeBurns, h dest, chainBurns, filter_comm, ← filter_account_append hother]
  simp only [mem_reverse]

end Books

/-- The states that a node reaches from the genesis block without a restart. -/
inductive Unbroken (E : ValidationEnv) (Sees : ChainState → CCoinsViewCache → Prop) : ChainState → Prop
  | genesis {tip masternodes} : tip.hash = E.consensus.hashGenesisBlock → tip.nHeight = 0 →
    Unbroken E Sees ⟨tip, [], Ledger.empty, ⟨masternodes, ∅, 0⟩⟩
  | connect {s c G connected} : Unbroken E Sees s → c.OnTip E s → Sees s c.view →
    c.run E s.node = (G, .ok connected) → Unbroken E Sees (s.connect c G connected)
  | disconnect {s link links D view G view'} : Unbroken E Sees s → s.links = link :: links →
    Sees s view → D.pindex = link.pindex →
    disconnectBlock E D s.node link.block (some link.blockundo) view = (G, .ok (view', true)) →
    Unbroken E Sees ⟨link.pprev, links, view'.utxo, G⟩

/-- What is known of the chain of a state. -/
structure ChainState.Regular (E : ValidationEnv) (s : ChainState) : Prop where
  height : s.tip.nHeight = s.links.length
  numbered : Numbered s.links
  recorded : ∀ link ∈ s.links, link.Recorded E

namespace ChainState.Regular

variable {s : ChainState}

theorem connect (h : s.Regular E) {c : ConnectCall} {G : NodeState} {connected : Connected}
    (htip : c.OnTip E s) (hlink : Link.Recorded E ⟨c.block, c.pindex, s.tip, connected.blockundo⟩) :
    (s.connect c G connected).Regular E where
  height := by
    show c.pindex.nHeight = ((_ :: _ : List Link).length : ℤ)
    rw [htip.nHeight, h.height, length_cons, Nat.cast_succ]
  numbered := ⟨h.height, by rw [htip.nHeight, h.height], h.numbered⟩
  recorded := forall_mem_cons.2 ⟨hlink, h.recorded⟩

theorem disconnect (h : s.Regular E) {link : Link} {links : List Link} (hlinks : s.links = link :: links)
    (utxo : Utxo) (G : NodeState) : (⟨link.pprev, links, utxo, G⟩ : ChainState).Regular E := by
  obtain ⟨-, hnumbered, hrecorded⟩ := h
  rw [hlinks] at hnumbered hrecorded
  exact ⟨hnumbered.1, hnumbered.2.2, fun l hl ↦ hrecorded l (mem_cons_of_mem _ hl)⟩

end ChainState.Regular

section

variable {Sees : ChainState → CCoinsViewCache → Prop} {s : ChainState}

theorem Unbroken.regular (hsees : ∀ s view, Sees s view → view.Spendable) (h : Unbroken E Sees s) :
    s.Regular E := by
  induction h with
  | genesis _ hheight => exact ⟨hheight, trivial, nofun⟩
  | connect _ htip hview hok ih => exact ih.connect htip (htip.adds_burns (hsees _ _ hview) hok rfl).1
  | disconnect _ hlinks _ _ _ ih => exact ih.disconnect hlinks _ _

/-- **The cache of a node without a restart** has the burns of its chain. -/
theorem Unbroken.books (hsees : ∀ s view, Sees s view → view.Spendable) (h : Unbroken E Sees s) :
    Books E s.links (fun _ ↦ True) s.node.mapAddressBurns := by
  induction h with
  | genesis => exact fun dest ↦ BurnCache.burnsOf_empty dest
  | @connect s c G connected _ htip hview hok ih =>
    obtain ⟨-, hburns⟩ := htip.adds_burns (hsees _ _ hview) hok rfl
    have hG := (Prod.mk.inj (hok.symm.trans (hburns s.node.mapAddressBurns))).1
    show Books E _ _ G.mapAddressBurns
    rw [hG]
    exact ih.connect trivial
  | @disconnect s link links D view G view' hrun hlinks hview hD hok ih =>
    have hregular := hrun.regular hsees
    have hlink := hregular.recorded link (by rw [hlinks]; exact mem_cons_self)
    have hG := (Prod.mk.inj (hok.symm.trans (hlink.removes_burns hD hok s.node.mapAddressBurns))).1
    show Books E links _ G.mapAddressBurns
    rw [hG]
    rw [hlinks] at ih
    exact ih.disconnect (hlinks ▸ hregular.numbered)

end

end KristaTech
