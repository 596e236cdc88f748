import KristaTech.Validation.ChainRun
import KristaTech.Validation.Contextual

/-!
# Where new coins go

A coin is found by the id of its transaction. Whether the place of a new coin is free is not looked
up: `AddCoin` notices an unspent coin only if the cache has it. For a transaction that spends coins
the place is free all the same, since its inputs could be spent only once (`Known.spent`). A coinbase
and a registration without a coin spend nothing, so nothing keeps them from being repeated.

If no coinbase and no registration repeats an id, then in every run no transaction creates a coin
where one is unspent (`no_coin_overwritten`). Nothing sees to the second condition.
-/

namespace KristaTech

open CCoinsViewCache List Except

/-! ### Ids -/

section Ids

variable {C : Crypto}

/-- The transactions of a kind have ids that none before them has. -/
def FirstUses (C : Crypto) (p : CTransaction → Bool) (T vtx : List CTransaction) : Prop :=
  ∀ pre tx post, vtx = pre ++ tx :: post → p tx = true → ∀ t ∈ T ++ pre, t.getHash C ≠ tx.getHash C

def NoCollisions (C : Crypto) (T : List CTransaction) : Prop :=
  ∀ t ∈ T, ∀ t' ∈ T, t.getHash C = t'.getHash C → t = t'

variable {p : CTransaction → Bool} {T vtx : List CTransaction} {tx : CTransaction}

theorem firstUses_nil : FirstUses C p T [] := fun pre tx post h ↦ by simp at h

theorem firstUses_cons : FirstUses C p T (tx :: vtx) ↔
    (p tx = true → ∀ t ∈ T, t.getHash C ≠ tx.getHash C) ∧ FirstUses C p (T ++ [tx]) vtx := by
  constructor
  · refine fun h ↦ ⟨fun hp t ht ↦ h [] tx vtx rfl hp t (by simpa using ht), ?_⟩
    rintro pre tx' post rfl hp t ht
    exact h (tx :: pre) tx' post rfl hp t (by simpa using ht)
  · rintro ⟨hhead, htail⟩ pre tx' post hvtx hp t ht
    cases pre with
    | nil =>
      obtain ⟨rfl, -⟩ := List.cons.inj hvtx
      exact hhead hp t (by simpa using ht)
    | cons tx₀ pre =>
      obtain ⟨rfl, rfl⟩ := List.cons.inj hvtx
      exact htail pre tx' post rfl hp t (by simpa using ht)

theorem FirstUses.of_append {vtx' : List CTransaction} (h : FirstUses C p T (vtx ++ vtx')) :
    FirstUses C p T vtx := by
  rintro pre tx post rfl hp
  exact h pre tx (post ++ vtx') (by simp) hp

end Ids

/-! ### What is known of the unspent coins -/

section Known

variable {C : Crypto} {T : List CTransaction} {U U' : Utxo} {tx : CTransaction} {nHeight : ℤ}
  {undo : CTxUndo}

/-- The unspent coins are made by transactions of the list, and the inputs of these stay spent. -/
structure Known (C : Crypto) (T : List CTransaction) (U : Utxo) : Prop where
  created : ∀ o coin, U o = some coin → ∃ t ∈ T, t.getHash C = o.hash
  spent : ∀ t ∈ T, spendsCoins C t = true → ∀ txin ∈ t.vin,
    U txin.prevout = none ∧ ∃ t' ∈ T, t'.getHash C = txin.prevout.hash

theorem known_empty : Known C [] Ledger.empty := ⟨nofun, nofun⟩

theorem Known.free (h : Known C T U) {hash : Uint256} (hnew : ∀ t ∈ T, t.getHash C ≠ hash)
    {o : COutPoint} (ho : o.hash = hash) : U o = none := by
  rw [Option.eq_none_iff_forall_ne_some]
  intro coin hcoin
  obtain ⟨t, ht, hhash⟩ := h.created o coin hcoin
  exact hnew t ht (hhash.trans ho)

theorem hash_of_mem_newCoins {kv : COutPoint × Coin} (h : kv ∈ newCoins C tx nHeight) :
    kv.1.hash = tx.getHash C := by
  obtain ⟨p, -, hcoin⟩ := mem_filterMap.1 h
  rw [newCoin] at hcoin
  split_ifs at hcoin
  obtain rfl := Option.some.inj hcoin
  rfl

theorem Applies.exists_between (h : Applies C tx nHeight undo U U') :
    ∃ M : Utxo, (∀ o coin, M o = some coin → U o = some coin) ∧
      Ledger.Creates M (newCoins C tx nHeight) U' ∧
      (spendsCoins C tx = true → ∀ txin ∈ tx.vin,
        M txin.prevout = none ∧ ∃ coin, U txin.prevout = some coin) := by
  cases h with
  | spending _ hspends hcreates =>
    refine ⟨_, fun o coin ↦ hspends.of_some, hcreates, fun _ txin htxin ↦ ?_⟩
    have hmem : txin.prevout ∈ tx.vin.map (·.prevout) := mem_map_of_mem htxin
    exact ⟨hspends.none_of_mem hmem, hspends.exists_value hmem⟩
  | creating hspends hcreates =>
    refine ⟨U, fun _ _ ↦ id, hcreates, fun hspends' ↦ ?_⟩
    rw [hspends] at hspends'
    cases hspends'

theorem Known.applies (h : Known C T U) (hnew : ∀ t ∈ T, t.getHash C ≠ tx.getHash C)
    (happlies : Applies C tx nHeight undo U U') : Known C (T ++ [tx]) U' := by
  obtain ⟨M, hold, hcreates, hinputs⟩ := happlies.exists_between
  -- an outpoint of an old transaction is not created
  have hstays : ∀ o, M o = none → (∃ t ∈ T, t.getHash C = o.hash) → U' o = none := by
    rintro o hM ⟨t, ht, hhash⟩
    rw [hcreates.eq_of_notMem, hM]
    intro hmem
    obtain ⟨kv, hkv, rfl⟩ := mem_map.1 hmem
    exact hnew t ht (hhash.trans (hash_of_mem_newCoins hkv))
  have hweaken : ∀ {hash : Uint256}, (∃ t ∈ T, t.getHash C = hash) →
      ∃ t ∈ T ++ [tx], t.getHash C = hash := fun ⟨t, ht, hhash⟩ ↦
    ⟨t, mem_append_left _ ht, hhash⟩
  refine ⟨fun o coin hcoin ↦ ?_, fun t ht hspends txin htxin ↦ ?_⟩
  · rcases hcreates.of_some hcoin with hM | hcreated
    · exact hweaken (h.created o coin (hold o coin hM))
    · exact ⟨tx, by simp, (hash_of_mem_newCoins hcreated).symm⟩
  · rw [mem_append, mem_singleton] at ht
    rcases ht with ht | rfl
    · obtain ⟨hnone, hhash⟩ := h.spent t ht hspends txin htxin
      have hM : M txin.prevout = none := by
        rw [Option.eq_none_iff_forall_ne_some] at hnone ⊢
        exact fun coin hcoin ↦ hnone coin (hold _ coin hcoin)
      exact ⟨hstays _ hM hhash, hweaken hhash⟩
    · obtain ⟨hM, coin, hcoin⟩ := hinputs hspends txin htxin
      have hhash := h.created _ coin hcoin
      exact ⟨hstays _ hM hhash, hweaken hhash⟩

theorem Known.appliesAll {txs : List CTransaction} {undos : List CTxUndo} (h : Known C T U)
    (hnew : FirstUses C (fun _ ↦ true) T txs) (happlies : AppliesAll C nHeight txs undos U U') :
    Known C (T ++ txs) U' := by
  induction happlies generalizing T with
  | nil => simpa using h
  | cons happly _ ih =>
    rw [firstUses_cons] at hnew
    rw [append_cons]
    exact ih (h.applies (hnew.1 rfl) happly) hnew.2

end Known

/-! ### One block -/

variable {E : ValidationEnv}

theorem vin_ne_nil_of_checkTransaction {tx : CTransaction} (h : checkTransaction E tx = .ok ()) :
    tx.vin ≠ [] := by
  obtain ⟨_, hvin, -⟩ := bind_eq_ok_iff.1 h
  rw [rejectIf_eq_ok_iff] at hvin
  simpa using hvin

namespace ConnectInput

variable {I : ConnectInput} {T vtx : List CTransaction} {acc acc' : ConnectState} {tx : CTransaction}

theorem TxChecked.notMem (h : I.TxChecked E acc tx acc') (hspends : spendsCoins E.crypto tx = true)
    (htx : checkTransaction E tx = .ok ()) (hknown : Known E.crypto T acc.view.utxo) : tx ∉ T := by
  intro hmem
  obtain ⟨txin, htxin⟩ := exists_mem_of_ne_nil _ (vin_ne_nil_of_checkTransaction htx)
  have hcoinbase : tx.isCoinBase = false := (spendsCoins_eq_true_iff.1 hspends).1
  have hhave : acc.view.haveCoin txin.prevout = true :=
    (haveInputs_eq_true_iff tx hcoinbase).1 (h.have_inputs hspends) txin htxin
  obtain ⟨coin, hcoin⟩ := haveCoin_eq_true_iff.1 hhave
  rw [(hknown.spent tx hmem hspends txin htxin).1] at hcoin
  cases hcoin

/-- **If the transactions that spend nothing have new ids, all have.** -/
theorem firstUses_of_connectTxs {burns : BurnCache} (htxs : ∀ tx ∈ vtx, checkTransaction E tx = .ok ())
    (hcollisions : NoCollisions E.crypto (T ++ vtx))
    (hcoinbases : FirstUses E.crypto (·.isCoinBase) T vtx)
    (hregistrations : FirstUses E.crypto E.isZeroCoinPoW T vtx) (hview : acc.view.Coherent)
    (hknown : Known E.crypto T acc.view.utxo) (h : (I.connectTxs E vtx burns acc).2 = .ok acc') :
    FirstUses E.crypto (fun _ ↦ true) T vtx := by
  induction vtx generalizing acc T burns with
  | nil => exact firstUses_nil
  | cons tx vtx ih =>
    rw [forall_mem_cons] at htxs
    rw [firstUses_cons] at hcoinbases hregistrations
    obtain ⟨mid, acc₁, hmid, hacc₁, h⟩ := exists_of_effectLoop_cons h
    have hnew : ∀ t ∈ T, t.getHash E.crypto ≠ tx.getHash E.crypto := by
      cases hspends : spendsCoins E.crypto tx with
      | true =>
        intro t ht hhash
        obtain rfl := hcollisions t (by simp [ht]) tx (by simp) hhash
        exact (txChecked_of_checkTx hmid).notMem hspends htxs.1 hknown ht
      | false =>
        cases hcoinbase : tx.isCoinBase with
        | true => exact hcoinbases.1 hcoinbase
        | false =>
          refine hregistrations.1 ?_
          show isZeroCoinPoWTransaction E.crypto tx = true
          simpa [spendsCoins, hcoinbase] using hspends
    obtain ⟨undo, hturn⟩ := exists_turn (inputsDistinct_of_checkTransaction htxs.1) hview
      (fun kv hkv ↦ covered_of_utxo_none (hknown.free hnew (hash_of_mem_newCoins hkv))) hmid hacc₁
    exact firstUses_cons.2 ⟨fun _ ↦ hnew, ih htxs.2 (by simpa using hcollisions) hcoinbases.2
      hregistrations.2 hturn.keeps.coherent (hknown.applies hnew hturn.applies) h⟩

/-- Each transaction finds the places of its coins free, when its turn comes. -/
def CreatesFree (E : ValidationEnv) (I : ConnectInput) (vtx : List CTransaction) (burns : BurnCache)
    (view : CCoinsViewCache) : Prop :=
  ∀ pre tx post acc, vtx = pre ++ tx :: post → (I.connectTxs E pre burns { view := view }).2 = .ok acc →
    ∀ kv ∈ newCoins E.crypto tx I.pindex.nHeight, acc.view.utxo kv.1 = none

theorem createsFree_of_firstUses {burns : BurnCache} {view : CCoinsViewCache}
    (htxs : ∀ tx ∈ vtx, checkTransaction E tx = .ok ())
    (hnew : FirstUses E.crypto (fun _ ↦ true) T vtx) (hview : view.Coherent)
    (hknown : Known E.crypto T view.utxo) : I.CreatesFree E vtx burns view := by
  rintro pre tx post acc rfl hloop kv hkv
  have hfree : ∀ tx ∈ pre, ∀ kv ∈ newCoins E.crypto tx I.pindex.nHeight, view.Covered kv.1 := by
    intro tx' htx' kv hkv
    obtain ⟨pre₁, pre₂, rfl⟩ := append_of_mem htx'
    refine covered_of_utxo_none (hknown.free (fun t ht ↦ ?_) (hash_of_mem_newCoins hkv))
    exact hnew pre₁ tx' (pre₂ ++ tx :: post) (by simp) rfl t (mem_append_left _ ht)
  obtain ⟨-, undos, happlies, -⟩ := appliesAll_of_connectTxs
    (fun tx' htx' ↦ inputsDistinct_of_checkTransaction (htxs tx' (mem_append_left _ htx'))) hview
    hfree hloop
  exact (hknown.appliesAll hnew.of_append happlies).free (hnew pre tx post rfl rfl)
    (hash_of_mem_newCoins hkv)

end ConnectInput

variable {view : CCoinsViewCache} {block : CBlock}

theorem FirstUses.freshIds {T : List CTransaction}
    (hnew : FirstUses E.crypto (fun _ ↦ true) T block.vtx) (hknown : Known E.crypto T view.utxo) :
    FreshIds E.crypto view block := by
  intro tx htx i _
  obtain ⟨pre, post, hvtx⟩ := append_of_mem htx
  exact hknown.free (fun t ht ↦ hnew pre tx post hvtx rfl t (mem_append_left _ ht)) rfl

/-! ### Runs -/

/-- What is assumed of the ids: no collisions, and no two coinbases with one id. -/
structure DistinctIds (E : ValidationEnv) (s : ChainState) (block : CBlock) : Prop where
  noCollisions : NoCollisions E.crypto (chainTxs s.links ++ block.vtx)
  coinbases : ∀ tx ∈ block.vtx, tx.isCoinBase = true → ∀ t ∈ chainTxs s.links, t.isCoinBase = true →
    t.getHash E.crypto ≠ tx.getHash E.crypto

/-- No registration of the block has the id of an earlier transaction of the chain. -/
def NewRegistrations (E : ValidationEnv) (s : ChainState) (block : CBlock) : Prop :=
  FirstUses E.crypto E.isZeroCoinPoW (chainTxs s.links) block.vtx

/-- The only coinbase is the first transaction, so its id is new. -/
theorem DistinctIds.firstUses {s : ChainState} (h : DistinctIds E s block) (hform : FormChecked E block) :
    FirstUses E.crypto (·.isCoinBase) (chainTxs s.links) block.vtx := by
  intro pre tx post hvtx hcoinbase t ht hhash
  have hpre : pre = [] := by
    cases pre with
    | nil => rfl
    | cons tx₀ pre =>
      have hothers := hform.others
      rw [hvtx, cons_append, tail_cons, any_eq_false] at hothers
      exact absurd hcoinbase (hothers tx (by simp))
  have hmem : tx ∈ block.vtx := by simp [hvtx]
  rw [hpre, append_nil] at ht
  obtain rfl := h.noCollisions t (mem_append_left _ ht) tx (mem_append_right _ hmem) hhash
  exact h.coinbases t hmem hcoinbase t ht hcoinbase rfl

/-- How the unspent coins have come about: block by block, each with its undo data. -/
inductive Traced (E : ValidationEnv) : List Link → Utxo → Prop
  | nil : Traced E [] Ledger.empty
  | cons {link links undos U U'} : Traced E links U → link.pindex.nHeight ≠ 0 →
    FormChecked E link.block → (∀ tx ∈ link.block.vtx, tx.getValueOut = some tx.valueOut) →
    FirstUses E.crypto (fun _ ↦ true) (chainTxs links) link.block.vtx →
    AppliesAll E.crypto link.pindex.nHeight link.block.vtx undos U U' → link.blockundo = undos.tail →
    Traced E (link :: links) U'

namespace Traced

variable {links : List Link} {U : Utxo}

theorem known (h : Traced E links U) : Known E.crypto (chainTxs links) U := by
  induction h with
  | nil => exact known_empty
  | cons _ _ _ _ hnew happlies _ ih => exact ih.appliesAll hnew happlies

theorem restorable (h : Traced E links U) : Restorable U := by
  induction h with
  | nil => exact restorable_empty
  | cons _ hheight _ hvalue _ happlies _ ih =>
    exact ih.appliesAll hheight (fun tx htx ↦ (CTransaction.getValueOut_eq_some (hvalue tx htx)).2) happlies

end Traced

/-- `DisconnectBlock` asks for a view that stands at the block. -/
theorem getBestBlock_of_disconnectBlock {D : DisconnectInput} {G G' : NodeState}
    {vtxundo : Option (List CTxUndo)} {r : CCoinsViewCache × Bool}
    (h : disconnectBlock E D G block vtxundo view = (G', .ok r)) :
    view.getBestBlock = D.pindex.hash := by
  by_contra hne
  rw [disconnectBlock.eq_def, if_pos (Ne.symm hne)] at h
  cases h

section Run

variable {s : ChainState} {c : ConnectCall} {G : NodeState} {connected : Connected}

theorem ConnectCall.OnTip.firstUses (htip : c.OnTip E s) (hview : SeesCoins s c.view)
    (htraced : Traced E s.links s.utxo) (hids : DistinctIds E s c.block)
    (hregistrations : NewRegistrations E s c.block)
    (hok : c.run E s.node = (G, .ok connected)) : FormChecked E c.block ∧
      FirstUses E.crypto (fun _ ↦ true) (chainTxs s.links) c.block.vtx := by
  have hform := formChecked_of_connectBlock htip.formChecked htip.notGenesis hok
  obtain ⟨-, -, burns, acc, hloop, -⟩ := (connectBlock_eq_ok_iff rfl htip.notGenesis).1 hok
  refine ⟨hform, ConnectInput.firstUses_of_connectTxs hform.transactions hids.noCollisions
    (hids.firstUses hform) hregistrations hview.coherent ?_ (congrArg Prod.snd hloop)⟩
  show Known E.crypto (chainTxs s.links) c.view.utxo
  rw [hview.utxo]
  exact htraced.known

theorem Traced.connect (htraced : Traced E s.links s.utxo) (htip : c.OnTip E s)
    (hheight : c.pindex.nHeight ≠ 0) (hview : SeesCoins s c.view) (hids : DistinctIds E s c.block)
    (hregistrations : NewRegistrations E s c.block) (hok : c.run E s.node = (G, .ok connected)) :
    Traced E (s.connect c G connected).links (s.connect c G connected).utxo ∧
      ∃ undos, ConnectedCoins E c.block c.pindex.nHeight c.view s.node G connected undos := by
  obtain ⟨hform, hnew⟩ := htip.firstUses hview htraced hids hregistrations hok
  have hknown : Known E.crypto (chainTxs s.links) c.view.utxo := hview.utxo ▸ htraced.known
  obtain ⟨undos, hcoins⟩ := exists_connectedCoins hview.coherent hform htip.notGenesis
    (hnew.freshIds hknown) hok
  exact ⟨.cons htraced hheight hform hcoins.valueOut hnew (hview.utxo ▸ hcoins.applies)
    hcoins.blockundo, undos, hcoins⟩

theorem Traced.disconnect {link : Link} {links : List Link} {D : DisconnectInput}
    {view view' : CCoinsViewCache} {G' : NodeState} (htraced : Traced E (link :: links) view.utxo)
    (hview : view.Coherent) (hD : D.pindex = link.pindex)
    (hok : disconnectBlock E D G link.block (some link.blockundo) view = (G', .ok (view', true))) :
    Traced E links view'.utxo ∧ ∃ undos,
      AppliesAll E.crypto link.pindex.nHeight link.block.vtx undos view'.utxo view.utxo ∧
      G'.nMoneySupply =
        G.nMoneySupply - (totalOut link.block.vtx - totalSpent E.crypto link.block.vtx undos) := by
  generalize hU : view.utxo = U at htraced
  cases htraced with
  | @cons _ _ undos U₀ _ htraced hheight hform hvalue _ happlies hundo =>
    subst hU
    rw [← hD] at hheight happlies
    obtain ⟨G'', view'', hresult, hutxo, hsupply⟩ := disconnectBlock_of_appliesAll (G := G) hform
      hheight hvalue htraced.restorable hview happlies (getBestBlock_of_disconnectBlock hok)
    rw [← hundo, hok] at hresult
    obtain ⟨rfl, hview'⟩ := Prod.mk.inj hresult
    obtain ⟨rfl, -⟩ := Prod.mk.inj (Except.ok.inj hview')
    subst hutxo
    exact ⟨htraced, undos, hD ▸ happlies, hsupply⟩

theorem ConnectCall.OnTip.nHeight_ne_zero {Sees : ChainState → CCoinsViewCache → Prop}
    {Allows : ChainState → CBlock → Prop} (htip : c.OnTip E s) (hrun : ChainRun E Sees Allows s) :
    c.pindex.nHeight ≠ 0 := by
  rw [htip.nHeight, hrun.heights.1]
  omega

theorem ChainRun.traced
    (h : ChainRun E SeesCoins (fun s block ↦ DistinctIds E s block ∧ NewRegistrations E s block) s) :
    Traced E s.links s.utxo := by
  induction h with
  | genesis => exact .nil
  | connect hrun htip hview hids hok ih =>
    exact (ih.connect htip (htip.nHeight_ne_zero hrun) hview hids.1 hids.2 hok).1
  | disconnect _ hlinks hview hD hok ih =>
    rw [hlinks, ← hview.utxo] at ih
    exact (ih.disconnect hview.coherent hD hok).1

/-- **No coin is overwritten**, in any run in which no two coinbases have one id and no registration
without a coin has the id of an earlier transaction: a block that connects to the tip creates coins
only where, at that moment, none is unspent. -/
theorem no_coin_overwritten
    (hrun : ChainRun E SeesCoins (fun s block ↦ DistinctIds E s block ∧ NewRegistrations E s block) s)
    (htip : c.OnTip E s) (hview : SeesCoins s c.view) (hids : DistinctIds E s c.block)
    (hregistrations : NewRegistrations E s c.block) (hok : c.run E s.node = (G, .ok connected)) :
    (⟨c.ctx, s.node.masternodes, c.pindex, false⟩ : ConnectInput).CreatesFree E c.block.vtx
      s.node.mapAddressBurns c.view := by
  have htraced := hrun.traced
  obtain ⟨hform, hnew⟩ := htip.firstUses hview htraced hids hregistrations hok
  exact ConnectInput.createsFree_of_firstUses hform.transactions hnew hview.coherent
    (hview.utxo ▸ htraced.known)

end Run

/-! ### A registration that is repeated -/

section Example

/-- A registration without a coin, by the key that also burns. -/
def registrationTx : CTransaction where
  nVersion := 1
  vin := [⟨zeroCoinSentinel, [], sequenceFinal⟩]
  vout := [⟨0,
    let pushed := CScript.pushData (CScript.pushData (CScript.pushData [] [1, 2, 3, 4])
      (List.replicate 32 0)) burnerKey.bytes
    let dropped := [Opcode.OP_DROP, .OP_DROP, .OP_DROP].foldl CScript.pushOp pushed
    let locked := [Opcode.OP_CHECKLOCKTIMEVERIFY, .OP_DROP, .OP_DUP, .OP_HASH160].foldl
      CScript.pushOp (CScript.pushData dropped [1])
    [Opcode.OP_EQUALVERIFY, .OP_CHECKSIG].foldl CScript.pushOp
      (CScript.pushData locked (burnerKey.getID default).toBytes)⟩]
  nLockTime := 0

/-- A block with the registration on a tip; the coinbase mints the given number of coins. -/
def registrationCall (tip : CBlockIndex) (getCoin : COutPoint → Option Coin) (coins : ℤ) :
    ConnectCall := plainCall tip getCoin [coinbaseTx coins, registrationTx]

def firstRegistration : ConnectCall := registrationCall genesisTip (fun _ ↦ none) 0

def firstRegistered : Connected := (firstRegistration.run default emptyNode).2.okOr ⟨firstRegistration.view, []⟩

def registeredState : ChainState :=
  genesisState.connect firstRegistration (firstRegistration.run default emptyNode).1 firstRegistered

theorem utxo_registeredState : registeredState.utxo = firstRegistered.view.utxo :=
  ChainState.utxo_connect genesisState firstRegistration _ firstRegistered

def secondRegistration : ConnectCall :=
  registrationCall registeredState.tip firstRegistered.view.getCoin 1

theorem run_firstRegistration : firstRegistration.run default genesisState.node =
    ((firstRegistration.run default emptyNode).1, .ok firstRegistered) := by
  have hok : (firstRegistration.run default emptyNode).2 = .ok firstRegistered :=
    eq_ok_okOr (by decide +kernel) _
  exact Prod.mk.eta.symm.trans (congrArg (Prod.mk _) hok)

theorem firstRegistration_onTip : firstRegistration.OnTip default genesisState :=
  plainCall_onTip genesisState _ _ (by decide +kernel)

theorem firstRegistration_seesCoins : SeesCoins genesisState firstRegistration.view :=
  plainCall_seesCoins (s := genesisState) fun _ ↦ rfl

theorem firstRegistration_distinctIds : DistinctIds default genesisState firstRegistration.block where
  noCollisions := by
    rw [NoCollisions]
    decide +kernel
  coinbases := nofun

theorem firstRegistration_newRegistrations :
    NewRegistrations default genesisState firstRegistration.block := by
  have hvtx : firstRegistration.block.vtx = [coinbaseTx 0, registrationTx] := rfl
  rw [NewRegistrations, hvtx]
  refine firstUses_cons.2 ⟨fun _ t ht ↦ absurd ht not_mem_nil,
    firstUses_cons.2 ⟨fun _ t ht ↦ ?_, firstUses_nil⟩⟩
  obtain rfl := mem_singleton.1 ht
  decide +kernel

/-- The first registration creates its coin where none is. -/
theorem firstRegistration_overwrites_nothing : firstRegistration.run default genesisState.node =
        ((firstRegistration.run default emptyNode).1, .ok firstRegistered) ∧
      (⟨firstRegistration.ctx, genesisState.node.masternodes, firstRegistration.pindex, false⟩ :
        ConnectInput).CreatesFree default firstRegistration.block.vtx
        genesisState.node.mapAddressBurns firstRegistration.view :=
  ⟨run_firstRegistration, no_coin_overwritten (.genesis rfl rfl) firstRegistration_onTip
    firstRegistration_seesCoins firstRegistration_distinctIds firstRegistration_newRegistrations
    run_firstRegistration⟩

def idleContextual : ContextualEnv where
  getTransaction := fun _ ↦ none
  getAdjustedTime := 0
  maxFutureBlockTime := fun _ ↦ 0
  minPastBlockTime := fun _ ↦ -1
  nTimeSlotLength := 15
  sporkMaxBlockTime := 0
  sporkMaxBlockSize := maxBlockSizeCurrent
  checkpointsCheckBlock := fun _ _ ↦ true
  lastCheckpoint := none
  nMaxReorgDepth := 100

/-- **A coin that is overwritten.** The blocks at the heights 1 and 2 hold the same registration. All
ids are distinct otherwise, and the second block passes all checks. But the coin of the first block is
unspent when the second one creates it once more. -/
theorem registration_overwrites_coin : ChainRun default SeesCoins (DistinctIds default) registeredState ∧
      secondRegistration.OnTip default registeredState ∧
      SeesCoins registeredState secondRegistration.view ∧
      DistinctIds default registeredState secondRegistration.block ∧
      (∃ b, checkBlock default secondRegistration.ctx registeredState.node.masternodes
        secondRegistration.block true true true none = .ok b) ∧
      contextualCheckBlock default idleContextual secondRegistration.ctx secondRegistration.block
        (some registeredState.tip) = .ok () ∧
      (∃ connected, (secondRegistration.run default registeredState.node).2 = .ok connected) ∧
      ¬(⟨secondRegistration.ctx, registeredState.node.masternodes, secondRegistration.pindex, false⟩ :
        ConnectInput).CreatesFree default secondRegistration.block.vtx
        registeredState.node.mapAddressBurns secondRegistration.view := by
  have hrun : ChainRun default SeesCoins (DistinctIds default) registeredState :=
    .connect (.genesis rfl rfl) firstRegistration_onTip firstRegistration_seesCoins
      firstRegistration_distinctIds run_firstRegistration
  have hids : DistinctIds default registeredState secondRegistration.block := by
    refine ⟨?_, ?_⟩
    · rw [NoCollisions]
      decide +kernel
    · decide +kernel
  refine ⟨hrun, plainCall_onTip registeredState _ _ (by decide +kernel),
    plainCall_seesCoins (s := registeredState) fun o ↦ (congrFun utxo_registeredState o).symm,
    hids,
    ⟨_, eq_ok_okOr (by decide +kernel) true⟩, ?_, ⟨_, eq_ok_okOr (by decide +kernel)
      ⟨secondRegistration.view, []⟩⟩, fun hfree ↦ ?_⟩
  · exact eq_ok_unit (by decide +kernel)
  · have hfirst := hfree [coinbaseTx 1] registrationTx [] _ rfl
      (eq_ok_okOr (by decide) { view := secondRegistration.view })
      (⟨registrationTx.getHash default, 0⟩, ⟨false, false, registrationTx.vout.headD .null, 2⟩)
      (by decide +kernel)
    revert hfirst
    decide +kernel

end Example

end KristaTech
