import KristaTech.Validation.ChainRun
import KristaTech.Chain.Values

/-!
# Chains that grow block by block

A chain is built by running `ConnectBlock` for one list of transactions after the other, with one
coin cache over an empty database (`Grown.grow`). Everything that a connection asks for is checked on
the way, so the result is reached by real connections, each with a view that has the coins of the tip:
what holds at the start and is kept by such a connection holds at the end (`Grown.induction`).
-/

namespace KristaTech

open CCoinsViewCache

variable (E : ValidationEnv)

/-- A view whose flags are true, that has the coins of the tip and in which all coins can be spent. -/
structure SeesStored (s : ChainState) (view : CCoinsViewCache) : Prop extends SeesCoins s view where
  spendable : view.Spendable

/-! ### The base of a view -/

theorem CCoinsViewCache.base_haveInputs (view : CCoinsViewCache) (tx : CTransaction) :
    (view.haveInputs tx).2.base = view.base :=
  haveInputs_induction (motive := fun view' ↦ view'.base = view.base) rfl
    (fun _ o h ↦ (AltersOnly.fetchCoin _ o).base.trans h) tx

theorem base_updateCoins {C : Crypto} {tx : CTransaction} {view view' : CCoinsViewCache} {nHeight : ℤ}
    {undo : CTxUndo} (h : updateCoins C tx view nHeight = some (undo, view')) : view'.base = view.base :=
  updateCoins_induction (motive := fun view' ↦ view'.base = view.base) rfl
    (fun _ o h ↦ (AltersOnly.spendCoin _ o).base.trans h)
    (fun _ _ _ _ h hadd ↦ (AltersOnly.addCoin hadd).base.trans h) h

section Base

variable {E} {I : ConnectInput} {acc acc' : ConnectState}

theorem ConnectInput.base_connectTxs {vtx : List CTransaction} {burns : BurnCache}
    (h : (I.connectTxs E vtx burns acc).2 = .ok acc') : acc'.view.base = acc.view.base := by
  induction vtx generalizing acc burns with
  | nil =>
    obtain rfl := Except.ok.inj h
    rfl
  | cons tx vtx ih =>
    obtain ⟨mid, acc₁, hmid, hacc₁, h⟩ := List.exists_of_effectLoop_cons h
    have hchecked : mid.view.base = acc.view.base := by
      rw [(txChecked_of_checkTx hmid).view]
      split_ifs
      · exact base_haveInputs acc.view tx
      · rfl
    obtain ⟨⟨undo, view'⟩, hcoins, hacc₁⟩ := Except.bind_eq_ok_iff.1 hacc₁
    obtain rfl := Except.ok.inj hacc₁
    exact (ih h).trans ((base_updateCoins (orThrow_eq_ok_iff.1 hcoins)).trans hchecked)

theorem ConnectCall.base_of_run {c : ConnectCall} {G G' : NodeState} {connected : Connected}
    (hgenesis : c.block.getHash E.crypto ≠ E.consensus.hashGenesisBlock)
    (h : c.run E G = (G', .ok connected)) : connected.view.base = c.view.base := by
  obtain ⟨-, -, burns, acc, hloop, -, hend⟩ := (connectBlock_eq_ok_iff rfl hgenesis).1 h
  rw [if_neg Bool.false_ne_true] at hend
  obtain ⟨-, rfl⟩ := Prod.mk.inj hend.2
  show acc.view.base = _
  rw [ConnectInput.base_connectTxs (congrArg Prod.snd hloop)]

end Base

/-! ### Growing -/

/-- A chain and the coin cache of its tip. -/
structure Grown where
  state : ChainState
  view : CCoinsViewCache

namespace Grown

/-- The call for a block with the given transactions on the tip. -/
def call (g : Grown) (vtx : List CTransaction) : ConnectCall where
  ctx := tipContext g.state.tip
  block := plainBlock g.state.tip.hash vtx
  pindex := ⟨(plainBlock g.state.tip.hash vtx).getHash E.crypto, g.state.tip.hash,
    g.state.tip.nHeight + 1, 0⟩
  view := g.view

/-- Every entry of the cache is dirty, and its coin can be spent. -/
def isClean (g : Grown) : Bool :=
  g.view.cacheCoins.toList.all fun p ↦ p.2.fDirty && !CScript.isUnspendable p.2.coin.out.scriptPubKey

def step (g : Grown) (vtx : List CTransaction) : Option Grown :=
  let c := g.call E vtx
  match c.run E g.state.node with
  | (G, .ok connected) =>
    if c.block.getHash E.crypto ≠ E.consensus.hashGenesisBlock ∧ g.isClean then
      some ⟨g.state.connect c G connected, connected.view⟩
    else none
  | (_, .error _) => none

def grow (g : Grown) (blocks : List (List CTransaction)) : Option Grown := blocks.foldlM (step E) g

/-- The genesis block of the network, with an empty database. -/
def genesis (masternodes : Masternode.MasternodeState) : Grown where
  state := ⟨⟨E.consensus.hashGenesisBlock, 0, 0, 0⟩, [], Ledger.empty, ⟨masternodes, ∅, 0⟩⟩
  view := .ofBase { getCoin := fun _ ↦ none, hashBlock := E.consensus.hashGenesisBlock }

/-- The cache has the coins of the tip, and there is nothing below it. -/
structure Good (g : Grown) : Prop where
  base : ∀ o, g.view.base.getCoin o = none
  utxo : g.view.utxo = g.state.utxo

variable {E} {g g' : Grown} {vtx : List CTransaction}

theorem good_genesis (masternodes : Masternode.MasternodeState) : (genesis E masternodes).Good where
  base := fun _ ↦ rfl
  utxo := by
    funext o
    rw [utxo_of_not_cached (by simp [genesis, ofBase])]
    rfl

theorem Good.seesStored (h : g.Good) (hclean : g.isClean = true) : SeesStored g.state g.view := by
  have hentry : ∀ (o : COutPoint) entry, g.view.cacheCoins[o]? = some entry →
      entry.fDirty = true ∧ CScript.isUnspendable entry.coin.out.scriptPubKey = false := by
    intro o entry hentry
    have hall := List.all_eq_true.1 hclean (o, entry)
      (Std.ExtTreeMap.mem_toList_iff_getElem?_eq_some.2 hentry)
    simpa using hall
  refine ⟨⟨⟨fun o _ _ _ ↦ ?_, fun o entry hcached hdirty ↦ ?_⟩, h.utxo⟩, fun o entry hcached ↦
    (hentry o entry hcached).2, fun o coin hcoin ↦ ?_⟩
  · rw [h.base o]
    rfl
  · rw [(hentry o entry hcached).1] at hdirty
    cases hdirty
  · rw [h.base o] at hcoin
    cases hcoin

theorem step_eq_some (h : g.step E vtx = some g') (hgood : g.Good) :
    (g.call E vtx).OnTip E g.state ∧ SeesStored g.state (g.call E vtx).view ∧ g'.Good ∧
      ∃ G connected, (g.call E vtx).run E g.state.node = (G, .ok connected) ∧
        g'.state = g.state.connect (g.call E vtx) G connected := by
  simp only [step] at h
  split at h
  · rename_i G connected hrun
    split_ifs at h with hif
    obtain rfl := Option.some.inj h
    refine ⟨⟨rfl, if_pos rfl, rfl, rfl, rfl, rfl, hif.1, nofun⟩, hgood.seesStored hif.2, ⟨fun o ↦ ?_, rfl⟩,
      G, connected, hrun, rfl⟩
    show connected.view.base.getCoin o = none
    rw [ConnectCall.base_of_run hif.1 hrun]
    exact hgood.base o
  · cases h

/-- **What connections keep** holds of a chain that has grown. -/
theorem induction {motive : ChainState → Prop} (hgood : g.Good) (h : motive g.state)
    (hconnect : ∀ s c G connected, motive s → c.OnTip E s → SeesStored s c.view →
      c.run E s.node = (G, .ok connected) → motive (s.connect c G connected))
    {blocks : List (List CTransaction)} (hgrow : g.grow E blocks = some g') :
    motive g'.state ∧ g'.Good := by
  induction blocks generalizing g with
  | nil =>
    obtain rfl := Option.some.inj hgrow
    exact ⟨h, hgood⟩
  | cons vtx blocks ih =>
    rw [grow, List.foldlM_cons, Option.bind_eq_bind, Option.bind_eq_some_iff] at hgrow
    obtain ⟨g₁, hstep, hrest⟩ := hgrow
    obtain ⟨htip, hsees, hgood₁, G, connected, hrun, hstate⟩ := step_eq_some hstep hgood
    exact ih hgood₁ (hstate ▸ hconnect _ _ _ _ h htip hsees hrun) hrest

end Grown

end KristaTech
