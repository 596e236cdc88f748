import KristaTech.Validation.VerifyDB
import KristaTech.Validation.ConnectFailure
import KristaTech.Masternode.Pins

/-!
# What verifying the chain changes

The verification works on a copy of the coins, but on the node's own masternode state, burn cache and
money supply. If no block is disconnected it changes none of them. If the tip is disconnected, then
the money supply and the burn cache may come back when the blocks are connected again, but the
masternode state does not: `ConnectBlock` leaves it alone while `fVerifyingBlocks` is set, and
`DisconnectBlock` does not. A key that was active at the tip, or pinned there, no longer is
(`Unmarked`), and nothing in the rest of the verification brings it back.
-/

namespace KristaTech

open Masternode

/-! ### Disconnecting -/

section Disconnecting

variable {E : ValidationEnv} {D : DisconnectInput} {G : NodeState} {block : CBlock}
  {vtxundo : Option (List CTxUndo)} {view : CCoinsViewCache}

/-- `DisconnectBlock` takes a burn out of the cache: the loop over the transactions is reached, and
one of the transactions that are undone has its burn in the cache. -/
def RemovesBurn (E : ValidationEnv) (D : DisconnectInput) (G : NodeState) (block : CBlock)
    (vtxundo : Option (List CTxUndo)) (view : CCoinsViewCache) : Prop :=
  D.pindex.hash = view.getBestBlock ∧ ∃ us, vtxundo = some us ∧ us.length + 1 = block.vtx.length ∧
    ∃ mid p b, List.Acts (DisconnectInput.undoTx E) (DisconnectInput.countInputs E)
      (undoneTxs block us) { view := view } mid p ∧ D.burn E mid p.1 = some b ∧
      G.mapAddressBurns.removeBurnFromCache b.1 b.2 ≠ G.mapAddressBurns

theorem removeBurn_load_lt (acc : DisconnectState) (p : UndoneTx) (burns : BurnCache)
    (h : D.removeBurn E acc p burns ≠ burns) : (D.removeBurn E acc p burns).load < burns.load := by
  rw [DisconnectInput.removeBurn] at h ⊢
  cases hburn : D.burn E acc p.1 with
  | none => simp [hburn] at h
  | some b =>
    rw [hburn] at h
    exact burns.removeBurnFromCache_load_lt b.1 b.2 h

theorem undoTxs_fst_eq_iff (ps : List UndoneTx) (burns : BurnCache) (acc : DisconnectState) :
    (D.undoTxs E ps burns acc).1 = burns ↔
      ∀ mid p, List.Acts (DisconnectInput.undoTx E) (DisconnectInput.countInputs E) ps acc mid p →
        D.removeBurn E mid p burns = burns := by
  rw [DisconnectInput.undoTxs, List.effectLoop_fst_eq_iff (μ := OrderDual.toDual ∘ BurnCache.load)]
  exact fun acc p burns h ↦ removeBurn_load_lt acc p burns h

theorem disconnectBlock_fst_eq_iff_of_error {e : DisconnectError}
    (hfail : (disconnectBlock E D G block vtxundo view).2 = .error e) :
    (disconnectBlock E D G block vtxundo view).1 = G ↔ ¬RemovesBurn E D G block vtxundo view := by
  simp only [disconnectBlock] at hfail ⊢
  split_ifs at hfail ⊢ with hhash
  · exact iff_of_true rfl fun h ↦ hhash h.1
  · cases vtxundo with
    | none => exact iff_of_true rfl fun ⟨_, us, hus, _⟩ ↦ by simp at hus
    | some us =>
      simp only at hfail ⊢
      split_ifs at hfail ⊢ with hlength
      · exact iff_of_true rfl fun ⟨_, us', hus, hlen, _⟩ ↦ by
          cases hus
          exact hlength hlen
      · have hburns := undoTxs_fst_eq_iff (E := E) (D := D) (undoneTxs block us) G.mapAddressBurns
          { view := view }
        generalize D.undoTxs E (undoneTxs block us) G.mapAddressBurns { view := view } = loop
          at hfail hburns ⊢
        obtain ⟨burns, result⟩ := loop
        cases result with
        | ok acc => simp at hfail
        | error e =>
          have hstate : ({ G with mapAddressBurns := burns } : NodeState) = G ↔ burns = G.mapAddressBurns :=
            ⟨congrArg NodeState.mapAddressBurns, fun h ↦ by rw [h]⟩
          rw [hstate, hburns]
          constructor
          · rintro h ⟨-, us', hus, -, mid, p, b, hacts, hb, hne⟩
            cases hus
            have hself := h mid p hacts
            rw [DisconnectInput.removeBurn, hb] at hself
            exact hne hself
          · intro h mid p hacts
            rw [DisconnectInput.removeBurn]
            split
            · rename_i b hb
              by_contra hne
              exact h ⟨not_not.1 hhash, us, rfl, not_not.1 hlength, mid, p, b, hacts, hb, hne⟩
            · rfl

end Disconnecting

/-! ### The marks of a height -/

/-- A masternode key is active at the height, or its BLS key was pinned there. -/
def Masternode.MasternodeState.MarkedAt (s : MasternodeState) (nHeight : ℤ) : Prop :=
  ∃ k : CPubKey, (∃ S, s.registry.mapMasternodeActiveHeights[k]? = some S ∧ nHeight ∈ S) ∨
    ∃ pk, s.pins[k]? = some (pk, nHeight)

section Marks

variable (E : ActivityEnv) (view : CoinLookup) (readBlock : ℤ → Option CBlock)

/-- The state is one of a lower tip, and nothing of the height is left in it. -/
structure Below (nHeight nTip : ℤ) (s : MasternodeState) : Prop where
  inv : s.Inv nTip noPending
  lt : nTip < nHeight
  unpinned : ∀ (k : CPubKey) (pk : CBLSPubKey), s.pins[k]? ≠ some (pk, nHeight)

variable {E view readBlock} {s : MasternodeState} {nHeight nTip : ℤ}

theorem Below.not_markedAt (h : Below nHeight nTip s) : ¬s.MarkedAt nHeight := by
  rintro ⟨k, ⟨S, hS, hmem⟩ | ⟨pk, hpin⟩⟩
  · have := (h.inv.registry.heights k S hS).2 nHeight hmem
    have := h.lt
    omega
  · exact h.unpinned k pk hpin

theorem below_disconnect_tip (h : s.Inv nHeight noPending) (block : CBlock) :
    Below nHeight (nHeight - 1) (disconnectMasternodes E view readBlock s block nHeight) where
  inv := h.disconnect readBlock block
  lt := by omega
  unpinned k pk hpin := by
    rw [pins_disconnectMasternodes] at hpin
    rw [getElem?_unpin, Option.filter_eq_some_iff] at hpin
    exact absurd hpin.2 (by simp)

theorem Below.disconnect (h : Below nHeight nTip s) (block : CBlock) :
    Below nHeight (nTip - 1) (disconnectMasternodes E view readBlock s block nTip) where
  inv := h.inv.disconnect readBlock block
  lt := by have := h.lt; omega
  unpinned k pk hpin := by
    rw [pins_disconnectMasternodes] at hpin
    rw [getElem?_unpin, Option.filter_eq_some_iff] at hpin
    exact h.unpinned k pk hpin.1

end Marks

/-! ### Connecting again -/

variable {ctx : ChainContext}

theorem connectBlock_masternodes (E : ValidationEnv) (hctx : ctx.fVerifyingBlocks = true)
    (G : NodeState) (block : CBlock) (pindex : CBlockIndex) (view : CCoinsViewCache)
    (disk : DiskOutcome) :
    (connectBlock E ctx G block pindex view disk false false).1.masternodes = G.masternodes := by
  simp only [connectBlock, finishConnect, hctx, if_true, Bool.false_eq_true, if_false]
  repeat' split
  all_goals rfl

theorem connectBlock_masternodes_of_ok {E : ValidationEnv} {G : NodeState} {block : CBlock}
    {pindex : CBlockIndex} {view : CCoinsViewCache} {disk : DiskOutcome} {fAlreadyChecked : Bool}
    {connected : Connected} (hctx : ctx.fVerifyingBlocks = false)
    (hgenesis : block.getHash E.crypto ≠ E.consensus.hashGenesisBlock)
    (h : (connectBlock E ctx G block pindex view disk false fAlreadyChecked).2 = .ok connected) :
    (connectBlock E ctx G block pindex view disk false fAlreadyChecked).1.masternodes =
      registerBlockMasternodeActivity E.toActivityEnv connected.view.getCoin G.masternodes block
        pindex.nHeight := by
  simp only [connectBlock, hgenesis, if_false, finishConnect, hctx, Bool.false_eq_true] at h ⊢
  repeat' split at h
  all_goals first | contradiction | skip
  cases h
  rfl

namespace VerifyInput

variable {E : ValidationEnv} {V : VerifyInput} {nCheckLevel nLowest nHeight : ℤ}

theorem reconnectBlocks_masternodes (blocks : List CBlockIndex) (G : NodeState) (coins : CCoinsViewCache) :
    (V.reconnectBlocks E blocks G coins).1.masternodes = G.masternodes := by
  induction blocks generalizing G coins with
  | nil => rfl
  | cons pindex rest ih =>
    rw [reconnectBlocks]
    split
    · rfl
    · rename_i block _
      have hctx : V.verifyingCtx.fVerifyingBlocks = true := rfl
      have hconnect := connectBlock_masternodes E hctx G block pindex coins (V.disk pindex)
      split <;> rename_i heq <;> rw [heq] at hconnect
      · exact hconnect
      · exact hconnect
      · rw [ih]
        exact hconnect

/-! ### The loop over the chain -/

variable {block : CBlock} {e : DisconnectError}

theorem disconnectBlock_masternodes {D : DisconnectInput} {G' : NodeState}
    {vtxundo : Option (List CTxUndo)} {view : CCoinsViewCache}
    {r : Except DisconnectError (CCoinsViewCache × Bool)}
    (h : disconnectBlock E D G block vtxundo view = (G', r)) :
    (∃ e, r = .error e) ∧ G'.masternodes = G.masternodes ∨
      ∃ v, r = .ok v ∧ G'.masternodes = disconnectMasternodes E.toActivityEnv v.1.getCoin D.readBlock
        G.masternodes block D.pindex.nHeight := by
  simp only [disconnectBlock] at h
  repeat' split at h
  all_goals
    obtain ⟨rfl, rfl⟩ := Prod.mk.inj h
    first | exact Or.inl ⟨⟨_, rfl⟩, rfl⟩ | exact Or.inr ⟨_, rfl, rfl⟩

theorem below_verifyBlocks (blocks : List CBlockIndex)
    (hchain : blocks.IsChain fun pindex pprev ↦ pindex.nHeight = pprev.nHeight + 1)
    (st : VerifyState) (h : Below nHeight st.pindexState.nHeight st.G.masternodes) :
    let st' := (V.verifyBlocks E nCheckLevel nLowest blocks st).1
    Below nHeight st'.pindexState.nHeight st'.G.masternodes := by
  induction blocks generalizing st with
  | nil => exact h
  | cons pindex rest ih =>
    cases rest with
    | nil => exact h
    | cons pprev rest =>
      rw [List.isChain_cons_cons] at hchain
      rw [verifyBlocks]
      split
      · exact h
      · split
        · exact h
        · rename_i block _
          have hstep : Below nHeight
              (V.disconnectStored E nCheckLevel pindex pprev block st).1.pindexState.nHeight
              (V.disconnectStored E nCheckLevel pindex pprev block st).1.G.masternodes := by
            rw [disconnectStored]
            split_ifs with hcalled
            · obtain ⟨-, rfl, -⟩ := hcalled
              split <;> rename_i heq <;>
                rcases disconnectBlock_masternodes heq with ⟨⟨e, he⟩, hG⟩ | ⟨v, hv, hG⟩
              · rw [hG]; exact h
              · simp at hv
              · rw [hG]; exact h
              · simp at hv
              · simp at he
              · show Below nHeight pprev.nHeight _
                rw [hG, show pprev.nHeight = st.pindexState.nHeight - 1 by omega]
                exact h.disconnect block
            · exact h
          split <;> rename_i heq <;> rw [heq] at hstep
          · exact hstep
          · split_ifs
            · exact hstep
            · exact ih hchain.2 _ hstep

theorem verifyBlocks_idle (blocks : List CBlockIndex) (st : VerifyState)
    (h : nCheckLevel < 3 ∨ st.pindexState ∉ blocks) :
    (V.verifyBlocks E nCheckLevel nLowest blocks st).1 = st := by
  induction blocks with
  | nil => rfl
  | cons pindex rest ih =>
    cases rest with
    | nil => rfl
    | cons pprev rest =>
      have hidle (block : CBlock) :
          V.disconnectStored E nCheckLevel pindex pprev block st = (st, none) := by
        rw [disconnectStored, if_neg]
        rintro ⟨hlevel, rfl, -⟩
        rcases h with h | h
        · omega
        · simp at h
      rw [verifyBlocks]
      split
      · rfl
      · split
        · rfl
        · rw [hidle]
          simp only
          split_ifs
          · rfl
          · exact ih (h.imp id fun h hmem ↦ h (List.mem_cons_of_mem _ hmem))

/-! ### The whole verification -/

/-- The verification touches the tip: it calls `DisconnectBlock` for it, and this succeeds or takes a
burn out of the cache before it fails. -/
def TouchesTip (E : ValidationEnv) (V : VerifyInput) (nCheckLevel : ℤ) (coinsview : CCoinsView)
    (G : NodeState) : Prop :=
  ∃ tip pprev rest block, V.chain = tip :: pprev :: rest ∧ 3 ≤ clampLevel nCheckLevel ∧
    V.checkStored E (clampLevel nCheckLevel) G.masternodes tip = .ok block ∧
    V.fitsCache (.ofBase coinsview) = true ∧
    ((∃ v, (disconnectBlock E (V.disconnectInput tip) G block (V.vtxundo tip)
        (.ofBase coinsview)).2 = .ok v) ∨
      RemovesBurn E (V.disconnectInput tip) G block (V.vtxundo tip) (.ofBase coinsview))

variable {nCheckDepth : ℤ} {coinsview : CCoinsView} {G : NodeState} {tip pprev : CBlockIndex}
  {rest : List CBlockIndex}

theorem not_lt_lowestHeight (d : ℤ) (htip : 0 ≤ tip.nHeight) :
    ¬tip.nHeight < lowestHeight tip.nHeight d := by
  rw [lowestHeight]
  split_ifs <;> omega

theorem tip_not_mem (hchain : V.chain = tip :: pprev :: rest) : tip ∉ pprev :: rest := by
  intro hmem
  have hlt : ∀ pindex ∈ pprev :: rest, pindex.nHeight < tip.nHeight := by
    have hpair := (List.isChain_iff_pairwise (R := fun a b : CBlockIndex ↦ b.nHeight < a.nHeight)).1
      ((hchain ▸ V.heights).imp fun a b h ↦ by omega)
    exact (List.pairwise_cons.1 hpair).1
  exact lt_irrefl _ (hlt tip hmem)

/-- A call of `DisconnectBlock` that fails ends the loop. -/
theorem disconnectStored_of_error {pindex : CBlockIndex} (pprev : CBlockIndex) (st : VerifyState)
    (hcalled : 3 ≤ nCheckLevel ∧ pindex = st.pindexState ∧ V.fitsCache st.coins)
    (hresult : (disconnectBlock E (V.disconnectInput pindex) st.G block (V.vtxundo pindex)
      st.coins).2 = .error e) : ∃ r, V.disconnectStored E nCheckLevel pindex pprev block st =
      ({ st with G := (disconnectBlock E (V.disconnectInput pindex) st.G block (V.vtxundo pindex)
        st.coins).1 }, some r) := by
  rw [disconnectStored, if_pos hcalled]
  generalize disconnectBlock E (V.disconnectInput pindex) st.G block (V.vtxundo pindex) st.coins = d
    at hresult ⊢
  obtain ⟨G', result⟩ := d
  obtain rfl : result = .error e := hresult
  cases e <;> exact ⟨_, rfl⟩

section Tip

variable {block : CBlock} {st st' : VerifyState}

theorem verifyBlocks_tip_some {r : VerifyResult} (hlowest : ¬tip.nHeight < nLowest)
    (hstep : V.disconnectStored E nCheckLevel tip pprev block st = (st', some r))
    (hstored : V.checkStored E nCheckLevel st.G.masternodes tip = .ok block) :
    V.verifyBlocks E nCheckLevel nLowest (tip :: pprev :: rest) st = (st', some r) := by
  simp only [verifyBlocks, if_neg hlowest, hstored, hstep]

theorem verifyBlocks_tip_none (hlowest : ¬tip.nHeight < nLowest)
    (hstep : V.disconnectStored E nCheckLevel tip pprev block st = (st', none))
    (hstored : V.checkStored E nCheckLevel st.G.masternodes tip = .ok block) :
    V.verifyBlocks E nCheckLevel nLowest (tip :: pprev :: rest) st =
      if V.shutdownRequested tip then (st', some .verified)
      else V.verifyBlocks E nCheckLevel nLowest (pprev :: rest) st' := by
  simp only [verifyBlocks, if_neg hlowest, hstored, hstep]

end Tip

theorem verifyBlocks_of_not_touchesTip (hchain : V.chain = tip :: pprev :: rest)
    (h : ¬TouchesTip E V nCheckLevel coinsview G) {st : VerifyState}
    (hst : st = ⟨G, .ofBase coinsview, tip, [], false⟩) (hlowest : ¬tip.nHeight < nLowest) :
    (V.verifyBlocks E (clampLevel nCheckLevel) nLowest (tip :: pprev :: rest) st).1.G = G ∧
      ((V.verifyBlocks E (clampLevel nCheckLevel) nLowest (tip :: pprev :: rest) st).2 = none →
        (V.verifyBlocks E (clampLevel nCheckLevel) nLowest (tip :: pprev :: rest) st).1 = st) := by
  have hG : st.G = G := by rw [hst]
  cases hstored : V.checkStored E (clampLevel nCheckLevel) st.G.masternodes tip with
  | error r => simp only [verifyBlocks, hlowest, if_false, hstored]; exact ⟨hG, nofun⟩
  | ok block =>
    by_cases hcalled : 3 ≤ clampLevel nCheckLevel ∧ tip = st.pindexState ∧ V.fitsCache st.coins
    · cases hresult : (disconnectBlock E (V.disconnectInput tip) st.G block (V.vtxundo tip) st.coins).2 with
      | ok v =>
        subst hst
        exact absurd ⟨tip, pprev, rest, block, hchain, hcalled.1, hstored, hcalled.2.2,
          Or.inl ⟨v, hresult⟩⟩ h
      | error e =>
        -- the call fails, without having taken out a burn
        obtain ⟨r, hr⟩ := disconnectStored_of_error pprev st hcalled hresult
        have hsame := (disconnectBlock_fst_eq_iff_of_error hresult).2 fun hburn ↦ by
          subst hst
          exact h ⟨tip, pprev, rest, block, hchain, hcalled.1, hstored, hcalled.2.2, Or.inr hburn⟩
        rw [verifyBlocks_tip_some hlowest hr hstored, hsame]
        exact ⟨hG, nofun⟩
    · have hrest : (V.verifyBlocks E (clampLevel nCheckLevel) nLowest (pprev :: rest) st).1 = st :=
        verifyBlocks_idle _ _ (Or.inr (by rw [hst]; exact tip_not_mem hchain))
      have hstep : V.disconnectStored E (clampLevel nCheckLevel) tip pprev block st = (st, none) := by
        rw [disconnectStored, if_neg hcalled]
      rw [verifyBlocks_tip_none hlowest hstep hstored]
      by_cases hshutdown : V.shutdownRequested tip = true <;> simp [hshutdown, hrest, hG]

/-- **If the tip is not touched, nothing is changed.** -/
theorem verifyDB_eq_self (h : ¬TouchesTip E V nCheckLevel coinsview G) :
    (V.verifyDB E nCheckLevel nCheckDepth coinsview G).1 = G := by
  simp only [verifyDB]
  split
  · rename_i tip pprev rest hchain
    obtain ⟨hG, hend⟩ := verifyBlocks_of_not_touchesTip hchain h rfl
      (not_lt_lowestHeight nCheckDepth (V.nonneg tip (by simp [hchain])))
    split
    · rename_i heq
      rw [heq] at hG
      exact hG
    · rename_i st heq
      rw [heq] at hend
      rw [show st = _ from hend rfl]
      split_ifs <;> rfl
  · rfl

variable (nCheckDepth) in
theorem verifyDB_not_markedAt {v : CCoinsViewCache × Bool} (hchain : V.chain = tip :: pprev :: rest)
    (hreach : Reachable G.masternodes tip.nHeight)
    (hcalled : 3 ≤ clampLevel nCheckLevel ∧ V.fitsCache (.ofBase coinsview) = true)
    (hstored : V.checkStored E (clampLevel nCheckLevel) G.masternodes tip = .ok block)
    (hresult : (disconnectBlock E (V.disconnectInput tip) G block (V.vtxundo tip)
      (.ofBase coinsview)).2 = .ok v) :
    ¬(V.verifyDB E nCheckLevel nCheckDepth coinsview G).1.masternodes.MarkedAt tip.nHeight := by
  have hbelow (st : VerifyState) (hst : st = ⟨G, .ofBase coinsview, tip, [], false⟩)
      (nLowest : ℤ) (hlowest : ¬tip.nHeight < nLowest) :
      Below tip.nHeight (V.verifyBlocks E (clampLevel nCheckLevel) nLowest (tip :: pprev :: rest)
          st).1.pindexState.nHeight
        (V.verifyBlocks E (clampLevel nCheckLevel) nLowest (tip :: pprev :: rest) st).1.G.masternodes := by
    have hheights := V.heights
    rw [hchain, List.isChain_cons_cons] at hheights
    subst hst
    obtain ⟨G', hdisconnect⟩ : ∃ G', disconnectBlock E (V.disconnectInput tip) G block
        (V.vtxundo tip) (.ofBase coinsview) = (G', .ok v) := ⟨_, Prod.ext rfl hresult⟩
    have hG' : Below tip.nHeight pprev.nHeight G'.masternodes := by
      rcases disconnectBlock_masternodes hdisconnect with ⟨⟨e, he⟩, -⟩ | ⟨v', -, hG'⟩
      · simp at he
      · rw [hG', show pprev.nHeight = tip.nHeight - 1 by omega]
        exact below_disconnect_tip hreach.inv block
    have hstep : V.disconnectStored E (clampLevel nCheckLevel) tip pprev block
        ⟨G, .ofBase coinsview, tip, [], false⟩ = (⟨G', v.1, pprev, [tip], !v.2⟩, none) := by
      rw [disconnectStored, if_pos ⟨hcalled.1, rfl, hcalled.2⟩]
      simp only [hdisconnect, Bool.false_or]
    rw [verifyBlocks_tip_none hlowest hstep hstored]
    split_ifs
    · exact hG'
    · exact below_verifyBlocks (pprev :: rest) hheights.2 _ hG'
  have hloop := hbelow _ rfl _ (not_lt_lowestHeight nCheckDepth (V.nonneg tip (by simp [hchain])))
  simp only [verifyDB, hchain]
  split <;> rename_i heq <;> rw [heq] at hloop
  · exact hloop.not_markedAt
  · split_ifs
    · exact hloop.not_markedAt
    · rw [reconnectBlocks_masternodes]
      exact hloop.not_markedAt
    · exact hloop.not_markedAt

/-- A call of `DisconnectBlock` for the tip that takes out a burn and then fails. -/
theorem verifyDB_of_error (hchain : V.chain = tip :: pprev :: rest)
    (hcalled : 3 ≤ clampLevel nCheckLevel ∧ V.fitsCache (.ofBase coinsview) = true)
    (hstored : V.checkStored E (clampLevel nCheckLevel) G.masternodes tip = .ok block)
    (hresult : (disconnectBlock E (V.disconnectInput tip) G block (V.vtxundo tip)
      (.ofBase coinsview)).2 = .error e) : (V.verifyDB E nCheckLevel nCheckDepth coinsview G).1 =
      (disconnectBlock E (V.disconnectInput tip) G block (V.vtxundo tip) (.ofBase coinsview)).1 := by
  have hlowest := not_lt_lowestHeight nCheckDepth (V.nonneg tip (by simp [hchain]))
  obtain ⟨r, hr⟩ := disconnectStored_of_error pprev
    ⟨G, .ofBase coinsview, tip, [], false⟩ ⟨hcalled.1, rfl, hcalled.2⟩ hresult
  simp only [verifyDB, hchain, verifyBlocks_tip_some hlowest hr hstored]

variable (E V nCheckLevel nCheckDepth coinsview G) in
/-- **When verifying the chain is read-only.** If the tip is not touched, the money supply, the burn
cache and the masternode state are as before. And if a masternode key is active or pinned at the tip,
then they are as before only if the tip is not touched, whatever the verification finds and wherever
it stops. -/
theorem verifyDB_unchanged : (¬TouchesTip E V nCheckLevel coinsview G →
      (V.verifyDB E nCheckLevel nCheckDepth coinsview G).1 = G) ∧
    ∀ tip, V.chain.head? = some tip → Reachable G.masternodes tip.nHeight →
      G.masternodes.MarkedAt tip.nHeight →
      ((V.verifyDB E nCheckLevel nCheckDepth coinsview G).1 = G ↔
        ¬TouchesTip E V nCheckLevel coinsview G) := by
  refine ⟨verifyDB_eq_self, fun tip htip hreach hmarked ↦ ⟨?_, verifyDB_eq_self⟩⟩
  rintro heq ⟨tip', pprev, rest, block, hchain, hlevel, hstored, hfits, htouched⟩
  obtain rfl : tip' = tip := by simpa [hchain] using htip
  cases hresult : (disconnectBlock E (V.disconnectInput tip') G block (V.vtxundo tip')
      (.ofBase coinsview)).2 with
  | ok v =>
    refine verifyDB_not_markedAt nCheckDepth hchain hreach ⟨hlevel, hfits⟩ hstored hresult ?_
    rwa [heq]
  | error e =>
    have hburn : RemovesBurn E (V.disconnectInput tip') G block (V.vtxundo tip') (.ofBase coinsview) :=
      htouched.resolve_left fun ⟨v, hv⟩ ↦ by simp [hv] at hresult
    rw [verifyDB_of_error hchain ⟨hlevel, hfits⟩ hstored hresult] at heq
    exact (disconnectBlock_fst_eq_iff_of_error hresult).1 heq hburn

end VerifyInput

/-! ### A masternode that is forgotten -/

section Forgotten

def genesisIndex : CBlockIndex := ⟨1, 0, 0, 0⟩

/-- The collateral of the key, and a coin that anyone can spend. -/
def pingView : CCoinsViewCache := .ofBase
  { getCoin := fun o ↦
      if o = exampleCollateral 1 then exampleView o
      else if o = ⟨9, 0⟩ then some ⟨false, false, ⟨0, [Opcode.OP_1.toByte]⟩, 1⟩ else none
    hashBlock := 1 }

def pingBlock : CBlock where
  nVersion := 1
  hashPrevBlock := 1
  hashMerkleRoot := 0
  nTime := 0
  nBits := 0
  nNonce := 0
  vtx := [coinbaseTx 0, examplePingTx 1]

def pingIndex : CBlockIndex := ⟨pingBlock.getHash default, 1, 1, 0⟩

def pingContext (tip : CBlockIndex) : ChainContext where
  mapBlockIndex hash := if hash = 1 then some genesisIndex else none
  tip := some tip
  contains hash := hash == 1 || hash == tip.hash
  isInitialBlockDownload := false
  fReindex := false
  fVerifyingBlocks := false
  fMasternodePingStateInitialized := true

def connectPing : NodeState × Except ValidationError Connected :=
  connectBlock default (pingContext genesisIndex) emptyNode pingBlock pingIndex pingView {} false false

def pinged : Connected := connectPing.2.okOr ⟨pingView, []⟩

/-- The chain of the two blocks, with everything on the disk as it was written. -/
def pingVerify : VerifyInput where
  ctx := pingContext pingIndex
  chain := [pingIndex, genesisIndex]
  heights := by decide
  nonneg := by decide
  readBlockFromDisk pindex := if pindex = pingIndex then some pingBlock else none
  hasUndoPos pindex := pindex = pingIndex
  undoReadFromDisk pindex := if pindex = pingIndex then some pinged.blockundo else none
  getTransaction _ := none
  fitsCache _ := true
  shutdownRequested _ := false
  disk _ := {}

def pingCoins : CCoinsView := ⟨pinged.view.getCoin, pinged.view.getBestBlock⟩

/-- **A verification that succeeds and forgets a masternode.** The key pings in the tip, so it is
active and bound to its collateral. The chain is verified as the `verifychain` command does it;
nothing is found, but the key is no longer active or bound. -/
theorem verifyDB_forgets :
    connectPing.1.masternodes.registry.mapMasternodeCollateralOutpoints[exampleKey]? =
        some (exampleCollateral 1) ∧
      (pingVerify.verifyDB default 4 0 pingCoins connectPing.1).2 = .verified ∧
      (pingVerify.verifyDB default 4 0 pingCoins
        connectPing.1).1.masternodes.registry.mapMasternodeCollateralOutpoints[exampleKey]? = none := by
  decide +kernel

theorem reachable_connectPing : Reachable connectPing.1.masternodes pingIndex.nHeight := by
  have hok : connectPing.2 = .ok pinged := Except.eq_ok_okOr (by decide +kernel) _
  have hgenesis : pingBlock.getHash (default : ValidationEnv).crypto ≠
      (default : ValidationEnv).consensus.hashGenesisBlock := by decide +kernel
  rw [connectPing, connectBlock_masternodes_of_ok rfl hgenesis hok]
  exact Reachable.start.connect _ _ _

theorem markedAt_connectPing : connectPing.1.masternodes.MarkedAt pingIndex.nHeight := by
  have hactive : (connectPing.1.masternodes.registry.mapMasternodeActiveHeights[exampleKey]?).any
      (·.contains pingIndex.nHeight) = true := by decide +kernel
  refine ⟨exampleKey, Or.inl ?_⟩
  generalize connectPing.1.masternodes.registry.mapMasternodeActiveHeights[exampleKey]? = S at hactive ⊢
  cases S with
  | none => simp at hactive
  | some S => exact ⟨S, rfl, Std.ExtTreeSet.mem_iff_contains.2 hactive⟩

/-- The verification of the two blocks, by the general statement. -/
theorem verifyDB_unchanged_ping :
    (pingVerify.verifyDB default 4 0 pingCoins connectPing.1).1 = connectPing.1 ↔
      ¬VerifyInput.TouchesTip default pingVerify 4 pingCoins connectPing.1 :=
  (VerifyInput.verifyDB_unchanged default pingVerify 4 0 pingCoins connectPing.1).2 pingIndex rfl
    reachable_connectPing markedAt_connectPing

end Forgotten

end KristaTech
