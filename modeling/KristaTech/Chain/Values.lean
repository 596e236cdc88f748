import KristaTech.Chain.Utxo

/-!
# Coins and their values in any view

What holds of a view whether or not its flags are true: the operations for an outpoint touch no other
(`CCoinsViewCache.AltersOnly`), spending returns the coin that is read, and a coin whose script
cannot be spent never gets into a view (`CCoinsViewCache.Spendable`).
-/

namespace KristaTech

open List

namespace CCoinsViewCache

variable {view view' view'' : CCoinsViewCache} {o o' : COutPoint} {coin : Coin}

/-! ### One outpoint -/

/-- At most the entry of one outpoint is changed. -/
structure AltersOnly (o : COutPoint) (view view' : CCoinsViewCache) : Prop where
  base : view'.base = view.base
  hashBlock : view'.hashBlock = view.hashBlock
  others : ∀ o', o' ≠ o → view'.cacheCoins[o']? = view.cacheCoins[o']?

namespace AltersOnly

theorem refl (o : COutPoint) (view : CCoinsViewCache) : AltersOnly o view view := ⟨rfl, rfl, fun _ _ ↦ rfl⟩

theorem trans (h : AltersOnly o view view') (h' : AltersOnly o view' view'') : AltersOnly o view view'' :=
  ⟨h'.base.trans h.base, h'.hashBlock.trans h.hashBlock, fun o' ho ↦
    (h'.others o' ho).trans (h.others o' ho)⟩

theorem getBestBlock (h : AltersOnly o view view') : view'.getBestBlock = view.getBestBlock := by
  rw [CCoinsViewCache.getBestBlock, h.hashBlock, h.base, ← CCoinsViewCache.getBestBlock]

theorem getCoin_of_ne (h : AltersOnly o view view') (ho : o' ≠ o) : view'.getCoin o' = view.getCoin o' := by
  rw [getCoin, h.others o' ho, h.base, ← getCoin]

theorem accessCoin_of_ne (h : AltersOnly o view view') (ho : o' ≠ o) :
    view'.accessCoin o' = view.accessCoin o' := by
  rw [accessCoin, h.getCoin_of_ne ho, ← accessCoin]

theorem insert (view : CCoinsViewCache) (o : COutPoint) (entry : CCoinsCacheEntry) :
    AltersOnly o view { view with cacheCoins := view.cacheCoins.insert o entry } := by
  refine ⟨rfl, rfl, fun o' ho ↦ ?_⟩
  rw [Std.ExtTreeMap.getElem?_insert]
  simp [Ne.symm ho]

theorem erase (view : CCoinsViewCache) (o : COutPoint) :
    AltersOnly o view { view with cacheCoins := view.cacheCoins.erase o } := by
  refine ⟨rfl, rfl, fun o' ho ↦ ?_⟩
  rw [Std.ExtTreeMap.getElem?_erase]
  simp [Ne.symm ho]

theorem fetchCoin (view : CCoinsViewCache) (o : COutPoint) : AltersOnly o view (view.fetchCoin o) := by
  rcases view.fetchCoin_cases o with ⟨h, -⟩ | ⟨coin, -, -, h⟩ <;> rw [h]
  · exact refl o view
  · exact insert view o _

end AltersOnly

theorem spendCoin_cases (view : CCoinsViewCache) (o : COutPoint) :
    view.spendCoin o = (Coin.empty, view.fetchCoin o) ∧ view.getCoin o = none ∨
      ∃ entry : CCoinsCacheEntry, view.getCoin o = some entry.coin ∧ view.spendCoin o = (entry.coin,
        { view.fetchCoin o with cacheCoins :=
          if entry.fFresh then (view.fetchCoin o).cacheCoins.erase o
          else (view.fetchCoin o).cacheCoins.insert o ⟨Coin.empty, true, entry.fFresh⟩ }) := by
  have hsame : (view.fetchCoin o).getCoin o = view.getCoin o := getCoin_fetchCoin
  rw [spendCoin, ← hsame]
  cases hentry : (view.fetchCoin o).cacheCoins[o]? with
  | none =>
    refine Or.inl ⟨rfl, ?_⟩
    rw [getCoin, hentry]
    rcases view.fetchCoin_cases o with ⟨heq, hnone⟩ | ⟨coin, -, -, heq⟩ <;> rw [heq] at hentry ⊢
    · exact hnone hentry
    · simp at hentry
  | some entry => exact Or.inr ⟨entry, by rw [getCoin, hentry], rfl⟩

theorem spendCoin_fst : (view.spendCoin o).1 = view.accessCoin o := by
  rw [accessCoin]
  rcases view.spendCoin_cases o with ⟨h, hnone⟩ | ⟨entry, hentry, h⟩
  · rw [h, hnone, Option.getD_none]
  · rw [h, hentry, Option.getD_some]

theorem AltersOnly.spendCoin (view : CCoinsViewCache) (o : COutPoint) :
    AltersOnly o view (view.spendCoin o).2 := by
  rcases view.spendCoin_cases o with ⟨h, -⟩ | ⟨entry, -, h⟩ <;> rw [h]
  · exact .fetchCoin view o
  · refine (AltersOnly.fetchCoin view o).trans ?_
    cases entry.fFresh
    · exact .insert _ o _
    · exact .erase _ o

variable {b : Bool}

theorem addCoin_cases (h : view.addCoin o coin b = some view') :
    CScript.isUnspendable coin.out.scriptPubKey = true ∧ view' = view ∨
      CScript.isUnspendable coin.out.scriptPubKey = false ∧ ∃ entry : CCoinsCacheEntry,
        entry.coin = coin ∧ view' = { view with cacheCoins := view.cacheCoins.insert o entry } := by
  simp only [addCoin] at h
  split_ifs at h with hscript
  · exact Or.inl ⟨hscript, (Option.some.inj h).symm⟩
  · exact Or.inr ⟨by simpa using hscript, ⟨coin, true, _⟩, rfl, (Option.some.inj h).symm⟩

theorem AltersOnly.addCoin (h : view.addCoin o coin b = some view') : AltersOnly o view view' := by
  rcases addCoin_cases h with ⟨-, rfl⟩ | ⟨-, entry, -, rfl⟩
  · exact .refl o view'
  · exact .insert view o entry

theorem getCoin_of_addCoin (h : view.addCoin o coin b = some view')
    (hscript : CScript.isUnspendable coin.out.scriptPubKey = false) :
    view'.getCoin o = some coin := by
  rcases addCoin_cases h with ⟨hscript', -⟩ | ⟨-, entry, hentry, rfl⟩
  · rw [hscript] at hscript'
    cases hscript'
  · rw [getCoin]
    simp [hentry]

/-! ### Coins that can be spent -/

/-- No coin of the view has a script that cannot be spent. -/
structure Spendable (view : CCoinsViewCache) : Prop where
  cached : ∀ (o : COutPoint) entry, view.cacheCoins[o]? = some entry →
    CScript.isUnspendable entry.coin.out.scriptPubKey = false
  base : ∀ o coin, view.base.getCoin o = some coin → CScript.isUnspendable coin.out.scriptPubKey = false

namespace Spendable

theorem getCoin (h : view.Spendable) (hcoin : view.getCoin o = some coin) :
    CScript.isUnspendable coin.out.scriptPubKey = false := by
  rw [CCoinsViewCache.getCoin] at hcoin
  split at hcoin
  · rename_i entry hentry
    obtain rfl := Option.some.inj hcoin
    exact h.cached o entry hentry
  · exact h.base o coin hcoin

theorem accessCoin (h : view.Spendable) (o : COutPoint) :
    CScript.isUnspendable (view.accessCoin o).out.scriptPubKey = false := by
  rw [CCoinsViewCache.accessCoin]
  cases hcoin : view.getCoin o with
  | none => rfl
  | some coin => exact h.getCoin hcoin

theorem of_altersOnly (h : view.Spendable) (hview : AltersOnly o view view')
    (ho : ∀ entry, view'.cacheCoins[o]? = some entry →
      CScript.isUnspendable entry.coin.out.scriptPubKey = false) : view'.Spendable := by
  refine ⟨fun o' entry hentry ↦ ?_, fun o' coin hcoin ↦ h.base o' coin (hview.base ▸ hcoin)⟩
  by_cases hne : o' = o
  · exact ho entry (hne ▸ hentry)
  · exact h.cached o' entry (hview.others o' hne ▸ hentry)

theorem insert (h : view.Spendable) (o : COutPoint) {entry : CCoinsCacheEntry}
    (hentry : CScript.isUnspendable entry.coin.out.scriptPubKey = false) :
    ({ view with cacheCoins := view.cacheCoins.insert o entry } : CCoinsViewCache).Spendable := by
  refine h.of_altersOnly (.insert view o entry) fun entry' hentry' ↦ ?_
  simp only [Std.ExtTreeMap.getElem?_insert_self, Option.some.injEq] at hentry'
  exact hentry' ▸ hentry

theorem fetchCoin (h : view.Spendable) (o : COutPoint) : (view.fetchCoin o).Spendable := by
  rcases view.fetchCoin_cases o with ⟨heq, -⟩ | ⟨coin, -, hcoin, heq⟩ <;> rw [heq]
  · exact h
  · exact h.insert o (h.base o coin hcoin)

theorem haveInputs (h : view.Spendable) (tx : CTransaction) : (view.haveInputs tx).2.Spendable :=
  haveInputs_induction h (fun _ o h ↦ h.fetchCoin o) tx

theorem spendCoin (h : view.Spendable) (o : COutPoint) : (view.spendCoin o).2.Spendable := by
  rcases view.spendCoin_cases o with ⟨heq, -⟩ | ⟨entry, -, heq⟩ <;> rw [heq]
  · exact h.fetchCoin o
  · cases entry.fFresh
    · exact (h.fetchCoin o).insert o rfl
    · refine (h.fetchCoin o).of_altersOnly (.erase _ o) fun entry' hentry' ↦ ?_
      simp at hentry'

theorem addCoin (h : view.Spendable) {b : Bool} (hadd : view.addCoin o coin b = some view') :
    view'.Spendable := by
  rcases addCoin_cases hadd with ⟨-, rfl⟩ | ⟨hscript, entry, rfl, rfl⟩
  · exact h
  · exact h.insert o hscript

end Spendable

end CCoinsViewCache

/-! ### Transactions -/

section Transactions

open CCoinsViewCache

variable {C : Crypto} {tx : CTransaction} {view view' : CCoinsViewCache} {nHeight : ℤ} {undo : CTxUndo}

theorem spendInputs_fst (hspends : spendsCoins C tx = true) (hin : InputsDistinct C tx) :
    (spendInputs C tx view).1 = tx.vin.map fun txin ↦ view.accessCoin txin.prevout := by
  obtain ⟨hcoinbase, hzero⟩ := spendsCoins_eq_true_iff.1 hspends
  have hfold (step : CTxUndo × CCoinsViewCache → CTxIn → CTxUndo × CCoinsViewCache)
      (hstep : ∀ acc txin, txin.prevout.isNull = false → step acc txin =
        (acc.1 ++ [acc.2.accessCoin txin.prevout], (acc.2.spendCoin txin.prevout).2))
      (vin : List CTxIn) (undo : CTxUndo) (view : CCoinsViewCache) (hnodup : (vin.map (·.prevout)).Nodup)
      (hnull : ∀ txin ∈ vin, txin.prevout.isNull = false) :
      (vin.foldl step (undo, view)).1 = undo ++ vin.map fun txin ↦ view.accessCoin txin.prevout := by
    induction vin generalizing undo view with
    | nil => simp
    | cons txin vin ih =>
      rw [map_cons, nodup_cons] at hnodup
      rw [forall_mem_cons] at hnull
      have hothers : vin.map (fun txin' ↦ (view.spendCoin txin.prevout).2.accessCoin txin'.prevout) =
          vin.map fun txin' ↦ view.accessCoin txin'.prevout := by
        refine map_congr_left fun txin' hmem ↦ (AltersOnly.spendCoin view _).accessCoin_of_ne ?_
        exact fun heq ↦ hnodup.1 (mem_map.2 ⟨txin', hmem, heq⟩)
      have hrest := ih (undo ++ [view.accessCoin txin.prevout]) (view.spendCoin txin.prevout).2 hnodup.2
        hnull.2
      rw [hothers] at hrest
      simpa [hstep _ _ hnull.1] using hrest
  rw [spendInputs, hcoinbase, if_neg Bool.false_ne_true, hfold _ ?_ _ _ _ hin.nodup (hin.notNull hspends),
    nil_append]
  intro acc txin hnull
  simp [hzero, hnull, spendCoin_fst]

/-- What spending and adding single coins keep, `UpdateCoins` keeps. -/
theorem updateCoins_induction {motive : CCoinsViewCache → Prop} (h : motive view)
    (hspend : ∀ view o, motive view → motive (view.spendCoin o).2)
    (hadd : ∀ view o coin view', motive view → view.addCoin o coin false = some view' → motive view')
    (hupdate : updateCoins C tx view nHeight = some (undo, view')) : motive view' := by
  simp only [updateCoins, Option.bind_eq_bind, Option.bind_eq_some_iff, Option.pure_def,
    Option.some.injEq, Prod.mk.injEq] at hupdate
  obtain ⟨view₂, hcoins, -, rfl⟩ := hupdate
  have hspent : motive (spendInputs C tx view).2 := by
    rw [spendInputs]
    split_ifs
    · exact h
    · refine foldl_invariant (motive := fun acc : CTxUndo × CCoinsViewCache ↦ motive acc.2) h
        fun txin _ acc hacc ↦ ?_
      split_ifs
      · exact hspend _ _ hacc
      · exact hacc
  exact foldlM_option_invariant (motive := fun _ view ↦ motive view) hspent
    (fun _ _ _ _ _ hview hstep ↦ hadd _ _ _ _ hview hstep) hcoins

theorem updateCoins_fst (hupdate : updateCoins C tx view nHeight = some (undo, view')) :
    undo = (spendInputs C tx view).1 := by
  simp only [updateCoins, Option.bind_eq_bind, Option.bind_eq_some_iff, Option.pure_def,
    Option.some.injEq, Prod.mk.injEq] at hupdate
  obtain ⟨_, -, rfl, -⟩ := hupdate
  rfl

theorem CCoinsViewCache.Spendable.updateCoins (h : view.Spendable)
    (hupdate : updateCoins C tx view nHeight = some (undo, view')) : view'.Spendable :=
  updateCoins_induction h (fun _ o h ↦ h.spendCoin o) (fun _ _ _ _ h hadd ↦ h.addCoin hadd) hupdate

theorem getBestBlock_updateCoins (hupdate : updateCoins C tx view nHeight = some (undo, view')) :
    view'.getBestBlock = view.getBestBlock :=
  updateCoins_induction (motive := fun view' ↦ view'.getBestBlock = view.getBestBlock) rfl
    (fun _ o h ↦ (AltersOnly.spendCoin _ o).getBestBlock.trans h)
    (fun _ _ _ _ h hadd ↦ (AltersOnly.addCoin hadd).getBestBlock.trans h) hupdate

end Transactions

end KristaTech
