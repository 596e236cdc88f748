import KristaTech.Chain.Coins
import KristaTech.Library.Ledger

/-!
# The unspent outputs

What a coin view is for: the ledger of unspent coins (`CCoinsViewCache.utxo`). The flags of a cache
entry say what is known about the base view, and a cache in which they say the truth is *coherent*.
On a coherent view spending a coin and adding one do to the ledger what their names say
(`Coherent.spendCoin`, `Coherent.addCoin`), as long as the place of the new coin is free.

`AddCoin` refuses to overwrite an unspent coin only if the coin is in the cache. So where an outpoint
was free to begin with (`Covered`), success means that it still is.
-/

namespace KristaTech

open List

abbrev Utxo := Ledger COutPoint Coin

namespace CCoinsViewCache

def unspent (coin : Option Coin) : Option Coin := coin.filter fun coin ↦ !coin.isSpent

def utxo (view : CCoinsViewCache) : Utxo := fun o ↦ unspent (view.getCoin o)

/-- The flags tell the truth: a fresh entry hides no unspent coin of the base, and one that is not
dirty is as in the base. -/
structure Coherent (view : CCoinsViewCache) : Prop where
  fresh : ∀ (o : COutPoint) entry, view.cacheCoins[o]? = some entry → entry.fFresh = true →
    unspent (view.base.getCoin o) = none
  clean : ∀ (o : COutPoint) entry, view.cacheCoins[o]? = some entry → entry.fDirty = false →
    view.base.getCoin o = some entry.coin

/-- The base has no unspent coin at the outpoint, unless the cache says something else. -/
def Covered (view : CCoinsViewCache) (o : COutPoint) : Prop :=
  view.cacheCoins[o]? = none → unspent (view.base.getCoin o) = none

theorem coherent_ofBase (base : CCoinsView) : (ofBase base).Coherent where
  fresh := by simp [ofBase]
  clean := by simp [ofBase]

section Lookup

variable {view : CCoinsViewCache} {o o' : COutPoint} {entry : CCoinsCacheEntry} {coin : Coin}

theorem unspent_eq_some_iff {x : Option Coin} :
    unspent x = some coin ↔ x = some coin ∧ coin.isSpent = false := by
  simp [unspent, Option.filter_eq_some_iff]

theorem utxo_of_cached (h : view.cacheCoins[o]? = some entry) :
    view.utxo o = unspent (some entry.coin) := by
  rw [utxo, getCoin, h]

theorem utxo_of_not_cached (h : view.cacheCoins[o]? = none) :
    view.utxo o = unspent (view.base.getCoin o) := by
  rw [utxo, getCoin, h]

theorem accessCoin_of_utxo (h : view.utxo o = some coin) : view.accessCoin o = coin := by
  rw [accessCoin, (unspent_eq_some_iff.1 h).1, Option.getD_some]

theorem haveCoin_eq_true_iff : view.haveCoin o = true ↔ ∃ coin, view.utxo o = some coin := by
  have hempty : Coin.empty.isSpent = true := rfl
  rw [haveCoin, accessCoin, utxo]
  cases h : view.getCoin o with
  | none => simp [unspent, hempty]
  | some coin => simp [unspent_eq_some_iff]

theorem haveCoin_of_utxo_none (h : view.utxo o = none) : view.haveCoin o = false := by
  rw [← Bool.not_eq_true, haveCoin_eq_true_iff, h]
  simp

theorem isSpent_of_utxo_none (h : view.utxo o = none) (hentry : view.cacheCoins[o]? = some entry) :
    entry.coin.isSpent = true := by
  rw [utxo_of_cached hentry] at h
  by_contra hspent
  rw [Bool.not_eq_true] at hspent
  rw [unspent_eq_some_iff.2 ⟨rfl, hspent⟩] at h
  cases h

theorem covered_of_utxo_none (h : view.utxo o = none) : view.Covered o := fun hnone ↦ by
  rwa [utxo_of_not_cached hnone] at h

@[simp]
theorem utxo_fetchCoin : (view.fetchCoin o).utxo = view.utxo := by
  funext o'
  rw [utxo, getCoin_fetchCoin, utxo]

@[simp]
theorem utxo_haveInputs (tx : CTransaction) : (view.haveInputs tx).2.utxo = view.utxo := by
  funext o
  rw [utxo, getCoin_haveInputs, utxo]

end Lookup

/-! ### Fetching -/

section Fetch

variable {view : CCoinsViewCache} {o o' : COutPoint}

theorem fetchCoin_cases (view : CCoinsViewCache) (o : COutPoint) :
    view.fetchCoin o = view ∧ (view.cacheCoins[o]? = none → view.base.getCoin o = none) ∨
      ∃ coin, view.cacheCoins[o]? = none ∧ view.base.getCoin o = some coin ∧ view.fetchCoin o =
          { view with cacheCoins := view.cacheCoins.insert o ⟨coin, false, coin.isSpent⟩ } := by
  rw [fetchCoin]
  split_ifs with hcached
  · refine Or.inl ⟨rfl, fun hnone ↦ ?_⟩
    simp [Std.ExtTreeMap.contains_eq_isSome_getElem?, hnone] at hcached
  · have hnone : view.cacheCoins[o]? = none := by simpa using hcached
    cases hcoin : view.base.getCoin o with
    | none => exact Or.inl ⟨rfl, fun _ ↦ rfl⟩
    | some coin => exact Or.inr ⟨coin, hnone, rfl, rfl⟩

theorem Coherent.fetchCoin (h : view.Coherent) (o : COutPoint) : (view.fetchCoin o).Coherent := by
  rcases view.fetchCoin_cases o with ⟨heq, -⟩ | ⟨coin, hnone, hcoin, heq⟩ <;> rw [heq]
  · exact h
  · refine ⟨fun o' entry hentry hfresh ↦ ?_, fun o' entry hentry hdirty ↦ ?_⟩ <;>
      rw [Std.ExtTreeMap.getElem?_insert] at hentry <;>
      simp only [Std.LawfulEqOrd.compare_eq_iff_eq] at hentry <;> split_ifs at hentry with ho
    · subst ho
      obtain rfl := Option.some.inj hentry
      rw [hcoin]
      simpa [unspent] using hfresh
    · exact h.fresh o' entry hentry hfresh
    · subst ho
      obtain rfl := Option.some.inj hentry
      exact hcoin
    · exact h.clean o' entry hentry hdirty

theorem Covered.fetchCoin (h : view.Covered o') (o : COutPoint) : (view.fetchCoin o).Covered o' := by
  rcases view.fetchCoin_cases o with ⟨heq, -⟩ | ⟨coin, hnone, hcoin, heq⟩ <;> rw [heq]
  · exact h
  · intro hnone'
    rw [Std.ExtTreeMap.getElem?_insert] at hnone'
    split_ifs at hnone'
    exact h hnone'

theorem haveInputs_induction {motive : CCoinsViewCache → Prop} (h : motive view)
    (hfetch : ∀ view o, motive view → motive (view.fetchCoin o)) (tx : CTransaction) :
    motive (view.haveInputs tx).2 := by
  rw [haveInputs]
  split_ifs
  · exact h
  · generalize tx.vin = vin
    induction vin generalizing view with
    | nil => exact h
    | cons txin vin ih =>
      rw [haveInputsLoop]
      split_ifs
      · exact ih (hfetch view _ h)
      · exact hfetch view _ h

end Fetch

/-! ### Spending and adding -/

section Update

variable {view view' : CCoinsViewCache} {o o' : COutPoint} {coin : Coin}

/-- What the operations make of a view: its flags are true, and what was covered still is. -/
structure Keeps (view view' : CCoinsViewCache) : Prop where
  coherent : view'.Coherent
  covered : ∀ o, view.Covered o → view'.Covered o

theorem Keeps.trans {view'' : CCoinsViewCache} (h : view.Keeps view') (h' : view'.Keeps view'') :
    view.Keeps view'' :=
  ⟨h'.coherent, fun o ho ↦ h'.covered o (h.covered o ho)⟩

theorem Coherent.keeps_self (h : view.Coherent) : view.Keeps view := ⟨h, fun _ ho ↦ ho⟩

theorem Coherent.keeps_fetchCoin (h : view.Coherent) (o : COutPoint) : view.Keeps (view.fetchCoin o) :=
  ⟨h.fetchCoin o, fun _ ho ↦ ho.fetchCoin o⟩

theorem Coherent.keeps_haveInputs (h : view.Coherent) (tx : CTransaction) :
    view.Keeps (view.haveInputs tx).2 :=
  haveInputs_induction h.keeps_self (fun _ o hkeeps ↦ hkeeps.trans (hkeeps.coherent.keeps_fetchCoin o)) tx

theorem Coherent.keeps_insert (h : view.Coherent) (entry : CCoinsCacheEntry)
    (hfresh : entry.fFresh = true → unspent (view.base.getCoin o) = none)
    (hdirty : entry.fDirty = true) :
    view.Keeps { view with cacheCoins := view.cacheCoins.insert o entry } := by
  refine ⟨⟨fun o' entry' hentry hfresh' ↦ ?_, fun o' entry' hentry hdirty' ↦ ?_⟩, fun o' ho hnone ↦ ?_⟩
  · rw [Std.ExtTreeMap.getElem?_insert] at hentry
    simp only [Std.LawfulEqOrd.compare_eq_iff_eq] at hentry
    split_ifs at hentry with ho
    · subst ho
      obtain rfl := Option.some.inj hentry
      exact hfresh hfresh'
    · exact h.fresh o' entry' hentry hfresh'
  · rw [Std.ExtTreeMap.getElem?_insert] at hentry
    simp only [Std.LawfulEqOrd.compare_eq_iff_eq] at hentry
    split_ifs at hentry with ho
    · obtain rfl := Option.some.inj hentry
      rw [hdirty] at hdirty'
      cases hdirty'
    · exact h.clean o' entry' hentry hdirty'
  · rw [Std.ExtTreeMap.getElem?_insert] at hnone
    split_ifs at hnone
    exact ho hnone

theorem utxo_insert (entry : CCoinsCacheEntry) :
    ({ view with cacheCoins := view.cacheCoins.insert o entry } : CCoinsViewCache).utxo =
      Function.update view.utxo o (unspent (some entry.coin)) := by
  funext o'
  rw [utxo, getCoin, Std.ExtTreeMap.getElem?_insert]
  simp only [Std.LawfulEqOrd.compare_eq_iff_eq]
  by_cases ho : o = o'
  · subst ho
    rw [if_pos rfl, Function.update_self]
  · rw [if_neg ho, Function.update_of_ne (Ne.symm ho)]
    rfl

/-- **Spending a coin.** -/
theorem Coherent.spendCoin (h : view.Coherent) (o : COutPoint) :
    view.Keeps (view.spendCoin o).2 ∧ (view.spendCoin o).2.utxo = view.utxo.erase o ∧
      (view.spendCoin o).1 = view.accessCoin o := by
  have hkeeps := h.keeps_fetchCoin o
  have hutxo : (view.fetchCoin o).utxo = view.utxo := utxo_fetchCoin
  have hsame : (view.fetchCoin o).accessCoin o = view.accessCoin o := accessCoin_fetchCoin
  rw [CCoinsViewCache.spendCoin, ← hutxo, ← hsame]
  set view₁ := view.fetchCoin o with hview₁
  cases hentry : view₁.cacheCoins[o]? with
  | none =>
    -- nothing was fetched, so the base has no coin
    have hbase : view₁.base.getCoin o = none := by
      rcases view.fetchCoin_cases o with ⟨heq, hnone⟩ | ⟨coin, -, -, heq⟩
      · rw [hview₁, heq] at hentry ⊢
        exact hnone hentry
      · rw [hview₁, heq] at hentry
        simp at hentry
    have hfree : view₁.utxo o = none := by rw [utxo_of_not_cached hentry, hbase]; rfl
    refine ⟨hkeeps, (Ledger.erase_of_none hfree).symm, ?_⟩
    simp [accessCoin, getCoin, hentry, hbase]
  | some entry =>
    have haccess : view₁.accessCoin o = entry.coin := by simp [accessCoin, getCoin, hentry]
    have hempty : unspent (some Coin.empty) = none := rfl
    cases hfresh : entry.fFresh with
    | true =>
      have hbase := hkeeps.coherent.fresh o entry hentry hfresh
      simp only [hfresh, if_true]
      refine ⟨hkeeps.trans ⟨⟨?_, ?_⟩, ?_⟩, ?_, haccess.symm⟩
      · intro o' entry' hentry' hfresh'
        simp only [Std.ExtTreeMap.getElem?_erase, Std.LawfulEqOrd.compare_eq_iff_eq] at hentry'
        split_ifs at hentry'
        exact hkeeps.coherent.fresh o' entry' hentry' hfresh'
      · intro o' entry' hentry' hdirty'
        simp only [Std.ExtTreeMap.getElem?_erase, Std.LawfulEqOrd.compare_eq_iff_eq] at hentry'
        split_ifs at hentry'
        exact hkeeps.coherent.clean o' entry' hentry' hdirty'
      · intro o' hcovered hnone
        simp only [Std.ExtTreeMap.getElem?_erase, Std.LawfulEqOrd.compare_eq_iff_eq] at hnone
        split_ifs at hnone with ho
        · exact ho ▸ hbase
        · exact hcovered hnone
      · funext o'
        by_cases ho : o = o'
        · subst ho
          simp [utxo, getCoin, hbase]
        · rw [Ledger.erase_of_ne (Ne.symm ho)]
          simp [utxo, getCoin, Std.ExtTreeMap.getElem?_erase, ho]
    | false =>
      simp only [hfresh, Bool.false_eq_true, if_false]
      refine ⟨hkeeps.trans (hkeeps.coherent.keeps_insert _ (absurd · Bool.false_ne_true) rfl), ?_, haccess.symm⟩
      rw [utxo_insert, hempty]
      rfl

theorem utxo_none_of_addCoin (hcovered : view.Covered o)
    (hscript : CScript.isUnspendable coin.out.scriptPubKey = false)
    (h : view.addCoin o coin false = some view') : view.utxo o = none := by
  cases hentry : view.cacheCoins[o]? with
  | none => rw [utxo_of_not_cached hentry, hcovered hentry]
  | some entry =>
    simp only [addCoin, hscript, hentry, Bool.false_eq_true, if_false, Option.getD_some,
      Bool.not_false, Bool.true_and] at h
    split_ifs at h with hspent
    rw [utxo_of_cached hentry]
    simpa [unspent] using hspent

/-- **Adding a coin** to a free outpoint. -/
theorem Coherent.addCoin (h : view.Coherent) (hfree : view.utxo o = none)
    (hscript : CScript.isUnspendable coin.out.scriptPubKey = false) (hcoin : coin.isSpent = false) :
    ∃ view', view.addCoin o coin false = some view' ∧ view.Keeps view' ∧
      view'.utxo = view.utxo.put o coin := by
  have hput : Function.update view.utxo o (unspent (some coin)) = view.utxo.put o coin := by
    rw [unspent_eq_some_iff.2 ⟨rfl, hcoin⟩]
    rfl
  cases hentry : view.cacheCoins[o]? with
  | none =>
    refine ⟨_, ?_, h.keeps_insert (o := o) ⟨coin, true, true⟩ (fun _ ↦ ?_) rfl, ?_⟩
    · have hempty : Coin.empty.isSpent = true := rfl
      simp [CCoinsViewCache.addCoin, hscript, hentry, hempty]
    · rwa [← utxo_of_not_cached hentry]
    · rw [utxo_insert, hput]
  | some entry =>
    have hspent := isSpent_of_utxo_none hfree hentry
    refine ⟨_, ?_, h.keeps_insert (o := o) ⟨coin, true, entry.fFresh || !entry.fDirty⟩ (fun hf ↦ ?_) rfl,
      ?_⟩
    · simp [CCoinsViewCache.addCoin, hscript, hentry, hspent]
    · rw [Bool.or_eq_true, Bool.not_eq_true'] at hf
      rcases hf with hfresh | hdirty
      · exact h.fresh o entry hentry hfresh
      · -- an entry that is not dirty is the base's, and it is spent
        rw [h.clean o entry hentry hdirty]
        simpa [unspent] using hspent
    · rw [utxo_insert, hput]

end Update

end CCoinsViewCache

/-! ### Transactions -/

section Transactions

open CCoinsViewCache

variable (C : Crypto)

/-- The transaction spends coins: it is neither a coinbase nor a registration without a coin. -/
def spendsCoins (tx : CTransaction) : Bool := !tx.isCoinBase && !isZeroCoinPoWTransaction C tx

def newCoin (tx : CTransaction) (nHeight : ℤ) (p : CTxOut × ℕ) : Option (COutPoint × Coin) :=
  if CScript.isUnspendable p.1.scriptPubKey then none
  else some (⟨tx.getHash C, UInt32.ofNat p.2⟩, ⟨tx.isCoinBase, tx.isCoinStake, p.1, nHeight⟩)

def newCoins (tx : CTransaction) (nHeight : ℤ) : List (COutPoint × Coin) :=
  tx.vout.zipIdx.filterMap (newCoin C tx nHeight)

/-- What a transaction does to the unspent coins, with its undo data. -/
inductive Applies (tx : CTransaction) (nHeight : ℤ) : CTxUndo → Utxo → Utxo → Prop
  | spending {undo U M U'} : spendsCoins C tx = true →
    Ledger.Spends U (tx.vin.map (·.prevout)) undo M → Ledger.Creates M (newCoins C tx nHeight) U' →
    Applies tx nHeight undo U U'
  | creating {undo U U'} : spendsCoins C tx = false → Ledger.Creates U (newCoins C tx nHeight) U' →
    Applies tx nHeight undo U U'

/-- The inputs are distinct, and none is null where coins are spent. -/
structure InputsDistinct (tx : CTransaction) : Prop where
  nodup : (tx.vin.map (·.prevout)).Nodup
  notNull : spendsCoins C tx = true → ∀ txin ∈ tx.vin, txin.prevout.isNull = false

variable {C} {tx : CTransaction} {nHeight : ℤ} {view view' : CCoinsViewCache}

theorem spendsCoins_eq_true_iff : spendsCoins C tx = true ↔
    tx.isCoinBase = false ∧ isZeroCoinPoWTransaction C tx = false := by
  rw [spendsCoins, Bool.and_eq_true, Bool.not_eq_true', Bool.not_eq_true']

variable {l : List (CTxOut × ℕ)}

theorem CCoinsViewCache.Coherent.foldlM_addCoin (hview : view.Coherent) (hvalue : ∀ p ∈ l, 0 ≤ p.1.nValue)
    (hcovered : ∀ kv ∈ l.filterMap (newCoin C tx nHeight), view.Covered kv.1)
    (h : l.foldlM (fun view p ↦ view.addCoin ⟨tx.getHash C, UInt32.ofNat p.2⟩
      ⟨tx.isCoinBase, tx.isCoinStake, p.1, nHeight⟩ false) view = some view') :
    view.Keeps view' ∧ Ledger.Creates view.utxo (l.filterMap (newCoin C tx nHeight)) view'.utxo := by
  induction l generalizing view with
  | nil =>
    obtain rfl := Option.some.inj h
    exact ⟨hview.keeps_self, .nil⟩
  | cons p l ih =>
    rw [foldlM_cons, Option.bind_eq_bind, Option.bind_eq_some_iff] at h
    obtain ⟨view₁, hadd, hrest⟩ := h
    have hvalue' : ∀ p ∈ l, 0 ≤ p.1.nValue := fun p hp ↦ hvalue p (mem_cons_of_mem _ hp)
    cases hscript : CScript.isUnspendable p.1.scriptPubKey with
    | true =>
      have hnone : newCoin C tx nHeight p = none := by rw [newCoin, if_pos hscript]
      rw [filterMap_cons_none hnone] at hcovered ⊢
      rw [CCoinsViewCache.addCoin, if_pos hscript] at hadd
      obtain rfl := Option.some.inj hadd
      exact ih hview hvalue' hcovered hrest
    | false =>
      have hsome : newCoin C tx nHeight p = some (⟨tx.getHash C, UInt32.ofNat p.2⟩,
          ⟨tx.isCoinBase, tx.isCoinStake, p.1, nHeight⟩) := by
        rw [newCoin, hscript, if_neg Bool.false_ne_true]
      rw [filterMap_cons_some hsome] at hcovered ⊢
      rw [forall_mem_cons] at hcovered
      have hfree := utxo_none_of_addCoin hcovered.1 hscript hadd
      have hcoin : Coin.isSpent ⟨tx.isCoinBase, tx.isCoinStake, p.1, nHeight⟩ = false :=
        Coin.isSpent_eq_false (hvalue p mem_cons_self)
      obtain ⟨view₂, hadd₂, hkeeps, hutxo⟩ := hview.addCoin hfree hscript hcoin
      obtain rfl := Option.some.inj (hadd.symm.trans hadd₂)
      obtain ⟨hkeeps', hcreates⟩ :=
        ih hkeeps.coherent hvalue' (fun kv hkv ↦ hkeeps.covered _ (hcovered.2 kv hkv)) hrest
      rw [hutxo] at hcreates
      exact ⟨hkeeps.trans hkeeps', .cons hfree hcreates⟩

theorem CCoinsViewCache.Coherent.foldl_spendCoin (hview : view.Coherent) {vin : List CTxIn}
    (hnodup : (vin.map (·.prevout)).Nodup) (hnull : ∀ txin ∈ vin, txin.prevout.isNull = false)
    (hzero : isZeroCoinPoWTransaction C tx = false)
    (hhave : ∀ txin ∈ vin, view.haveCoin txin.prevout = true) (undo : CTxUndo) :
    ∃ spent view', vin.foldl (fun acc txin ↦
        if !isZeroCoinPoWTransaction C tx && !txin.prevout.isNull then
          let (coin, view) := acc.2.spendCoin txin.prevout
          (acc.1 ++ [coin], view)
        else (acc.1 ++ [Coin.empty], acc.2)) (undo, view) = (undo ++ spent, view') ∧
      view.Keeps view' ∧ Ledger.Spends view.utxo (vin.map (·.prevout)) spent view'.utxo := by
  induction vin generalizing view undo with
  | nil => exact ⟨[], view, by simp, hview.keeps_self, .nil⟩
  | cons txin vin ih =>
    rw [map_cons, nodup_cons] at hnodup
    rw [forall_mem_cons] at hnull hhave
    obtain ⟨coin, hcoin⟩ := haveCoin_eq_true_iff.1 hhave.1
    obtain ⟨hkeeps, hutxo, hspent⟩ := hview.spendCoin txin.prevout
    rw [accessCoin_of_utxo hcoin] at hspent
    have hhave' : ∀ txin' ∈ vin, (view.spendCoin txin.prevout).2.haveCoin txin'.prevout = true := by
      intro txin' hmem
      have hne : txin'.prevout ≠ txin.prevout := fun heq ↦
        hnodup.1 (mem_map.2 ⟨txin', hmem, heq⟩)
      rw [haveCoin_eq_true_iff, hutxo, Ledger.erase_of_ne hne, ← haveCoin_eq_true_iff]
      exact hhave.2 txin' hmem
    obtain ⟨spent, view', hfold, hkeeps', hspends⟩ :=
      ih hkeeps.coherent hnodup.2 hnull.2 hhave' (undo ++ [coin])
    rw [hutxo] at hspends
    refine ⟨coin :: spent, view', ?_, hkeeps.trans hkeeps', .cons hcoin hspends⟩
    simpa [hzero, hnull.1, hspent] using hfold

/-- **`UpdateCoins`** on a coherent view, with the places of the new coins covered. -/
theorem CCoinsViewCache.Coherent.updateCoins (hview : view.Coherent) (hin : InputsDistinct C tx)
    (hvalue : ∀ out ∈ tx.vout, 0 ≤ out.nValue)
    (hhave : spendsCoins C tx = true → ∀ txin ∈ tx.vin, view.haveCoin txin.prevout = true)
    (hcovered : ∀ kv ∈ newCoins C tx nHeight, view.Covered kv.1) {undo : CTxUndo}
    (h : updateCoins C tx view nHeight = some (undo, view')) :
    view.Keeps view' ∧ Applies C tx nHeight undo view.utxo view'.utxo := by
  have hvalue' : ∀ p ∈ tx.vout.zipIdx, 0 ≤ p.1.nValue := fun p hp ↦
    hvalue p.1 (fst_mem_of_mem_zipIdx hp)
  simp only [KristaTech.updateCoins, Option.bind_eq_bind, Option.bind_eq_some_iff, Option.pure_def,
    Option.some.injEq, Prod.mk.injEq] at h
  obtain ⟨view₂, hadd, rfl, rfl⟩ := h
  cases hspends : spendsCoins C tx with
  | true =>
    obtain ⟨hcoinbase, hzero⟩ := spendsCoins_eq_true_iff.1 hspends
    obtain ⟨spent, view₁, hfold, hkeeps, hledger⟩ :=
      hview.foldl_spendCoin hin.nodup (hin.notNull hspends) hzero (hhave hspends) []
    have hinputs : spendInputs C tx view = (spent, view₁) := by
      rw [spendInputs, hcoinbase, if_neg Bool.false_ne_true, hfold, nil_append]
    rw [hinputs] at hadd ⊢
    obtain ⟨hkeeps', hcreates⟩ := hkeeps.coherent.foldlM_addCoin hvalue'
      (fun kv hkv ↦ hkeeps.covered _ (hcovered kv hkv)) hadd
    exact ⟨hkeeps.trans hkeeps', .spending hspends hledger hcreates⟩
  | false =>
    have hsame : (spendInputs C tx view).2 = view := by
      rw [spendInputs]
      split_ifs with hcoinbase
      · rfl
      · have hzero : isZeroCoinPoWTransaction C tx = true := by
          simpa [spendsCoins, hcoinbase] using hspends
        simp only [hzero, Bool.not_true, Bool.false_and, Bool.false_eq_true, if_false]
        exact foldl_invariant (motive := fun acc : CTxUndo × CCoinsViewCache ↦ acc.2 = view) rfl
          fun _ _ _ hacc ↦ hacc
    rw [hsame] at hadd
    obtain ⟨hkeeps, hcreates⟩ := hview.foldlM_addCoin hvalue' hcovered hadd
    exact ⟨hkeeps, .creating hspends hcreates⟩

/-! ### When the update succeeds -/

theorem CCoinsViewCache.Coherent.spendInputs (hview : view.Coherent) (C : Crypto) (tx : CTransaction) :
    (KristaTech.spendInputs C tx view).2.Coherent ∧
      ∀ o, view.utxo o = none → (KristaTech.spendInputs C tx view).2.utxo o = none := by
  rw [KristaTech.spendInputs]
  split_ifs
  · exact ⟨hview, fun _ h ↦ h⟩
  · refine foldl_invariant (motive := fun acc : CTxUndo × CCoinsViewCache ↦
      acc.2.Coherent ∧ ∀ o, view.utxo o = none → acc.2.utxo o = none) ⟨hview, fun _ h ↦ h⟩
      fun txin _ acc h ↦ ?_
    split_ifs
    · obtain ⟨hkeeps, hutxo, -⟩ := h.1.spendCoin txin.prevout
      refine ⟨hkeeps.coherent, fun o ho ↦ ?_⟩
      show (acc.2.spendCoin txin.prevout).2.utxo o = none
      rw [hutxo]
      by_cases heq : o = txin.prevout
      · rw [heq, Ledger.erase_self]
      · rw [Ledger.erase_of_ne heq, h.2 o ho]
    · exact h

theorem CCoinsViewCache.Coherent.exists_addCoin (hview : view.Coherent) {o : COutPoint}
    (coin : Coin) (hvalue : 0 ≤ coin.out.nValue) (hfree : view.utxo o = none) :
    ∃ view', view.addCoin o coin false = some view' ∧ view'.Coherent ∧
      ∀ o' ≠ o, view'.utxo o' = view.utxo o' := by
  cases hscript : CScript.isUnspendable coin.out.scriptPubKey with
  | true =>
    exact ⟨view, by rw [CCoinsViewCache.addCoin, if_pos hscript], hview, fun _ _ ↦ rfl⟩
  | false =>
    obtain ⟨view', hadd, hkeeps, hutxo⟩ := hview.addCoin hfree hscript (Coin.isSpent_eq_false hvalue)
    exact ⟨view', hadd, hkeeps.coherent, fun o' ho ↦ by rw [hutxo, Ledger.put_of_ne ho]⟩

theorem CCoinsViewCache.Coherent.exists_foldlM_addCoin (hview : view.Coherent) (C : Crypto)
    (tx : CTransaction) (nHeight : ℤ) (hnodup : (l.map fun p ↦ UInt32.ofNat p.2).Nodup)
    (hvalue : ∀ p ∈ l, 0 ≤ p.1.nValue)
    (hfree : ∀ p ∈ l, view.utxo ⟨tx.getHash C, UInt32.ofNat p.2⟩ = none) :
    ∃ view', l.foldlM (fun view p ↦ view.addCoin ⟨tx.getHash C, UInt32.ofNat p.2⟩
        ⟨tx.isCoinBase, tx.isCoinStake, p.1, nHeight⟩ false) view = some view' ∧ view'.Coherent ∧
      ∀ o, o.hash ≠ tx.getHash C → view'.utxo o = view.utxo o := by
  induction l generalizing view with
  | nil => exact ⟨view, rfl, hview, fun _ _ ↦ rfl⟩
  | cons p l ih =>
    rw [map_cons, nodup_cons] at hnodup
    rw [forall_mem_cons] at hvalue hfree
    obtain ⟨view₁, hadd, hview₁, hutxo⟩ := hview.exists_addCoin
      ⟨tx.isCoinBase, tx.isCoinStake, p.1, nHeight⟩ hvalue.1 hfree.1
    have hfree₁ : ∀ q ∈ l, view₁.utxo ⟨tx.getHash C, UInt32.ofNat q.2⟩ = none := fun q hq ↦ by
      rw [hutxo _ fun heq ↦ hnodup.1 (mem_map.2 ⟨q, hq, (COutPoint.mk.inj heq).2⟩)]
      exact hfree.2 q hq
    obtain ⟨view₂, hrest, hview₂, hutxo₂⟩ := ih hview₁ hnodup.2 hvalue.2 hfree₁
    refine ⟨view₂, ?_, hview₂, fun o ho ↦ ?_⟩
    · rw [foldlM_cons]
      exact Option.bind_eq_some_iff.2 ⟨view₁, hadd, hrest⟩
    · rw [hutxo₂ o ho, hutxo o fun heq ↦ ho (by rw [heq])]

/-- **`UpdateCoins` succeeds** if no output of the transaction is a coin already, and no place of
another transaction gets a coin. -/
theorem CCoinsViewCache.Coherent.exists_updateCoins (hview : view.Coherent) (nHeight : ℤ)
    (hlength : tx.vout.length ≤ 2 ^ 32) (hvalue : ∀ out ∈ tx.vout, 0 ≤ out.nValue)
    (hfree : ∀ i < tx.vout.length, view.utxo ⟨tx.getHash C, UInt32.ofNat i⟩ = none) :
    ∃ undo view', KristaTech.updateCoins C tx view nHeight = some (undo, view') ∧ view'.Coherent ∧
      ∀ o, o.hash ≠ tx.getHash C → view.utxo o = none → view'.utxo o = none := by
  obtain ⟨hspent, hnone⟩ := hview.spendInputs C tx
  have hnodup : (tx.vout.zipIdx.map fun p ↦ UInt32.ofNat p.2).Nodup := by
    have hmap : (tx.vout.zipIdx.map fun p ↦ UInt32.ofNat p.2) =
        (List.range tx.vout.length).map UInt32.ofNat := by
      rw [range_eq_range', ← zipIdx_map_snd 0 tx.vout, map_map]
      rfl
    rw [hmap]
    refine List.Nodup.map_on (fun i hi j hj hij ↦ ?_) nodup_range
    rw [mem_range] at hi hj
    have htoNat := congrArg UInt32.toNat hij
    rwa [UInt32.toNat_ofNat_of_lt' (hi.trans_le hlength),
      UInt32.toNat_ofNat_of_lt' (hj.trans_le hlength)] at htoNat
  obtain ⟨view', hadd, hview', hutxo⟩ := hspent.exists_foldlM_addCoin C tx nHeight
    hnodup (fun p hp ↦ hvalue p.1 (fst_mem_of_mem_zipIdx hp))
    fun p hp ↦ hnone _ (hfree p.2 ((snd_lt_of_mem_zipIdx hp).trans_eq (Nat.add_zero _)))
  refine ⟨_, view', Option.bind_eq_some_iff.2 ⟨view', hadd, rfl⟩, hview', fun o ho hnone' ↦ ?_⟩
  rw [hutxo o ho, hnone o hnone']

end Transactions

end KristaTech
