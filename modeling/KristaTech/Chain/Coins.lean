import KristaTech.Masternode.Registry
import KristaTech.Library.EarlyExit

/-!
# The coin view

`CCoinsViewCache` of `coins.cpp`: a cache of coins over a base view. A coin that is read is fetched
into the cache first. That never changes what a later read finds, but it does decide whether
`AddCoin` notices that it overwrites an unspent coin: it only looks at the cache. So the cache is
part of the state, and the fetches that matter are made explicit (`fetchCoin`).
-/

namespace KristaTech

open Masternode (CoinLookup)

structure CCoinsCacheEntry where
  coin : Coin
  fDirty : Bool := false
  fFresh : Bool := false
  deriving DecidableEq, Repr

/-- The view that a cache is over: `base->GetCoin` and `base->GetBestBlock`. -/
structure CCoinsView where
  getCoin : CoinLookup
  hashBlock : Uint256

structure CCoinsViewCache where
  base : CCoinsView
  cacheCoins : Std.ExtTreeMap COutPoint CCoinsCacheEntry
  hashBlock : Uint256

namespace CCoinsViewCache

/-- `CCoinsViewCache(baseIn)`. -/
def ofBase (base : CCoinsView) : CCoinsViewCache := ⟨base, ∅, 0⟩

variable (view : CCoinsViewCache)

/-- `FetchCoin`: the coin is in the cache afterwards if there is one. An empty coin of the base is
marked as fresh. -/
def fetchCoin (outpoint : COutPoint) : CCoinsViewCache :=
  if view.cacheCoins.contains outpoint then view
  else
    match view.base.getCoin outpoint with
    | none => view
    | some coin =>
      { view with cacheCoins := view.cacheCoins.insert outpoint ⟨coin, false, coin.isSpent⟩ }

/-- `GetCoin`. -/
def getCoin : CoinLookup := fun outpoint ↦
  match view.cacheCoins[outpoint]? with
  | some entry => some entry.coin
  | none => view.base.getCoin outpoint

/-- `AccessCoin`. -/
def accessCoin (outpoint : COutPoint) : Coin := (view.getCoin outpoint).getD Coin.empty

/-- `HaveCoin`. -/
def haveCoin (outpoint : COutPoint) : Bool := !(view.accessCoin outpoint).isSpent

/-- `GetBestBlock`. -/
def getBestBlock : Uint256 := if view.hashBlock = 0 then view.base.hashBlock else view.hashBlock

/-- `SetBestBlock`. -/
def setBestBlock (hashBlockIn : Uint256) : CCoinsViewCache := { view with hashBlock := hashBlockIn }

/-- `AddCoin`. Overwriting an unspent coin of the cache throws if it is not expected (`none`). -/
def addCoin (outpoint : COutPoint) (coin : Coin) (possibleOverwrite : Bool) : Option CCoinsViewCache :=
  if CScript.isUnspendable coin.out.scriptPubKey then some view
  else
    let entry := view.cacheCoins[outpoint]?.getD { coin := Coin.empty }
    if !possibleOverwrite && !entry.coin.isSpent then none
    else
      let fresh := !possibleOverwrite && !entry.fDirty
      some { view with
        cacheCoins := view.cacheCoins.insert outpoint ⟨coin, true, entry.fFresh || fresh⟩ }

/-- `AddCoins`. -/
def addCoins (C : Crypto) (tx : CTransaction) (nHeight : ℤ) : Option CCoinsViewCache :=
  let txid := tx.getHash C
  tx.vout.zipIdx.foldlM (fun view p ↦ view.addCoin ⟨txid, UInt32.ofNat p.2⟩
    ⟨tx.isCoinBase, tx.isCoinStake, p.1, nHeight⟩ false) view

/-- `SpendCoin`: the coin that was there, an empty one if there was none, and the view without it. -/
def spendCoin (outpoint : COutPoint) : Coin × CCoinsViewCache :=
  let view := view.fetchCoin outpoint
  match view.cacheCoins[outpoint]? with
  | none => (Coin.empty, view)
  | some entry =>
    (entry.coin,
      { view with cacheCoins :=
        if entry.fFresh then view.cacheCoins.erase outpoint
        else view.cacheCoins.insert outpoint ⟨Coin.empty, true, entry.fFresh⟩ })

/-- `GetValueIn`. -/
def getValueIn (tx : CTransaction) : CAmount :=
  if tx.isCoinBase then 0 else (tx.vin.map fun txin ↦ (view.accessCoin txin.prevout).out.nValue).sum

/-- The loop of `HaveInputs`: the coins are fetched up to the first that is missing. -/
def haveInputsLoop : List CTxIn → CCoinsViewCache → Bool × CCoinsViewCache
  | [], view => (true, view)
  | txin :: vin, view =>
    let view := view.fetchCoin txin.prevout
    if view.haveCoin txin.prevout then haveInputsLoop vin view else (false, view)

/-- `HaveInputs`. -/
def haveInputs (tx : CTransaction) : Bool × CCoinsViewCache :=
  if tx.isCoinBase then (true, view) else haveInputsLoop tx.vin view

/-- `GetP2SHSigOpCount`. -/
def getP2SHSigOpCount (tx : CTransaction) : ℕ :=
  if tx.isCoinBase then 0
  else
    (tx.vin.map fun txin ↦
      let prevout := (view.accessCoin txin.prevout).out
      if CScript.isPayToScriptHash prevout.scriptPubKey then
        CScript.getSigOpCountWith prevout.scriptPubKey txin.scriptSig
      else 0).sum

end CCoinsViewCache

/-- `GetLegacySigOpCount`. -/
def getLegacySigOpCount (tx : CTransaction) : ℕ :=
  (tx.vin.map fun txin ↦ CScript.getSigOpCount txin.scriptSig false).sum +
    (tx.vout.map fun txout ↦ CScript.getSigOpCount txout.scriptPubKey false).sum

/-! ### Spending and creating -/

/-- `CTxUndo`: the coins that were spent, in the order of the inputs. -/
abbrev CTxUndo := List Coin

section Update

variable (C : Crypto)

/-- The inputs are spent one after the other; for a registration without a coin, and for a null
input, the undo data is an empty coin. -/
def spendInputs (tx : CTransaction) (view : CCoinsViewCache) : CTxUndo × CCoinsViewCache :=
  if tx.isCoinBase then ([], view)
  else
    tx.vin.foldl (fun acc txin ↦
      if !isZeroCoinPoWTransaction C tx && !txin.prevout.isNull then
        let (coin, view) := acc.2.spendCoin txin.prevout
        (acc.1 ++ [coin], view)
      else (acc.1 ++ [Coin.empty], acc.2)) ([], view)

/-- `UpdateCoins`. -/
def updateCoins (tx : CTransaction) (view : CCoinsViewCache) (nHeight : ℤ) :
    Option (CTxUndo × CCoinsViewCache) := do
  let (txundo, view) := spendInputs C tx view
  let view ← view.addCoins C tx nHeight
  return (txundo, view)

end Update

/-! ### What fetching keeps -/

namespace CCoinsViewCache

variable {view : CCoinsViewCache} {o o' : COutPoint}

@[simp]
theorem getCoin_fetchCoin : (view.fetchCoin o).getCoin o' = view.getCoin o' := by
  simp only [fetchCoin]
  split
  · rfl
  · rename_i hnot
    split
    · rfl
    · rename_i coin hcoin
      simp only [getCoin, Std.ExtTreeMap.getElem?_insert]
      by_cases ho : o = o'
      · subst ho
        have hnone : view.cacheCoins[o]? = none := by simpa using hnot
        simp [hnone, hcoin]
      · simp [ho]

@[simp]
theorem accessCoin_fetchCoin : (view.fetchCoin o).accessCoin o' = view.accessCoin o' := by
  simp [accessCoin]

@[simp]
theorem haveCoin_fetchCoin : (view.fetchCoin o).haveCoin o' = view.haveCoin o' := by
  simp [haveCoin]

theorem getCoin_haveInputsLoop (vin : List CTxIn) (view : CCoinsViewCache) :
    (haveInputsLoop vin view).2.getCoin o = view.getCoin o := by
  induction vin generalizing view with
  | nil => rfl
  | cons txin vin ih =>
    simp only [haveInputsLoop]
    split
    · rw [ih, getCoin_fetchCoin]
    · exact getCoin_fetchCoin

@[simp]
theorem getCoin_haveInputs (tx : CTransaction) : (view.haveInputs tx).2.getCoin o = view.getCoin o := by
  rw [haveInputs]
  split
  · rfl
  · exact getCoin_haveInputsLoop tx.vin view

@[simp]
theorem getBestBlock_fetchCoin : (view.fetchCoin o).getBestBlock = view.getBestBlock := by
  simp only [fetchCoin]
  split
  · rfl
  · split <;> rfl

theorem getBestBlock_haveInputsLoop (vin : List CTxIn) (view : CCoinsViewCache) :
    (haveInputsLoop vin view).2.getBestBlock = view.getBestBlock := by
  induction vin generalizing view with
  | nil => rfl
  | cons txin vin ih =>
    simp only [haveInputsLoop]
    split
    · rw [ih, getBestBlock_fetchCoin]
    · exact getBestBlock_fetchCoin

@[simp]
theorem getBestBlock_haveInputs (tx : CTransaction) :
    (view.haveInputs tx).2.getBestBlock = view.getBestBlock := by
  rw [haveInputs]
  split
  · rfl
  · exact getBestBlock_haveInputsLoop tx.vin view

theorem haveInputsLoop_eq_true_iff (vin : List CTxIn) (view : CCoinsViewCache) :
    (haveInputsLoop vin view).1 = true ↔ ∀ txin ∈ vin, view.haveCoin txin.prevout = true := by
  induction vin generalizing view with
  | nil => simp [haveInputsLoop]
  | cons txin vin ih =>
    simp only [haveInputsLoop, haveCoin_fetchCoin, List.forall_mem_cons]
    split
    · rename_i h
      simp [ih, h]
    · rename_i h
      simp [h]

theorem haveInputs_eq_true_iff (tx : CTransaction) (htx : tx.isCoinBase = false) :
    (view.haveInputs tx).1 = true ↔ ∀ txin ∈ tx.vin, view.haveCoin txin.prevout = true := by
  simp only [haveInputs, htx, Bool.false_eq_true, if_false]
  exact haveInputsLoop_eq_true_iff tx.vin view

end CCoinsViewCache

end KristaTech
