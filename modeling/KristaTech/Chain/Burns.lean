import KristaTech.Validation.State
import KristaTech.Library.Accounts

/-!
# The burn cache

`mapAddressBurns` of `kernel.cpp`: for every address the burns it has made, each with its amount and
height. The weight of a stake depends on it. A burn is recorded for the first address of the coin
that the first input spends.
-/

namespace KristaTech

open List

open Masternode (CoinLookup)

/-- `CBurnCoins`. -/
structure CBurnCoins where
  nAmount : CAmount
  nHeight : ℤ
  deriving DecidableEq, Repr

/-- `mapAddressBurns`. -/
abbrev BurnCache := Std.ExtTreeMap CTxDestination (List CBurnCoins)

namespace BurnCache

/-- `AddBurnToCache`. -/
def addBurnToCache (burns : BurnCache) (dest : CTxDestination) (burn : CBurnCoins) : BurnCache :=
  burns.insert dest (burns[dest]?.getD [] ++ [burn])

/-- `RemoveBurnFromCache`: every burn of this amount and height. -/
def removeBurnFromCache (burns : BurnCache) (dest : CTxDestination) (burn : CBurnCoins) :
    BurnCache :=
  match burns[dest]? with
  | none => burns
  | some v =>
    let v := v.filter fun b ↦ b ≠ burn
    if v.isEmpty then burns.erase dest else burns.insert dest v

/-- How much the cache holds for an address: nothing, or an entry and its burns. -/
def load (burns : BurnCache) (dest : CTxDestination) : ℕ := burns[dest]?.elim 0 (·.length + 1)

theorem load_lt_addBurnToCache (burns : BurnCache) (dest : CTxDestination) (burn : CBurnCoins) :
    burns.load < (burns.addBurnToCache dest burn).load := by
  refine Pi.lt_def.2 ⟨fun dest' ↦ ?_, dest, ?_⟩
  · rw [load, load, addBurnToCache, Std.ExtTreeMap.getElem?_insert]
    by_cases h : dest = dest'
    · subst h
      cases burns[dest]? <;> simp
    · simp [h]
  · rw [load, load, addBurnToCache, Std.ExtTreeMap.getElem?_insert_self]
    cases burns[dest]? <;> simp

theorem removeBurnFromCache_load_lt (burns : BurnCache) (dest : CTxDestination) (burn : CBurnCoins)
    (h : burns.removeBurnFromCache dest burn ≠ burns) :
    (burns.removeBurnFromCache dest burn).load < burns.load := by
  cases hv : burns[dest]? with
  | none => simp [removeBurnFromCache, hv] at h
  | some v =>
    set v' := v.filter (fun b ↦ b ≠ burn) with hv'
    have hle : v'.length ≤ v.length := length_filter_le _ _
    have hload (dest' : CTxDestination) (hne : dest' ≠ dest) :
        (burns.removeBurnFromCache dest burn).load dest' = burns.load dest' := by
      simp only [removeBurnFromCache, hv, load]
      split_ifs <;> simp [Std.ExtTreeMap.getElem?_erase, Std.ExtTreeMap.getElem?_insert, hne.symm]
    have hself : (burns.removeBurnFromCache dest burn).load dest < burns.load dest := by
      simp only [removeBurnFromCache, hv, load, ← hv'] at h ⊢
      split_ifs at h ⊢ with hempty
      · simp
      · have hne : v' ≠ v := by
          intro heq
          refine h (Std.ExtTreeMap.ext_getElem? fun {k} ↦ ?_)
          rw [Std.ExtTreeMap.getElem?_insert, heq]
          split_ifs with hk
          · rw [← Std.LawfulEqCmp.eq_of_compare hk, hv]
          · rfl
        have hlt : v'.length < v.length :=
          lt_of_le_of_ne hle fun hlen ↦ hne (filter_eq_self.2 (length_filter_eq_length_iff.1 hlen))
        simpa using hlt
    refine Pi.lt_def.2 ⟨fun dest' ↦ ?_, dest, hself⟩
    by_cases hne : dest' = dest
    · rw [hne]
      exact hself.le
    · exact (hload dest' hne).le

/-! ### The cache as accounts -/

abbrev Entry := CTxDestination × CBurnCoins

def burnsOf (burns : BurnCache) (dest : CTxDestination) : List CBurnCoins := burns[dest]?.getD []

def addBurns (burns : BurnCache) (entries : List Entry) : BurnCache :=
  entries.foldl (fun burns e ↦ burns.addBurnToCache e.1 e.2) burns

def removeBurns (burns : BurnCache) (entries : List Entry) : BurnCache :=
  entries.foldl (fun burns e ↦ burns.removeBurnFromCache e.1 e.2) burns

theorem addBurns_append (burns : BurnCache) (entries entries' : List Entry) :
    burns.addBurns (entries ++ entries') = (burns.addBurns entries).addBurns entries' :=
  foldl_append

theorem removeBurns_append (burns : BurnCache) (entries entries' : List Entry) :
    burns.removeBurns (entries ++ entries') = (burns.removeBurns entries).removeBurns entries' :=
  foldl_append

theorem burnsOf_empty (dest : CTxDestination) : (∅ : BurnCache).burnsOf dest = [] := by
  simp [burnsOf]

theorem burnsOf_addBurnToCache (burns : BurnCache) (e : Entry) (dest : CTxDestination) :
    (burns.addBurnToCache e.1 e.2).burnsOf dest = burns.burnsOf dest ++ List.account [e] dest := by
  rw [account_singleton, burnsOf, addBurnToCache, Std.ExtTreeMap.getElem?_insert]
  by_cases h : e.1 = dest
  · simp [h, burnsOf]
  · simp [h, burnsOf]

theorem burnsOf_removeBurnFromCache (burns : BurnCache) (e : Entry) (dest : CTxDestination) :
    (burns.removeBurnFromCache e.1 e.2).burnsOf dest =
      (burns.burnsOf dest).filter fun b ↦ (dest, b) ≠ e := by
  obtain ⟨dest', burn⟩ := e
  by_cases h : dest' = dest
  · subst h
    rw [removeBurnFromCache]
    cases hv : burns[dest']? with
    | none => simp [burnsOf, hv]
    | some v =>
      simp only [burnsOf, hv, Option.getD_some, ne_eq, Prod.mk.injEq, true_and]
      split_ifs with hempty
      · simpa using hempty
      · simp
  · have hother : (burns.removeBurnFromCache dest' burn)[dest]? = burns[dest]? := by
      simp only [removeBurnFromCache]
      split
      · rfl
      · split_ifs
        · rw [Std.ExtTreeMap.getElem?_erase]
          simp [h]
        · rw [Std.ExtTreeMap.getElem?_insert]
          simp [h]
    rw [burnsOf, hother, ← burnsOf]
    exact (filter_eq_self.2 fun b _ ↦ by simp [Ne.symm h]).symm

theorem burnsOf_addBurns (burns : BurnCache) (entries : List Entry) (dest : CTxDestination) :
    (burns.addBurns entries).burnsOf dest = burns.burnsOf dest ++ entries.account dest := by
  induction entries generalizing burns with
  | nil => rw [account_nil, append_nil, addBurns, foldl_nil]
  | cons e entries ih =>
    rw [addBurns, foldl_cons, ← addBurns, ih, burnsOf_addBurnToCache, append_assoc, ← account_cons]

theorem burnsOf_removeBurns (burns : BurnCache) (entries : List Entry) (dest : CTxDestination) :
    (burns.removeBurns entries).burnsOf dest = (burns.burnsOf dest).filter fun b ↦ (dest, b) ∉ entries := by
  induction entries generalizing burns with
  | nil =>
    rw [removeBurns, foldl_nil]
    exact (filter_eq_self.2 fun b _ ↦ by simp).symm
  | cons e entries ih =>
    rw [removeBurns, foldl_cons, ← removeBurns, ih, burnsOf_removeBurnFromCache, filter_filter]
    exact filter_congr fun b _ ↦ by simp [Bool.and_comm]

end BurnCache

variable (E : ValidationEnv)

/-- The values that the outputs pay to burn addresses; an output counts once for each burn address
among its addresses. -/
def burnValues (tx : CTransaction) (nHeight : ℤ) : List CAmount :=
  tx.vout.flatMap fun out ↦
    ((E.addresses out.scriptPubKey).filter fun addr ↦ E.consensus.isBurnAddress addr nHeight).map
      fun _ ↦ out.nValue

/-- The burn of a transaction: if it pays to a burn address, all it pays to them, on the account of
the first address of the given script. -/
def burnOf (tx : CTransaction) (nHeight : ℤ) (prevScript : Option CScript) :
    Option (CTxDestination × CBurnCoins) := do
  let nBurnAmounts := burnValues E tx nHeight
  guard (!nBurnAmounts.isEmpty)
  let addr ← (E.addresses (← prevScript)).head?
  return (addr, ⟨nBurnAmounts.sum, nHeight⟩)

/-- The script of the coin that the first input spends, if the coin is unspent. -/
def firstInputScript (view : CoinLookup) (tx : CTransaction) : Option CScript := do
  let txin ← tx.vin.head?
  let coin ← view txin.prevout
  guard (!coin.isSpent)
  return coin.out.scriptPubKey

end KristaTech
