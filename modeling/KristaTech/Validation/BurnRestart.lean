import KristaTech.Validation.BurnHistory
import KristaTech.Validation.GrownChain
import KristaTech.Stake.Kernel

/-!
# The burn cache after a restart

`InitializeBurnCache` of `kernel.cpp` makes the burn cache anew when the node starts: from the cache on
disk, if it was written at a block of the active chain, and from the blocks after it, otherwise from
the blocks of the last `nBurnDecayBlocks` heights. Burns below these heights are dropped. Whose a burn
is it finds out through `GetTransaction`, where a running node reads the coin that is spent.

The weights of the two nodes are compared in every state that is reached by later connections and
disconnections (`Since`). If the scan finds the spent outputs and the stored burns are those of the
chain, the restarted node has all burns but the dropped ones (`Since.books`). They are missed as
soon as the chain has been taken back so far that they would weigh something again.
-/

namespace KristaTech

open CCoinsViewCache List

/-! ### The weight of a burn -/

def burnWeightAt (K : StakeParams) (nHeight : ℤ) (burn : CBurnCoins) : CAmount :=
  let t := nHeight - burn.nHeight
  if 0 ≤ t ∧ t < K.nBurnDecayBlocks then
    (burn.nAmount * 5 * (K.nBurnDecayBlocks - t)).tdiv K.nBurnDecayBlocks
  else 0

def StakeView.withBurns (V : StakeView) (burns : BurnCache) : StakeView := { V with mapAddressBurns := burns }

variable {K : StakeParams} {nHeight : ℤ}

theorem getActiveBurnWeight_eq (K : StakeParams) (V : StakeView) (burns : BurnCache) (dest : CTxDestination)
    (nHeight : ℤ) : getActiveBurnWeight K (V.withBurns burns) dest nHeight =
      ((burns.burnsOf dest).map (burnWeightAt K nHeight)).sum := by
  rw [getActiveBurnWeight]
  split_ifs with hdecay
  · refine (sum_eq_zero fun w hw ↦ ?_).symm
    obtain ⟨b, -, rfl⟩ := mem_map.1 hw
    exact if_neg (by omega)
  · rfl

theorem burnWeightAt_nonneg {burn : CBurnCoins} (h : 0 ≤ burn.nAmount) : 0 ≤ burnWeightAt K nHeight burn := by
  rw [burnWeightAt]
  split_ifs with ht
  · exact Int.tdiv_nonneg (mul_nonneg (mul_nonneg h (by decide)) (by omega)) (by omega)
  · exact le_rfl

/-! ### The start -/

/-- What `ReadBurnCache` reads: a block, and the burns of the addresses as they were there. -/
structure StoredBurns where
  hashBlock : Uint256
  mapSerialized : Std.ExtTreeMap String (List CBurnCoins)

/-- What the start reads, besides the chain. -/
structure BurnStart where
  stakeParams : StakeParams
  stored : Option StoredBurns
  /-- `GetTransaction`. -/
  getTransaction : Uint256 → Option CTransaction
  /-- `DecodeDestination`, for a valid address. -/
  decodeDestination : String → Option CTxDestination

namespace BurnStart

variable (E : ValidationEnv) (R : BurnStart) (s : ChainState)

/-- `nMinBurnHeight`. -/
def nMinBurnHeight : ℤ :=
  if 0 < R.stakeParams.nBurnDecayBlocks then max 0 (s.tip.nHeight - R.stakeParams.nBurnDecayBlocks)
  else 0

def activeHeight (hash : Uint256) : Option ℤ :=
  if hash = E.consensus.hashGenesisBlock then some 0
  else (s.links.find? fun link ↦ link.pindex.hash = hash).map (·.pindex.nHeight)

/-- The stored cache and the height of its block, if the block is in the active chain. -/
def usedStore : Option (StoredBurns × ℤ) := do
  let stored ← R.stored
  let nHeight ← activeHeight E s stored.hashBlock
  return (stored, nHeight)

/-- The burns of a stored cache at the heights up to that of its block. -/
def loadBurns (stored : StoredBurns) (nHeight : ℤ) : BurnCache :=
  stored.mapSerialized.toList.foldl (fun burns pair ↦
    match R.decodeDestination pair.1 with
    | none => burns
    | some dest => pair.2.foldl (fun burns b ↦
        if R.nMinBurnHeight s ≤ b.nHeight ∧ b.nHeight ≤ nHeight then burns.addBurnToCache dest b
        else burns) burns) ∅

def prevScript (tx : CTransaction) : Option CScript := do
  let txin ← tx.vin.head?
  let txPrev ← R.getTransaction txin.prevout.hash
  let out ← txPrev.vout[txin.prevout.n.toNat]?
  return out.scriptPubKey

/-- The burns of a block are looked for in all its transactions. -/
def scanBlock (burns : BurnCache) (link : Link) : BurnCache :=
  link.block.vtx.foldl (fun burns tx ↦
    match burnOf E tx link.pindex.nHeight (R.prevScript tx) with
    | none => burns
    | some e => burns.addBurnToCache e.1 e.2) burns

def scanStart : ℤ :=
  match R.usedStore E s with
  | some (_, nHeight) => nHeight + 1
  | none => R.nMinBurnHeight s

/-- `InitializeBurnCache`. -/
def initializeBurnCache : BurnCache :=
  let burns : BurnCache := match R.usedStore E s with
    | some (stored, nHeight) => R.loadBurns s stored nHeight
    | none => ∅
  (s.links.reverse.filter fun link ↦ R.scanStart E s ≤ link.pindex.nHeight).foldl (R.scanBlock E) burns

/-! ### What it has to find -/

def storedBurns (stored : StoredBurns) (nHeight : ℤ) : List BurnCache.Entry :=
  stored.mapSerialized.toList.flatMap fun pair ↦
    match R.decodeDestination pair.1 with
    | none => []
    | some dest => (pair.2.filter fun b ↦ R.nMinBurnHeight s ≤ b.nHeight ∧ b.nHeight ≤ nHeight).map
        fun b ↦ (dest, b)

/-- For every transaction with a burn in a block that is scanned, `GetTransaction` leads to the
script of the coin that was spent, and to none where no coin was spent. -/
def FindsPayers : Prop :=
  ∀ link ∈ s.links, R.scanStart E s ≤ link.pindex.nHeight → ∀ p ∈ link.txs,
    burnValues E p.1 link.pindex.nHeight ≠ [] →
    R.prevScript p.1 =
      if spendsCoins E.crypto p.1 then p.2.head?.map (·.out.scriptPubKey) else none

/-- A stored cache that is used has the burns of the chain up to its block. -/
def StoreRight : Prop :=
  ∀ stored nHeight, R.usedStore E s = some (stored, nHeight) →
    ∀ dest, (R.storedBurns s stored nHeight).account dest =
      ((chainBurns E s.links).account dest).filter fun b ↦
        R.nMinBurnHeight s ≤ b.nHeight ∧ b.nHeight ≤ nHeight

def keptFrom : ℤ := min (R.nMinBurnHeight s) (R.scanStart E s)

variable {E R s}

theorem storeRight_of_none (h : R.stored = none) : R.StoreRight E s := by
  intro stored nHeight hused
  rw [usedStore, h] at hused
  cases hused

theorem loadBurns_eq (stored : StoredBurns) (nHeight : ℤ) :
    R.loadBurns s stored nHeight = BurnCache.addBurns ∅ (R.storedBurns s stored nHeight) := by
  rw [loadBurns, storedBurns, BurnCache.addBurns, foldl_flatMap]
  congr 1
  funext burns pair
  cases R.decodeDestination pair.1 with
  | none => rfl
  | some dest =>
    dsimp only
    rw [foldl_map, foldl_filter]
    simp only [decide_eq_true_eq]

theorem scanBlock_eq {link : Link} (hlink : link.Recorded E)
    (h : ∀ p ∈ link.txs, burnValues E p.1 link.pindex.nHeight ≠ [] → R.prevScript p.1 =
      if spendsCoins E.crypto p.1 then p.2.head?.map (·.out.scriptPubKey) else none)
    (burns : BurnCache) : R.scanBlock E burns link = burns.addBurns (link.burns E) := by
  have hburn : ∀ p ∈ link.txs, burnOf E p.1 link.pindex.nHeight (R.prevScript p.1) =
      txBurn E link.pindex.nHeight p.1 p.2 := by
    intro p hp
    by_cases hvalues : burnValues E p.1 link.pindex.nHeight = []
    · simp [burnOf, txBurn, hvalues]
    · rw [h p hp hvalues, txBurn]
      split_ifs
      · rfl
      · simp [burnOf]
  have hvtx : link.block.vtx = link.txs.map Prod.fst := by
    obtain ⟨undos, hundos, hblockundo⟩ := hlink.undo
    refine (map_fst_zip ?_).symm
    rw [hblockundo, length_cons, length_tail, hundos.length_eq]
    omega
  rw [scanBlock, hvtx, Link.burns]
  generalize link.txs = txs at hburn
  induction txs generalizing burns with
  | nil => rfl
  | cons p txs ih =>
    rw [forall_mem_cons] at hburn
    rw [map_cons, foldl_cons, ih _ hburn.2, hburn.1, txBurns_cons, BurnCache.addBurns_append]
    cases txBurn E link.pindex.nHeight p.1 p.2 <;> rfl

theorem foldl_scanBlock {links : List Link} (n : ℤ) (hlinks : ∀ link ∈ links, link.Recorded E)
    (h : ∀ link ∈ links, n ≤ link.pindex.nHeight → ∀ p ∈ link.txs,
      burnValues E p.1 link.pindex.nHeight ≠ [] → R.prevScript p.1 =
        if spendsCoins E.crypto p.1 then p.2.head?.map (·.out.scriptPubKey) else none)
    (burns : BurnCache) :
    (links.reverse.filter fun link ↦ n ≤ link.pindex.nHeight).foldl (R.scanBlock E) burns =
      burns.addBurns ((chainBurns E links).filter fun e ↦ n ≤ e.2.nHeight) := by
  induction links with
  | nil => rfl
  | cons link links ih =>
    rw [forall_mem_cons] at hlinks h
    rw [reverse_cons, filter_append, foldl_append, ih hlinks.2 h.2, chainBurns,
      filter_append, BurnCache.addBurns_append]
    by_cases hn : n ≤ link.pindex.nHeight
    · have hall : (link.burns E).filter (fun e ↦ n ≤ e.2.nHeight) = link.burns E :=
        filter_eq_self.2 fun e he ↦ by rw [Link.nHeight_of_mem_burns he]; exact decide_eq_true hn
      rw [hall, filter_cons, decide_eq_true hn, if_pos rfl, filter_nil, foldl_cons,
        foldl_nil, scanBlock_eq hlinks.1 (h.1 hn)]
    · have hnone : (link.burns E).filter (fun e ↦ n ≤ e.2.nHeight) = [] :=
        filter_eq_nil_iff.2 fun e he ↦ by rw [Link.nHeight_of_mem_burns he]; simpa using hn
      rw [hnone, filter_cons, decide_eq_false hn, if_neg Bool.false_ne_true]
      rfl

/-- **The cache that the start makes** has the burns of the chain from some height on. -/
theorem books_initializeBurnCache (hs : s.Regular E) (hfinds : R.FindsPayers E s)
    (hstore : R.StoreRight E s) :
    Books E s.links (R.keptFrom E s ≤ ·) (R.initializeBurnCache E s) := by
  intro dest
  rw [initializeBurnCache, foldl_scanBlock _ hs.recorded hfinds, BurnCache.burnsOf_addBurns,
    account_filter fun b : CBurnCoins ↦ R.scanStart E s ≤ b.nHeight]
  cases hused : R.usedStore E s with
  | none =>
    have hkept : R.keptFrom E s = R.scanStart E s := by rw [keptFrom, scanStart, hused, min_self]
    rw [hkept, BurnCache.burnsOf_empty, nil_append]
  | some used =>
    obtain ⟨stored, nHeight⟩ := used
    have hstart : R.scanStart E s = nHeight + 1 := by rw [scanStart, hused]
    have hsorted : ((chainBurns E s.links).account dest).Pairwise fun b b' ↦ b.nHeight ≤ b'.nHeight := by
      refine (sorted_chainBurns hs.numbered).filterMap _ fun e e' hle b hb b' hb' ↦ ?_
      rw [Option.ite_none_right_eq_some] at hb hb'
      rwa [← Option.some.inj hb.2, ← Option.some.inj hb'.2]
    dsimp only
    rw [keptFrom, hstart, loadBurns_eq, BurnCache.burnsOf_addBurns, BurnCache.burnsOf_empty, nil_append,
      hstore stored nHeight hused dest, filter_append_filter_of_sorted hsorted]

end BurnStart

/-! ### What follows -/

/-- What two nodes do after a start at `s₀`. The one without a restart reaches the state `s`; the
other one, whose burn cache was `burns₀`, makes the same calls and has the cache `burns`. The tip has
not been lower than `low`. -/
inductive Since (E : ValidationEnv) (Sees : ChainState → CCoinsViewCache → Prop) (s₀ : ChainState)
    (burns₀ : BurnCache) : ℤ → ChainState → BurnCache → Prop
  | start : Since E Sees s₀ burns₀ s₀.tip.nHeight s₀ burns₀
  | connect {low s burns c G connected} : Since E Sees s₀ burns₀ low s burns → c.OnTip E s →
    Sees s c.view → c.run E s.node = (G, .ok connected) →
    Since E Sees s₀ burns₀ low (s.connect c G connected)
      (c.run E { s.node with mapAddressBurns := burns }).1.mapAddressBurns
  | disconnect {low s burns link links D view G view'} : Since E Sees s₀ burns₀ low s burns →
    s.links = link :: links → Sees s view → D.pindex = link.pindex →
    disconnectBlock E D s.node link.block (some link.blockundo) view = (G, .ok (view', true)) →
    Since E Sees s₀ burns₀ (min low link.pprev.nHeight) ⟨link.pprev, links, view'.utxo, G⟩
      (disconnectBlock E D { s.node with mapAddressBurns := burns } link.block (some link.blockundo)
        view).1.mapAddressBurns

section Since

variable {E : ValidationEnv} {Sees : ChainState → CCoinsViewCache → Prop} {s₀ s : ChainState}
  {burns₀ burns : BurnCache} {low m : ℤ}

theorem Since.unbroken (h : Since E Sees s₀ burns₀ low s burns) (h₀ : Unbroken E Sees s₀) :
    Unbroken E Sees s := by
  induction h with
  | start => exact h₀
  | connect _ htip hview hok ih => exact .connect ih htip hview hok
  | disconnect _ hlinks hview hD hok ih => exact .disconnect ih hlinks hview hD hok

theorem Since.low_le (h : Since E Sees s₀ burns₀ low s burns) : low ≤ s.tip.nHeight := by
  induction h with
  | start => exact le_rfl
  | @connect low s burns c G connected _ htip _ _ ih =>
    show low ≤ c.pindex.nHeight
    rw [htip.nHeight]
    exact ih.trans (by omega)
  | disconnect => exact min_le_right _ _

/-- **The cache of the restarted node** has the burns of the chain that were kept at the start, and
those of the blocks that were connected since. -/
theorem Since.books (hsees : ∀ s view, Sees s view → view.Spendable) (h₀ : Unbroken E Sees s₀)
    (hburns₀ : Books E s₀.links (m ≤ ·) burns₀) (h : Since E Sees s₀ burns₀ low s burns) :
    Books E s.links (fun n ↦ m ≤ n ∨ low < n) burns := by
  induction h with
  | start =>
    have hs₀ := h₀.regular hsees
    refine hburns₀.congr hs₀.numbered fun n hn ↦ ?_
    rw [hs₀.height]
    exact (or_iff_left (by omega)).symm
  | @connect low s burns c G connected hsince htip hview hok ih =>
    obtain ⟨-, hadds⟩ := htip.adds_burns (hsees _ _ hview) hok rfl
    rw [hadds burns]
    refine ih.connect (Or.inr ?_)
    show low < c.pindex.nHeight
    rw [htip.nHeight]
    exact Int.lt_add_one_of_le hsince.low_le
  | @disconnect low s burns link links D view G view' hsince hlinks hview hD hok ih =>
    have hs := (hsince.unbroken h₀).regular hsees
    have hlink := hs.recorded link (by rw [hlinks]; exact mem_cons_self)
    have hnumbered : Numbered (link :: links) := hlinks ▸ hs.numbered
    rw [hlink.removes_burns hD hok burns]
    rw [hlinks] at ih
    -- no block above the new tip is left
    refine (ih.disconnect hnumbered).congr hnumbered.2.2 fun n hn ↦ ?_
    rw [hnumbered.1]
    omega

end Since

/-! ### A burn whose payer is not found -/

section Example

/-- The regression-test network; the key hash 0 is the first burn address. -/
def regTestEnv : ValidationEnv :=
  { (default : ValidationEnv) with
    consensus := .regTest fun
      | .keyID 0 => "ktBurn42LtQP2pJ2fS5X2kpRx4Sd86kNgx4"
      | _ => "" }

def regTestStakeParams : StakeParams where
  nStakeMinAge := 0
  nBurnDecayBlocks := 10000
  nMasternodeUptimeLimit := 10000
  nTimeLastCheckpoint := 1454124731
  oldModifierInterval := 0
  stakeModifier := fun _ ↦ (false, 0)
  activeLifetime := fun _ _ ↦ none

def rewardTx (nHeight : ℕ) (coins : ℤ) : CTransaction where
  nVersion := 1
  vin := [⟨COutPoint.null, [1, UInt8.ofNat nHeight], sequenceFinal⟩]
  vout := [⟨coins * 10 ^ 8, CScript.pushOp (CScript.pushData [] burnerKey.bytes) .OP_CHECKSIG⟩]
  nLockTime := 0

/-- The reward of the second block is burned; its coinbase has no other output. -/
def burnRewardTx : CTransaction where
  nVersion := 1
  vin := [⟨⟨(rewardTx 2 100).getHash default, 0⟩,
    CScript.pushData [] [0x30, 6, 2, 1, 1, 2, 1, 1, 1], sequenceFinal⟩]
  vout := [⟨100 * 10 ^ 8, getScriptForDestination (.keyID 0)⟩]
  nLockTime := 0

/-- Twelve blocks; the burn is in the last one, when the reward has matured. -/
def burnRewardBlocks : List (List CTransaction) :=
  [rewardTx 1 0] :: [rewardTx 2 100] :: (List.range 9).map (fun n ↦ [rewardTx (n + 3) 0]) ++
    [[rewardTx 12 0, burnRewardTx]]

def burnRewardStart : Grown := .genesis regTestEnv ⟨.empty, .empty, ∅⟩

def burnRewardChain : Grown := (burnRewardStart.grow regTestEnv burnRewardBlocks).getD burnRewardStart

def burnerDest : CTxDestination := .keyID (burnerKey.getID default)

/-- A start that scans the blocks; the transactions are found by the given function. -/
def scanningStart (getTransaction : Uint256 → Option CTransaction) : BurnStart where
  stakeParams := regTestStakeParams
  stored := none
  getTransaction := getTransaction
  decodeDestination := fun _ ↦ none

def indexedStart : BurnStart :=
  scanningStart fun hash ↦ if hash = (rewardTx 2 100).getHash default then some (rewardTx 2 100) else none

/-- Without one, a transaction is found through one of its unspent outputs, and the coinbase has none
left. -/
def unindexedStart : BurnStart := scanningStart fun _ ↦ none

instance (R : BurnStart) (s : ChainState) : Decidable (R.FindsPayers regTestEnv s) :=
  inferInstanceAs (Decidable (∀ link ∈ s.links, _ → ∀ p ∈ link.txs, _ → _))

theorem burnRewardChain_facts : (burnRewardStart.grow regTestEnv burnRewardBlocks).isSome = true ∧
      burnRewardChain.state.tip.nHeight = 12 ∧
      (burnRewardChain.view.cacheCoins.toList.all fun p ↦
        p.1.hash ≠ (rewardTx 2 100).getHash default) = true ∧
      burnRewardChain.state.node.mapAddressBurns.burnsOf burnerDest = [⟨100 * 10 ^ 8, 12⟩] ∧
      (unindexedStart.initializeBurnCache regTestEnv burnRewardChain.state).burnsOf burnerDest = [] ∧
      indexedStart.FindsPayers regTestEnv burnRewardChain.state := by
  decide +kernel

theorem unbroken_burnRewardChain : Unbroken regTestEnv SeesStored burnRewardChain.state ∧
    burnRewardChain.Good := by
  obtain ⟨g, hgrow⟩ := Option.isSome_iff_exists.1 burnRewardChain_facts.1
  have hchain : burnRewardChain = g := by rw [burnRewardChain, hgrow, Option.getD_some]
  rw [hchain]
  exact Grown.induction (Grown.good_genesis _) (.genesis rfl rfl)
    (fun _ _ _ _ hs htip hsees hok ↦ .connect hs htip hsees hok) hgrow

end Example

end KristaTech
