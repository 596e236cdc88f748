import KristaTech.Library.Ranking
import KristaTech.Adam.PoolContents

/-!
# The election of the miners and of the coordinator

`SelectAdamNodes` of `adam.cpp` with all that `Adam.selectAdamNodes` leaves out: calls without a height,
which look the seed up in the index of seeds, and the static cache of the last election. The cache is
keyed on all that the election depends on, so a call returns what it would have returned without it
(`SelectCache.select_eq`), and that is the election as specified by `Elected`: the keys of lowest seeded
hash (`selectAdamNodes_correct`).

`CheckBlock` asks for the threshold of the block's own height, the election for that of the parent's.
The two differ for one height, the first above the bootstrap limit, and there the miners may be too few
(`threshold_attainable_iff`).
-/

namespace KristaTech.Adam

open Masternode Llmq List

variable (E : ValidationEnv)

/-! ### A call -/

/-- A call of `SelectAdamNodes` and what it reads. -/
structure SelectCall where
  hashAdamSeed : Uint256
  nBlockHeight : ℤ
  mapSeedToBlockHash : Uint256 → Option Uint256
  mapBlockIndex : Uint256 → Option CBlockIndex
  tip : Option CBlockIndex
  /-- The coins of `pView`, or of the tip if there is none. -/
  view : CoinLookup
  masternodes : MasternodeState
  getAdamMinerPool : ℤ → List CPubKey
  nodup_minerPool : ∀ nHeight, (getAdamMinerPool nHeight).Nodup

namespace SelectCall

variable (call : SelectCall)

/-- `nHeight`: that of the parent, or of the block the seed belongs to, or -1. -/
def nHeight : ℤ :=
  if 0 < call.nBlockHeight then call.nBlockHeight - 1
  else
    (((call.mapSeedToBlockHash call.hashAdamSeed).bind call.mapBlockIndex).map (·.nHeight)).getD (-1)

def tipHeight : ℤ := call.tip.elim 0 (·.nHeight)

/-- The height at which the masternodes and the threshold are taken. -/
def currentHeight : ℤ := if 0 ≤ call.nHeight then call.nHeight else call.tipHeight

def effectiveBlockHeight : ℤ :=
  if 0 < call.nBlockHeight then call.nBlockHeight
  else if 0 ≤ call.nHeight then call.nHeight + 1
  else call.tip.elim 0 (·.nHeight + 1)

def minCount : ℕ :=
  if 0 < call.effectiveBlockHeight ∧
    E.consensus.networkUpgradeActive call.effectiveBlockHeight .UPGRADE_POMBL
  then E.consensus.nAdamMinersCount else 11

def threshold : ℤ := E.consensus.getAdamThreshold call.currentHeight

def pool : List CPubKey := call.getAdamMinerPool call.nHeight

/-- The keys of the active masternodes, which are in order as the map is. -/
def vMns : List CPubKey :=
  if E.consensus.isRegTestNet then []
  else (activeMasternodes E call.view call.masternodes call.currentHeight).map Prod.fst

end SelectCall

def seededHash (hashAdamSeed : Uint256) (key : CPubKey) : Uint256 :=
  E.crypto.hash (hashAdamSeed.toBytes ++ Writer.pubKey key)

/-- The ranking: from the miner pool and the masternodes, the miners and the coordinator. -/
def electNodes (hashAdamSeed : Uint256) (minCount : ℕ) (threshold : ℤ) (pool vMns : List CPubKey) :
    List CPubKey × CPubKey :=
  let rankedPool := rankKeys E hashAdamSeed pool
  if threshold < vMns.length then
    let coordinator := (rankKeys E hashAdamSeed vMns).headD default
    ((rankedPool.filter (· != coordinator)).take minCount, coordinator)
  else
    (rankedPool.take minCount, (rankedPool.drop minCount).headD (rankedPool.headD default))

/-! ### The cache -/

/-- The static variables of `SelectAdamNodes`. -/
structure SelectCache where
  cachedSeed : Uint256 := 0
  cachedMinCount : ℤ := -1
  cachedThreshold : ℤ := -1
  cachedPool : List CPubKey := []
  cachedMns : List CPubKey := []
  cachedSelectedMiners : List CPubKey := []
  cachedCoordinator : CPubKey := default

namespace SelectCache

variable (c : SelectCache) (call : SelectCall)

def hit : Bool :=
  c.cachedSeed != 0 && c.cachedSeed == call.hashAdamSeed && c.cachedMinCount == call.minCount E &&
    c.cachedThreshold == call.threshold E && c.cachedPool == call.pool && c.cachedMns == call.vMns E

/-- `SelectAdamNodes`: the miners and the coordinator if it succeeds, and the cache after it. -/
def select : Option (List CPubKey × CPubKey) × SelectCache :=
  if (call.pool.length : ℤ) < call.threshold E then (none, c)
  else if c.hit E call then (some (c.cachedSelectedMiners, c.cachedCoordinator), c)
  else
    let r := electNodes E call.hashAdamSeed (call.minCount E) (call.threshold E) call.pool (call.vMns E)
    (some r,
      { cachedSeed := call.hashAdamSeed
        cachedMinCount := call.minCount E
        cachedThreshold := call.threshold E
        cachedPool := call.pool
        cachedMns := call.vMns E
        cachedSelectedMiners := r.1
        cachedCoordinator := r.2 })

def run (calls : List SelectCall) : SelectCache :=
  calls.foldl (fun c call ↦ (c.select E call).2) {}

/-- What is cached is the election of the inputs that are cached with it. -/
def Sound : Prop :=
  c.cachedSeed = 0 ∨ ∃ n : ℕ, c.cachedMinCount = n ∧ (c.cachedSelectedMiners, c.cachedCoordinator) =
      electNodes E c.cachedSeed n c.cachedThreshold c.cachedPool c.cachedMns

variable {E c call}

theorem Sound.select (h : c.Sound E) : (c.select E call).2.Sound E := by
  rw [SelectCache.select]
  split_ifs
  · exact h
  · exact h
  · exact Or.inr ⟨call.minCount E, rfl, rfl⟩

theorem sound_run (calls : List SelectCall) : (run E calls).Sound E :=
  foldl_invariant (motive := Sound E) (Or.inl rfl) fun _ _ _ h ↦ h.select

/-- **The cache does not show**: a call returns the election of its own inputs. -/
theorem Sound.select_eq (h : c.Sound E) : (c.select E call).1 =
      if (call.pool.length : ℤ) < call.threshold E then none
      else some (electNodes E call.hashAdamSeed (call.minCount E) (call.threshold E) call.pool
        (call.vMns E)) := by
  rw [SelectCache.select]
  split_ifs with hfew hhit
  · rfl
  · simp only [hit, Bool.and_eq_true, bne_iff_ne, ne_eq, beq_iff_eq] at hhit
    obtain ⟨⟨⟨⟨⟨hseed, hcall⟩, hcount⟩, hthreshold⟩, hpool⟩, hmns⟩ := hhit
    obtain ⟨n, hn, helected⟩ := h.resolve_left hseed
    obtain rfl : n = call.minCount E := by
      rw [hcount] at hn
      exact_mod_cast hn.symm
    rw [helected, hcall, hthreshold, hpool, hmns]
  · rfl

end SelectCache

def minersCount (nBlockHeight : ℤ) : ℕ :=
  if E.consensus.networkUpgradeActive nBlockHeight .UPGRADE_POMBL then E.consensus.nAdamMinersCount
  else 11

theorem selectAdamNodes_eq (S : ElectionState) (hashAdamSeed : Uint256) (nBlockHeight : ℤ) :
    selectAdamNodes E S hashAdamSeed nBlockHeight =
      let pool := S.getAdamMinerPool (nBlockHeight - 1)
      let threshold := E.consensus.getAdamThreshold (nBlockHeight - 1)
      if (pool.length : ℤ) < threshold then none
      else some (electNodes E hashAdamSeed (minersCount E nBlockHeight) threshold pool
        ((electableMasternodes E S (nBlockHeight - 1)).map Prod.fst)) := by
  simp only [selectAdamNodes, electNodes, minersCount, apply_ite some]

/-! ### The election as specified -/

/-- Who is to be elected. With more masternodes than the threshold the one of lowest seeded hash
coordinates, and the miners are the keys of lowest hash among the rest of the pool; otherwise the miners
are the keys of lowest hash in the pool, and the next one coordinates, or the first if there is none. -/
structure Elected (hashAdamSeed : Uint256) (minCount : ℕ) (threshold : ℤ)
    (pool vMns miners : List CPubKey) (coordinator : CPubKey) : Prop where
  byMasternodes : threshold < vMns.length → coordinator ∈ vMns ∧
    (∀ k ∈ vMns, k ≠ coordinator → seededHash E hashAdamSeed coordinator < seededHash E hashAdamSeed k) ∧
    List.Lowest (fun k ↦ (seededHash E hashAdamSeed k).toNat) minCount
      (pool.filter (· != coordinator)) miners
  byPool : vMns.length ≤ threshold →
    List.Lowest (fun k ↦ (seededHash E hashAdamSeed k).toNat) minCount pool miners ∧
    (minCount < pool.length → coordinator ∈ pool ∧ coordinator ∉ miners ∧
      ∀ k ∈ pool, k ∉ miners → k ≠ coordinator →
        seededHash E hashAdamSeed coordinator < seededHash E hashAdamSeed k) ∧
    (pool.length ≤ minCount → miners.head? = some coordinator)

section

variable {E} {hashAdamSeed : Uint256} {minCount : ℕ} {threshold : ℤ} {pool vMns : List CPubKey}

theorem length_rankKeys {keys : List CPubKey} : (rankKeys E hashAdamSeed keys).length = keys.length :=
  length_insertionSort _ _

theorem exists_rankKeys_eq_cons (hne : vMns ≠ []) :
    ∃ first rest, rankKeys E hashAdamSeed vMns = first :: rest ∧ first ∈ vMns := by
  have hranked : rankKeys E hashAdamSeed vMns ≠ [] := by
    rw [← length_pos_iff, length_rankKeys]
    exact length_pos_iff.2 hne
  obtain ⟨first, rest, hcons⟩ := exists_cons_of_ne_nil hranked
  exact ⟨first, rest, hcons, mem_rankKeys.1 (hcons ▸ mem_cons_self)⟩

theorem head_rankKeys (hne : vMns ≠ []) (hinj : ∀ a ∈ vMns, ∀ b ∈ vMns,
      seededHash E hashAdamSeed a = seededHash E hashAdamSeed b → a = b) :
    (rankKeys E hashAdamSeed vMns).headD default ∈ vMns ∧
      ∀ k ∈ vMns, k ≠ (rankKeys E hashAdamSeed vMns).headD default →
        seededHash E hashAdamSeed ((rankKeys E hashAdamSeed vMns).headD default) <
          seededHash E hashAdamSeed k := by
  have hsorted : (rankKeys E hashAdamSeed vMns).Pairwise fun a b ↦
      (seededHash E hashAdamSeed a).toNat ≤ (seededHash E hashAdamSeed b).toNat :=
    pairwise_insertionSort _ _
  obtain ⟨first, rest, hranked, hfirst⟩ : ∃ first rest, rankKeys E hashAdamSeed vMns = first :: rest ∧
      first ∈ vMns := exists_rankKeys_eq_cons hne
  rw [hranked, pairwise_cons] at hsorted
  rw [hranked]
  refine ⟨hfirst, fun k hk hne ↦ ?_⟩
  have hrest : k ∈ first :: rest := hranked ▸ mem_rankKeys.2 hk
  have hle := hsorted.1 k ((mem_cons.1 hrest).resolve_left hne)
  refine BitVec.lt_def.2 (lt_of_le_of_ne hle fun heq ↦ ?_)
  exact hne (hinj first hfirst k hk (BitVec.eq_of_toNat_eq heq)).symm

theorem electNodes_elected (hthreshold : 0 < threshold) (hfull : threshold ≤ pool.length)
    (hnodup : pool.Nodup)
    (hinj : ∀ a ∈ pool ++ vMns, ∀ b ∈ pool ++ vMns,
      seededHash E hashAdamSeed a = seededHash E hashAdamSeed b → a = b) :
    Elected E hashAdamSeed minCount threshold pool vMns
      (electNodes E hashAdamSeed minCount threshold pool vMns).1
      (electNodes E hashAdamSeed minCount threshold pool vMns).2 := by
  have hscore : ∀ a ∈ pool, ∀ b ∈ pool,
      (seededHash E hashAdamSeed a).toNat = (seededHash E hashAdamSeed b).toNat → a = b :=
    fun a ha b hb heq ↦ hinj a (mem_append_left _ ha) b (mem_append_left _ hb) (BitVec.eq_of_toNat_eq heq)
  refine ⟨fun hmany ↦ ?_, fun hfew ↦ ?_⟩
  · rw [electNodes, if_pos hmany]
    have hne : vMns ≠ [] := by
      rintro rfl
      rw [length_nil] at hmany
      omega
    obtain ⟨hmem, hlowest⟩ := head_rankKeys hne fun a ha b hb ↦
      hinj a (mem_append_right _ ha) b (mem_append_right _ hb)
    refine ⟨hmem, hlowest, ?_⟩
    have hfilter (coordinator : CPubKey) : (rankKeys E hashAdamSeed pool).filter (· != coordinator) =
        (pool.filter (· != coordinator)).insertionSort fun a b ↦
          (seededHash E hashAdamSeed a).toNat ≤ (seededHash E hashAdamSeed b).toNat :=
      filter_insertionSort hnodup hscore _
    show List.Lowest _ minCount (pool.filter (· != (rankKeys E hashAdamSeed vMns).headD default))
      (((rankKeys E hashAdamSeed pool).filter
        (· != (rankKeys E hashAdamSeed vMns).headD default)).take minCount)
    rw [hfilter]
    exact lowest_take_insertionSort (hnodup.filter _) (fun a ha b hb ↦
      hscore a (mem_of_mem_filter ha) b (mem_of_mem_filter hb)) minCount
  · rw [electNodes, if_neg (not_lt.2 hfew)]
    have hranked := pairwise_score_lt hnodup hscore
    have hlength : (rankKeys E hashAdamSeed pool).length = pool.length := length_rankKeys
    refine ⟨lowest_take_insertionSort hnodup hscore minCount, fun hlt ↦ ?_, fun hle ↦ ?_⟩
    · obtain ⟨hmem, hnot, hlowest⟩ := lowest_head_drop hranked (n := minCount)
        (by rw [length_insertionSort]; exact hlt)
        ((rankKeys E hashAdamSeed pool).headD default)
      refine ⟨mem_rankKeys.1 hmem, hnot, fun k hk hk' hne ↦ ?_⟩
      exact BitVec.lt_def.2 (hlowest k (mem_rankKeys.2 hk) hk' hne)
    · show ((rankKeys E hashAdamSeed pool).take minCount).head? =
        some (((rankKeys E hashAdamSeed pool).drop minCount).headD
          ((rankKeys E hashAdamSeed pool).headD default))
      rw [take_of_length_le (hlength.trans_le hle), drop_of_length_le (hlength.trans_le hle)]
      cases hcase : rankKeys E hashAdamSeed pool with
      | nil =>
        rw [hcase, length_nil] at hlength
        omega
      | cons first rest => rfl

end

/-- **The election is as specified**, after any calls before, whether it is served from the cache or
not. -/
theorem selectAdamNodes_correct (hnetwork : 0 < E.consensus.nAdamThreshold) (calls : List SelectCall)
    (call : SelectCall)
    (hinj : ∀ a ∈ call.pool ++ call.vMns E, ∀ b ∈ call.pool ++ call.vMns E,
      seededHash E call.hashAdamSeed a = seededHash E call.hashAdamSeed b → a = b)
    {miners : List CPubKey} {coordinator : CPubKey}
    (h : ((SelectCache.run E calls).select E call).1 = some (miners, coordinator)) :
    Elected E call.hashAdamSeed (call.minCount E) (call.threshold E) call.pool (call.vMns E) miners
      coordinator := by
  have hthreshold : 0 < call.threshold E := by
    rw [SelectCall.threshold, Params.getAdamThreshold]
    split_ifs
    · decide
    · exact hnetwork
  rw [(SelectCache.sound_run calls).select_eq] at h
  split_ifs at h with hfew
  have helected : Elected E call.hashAdamSeed (call.minCount E) (call.threshold E) call.pool (call.vMns E)
      (electNodes E call.hashAdamSeed (call.minCount E) (call.threshold E) call.pool (call.vMns E)).1
      (electNodes E call.hashAdamSeed (call.minCount E) (call.threshold E) call.pool (call.vMns E)).2 :=
    electNodes_elected hthreshold (not_lt.1 hfew) (call.nodup_minerPool _) hinj
  rw [Option.some.inj h] at helected
  exact helected

def poolOfThirteen : SelectCall where
  hashAdamSeed := 1
  nBlockHeight := 3000
  mapSeedToBlockHash _ := none
  mapBlockIndex _ := none
  tip := none
  view _ := none
  masternodes := ⟨Registry.empty, Delegations.empty, ∅⟩
  getAdamMinerPool _ := (List.range 13).map fun i ↦ minedKey (UInt8.ofNat i)
  nodup_minerPool _ := by decide

/-- The second of two equal calls, which is served from the cache. -/
theorem selectAdamNodes_correct_cached :
    (SelectCache.run default [poolOfThirteen]).hit default poolOfThirteen = true ∧ ∃ miners coordinator,
        ((SelectCache.run default [poolOfThirteen]).select default poolOfThirteen).1 =
            some (miners, coordinator) ∧
          Elected default 1 11 5 poolOfThirteen.pool [] miners coordinator := by
  refine ⟨by decide, ?_⟩
  obtain ⟨⟨miners, coordinator⟩, h⟩ := Option.isSome_iff_exists.1
    (show ((SelectCache.run default [poolOfThirteen]).select default poolOfThirteen).1.isSome = true by
      decide)
  exact ⟨miners, coordinator, h, selectAdamNodes_correct default (by decide) [poolOfThirteen]
    poolOfThirteen (by decide +kernel) h⟩

/-! ### The threshold -/

section Threshold

variable {E} {N : PoolParams} {B : Uint256 → CBlock} {ancestors : List CBlockIndex}
  {view : CoinLookup} {M : MasternodeState} {seedAt : ℤ → Uint256} {pprev : CBlockIndex}
variable {hashAdamSeed : Uint256}

theorem length_electNodes {minCount : ℕ} {threshold : ℤ} {pool vMns : List CPubKey}
    (hthreshold : 0 ≤ threshold) (hnodup : pool.Nodup) (hmns : ∀ k ∈ vMns, k ∈ pool) :
    (electNodes E hashAdamSeed minCount threshold pool vMns).1.length =
      min minCount (pool.length - if threshold < vMns.length then 1 else 0) := by
  rw [electNodes]
  split_ifs with hmany
  · have hne : vMns ≠ [] := by
      rintro rfl
      rw [length_nil] at hmany
      omega
    have hcoordinator : (rankKeys E hashAdamSeed vMns).headD default ∈ vMns := by
      obtain ⟨first, rest, hcons, hfirst⟩ : ∃ first rest, rankKeys E hashAdamSeed vMns = first :: rest ∧
          first ∈ vMns := exists_rankKeys_eq_cons hne
      rwa [hcons]
    have hranked : (rankKeys E hashAdamSeed pool).Nodup :=
      (perm_insertionSort _ _).nodup_iff.2 hnodup
    show (((rankKeys E hashAdamSeed pool).filter
      (· != (rankKeys E hashAdamSeed vMns).headD default)).take minCount).length = _
    rw [length_take, ← hranked.erase_eq_filter,
      length_erase_of_mem (mem_rankKeys.2 (hmns _ hcoordinator)), length_rankKeys]
  · rw [length_take, length_rankKeys, Nat.sub_zero]

theorem mem_poolOn_of_electable (hN : ∀ k ∈ N.deterministicPubKeys, k.isValid = true)
    (htip : ancestors.getLast? = some pprev) {k : CPubKey}
    (hk : k ∈ (electableMasternodes E (ElectionState.onChain E N hN B ancestors view M seedAt)
      pprev.nHeight).map Prod.fst) : k ∈ poolOn E N B ancestors view M := by
  rw [electableMasternodes] at hk
  split_ifs at hk with hregtest
  · cases hk
  · obtain ⟨kv, hkv, rfl⟩ := mem_map.1 hk
    obtain ⟨free, hfree⟩ : ∃ free, poolOn E N B ancestors view M =
        (fillUpTo (maxBootstrapPoolSize E) (fundedKeys E N B ancestors view M pprev.nHeight)
          free).toList := exists_poolOn_eq htip
    rw [hfree, Std.ExtTreeSet.mem_toList]
    refine mem_fillUpTo_of_mem ((mem_registeredOn _).2 (Or.inl ?_))
    exact (mem_startKeys (Bool.eq_false_of_not_eq_true hregtest)).2 ⟨kv.2, hkv⟩

theorem getAdamMinerPool_onChain (hN : ∀ k ∈ N.deterministicPubKeys, k.isValid = true)
    (hchain : (ancestors.length : ℤ) = pprev.nHeight + 1) :
    (ElectionState.onChain E N hN B ancestors view M seedAt).getAdamMinerPool pprev.nHeight =
      poolOn E N B ancestors view M := by
  have htake : ancestors.take (if 0 ≤ pprev.nHeight ∧ pprev.nHeight < ancestors.length
      then pprev.nHeight.toNat + 1 else ancestors.length) = ancestors :=
    take_of_length_le (by split_ifs <;> omega)
  show poolOn E N B (ancestors.take _) view M = _
  rw [htake]

theorem length_electable_le (hN : ∀ k ∈ N.deterministicPubKeys, k.isValid = true)
    (htip : ancestors.getLast? = some pprev) :
    (electableMasternodes E (ElectionState.onChain E N hN B ancestors view M seedAt)
      pprev.nHeight).length ≤ (poolOn E N B ancestors view M).length := by
  rw [← length_map Prod.fst]
  refine (subperm_of_subset ?_ fun k ↦ mem_poolOn_of_electable hN htip).length_le
  rw [electableMasternodes]
  split_ifs
  · exact nodup_nil
  · exact nodup_activeMasternodes

theorem length_of_selectAdamNodes (hN : ∀ k ∈ N.deterministicPubKeys, k.isValid = true)
    (hpos : 0 ≤ E.consensus.getAdamThreshold pprev.nHeight)
    (hchain : (ancestors.length : ℤ) = pprev.nHeight + 1) (htip : ancestors.getLast? = some pprev)
    {miners : List CPubKey} {coordinator : CPubKey}
    (h : selectAdamNodes E (ElectionState.onChain E N hN B ancestors view M seedAt) hashAdamSeed
      (pprev.nHeight + 1) = some (miners, coordinator)) :
    E.consensus.getAdamThreshold pprev.nHeight ≤ (poolOn E N B ancestors view M).length ∧
      miners.length = min (minersCount E (pprev.nHeight + 1)) ((poolOn E N B ancestors view M).length -
        if E.consensus.getAdamThreshold pprev.nHeight <
          (electableMasternodes E (ElectionState.onChain E N hN B ancestors view M seedAt)
            pprev.nHeight).length then 1 else 0) := by
  have hpool : (ElectionState.onChain E N hN B ancestors view M seedAt).getAdamMinerPool pprev.nHeight =
      poolOn E N B ancestors view M := getAdamMinerPool_onChain hN hchain
  rw [selectAdamNodes_eq] at h
  simp only [add_sub_cancel_right, hpool] at h
  split_ifs at h with hfew
  refine ⟨not_lt.1 hfew, ?_⟩
  have hminers := congrArg (fun r ↦ r.1.length) (Option.some.inj h)
  refine hminers.symm.trans ((length_electNodes hpos nodup_poolOn fun k ↦
    mem_poolOn_of_electable hN htip).trans ?_)
  rw [length_map]

/-- **The threshold can be reached** by the elected miners of a block on a chain, except for the first
height above the bootstrap limit: there it can if and only if there are enough candidates for the new
threshold. -/
theorem threshold_attainable_iff (hN : ∀ k ∈ N.deterministicPubKeys, k.isValid = true)
    (hcount : 5 ≤ E.consensus.nAdamMinersCount)
    (hthreshold : E.consensus.nAdamThreshold ≤ E.consensus.nAdamMinersCount)
    (heleven : E.consensus.nAdamThreshold ≤ 11) (hpos : 0 ≤ E.consensus.nAdamThreshold)
    (hchain : (ancestors.length : ℤ) = pprev.nHeight + 1) (htip : ancestors.getLast? = some pprev)
    {hashAdamSeed : Uint256} {miners : List CPubKey} {coordinator : CPubKey}
    (h : selectAdamNodes E (ElectionState.onChain E N hN B ancestors view M seedAt) hashAdamSeed
      (pprev.nHeight + 1) = some (miners, coordinator)) :
    E.consensus.getAdamThreshold (pprev.nHeight + 1) ≤ miners.length ↔
      (pprev.nHeight + 1 = E.consensus.nAdamThresholdBootstrapLimit → E.consensus.nAdamThreshold +
            (if 5 < (electableMasternodes E (ElectionState.onChain E N hN B ancestors view M seedAt)
              pprev.nHeight).length then 1 else 0) ≤
          ((poolOn E N B ancestors view M).length : ℤ)) := by
  have hheight : 0 ≤ pprev.nHeight := by
    have hne : ancestors ≠ [] := by
      rintro rfl
      cases htip
    have hlength := length_pos_iff.2 hne
    omega
  have hbootstrap : 0 ≤ E.consensus.getAdamThreshold pprev.nHeight := by
    rw [Params.getAdamThreshold]
    split_ifs
    · decide
    · exact hpos
  obtain ⟨hpool, hminers⟩ := length_of_selectAdamNodes hN hbootstrap hchain htip h
  have hmns : (electableMasternodes E (ElectionState.onChain E N hN B ancestors view M seedAt)
      pprev.nHeight).length ≤ (poolOn E N B ancestors view M).length := length_electable_le hN htip
  have helected : 5 ≤ minersCount E (pprev.nHeight + 1) ∧
      E.consensus.nAdamThreshold ≤ minersCount E (pprev.nHeight + 1) := by
    rw [minersCount]
    split_ifs
    · exact ⟨hcount, hthreshold⟩
    · exact ⟨by decide, heleven⟩
  rcases lt_trichotomy (pprev.nHeight + 1) E.consensus.nAdamThresholdBootstrapLimit with hlt | heq | hgt
  · have hown : E.consensus.getAdamThreshold (pprev.nHeight + 1) = 5 := if_pos ⟨hlt, by omega⟩
    have hparent : E.consensus.getAdamThreshold pprev.nHeight = 5 := if_pos ⟨by omega, hheight⟩
    rw [hparent] at hpool hminers
    rw [hown, hminers]
    split_ifs <;> omega
  · -- the election is content with 5, the block needs more
    have hown : E.consensus.getAdamThreshold (pprev.nHeight + 1) = E.consensus.nAdamThreshold :=
      if_neg (by omega)
    have hparent : E.consensus.getAdamThreshold pprev.nHeight = 5 := if_pos ⟨by omega, hheight⟩
    rw [hparent] at hpool hminers
    rw [hown, hminers]
    split_ifs <;> omega
  · have hown : E.consensus.getAdamThreshold (pprev.nHeight + 1) = E.consensus.nAdamThreshold :=
      if_neg (by omega)
    have hparent : E.consensus.getAdamThreshold pprev.nHeight = E.consensus.nAdamThreshold :=
      if_neg (by omega)
    rw [hparent] at hpool hminers
    rw [hown, hminers]
    split_ifs <;> omega

theorem poolOn_of_unregistered (htip : ancestors.getLast? = some pprev)
    (hblocks : ∀ hash, blockRegistrations E N (B hash) = [])
    (hlimit : N.nAdamBootstrapLimit ≤ pprev.nHeight) :
    poolOn E N B ancestors view M = (startKeys E N view M pprev.nHeight).toList := by
  have hregistered (nRegPeriod : ℤ) (pindexes : List CBlockIndex) (keys : KeySet × KeySet) :
      registeredOn E N B ancestors view nRegPeriod pindexes keys = keys := by
    simp only [registeredOn, hblocks, foldl_nil, foldl_fixed]
  simp only [poolOn, htip, Option.elim_some, hregistered, decide_eq_false (not_lt.2 hlimit), Bool.and_false]
  rfl

/-- Blocks without registrations up to the height before the bootstrap limit of the main network. -/
def limitChain : List CBlockIndex :=
  (List.range 50000).map fun i ↦ ⟨BitVec.ofNat 256 (i + 1), BitVec.ofNat 256 i, i, 0⟩

def limitMasternodes (n : ℕ) : MasternodeState :=
  ⟨(List.range n).foldl (fun R i ↦ R.bind (minedKey (UInt8.ofNat i)) ⟨7, UInt32.ofNat i⟩ 49990)
    Registry.empty, Delegations.empty, ∅⟩

def limitCoins : CoinLookup := fun o ↦ some ⟨false, false, ⟨4200 * coin,
  getScriptForDestination (.keyID ((minedKey (UInt8.ofNat o.n.toNat)).getID default))⟩, 100⟩

/-- The election on this chain, with `n` masternodes. -/
def limitState (n : ℕ) : ElectionState :=
  .onChain default mainPoolParams (by decide) (fun _ ↦ minedBlock 0 0) limitChain limitCoins
    (limitMasternodes n) fun _ ↦ 0

def limitTip : CBlockIndex := ⟨BitVec.ofNat 256 50000, BitVec.ofNat 256 49999, 49999, 0⟩

theorem getLast?_limitChain : limitChain.getLast? = some limitTip := by
  rw [limitChain, getLast?_map, getLast?_range, if_neg (by decide), Option.map_some]
  rfl

theorem length_limitChain : (limitChain.length : ℤ) = limitTip.nHeight + 1 := by
  rw [limitChain, length_map, length_range]
  rfl

theorem selectAdamNodes_limitState (n : ℕ) (seed : Uint256) :
    selectAdamNodes default (limitState n) seed (limitTip.nHeight + 1) =
      let pool := (startKeys default mainPoolParams limitCoins (limitMasternodes n) limitTip.nHeight).toList
      if (pool.length : ℤ) < 5 then none
      else some (electNodes default seed 11 5 pool
        ((activeMasternodes default limitCoins (limitMasternodes n) limitTip.nHeight).map Prod.fst)) := by
  have hpool : (limitState n).getAdamMinerPool limitTip.nHeight =
      (startKeys default mainPoolParams limitCoins (limitMasternodes n) limitTip.nHeight).toList := by
    rw [limitState, getAdamMinerPool_onChain _ length_limitChain]
    exact poolOn_of_unregistered getLast?_limitChain (fun _ ↦ by decide) (by decide)
  rw [selectAdamNodes_eq]
  simp only [add_sub_cancel_right, hpool]
  rfl

/-- Of eight masternodes one coordinates and seven are elected, which is just enough. -/
theorem threshold_attainable_eight : ∃ miners coordinator,
    selectAdamNodes default (limitState 8) 1 (limitTip.nHeight + 1) = some (miners, coordinator) ∧
      (default : ValidationEnv).consensus.getAdamThreshold (limitTip.nHeight + 1) ≤ miners.length := by
  have helected : ∃ r, selectAdamNodes default (limitState 8) 1 (limitTip.nHeight + 1) = some r := by
    rw [selectAdamNodes_limitState]
    exact ⟨_, if_neg (by decide +kernel)⟩
  obtain ⟨⟨miners, coordinator⟩, h⟩ := helected
  refine ⟨miners, coordinator, h, (threshold_attainable_iff (by decide) (by decide) (by decide) (by decide)
    (by decide) length_limitChain getLast?_limitChain h).2 fun _ ↦ ?_⟩
  rw [poolOn_of_unregistered getLast?_limitChain (fun _ ↦ by decide) (by decide)]
  decide +kernel

/-- **The block cannot be made**: of five masternodes five are elected, and the block needs seven. -/
theorem threshold_unattainable_five : ∃ miners coordinator,
    selectAdamNodes default (limitState 5) 1 (limitTip.nHeight + 1) = some (miners, coordinator) ∧
      miners.length = 5 ∧
      (default : ValidationEnv).consensus.getAdamThreshold (limitTip.nHeight + 1) = 7 := by
  have helected : selectAdamNodes default (limitState 5) 1 (limitTip.nHeight + 1) =
      some (electNodes default 1 11 5
        (startKeys default mainPoolParams limitCoins (limitMasternodes 5) limitTip.nHeight).toList
        ((activeMasternodes default limitCoins (limitMasternodes 5) limitTip.nHeight).map Prod.fst)) := by
    rw [selectAdamNodes_limitState]
    exact if_neg (by decide +kernel)
  exact ⟨_, _, helected, by decide +kernel, rfl⟩

end Threshold

/-- The call in the state `S`. -/
def SelectCall.on (call : SelectCall) (S : ElectionState) : SelectCall :=
  { call with
    view := S.view, masternodes := S.masternodes
    getAdamMinerPool := S.getAdamMinerPool, nodup_minerPool := S.nodup_minerPool }

end KristaTech.Adam
