import KristaTech.Library.Ranking
import KristaTech.Adam.Election
import KristaTech.Validation.Connect

/-!
# The two checks of the developer fund

A spending of the developer fund needs a certificate of the quorum. `ConnectBlock` elects the quorum on
the block's parent with the view of the block, as the transactions before have left it; `CheckInputs`,
which it calls for the same transaction, elects it on the active chain with the coins of the tip.

With at least five masternodes in one of the two elections the quorums are the same exactly if each
masternode among the five best of one election can be elected in the other
(`treasury_checks_agree_iff`): a transaction that spends the collateral of one of them earlier in the
block changes the quorum of the first check and not of the second. With fewer masternodes the quorum
comes from the miner pool, which the second election takes from the cache that the first has filled.
-/

namespace KristaTech.Adam

open Masternode Llmq List

/-! ### The election with the caches -/

section Election

variable (E : ValidationEnv) (N : PoolParams)

def memberOrder : CQuorumMember → CQuorumMember → Ordering :=
  compareLex (compareOn (·.collateralOutpoint)) (compareOn (·.pubKeyMasternode))

/-- The masternodes that can be elected with the coins of a view, in the order of their collaterals. -/
def enabledMns (view : CoinLookup) (M : MasternodeState) (nHeight : ℤ) : List CQuorumMember :=
  let mns := if E.consensus.isRegTestNet then [] else activeMasternodes E view M (nHeight - 1)
  (mns.map fun kv ↦ CQuorumMember.mk kv.2 kv.1).insertionSort fun a b ↦ (memberOrder a b).isLE

/-- The keys of a pool, as members with a made-up collateral. -/
def pooledMembers (pool : List CPubKey) : List CQuorumMember :=
  pool.zipIdx.map fun p ↦ ⟨⟨E.crypto.hash p.1.bytes, UInt32.ofNat p.2⟩, p.1⟩

def memberScore (seed : Uint256) (m : CQuorumMember) : Uint256 :=
  E.crypto.hash (seed.toBytes ++ Writer.outPoint m.collateralOutpoint)

def ranked (seed : Uint256) (candidates : List CQuorumMember) : List CQuorumMember :=
  candidates.insertionSort fun a b ↦ memberScore E seed a ≤ memberScore E seed b

def bestFive (seed : Uint256) (candidates : List CQuorumMember) : List CQuorumMember :=
  (ranked E seed candidates).take 5

/-- The height for which the quorum of a block is elected. -/
def dkgHeight (nHeight : ℤ) : ℤ :=
  if rotationHeight N ≤ nHeight then nHeight
  else max (nHeight / dkgInterval N * dkgInterval N)
    ((E.consensus.nActivationHeight .UPGRADE_POMBL).getD (2 ^ 31 - 1))

def seedHeight (nHeight : ℤ) : ℤ :=
  if rotationHeight N ≤ nHeight then nHeight / dkgInterval N * dkgInterval N - 1 else nHeight - 1

/-- The globals that `GetActiveQuorum` reads. -/
structure QuorumGlobals extends ActiveChain where
  masternodes : MasternodeState
  nMasternodePingStateGen : ℕ
  pcoinsTip : CCoinsView
  getAdamSeed : CBlockIndex → Uint256

namespace QuorumGlobals

variable (G : QuorumGlobals)

/-- The call of `GetAdamMinerPool`. -/
def poolCall (nHeight : ℤ) (pView : Option CCoinsView) : PoolCall :=
  { G.toActiveChain with
    masternodes := G.masternodes
    nMasternodePingStateGen := G.nMasternodePingStateGen
    pcoinsTip := G.pcoinsTip
    nHeight := nHeight
    pView := pView }

/-- `pSeedIndex`: the ancestor of the given parent, or the block of the active chain. The parent is given
by its chain, genesis block first. -/
def seedIndex (pindexPrev : Option (List CBlockIndex)) (nHeight : ℤ) : Option CBlockIndex :=
  (pindexPrev.bind fun ancestors ↦ blockAt ancestors nHeight).or (blockAt G.chainActive nHeight)

def seedFor (pindexPrev : Option (List CBlockIndex)) (nHeight : ℤ) : Uint256 :=
  (G.seedIndex pindexPrev (seedHeight N nHeight)).elim 0 G.getAdamSeed

/-- `GetActiveQuorum`, and the caches of the miner pool after it. -/
def getActiveQuorum (c : PoolCaches) (nHeight : ℤ) (pindexPrev : Option (List CBlockIndex))
    (pView : Option CCoinsView) : CQuorum × PoolCaches :=
  let nDkgHeight := dkgHeight E N nHeight
  let seed := G.seedFor N pindexPrev nDkgHeight
  let mns := enabledMns E (pView.getD G.pcoinsTip).getCoin G.masternodes nDkgHeight
  if mns.length < 5 then
    let r := c.getAdamMinerPool E N (G.poolCall (nDkgHeight - 1) pView)
    (⟨bestFive E seed (pooledMembers E r.1)⟩, r.2)
  else (⟨bestFive E seed mns⟩, c)

end QuorumGlobals

end Election

/-! ### The ranking of the masternodes -/

section Ranking

variable {E : ValidationEnv} {N : PoolParams} {view : CoinLookup} {M : MasternodeState} {nHeight : ℤ}

def ListedBefore (a b : CQuorumMember) : Prop := memberOrder a b = .lt

instance : Std.TransCmp memberOrder :=
  inferInstanceAs (Std.TransCmp (compareLex (compareOn _) (compareOn _)))

instance : Std.Asymm ListedBefore where
  asymm _ _ hab hba := Std.OrientedCmp.not_lt_of_lt hab hba

instance : Std.Total fun a b : CQuorumMember ↦ (memberOrder a b).isLE = true where
  total a b := by
    have hswap : memberOrder b a = (memberOrder a b).swap := Std.OrientedCmp.eq_swap
    rw [hswap]
    cases memberOrder a b <;> decide

instance : IsTrans CQuorumMember fun a b ↦ (memberOrder a b).isLE = true where
  trans _ _ _ := Std.TransCmp.isLE_trans

theorem pairwise_enabledMns : (enabledMns E view M nHeight).Pairwise ListedBefore := by
  have hdistinct : (enabledMns E view M nHeight).Pairwise
      fun a b ↦ a.collateralOutpoint ≠ b.collateralOutpoint := by
    refine (perm_insertionSort _ _).symm.pairwise ?_ fun h ↦ h.symm
    rw [pairwise_map]
    split_ifs
    · exact List.Pairwise.nil
    · exact pairwise_activeMasternodes
  have hsorted : (enabledMns E view M nHeight).Pairwise fun a b ↦ (memberOrder a b).isLE = true :=
    pairwise_insertionSort _ _
  refine (hsorted.and hdistinct).imp fun {a b} h ↦ ?_
  cases horder : memberOrder a b with
  | lt => exact horder
  | gt => exact absurd h.1 (by rw [horder]; decide)
  | eq =>
    have houtpoint : compare a.collateralOutpoint b.collateralOutpoint = .eq :=
      (Ordering.then_eq_eq.1 horder).1
    exact absurd (Std.LawfulEqOrd.eq_of_compare houtpoint) h.2

theorem pairwise_ranked_enabledMns (seed : Uint256) : (ranked E seed (enabledMns E view M nHeight)).Pairwise
      (List.ScoreLex (fun m ↦ (memberScore E seed m).toNat) ListedBefore) :=
  pairwise_insertionSort_lex pairwise_enabledMns _

theorem mem_ranked {seed : Uint256} {candidates : List CQuorumMember} {m : CQuorumMember} :
    m ∈ ranked E seed candidates ↔ m ∈ candidates :=
  mem_insertionSort _

/-- **Two elections among masternodes** elect the same exactly if each could have elected those whom
the other has elected. -/
theorem bestFive_enabledMns_eq_iff {view' : CoinLookup} (seed : Uint256) :
    bestFive E seed (enabledMns E view M nHeight) = bestFive E seed (enabledMns E view' M nHeight) ↔
      (∀ m ∈ bestFive E seed (enabledMns E view M nHeight), m ∈ enabledMns E view' M nHeight) ∧
      ∀ m ∈ bestFive E seed (enabledMns E view' M nHeight), m ∈ enabledMns E view M nHeight := by
  rw [bestFive, bestFive, take_eq_take_iff_subset (pairwise_ranked_enabledMns seed)
    (pairwise_ranked_enabledMns seed)]
  simp only [subset_def, mem_ranked]

end Ranking

/-! ### The pool of the second election -/

namespace PoolCaches

variable {E : ValidationEnv} {N : PoolParams} {c : PoolCaches} {call call' : PoolCall}

theorem computePool_kept (c : PoolCaches) (call : PoolCall) :
    (c.computePool E N call).2.mapMinerPoolCache = c.mapMinerPoolCache ∧
      (c.computePool E N call).2.cachedPoolStateGen = c.cachedPoolStateGen := by
  simp only [computePool]
  split_ifs
  · simp only [bootstrap]
    split_ifs <;> exact ⟨rfl, rfl⟩
  · exact ⟨rfl, rfl⟩

theorem refresh_kept (hgen : c.cachedPoolStateGen = call.nMasternodePingStateGen)
    (hroom : c.mapMinerPoolCache.size ≤ 500) :
    (c.refresh call).mapMinerPoolCache = c.mapMinerPoolCache := by
  simp only [refresh, hgen, ne_eq, not_true_eq_false, if_false, not_lt.2 hroom]
  split_ifs <;> rfl

theorem getAdamMinerPool_eq {p : CBlockIndex} (hp : call.pindexTip = some p)
    (huse : call.fUsePoolCache = true) :
    c.getAdamMinerPool E N call =
      match (c.refresh call).mapMinerPoolCache[p.hash]? with
      | some pool => (pool, c.refresh call)
      | none =>
        let r := (c.refresh call).computePool E N call
        if E.consensus.getAdamThreshold p.nHeight ≤ r.1.length then
          (r.1, { r.2 with mapMinerPoolCache := r.2.mapMinerPoolCache.insert p.hash r.1 })
        else r := by
  rw [getAdamMinerPool]
  cases hfound : (c.refresh call).mapMinerPoolCache[p.hash]? with
  | some pool => simp [hp, huse, Option.filter_some, hfound]
  | none => simp [hp, huse, Option.filter_some, hfound]

theorem getAdamMinerPool_again {p : CBlockIndex} (hp : call.pindexTip = some p)
    (hp' : call'.pindexTip = some p) (huse : call.fUsePoolCache = true)
    (huse' : call'.fUsePoolCache = true)
    (hgen : call'.nMasternodePingStateGen = call.nMasternodePingStateGen)
    (hroom : (c.refresh call).mapMinerPoolCache.size < 500)
    (hlarge : E.consensus.getAdamThreshold p.nHeight ≤ (c.getAdamMinerPool E N call).1.length) :
    ((c.getAdamMinerPool E N call).2.getAdamMinerPool E N call').1 = (c.getAdamMinerPool E N call).1 := by
  -- the first call leaves its pool in the cache
  obtain ⟨hentry, hgen₁, hroom₁⟩ : (c.getAdamMinerPool E N call).2.mapMinerPoolCache[p.hash]? =
          some (c.getAdamMinerPool E N call).1 ∧
        (c.getAdamMinerPool E N call).2.cachedPoolStateGen = call.nMasternodePingStateGen ∧
        (c.getAdamMinerPool E N call).2.mapMinerPoolCache.size ≤ 500 := by
    have hfirst := getAdamMinerPool_eq (c := c) (E := E) (N := N) hp huse
    cases hpool : (c.refresh call).mapMinerPoolCache[p.hash]? with
    | some pool =>
      rw [hpool] at hfirst
      rw [hfirst]
      exact ⟨hpool, cachedPoolStateGen_refresh call, hroom.le⟩
    | none =>
      simp only [hpool] at hfirst
      obtain ⟨hpools, hgen₂⟩ := (c.refresh call).computePool_kept (E := E) (N := N) call
      have hstored : E.consensus.getAdamThreshold p.nHeight ≤
          ((c.refresh call).computePool E N call).1.length := by
        rw [hfirst] at hlarge
        split_ifs at hlarge with h
        · exact h
        · exact hlarge
      rw [if_pos hstored] at hfirst
      rw [hfirst]
      refine ⟨Std.ExtTreeMap.getElem?_insert_self, hgen₂.trans (cachedPoolStateGen_refresh call), ?_⟩
      show (Std.ExtTreeMap.insert _ _ _).size ≤ 500
      rw [hpools]
      exact Std.ExtTreeMap.size_insert_le.trans hroom
  rw [getAdamMinerPool_eq hp' huse', refresh_kept (hgen₁.trans hgen.symm) hroom₁, hentry]

end PoolCaches

/-! ### The two checks -/

/-- A block that is being connected on a parent, when one of its transactions is checked: the view is
still at the parent, as `ConnectBlock` asserts, with the coins as the transactions before have left
them. -/
structure TreasuryInput where
  ctx : ChainContext
  view : CCoinsViewCache
  /-- The chain of the parent, genesis block first. -/
  ancestors : List CBlockIndex
  pprev : CBlockIndex
  getLast?_ancestors : ancestors.getLast? = some pprev
  bestBlock : ctx.mapBlockIndex view.getBestBlock = some pprev

namespace TreasuryInput

variable (B : TreasuryInput)

def nHeight : ℤ := B.pprev.nHeight + 1

def pView : CCoinsView := ⟨B.view.getCoin, B.view.getBestBlock⟩

theorem getSpendHeight_eq : getSpendHeight B.ctx B.view = B.nHeight := by
  rw [getSpendHeight, B.bestBlock, nHeight]

variable (E : ValidationEnv) (N : PoolParams) (G : QuorumGlobals) (c : PoolCaches)

/-- The election of `ConnectBlock`. -/
def connectElection : CQuorum × PoolCaches :=
  G.getActiveQuorum E N c B.nHeight (some B.ancestors) (some B.pView)

/-- The election of `CheckInputs`, after that of `ConnectBlock`. -/
def inputsElection : CQuorum × PoolCaches :=
  G.getActiveQuorum E N (B.connectElection E N G c).2 (getSpendHeight B.ctx B.view) none none

/-- Both checks elect the same quorum and say the same of an input. -/
def CheckedAlike (tx : CTransaction) (txin : CTxIn) (scriptPubKey : CScript) : Prop :=
  (B.connectElection E N G c).1 = (B.inputsElection E N G c).1 ∧
    checkDeveloperFundSpend E G.masternodes (B.connectElection E N G c).1 B.nHeight B.view tx txin
        scriptPubKey =
      checkDeveloperFundSpend E G.masternodes (B.inputsElection E N G c).1
        (getSpendHeight B.ctx B.view) B.view tx txin scriptPubKey

/-- The masternodes that can be elected with the coins of a view. -/
def electable (view : CoinLookup) : List CQuorumMember :=
  enabledMns E view G.masternodes (dkgHeight E N B.nHeight)

end TreasuryInput

section TwoChecks

variable {E : ValidationEnv} {N : PoolParams} {G : QuorumGlobals} {c : PoolCaches}
  {B : TreasuryInput} {tx : CTransaction} {txin : CTxIn} {scriptPubKey : CScript}

theorem QuorumGlobals.seedFor_eq {ancestors : List CBlockIndex} (h : ancestors <+: G.chainActive)
    (nHeight : ℤ) : G.seedFor N (some ancestors) nHeight = G.seedFor N none nHeight := by
  obtain ⟨rest, hrest⟩ := h
  have hindex : G.seedIndex (some ancestors) (seedHeight N nHeight) =
      G.seedIndex none (seedHeight N nHeight) := by
    simp only [seedIndex, Option.bind_some, Option.bind_none, Option.none_or, ← hrest, blockAt]
    split_ifs
    · cases hget : ancestors[(seedHeight N nHeight).toNat]? with
      | none => exact Option.none_or
      | some p =>
        obtain ⟨hlt, -⟩ := List.getElem?_eq_some_iff.1 hget
        rw [getElem?_append_left hlt, hget]
        rfl
    · rfl
  rw [seedFor, seedFor, hindex]

theorem checkedAlike_iff : B.CheckedAlike E N G c tx txin scriptPubKey ↔
    (B.connectElection E N G c).1 = (B.inputsElection E N G c).1 := by
  refine ⟨And.left, fun h ↦ ⟨h, ?_⟩⟩
  rw [h, B.getSpendHeight_eq]

variable {pool : List CPubKey} {M : MasternodeState}

theorem mem_pooledMembers {m : CQuorumMember} (h : m ∈ pooledMembers E pool) :
    ∃ k : CPubKey, m.collateralOutpoint.hash = E.crypto.hash k.bytes := by
  obtain ⟨p, -, rfl⟩ := mem_map.1 h
  exact ⟨p.1, rfl⟩

theorem not_bestFive_subset {view view' : CoinLookup} {nHeight : ℤ} {seed : Uint256}
    (hfive : 5 ≤ (enabledMns E view M nHeight).length)
    (hfew : (enabledMns E view' M nHeight).length < 5) :
    ¬∀ m ∈ bestFive E seed (enabledMns E view M nHeight), m ∈ enabledMns E view' M nHeight := by
  intro hsub
  have hnodup : (bestFive E seed (enabledMns E view M nHeight)).Nodup := by
    refine List.Nodup.sublist (take_sublist _ _) ?_
    refine (perm_insertionSort _ _).nodup_iff.2 (pairwise_enabledMns.imp fun {a b} h heq ↦ ?_)
    exact Std.Asymm.asymm _ _ h (heq ▸ h)
  have hle := (hnodup.subperm hsub).length_le
  have hlength : (bestFive E seed (enabledMns E view M nHeight)).length = 5 := by
    rw [bestFive, length_take, ranked, length_insertionSort]
    omega
  omega

theorem bestFive_ne_pooled {view : CoinLookup} {nHeight : ℤ} {seed seed' : Uint256}
    (hfive : 5 ≤ (enabledMns E view M nHeight).length)
    (hreal : ∀ m ∈ enabledMns E view M nHeight, ∀ k : CPubKey,
      m.collateralOutpoint.hash ≠ E.crypto.hash k.bytes) :
    bestFive E seed (enabledMns E view M nHeight) ≠ bestFive E seed' (pooledMembers E pool) := by
  intro heq
  obtain ⟨m, hm⟩ : ∃ m, m ∈ bestFive E seed (enabledMns E view M nHeight) := by
    refine exists_mem_of_length_pos ?_
    rw [bestFive, length_take, ranked, length_insertionSort]
    omega
  obtain ⟨k, hk⟩ := mem_pooledMembers (mem_ranked.1 (mem_of_mem_take (heq ▸ hm)))
  exact hreal m (mem_ranked.1 (mem_of_mem_take hm)) k hk

theorem connectElection_eq (hchain : B.ancestors <+: G.chainActive) : B.connectElection E N G c =
      let seed := G.seedFor N none (dkgHeight E N B.nHeight)
      if (B.electable E N G B.view.getCoin).length < 5 then
        let r := c.getAdamMinerPool E N (G.poolCall (dkgHeight E N B.nHeight - 1) (some B.pView))
        (⟨bestFive E seed (pooledMembers E r.1)⟩, r.2)
      else (⟨bestFive E seed (B.electable E N G B.view.getCoin)⟩, c) := by
  rw [TreasuryInput.connectElection, QuorumGlobals.getActiveQuorum, G.seedFor_eq hchain]
  rfl

theorem inputsElection_eq : B.inputsElection E N G c =
      let c := (B.connectElection E N G c).2
      let seed := G.seedFor N none (dkgHeight E N B.nHeight)
      if (B.electable E N G G.pcoinsTip.getCoin).length < 5 then
        let r := c.getAdamMinerPool E N (G.poolCall (dkgHeight E N B.nHeight - 1) none)
        (⟨bestFive E seed (pooledMembers E r.1)⟩, r.2)
      else (⟨bestFive E seed (B.electable E N G G.pcoinsTip.getCoin)⟩, c) := by
  rw [TreasuryInput.inputsElection, QuorumGlobals.getActiveQuorum, B.getSpendHeight_eq]
  rfl

theorem checkedAlike_of_pooled (hchain : B.ancestors <+: G.chainActive)
    (hfew₁ : (B.electable E N G B.view.getCoin).length < 5)
    (hfew₂ : (B.electable E N G G.pcoinsTip.getCoin).length < 5)
    (htip : B.view.getBestBlock = G.pcoinsTip.hashBlock)
    (hroom : (c.refresh (G.poolCall (dkgHeight E N B.nHeight - 1)
      (some B.pView))).mapMinerPoolCache.size < 500)
    (hlarge : ∀ p ∈ (G.poolCall (dkgHeight E N B.nHeight - 1) none).pindexTip,
      E.consensus.getAdamThreshold p.nHeight ≤ (c.getAdamMinerPool E N
        (G.poolCall (dkgHeight E N B.nHeight - 1) (some B.pView))).1.length) :
    B.CheckedAlike E N G c tx txin scriptPubKey := by
  rw [checkedAlike_iff, inputsElection_eq, connectElection_eq hchain]
  simp only [hfew₁, hfew₂, if_true]
  obtain ⟨p, -, hp, -⟩ := (G.poolCall (dkgHeight E N B.nHeight - 1) none).exists_pindexTip
  have huse : (G.poolCall (dkgHeight E N B.nHeight - 1) (some B.pView)).fUsePoolCache = true :=
    beq_iff_eq.2 htip
  have hpool : ((c.getAdamMinerPool E N (G.poolCall (dkgHeight E N B.nHeight - 1)
        (some B.pView))).2.getAdamMinerPool E N (G.poolCall (dkgHeight E N B.nHeight - 1) none)).1 =
      (c.getAdamMinerPool E N (G.poolCall (dkgHeight E N B.nHeight - 1) (some B.pView))).1 :=
    PoolCaches.getAdamMinerPool_again hp hp huse rfl rfl hroom (hlarge p hp)
  rw [hpool]

/-- **The two checks of the developer fund.** If one of the two elections has five masternodes, the checks
agree exactly if each masternode among the five best of one election has its collateral in the coins
of the other. If neither has, they agree as long as the miner pool is large enough to be kept. -/
theorem treasury_checks_agree_iff (E : ValidationEnv) (N : PoolParams) (G : QuorumGlobals)
    (c : PoolCaches) (B : TreasuryInput) (hchain : B.ancestors <+: G.chainActive)
    (tx : CTransaction) (txin : CTxIn) (scriptPubKey : CScript) :
    let mns₁ := B.electable E N G B.view.getCoin
    let mns₂ := B.electable E N G G.pcoinsTip.getCoin
    let seed := G.seedFor N none (dkgHeight E N B.nHeight)
    let call := G.poolCall (dkgHeight E N B.nHeight - 1) (some B.pView)
    ((5 ≤ mns₁.length ∨ 5 ≤ mns₂.length) →
      (∀ m ∈ mns₁ ++ mns₂, ∀ k : CPubKey, m.collateralOutpoint.hash ≠ E.crypto.hash k.bytes) →
      (B.CheckedAlike E N G c tx txin scriptPubKey ↔
        (∀ m ∈ bestFive E seed mns₁, m ∈ mns₂) ∧ ∀ m ∈ bestFive E seed mns₂, m ∈ mns₁)) ∧
    (mns₁.length < 5 → mns₂.length < 5 → B.view.getBestBlock = G.pcoinsTip.hashBlock →
      (c.refresh call).mapMinerPoolCache.size < 500 →
      (∀ p ∈ call.pindexTip,
        E.consensus.getAdamThreshold p.nHeight ≤ (c.getAdamMinerPool E N call).1.length) →
      B.CheckedAlike E N G c tx txin scriptPubKey) := by
  intro mns₁ mns₂ seed call
  refine ⟨fun hfive hreal ↦ ?_, fun hfew₁ hfew₂ htip hroom hlarge ↦
    checkedAlike_of_pooled hchain hfew₁ hfew₂ htip hroom hlarge⟩
  have hreal₁ : ∀ m ∈ mns₁, ∀ k : CPubKey, m.collateralOutpoint.hash ≠ E.crypto.hash k.bytes :=
    fun m hm ↦ hreal m (mem_append_left _ hm)
  have hreal₂ : ∀ m ∈ mns₂, ∀ k : CPubKey, m.collateralOutpoint.hash ≠ E.crypto.hash k.bytes :=
    fun m hm ↦ hreal m (mem_append_right _ hm)
  rw [checkedAlike_iff, inputsElection_eq, connectElection_eq hchain]
  by_cases hfew₁ : mns₁.length < 5
  · -- the first quorum is of the pool, the second of masternodes
    have hfive₂ : 5 ≤ mns₂.length := hfive.resolve_left (not_le.2 hfew₁)
    simp only [show (B.electable E N G B.view.getCoin).length < 5 from hfew₁,
      show ¬(B.electable E N G G.pcoinsTip.getCoin).length < 5 from not_lt.2 hfive₂, if_true, if_false,
      CQuorum.mk.injEq]
    refine iff_of_false (fun heq ↦ bestFive_ne_pooled hfive₂ hreal₂ heq.symm) fun hboth ↦ ?_
    exact not_bestFive_subset hfive₂ hfew₁ hboth.2
  · by_cases hfew₂ : mns₂.length < 5
    · simp only [show ¬(B.electable E N G B.view.getCoin).length < 5 from hfew₁,
        show (B.electable E N G G.pcoinsTip.getCoin).length < 5 from hfew₂, if_true, if_false,
        CQuorum.mk.injEq]
      refine iff_of_false (fun heq ↦ bestFive_ne_pooled (not_lt.1 hfew₁) hreal₁ heq) fun hboth ↦ ?_
      exact not_bestFive_subset (not_lt.1 hfew₁) hfew₂ hboth.1
    · simp only [show ¬(B.electable E N G B.view.getCoin).length < 5 from hfew₁,
        show ¬(B.electable E N G G.pcoinsTip.getCoin).length < 5 from hfew₂, if_false, CQuorum.mk.injEq]
      exact bestFive_enabledMns_eq_iff seed

end TwoChecks

/-! ### A collateral that is spent in the block -/

section Example

/-- Masternode `i` of six. -/
def treasuryKey (i : ℕ) : CPubKey := CPubKey.set (2 :: List.replicate 31 9 ++ [UInt8.ofNat i])

def treasuryCollateral (i : ℕ) : COutPoint := ⟨BitVec.ofNat 256 (2 ^ 200 + i), 0⟩

def treasuryMasternodes : MasternodeState :=
  ⟨(List.range 6).foldl (fun R i ↦ R.bind (treasuryKey i) (treasuryCollateral i) 2890) Registry.empty,
    Delegations.empty, ∅⟩

def treasuryOutpoint : COutPoint := ⟨5, 0⟩

def treasuryCoins : CoinLookup := fun o ↦
  if o = treasuryOutpoint then
    some ⟨false, false, ⟨100 * coin, getScriptForDestination (.keyID 1)⟩, 100⟩
  else ((List.range 6).find? fun i ↦ treasuryCollateral i = o).map fun i ↦
    ⟨false, false, ⟨4200 * coin, getScriptForDestination (.keyID ((treasuryKey i).getID default))⟩, 100⟩

def treasuryIndex (i : ℕ) : CBlockIndex := ⟨BitVec.ofNat 256 (i + 1), BitVec.ofNat 256 i, i, 0⟩

def treasuryGlobals : QuorumGlobals where
  chainActive := (List.range 2900).map treasuryIndex
  mapBlockIndex hash :=
    if 0 < hash.toNat ∧ hash.toNat ≤ 2900 then some (treasuryIndex (hash.toNat - 1)) else none
  files _ := none
  ne_nil := by simp
  nHeight_eq i hi := by simp [treasuryIndex]
  indexed p hp := by
    obtain ⟨i, hi, rfl⟩ := mem_map.1 hp
    have hlt := mem_range.1 hi
    have hnat : (BitVec.ofNat 256 (i + 1)).toNat = i + 1 := by
      rw [BitVec.toNat_ofNat]
      omega
    simp only [treasuryIndex, hnat]
    rw [if_pos (by omega)]
    rfl
  masternodes := treasuryMasternodes
  nMasternodePingStateGen := 1
  pcoinsTip := ⟨treasuryCoins, (treasuryIndex 2899).hash⟩
  getAdamSeed _ := 0

def treasuryContext : ChainContext where
  mapBlockIndex := treasuryGlobals.mapBlockIndex
  tip := some (treasuryIndex 2899)
  contains hash := (treasuryGlobals.mapBlockIndex hash).isSome
  isInitialBlockDownload := false
  fReindex := false
  fVerifyingBlocks := false
  fMasternodePingStateInitialized := true

def QuorumGlobals.nextBlock (G : QuorumGlobals) (ctx : ChainContext) (view : CCoinsViewCache)
    (pprev : CBlockIndex) (htip : G.chainActive.getLast? = some pprev)
    (hbest : ctx.mapBlockIndex view.getBestBlock = some pprev) : TreasuryInput :=
  ⟨ctx, view, G.chainActive, pprev, htip, hbest⟩

theorem QuorumGlobals.ancestors_nextBlock (G : QuorumGlobals) {ctx : ChainContext}
    {view : CCoinsViewCache} {pprev : CBlockIndex} {htip : G.chainActive.getLast? = some pprev}
    {hbest : ctx.mapBlockIndex view.getBestBlock = some pprev} :
    (G.nextBlock ctx view pprev htip hbest).ancestors <+: G.chainActive :=
  prefix_refl _

theorem getLast?_treasuryGlobals : treasuryGlobals.chainActive.getLast? = some (treasuryIndex 2899) := by
  rw [treasuryGlobals, getLast?_map, getLast?_range, if_neg (by decide), Option.map_some]

def untouchedView : CCoinsViewCache := .ofBase treasuryGlobals.pcoinsTip

def untouchedBlock : TreasuryInput :=
  treasuryGlobals.nextBlock treasuryContext untouchedView (treasuryIndex 2899)
    getLast?_treasuryGlobals (by decide)

def collateralTx : CTransaction where
  nVersion := 1
  vin := [⟨treasuryCollateral 4, [], sequenceFinal⟩]
  vout := [⟨4199 * coin, getScriptForDestination (.keyID 2)⟩]
  nLockTime := 0

def spentCollateralView : CCoinsViewCache :=
  (updateCoins default collateralTx untouchedView 2900).elim untouchedView Prod.snd

def treasuryCertificate : Bytes :=
  (0 : Uint256).toBytes ++ 3 :: [2, 3, 5].flatMap fun i ↦
    Writer.outPoint (treasuryCollateral i) ++ Writer.byteVector (List.replicate 144 1 ++ [1, 1])

/-- A spending of the developer fund with the certificate. -/
def treasuryTx : CTransaction where
  nVersion := 1
  vin := [⟨treasuryOutpoint, CScript.pushData (CScript.pushData (CScript.pushData [] [1]) [2])
    treasuryCertificate, sequenceFinal⟩]
  vout := [⟨99 * coin, getScriptForDestination (.keyID 2)⟩]
  nLockTime := 0

/-- The default environment with the elections of the chain. -/
def treasuryEnv : ValidationEnv :=
  { (default : ValidationEnv) with
    getActiveQuorum := fun pView M nHeight pindexPrev ↦
      ({ treasuryGlobals with masternodes := M }.getActiveQuorum default mainPoolParams {} nHeight
        (pindexPrev.map fun _ ↦ treasuryGlobals.chainActive)
        (pView.map fun getCoin ↦ ⟨getCoin, treasuryGlobals.pcoinsTip.hashBlock⟩)).1 }

def treasuryConnect : ConnectInput :=
  ⟨treasuryContext, treasuryMasternodes, treasuryIndex 2900, false⟩

theorem hash_default_lt (bs : Bytes) : ((default : Crypto).hash bs).toNat < 2 ^ 128 := by
  have hpoly : bs.foldl (fun h b ↦ (257 * h + b.toNat + 1) % 2 ^ 128) 0 < 2 ^ 128 :=
    foldl_invariant (motive := fun h : ℕ ↦ h < 2 ^ 128) (by decide) fun b _ h _ ↦
      Nat.mod_lt _ (by decide)
  show (BitVec.ofNat 256 _).toNat < 2 ^ 128
  rw [BitVec.toNat_ofNat]
  exact (Nat.mod_le _ _).trans_lt hpoly

/-- Where no collateral is spent before, the checks agree. -/
theorem treasury_checks_agree_untouched :
    5 ≤ (untouchedBlock.electable default mainPoolParams treasuryGlobals treasuryCoins).length ∧
      untouchedBlock.CheckedAlike default mainPoolParams treasuryGlobals {} treasuryTx
        ⟨treasuryOutpoint, [], sequenceFinal⟩ [] := by
  have hfive : 5 ≤ (untouchedBlock.electable default mainPoolParams treasuryGlobals
      treasuryCoins).length := by decide +kernel
  have hlarge : ∀ m ∈ untouchedBlock.electable default mainPoolParams treasuryGlobals treasuryCoins,
      2 ^ 128 ≤ m.collateralOutpoint.hash.toNat := by decide +kernel
  refine ⟨hfive, ((treasury_checks_agree_iff default mainPoolParams treasuryGlobals {} untouchedBlock
    treasuryGlobals.ancestors_nextBlock _ _ _).1 (Or.inl hfive) fun m hm k heq ↦ ?_).2 ⟨?_, ?_⟩⟩
  · rcases mem_append.1 hm with hm | hm
    all_goals exact absurd (heq ▸ hlarge m hm) (not_le.2 (hash_default_lt k.bytes))
  · exact fun m hm ↦ mem_ranked.1 (mem_of_mem_take hm)
  · exact fun m hm ↦ mem_ranked.1 (mem_of_mem_take hm)

/-- **A certified spending is rejected.** The first transaction spends the collateral of an elected
masternode, another moves up and signs. The check of `ConnectBlock` accepts the certificate, that of
`CheckInputs` does not know the new member. -/
theorem certified_spending_rejected :
    (treasuryConnect.checkSpentCoins treasuryEnv spentCollateralView treasuryTx).failure? = none ∧
      (checkInputs treasuryEnv treasuryContext treasuryMasternodes spentCollateralView treasuryTx true
        (treasuryConnect.flags treasuryEnv) false).failure? =
        some (.invalid 100 "bad-txns-invalid-quorum-sig" false) := by
  decide +kernel

end Example

end KristaTech.Adam
