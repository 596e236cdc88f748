import Mathlib.Data.List.Sort
import KristaTech.Adam.MinerPool
import KristaTech.Quorum.Certificate

/-!
# The elections

`SelectAdamNodes` of `adam.cpp` elects the miners of a block and their coordinator from the miner
pool, `ElectQuorumMembers` of `llmq.cpp` the quorum that signs it, from the masternodes or, if these
are few, from the pool as well. Both rank the candidates by a hash with the seed.

Only keys of the pool are elected as miners (`mem_minerPool_of_selectAdamNodes`), and a member of the
quorum is an authorised masternode or a key of the pool with a made-up collateral
(`mem_electQuorumMembers`). The last election is remembered under all that it depends on, so that cache
is left out.
-/

namespace KristaTech.Adam

open Masternode Llmq List

/-- What the elections on a parent read: the coins and the masternodes, the miner pool of each height,
whose keys are valid and different, and the seeds of the parent's ancestors (`GetAdamSeed`; null if
there is none of this height). -/
structure ElectionState where
  view : CoinLookup
  masternodes : MasternodeState
  getAdamMinerPool : ℤ → List CPubKey
  seedAt : ℤ → Uint256
  isValid_minerPool : ∀ nHeight, ∀ k ∈ getAdamMinerPool nHeight, k.isValid = true
  nodup_minerPool : ∀ nHeight, (getAdamMinerPool nHeight).Nodup

variable (E : ValidationEnv) (N : PoolParams) (S : ElectionState)

/-! ### The miners -/

def rankKeys (hashAdamSeed : Uint256) (keys : List CPubKey) : List CPubKey :=
  let rank (key : CPubKey) : Uint256 := E.crypto.hash (hashAdamSeed.toBytes ++ Writer.pubKey key)
  keys.insertionSort fun a b ↦ rank a ≤ rank b

/-- The masternodes that can be elected, as of a height: none on the regression-test network. -/
def electableMasternodes (nHeight : ℤ) : List (CPubKey × COutPoint) :=
  if E.consensus.isRegTestNet then [] else activeMasternodes E S.view S.masternodes nHeight

/-- `SelectAdamNodes` for the block of a positive height: the miners and the coordinator. -/
def selectAdamNodes (hashAdamSeed : Uint256) (nBlockHeight : ℤ) : Option (List CPubKey × CPubKey) :=
  let nHeight := nBlockHeight - 1
  let pool := S.getAdamMinerPool nHeight
  let minCount := if E.consensus.networkUpgradeActive nBlockHeight .UPGRADE_POMBL then
    E.consensus.nAdamMinersCount else 11
  let threshold := E.consensus.getAdamThreshold nHeight
  if (pool.length : ℤ) < threshold then none
  else
    let vMns := (electableMasternodes E S nHeight).map Prod.fst
    let rankedPool := rankKeys E hashAdamSeed pool
    if threshold < vMns.length then
      -- the best masternode coordinates and is no miner
      let coordinator := (rankKeys E hashAdamSeed vMns).headD default
      some ((rankedPool.filter (· != coordinator)).take minCount, coordinator)
    else
      -- the first key that is not elected coordinates
      some (rankedPool.take minCount, (rankedPool.drop minCount).headD (rankedPool.headD default))

/-! ### The quorum -/

/-- The height from which on the quorum changes with every block. -/
def rotationHeight : ℤ :=
  match N.networkID with
  | .MAIN => 1400
  | .TESTNET => 1000
  | .REGTEST => 800

def dkgInterval : ℤ := if N.networkID = .MAIN then 100 else 10

def enabledMasternodes (nHeight : ℤ) : List CQuorumMember :=
  let mns := (electableMasternodes E S (nHeight - 1)).map fun kv ↦ CQuorumMember.mk kv.2 kv.1
  mns.insertionSort fun a b ↦
    ((compare a.collateralOutpoint b.collateralOutpoint).then
      (compare a.pubKeyMasternode b.pubKeyMasternode)).isLE

/-- The keys of the pool, as members with a collateral that is made up of the key. -/
def poolMembers (nHeight : ℤ) : List CQuorumMember :=
  (S.getAdamMinerPool (nHeight - 1)).zipIdx.map fun p ↦
    ⟨⟨E.crypto.hash p.1.bytes, UInt32.ofNat p.2⟩, p.1⟩

/-- `ElectQuorumMembers`. -/
def electQuorumMembers (nHeight : ℤ) (nQuorumSize : ℕ) : List CQuorumMember :=
  let enabledMns := enabledMasternodes E S nHeight
  let candidates := if enabledMns.length < 5 then poolMembers E S nHeight else enabledMns
  let seedHeight := if rotationHeight N ≤ nHeight then
    nHeight / dkgInterval N * dkgInterval N - 1 else nHeight - 1
  let score (m : CQuorumMember) : Uint256 :=
    E.crypto.hash ((S.seedAt seedHeight).toBytes ++ Writer.outPoint m.collateralOutpoint)
  (candidates.insertionSort fun a b ↦ score a ≤ score b).take nQuorumSize

/-- `GetActiveQuorum`. An upgrade that never activates has the largest height. -/
def getActiveQuorum (nHeight : ℤ) : CQuorum :=
  let nDkgHeight :=
    if rotationHeight N ≤ nHeight then nHeight
    else max (nHeight / dkgInterval N * dkgInterval N)
      ((E.consensus.nActivationHeight .UPGRADE_POMBL).getD (2 ^ 31 - 1))
  ⟨electQuorumMembers E N S nDkgHeight 5⟩

/-! ### Who can be elected -/

section

variable {E N S} {seed : Uint256} {nHeight : ℤ} {k : CPubKey} {o : COutPoint} {view : CoinLookup}
  {M : MasternodeState}

theorem mem_activeMasternodes (h : (k, o) ∈ activeMasternodes E view M nHeight) :
    M.registry.mapMasternodeCollateralOutpoints[k]? = some o ∧
      isValidMasternodeCollateralAndAuth E.toPingChecks view M.delegations k o nHeight none = true := by
  have hstep (kvs mns : List (CPubKey × COutPoint)) (hmem : (k, o) ∈ kvs.foldl (fun mns kv ↦
        if kv.1.isValid && M.registry.isMasternodeActiveAtHeight kv.1 nHeight &&
            !mns.any (·.2 == kv.2) && isValidMasternodeCollateralAndAuth E.toPingChecks view
              M.delegations kv.1 kv.2 nHeight none
        then mns ++ [kv] else mns) mns) :
      (k, o) ∈ mns ∨ (k, o) ∈ kvs ∧
        isValidMasternodeCollateralAndAuth E.toPingChecks view M.delegations k o nHeight none = true := by
    induction kvs generalizing mns with
    | nil => exact Or.inl hmem
    | cons kv kvs ih =>
      rw [foldl_cons] at hmem
      rcases ih _ hmem with hmns | ⟨hkvs, hauth⟩
      · split_ifs at hmns with hcond
        · rcases mem_append.1 hmns with hmns | hmns
          · exact Or.inl hmns
          · obtain rfl := mem_singleton.1 hmns
            rw [Bool.and_eq_true] at hcond
            exact Or.inr ⟨mem_cons_self, hcond.2⟩
        · exact Or.inl hmns
      · exact Or.inr ⟨mem_cons_of_mem kv hkvs, hauth⟩
  rcases hstep _ [] h with hnil | ⟨hmem, hauth⟩
  · cases hnil
  · exact ⟨Std.ExtTreeMap.mem_toList_iff_getElem?_eq_some.1 hmem, hauth⟩

theorem pairwise_activeMasternodes : (activeMasternodes E view M nHeight).Pairwise fun a b ↦ a.2 ≠ b.2 := by
  refine foldl_invariant (motive := fun mns : List (CPubKey × COutPoint) ↦ mns.Pairwise fun a b ↦ a.2 ≠ b.2)
    List.Pairwise.nil fun kv _ mns hmns ↦ ?_
  split_ifs with hcond
  case neg => exact hmns
  refine pairwise_append.2 ⟨hmns, pairwise_singleton _ kv, fun a ha b hb ↦ ?_⟩
  rw [mem_singleton.1 hb]
  simp only [Bool.and_eq_true, Bool.not_eq_true', any_eq_false, beq_iff_eq] at hcond
  exact hcond.1.2 a ha

theorem nodup_activeMasternodes : ((activeMasternodes E view M nHeight).map Prod.fst).Nodup := by
  refine pairwise_map.2 (pairwise_activeMasternodes.imp_of_mem ?_)
  rintro ⟨k, o⟩ ⟨k', o'⟩ hmem hmem' hne rfl
  have houtpoint := (mem_activeMasternodes hmem).1.symm.trans (mem_activeMasternodes hmem').1
  exact hne (Option.some.inj houtpoint)

@[simp]
theorem mem_rankKeys {keys : List CPubKey} : k ∈ rankKeys E seed keys ↔ k ∈ keys :=
  (perm_insertionSort _ _).mem_iff

variable {keys : KeySet} {vMiners : List CPubKey} {coordinator : CPubKey} {r : LockRegistration}
  {entry : CachedBlockRegEntry} {B : Uint256 → CBlock} {ancestors : List CBlockIndex}

theorem mem_minerPool_of_selectAdamNodes
    (h : selectAdamNodes E S seed nHeight = some (vMiners, coordinator)) (hk : k ∈ vMiners) :
    k ∈ S.getAdamMinerPool (nHeight - 1) := by
  simp only [selectAdamNodes] at h
  split at h
  · cases h
  · split at h
    · obtain ⟨rfl, -⟩ := Prod.mk.inj (Option.some.inj h)
      exact mem_rankKeys.1 (mem_of_mem_filter (mem_of_mem_take hk))
    · obtain ⟨rfl, -⟩ := Prod.mk.inj (Option.some.inj h)
      exact mem_rankKeys.1 (mem_of_mem_take hk)

theorem mem_electQuorumMembers {m : CQuorumMember} {nQuorumSize : ℕ}
    (h : m ∈ electQuorumMembers E N S nHeight nQuorumSize) :
    (m.pubKeyMasternode, m.collateralOutpoint) ∈ activeMasternodes E S.view S.masternodes (nHeight - 1) ∨
      ∃ k ∈ S.getAdamMinerPool (nHeight - 1), ∃ n, m = ⟨⟨E.crypto.hash k.bytes, n⟩, k⟩ := by
  have hmem := (perm_insertionSort _ _).mem_iff.1 (mem_of_mem_take h)
  split at hmem
  · obtain ⟨p, hp, rfl⟩ := mem_map.1 hmem
    exact Or.inr ⟨p.1, (mem_zipIdx hp).2.2 ▸ getElem_mem _, _, rfl⟩
  · obtain ⟨kv, hkv, rfl⟩ := mem_map.1 ((perm_insertionSort _ _).mem_iff.1 hmem)
    rw [electableMasternodes] at hkv
    split_ifs at hkv
    · cases hkv
    · exact Or.inl hkv

theorem nodup_of_selectAdamNodes
    (h : selectAdamNodes E S seed nHeight = some (vMiners, coordinator)) : vMiners.Nodup := by
  have hranked : (rankKeys E seed (S.getAdamMinerPool (nHeight - 1))).Nodup :=
    (perm_insertionSort _ _).nodup_iff.2 (S.nodup_minerPool _)
  simp only [selectAdamNodes] at h
  split at h
  · cases h
  · split at h
    · obtain ⟨rfl, -⟩ := Prod.mk.inj (Option.some.inj h)
      exact (hranked.filter _).sublist (take_sublist _ _)
    · obtain ⟨rfl, -⟩ := Prod.mk.inj (Option.some.inj h)
      exact hranked.sublist (take_sublist _ _)

/-! ### The state of a chain -/

theorem isValid_of_readLockTail {vch : Bytes} {s rest : Bytes}
    (h : readLockTail vch s = some (r, rest)) : r.pubkey.isValid = true := by
  simp only [readLockTail, Reader.bind_eq_some_iff, Reader.guard_eq_some_iff] at h
  -- the instructions, up to the last check
  obtain ⟨vchLockTime, _, -, h⟩ := h
  iterate 10 obtain ⟨_, _, -, h⟩ := h
  obtain ⟨-, _, ⟨hvalid, -⟩, h⟩ := h
  cases hnum : CScriptNum.ofVch vchLockTime true with
  | none =>
    rw [hnum] at h
    cases h
  | some lockTime =>
    rw [hnum] at h
    obtain rfl := (Prod.mk.inj (Option.some.inj h)).1
    exact hvalid

theorem isValid_of_matchCoinLockRegistration {script : CScript}
    (h : matchCoinLockRegistration script = some r) : r.pubkey.isValid = true := by
  obtain ⟨-, -, h⟩ := Option.bind_eq_some_iff.1 h
  obtain ⟨rest, h⟩ := Reader.run'_eq_some_iff.1 h
  simp only [Reader.bind_eq_some_iff] at h
  obtain ⟨vchPubKey, _, -, -, _, -, -, _, -, h⟩ := h
  exact isValid_of_readLockTail h

theorem isValid_of_matchPoWLockRegistration {script : CScript} {r : Bytes × Uint256 × LockRegistration}
    (h : matchPoWLockRegistration script = some r) : r.2.2.pubkey.isValid = true := by
  obtain ⟨-, -, h⟩ := Option.bind_eq_some_iff.1 h
  obtain ⟨rest, h⟩ := Reader.run'_eq_some_iff.1 h
  simp only [Reader.bind_eq_some_iff] at h
  iterate 9 obtain ⟨_, _, -, h⟩ := h
  obtain ⟨lock, _, hlock, h⟩ := h
  obtain rfl := (Prod.mk.inj (Option.some.inj h)).1
  exact isValid_of_readLockTail hlock
theorem isValid_of_mem_blockRegistrations {block : CBlock}
    (h : entry ∈ blockRegistrations E N block) : entry.pubkey.isValid = true := by
  have htx (fZeroCoin : Bool) (tx : CTransaction) (h : entry ∈ txRegistrations E N fZeroCoin tx) :
      entry.pubkey.isValid = true := by
    obtain ⟨p, -, hentry⟩ := mem_filterMap.1 h
    simp only [registration] at hentry
    split at hentry
    · cases hentry
    · split at hentry
      · rename_i r hr
        split at hentry
        · obtain rfl := Option.some.inj hentry
          exact isValid_of_matchCoinLockRegistration hr
        · cases hentry
      · split at hentry
        · rename_i nonce challenge r hr
          split at hentry
          · obtain rfl := Option.some.inj hentry
            exact isValid_of_matchPoWLockRegistration hr
          · cases hentry
        · cases hentry
  have hfrom (n : ℕ) (vtx : List CTransaction) (h : entry ∈ registrationsFrom E N n vtx) :
      entry.pubkey.isValid = true := by
    induction vtx generalizing n with
    | nil => cases h
    | cons tx vtx ih =>
      rw [registrationsFrom] at h
      split_ifs at h
      · exact ih n h
      · exact (mem_append.1 h).elim (htx _ tx) (ih _)
      · exact (mem_append.1 h).elim (htx _ tx) (ih _)
  exact hfrom 0 block.vtx h

theorem isValid_of_bootstrapKey {block : CBlock} (h : bootstrapKey block = some k) : k.isValid = true := by
  simp only [bootstrapKey, Option.bind_eq_bind, Option.bind_eq_some_iff] at h
  obtain ⟨_, -, _, -, _, -, _, -, _, -, _, -, _, hvalid, hk⟩ := h
  obtain rfl := Option.some.inj hk
  by_contra hne
  rw [guard, if_neg hne] at hvalid
  cases hvalid

def AllValid (keys : KeySet) : Prop := ∀ k ∈ keys, k.isValid = true

theorem allValid_empty : AllValid ∅ := fun _ hk ↦ absurd hk Std.ExtTreeSet.not_mem_empty

theorem AllValid.insert (h : AllValid keys) (hk : k.isValid = true) : AllValid (keys.insert k) := by
  intro k' hk'
  rcases Std.ExtTreeSet.mem_insert.1 hk' with heq | hmem
  · rwa [← Std.LawfulEqOrd.compare_eq_iff_eq.1 heq]
  · exact h k' hmem

theorem AllValid.fillUpTo {maxSize : ℕ} {ks : List CPubKey} (h : AllValid keys)
    (hks : ∀ k ∈ ks, k.isValid = true) : AllValid (fillUpTo maxSize keys ks) := by
  induction ks generalizing keys with
  | nil => exact h
  | cons k ks ih =>
    rw [Adam.fillUpTo]
    split_ifs
    · exact h
    · exact ih (h.insert (hks k mem_cons_self)) fun k' hk' ↦ hks k' (mem_cons_of_mem k hk')

theorem AllValid.toList (h : AllValid keys) : ∀ k ∈ keys.toList, k.isValid = true :=
  fun k hk ↦ h k (Std.ExtTreeSet.mem_toList.1 hk)

theorem allValid_startKeys (hN : ∀ k ∈ N.deterministicPubKeys, k.isValid = true) :
    AllValid (startKeys E N view M nHeight) := by
  refine foldl_invariant (motive := AllValid) ?_ fun kv hkv keys h ↦ h.insert ?_
  · split_ifs
    · intro k hk
      exact hN k (by simpa using hk)
    · exact allValid_empty
  · have hauth := (mem_activeMasternodes hkv).2
    rw [isValidMasternodeCollateralAndAuth, Bool.and_eq_true, Bool.and_eq_true] at hauth
    exact hauth.1.1

theorem allValid_countRegistration {challengeValid : Uint256 → Bool} {nRegPeriod : ℤ}
    {pindex : CBlockIndex} {keys : KeySet × KeySet} (h : AllValid keys.1 ∧ AllValid keys.2)
    (hentry : entry.pubkey.isValid = true) :
    AllValid (countRegistration view challengeValid nRegPeriod pindex keys entry).1 ∧
      AllValid (countRegistration view challengeValid nRegPeriod pindex keys entry).2 := by
  rw [Adam.countRegistration]
  split_ifs
  · exact h
  · exact ⟨h.1.insert hentry, h.2⟩
  · exact h
  · exact h
  · exact h
  · exact ⟨h.1.insert hentry, h.2⟩
  · exact ⟨h.1, h.2.insert hentry⟩

theorem allValid_bootstrapKeys (B : Uint256 → CBlock) (blocks : List CBlockIndex) :
    AllValid (bootstrapKeys B blocks) := by
  refine foldl_invariant (motive := AllValid) allValid_empty fun p _ keys h ↦ ?_
  cases hkey : bootstrapKey (B p.hash) with
  | none => exact h
  | some k => exact h.insert (isValid_of_bootstrapKey hkey)

theorem isValid_of_mem_poolOn (hN : ∀ k ∈ N.deterministicPubKeys, k.isValid = true)
    (hk : k ∈ poolOn E N B ancestors view M) : k.isValid = true := by
  have hregistered (nRegPeriod : ℤ) (pindexes : List CBlockIndex) (keys : KeySet × KeySet)
      (h : AllValid keys.1 ∧ AllValid keys.2) :
      AllValid (registeredOn E N B ancestors view nRegPeriod pindexes keys).1 ∧
        AllValid (registeredOn E N B ancestors view nRegPeriod pindexes keys).2 :=
    foldl_invariant (motive := fun keys : KeySet × KeySet ↦ AllValid keys.1 ∧ AllValid keys.2) h
      fun pindex _ keys h ↦ foldl_invariant
        (motive := fun keys : KeySet × KeySet ↦ AllValid keys.1 ∧ AllValid keys.2) h
        fun entry hentry keys h ↦ allValid_countRegistration h (isValid_of_mem_blockRegistrations hentry)
  simp only [poolOn] at hk
  obtain ⟨hkeys, hzero⟩ := hregistered _ _ (_, ∅) ⟨allValid_startKeys hN, allValid_empty⟩
  split at hk
  · exact ((hkeys.fillUpTo hzero.toList).fillUpTo (allValid_bootstrapKeys B _).toList).toList k hk
  · exact (hkeys.fillUpTo hzero.toList).toList k hk

theorem nodup_poolOn : (poolOn E N B ancestors view M).Nodup := by
  have htoList (keys : KeySet) : keys.toList.Nodup :=
    Std.ExtTreeSet.distinct_toList.imp fun h heq ↦ h (Std.LawfulEqOrd.compare_eq_iff_eq.2 heq)
  simp only [poolOn]
  split
  · exact htoList _
  · exact htoList _

end

/-- The state of a chain, given its seeds: the pool of a height is that of the ancestor there, or of
the tip if there is none. -/
def ElectionState.onChain (hN : ∀ k ∈ N.deterministicPubKeys, k.isValid = true)
    (B : Uint256 → CBlock) (ancestors : List CBlockIndex) (view : CoinLookup) (M : MasternodeState)
    (seedAt : ℤ → Uint256) : ElectionState where
  view := view
  masternodes := M
  getAdamMinerPool nHeight :=
    let n := if 0 ≤ nHeight ∧ nHeight < ancestors.length then nHeight.toNat + 1 else ancestors.length
    poolOn E N B (ancestors.take n) view M
  seedAt := seedAt
  isValid_minerPool _ _ hk := isValid_of_mem_poolOn hN hk
  nodup_minerPool _ := nodup_poolOn

end KristaTech.Adam
