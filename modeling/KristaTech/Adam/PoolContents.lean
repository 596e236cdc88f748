import Mathlib.Data.Set.Card
import KristaTech.Adam.Election

/-!
# Who is in the miner pool

The keys of the pool that are paid for: those of the active masternodes, and those of the registrations
that lock coins (`Funded`). All of them are in the pool. Keys that cost nothing, of registrations without
a coin and of the first miners, fill the pool up to two more than the miners of a block, so with that
many funded keys there are no others in it (`minerPool_funded`).
-/

namespace KristaTech.Adam

open Masternode List

variable (E : ValidationEnv) (N : PoolParams) (B : Uint256 → CBlock) (ancestors : List CBlockIndex)
  (view : CoinLookup) (M : MasternodeState)

/-! ### Funded keys -/

/-- A registration that locks coins and counts at the end of a chain: a coin lock, or work on a recent
block of the chain together with some coins. -/
structure Registered (nTipHeight : ℤ) (k : CPubKey) (pindex : CBlockIndex)
    (entry : CachedBlockRegEntry) : Prop where
  mem_ancestors : pindex ∈ ancestors
  nHeight_pos : 0 < pindex.nHeight
  nHeight_le : pindex.nHeight ≤ nTipHeight
  /-- It is not older than the registration period. -/
  recent : nTipHeight - pindex.nHeight < regPeriod E N nTipHeight
  mem_block : entry ∈ blockRegistrations E N (B pindex.hash)
  pubkey_eq : entry.pubkey = k
  locked : pindex.nHeight + regPeriod E N nTipHeight ≤ entry.lockTime
  unspent : haveCoin view entry.outpoint = true
  kind : entry.isCoinLock = true ∨
    entry.isCoinLock = false ∧ challengeOn ancestors pindex entry.challenge = true ∧ 10000 ≤ entry.nValue

/-- A key that coins stand for: of an active masternode, or of a registration. -/
def Funded (nTipHeight : ℤ) (k : CPubKey) : Prop :=
  (∃ o, (k, o) ∈ activeMasternodes E view M nTipHeight) ∨
    ∃ pindex entry, Registered E N B ancestors view nTipHeight k pindex entry

/-! ### Sets of keys -/

section Sets

variable {keys : KeySet} {k k' : CPubKey} {maxSize : ℕ} {ks : List CPubKey}

theorem mem_keySet_insert : k' ∈ keys.insert k ↔ k' = k ∨ k' ∈ keys := by
  rw [Std.ExtTreeSet.mem_insert, Std.LawfulEqOrd.compare_eq_iff_eq, eq_comm]

theorem mem_fillUpTo_of_mem (h : k ∈ keys) : k ∈ fillUpTo maxSize keys ks := by
  induction ks generalizing keys with
  | nil => exact h
  | cons k' ks ih =>
    rw [fillUpTo]
    split_ifs
    · exact h
    · exact ih (mem_keySet_insert.2 (Or.inr h))

theorem size_fillUpTo_le : (fillUpTo maxSize keys ks).size ≤ max keys.size maxSize := by
  induction ks generalizing keys with
  | nil => exact le_max_left _ _
  | cons k ks ih =>
    rw [fillUpTo]
    split_ifs with hfull
    · exact le_max_left _ _
    · have hinsert : (keys.insert k).size ≤ keys.size + 1 := Std.ExtTreeSet.size_insert_le
      exact ih.trans (max_le (by omega) (le_max_right _ _))

theorem fillUpTo_of_le (h : maxSize ≤ keys.size) : fillUpTo maxSize keys ks = keys := by
  cases ks with
  | nil => rfl
  | cons k ks => rw [fillUpTo, if_pos h]

theorem fillUpTo_append (ks ks' : List CPubKey) :
    fillUpTo maxSize (fillUpTo maxSize keys ks) ks' = fillUpTo maxSize keys (ks ++ ks') := by
  induction ks generalizing keys with
  | nil => rfl
  | cons k ks ih =>
    rw [cons_append, fillUpTo, fillUpTo]
    split_ifs with hfull
    · exact fillUpTo_of_le hfull
    · exact ih

theorem nodup_toList_keySet : keys.toList.Nodup :=
  Std.ExtTreeSet.distinct_toList.imp fun h heq ↦ h (Std.LawfulEqOrd.compare_eq_iff_eq.2 heq)

theorem ncard_keySet : {k | k ∈ keys}.ncard = keys.size := by
  have hset : {k | k ∈ keys} = (keys.toList.toFinset : Set CPubKey) := by
    ext k
    rw [Set.mem_ofPred_eq, Finset.mem_coe, mem_toFinset, Std.ExtTreeSet.mem_toList]
  rw [hset, Set.ncard_coe_finset, toFinset_card_of_nodup nodup_toList_keySet, Std.ExtTreeSet.length_toList]

theorem sorted_toList_keySet : keys.toList.Pairwise fun a b ↦ compare a b = .lt :=
  Std.ExtTreeSet.ordered_toList

end Sets

/-! ### The funded keys are in the pool -/

section Pool

variable {E N B ancestors view M} {nTipHeight nRegPeriod : ℤ} {k : CPubKey} {keys : KeySet × KeySet}

def Counts (view : CoinLookup) (challengeValid : Uint256 → Bool) (nRegPeriod : ℤ)
    (pindex : CBlockIndex) (entry : CachedBlockRegEntry) : Prop :=
  pindex.nHeight + nRegPeriod ≤ entry.lockTime ∧ haveCoin view entry.outpoint = true ∧
    (entry.isCoinLock = true ∨
      entry.isCoinLock = false ∧ challengeValid entry.challenge = true ∧ 10000 ≤ entry.nValue)

theorem mem_countRegistration {challengeValid : Uint256 → Bool} {pindex : CBlockIndex}
    (keys : KeySet × KeySet) (entry : CachedBlockRegEntry) :
    k ∈ (countRegistration view challengeValid nRegPeriod pindex keys entry).1 ↔
      k ∈ keys.1 ∨ Counts view challengeValid nRegPeriod pindex entry ∧ entry.pubkey = k := by
  have hnot (h : ¬Counts view challengeValid nRegPeriod pindex entry) :
      k ∈ keys.1 ↔ k ∈ keys.1 ∨ Counts view challengeValid nRegPeriod pindex entry ∧ entry.pubkey = k :=
    ⟨Or.inl, fun h' ↦ h'.resolve_right fun h' ↦ h h'.1⟩
  have hinsert (h : Counts view challengeValid nRegPeriod pindex entry) : k ∈ keys.1.insert entry.pubkey ↔
        k ∈ keys.1 ∨ Counts view challengeValid nRegPeriod pindex entry ∧ entry.pubkey = k := by
    rw [mem_keySet_insert, or_comm, eq_comm]
    exact or_congr_right ⟨fun hk ↦ ⟨h, hk⟩, And.right⟩
  rw [countRegistration]
  split_ifs with hlock hkind hcoin hchallenge hvalue hfew
  · exact hnot fun h ↦ absurd h.1 (not_le.2 hlock)
  · exact hinsert ⟨not_lt.1 hlock, hcoin, Or.inl hkind⟩
  · exact hnot fun h ↦ hcoin h.2.1
  · exact hnot fun h ↦ by simp_all [Counts]
  · exact hnot fun h ↦ by
      simp only [Bool.or_eq_true, decide_eq_true_eq, Bool.not_eq_true'] at hfew
      rcases hfew with hfew | hspent
      · rcases h.2.2 with hcoinLock | hpow
        · exact hkind hcoinLock
        · exact absurd hpow.2.2 (not_le.2 hfew)
      · exact Bool.false_ne_true (hspent.symm.trans h.2.1)
  · refine hinsert ⟨not_lt.1 hlock, ?_, Or.inr ⟨?_, ?_, ?_⟩⟩
    all_goals simp_all
  · exact hnot fun h ↦ by
      rcases h.2.2 with hcoinLock | hpow
      · exact hkind hcoinLock
      · exact hvalue (lt_of_lt_of_le (by decide) hpow.2.2)

theorem mem_registeredOn (pindexes : List CBlockIndex) :
    k ∈ (registeredOn E N B ancestors view nRegPeriod pindexes keys).1 ↔
      k ∈ keys.1 ∨ ∃ pindex ∈ pindexes, ∃ entry ∈ blockRegistrations E N (B pindex.hash),
        Counts view (challengeOn ancestors pindex) nRegPeriod pindex entry ∧ entry.pubkey = k := by
  have hblock (pindex : CBlockIndex) (keys : KeySet × KeySet) :
      k ∈ ((blockRegistrations E N (B pindex.hash)).foldl
        (countRegistration view (challengeOn ancestors pindex) nRegPeriod pindex) keys).1 ↔
        k ∈ keys.1 ∨ ∃ entry ∈ blockRegistrations E N (B pindex.hash),
          Counts view (challengeOn ancestors pindex) nRegPeriod pindex entry ∧ entry.pubkey = k :=
    foldl_iff_exists (motive := fun keys : KeySet × KeySet ↦ k ∈ keys.1) mem_countRegistration keys
  exact foldl_iff_exists (motive := fun keys : KeySet × KeySet ↦ k ∈ keys.1)
    (fun keys pindex ↦ hblock pindex keys) keys

theorem mem_startKeys (hregtest : E.consensus.isRegTestNet = false) :
    k ∈ startKeys E N view M nTipHeight ↔ ∃ o, (k, o) ∈ activeMasternodes E view M nTipHeight := by
  have hstep (keys : KeySet) (kv : CPubKey × COutPoint) : k ∈ keys.insert kv.1 ↔ k ∈ keys ∨ k = kv.1 := by
    rw [mem_keySet_insert, or_comm]
  have hfold := foldl_iff_exists (motive := fun keys : KeySet ↦ k ∈ keys)
    (l := activeMasternodes E view M nTipHeight) hstep ∅
  rw [startKeys, hregtest]
  refine hfold.trans ⟨?_, ?_⟩
  · rintro (hempty | ⟨kv, hkv, rfl⟩)
    · exact absurd hempty Std.ExtTreeSet.not_mem_empty
    · exact ⟨kv.2, hkv⟩
  · rintro ⟨o, ho⟩
    exact Or.inr ⟨(k, o), ho, rfl⟩

/-- The keys of the chain before any that cost nothing are added. -/
def fundedKeys (E : ValidationEnv) (N : PoolParams) (B : Uint256 → CBlock)
    (ancestors : List CBlockIndex) (view : CoinLookup) (M : MasternodeState) (nTipHeight : ℤ) : KeySet :=
  (registeredOn E N B ancestors view (regPeriod E N nTipHeight)
    (window ancestors nTipHeight (regPeriod E N nTipHeight)) (startKeys E N view M nTipHeight, ∅)).1

theorem mem_window_iff {chain : List CBlockIndex} {p : CBlockIndex}
    (hchain : ∀ i (hi : i < chain.length), (chain.get ⟨i, hi⟩).nHeight = i) (hperiod : 0 ≤ nRegPeriod) :
    p ∈ window chain nTipHeight nRegPeriod ↔
      p ∈ chain ∧ 0 < p.nHeight ∧ p.nHeight ≤ nTipHeight ∧ nTipHeight - p.nHeight < nRegPeriod := by
  rw [window, mem_filterMap]
  constructor
  · rintro ⟨i, hi, hblock⟩
    obtain ⟨hnonneg, hget⟩ := blockAt_eq_some_iff.1 hblock
    obtain ⟨hlt, rfl⟩ := List.getElem?_eq_some_iff.1 hget
    have hheight : chain[(nTipHeight - (i : ℤ)).toNat].nHeight = _ := hchain _ hlt
    have hrange := mem_range.1 hi
    refine ⟨getElem_mem hlt, ?_⟩
    omega
  · rintro ⟨hmem, hpos, hle, hrecent⟩
    obtain ⟨j, hlt, rfl⟩ := getElem_of_mem hmem
    have hheight : chain[j].nHeight = j := hchain j hlt
    refine ⟨(nTipHeight - chain[j].nHeight).toNat, mem_range.2 (by omega), ?_⟩
    refine blockAt_eq_some_iff.2 ⟨by omega, ?_⟩
    rw [List.getElem?_eq_some_iff]
    have hindex : (nTipHeight - ((nTipHeight - chain[j].nHeight).toNat : ℤ)).toNat = j := by omega
    exact ⟨by omega, by simp only [hindex]⟩

theorem mem_fundedKeys (hregtest : E.consensus.isRegTestNet = false)
    (hchain : ∀ i (hi : i < ancestors.length), (ancestors.get ⟨i, hi⟩).nHeight = i) :
    k ∈ fundedKeys E N B ancestors view M nTipHeight ↔ Funded E N B ancestors view M nTipHeight k := by
  have hperiod : 0 ≤ regPeriod E N nTipHeight := by
    rw [regPeriod]
    split_ifs <;> decide
  rw [fundedKeys, mem_registeredOn, mem_startKeys hregtest, Funded]
  refine or_congr_right ⟨?_, ?_⟩
  · rintro ⟨pindex, hwindow, entry, hentry, hcounts, hkey⟩
    obtain ⟨hmem, hpos, hle, hrecent⟩ := (mem_window_iff hchain hperiod).1 hwindow
    exact ⟨pindex, entry, hmem, hpos, hle, hrecent, hentry, hkey, hcounts.1, hcounts.2.1, hcounts.2.2⟩
  · rintro ⟨pindex, entry, h⟩
    exact ⟨pindex, (mem_window_iff hchain hperiod).2
      ⟨h.mem_ancestors, h.nHeight_pos, h.nHeight_le, h.recent⟩, entry, h.mem_block,
      ⟨h.locked, h.unspent, h.kind⟩, h.pubkey_eq⟩

theorem exists_poolOn_eq {pindexTip : CBlockIndex} (htip : ancestors.getLast? = some pindexTip) :
    ∃ free, poolOn E N B ancestors view M =
      (fillUpTo (maxBootstrapPoolSize E) (fundedKeys E N B ancestors view M pindexTip.nHeight)
        free).toList := by
  simp only [poolOn, htip, Option.elim_some]
  split
  · exact ⟨_, congrArg _ (fillUpTo_append _ _)⟩
  · exact ⟨_, rfl⟩

end Pool

/-! ### The pool of a call -/

section Call

variable {E N B} {call : PoolCall} {pindexTip : CBlockIndex}

theorem PoolCall.nHeight_ancestors (call : PoolCall) (i : ℕ) (hi : i < call.ancestors.length) :
    (call.ancestors.get ⟨i, hi⟩).nHeight = i := by
  have hlt : i < call.chainActive.length := hi.trans_le (length_take_le' _ _)
  have hget : call.ancestors.get ⟨i, hi⟩ = call.chainActive.get ⟨i, hlt⟩ := by
    simp only [PoolCall.ancestors, get_eq_getElem, getElem_take]
  rw [hget]
  exact call.nHeight_eq i hlt

theorem getAdamMinerPool_cold
    (hreads : ∀ p ∈ call.chainActive, readBlockFromDisk E call.files p = some (B p.hash)) :
    (({} : PoolCaches).getAdamMinerPool E N call).1 =
      poolOn E N B call.ancestors call.coinsView.getCoin call.masternodes := by
  have hknown : ∀ a ∈ [] ++ [call], a.Known E B fun _ ↦ call.ancestors := by
    intro a ha
    rw [mem_singleton.1 ha]
    exact ⟨hreads, fun _ _ ↦ rfl⟩
  have hcold : ({} : PoolCaches) = PoolCaches.run E N [] := rfl
  rw [hcold, getAdamMinerPool_eq_poolOn hknown (pairwise_singleton _ _)]

theorem Registered.lt_lockTime {ancestors : List CBlockIndex} {view : CoinLookup} {nTipHeight : ℤ}
    {k : CPubKey} {pindex : CBlockIndex} {entry : CachedBlockRegEntry}
    (h : Registered E N B ancestors view nTipHeight k pindex entry) : nTipHeight < entry.lockTime := by
  have hrecent := h.recent
  have hlocked := h.locked
  omega

/-- **Free registrations crowd out nobody.** Off the regression-test network, with empty caches, the pool
is sorted and has no key twice; it has all funded keys, and others only up to two more keys than the
miners of a block. A funded key is an active masternode's, or its registration is younger than the
period and locked beyond the height asked for. -/
theorem minerPool_funded (hregtest : E.consensus.isRegTestNet = false)
    (hreads : ∀ p ∈ call.chainActive, readBlockFromDisk E call.files p = some (B p.hash))
    (hp : call.pindexTip = some pindexTip) (F : Set CPubKey)
    (hF : ∀ k, k ∈ F ↔ Funded E N B call.ancestors call.coinsView.getCoin call.masternodes
      pindexTip.nHeight k) (pool : List CPubKey)
    (hpool : (({} : PoolCaches).getAdamMinerPool E N call).1 = pool) :
    pool.Pairwise (fun a b ↦ compare a b = .lt) ∧ pool.Nodup ∧ (∀ k ∈ F, k ∈ pool) ∧
      pool.length ≤ max F.ncard (E.consensus.nAdamMinersCount + 2) ∧
      (E.consensus.nAdamMinersCount + 2 ≤ F.ncard → ∀ k, k ∈ pool ↔ k ∈ F) ∧
      ∀ k ∈ F, (∃ o, (k, o) ∈ activeMasternodes E call.coinsView.getCoin call.masternodes
          pindexTip.nHeight) ∨
        ∃ pindex ∈ call.chainActive, ∃ entry ∈ blockRegistrations E N (B pindex.hash),
          entry.pubkey = k ∧ pindexTip.nHeight - pindex.nHeight < regPeriod E N pindexTip.nHeight ∧
            pindexTip.nHeight < entry.lockTime := by
  obtain ⟨p, i, hp', hget⟩ := call.exists_pindexTip
  obtain rfl := Option.some.inj (hp.symm.trans hp')
  have htip : call.ancestors.getLast? = some pindexTip := PoolCall.getLast?_ancestors hp hget
  rw [getAdamMinerPool_cold hreads] at hpool
  have hfunded (k : CPubKey) : k ∈ F ↔ k ∈ fundedKeys E N B call.ancestors call.coinsView.getCoin
      call.masternodes pindexTip.nHeight :=
    (hF k).trans (mem_fundedKeys hregtest call.nHeight_ancestors).symm
  obtain ⟨free, hfree⟩ : ∃ free, poolOn E N B call.ancestors call.coinsView.getCoin call.masternodes =
      (fillUpTo (maxBootstrapPoolSize E) (fundedKeys E N B call.ancestors call.coinsView.getCoin
        call.masternodes pindexTip.nHeight) free).toList := exists_poolOn_eq htip
  rw [hfree] at hpool
  have hcard : F.ncard = (fundedKeys E N B call.ancestors call.coinsView.getCoin call.masternodes
      pindexTip.nHeight).size := by
    rw [← ncard_keySet]
    exact congrArg _ (Set.ext hfunded)
  rw [← hpool, hcard]
  refine ⟨sorted_toList_keySet, nodup_toList_keySet, fun k hk ↦ ?_, ?_, fun hfull k ↦ ?_, fun k hk ↦ ?_⟩
  · exact Std.ExtTreeSet.mem_toList.2 (mem_fillUpTo_of_mem ((hfunded k).1 hk))
  · rw [Std.ExtTreeSet.length_toList]
    exact size_fillUpTo_le
  · rw [fillUpTo_of_le (show maxBootstrapPoolSize E ≤ _ from hfull), Std.ExtTreeSet.mem_toList, hfunded]
  · rcases (hF k).1 hk with hmasternode | ⟨pindex, entry, h⟩
    · exact Or.inl hmasternode
    · exact Or.inr ⟨pindex, mem_of_mem_take h.mem_ancestors, entry, h.mem_block, h.pubkey_eq,
        h.recent, h.lt_lockTime⟩

end Call

/-! ### A masternode without a registration -/

section Example

def masternodeCall : PoolCall :=
  { minedCall 2 with
    masternodes := ⟨Registry.empty.bind (minedKey 9) ⟨7, 0⟩ 1, Delegations.empty, ∅⟩
    pcoinsTip := ⟨fun _ ↦ some ⟨false, false, ⟨4200 * coin,
      getScriptForDestination (.keyID ((minedKey 9).getID default))⟩, 0⟩, mined₂.getHash default⟩ }

def minedFile (hash : Uint256) : CBlock := (minedFiles hash).getD mined₀

theorem funded_masternodeCall : Funded default mainPoolParams minedFile masternodeCall.ancestors
    masternodeCall.coinsView.getCoin masternodeCall.masternodes 2 (minedKey 9) :=
  Or.inl ⟨⟨7, 0⟩, by decide +kernel⟩

/-- The masternode is in the pool. -/
theorem minerPool_funded_masternode :
    minedKey 9 ∈ (({} : PoolCaches).getAdamMinerPool default mainPoolParams masternodeCall).1 := by
  have hreads : ∀ p ∈ masternodeCall.chainActive,
      readBlockFromDisk default masternodeCall.files p = some (minedFile p.hash) := by decide +kernel
  have hp : masternodeCall.pindexTip =
      some ⟨mined₂.getHash default, mined₂.hashPrevBlock, 2, 0⟩ := by decide +kernel
  have hpool := minerPool_funded (N := mainPoolParams) (by decide) hreads hp _
    (fun _ ↦ Iff.rfl) _ rfl
  exact hpool.2.2.1 (minedKey 9) funded_masternodeCall

/-- **A funded key without a registration**: the masternode's key is in no registration of the chain. -/
theorem masternode_without_registration :
    Funded default mainPoolParams minedFile masternodeCall.ancestors masternodeCall.coinsView.getCoin
        masternodeCall.masternodes 2 (minedKey 9) ∧
      ∀ p ∈ masternodeCall.chainActive,
        ∀ entry ∈ blockRegistrations default mainPoolParams (minedFile p.hash), entry.pubkey ≠ minedKey 9 :=
  ⟨funded_masternodeCall, by decide +kernel⟩

end Example

end KristaTech.Adam
