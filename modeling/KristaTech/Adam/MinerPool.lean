import KristaTech.Adam.SeedCache

/-!
# The miner pool

`GetAdamMinerPool` of `adam.cpp`: the keys an election chooses from, as of a block of the active
chain. They are the active masternodes, the miners whose registration is in one of the last blocks,
and, while these are few, the miners of the first 199 blocks. The function keeps three caches that
live as long as the process: the pool of each block, the registrations in each block, and the keys of
the first blocks.

The last of these is the trouble: it is filled up to the height that was asked for and then used for
every height. So the pool of a block depends on the calls before (`minerPool_depends_on_history`).
Where no call goes below an earlier one, and the state for a block does not change between two calls,
every call returns the pool of the chain (`getAdamMinerPool_eq_poolOn`).
-/

namespace KristaTech.Adam

open Masternode List

/-- `CBaseChainParams::Network`. -/
inductive NetworkID
  | MAIN
  | TESTNET
  | REGTEST
  deriving DecidableEq, Repr

/-- What depends on the network besides `Params`. -/
structure PoolParams where
  networkID : NetworkID
  nAdamBootstrapLimit : ℤ
  /-- `GetMinerPoWLimit`. -/
  minerPoWLimit : Uint256
  /-- `GetAdamDeterministicPubKey` of 0 to 14. -/
  deterministicPubKeys : List CPubKey

/-- `std::set<CPubKey>`. -/
abbrev KeySet := Std.ExtTreeSet CPubKey

variable (E : ValidationEnv) (N : PoolParams)

/-! ### The registrations in a block -/

structure CachedBlockRegEntry where
  isCoinLock : Bool
  outpoint : COutPoint
  nValue : CAmount
  pubkey : CPubKey
  lockTime : ℤ
  challenge : Uint256 := 0
  deriving DecidableEq, Repr

/-- `MINER_REGISTRATION_LOCK_AMOUNT`. -/
def minerRegistrationLockAmount : CAmount := 1000 * coin

/-- The puzzle of a registration by work, which is easier for one that locks coins. -/
def puzzleSolved (isZeroCoinTx : Bool) (nValue : CAmount) (puzzleHash : Uint256) : Bool :=
  if nValue = 0 then isZeroCoinTx && puzzleHash ≤ E.consensus.zeroCoinPoWLimit
  else 10000 ≤ nValue && puzzleHash ≤ N.minerPoWLimit

def registration (isZeroCoinTx : Bool) (outpoint : COutPoint) (out : CTxOut) : Option CachedBlockRegEntry :=
  if out.scriptPubKey.length < 60 then none
  else
    match matchCoinLockRegistration out.scriptPubKey with
    | some r =>
      if r.pubkey.getID E.crypto = r.pubkeyHash ∧ minerRegistrationLockAmount ≤ out.nValue then
        some ⟨true, outpoint, out.nValue, r.pubkey, r.lockTime, 0⟩
      else none
    | none =>
      match matchPoWLockRegistration out.scriptPubKey with
      | some (nonce, challenge, r) =>
        if r.pubkey.getID E.crypto = r.pubkeyHash ∧ nonce.length = 4 ∧
            puzzleSolved E N isZeroCoinTx out.nValue
              (E.crypto.hash (nonce ++ challenge.toBytes ++ Writer.pubKey r.pubkey)) then
          some ⟨false, outpoint, out.nValue, r.pubkey, r.lockTime, challenge⟩
        else none
      | none => none

def txRegistrations (isZeroCoinTx : Bool) (tx : CTransaction) : List CachedBlockRegEntry :=
  tx.vout.zipIdx.filterMap fun p ↦
    registration E N isZeroCoinTx ⟨tx.getHash E.crypto, UInt32.ofNat p.2⟩ p.1

/-- The registrations in the transactions of a block: at most one is without a coin. -/
def registrationsFrom (nZeroCoinTxInBlock : ℕ) : List CTransaction → List CachedBlockRegEntry
  | [] => []
  | tx :: vtx =>
    if E.isZeroCoinPoW tx then
      if tx.vout.length ≠ 1 ∨ 1 ≤ nZeroCoinTxInBlock then registrationsFrom nZeroCoinTxInBlock vtx
      else txRegistrations E N true tx ++ registrationsFrom (nZeroCoinTxInBlock + 1) vtx
    else txRegistrations E N false tx ++ registrationsFrom nZeroCoinTxInBlock vtx

def blockRegistrations (block : CBlock) : List CachedBlockRegEntry :=
  registrationsFrom E N 0 block.vtx

def bootstrapKey (block : CBlock) : Option CPubKey := do
  let coinbaseTx ← block.vtx.head?
  let out ← coinbaseTx.vout.head?
  let push ← CScript.getOp out.scriptPubKey
  guard (push.vch.length = 33 ∨ push.vch.length = 65)
  let op ← CScript.getOp push.rest
  guard (op.opcode = .OP_CHECKSIG)
  let pubkey := CPubKey.set push.vch
  guard pubkey.isValid
  return pubkey

/-! ### The state of the node at a call -/

/-- The active chain, genesis block first, in the index of blocks. -/
structure ActiveChain where
  chainActive : List CBlockIndex
  mapBlockIndex : Uint256 → Option CBlockIndex
  files : BlockFiles
  ne_nil : chainActive ≠ []
  nHeight_eq : ∀ i (hi : i < chainActive.length), (chainActive.get ⟨i, hi⟩).nHeight = i
  indexed : ∀ p ∈ chainActive, mapBlockIndex p.hash = some p

/-- `chain[nHeight]`. -/
def blockAt (chain : List CBlockIndex) (nHeight : ℤ) : Option CBlockIndex :=
  if 0 ≤ nHeight then chain[nHeight.toNat]? else none

/-- A call of `GetAdamMinerPool` and the globals it reads. -/
structure PoolCall extends ActiveChain where
  masternodes : MasternodeState
  nMasternodePingStateGen : ℕ
  pcoinsTip : CCoinsView
  nHeight : ℤ
  pView : Option CCoinsView

structure PoolCaches where
  mapMinerPoolCache : Std.ExtTreeMap Uint256 (List CPubKey) := ∅
  mapBlockRegCache : Std.ExtTreeMap Uint256 (List CachedBlockRegEntry) := ∅
  cachedBootstrapKeys : KeySet := ∅
  cachedBootstrapScannedUpTo : ℕ := 0
  cachedGenesisHash : Uint256 := 0
  cachedPoolStateGen : ℕ := 0

/-- `HaveCoin`. -/
def haveCoin (view : CoinLookup) (outpoint : COutPoint) : Bool :=
  (view outpoint).any fun coin ↦ !coin.isSpent

/-- The masternodes that are active at a height with a valid collateral, each collateral once, in
the order of the keys. -/
def activeMasternodes (view : CoinLookup) (S : MasternodeState) (refHeight : ℤ) :
    List (CPubKey × COutPoint) :=
  S.registry.mapMasternodeCollateralOutpoints.toList.foldl (fun mns kv ↦
    if kv.1.isValid && S.registry.isMasternodeActiveAtHeight kv.1 refHeight && !mns.any (·.2 == kv.2) &&
        isValidMasternodeCollateralAndAuth E.toPingChecks view S.delegations kv.1 kv.2 refHeight none
    then mns ++ [kv] else mns) []

/-! ### Assembling the pool -/

/-- The keys that count whatever is registered in the blocks. -/
def startKeys (view : CoinLookup) (S : MasternodeState) (currentRefHeight : ℤ) : KeySet :=
  let keys : KeySet := if E.consensus.isRegTestNet then .ofList N.deterministicPubKeys else ∅
  (activeMasternodes E view S currentRefHeight).foldl (fun keys kv ↦ keys.insert kv.1) keys

/-- `nRegPeriod`. -/
def regPeriod (nTipHeight : ℤ) : ℤ :=
  if (N.networkID = .TESTNET ∨ N.networkID = .REGTEST) ∧ E.consensus.isModelDActive (nTipHeight + 1)
  then 100 else 2880

/-- One registration in the block `pindex`: its key counts, counts as one without a coin, or does not
count. -/
def countRegistration (view : CoinLookup) (challengeValid : Uint256 → Bool) (nRegPeriod : ℤ)
    (pindex : CBlockIndex) (keys : KeySet × KeySet) (entry : CachedBlockRegEntry) : KeySet × KeySet :=
  if entry.lockTime < pindex.nHeight + nRegPeriod then keys
  else if entry.isCoinLock then
    if haveCoin view entry.outpoint then (keys.1.insert entry.pubkey, keys.2) else keys
  else if !challengeValid entry.challenge then keys
  else if 0 < entry.nValue then
    if entry.nValue < 10000 || !haveCoin view entry.outpoint then keys
    else (keys.1.insert entry.pubkey, keys.2)
  else (keys.1, keys.2.insert entry.pubkey)

/-- The blocks whose registrations count, last block first. -/
def window (chain : List CBlockIndex) (nTipHeight nRegPeriod : ℤ) : List CBlockIndex :=
  let nLimit := max 0 (nTipHeight - nRegPeriod)
  (List.range (nTipHeight - nLimit).toNat).filterMap fun (i : ℕ) ↦ blockAt chain (nTipHeight - i)

/-- Keys are added while there are fewer than `maxSize`. -/
def fillUpTo (maxSize : ℕ) : KeySet → List CPubKey → KeySet
  | keys, [] => keys
  | keys, k :: ks => if maxSize ≤ keys.size then keys else fillUpTo maxSize (keys.insert k) ks

/-- `maxBootstrapPoolSize`. -/
def maxBootstrapPoolSize : ℕ := E.consensus.nAdamMinersCount + 2

/-- The scan of the first blocks, from the last height scanned on: the keys, and the height of the
last block that could be read. -/
def scanBootstrap (files : BlockFiles) (chain : List CBlockIndex) : List ℕ → KeySet × ℕ → KeySet × ℕ
  | [], s => s
  | h :: hs, s =>
    match chain[h]? with
    | none => s
    | some pindex =>
      match readBlockFromDisk E files pindex with
      | some block => scanBootstrap files chain hs ((bootstrapKey block).elim s.1 s.1.insert, h)
      | none => scanBootstrap files chain hs s

namespace PoolCall

variable (call : PoolCall)

def tip : Option CBlockIndex := call.chainActive.getLast?

/-- `pindexTip`: the block asked for, or the tip. -/
def pindexTip : Option CBlockIndex :=
  if 0 ≤ call.nHeight ∧ call.nHeight < call.chainActive.length then
    (blockAt call.chainActive call.nHeight).or call.tip
  else call.tip

def coinsView : CCoinsView := call.pView.getD call.pcoinsTip

def fUsePoolCache : Bool := call.pView.all fun view ↦ view.hashBlock == call.pcoinsTip.hashBlock

def genesisHash : Uint256 := call.chainActive.head?.elim 0 (·.hash)

/-- The challenge is a block of the active chain, of the 100 blocks before the registration. -/
def challengeValid (pindex : CBlockIndex) (challenge : Uint256) : Bool :=
  (call.mapBlockIndex challenge).any fun pindexChallenge ↦
    (blockAt call.chainActive pindexChallenge.nHeight).any (·.hash == challenge) &&
      pindex.nHeight - 100 ≤ pindexChallenge.nHeight && pindexChallenge.nHeight < pindex.nHeight

/-- The registrations of a block, from the cache, or from the disk into the cache. -/
def cachedRegistrations (cache : Std.ExtTreeMap Uint256 (List CachedBlockRegEntry)) (pindex : CBlockIndex) :
    List CachedBlockRegEntry × Std.ExtTreeMap Uint256 (List CachedBlockRegEntry) :=
  match cache[pindex.hash]? with
  | some entries => (entries, cache)
  | none =>
    let entries := (readBlockFromDisk E call.files pindex).elim [] (blockRegistrations E N)
    (entries, cache.insert pindex.hash entries)

def scanWindow (nRegPeriod : ℤ) : List CBlockIndex →
    Std.ExtTreeMap Uint256 (List CachedBlockRegEntry) → KeySet × KeySet →
    Std.ExtTreeMap Uint256 (List CachedBlockRegEntry) × (KeySet × KeySet)
  | [], cache, keys => (cache, keys)
  | pindex :: pindexes, cache, keys =>
    let r := call.cachedRegistrations E N cache pindex
    scanWindow nRegPeriod pindexes r.2
      (r.1.foldl (countRegistration call.coinsView.getCoin (call.challengeValid pindex) nRegPeriod
        pindex) keys)

end PoolCall

namespace PoolCaches

variable (c : PoolCaches) (call : PoolCall)

/-- The caches that have become stale or too large are cleared. -/
def refresh : PoolCaches :=
  let c := if c.cachedPoolStateGen ≠ call.nMasternodePingStateGen then
    { c with mapMinerPoolCache := ∅, cachedPoolStateGen := call.nMasternodePingStateGen } else c
  let c := if 500 < c.mapMinerPoolCache.size then { c with mapMinerPoolCache := ∅ } else c
  if 5000 < c.mapBlockRegCache.size then { c with mapBlockRegCache := ∅ } else c

/-- The bootstrap keys, scanned up to the height of the call. -/
def bootstrap : PoolCaches :=
  let c := if call.genesisHash ≠ c.cachedGenesisHash then
    { c with cachedBootstrapKeys := ∅, cachedBootstrapScannedUpTo := 0,
             cachedGenesisHash := call.genesisHash } else c
  let nScanLimit := min 199 (call.pindexTip.elim 0 (·.nHeight.toNat))
  let s := scanBootstrap E call.files call.chainActive
    (List.range' (c.cachedBootstrapScannedUpTo + 1) (nScanLimit - c.cachedBootstrapScannedUpTo))
    (c.cachedBootstrapKeys, c.cachedBootstrapScannedUpTo)
  { c with cachedBootstrapKeys := s.1, cachedBootstrapScannedUpTo := s.2 }

/-- The bootstrap limit of the network has not been reached. -/
def belowBootstrapLimit : Bool :=
  call.pindexTip.all fun pindexTip ↦ pindexTip.nHeight < N.nAdamBootstrapLimit

/-- The masternodes and the registrations in the window; those without a coin apart. -/
def scanRegistrations : Std.ExtTreeMap Uint256 (List CachedBlockRegEntry) × (KeySet × KeySet) :=
  let currentRefHeight := (call.pindexTip.or call.tip).elim 0 (·.nHeight)
  let keys := startKeys E N call.coinsView.getCoin call.masternodes currentRefHeight
  match call.pindexTip with
  | none => (c.mapBlockRegCache, (keys, ∅))
  | some pindexTip =>
    let nRegPeriod := regPeriod E N pindexTip.nHeight
    call.scanWindow E N nRegPeriod (window call.chainActive pindexTip.nHeight nRegPeriod)
      c.mapBlockRegCache (keys, ∅)

def computePool : List CPubKey × PoolCaches :=
  let r := c.scanRegistrations E N call
  let c := { c with mapBlockRegCache := r.1 }
  let keys := fillUpTo (maxBootstrapPoolSize E) r.2.1 r.2.2.toList
  if keys.size < maxBootstrapPoolSize E && belowBootstrapLimit N call then
    let c := c.bootstrap E call
    ((fillUpTo (maxBootstrapPoolSize E) keys c.cachedBootstrapKeys.toList).toList, c)
  else (keys.toList, c)

/-- `GetAdamMinerPool`. -/
def getAdamMinerPool : List CPubKey × PoolCaches :=
  let c := c.refresh call
  let cached := (call.pindexTip.filter fun _ ↦ call.fUsePoolCache).bind fun pindexTip ↦
    c.mapMinerPoolCache[pindexTip.hash]?
  match cached with
  | some pool => (pool, c)
  | none =>
    let r := c.computePool E N call
    match call.pindexTip with
    | some pindexTip =>
      if call.fUsePoolCache && E.consensus.getAdamThreshold pindexTip.nHeight ≤ r.1.length then
        (r.1, { r.2 with mapMinerPoolCache := r.2.mapMinerPoolCache.insert pindexTip.hash r.1 })
      else r
    | none => r

def run (calls : List PoolCall) : PoolCaches :=
  calls.foldl (fun c call ↦ (c.getAdamMinerPool E N call).2) {}

end PoolCaches

/-! ### The pool of a chain -/

def bootstrapKeys (B : Uint256 → CBlock) (blocks : List CBlockIndex) : KeySet :=
  blocks.foldl (fun keys p ↦ (bootstrapKey (B p.hash)).elim keys keys.insert) ∅

def challengeOn (ancestors : List CBlockIndex) (pindex : CBlockIndex) (challenge : Uint256) : Bool :=
  ancestors.any fun p ↦
    p.hash == challenge && (pindex.nHeight - 100 ≤ p.nHeight && p.nHeight < pindex.nHeight)

def registeredOn (B : Uint256 → CBlock) (ancestors : List CBlockIndex) (view : CoinLookup)
    (nRegPeriod : ℤ) (pindexes : List CBlockIndex) (keys : KeySet × KeySet) : KeySet × KeySet :=
  pindexes.foldl (fun keys pindex ↦ (blockRegistrations E N (B pindex.hash)).foldl
    (countRegistration view (challengeOn ancestors pindex) nRegPeriod pindex) keys) keys

/-- The pool as of the last of the blocks, where `B` is the block with a hash. It reads nothing but
the chain up to this block, the coins and the masternodes. -/
def poolOn (B : Uint256 → CBlock) (ancestors : List CBlockIndex) (view : CoinLookup)
    (S : MasternodeState) : List CPubKey :=
  let nTipHeight := ancestors.getLast?.elim 0 (·.nHeight)
  let nRegPeriod := regPeriod E N nTipHeight
  let r := registeredOn E N B ancestors view nRegPeriod (window ancestors nTipHeight nRegPeriod)
    (startKeys E N view S nTipHeight, ∅)
  let keys := fillUpTo (maxBootstrapPoolSize E) r.1 r.2.toList
  if keys.size < maxBootstrapPoolSize E && nTipHeight < N.nAdamBootstrapLimit then
    (fillUpTo (maxBootstrapPoolSize E) keys (bootstrapKeys B ((ancestors.take 200).drop 1)).toList).toList
  else keys.toList

namespace PoolCall

variable (call : PoolCall)

def ancestors : List CBlockIndex :=
  call.chainActive.take (call.pindexTip.elim 0 fun p ↦ p.nHeight.toNat + 1)

/-- The blocks can be read; a hash names one block `B` and one chain `A`. -/
structure Known (B : Uint256 → CBlock) (A : Uint256 → List CBlockIndex) : Prop where
  reads : ∀ p ∈ call.chainActive, readBlockFromDisk E call.files p = some (B p.hash)
  ancestors_eq : ∀ p ∈ call.pindexTip, call.ancestors = A p.hash

/-- A later call does not go back behind an earlier one: below the bootstrap limit it asks for a
block with the earlier one's first blocks among its own, and if both may use the pool of one block,
coins and masternodes have not changed in between. -/
structure Follows (a b : PoolCall) : Prop where
  bootstrap : PoolCaches.belowBootstrapLimit N a = true → PoolCaches.belowBootstrapLimit N b = true →
    a.genesisHash = b.genesisHash → a.ancestors.take 200 <+: b.ancestors.take 200
  pool : a.fUsePoolCache = true → b.fUsePoolCache = true →
    a.nMasternodePingStateGen = b.nMasternodePingStateGen → a.pindexTip.map (·.hash) =
      b.pindexTip.map (·.hash) →
    a.coinsView.getCoin = b.coinsView.getCoin ∧ a.masternodes = b.masternodes

end PoolCall

section

variable {E N} {B : Uint256 → CBlock} {A : Uint256 → List CBlockIndex} {call : PoolCall}
  {p pindexTip : CBlockIndex} {chain : List CBlockIndex}

/-! ### The chain up to a block -/

theorem blockAt_eq_some_iff {n : ℤ} : blockAt chain n = some p ↔ 0 ≤ n ∧ chain[n.toNat]? = some p := by
  rw [blockAt]
  split_ifs with h <;> simp [h]

theorem blockAt_take {m : ℕ} {n : ℤ} (h : n < m) : blockAt (chain.take m) n = blockAt chain n := by
  rw [blockAt, blockAt]
  split_ifs with h0
  · exact getElem?_take_of_lt (by omega)
  · rfl

namespace PoolCall

theorem nHeight_of_getElem? (call : PoolCall) {i : ℕ} (h : call.chainActive[i]? = some p) :
    p.nHeight = i := by
  obtain ⟨hi, rfl⟩ := List.getElem?_eq_some_iff.1 h
  exact call.nHeight_eq i hi

theorem exists_pindexTip (call : PoolCall) :
    ∃ (pindexTip : CBlockIndex) (i : ℕ), call.pindexTip = some pindexTip ∧
      call.chainActive[i]? = some pindexTip := by
  have hlast : ∃ (i : ℕ) (p : CBlockIndex), call.tip = some p ∧ call.chainActive[i]? = some p :=
    ⟨call.chainActive.length - 1, call.chainActive.getLast call.ne_nil,
      getLast?_eq_some_getLast call.ne_nil, by
        rw [← getLast?_eq_getElem?, getLast?_eq_some_getLast call.ne_nil]⟩
  obtain ⟨i, p, htip, hget⟩ := hlast
  rw [pindexTip]
  split_ifs with h
  · have hlt : call.nHeight.toNat < call.chainActive.length := by omega
    refine ⟨_, call.nHeight.toNat, ?_, getElem?_eq_getElem hlt⟩
    rw [blockAt, if_pos h.1, getElem?_eq_getElem hlt]
    rfl
  · exact ⟨p, i, htip, hget⟩

section

variable {i : ℕ} (h : call.pindexTip = some pindexTip) (hget : call.chainActive[i]? = some pindexTip)

include h hget

theorem ancestors_eq_take : call.ancestors = call.chainActive.take (i + 1) := by
  rw [ancestors, h, Option.elim_some, call.nHeight_of_getElem? hget, Int.toNat_natCast]

theorem getLast?_ancestors : call.ancestors.getLast? = some pindexTip := by
  rw [ancestors_eq_take h hget, take_add_one, hget]
  simp

theorem window_ancestors (nRegPeriod : ℤ) : window call.ancestors pindexTip.nHeight nRegPeriod =
      window call.chainActive pindexTip.nHeight nRegPeriod := by
  rw [ancestors_eq_take h hget, call.nHeight_of_getElem? hget]
  exact filterMap_congr fun j _ ↦ blockAt_take (by omega)

theorem challengeValid_eq (hp : p.nHeight ≤ pindexTip.nHeight) (challenge : Uint256) :
    call.challengeValid p challenge = challengeOn call.ancestors p challenge := by
  rw [call.nHeight_of_getElem? hget] at hp
  rw [Bool.eq_iff_iff, challengeValid, challengeOn, Option.any_eq_true, any_eq_true,
    ancestors_eq_take h hget]
  constructor
  · rintro ⟨q, -, hq⟩
    simp only [Bool.and_eq_true, decide_eq_true_eq, Option.any_eq_true, beq_iff_eq] at hq
    obtain ⟨⟨⟨r, hr, rfl⟩, hlow⟩, hhigh⟩ := hq
    obtain ⟨hnonneg, hrget⟩ := blockAt_eq_some_iff.1 hr
    have hheight := call.nHeight_of_getElem? hrget
    refine ⟨r, mem_take_iff_getElem.2 ?_, ?_⟩
    · obtain ⟨hlt, hr'⟩ := List.getElem?_eq_some_iff.1 hrget
      exact ⟨q.nHeight.toNat, by omega, hr'⟩
    · simp only [Bool.and_eq_true, decide_eq_true_eq, beq_iff_eq]
      exact ⟨trivial, by omega, by omega⟩
  · rintro ⟨q, hq, hcond⟩
    simp only [Bool.and_eq_true, decide_eq_true_eq, beq_iff_eq] at hcond
    obtain ⟨rfl, hlow, hhigh⟩ := hcond
    have hmem := mem_of_mem_take hq
    obtain ⟨j, hj⟩ := mem_iff_getElem?.1 hmem
    have hblock : blockAt call.chainActive q.nHeight = some q := by
      rw [call.nHeight_of_getElem? hj]
      exact blockAt_eq_some_iff.2 ⟨by omega, hj⟩
    refine ⟨q, call.indexed q hmem, ?_⟩
    simp [hblock, hlow, hhigh]

end

theorem mem_window {n nRegPeriod : ℤ} (hmem : p ∈ window chain n nRegPeriod) :
    p ∈ chain ∧ ∃ i : ℕ, chain[i]? = some p ∧ (i : ℤ) ≤ n := by
  obtain ⟨j, -, hj⟩ := mem_filterMap.1 hmem
  obtain ⟨hnonneg, hget⟩ := blockAt_eq_some_iff.1 hj
  exact ⟨mem_of_getElem? hget, _, hget, by omega⟩

end PoolCall

/-! ### The registrations in the cache -/

/-- What the cache has for a hash are the registrations in the block. -/
def RegistrationsSound (E : ValidationEnv) (N : PoolParams) (B : Uint256 → CBlock)
    (cache : Std.ExtTreeMap Uint256 (List CachedBlockRegEntry)) : Prop :=
  ∀ hash entries, cache[hash]? = some entries → entries = blockRegistrations E N (B hash)

variable {cache : Std.ExtTreeMap Uint256 (List CachedBlockRegEntry)}

theorem cachedRegistrations_spec (hcache : RegistrationsSound E N B cache)
    (hread : readBlockFromDisk E call.files p = some (B p.hash)) :
    (call.cachedRegistrations E N cache p).1 = blockRegistrations E N (B p.hash) ∧
      RegistrationsSound E N B (call.cachedRegistrations E N cache p).2 := by
  rw [PoolCall.cachedRegistrations]
  split
  · rename_i entries hentries
    exact ⟨hcache _ _ hentries, hcache⟩
  · simp only [hread, Option.elim_some, true_and]
    intro hash entries h
    simp only [Std.ExtTreeMap.getElem?_insert, Std.LawfulEqOrd.compare_eq_iff_eq] at h
    split_ifs at h with heq
    · exact heq ▸ (Option.some.inj h).symm
    · exact hcache hash entries h

/-- The loop over the window counts the registrations of the chain, whatever was cached. -/
theorem scanWindow_spec {i : ℕ} (h : call.pindexTip = some pindexTip)
    (hget : call.chainActive[i]? = some pindexTip) {nRegPeriod : ℤ} {pindexes : List CBlockIndex}
    (hpindexes : ∀ p ∈ pindexes, p.nHeight ≤ pindexTip.nHeight ∧
      readBlockFromDisk E call.files p = some (B p.hash)) (hcache : RegistrationsSound E N B cache)
    (keys : KeySet × KeySet) : (call.scanWindow E N nRegPeriod pindexes cache keys).2 =
        registeredOn E N B call.ancestors call.coinsView.getCoin nRegPeriod pindexes keys ∧
      RegistrationsSound E N B (call.scanWindow E N nRegPeriod pindexes cache keys).1 := by
  induction pindexes generalizing cache keys with
  | nil => exact ⟨rfl, hcache⟩
  | cons p pindexes ih =>
    obtain ⟨hheight, hread⟩ := hpindexes p mem_cons_self
    obtain ⟨hentries, hcache'⟩ := cachedRegistrations_spec hcache hread
    have hchallenge : call.challengeValid p = challengeOn call.ancestors p :=
      funext (PoolCall.challengeValid_eq h hget hheight)
    rw [PoolCall.scanWindow, hentries, hchallenge]
    exact ih (fun q hq ↦ hpindexes q (mem_cons_of_mem p hq)) hcache' _

/-! ### The bootstrap keys in the cache -/

theorem bootstrapKeys_take_succ {m : ℕ} (hm : 1 ≤ m) (hp : chain[m]? = some p) :
    bootstrapKeys B ((chain.take (m + 1)).drop 1) =
      (bootstrapKey (B p.hash)).elim (bootstrapKeys B ((chain.take m).drop 1))
        (bootstrapKeys B ((chain.take m).drop 1)).insert := by
  obtain ⟨hlt, -⟩ := List.getElem?_eq_some_iff.1 hp
  rw [take_add_one, hp, drop_append_of_le_length (by simp; omega), bootstrapKeys, foldl_append]
  rfl

/-- The scan goes on where it stopped, up to the `m`-th block. -/
theorem scanBootstrap_spec {files : BlockFiles}
    (hread : ∀ p ∈ chain, readBlockFromDisk E files p = some (B p.hash)) {s k : ℕ}
    (hk : s + k < chain.length) :
    scanBootstrap E files chain (List.range' (s + 1) k) (bootstrapKeys B ((chain.take (s + 1)).drop 1), s) =
      (bootstrapKeys B ((chain.take (s + k + 1)).drop 1), s + k) := by
  induction k generalizing s with
  | zero => rfl
  | succ k ih =>
    have hlt : s + 1 < chain.length := by omega
    have hget := getElem?_eq_getElem hlt
    rw [range'_succ, scanBootstrap, hget]
    simp only [hread _ (getElem_mem hlt)]
    rw [← bootstrapKeys_take_succ (by omega) hget, ih (by omega), Nat.add_right_comm s 1 k,
      Nat.add_assoc s k 1]

/-- What the caches hold after the given calls. -/
structure PoolCaches.Good (E : ValidationEnv) (N : PoolParams) (B : Uint256 → CBlock)
    (calls : List PoolCall) (c : PoolCaches) : Prop where
  registrations : RegistrationsSound E N B c.mapBlockRegCache
  pools : ∀ hash pool, c.mapMinerPoolCache[hash]? = some pool →
    ∃ a ∈ calls, a.fUsePoolCache = true ∧ a.nMasternodePingStateGen = c.cachedPoolStateGen ∧
      a.pindexTip.map (·.hash) = some hash ∧
      pool = poolOn E N B a.ancestors a.coinsView.getCoin a.masternodes
  bootstrap : c.cachedBootstrapScannedUpTo = 0 ∧ c.cachedBootstrapKeys = ∅ ∨
    ∃ a ∈ calls, PoolCaches.belowBootstrapLimit N a = true ∧ a.genesisHash = c.cachedGenesisHash ∧
      c.cachedBootstrapScannedUpTo + 1 = (a.ancestors.take 200).length ∧
      c.cachedBootstrapKeys = bootstrapKeys B ((a.ancestors.take 200).drop 1)

namespace PoolCaches

variable {c : PoolCaches} {calls : List PoolCall}

theorem Good.empty : Good E N B [] {} :=
  ⟨fun _ _ h ↦ by simp at h, fun _ _ h ↦ by simp at h, Or.inl ⟨rfl, rfl⟩⟩

theorem Good.refresh (hc : c.Good E N B calls) (call : PoolCall) : (c.refresh call).Good E N B calls := by
  have hnone {α : Type} {hash : Uint256} {a : α} {P : Prop}
      (h : (∅ : Std.ExtTreeMap Uint256 α)[hash]? = some a) : P := by simp at h
  have h₁ : Good E N B calls (if c.cachedPoolStateGen ≠ call.nMasternodePingStateGen then
      { c with mapMinerPoolCache := ∅, cachedPoolStateGen := call.nMasternodePingStateGen } else c) := by
    split_ifs
    · exact ⟨hc.registrations, fun _ _ h ↦ hnone h, hc.bootstrap⟩
    · exact hc
  have h₂ (c : PoolCaches) (hc : c.Good E N B calls) : Good E N B calls
      (if 500 < c.mapMinerPoolCache.size then { c with mapMinerPoolCache := ∅ } else c) := by
    split_ifs
    · exact ⟨hc.registrations, fun _ _ h ↦ hnone h, hc.bootstrap⟩
    · exact hc
  have h₃ (c : PoolCaches) (hc : c.Good E N B calls) : Good E N B calls
      (if 5000 < c.mapBlockRegCache.size then { c with mapBlockRegCache := ∅ } else c) := by
    split_ifs
    · exact ⟨fun _ _ h ↦ hnone h, hc.pools, hc.bootstrap⟩
    · exact hc
  exact h₃ _ (h₂ _ h₁)

theorem cachedPoolStateGen_refresh (call : PoolCall) :
    (c.refresh call).cachedPoolStateGen = call.nMasternodePingStateGen := by
  simp only [refresh]
  split_ifs <;> simp_all

section Step

variable (hc : c.Good E N B calls) (hfollows : ∀ a ∈ calls, a.Follows N call) (hknown : call.Known E B A)

include hc hfollows in
theorem Good.exists_scanned {n : ℕ} (hn : call.ancestors.take 200 = call.chainActive.take (n + 1))
    (hlt : n < call.chainActive.length) (hbelow : belowBootstrapLimit N call = true)
    (hgenesis : call.genesisHash = c.cachedGenesisHash) :
    c.cachedBootstrapScannedUpTo ≤ n ∧ c.cachedBootstrapKeys =
      bootstrapKeys B ((call.chainActive.take (c.cachedBootstrapScannedUpTo + 1)).drop 1) := by
  rcases hc.bootstrap with ⟨hzero, hempty⟩ | ⟨a, ha, habelow, hagenesis, hlen, hkeys⟩
  · rw [hzero, hempty, drop_eq_nil_of_le (length_take_le 1 _)]
    exact ⟨Nat.zero_le n, rfl⟩
  · have hsub := (hfollows a ha).bootstrap habelow hbelow (hagenesis.trans hgenesis.symm)
    rw [hn] at hsub
    have hle := hsub.length_le
    rw [← hlen, length_take] at hle
    have htake := prefix_iff_eq_take.1 hsub
    rw [← hlen, take_take, Nat.min_eq_left (by omega)] at htake
    exact ⟨by omega, by rw [hkeys, htake]⟩

include hc hfollows hknown in
theorem Good.bootstrapScan (hbelow : belowBootstrapLimit N call = true) :
    ∃ n, (call.ancestors.take 200).length = n + 1 ∧
      c.bootstrap E call = { c with
        cachedBootstrapKeys := bootstrapKeys B ((call.ancestors.take 200).drop 1)
        cachedBootstrapScannedUpTo := n
        cachedGenesisHash := call.genesisHash } := by
  obtain ⟨pindexTip, i, hp, hget⟩ := call.exists_pindexTip
  obtain ⟨hi, -⟩ := List.getElem?_eq_some_iff.1 hget
  have hheight := call.nHeight_of_getElem? hget
  have htake : call.ancestors.take 200 = call.chainActive.take (min 199 i + 1) := by
    rw [PoolCall.ancestors_eq_take hp hget, take_take]
    congr 1
    omega
  have hlt : min 199 i < call.chainActive.length := by omega
  refine ⟨min 199 i, by rw [htake, length_take]; omega, ?_⟩
  have hlimit : min 199 (call.pindexTip.elim 0 fun p ↦ p.nHeight.toNat) = min 199 i := by
    rw [hp, Option.elim_some, hheight, Int.toNat_natCast]
  by_cases hgenesis : call.genesisHash = c.cachedGenesisHash
  · obtain ⟨hle, hkeys⟩ := hc.exists_scanned hfollows htake hlt hbelow hgenesis
    have hscan := scanBootstrap_spec (B := B) hknown.reads
      (s := c.cachedBootstrapScannedUpTo) (k := min 199 i - c.cachedBootstrapScannedUpTo) (by omega)
    rw [Nat.add_sub_cancel' hle, ← hkeys] at hscan
    simp only [PoolCaches.bootstrap, hgenesis, ne_eq, not_true_eq_false, if_false, hlimit, hscan, htake]
  · have hscan := scanBootstrap_spec (B := B) hknown.reads (s := 0) (k := min 199 i) (by omega)
    rw [drop_eq_nil_of_le (length_take_le 1 _), show bootstrapKeys B [] = ∅ from rfl,
      Nat.zero_add, Nat.zero_add] at hscan
    simp only [PoolCaches.bootstrap, ne_eq, hgenesis, not_false_eq_true, if_true, hlimit,
      Nat.zero_add, Nat.sub_zero, hscan, htake]

theorem Good.mono (hc : c.Good E N B calls) (call : PoolCall) : c.Good E N B (calls ++ [call]) := by
  refine ⟨hc.registrations, fun hash pool h ↦ ?_, hc.bootstrap.imp_right ?_⟩
  · obtain ⟨a, ha, h⟩ := hc.pools hash pool h
    exact ⟨a, mem_append_left _ ha, h⟩
  · rintro ⟨a, ha, h⟩
    exact ⟨a, mem_append_left _ ha, h⟩

include hc hknown in
theorem Good.scanRegistrations (h : call.pindexTip = some pindexTip) {i : ℕ}
    (hget : call.chainActive[i]? = some pindexTip) :
    (c.scanRegistrations E N call).2 = registeredOn E N B call.ancestors call.coinsView.getCoin
        (regPeriod E N pindexTip.nHeight)
        (window call.ancestors pindexTip.nHeight (regPeriod E N pindexTip.nHeight))
        (startKeys E N call.coinsView.getCoin call.masternodes pindexTip.nHeight, ∅) ∧
      RegistrationsSound E N B (c.scanRegistrations E N call).1 := by
  have hpindexes : ∀ p ∈ window call.chainActive pindexTip.nHeight (regPeriod E N pindexTip.nHeight),
      p.nHeight ≤ pindexTip.nHeight ∧ readBlockFromDisk E call.files p = some (B p.hash) := by
    intro p hmem
    obtain ⟨hchain, j, hj, hle⟩ := PoolCall.mem_window hmem
    exact ⟨call.nHeight_of_getElem? hj ▸ hle, hknown.reads p hchain⟩
  rw [PoolCaches.scanRegistrations, h, PoolCall.window_ancestors h hget]
  exact scanWindow_spec h hget hpindexes hc.registrations _

include hc hfollows hknown in
theorem Good.computePool : (c.computePool E N call).1 =
        poolOn E N B call.ancestors call.coinsView.getCoin call.masternodes ∧
      (c.computePool E N call).2.Good E N B (calls ++ [call]) ∧
      (c.computePool E N call).2.cachedPoolStateGen = c.cachedPoolStateGen := by
  obtain ⟨pindexTip, i, hp, hget⟩ := call.exists_pindexTip
  obtain ⟨hkeys, hcache⟩ := hc.scanRegistrations hknown hp hget
  have hbelow : belowBootstrapLimit N call = decide (pindexTip.nHeight < N.nAdamBootstrapLimit) := by
    rw [belowBootstrapLimit, hp]
    rfl
  have hc' : Good E N B calls { c with mapBlockRegCache := (c.scanRegistrations E N call).1 } :=
    ⟨hcache, hc.pools, hc.bootstrap⟩
  simp only [PoolCaches.computePool, poolOn, PoolCall.getLast?_ancestors hp hget, Option.elim_some,
    hkeys, hbelow]
  split
  · rename_i hcond
    rw [← hbelow, Bool.and_eq_true] at hcond
    obtain ⟨n, hlen, hscan⟩ := hc'.bootstrapScan hfollows hknown hcond.2
    rw [hscan]
    exact ⟨rfl, ⟨hcache, (hc.mono call).pools, Or.inr ⟨call, by simp, hcond.2, rfl, hlen.symm, rfl⟩⟩, rfl⟩
  · exact ⟨rfl, hc'.mono call, rfl⟩

include hfollows hknown in
theorem poolOn_eq_of_follows {a : PoolCall} (ha : a ∈ calls) (haknown : a.Known E B A)
    (hause : a.fUsePoolCache = true) (huse : call.fUsePoolCache = true)
    (hgen : a.nMasternodePingStateGen = call.nMasternodePingStateGen)
    (h : call.pindexTip = some pindexTip)
    (hahash : a.pindexTip.map (·.hash) = some pindexTip.hash) :
    poolOn E N B a.ancestors a.coinsView.getCoin a.masternodes =
      poolOn E N B call.ancestors call.coinsView.getCoin call.masternodes := by
  obtain ⟨q, hq, hqhash⟩ := Option.map_eq_some_iff.1 hahash
  have hancestors : a.ancestors = call.ancestors := by
    rw [haknown.ancestors_eq q hq, hqhash, hknown.ancestors_eq pindexTip h]
  obtain ⟨hcoins, hmasternodes⟩ := (hfollows a ha).pool hause huse hgen (by rw [hahash, h]; rfl)
  rw [hancestors, hcoins, hmasternodes]

include hc hfollows hknown in
/-- **One call.** It returns the pool of the chain, and leaves good caches behind. -/
theorem Good.step (hcalls : ∀ a ∈ calls, a.Known E B A) : (c.getAdamMinerPool E N call).1 =
        poolOn E N B call.ancestors call.coinsView.getCoin call.masternodes ∧
      (c.getAdamMinerPool E N call).2.Good E N B (calls ++ [call]) := by
  obtain ⟨pindexTip, i, hp, hget⟩ := call.exists_pindexTip
  have hc₁ := hc.refresh call
  have hgen : (c.refresh call).cachedPoolStateGen = call.nMasternodePingStateGen :=
    cachedPoolStateGen_refresh call
  rw [getAdamMinerPool]
  split
  · -- the pool of the block is cached
    rename_i pool hcached
    obtain ⟨p, hfilter, hpool⟩ := Option.bind_eq_some_iff.1 hcached
    obtain ⟨hp', huse⟩ := Option.filter_eq_some_iff.1 hfilter
    obtain ⟨a, ha, hause, hagen, hahash, rfl⟩ := hc₁.pools _ _ hpool
    exact ⟨poolOn_eq_of_follows hfollows hknown ha (hcalls a ha) hause huse (hagen.trans hgen) hp'
      hahash, hc₁.mono call⟩
  · obtain ⟨hpool, hgood, hgen'⟩ := hc₁.computePool hfollows hknown
    simp only [hp]
    split
    · rename_i hstore
      rw [Bool.and_eq_true] at hstore
      refine ⟨hpool, hgood.registrations, fun hash pool h ↦ ?_, hgood.bootstrap⟩
      simp only [Std.ExtTreeMap.getElem?_insert, Std.LawfulEqOrd.compare_eq_iff_eq] at h
      split_ifs at h with heq
      · exact ⟨call, by simp, hstore.1, (hgen'.trans hgen).symm, by rw [hp, ← heq]; rfl,
          (Option.some.inj h).symm.trans hpool⟩
      · exact hgood.pools hash pool h
    · exact ⟨hpool, hgood⟩

end Step

theorem good_run (hcalls : ∀ a ∈ calls, a.Known E B A)
    (hfollows : calls.Pairwise (PoolCall.Follows N)) : (run E N calls).Good E N B calls := by
  induction calls using List.reverseRecOn with
  | nil => exact .empty
  | append_singleton calls call ih =>
    rw [pairwise_append] at hfollows
    have hknown (a : PoolCall) (ha : a ∈ calls) : a.Known E B A :=
      hcalls a (mem_append_left _ ha)
    have hgood := ih hknown hfollows.1
    rw [run, foldl_append]
    exact (hgood.step (fun a ha ↦ hfollows.2.2 a ha call (by simp)) (hcalls call (by simp)) hknown).2

end PoolCaches

theorem getAdamMinerPool_eq_poolOn {calls : List PoolCall} (hcalls : ∀ a ∈ calls ++ [call], a.Known E B A)
    (hfollows : (calls ++ [call]).Pairwise (PoolCall.Follows N)) :
    ((PoolCaches.run E N calls).getAdamMinerPool E N call).1 =
      poolOn E N B call.ancestors call.coinsView.getCoin call.masternodes := by
  rw [pairwise_append] at hfollows
  have hknown (a : PoolCall) (ha : a ∈ calls) : a.Known E B A := hcalls a (mem_append_left _ ha)
  exact ((PoolCaches.good_run hknown hfollows.1).step
    (fun a ha ↦ hfollows.2.2 a ha call (by simp)) (hcalls call (by simp)) hknown).1

/-- **The miner pool is a function of the chain** for histories that do not go back: two of them that
end with a call for the same block, with the same coins and masternodes, end with the same list. -/
theorem minerPool_unique {calls calls' : List PoolCall} {call' : PoolCall}
    (hcalls : ∀ a ∈ calls ++ [call], a.Known E B A)
    (hfollows : (calls ++ [call]).Pairwise (PoolCall.Follows N))
    (hcalls' : ∀ a ∈ calls' ++ [call'], a.Known E B A)
    (hfollows' : (calls' ++ [call']).Pairwise (PoolCall.Follows N))
    (hchain : call.ancestors = call'.ancestors)
    (hcoins : call.coinsView.getCoin = call'.coinsView.getCoin)
    (hmasternodes : call.masternodes = call'.masternodes) :
    ((PoolCaches.run E N calls).getAdamMinerPool E N call).1 =
      ((PoolCaches.run E N calls').getAdamMinerPool E N call').1 := by
  rw [getAdamMinerPool_eq_poolOn hcalls hfollows, getAdamMinerPool_eq_poolOn hcalls' hfollows', hchain,
    hcoins, hmasternodes]

end

/-! ### Two histories with different pools -/

section Example

def mainPoolParams : PoolParams := ⟨.MAIN, 44850, 2 ^ 228 - 1, []⟩

/-- A block of version 7 that pays to the key with this last byte. -/
def minedBlock (hashPrevBlock : Uint256) (n : UInt8) : CBlock where
  nVersion := 7
  hashPrevBlock := hashPrevBlock
  hashMerkleRoot := 0
  nTime := 0
  nBits := 0
  nNonce := 0
  vtx := [{ nVersion := 1, vin := [⟨.null, [1, n], sequenceFinal⟩],
            vout := [⟨0, 33 :: 2 :: List.replicate 31 7 ++ [n, Opcode.OP_CHECKSIG.toByte]⟩],
            nLockTime := 0 }]

def mined₀ : CBlock := minedBlock 0 0

def mined₁ : CBlock := minedBlock (mined₀.getHash default) 1

def mined₂ : CBlock := minedBlock (mined₁.getHash default) 2

def mined : List CBlock := [mined₀, mined₁, mined₂]

def minedChain : List CBlockIndex :=
  mined.zipIdx.map fun p ↦ ⟨p.1.getHash default, p.1.hashPrevBlock, p.2, 0⟩

def minedFiles : BlockFiles := fun hash ↦ mined.find? fun block ↦ block.getHash default == hash

def minedKey (n : UInt8) : CPubKey := CPubKey.set (2 :: List.replicate 31 7 ++ [n])

/-- The pool of the block of a height is asked for, at the tip of height 2. -/
def minedCall (nHeight : ℤ) : PoolCall where
  chainActive := minedChain
  mapBlockIndex := fun hash ↦ minedChain.find? fun p ↦ p.hash == hash
  files := minedFiles
  ne_nil := by decide
  nHeight_eq := by decide
  indexed := by decide +kernel
  masternodes := ⟨.empty, .empty, ∅⟩
  nMasternodePingStateGen := 1
  pcoinsTip := ⟨fun _ ↦ none, (mined₂.getHash default)⟩
  nHeight := nHeight
  pView := none

def minedUpTo (hash : Uint256) : List CBlockIndex :=
  minedChain.takeWhile (·.hash != hash) ++ minedChain.filter (·.hash == hash)

theorem known_minedCall {nHeight : ℤ} (h : nHeight = 1 ∨ nHeight = 2) :
    (minedCall nHeight).Known default (fun hash ↦ (minedFiles hash).getD mined₀) minedUpTo := by
  rcases h with rfl | rfl
  · exact ⟨by decide +kernel, by decide +kernel⟩
  · exact ⟨by decide +kernel, by decide +kernel⟩

theorem follows_minedCall : (minedCall 1).Follows mainPoolParams (minedCall 2) :=
  ⟨fun _ _ _ ↦ by decide +kernel, fun _ _ _ _ ↦ ⟨rfl, rfl⟩⟩

/-- The pool of height 2 is the same whether that of height 1 was asked for before or not. -/
theorem minerPool_unique_minedCall :
    ((PoolCaches.run default mainPoolParams [minedCall 1]).getAdamMinerPool default mainPoolParams
        (minedCall 2)).1 =
      ((PoolCaches.run default mainPoolParams []).getAdamMinerPool default mainPoolParams
        (minedCall 2)).1 := by
  have h₁ := known_minedCall (Or.inl rfl : (1 : ℤ) = 1 ∨ (1 : ℤ) = 2)
  have h₂ := known_minedCall (Or.inr rfl : (2 : ℤ) = 1 ∨ (2 : ℤ) = 2)
  exact minerPool_unique (forall_mem_cons.2 ⟨h₁, forall_mem_singleton.2 h₂⟩)
    (pairwise_pair.2 follows_minedCall) (forall_mem_singleton.2 h₂)
    (pairwise_singleton _ _) rfl rfl rfl

/-- **The pool depends on the calls before.** The pool of height 1 is the key of the first block; but
it is the keys of two blocks if the pool of height 2 was asked for before. -/
theorem minerPool_depends_on_history :
    ((PoolCaches.run default mainPoolParams []).getAdamMinerPool default mainPoolParams
        (minedCall 1)).1 = [minedKey 1] ∧
      ((PoolCaches.run default mainPoolParams [minedCall 2]).getAdamMinerPool default mainPoolParams
        (minedCall 1)).1 = [minedKey 1, minedKey 2] := by
  decide +kernel

end Example

end KristaTech.Adam
