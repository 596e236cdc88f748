import KristaTech.Adam.Seed
import KristaTech.Validation.State

/-!
# The caches of the seed

`GetAdamSeed` of `adam.cpp`: the seed that a block leaves for the next election is the fold of
`ComputeNextAdamSeed` over the proofs of the blocks since the last one before ADAM. The function goes
back to the nearest block whose seed is in `mapAdamSeeds`, and forward again with the proofs it reads
from the disk or, failing that, finds among those of recent headers (`mapRecentVRFProofs`).

The caches are written by `GetAdamSeed` itself, by `ConnectBlock`, `CheckBlock` and
`ContextualCheckBlockHeader`, and nothing is taken back when a block is disconnected. What they hold
under a hash is right because the hash covers the proof (`vAdamVRFProof_eq_of_getHash_eq`), with one
exception: a `GetAdamSeed` that fails returns the null seed, and `ConnectBlock` goes on with it. So
the seed is a function of the chain if the data of the ancestors can be read whenever a block is
connected (`getAdamSeed_eq_chainSeed`), and is not otherwise (`getAdamSeed_after_failed_read`).
-/

namespace KristaTech

open List Reader

/-! ### What the hash of a header covers -/

namespace CBlockHeader

/-- What unserializing a header can give. -/
structure Unserialized (h : CBlockHeader) : Prop where
  nVersion : -2 ^ 31 ≤ h.nVersion ∧ h.nVersion < 2 ^ 31
  vAdamMiners : h.vAdamMiners.length ≤ Reader.maxSize
  vAdamSolutions : h.vAdamSolutions.length ≤ Reader.maxSize
  solutions : ∀ solution ∈ h.vAdamSolutions, solution.length ≤ Reader.maxSize
  vAdamVRFProof : h.vAdamVRFProof.length ≤ Reader.maxSize
  noProof : h.nVersion < 11 → h.vAdamVRFProof = []

/-- The proof in the serialization of a header of version 11 or later. -/
def readVRFProof : Reader Bytes := do
  let _ ← Reader.readBytes 80
  let _ ← Reader.readVector Reader.readByteVector
  let _ ← Reader.readVector Reader.readByteVector
  Reader.readByteVector

theorem length_bytes_le (k : CPubKey) : k.bytes.length ≤ Reader.maxSize := by
  have hlen (b : UInt8) : CPubKey.getLen b ≤ 65 := by
    simp only [CPubKey.getLen, CPubKey.compressedPublicKeySize, CPubKey.publicKeySize]
    split_ifs <;> omega
  have hsize : k.size ≤ 65 := by
    rw [CPubKey.size]
    cases k.vch.head? with
    | none => exact Nat.zero_le _
    | some b => exact hlen b
  have htake : k.bytes.length ≤ k.size := length_take_le _ _
  have hmax : Reader.maxSize = 0x02000000 := rfl
  omega

variable {h : CBlockHeader}

theorem readVRFProof_serializeForHash (hu : h.Unserialized) (hversion : 11 ≤ h.nVersion) :
    readVRFProof h.serializeForHash = some (h.vAdamVRFProof, []) := by
  have hfixed : (Writer.int 4 h.nVersion ++ h.hashPrevBlock.toBytes ++ h.hashMerkleRoot.toBytes ++
      Reader.natToLE 4 h.nTime.toNat ++ Reader.natToLE 4 h.nBits.toNat ++
      Reader.natToLE 4 h.nNonce.toNat).length = 80 := by
    simp [Writer.int, Uint256.toBytes]
  have hminers : Writer.vector Writer.pubKey h.vAdamMiners =
      Writer.vector Writer.byteVector (h.vAdamMiners.map CPubKey.bytes) := by
    simp only [Writer.vector, length_map, flatMap_map]
    rfl
  have hread (bs : List Bytes) (hbs : ∀ b ∈ bs, b.length ≤ Reader.maxSize) :
      ∀ b ∈ bs, ∀ rest, Reader.readByteVector (Writer.byteVector b ++ rest) = some (b, rest) :=
    fun b hb rest ↦ readByteVector_append (hbs b hb) rest
  have hkeys : ∀ b ∈ h.vAdamMiners.map CPubKey.bytes, b.length ≤ Reader.maxSize := by
    intro b hb
    obtain ⟨k, -, rfl⟩ := mem_map.1 hb
    exact length_bytes_le k
  rw [serializeForHash, if_neg (by omega), if_pos hversion, append_nil, hminers, readVRFProof,
    bind_of_eq_some (readBytes_append hfixed _), append_assoc,
    bind_of_eq_some (readVector_append (hread _ hkeys) (by rw [length_map]; exact hu.vAdamMiners) _),
    bind_of_eq_some (readVector_append (hread _ hu.solutions) hu.vAdamSolutions _)]
  simpa using readByteVector_append hu.vAdamVRFProof []

theorem take_serializeForHash (h : CBlockHeader) : h.serializeForHash.take 4 = Writer.int 4 h.nVersion := by
  have hlen : (Writer.int 4 h.nVersion).length = 4 := length_natToLE _ _
  simp only [serializeForHash, append_assoc]
  exact take_left' hlen

theorem vAdamVRFProof_eq_of_serializeForHash_eq {h' : CBlockHeader} (hu : h.Unserialized)
    (hu' : h'.Unserialized) (heq : h.serializeForHash = h'.serializeForHash) :
    h.vAdamVRFProof = h'.vAdamVRFProof := by
  have hversion : h.nVersion = h'.nVersion := Writer.int_four_inj hu.nVersion hu'.nVersion (by
    rw [← take_serializeForHash, ← take_serializeForHash, heq])
  by_cases h11 : 11 ≤ h.nVersion
  · have hread := readVRFProof_serializeForHash hu h11
    rw [heq, readVRFProof_serializeForHash hu' (hversion ▸ h11)] at hread
    exact (Prod.mk.inj (Option.some.inj hread)).1.symm
  · rw [hu.noProof (by omega), hu'.noProof (by omega)]

/-- Headers among which the hash has no collision. -/
structure CollisionFree (C : Crypto) (H : Set CBlockHeader) : Prop where
  unserialized : ∀ h ∈ H, h.Unserialized
  serializeForHash_eq : ∀ h ∈ H, ∀ h' ∈ H, h.getHash C = h'.getHash C →
    h.serializeForHash = h'.serializeForHash

theorem CollisionFree.vAdamVRFProof_eq_of_getHash_eq {C : Crypto} {H : Set CBlockHeader}
    (hH : CollisionFree C H) {h' : CBlockHeader} (hh : h ∈ H) (hh' : h' ∈ H)
    (heq : h.getHash C = h'.getHash C) : h.vAdamVRFProof = h'.vAdamVRFProof :=
  vAdamVRFProof_eq_of_serializeForHash_eq (hH.unserialized h hh) (hH.unserialized h' hh')
    (hH.serializeForHash_eq h hh h' hh' heq)

end CBlockHeader

namespace Adam

/-! ### Reading and writing the caches -/

structure SeedCaches where
  mapAdamSeeds : Std.ExtTreeMap Uint256 Uint256 := ∅
  mapRecentVRFProofs : Std.ExtTreeMap Uint256 Bytes := ∅

/-- What is stored for the block with a hash, if its data is there and the file can be read. -/
abbrev BlockFiles := Uint256 → Option CBlock

variable (E : ValidationEnv)

/-- `ReadBlockFromDisk`. -/
def readBlockFromDisk (files : BlockFiles) (pindex : CBlockIndex) : Option CBlock :=
  (files pindex.hash).filter fun block ↦
    (block.isProofOfStake || 11 ≤ block.nVersion ||
      E.checkProofOfWork (block.getHash E.crypto) block.nBits) &&
    block.getHash E.crypto == pindex.hash

namespace SeedCaches

variable (c : SeedCaches)

/-- The walk back along `pprev`, to a block before ADAM or one whose seed is cached: that seed, and
the blocks after it in the order of the chain. -/
def walkBack : List CBlockIndex → Option (Uint256 × List CBlockIndex)
  | [] => none
  | curr :: pprev =>
    if !E.consensus.isAdamActive curr.nHeight then some (curr.hash, [])
    else
      match c.mapAdamSeeds[curr.hash]? with
      | some seed => some (seed, [])
      | none => (walkBack pprev).map fun r ↦ (r.1, r.2 ++ [curr])

/-- The proof of a block, from the disk or from its header. -/
def findVRFProof (files : BlockFiles) (pindex : CBlockIndex) : Option Bytes :=
  match readBlockFromDisk E files pindex with
  | some block => some block.vAdamVRFProof
  | none => c.mapRecentVRFProofs[pindex.hash]?

/-- The way forward: each seed is cached, until a proof is missing. -/
def rollForward (files : BlockFiles) : SeedCaches → Uint256 → List CBlockIndex → Option Uint256 × SeedCaches
  | c, seed, [] => (some seed, c)
  | c, seed, curr :: path =>
    match c.findVRFProof E files curr with
    | none => (none, c)
    | some proof =>
      let seed := computeNextAdamSeed E.crypto seed proof
      rollForward files { c with mapAdamSeeds := c.mapAdamSeeds.insert curr.hash seed } seed path

/-- `GetAdamSeed` of a block, given with the blocks that `pprev` leads to; null if it fails. -/
def getAdamSeed (files : BlockFiles) (pindex : List CBlockIndex) : Uint256 × SeedCaches :=
  match c.walkBack E pindex with
  | none => (0, c)
  | some (seed, path) =>
    let r := rollForward E files c seed path
    (r.1.getD 0, r.2)

def forget (hash : Option Uint256) : SeedCaches :=
  match hash with
  | none => c
  | some hash => { c with mapRecentVRFProofs := c.mapRecentVRFProofs.erase hash }

def remember (hash : Uint256) (vAdamVRFProof : Bytes) : SeedCaches :=
  { c with mapRecentVRFProofs := c.mapRecentVRFProofs.insert hash vAdamVRFProof }

/-- The end of `CheckBlock`, when it checks signatures. -/
def noteBlock (block : CBlockHeader) : SeedCaches :=
  if 11 ≤ block.nVersion ∧ !block.vAdamVRFProof.isEmpty ∧ block.vAdamVRFProof.length ≤ 512 then
    let c := if 500 ≤ c.mapRecentVRFProofs.size then
      c.forget (c.mapRecentVRFProofs.keys.head?) else c
    c.remember (block.getHash E.crypto) block.vAdamVRFProof
  else c

/-- The end of `ContextualCheckBlockHeader`; the proof of the tip is not dropped if there is
another. -/
def noteHeader (block : CBlockHeader) (nHeight : ℤ) (tip : Option Uint256) : SeedCaches :=
  if 11 ≤ block.nVersion ∧ 1550 ≤ nHeight ∧ !E.consensus.isRegTestNet ∧
      block.vAdamVRFProof.length ≤ 512 then
    let hash := block.getHash E.crypto
    let c :=
      if 500 ≤ c.mapRecentVRFProofs.size ∧ !c.mapRecentVRFProofs.contains hash then
        match c.mapRecentVRFProofs.keys with
        | first :: second :: _ => c.forget (some (if tip = some first then second else first))
        | keys => c.forget keys.head?
      else c
    c.remember hash block.vAdamVRFProof
  else c

/-- The end of `ConnectBlock`: the seed of the block itself. -/
def noteConnected (files : BlockFiles) (pprev : List CBlockIndex) (pindex : CBlockIndex)
    (block : CBlockHeader) : SeedCaches :=
  if 11 ≤ block.nVersion then
    let r := c.getAdamSeed E files pprev
    { r.2 with
      mapAdamSeeds := r.2.mapAdamSeeds.insert pindex.hash
        (computeNextAdamSeed E.crypto r.1 block.vAdamVRFProof) }
  else c

end SeedCaches

/-- What happens to the caches. A block is given with the blocks that `pprev` leads to. -/
inductive SeedEvent
  | checkBlock (block : CBlockHeader)
  | contextualCheckBlockHeader (block : CBlockHeader) (nHeight : ℤ) (tip : Option Uint256)
  | getAdamSeed (files : BlockFiles) (pindex : List CBlockIndex)
  | connectBlock (files : BlockFiles) (pindex : CBlockIndex) (pprev : List CBlockIndex)
      (block : CBlockHeader)
  | disconnectBlock (block : CBlockHeader)

/-- One event; disconnecting a block leaves the caches alone. -/
def SeedCaches.step (c : SeedCaches) : SeedEvent → SeedCaches
  | .checkBlock block => c.noteBlock E block
  | .contextualCheckBlockHeader block nHeight tip => c.noteHeader E block nHeight tip
  | .getAdamSeed files pindex => (c.getAdamSeed E files pindex).2
  | .connectBlock files pindex pprev block => c.noteConnected E files pprev pindex block
  | .disconnectBlock _ => c

def SeedCaches.run (history : List SeedEvent) : SeedCaches := history.foldl (SeedCaches.step E) {}

/-! ### The seed of a chain -/

/-- A block of the index with all its ancestors, the genesis block last. -/
inductive Ancestry (mapBlockIndex : Uint256 → Option CBlockIndex) : List CBlockIndex → Prop
  | genesis {pindex} : mapBlockIndex pindex.hash = some pindex →
    mapBlockIndex pindex.hashPrev = none → Ancestry mapBlockIndex [pindex]
  | cons {pindex pprev path} : mapBlockIndex pindex.hash = some pindex →
    pindex.hashPrev = pprev.hash → Ancestry mapBlockIndex (pprev :: path) →
    Ancestry mapBlockIndex (pindex :: pprev :: path)

/-- The blocks with ADAM at the end of the chain, last block first. -/
def adamBlocks (pindex : List CBlockIndex) : List CBlockIndex :=
  pindex.takeWhile fun p ↦ E.consensus.isAdamActive p.nHeight

def lastBeforeAdam (pindex : List CBlockIndex) : Option CBlockIndex :=
  (pindex.dropWhile fun p ↦ E.consensus.isAdamActive p.nHeight).head?

/-- The data of the ancestors can be read, back to the last one before ADAM. -/
def DataReadable (files : BlockFiles) (pindex : List CBlockIndex) : Prop :=
  (lastBeforeAdam E pindex).isSome ∧ ∀ p ∈ adamBlocks E pindex, (readBlockFromDisk E files p).isSome

/-- The left fold of `ComputeNextAdamSeed` over the proofs, from the last ancestor before ADAM on. -/
def chainSeed (files : BlockFiles) (pindex : List CBlockIndex) : Uint256 :=
  let proofs := (adamBlocks E pindex).reverse.map fun p ↦
    (readBlockFromDisk E files p).elim [] (·.vAdamVRFProof)
  proofs.foldl (computeNextAdamSeed E.crypto) ((lastBeforeAdam E pindex).elim 0 (·.hash))

/-- The files hold blocks whose headers are in `H`. -/
def BlockFiles.Within (files : BlockFiles) (H : Set CBlockHeader) : Prop :=
  ∀ hash block, files hash = some block → block.toCBlockHeader ∈ H

/-- The seed of a chain, by the proofs of the headers in `H`. -/
inductive SeedOf (H : Set CBlockHeader) : List CBlockIndex → Uint256 → Prop
  | base {pindex path} : E.consensus.isAdamActive pindex.nHeight = false →
    SeedOf H (pindex :: path) pindex.hash
  | next {pindex path seed h} : E.consensus.isAdamActive pindex.nHeight = true → h ∈ H →
    h.getHash E.crypto = pindex.hash → SeedOf H path seed →
    SeedOf H (pindex :: path) (computeNextAdamSeed E.crypto seed h.vAdamVRFProof)

section

variable {E} {H : Set CBlockHeader} {mapBlockIndex : Uint256 → Option CBlockIndex}
  {p q : CBlockIndex} {path path' : List CBlockIndex} {files : BlockFiles} {c : SeedCaches}
  {seed seed' : Uint256}

theorem Ancestry.index (h : Ancestry mapBlockIndex (p :: path)) : mapBlockIndex p.hash = some p := by
  cases h with
  | genesis h _ => exact h
  | cons h _ _ => exact h

theorem Ancestry.tail (h : Ancestry mapBlockIndex (p :: q :: path)) :
    Ancestry mapBlockIndex (q :: path) := by
  cases h with
  | cons _ _ h => exact h

theorem Ancestry.suffix (h : Ancestry mapBlockIndex (path ++ path')) (hne : path' ≠ []) :
    Ancestry mapBlockIndex path' := by
  induction path with
  | nil => exact h
  | cons p path ih =>
    cases hrest : path ++ path' with
    | nil => exact absurd (append_eq_nil_iff.1 hrest).2 hne
    | cons q rest =>
      rw [cons_append, hrest] at h
      exact ih (hrest ▸ h.tail)

theorem Ancestry.unique (h : Ancestry mapBlockIndex (p :: path))
    (h' : Ancestry mapBlockIndex (q :: path')) (hhash : p.hash = q.hash) :
    p :: path = q :: path' := by
  induction path generalizing p q path' with
  | nil =>
    obtain rfl : p = q := Option.some.inj (h.index.symm.trans (hhash ▸ h'.index))
    cases h' with
    | genesis => rfl
    | cons _ hprev htail =>
      cases h with
      | genesis _ hnone => rw [hprev, htail.index] at hnone; cases hnone
  | cons r path ih =>
    obtain rfl : p = q := Option.some.inj (h.index.symm.trans (hhash ▸ h'.index))
    cases h with
    | cons _ hprev htail =>
      cases h' with
      | genesis _ hnone => rw [hprev, htail.index] at hnone; cases hnone
      | cons _ hprev' htail' => rw [ih htail htail' (hprev.symm.trans hprev')]

theorem SeedOf.unique (hH : CBlockHeader.CollisionFree E.crypto H) (h : SeedOf E H path seed)
    (h' : SeedOf E H path seed') : seed = seed' := by
  induction h generalizing seed' with
  | base hactive =>
    cases h' with
    | base => rfl
    | next hactive' => rw [hactive] at hactive'; cases hactive'
  | next hactive hmem hhash _ ih =>
    cases h' with
    | base hactive' => rw [hactive] at hactive'; cases hactive'
    | next _ hmem' hhash' hseed' =>
      rw [ih hseed', hH.vAdamVRFProof_eq_of_getHash_eq hmem hmem' (hhash.trans hhash'.symm)]

theorem getHash_of_readBlockFromDisk {block : CBlock} (h : readBlockFromDisk E files p = some block) :
    files p.hash = some block ∧ block.getHash E.crypto = p.hash := by
  obtain ⟨hfile, hcheck⟩ := Option.filter_eq_some_iff.1 h
  rw [Bool.and_eq_true, beq_iff_eq] at hcheck
  exact ⟨hfile, hcheck.2⟩

theorem seedOf_chainSeed (hfiles : files.Within H) (hdata : DataReadable E files path) :
    SeedOf E H path (chainSeed E files path) := by
  induction path with
  | nil => cases hdata.1
  | cons p path ih =>
    cases hactive : E.consensus.isAdamActive p.nHeight with
    | false =>
      have hseed : chainSeed E files (p :: path) = p.hash := by
        simp [chainSeed, adamBlocks, lastBeforeAdam, hactive]
      rw [hseed]
      exact .base hactive
    | true =>
      have hblocks : adamBlocks E (p :: path) = p :: adamBlocks E path := by
        simp [adamBlocks, hactive]
      have hlast : lastBeforeAdam E (p :: path) = lastBeforeAdam E path := by
        simp [lastBeforeAdam, hactive]
      rw [DataReadable, hblocks, hlast] at hdata
      obtain ⟨block, hblock⟩ := Option.isSome_iff_exists.1 (hdata.2 p mem_cons_self)
      have hseed : chainSeed E files (p :: path) =
          computeNextAdamSeed E.crypto (chainSeed E files path) block.vAdamVRFProof := by
        simp [chainSeed, hblocks, hlast, hblock]
      obtain ⟨hfile, hhash⟩ := getHash_of_readBlockFromDisk hblock
      rw [hseed]
      exact .next hactive (hfiles _ _ hfile) hhash
        (ih ⟨hdata.1, fun q hq ↦ hdata.2 q (mem_cons_of_mem p hq)⟩)

/-! ### What the caches hold -/

/-- The proofs are those of headers with the hash, and the seeds those of the blocks with the
hash. -/
structure SeedCaches.Sound (E : ValidationEnv) (H : Set CBlockHeader)
    (mapBlockIndex : Uint256 → Option CBlockIndex) (c : SeedCaches) : Prop where
  proofs : ∀ hash proof, c.mapRecentVRFProofs[hash]? = some proof →
    ∃ h ∈ H, h.getHash E.crypto = hash ∧ h.vAdamVRFProof = proof
  seeds : ∀ p path seed, Ancestry mapBlockIndex (p :: path) →
    E.consensus.isAdamActive p.nHeight = true → c.mapAdamSeeds[p.hash]? = some seed →
    SeedOf E H (p :: path) seed

namespace SeedCaches

theorem Sound.empty : Sound E H mapBlockIndex {} :=
  ⟨fun _ _ h ↦ by simp at h, fun _ _ _ _ _ h ↦ by simp at h⟩

theorem Sound.forget (hc : c.Sound E H mapBlockIndex) (hash : Option Uint256) :
    (c.forget hash).Sound E H mapBlockIndex := by
  cases hash with
  | none => exact hc
  | some hash =>
    refine ⟨fun hash' proof h ↦ hc.proofs hash' proof ?_, hc.seeds⟩
    simp only [SeedCaches.forget, Std.ExtTreeMap.getElem?_erase] at h
    split_ifs at h
    exact h

variable {h : CBlockHeader} {pending : List CBlockIndex}

theorem Sound.remember (hc : c.Sound E H mapBlockIndex) (hh : h ∈ H) :
    (c.remember (h.getHash E.crypto) h.vAdamVRFProof).Sound E H mapBlockIndex := by
  refine ⟨fun hash proof hget ↦ ?_, hc.seeds⟩
  simp only [SeedCaches.remember, Std.ExtTreeMap.getElem?_insert, Std.LawfulEqOrd.compare_eq_iff_eq] at hget
  split_ifs at hget with heq
  · exact ⟨h, hh, heq, Option.some.inj hget⟩
  · exact hc.proofs hash proof hget

theorem Sound.noteBlock (hc : c.Sound E H mapBlockIndex) (hh : h ∈ H) :
    (c.noteBlock E h).Sound E H mapBlockIndex := by
  rw [SeedCaches.noteBlock]
  split_ifs
  · exact (hc.forget _).remember hh
  · exact hc.remember hh
  · exact hc

theorem Sound.noteHeader (hc : c.Sound E H mapBlockIndex) (hh : h ∈ H) (nHeight : ℤ)
    (tip : Option Uint256) : (c.noteHeader E h nHeight tip).Sound E H mapBlockIndex := by
  simp only [SeedCaches.noteHeader]
  split
  · refine Sound.remember ?_ hh
    split
    · split
      · exact hc.forget _
      · exact hc.forget _
    · exact hc
  · exact hc

theorem Sound.insertSeed (hc : c.Sound E H mapBlockIndex) (hpath : Ancestry mapBlockIndex (p :: path))
    (hseed : E.consensus.isAdamActive p.nHeight = true → SeedOf E H (p :: path) seed) :
    Sound E H mapBlockIndex { c with mapAdamSeeds := c.mapAdamSeeds.insert p.hash seed } := by
  refine ⟨hc.proofs, fun q path' seed' hpath' hactive hget ↦ ?_⟩
  simp only [Std.ExtTreeMap.getElem?_insert, Std.LawfulEqOrd.compare_eq_iff_eq] at hget
  split_ifs at hget with heq
  · obtain ⟨rfl, rfl⟩ := List.cons.inj (hpath.unique hpath' heq)
    exact Option.some.inj hget ▸ hseed hactive
  · exact hc.seeds q path' seed' hpath' hactive hget

theorem Sound.walkBack (hc : c.Sound E H mapBlockIndex) (hpath : Ancestry mapBlockIndex path)
    (h : c.walkBack E path = some (seed, pending)) :
    ∃ done, path = pending.reverse ++ done ∧ done ≠ [] ∧ SeedOf E H done seed ∧
      ∀ p ∈ pending, E.consensus.isAdamActive p.nHeight = true := by
  induction path generalizing pending with
  | nil => cases h
  | cons p path ih =>
    rw [SeedCaches.walkBack] at h
    cases hactive : E.consensus.isAdamActive p.nHeight with
    | false =>
      simp only [hactive, Bool.not_false, if_true, Option.some.injEq, Prod.mk.injEq] at h
      obtain ⟨rfl, rfl⟩ := h
      exact ⟨p :: path, rfl, cons_ne_nil _ _, .base hactive, nofun⟩
    | true =>
      simp only [hactive, Bool.not_true, Bool.false_eq_true, if_false] at h
      split at h
      · rename_i seed' hget
        obtain ⟨rfl, rfl⟩ := Prod.mk.inj (Option.some.inj h)
        exact ⟨p :: path, rfl, cons_ne_nil _ _, hc.seeds p path seed' hpath hactive hget, nofun⟩
      · obtain ⟨⟨seed', pending'⟩, hwalk, heq⟩ := Option.map_eq_some_iff.1 h
        obtain ⟨rfl, rfl⟩ := Prod.mk.inj heq
        cases path with
        | nil => cases hwalk
        | cons q path =>
          obtain ⟨done, hsplit, hne, hseed, hall⟩ := ih hpath.tail hwalk
          refine ⟨done, by simp [hsplit], hne, hseed, fun r hr ↦ ?_⟩
          rcases mem_append.1 hr with hr | hr
          · exact hall r hr
          · exact mem_singleton.1 hr ▸ hactive

theorem Sound.findVRFProof (hc : c.Sound E H mapBlockIndex) (hfiles : files.Within H)
    {proof : Bytes} (h : c.findVRFProof E files p = some proof) :
    ∃ h ∈ H, h.getHash E.crypto = p.hash ∧ h.vAdamVRFProof = proof := by
  rw [SeedCaches.findVRFProof] at h
  split at h
  · rename_i block hblock
    obtain ⟨hfile, hhash⟩ := getHash_of_readBlockFromDisk hblock
    exact ⟨block.toCBlockHeader, hfiles _ _ hfile, hhash, Option.some.inj h⟩
  · exact hc.proofs _ _ h

theorem Sound.rollForward (hfiles : files.Within H) {done : List CBlockIndex}
    (hc : c.Sound E H mapBlockIndex) (hpath : Ancestry mapBlockIndex (pending.reverse ++ done))
    (hdone : done ≠ []) (hseed : SeedOf E H done seed)
    (hactive : ∀ p ∈ pending, E.consensus.isAdamActive p.nHeight = true) :
    (rollForward E files c seed pending).2.Sound E H mapBlockIndex ∧
      ∀ seed' ∈ (rollForward E files c seed pending).1, SeedOf E H (pending.reverse ++ done) seed' := by
  induction pending generalizing c seed done with
  | nil =>
    refine ⟨hc, fun seed' h ↦ ?_⟩
    obtain rfl : seed = seed' := Option.some.inj h
    exact hseed
  | cons p pending ih =>
    have hsplit : (p :: pending).reverse ++ done = pending.reverse ++ p :: done := by simp
    rw [hsplit] at hpath ⊢
    simp only [SeedCaches.rollForward]
    split
    · exact ⟨hc, nofun⟩
    · rename_i proof hproof
      obtain ⟨h, hh, hhash, rfl⟩ := hc.findVRFProof hfiles hproof
      have hp := hactive p mem_cons_self
      have hnext : SeedOf E H (p :: done) _ := .next hp hh hhash hseed
      exact ih (hc.insertSeed (hpath.suffix (cons_ne_nil _ _)) fun _ ↦ hnext) hpath
        (cons_ne_nil _ _) hnext fun q hq ↦ hactive q (mem_cons_of_mem p hq)

theorem isSome_rollForward (c : SeedCaches) (seed : Uint256)
    (hread : ∀ p ∈ pending, (readBlockFromDisk E files p).isSome) :
    (SeedCaches.rollForward E files c seed pending).1.isSome := by
  induction pending generalizing c seed with
  | nil => rfl
  | cons p pending ih =>
    obtain ⟨block, hblock⟩ := Option.isSome_iff_exists.1 (hread p mem_cons_self)
    simp only [SeedCaches.rollForward, SeedCaches.findVRFProof, hblock]
    exact ih _ _ fun q hq ↦ hread q (mem_cons_of_mem p hq)

theorem isSome_walkBack (h : (lastBeforeAdam E path).isSome) : (c.walkBack E path).isSome := by
  induction path with
  | nil => cases h
  | cons p path ih =>
    rw [SeedCaches.walkBack]
    cases hactive : E.consensus.isAdamActive p.nHeight with
    | false => simp
    | true =>
      have hlast : lastBeforeAdam E (p :: path) = lastBeforeAdam E path := by
        simp [lastBeforeAdam, hactive]
      have hrec := ih (hlast ▸ h)
      cases c.mapAdamSeeds[p.hash]? with
      | some seed => simp
      | none => simpa using hrec

theorem Sound.getAdamSeed (hfiles : files.Within H) (hc : c.Sound E H mapBlockIndex)
    (hpath : Ancestry mapBlockIndex path) :
    (c.getAdamSeed E files path).2.Sound E H mapBlockIndex := by
  rw [SeedCaches.getAdamSeed]
  split
  · exact hc
  · rename_i seed pending hwalk
    obtain ⟨done, hsplit, hne, hseed, hactive⟩ := hc.walkBack hpath hwalk
    exact (rollForward hfiles hc (hsplit ▸ hpath) hne hseed hactive).1

theorem Sound.seedOf_getAdamSeed (hfiles : files.Within H) (hc : c.Sound E H mapBlockIndex)
    (hpath : Ancestry mapBlockIndex path) (hdata : DataReadable E files path) :
    SeedOf E H path (c.getAdamSeed E files path).1 := by
  obtain ⟨⟨seed, pending⟩, hwalk⟩ :=
    Option.isSome_iff_exists.1 (isSome_walkBack (c := c) hdata.1)
  obtain ⟨done, hsplit, hne, hseed, hactive⟩ := hc.walkBack hpath hwalk
  have hread : ∀ p ∈ pending, (readBlockFromDisk E files p).isSome := by
    intro p hp
    refine hdata.2 p ?_
    rw [adamBlocks, hsplit, takeWhile_append_of_pos fun q hq ↦
      hactive q (mem_reverse.1 hq)]
    exact mem_append_left _ (mem_reverse.2 hp)
  obtain ⟨seed', hroll⟩ := Option.isSome_iff_exists.1 (isSome_rollForward c seed hread)
  have hseed' := (rollForward hfiles hc (hsplit ▸ hpath) hne hseed hactive).2 seed' hroll
  have hget : (c.getAdamSeed E files path).1 = seed' := by
    simp [SeedCaches.getAdamSeed, hwalk, hroll]
  rw [hget, hsplit]
  exact hseed'

theorem Sound.noteConnected (hfiles : files.Within H) (hc : c.Sound E H mapBlockIndex)
    (hpath : Ancestry mapBlockIndex (p :: path)) (hh : h ∈ H) (hhash : h.getHash E.crypto = p.hash)
    (hdata : 11 ≤ h.nVersion → E.consensus.isAdamActive p.nHeight = true →
      DataReadable E files path) : (c.noteConnected E files path p h).Sound E H mapBlockIndex := by
  rw [SeedCaches.noteConnected]
  split
  · rename_i hversion
    have hprev : (c.getAdamSeed E files path).2.Sound E H mapBlockIndex := by
      cases path with
      | nil => exact hc
      | cons q path => exact hc.getAdamSeed hfiles hpath.tail
    refine hprev.insertSeed hpath fun hactive ↦ .next hactive hh hhash ?_
    have hread := hdata hversion hactive
    cases path with
    | nil => cases hread.1
    | cons q path => exact hc.seedOf_getAdamSeed hfiles hpath.tail hread
  · exact hc

end SeedCaches

/-! ### Histories -/

/-- An event is about headers in `H` and blocks of the index. -/
def SeedEvent.Within (E : ValidationEnv) (H : Set CBlockHeader)
    (mapBlockIndex : Uint256 → Option CBlockIndex) : SeedEvent → Prop
  | .checkBlock block => block ∈ H
  | .contextualCheckBlockHeader block _ _ => block ∈ H
  | .getAdamSeed files pindex => files.Within H ∧ Ancestry mapBlockIndex pindex
  | .connectBlock files pindex pprev block => files.Within H ∧
      Ancestry mapBlockIndex (pindex :: pprev) ∧ block ∈ H ∧ block.getHash E.crypto = pindex.hash
  | .disconnectBlock _ => True

/-- When a block with ADAM is connected, the data of its ancestors can be read. -/
def SeedEvent.ParentReadable (E : ValidationEnv) : SeedEvent → Prop
  | .connectBlock files pindex pprev _ =>
      E.consensus.isAdamActive pindex.nHeight = true → DataReadable E files pprev
  | _ => True

theorem SeedCaches.Sound.step {e : SeedEvent} (hc : c.Sound E H mapBlockIndex)
    (he : e.Within E H mapBlockIndex) (hread : e.ParentReadable E) :
    (c.step E e).Sound E H mapBlockIndex := by
  cases e with
  | checkBlock block => exact hc.noteBlock he
  | contextualCheckBlockHeader block nHeight tip => exact hc.noteHeader he nHeight tip
  | getAdamSeed files pindex => exact hc.getAdamSeed he.1 he.2
  | connectBlock files pindex pprev block =>
    exact hc.noteConnected he.1 he.2.1 he.2.2.1 he.2.2.2 fun _ hactive ↦ hread hactive
  | disconnectBlock block => exact hc

theorem SeedCaches.sound_run {history : List SeedEvent}
    (hwithin : ∀ e ∈ history, e.Within E H mapBlockIndex)
    (hread : ∀ e ∈ history, e.ParentReadable E) :
    (SeedCaches.run E history).Sound E H mapBlockIndex := by
  suffices hfold : ∀ c : SeedCaches, c.Sound E H mapBlockIndex →
      (history.foldl (SeedCaches.step E) c).Sound E H mapBlockIndex from hfold {} .empty
  induction history with
  | nil => exact fun c hc ↦ hc
  | cons e history ih =>
    intro c hc
    exact ih (fun e' he' ↦ hwithin e' (mem_cons_of_mem e he'))
      (fun e' he' ↦ hread e' (mem_cons_of_mem e he'))
      _ (hc.step (hwithin e mem_cons_self) (hread e mem_cons_self))

/-- **The seed is a function of the chain.** After any history in which the data of the ancestors
could be read whenever a block with ADAM was connected, `GetAdamSeed` is the fold of
`ComputeNextAdamSeed` over the proofs of the chain. -/
theorem getAdamSeed_eq_chainSeed (hH : CBlockHeader.CollisionFree E.crypto H)
    {history : List SeedEvent} (hwithin : ∀ e ∈ history, e.Within E H mapBlockIndex)
    (hread : ∀ e ∈ history, e.ParentReadable E) (hfiles : files.Within H)
    (hpath : Ancestry mapBlockIndex path) (hdata : DataReadable E files path) :
    ((SeedCaches.run E history).getAdamSeed E files path).1 = chainSeed E files path :=
  ((SeedCaches.sound_run hwithin hread).seedOf_getAdamSeed hfiles hpath hdata).unique hH
    (seedOf_chainSeed hfiles hdata)

end

/-! ### A seed from a failed read -/

section Example

/-- The main network, with two blocks with ADAM after the block of height 199. -/
def seedHeader (hashPrevBlock : Uint256) (vAdamVRFProof : Bytes) : CBlockHeader where
  nVersion := 11
  hashPrevBlock := hashPrevBlock
  hashMerkleRoot := 0
  nTime := 0
  nBits := 0
  nNonce := 0
  vAdamVRFProof := vAdamVRFProof

def header200 : CBlockHeader := seedHeader 200 [1]

def header201 : CBlockHeader := seedHeader (header200.getHash default) [2]

def index200 : CBlockIndex := ⟨header200.getHash default, 200, 200, 0⟩

def index201 : CBlockIndex := ⟨header201.getHash default, index200.hash, 201, 0⟩

/-- The block of height `n` before ADAM. -/
def earlyIndex (n : ℕ) : CBlockIndex := ⟨BitVec.ofNat 256 (n + 1), BitVec.ofNat 256 n, n, 0⟩

def earlyChain : ℕ → List CBlockIndex
  | 0 => [earlyIndex 0]
  | n + 1 => earlyIndex (n + 1) :: earlyChain n

def seedChain : List CBlockIndex := index201 :: index200 :: earlyChain 199

def seedBlockIndex (hash : Uint256) : Option CBlockIndex :=
  if hash = index200.hash then some index200
  else if hash = index201.hash then some index201
  else if 1 ≤ hash.toNat ∧ hash.toNat ≤ 200 then some (earlyIndex (hash.toNat - 1))
  else none

def seedFiles : BlockFiles := fun hash ↦
  if hash = index200.hash then some { header200 with vtx := [] }
  else if hash = index201.hash then some { header201 with vtx := [] }
  else none

def seedHeaders : Set CBlockHeader := {header200, header201}

variable {n : ℕ}

theorem toNat_earlyIndex (hn : n ≤ 199) : (earlyIndex n).hash.toNat = n + 1 := by
  simp only [earlyIndex, BitVec.toNat_ofNat]
  exact Nat.mod_eq_of_lt (by omega)

theorem seedBlockIndex_early (hn : n ≤ 199) : seedBlockIndex (earlyIndex n).hash = some (earlyIndex n) := by
  have h200 : 200 < index200.hash.toNat := by decide +kernel
  have h201 : 200 < index201.hash.toNat := by decide +kernel
  have hnat := toNat_earlyIndex hn
  have hne200 : (earlyIndex n).hash ≠ index200.hash := fun h ↦ by rw [h] at hnat; omega
  have hne201 : (earlyIndex n).hash ≠ index201.hash := fun h ↦ by rw [h] at hnat; omega
  rw [seedBlockIndex, if_neg hne200, if_neg hne201, hnat, if_pos (by omega)]
  rfl

theorem ancestry_earlyChain (hn : n ≤ 199) : Ancestry seedBlockIndex (earlyChain n) := by
  induction n with
  | zero => exact .genesis (seedBlockIndex_early hn) (by decide +kernel)
  | succ n ih =>
    have htail := ih (by omega)
    cases n with
    | zero => exact .cons (seedBlockIndex_early hn) rfl htail
    | succ n => exact .cons (seedBlockIndex_early hn) rfl htail

theorem ancestry_seedChain : Ancestry seedBlockIndex seedChain :=
  .cons (by decide +kernel) rfl (.cons (by decide +kernel) rfl (ancestry_earlyChain le_rfl))

theorem within_seedFiles : seedFiles.Within seedHeaders := by
  intro hash block h
  simp only [seedFiles] at h
  split_ifs at h
  · exact Option.some.inj h ▸ Or.inl rfl
  · exact Option.some.inj h ▸ Or.inr rfl

theorem collisionFree_seedHeaders : CBlockHeader.CollisionFree default seedHeaders where
  unserialized := by
    rintro h (rfl | rfl)
    · constructor <;> decide
    · constructor <;> decide
  serializeForHash_eq := by
    rintro h (rfl | rfl) h' (rfl | rfl) heq
    · rfl
    · exact absurd heq (by decide +kernel)
    · exact absurd heq (by decide +kernel)
    · rfl

theorem dataReadable_seedChain : DataReadable default seedFiles seedChain := by
  refine ⟨by decide, ?_⟩
  decide +kernel

/-- A block is connected while its parent can be read, disconnected, and checked again. -/
theorem getAdamSeed_seedChain :
    ((SeedCaches.run default [.connectBlock seedFiles index201 (index200 :: earlyChain 199) header201,
        .disconnectBlock header201, .checkBlock header201]).getAdamSeed
      default seedFiles seedChain).1 = chainSeed default seedFiles seedChain := by
  refine getAdamSeed_eq_chainSeed collisionFree_seedHeaders ?_ ?_ within_seedFiles ancestry_seedChain
    dataReadable_seedChain
  · simp only [mem_cons, not_mem_nil, or_false, forall_eq_or_imp, forall_eq]
    exact ⟨⟨within_seedFiles, ancestry_seedChain, Or.inr rfl, rfl⟩, trivial, Or.inr rfl⟩
  · simp only [mem_cons, not_mem_nil, or_false, forall_eq_or_imp, forall_eq]
    exact ⟨fun _ ↦ ⟨by decide +kernel, by decide +kernel⟩, trivial, trivial⟩

/-- **A failed read is cached as a seed.** After a restart the block of height 201 is connected while
the file of its parent cannot be opened. Its seed is computed from the null seed, and stays so when
the file can be read again. -/
theorem getAdamSeed_after_failed_read :
    (SeedEvent.connectBlock (fun _ ↦ none) index201 (index200 :: earlyChain 199) header201).Within
        default seedHeaders seedBlockIndex ∧
      DataReadable default seedFiles seedChain ∧
      ((SeedCaches.run default [.connectBlock (fun _ ↦ none) index201 (index200 :: earlyChain 199)
          header201]).getAdamSeed default seedFiles seedChain).1 ≠
        chainSeed default seedFiles seedChain :=
  ⟨⟨nofun, ancestry_seedChain, Or.inr rfl, rfl⟩, dataReadable_seedChain, by decide +kernel⟩

end Example

end Adam

end KristaTech
