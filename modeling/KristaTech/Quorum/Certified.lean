import Mathlib.Data.List.MinMax
import KristaTech.Quorum.Agreement

/-!
# Agreement between certified blocks

Two certificates accepted for one quorum have a member in common. If signatures cannot be forged,
that member's node signed both blocks, and the records under which it did so are in the guard's
order. In a window of less than 30 seconds the guard's order leaves no room for two coordinators.
-/

namespace KristaTech.Llmq

open List

namespace World

variable {ι : Type} {env : SigningEnv ι} {w : World ι}

/-! ### From certificates to signatures -/

def FirstSigned (w : World ι) (k : CPubKey) (blockHash : Uint256) (t : ℤ) : Prop :=
  (∃ s ∈ w.signatures, s.key = k ∧ s.blockHash = blockHash ∧ s.nTime = t) ∧
    ∀ s ∈ w.signatures, s.key = k → s.blockHash = blockHash → t ≤ s.nTime

def KeysHeldOnce (env : SigningEnv ι) (quorum : CQuorum) : Prop :=
  ∀ m ∈ quorum.members, ∀ n n', env.getMasternodePrivKey n m.pubKeyMasternode = true →
    env.getMasternodePrivKey n' m.pubKeyMasternode = true → n = n'

/-- Signatures cannot be forged: a valid share for a member's key is the trace of a signature that
was made with it. -/
def Unforgeable (C : Crypto) (w : World ι) (quorum : CQuorum) : Prop :=
  ∀ m ∈ quorum.members, ∀ pins blockHash sig,
    (verifyShare C pins m.pubKeyMasternode blockHash sig).isSome = true →
      ∃ s ∈ w.signatures, s.key = m.pubKeyMasternode ∧ s.blockHash = blockHash

/-- Every signature on the block is on the parent `p`, as it is when the hash binds the parent. -/
def SignedOn (w : World ι) (blockHash p : Uint256) : Prop :=
  ∀ s ∈ w.signatures, s.blockHash = blockHash → s.prevHash = p

theorem Inv.holds_key (h : Inv env w) {s : Signed ι} (hs : s ∈ w.signatures) :
    ∃ m ∈ (env.getActiveQuorum s.prevHash).members, m.pubKeyMasternode = s.key ∧
      env.getMasternodePrivKey s.node s.key = true := by
  obtain ⟨-, -, m, hm, hkey⟩ := h.signed s hs
  obtain ⟨hmem, hheld⟩ := mem_filter.mp hm
  exact ⟨m, hmem, hkey, hkey ▸ hheld⟩

/-- **Two certified blocks have a common signer**: one node signed both. -/
theorem Inv.exists_common_signer (h : Inv env w) {C : Crypto} {p : Uint256}
    (hheld : KeysHeldOnce env (env.getActiveQuorum p))
    (hunf : Unforgeable C w (env.getActiveQuorum p)) {pins pins' : PinnedBLSPubKeys}
    {qsig qsig' : CQuorumSignature}
    (hq : qsig.verify C pins (env.getActiveQuorum p) = true)
    (hq' : qsig'.verify C pins' (env.getActiveQuorum p) = true) :
    ∃ s ∈ w.signatures, ∃ s' ∈ w.signatures, s.blockHash = qsig.blockHash ∧
      s'.blockHash = qsig'.blockHash ∧ s.node = s'.node := by
  obtain ⟨m, hm, sigPair, _, sigPair', _, hgood, hgood'⟩ := exists_common_member hq hq'
  obtain ⟨s, hs, hkey, hblock⟩ := hunf m hm pins _ _ hgood.verified
  obtain ⟨s', hs', hkey', hblock'⟩ := hunf m hm pins' _ _ hgood'.verified
  obtain ⟨-, -, -, hnode⟩ := h.holds_key hs
  obtain ⟨-, -, -, hnode'⟩ := h.holds_key hs'
  exact ⟨s, hs, s', hs', hblock, hblock', hheld m hm _ _ (hkey ▸ hnode) (hkey' ▸ hnode')⟩

/-- **The first signature on a block is the moment of a record.** A node that signed a block has a
key whose first signature on it was made when the guard recorded it. -/
theorem Inv.exists_first_record [DecidableEq ι] (h : Inv env w) {p : Uint256}
    (hheld : KeysHeldOnce env (env.getActiveQuorum p)) {s : Signed ι} (hs : s ∈ w.signatures)
    (hon : SignedOn w s.blockHash p) :
    ∃ s₀ ∈ w.signatures, s₀.node = s.node ∧ s₀.blockHash = s.blockHash ∧ s₀.prevHash = p ∧
      FirstSigned w s₀.key s.blockHash s₀.record.nTime ∧
      ∃ m ∈ (env.getActiveQuorum p).members, m.pubKeyMasternode = s₀.key := by
  -- the earliest record under which this node signed the block
  let same := w.signatures.filter fun s' ↦ s'.node = s.node ∧ s'.blockHash = s.blockHash
  have hsame : same ≠ [] := ne_nil_of_mem (mem_filter.mpr ⟨hs, by simp⟩)
  obtain ⟨s₁, hs₁⟩ : ∃ s₁, s₁ ∈ same.argmin fun s' ↦ s'.record.nTime :=
    Option.ne_none_iff_exists'.mp fun hnone ↦ hsame (argmin_eq_none.mp hnone)
  obtain ⟨hmem₁, hboth⟩ := mem_filter.mp (argmin_mem hs₁)
  obtain ⟨hnode₁, hblock₁⟩ : s₁.node = s.node ∧ s₁.blockHash = s.blockHash := by simpa using hboth
  obtain ⟨s₀, hs₀, hnode, hprev, hrecord, htime⟩ := h.first s₁ hmem₁
  have hblock : s₀.blockHash = s.blockHash := by
    rw [← (h.signed s₀ hs₀).1, hrecord, (h.signed s₁ hmem₁).1, hblock₁]
  have hp : s₀.prevHash = p := hon s₀ hs₀ hblock
  obtain ⟨m, hm, hkey, hholds⟩ := h.holds_key hs₀
  rw [hp] at hm
  refine ⟨s₀, hs₀, hnode.trans hnode₁, hblock, hp, ⟨⟨s₀, hs₀, rfl, hblock, ?_⟩, ?_⟩, m, hm, hkey⟩
  · rw [htime, hrecord]
  · intro s' hs' hkey' hblock'
    obtain ⟨-, -, -, hholds'⟩ := h.holds_key hs'
    have hnode' : s'.node = s₀.node :=
      hheld m hm _ _ (by rw [hkey, ← hkey']; exact hholds') (hkey ▸ hholds)
    have hsame' : s' ∈ same :=
      mem_filter.mpr ⟨hs', by simp [hnode', hnode, hnode₁, hblock']⟩
    have hle : s₁.record.nTime ≤ s'.record.nTime :=
      le_of_mem_argmin (f := fun s' : Signed ι ↦ s'.record.nTime) hsame' hs₁
    rw [hrecord]
    exact hle.trans (h.signed s' hs').2.1

/-- **Agreement between competing coordinators.** Two accepted certificates for a quorum name a
common member. And in whatever way proposals interleave at nodes that hold pairwise different
member keys: two blocks on one parent that no node recorded under the same coordinator do not both
obtain an accepted certificate, if every member's first signature on either of them falls in one
window of less than 30 seconds. -/
theorem quorum_agreement (C : Crypto) :
    (∀ (quorum : CQuorum) (pins pins' : PinnedBLSPubKeys) (qsig qsig' : CQuorumSignature),
      qsig.verify C pins quorum = true → qsig'.verify C pins' quorum = true →
      ∃ m ∈ quorum.members, m.collateralOutpoint ∈ qsig.signatures.map Prod.fst ∧
        m.collateralOutpoint ∈ qsig'.signatures.map Prod.fst) ∧
    ∀ (ι : Type) [DecidableEq ι] (env : SigningEnv ι) (w : World ι) (p : Uint256)
      (qsig qsig' : CQuorumSignature) (start : ℤ), Reachable env w →
      KeysHeldOnce env (env.getActiveQuorum p) → Unforgeable C w (env.getActiveQuorum p) →
      SignedOn w qsig.blockHash p → SignedOn w qsig'.blockHash p →
      (∀ s ∈ w.signatures, ∀ s' ∈ w.signatures, s.node = s'.node →
        s.blockHash = qsig.blockHash → s'.blockHash = qsig'.blockHash →
        s.record.coordinator ≠ s'.record.coordinator) →
      (∀ m ∈ (env.getActiveQuorum p).members, ∀ h ∈ [qsig.blockHash, qsig'.blockHash], ∀ t,
        FirstSigned w m.pubKeyMasternode h t → start ≤ t ∧ t < start + 30) →
      ∀ pins pins', qsig.verify C pins (env.getActiveQuorum p) = true →
        qsig'.verify C pins' (env.getActiveQuorum p) = false := by
  refine ⟨?_, ?_⟩
  · intro quorum pins pins' qsig qsig' hq hq'
    obtain ⟨m, hm, sigPair, hmem, sigPair', hmem', hgood, hgood'⟩ := exists_common_member hq hq'
    exact ⟨m, hm, mem_map.mpr ⟨sigPair, hmem, hgood.outpoint.symm⟩,
      mem_map.mpr ⟨sigPair', hmem', hgood'.outpoint.symm⟩⟩
  · intro ι _ env w p qsig qsig' start hreach hheld hunf hon hon' hcoord hwindow pins pins' hq
    by_contra hq'
    rw [Bool.not_eq_false] at hq'
    have hinv := hreach.inv
    obtain ⟨s, hs, s', hs', hblock, hblock', hnode⟩ := hinv.exists_common_signer hheld hunf hq hq'
    obtain ⟨s₀, hs₀, hnode₀, hblock₀, hp₀, hfirst, m, hm, hkey⟩ :=
      hinv.exists_first_record hheld hs (hblock ▸ hon)
    obtain ⟨s₁, hs₁, hnode₁, hblock₁, hp₁, hfirst', m', hm', hkey'⟩ :=
      hinv.exists_first_record hheld hs' (hblock' ▸ hon')
    have ht₀ := hwindow m hm qsig.blockHash (by simp) _ (by rw [hkey, ← hblock]; exact hfirst)
    have ht₁ := hwindow m' hm' qsig'.blockHash (by simp) _ (by rw [hkey', ← hblock']; exact hfirst')
    have hne := hcoord s₀ hs₀ s₁ hs₁ (by rw [hnode₀, hnode₁, hnode]) (hblock₀.trans hblock)
      (hblock₁.trans hblock')
    -- one of the two records came late enough after the other, so the window is too short for both
    rcases hinv.separated s₀ hs₀ s₁ hs₁ (by rw [hnode₀, hnode₁, hnode]) (by rw [hp₀, hp₁]) with
      hsup | hsup
    · exact hne (hsup.coordinator_eq (by omega))
    · exact hne (hsup.coordinator_eq (by omega)).symm

end World

/-! ### A network of three -/

namespace ThreeNodes

instance neZero_three : NeZero 3 := ⟨by decide⟩

/-- The masternode key of node `i`. -/
def key (i : Fin 3) : CPubKey := CPubKey.set (2 :: List.replicate 32 (UInt8.ofNat i))

def quorum : CQuorum := ⟨(List.finRange 3).map fun i : Fin 3 ↦ ⟨⟨0, UInt32.ofNat i⟩, key i⟩⟩

def env : SigningEnv (Fin 3) := ⟨fun _ ↦ quorum, fun i k ↦ k == key i⟩

/-- Signatures that verify exactly for the listed pairs of a node and a block hash: a key vouches
for the BLS key with its own last byte, and a BLS key signs what is listed. -/
def crypto (made : List (ℕ × Uint256)) : Crypto where
  hash bs := BitVec.ofNat 256 (bs.headD 0).toNat
  sha256 bs := BitVec.ofNat 256 (bs.headD 0).toNat
  sha1 bs := BitVec.ofNat 160 (bs.headD 0).toNat
  ripemd160 bs := BitVec.ofNat 160 (bs.headD 0).toNat
  headerHash bs := BitVec.ofNat 256 (bs.headD 0).toNat
  checkLowS _ := false
  verifySchnorr _ _ _ := false
  checkTapTweak _ _ _ _ := false
  ecdsaVerify k h _ := h == BitVec.ofNat 256 (k.getLastD 0).toNat
  coreVerify pk h _ := made.contains ((pk.headD 0).toNat, h)
  aggregatePubKeys := (default : Crypto).aggregatePubKeys
  aggregateSignatures := (default : Crypto).aggregateSignatures

/-- The share of node `i`, and a certificate made of the shares of some nodes. -/
def share (i : Fin 3) : Bytes := List.replicate 48 (UInt8.ofNat i) ++ List.replicate 96 0 ++ [0]

def certificate (blockHash : Uint256) (signers : List (Fin 3)) : CQuorumSignature :=
  ⟨blockHash, signers.map fun i : Fin 3 ↦ (⟨0, UInt32.ofNat i⟩, share i)⟩

theorem key_injective : ∀ i j : Fin 3, key i = key j → i = j := by decide

theorem keysHeldOnce : World.KeysHeldOnce env quorum := by
  intro m _ n n' h h'
  exact key_injective n n' ((eq_of_beq h).symm.trans (eq_of_beq h'))

theorem unforgeable {made : List (ℕ × Uint256)} {w : World (Fin 3)}
    (hmade : ∀ i : Fin 3, ∀ h, ((i : ℕ), h) ∈ made → ∃ s ∈ w.signatures, s.key = key i ∧ s.blockHash = h) :
    World.Unforgeable (crypto made) w quorum := by
  intro m hm pins blockHash sig hshare
  obtain ⟨i, -, rfl⟩ := mem_map.mp hm
  obtain ⟨_, hsome⟩ := Option.isSome_iff_exists.mp hshare
  simp only [verifyShare, Option.bind_eq_bind, Option.bind_eq_some_iff, guard_eq_some_iff,
    Bool.and_eq_true] at hsome
  obtain ⟨signedData, -, -, -, -, -, -, ⟨hecdsa, hbls⟩, -⟩ := hsome
  simp only [CPubKey.verify, CBLSSignature.verify, crypto, Bool.and_eq_true, beq_iff_eq,
    contains_iff_mem] at hecdsa hbls
  -- the byte the member's key vouches for is the byte the BLS key signs with
  have hlast : ∀ i : Fin 3, (((key i).bytes.getLastD 0).toNat) = i := by decide
  have hbyte : (signedData.blsPubKey.data.headD 0).toNat = i := by
    have hsmall := (signedData.blsPubKey.data.headD 0).toNat_lt
    have hi := i.isLt
    have hnat := congrArg BitVec.toNat hecdsa.2
    rwa [hlast i, BitVec.toNat_ofNat, BitVec.toNat_ofNat, Nat.mod_eq_of_lt (by omega),
      Nat.mod_eq_of_lt (by omega)] at hnat
  exact hmade i blockHash (hbyte ▸ hbls.2)

def proposal (blockHash : Uint256) (coordinator : Fin 3) : Proposal :=
  ⟨blockHash, 7, key coordinator, true⟩

/-- Node 2 signs block 2 of coordinator 1 first; the others sign block 1 of coordinator 0. Then
each is offered the other block, and refuses. -/
def competing : List (Event (Fin 3)) :=
  [.proposeBlock 2 3 (proposal 2 1), .proposeBlock 0 4 (proposal 1 0),
    .localSign 1 5 (proposal 1 0) ⟨⟨0, 1⟩, key 1⟩, .proposeBlock 2 8 (proposal 1 0),
    .proposeBlock 0 9 (proposal 2 1), .proposeBlock 1 20 (proposal 2 1)]

def afterCompeting : World (Fin 3) := World.run env (World.start fun _ ↦ 0) competing

theorem mem_signatures_afterCompeting {s : Signed (Fin 3)} :
    s ∈ afterCompeting.signatures ↔ s = ⟨1, key 1, 7, 1, 5, ⟨1, key 0, 5⟩⟩ ∨
      s = ⟨0, key 0, 7, 1, 4, ⟨1, key 0, 4⟩⟩ ∨ s = ⟨2, key 2, 7, 2, 3, ⟨2, key 1, 3⟩⟩ := by
  have hlist : afterCompeting.signatures = [⟨1, key 1, 7, 1, 5, ⟨1, key 0, 5⟩⟩,
      ⟨0, key 0, 7, 1, 4, ⟨1, key 0, 4⟩⟩, ⟨2, key 2, 7, 2, 3, ⟨2, key 1, 3⟩⟩] := by
    decide
  simp [hlist]

/-- In the network of three, block 1 is certified, and block 2 is not, whatever certificate is
offered for it. -/
theorem quorum_agreement_threeNodes :
    (certificate 1 [0, 1]).verify (crypto [(0, 1), (1, 1), (2, 2)]) ∅ quorum = true ∧ ∀ pins signatures,
        CQuorumSignature.verify (crypto [(0, 1), (1, 1), (2, 2)]) pins ⟨2, signatures⟩ quorum =
          false := by
  have hq : (certificate 1 [0, 1]).verify (crypto [(0, 1), (1, 1), (2, 2)]) ∅ quorum = true := by
    decide +kernel
  refine ⟨hq, fun pins signatures ↦ ?_⟩
  refine (World.quorum_agreement (crypto [(0, 1), (1, 1), (2, 2)])).2 (Fin 3) env afterCompeting 7
    (certificate 1 [0, 1]) ⟨2, signatures⟩ 3
    ⟨_, World.reflTransGen_run (by decide)⟩ keysHeldOnce (unforgeable ?_) ?_ ?_ ?_ ?_ ∅ pins
    hq
  · intro i h hmem
    simp only [mem_cons, Prod.mk.injEq, not_mem_nil, or_false] at hmem
    rcases hmem with ⟨hi, rfl⟩ | ⟨hi, rfl⟩ | ⟨hi, rfl⟩ <;> obtain rfl := Fin.ext (b := ⟨_, by decide⟩) hi
    · exact ⟨_, mem_signatures_afterCompeting.mpr (Or.inr (Or.inl rfl)), rfl, rfl⟩
    · exact ⟨_, mem_signatures_afterCompeting.mpr (Or.inl rfl), rfl, rfl⟩
    · exact ⟨_, mem_signatures_afterCompeting.mpr (Or.inr (Or.inr rfl)), rfl, rfl⟩
  · rintro s hs -
    rcases mem_signatures_afterCompeting.mp hs with rfl | rfl | rfl <;> rfl
  · rintro s hs -
    rcases mem_signatures_afterCompeting.mp hs with rfl | rfl | rfl <;> rfl
  · -- no node signed both blocks
    intro s hs s' hs' hnode h₁ h₂
    rcases mem_signatures_afterCompeting.mp hs with rfl | rfl | rfl <;>
      rcases mem_signatures_afterCompeting.mp hs' with rfl | rfl | rfl <;>
      simp_all [certificate]
  · rintro m - h - t ⟨⟨s, hs, -, -, rfl⟩, -⟩
    rcases mem_signatures_afterCompeting.mp hs with rfl | rfl | rfl <;> decide

end ThreeNodes

end KristaTech.Llmq
