import KristaTech.Quorum.Protocol

/-!
# What every interleaving keeps

The guard's promise, carried from one call at one node to whole runs. `World.Inv` says of the log of
signatures that every signature was let pass by a record its node wrote, that the node signed the
block at the moment it wrote the record, and that any two records of one node on one parent are in
the guard's order, one superseding the other. The promise is about the records, not about the map:
the map forgets, by replacement and by pruning, and `superseded` keeps what it forgot.
-/

namespace KristaTech.Llmq.World

variable {ι : Type} {env : SigningEnv ι} {w : World ι}

/-! ### The invariant -/

structure Inv (env : SigningEnv ι) (w : World ι) : Prop where
  /-- What the guard remembers was signed when it was recorded. -/
  entry_signed : ∀ n p r, (w.mapSignedProposalByPrev n)[p]? = some r → r.nTime ≤ w.clock n ∧
      ∃ s ∈ w.signatures, s.node = n ∧ s.prevHash = p ∧ s.record = r ∧ s.nTime = r.nTime
  /-- A signature is for the recorded block, by a key of the node that is in the quorum. -/
  signed : ∀ s ∈ w.signatures, s.record.blockHash = s.blockHash ∧ s.record.nTime ≤ s.nTime ∧
    ∃ m ∈ vSigners env s.node s.prevHash, m.pubKeyMasternode = s.key
  /-- Some key signed at the moment of the record. -/
  first : ∀ s ∈ w.signatures, ∃ s₀ ∈ w.signatures, s₀.node = s.node ∧ s₀.prevHash = s.prevHash ∧
    s₀.record = s.record ∧ s₀.nTime = s.record.nTime
  /-- What the guard remembers now supersedes every record of the past, or the past is too old to
  bar anything. -/
  superseded : ∀ s ∈ w.signatures, s.record.nTime + 30 ≤ w.clock s.node ∨
    ∃ r, (w.mapSignedProposalByPrev s.node)[s.prevHash]? = some r ∧ Supersedes r s.record
  /-- The records of one node on one parent are ordered. -/
  separated : ∀ s ∈ w.signatures, ∀ s' ∈ w.signatures, s.node = s'.node →
    s.prevHash = s'.prevHash → Supersedes s'.record s.record ∨ Supersedes s.record s'.record

theorem inv_start (env : SigningEnv ι) (clock : ι → ℤ) : Inv env (start clock) where
  entry_signed := by simp [start]
  signed := by simp [start]
  first := by simp [start]
  superseded := by simp [start]
  separated := by simp [start]

/-! ### What one action keeps -/

theorem mem_sign {n : ι} {now : ℤ} {proposal : Proposal} {record : SignedProposal}
    {signers : List CQuorumMember} {s : Signed ι} :
    s ∈ (w.sign n now proposal record signers).signatures ↔
      (∃ m ∈ signers, s = ⟨n, m.pubKeyMasternode, proposal.hashPrevBlock, proposal.blockHash, now,
        record⟩) ∨ s ∈ w.signatures := by
  simp [sign, eq_comm]

theorem Inv.sign_again (h : Inv env w) {n : ι} {now : ℤ} {proposal : Proposal}
    {record : SignedProposal} {signers : List CQuorumMember} (hnow : w.clock n ≤ now)
    (hrecord : (w.mapSignedProposalByPrev n)[proposal.hashPrevBlock]? = some record)
    (hblock : record.blockHash = proposal.blockHash)
    (hsigners : ∀ m ∈ signers, m ∈ vSigners env n proposal.hashPrevBlock) :
    Inv env (w.sign n now proposal record signers) := by
  obtain ⟨hle, s₀, hs₀, hnode, hprev, hrec, htime⟩ := h.entry_signed n _ _ hrecord
  have hmono : ∀ {s}, s ∈ w.signatures → s ∈ (w.sign n now proposal record signers).signatures :=
    fun hs ↦ mem_sign.mpr (Or.inr hs)
  -- every earlier record of this node on this parent is superseded by the one signed under
  have hsup : ∀ s ∈ w.signatures, s.node = n → s.prevHash = proposal.hashPrevBlock →
      Supersedes s.record record ∨ Supersedes record s.record := by
    intro s hs hn hp
    have := h.separated s₀ hs₀ s hs (by rw [hnode, hn]) (by rw [hprev, hp])
    rwa [hrec] at this
  refine ⟨?_, ?_, ?_, ?_, ?_⟩
  · intro n' p r hr
    obtain ⟨hle', s, hs, hrest⟩ := h.entry_signed n' p r hr
    exact ⟨hle', s, hmono hs, hrest⟩
  · intro s hs
    rcases mem_sign.mp hs with ⟨m, hm, rfl⟩ | hs
    · exact ⟨hblock, hle.trans hnow, m, hsigners m hm, rfl⟩
    · exact h.signed s hs
  · intro s hs
    rcases mem_sign.mp hs with ⟨m, hm, rfl⟩ | hs
    · exact ⟨s₀, hmono hs₀, hnode, hprev, hrec, htime⟩
    · obtain ⟨s', hs', hrest⟩ := h.first s hs
      exact ⟨s', hmono hs', hrest⟩
  · intro s hs
    rcases mem_sign.mp hs with ⟨m, hm, rfl⟩ | hs
    · exact Or.inr ⟨record, hrecord, Supersedes.refl record⟩
    · exact h.superseded s hs
  · intro s hs s' hs' hn hp
    rcases mem_sign.mp hs with ⟨m, hm, rfl⟩ | hs <;> rcases mem_sign.mp hs' with ⟨m', hm', rfl⟩ | hs'
    · exact Or.inl (Supersedes.refl record)
    · exact hsup s' hs' hn.symm hp.symm
    · exact (hsup s hs hn hp).symm
    · exact h.separated s hs s' hs' hn hp

variable [DecidableEq ι]

theorem getElem?_setSignedProposals {n n' : ι} {m : SignedProposals} {p : Uint256} :
    ((w.setSignedProposals n m).mapSignedProposalByPrev n')[p]? =
      if n' = n then m[p]? else (w.mapSignedProposalByPrev n')[p]? := by
  by_cases hn : n' = n
  · subst hn
    simp [setSignedProposals]
  · simp [setSignedProposals, hn]

theorem Inv.advance (h : Inv env w) {n : ι} {now : ℤ} (hnow : w.clock n ≤ now) :
    Inv env { w with clock := Function.update w.clock n now } := by
  have hle : ∀ n', w.clock n' ≤ Function.update w.clock n now n' := by
    intro n'
    by_cases hn : n' = n
    · subst hn
      simpa using hnow
    · simp [Function.update_of_ne hn]
  refine { h with entry_signed := ?_, superseded := ?_ }
  · intro n' p r hr
    exact ⟨(h.entry_signed n' p r hr).1.trans (hle n'), (h.entry_signed n' p r hr).2⟩
  · intro s hs
    exact (h.superseded s hs).imp_left fun hold ↦ hold.trans (hle s.node)

/-- Pruning forgets only what no longer bars anything. -/
theorem Inv.prune (h : Inv env w) (n : ι) : Inv env (w.setSignedProposals n
      (pruneSignedProposals (w.clock n) (w.mapSignedProposalByPrev n))) := by
  refine { h with entry_signed := ?_, superseded := ?_ }
  · intro n' p r hr
    rw [getElem?_setSignedProposals] at hr
    split_ifs at hr with hn
    · subst hn
      exact h.entry_signed n' p r (getElem?_of_pruneSignedProposals hr)
    · exact h.entry_signed n' p r hr
  · intro s hs
    simp only [getElem?_setSignedProposals]
    rcases h.superseded s hs with hold | ⟨r, hr, hsup⟩
    · exact Or.inl hold
    split_ifs with hn
    · subst hn
      rcases getElem?_pruneSignedProposals_or hr with hkept | ⟨-, hold⟩
      · exact Or.inr ⟨r, hkept, hsup⟩
      · left
        have := hsup.nTime_le
        show s.record.nTime + 30 ≤ w.clock s.node
        omega
    · exact Or.inr ⟨r, hr, hsup⟩

theorem Inv.record (h : Inv env w) {n : ι} {proposal : Proposal} {r : SignedProposal}
    {signers : List CQuorumMember} (htime : r.nTime = w.clock n)
    (hblock : r.blockHash = proposal.blockHash)
    (hfree : ∀ r₀, (w.mapSignedProposalByPrev n)[proposal.hashPrevBlock]? = some r₀ → Supersedes r r₀)
    (hne : signers ≠ []) (hsigners : ∀ m ∈ signers, m ∈ vSigners env n proposal.hashPrevBlock) :
    Inv env ((w.setSignedProposals n ((w.mapSignedProposalByPrev n).insert
      proposal.hashPrevBlock r)).sign n (w.clock n) proposal r signers) := by
  obtain ⟨m₀, hm₀⟩ := List.exists_mem_of_ne_nil _ hne
  -- whatever this node recorded on this parent before, the new record comes late enough after it
  have hsup : ∀ s ∈ w.signatures, s.node = n → s.prevHash = proposal.hashPrevBlock →
      Supersedes r s.record := by
    rintro s hs rfl hp
    rcases h.superseded s hs with hold | ⟨r₀, hr₀, hsup⟩
    · right
      have := guardWindow_le s.record r.coordinator
      omega
    · exact hsup.trans (hfree r₀ (hp ▸ hr₀))
  refine ⟨?_, ?_, ?_, ?_, ?_⟩
  · intro n' p r' hr
    change ((w.setSignedProposals n _).mapSignedProposalByPrev n')[p]? = some r' at hr
    rw [getElem?_setSignedProposals] at hr
    split_ifs at hr with hn
    · rw [Std.ExtTreeMap.getElem?_insert] at hr
      split_ifs at hr with hp
      · obtain rfl : r = r' := by simpa using hr
        refine ⟨by rw [htime, hn]; exact le_rfl, _, mem_sign.mpr (Or.inl ⟨m₀, hm₀, rfl⟩), hn.symm,
          Std.LawfulEqOrd.eq_of_compare hp, rfl, htime.symm⟩
      · subst hn
        obtain ⟨hle, s, hs, hrest⟩ := h.entry_signed n' p r' hr
        exact ⟨hle, s, mem_sign.mpr (Or.inr hs), hrest⟩
    · obtain ⟨hle, s, hs, hrest⟩ := h.entry_signed n' p r' hr
      exact ⟨hle, s, mem_sign.mpr (Or.inr hs), hrest⟩
  · intro s hs
    rcases mem_sign.mp hs with ⟨m, hm, rfl⟩ | hs
    · exact ⟨hblock, htime.le, m, hsigners m hm, rfl⟩
    · exact h.signed s hs
  · intro s hs
    rcases mem_sign.mp hs with ⟨m, hm, rfl⟩ | hs'
    · exact ⟨_, hs, rfl, rfl, rfl, htime.symm⟩
    · obtain ⟨s₀, hs₀, hrest⟩ := h.first s hs'
      exact ⟨s₀, mem_sign.mpr (Or.inr hs₀), hrest⟩
  · intro s hs
    change _ ∨ ∃ r', ((w.setSignedProposals n _).mapSignedProposalByPrev s.node)[s.prevHash]? = some r' ∧ _
    simp only [getElem?_setSignedProposals, Std.ExtTreeMap.getElem?_insert]
    rcases mem_sign.mp hs with ⟨m, hm, rfl⟩ | hs'
    · exact Or.inr ⟨r, by simp, Supersedes.refl r⟩
    rcases h.superseded s hs' with hold | ⟨r', hr, hr'⟩
    · exact Or.inl hold
    right
    split_ifs with hn hp
    · exact ⟨r, rfl, hsup s hs' hn (Std.LawfulEqOrd.eq_of_compare hp).symm⟩
    · exact ⟨r', hn ▸ hr, hr'⟩
    · exact ⟨r', hr, hr'⟩
  · intro s hs s' hs' hn hp
    rcases mem_sign.mp hs with ⟨m, hm, rfl⟩ | hs <;> rcases mem_sign.mp hs' with ⟨m', hm', rfl⟩ | hs'
    · exact Or.inl (Supersedes.refl r)
    · exact Or.inr (hsup s' hs' hn.symm hp.symm)
    · exact Or.inl (hsup s hs hn hp)
    · exact h.separated s hs s' hs' hn hp

/-! ### What a step and a run keep -/

theorem Inv.signIfAllowed (h : Inv env w) {n : ι} {proposal : Proposal}
    {signers : List CQuorumMember} (hne : signers ≠ [])
    (hsigners : ∀ m ∈ signers, m ∈ vSigners env n proposal.hashPrevBlock) :
    Inv env (w.signIfAllowed n (w.clock n) proposal signers) := by
  have hpruned := h.prune n
  have hmap : ∀ m : SignedProposals, (w.setSignedProposals n m).mapSignedProposalByPrev n = m := by
    simp [setSignedProposals]
  unfold World.signIfAllowed
  rcases allowQuorumSignature_cases (w.clock n) proposal.hashPrevBlock proposal.signingCoordinator
    proposal.blockHash (w.mapSignedProposalByPrev n) with
    hcall | ⟨r, hr, hblock, hcall⟩ | ⟨hfree, hcall⟩
  · simpa only [hcall] using hpruned
  · simp only [hcall, hr]
    exact hpruned.sign_again le_rfl (by rwa [hmap]) hblock hsigners
  · simp only [hcall, Std.ExtTreeMap.getElem?_insert_self]
    have hrec := hpruned.record (r := ⟨proposal.blockHash, proposal.signingCoordinator,
      w.clock n⟩) rfl rfl (by rwa [hmap]) hne hsigners
    simpa [hmap, setSignedProposals] using hrec

theorem Inv.handle (h : Inv env w) {e : Event ι} (hnow : w.clock e.node = e.now) :
    Inv env (w.handle env e) := by
  cases e with
  | proposeBlock n now proposal =>
    obtain rfl : w.clock n = now := hnow
    simp only [World.handle, processProposeBlock]
    -- remembering the proposal touches neither the guard nor the log
    have hseen : ∀ seen, Inv env { w with setSeenProposedBlocks := seen } :=
      fun seen ↦ ⟨h.entry_signed, h.signed, h.first, h.superseded, h.separated⟩
    split_ifs with h₁ h₂ h₃
    · exact h
    · exact h
    · exact hseen _
    · exact (hseen _).signIfAllowed (by simpa using h₃) fun m hm ↦ hm
  | localSign n now proposal member =>
    obtain rfl : w.clock n = now := hnow
    simp only [World.handle]
    split_ifs with hmem
    · exact h.signIfAllowed (by simp) fun m hm ↦ by simpa [List.mem_singleton.mp hm] using hmem
    · exact h

theorem Inv.step (h : Inv env w) {e : Event ι} (hnow : w.clock e.node ≤ e.now) : Inv env (w.step env e) :=
  (h.advance hnow).handle (by simp)

/-- **Every interleaving keeps the invariant.** -/
theorem Reachable.inv (h : Reachable env w) : Inv env w := by
  obtain ⟨clock, hrun⟩ := h
  induction hrun with
  | refl => exact inv_start env clock
  | tail _ hstep ih =>
    obtain ⟨e, hnow, rfl⟩ := hstep
    exact ih.step hnow

end KristaTech.Llmq.World
