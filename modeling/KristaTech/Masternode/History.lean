import KristaTech.Masternode.ActivityUndo

/-!
# The history of a key

Above 64 recorded heights of a key the old ones are dropped, so what the registry holds is only a part of
the key's history (`RegisteredAt`). What lies within 5760 blocks of the last registration is still there.
That is enough to say whether the key was active in the 2880 blocks before a height, for every height that
is not itself more than 2880 blocks in the past (`isMasternodeActiveAtHeight_iff`).
-/

namespace KristaTech.Masternode

/-- The heights at which a key was registered, last one first, since it was not known. What else was done
has left alone what is held for the key. -/
inductive RegisteredAt (P : PingChecks) (k : CPubKey) : List ℤ → MasternodeState → Prop
  | unknown {s : MasternodeState} : s.registry.entry k = (none, none, none) → RegisteredAt P k [] s
  | register {hs : List ℤ} {s s' : MasternodeState} (view : CoinLookup) (o : COutPoint) (nHeight : ℤ)
    (inlineDel : Option COnChainMasternodeDelegation) : RegisteredAt P k hs s →
    registerOnChainMasternodePing P view s k o nHeight inlineDel = (true, s') →
    RegisteredAt P k (nHeight :: hs) s'
  | other {hs : List ℤ} {s s' : MasternodeState} : RegisteredAt P k hs s → s'.registry.entry k = s.registry.entry k →
    RegisteredAt P k hs s'

variable {P : PingChecks} {k : CPubKey} {hs : List ℤ} {s : MasternodeState}

/-- The heights that are recorded for a key. -/
def Registry.recorded (R : Registry) (k : CPubKey) : Heights :=
  R.mapMasternodeActiveHeights[k]?.getD ∅

/-- What is left of a history after the trimming. -/
def recordedOf (hs : List ℤ) : Heights := hs.foldr (fun nHeight setHeights ↦ setHeights.record nHeight) ∅

variable {x : ℤ}

theorem mem_of_mem_recordedOf (hx : x ∈ recordedOf hs) : x ∈ hs := by
  induction hs with
  | nil => simp [recordedOf] at hx
  | cons nHeight hs ih => exact List.mem_cons.2 ((Heights.mem_of_mem_record hx).imp_right ih)

theorem mem_recordedOf_of_recent (hx : x ∈ hs) (hrecent : ∀ y ∈ hs, y - 5760 ≤ x) : x ∈ recordedOf hs := by
  induction hs with
  | nil => exact absurd hx List.not_mem_nil
  | cons nHeight hs ih =>
    rw [List.forall_mem_cons] at hrecent
    rcases List.mem_cons.1 hx with rfl | hx
    · exact Heights.self_mem_record _ _
    · exact Heights.mem_record (ih hx hrecent.2) (.inr hrecent.1)

/-- The registry holds what the trimming has left of a key's history, and the last height. -/
theorem RegisteredAt.recorded (h : RegisteredAt P k hs s) : s.registry.recorded k = recordedOf hs ∧
      s.registry.mapMasternodeLastActiveHeight[k]? = (recordedOf hs).last ∧
      (hs ≠ [] → k.isValid = true) := by
  induction h with
  | unknown hentry =>
    simp only [Registry.entry, Prod.mk.injEq] at hentry
    exact ⟨by rw [Registry.recorded, hentry.1]; rfl, hentry.2.1, absurd rfl⟩
  | @register hs s _ view o nHeight inlineDel _ heq ih =>
    rw [registerOnChainMasternodePing] at heq
    split_ifs at heq with hok
    swap
    · exact absurd (Prod.mk.inj heq).1 Bool.false_ne_true
    obtain ⟨-, rfl⟩ := Prod.mk.inj heq
    simp only [isValidMasternodeCollateralAndAuth, Bool.and_eq_true] at hok
    have hentry := Registry.entry_bind s.registry k o nHeight k
    simp only [if_pos, Registry.entry, Prod.mk.injEq] at hentry
    have hrecord : (s.registry.recorded k).record nHeight = recordedOf (nHeight :: hs) := by
      rw [ih.1]
      rfl
    exact ⟨by rw [Registry.recorded, hentry.1]; exact hrecord,
      hentry.2.1.trans (congrArg Heights.last hrecord), fun _ ↦ hok.1.1⟩
  | other _ heq ih =>
    simp only [Registry.entry, Prod.mk.injEq] at heq
    rw [Registry.recorded, heq.1, heq.2.1]
    exact ih

theorem isMasternodeActiveAtHeight_of_mem (h : RegisteredAt P k hs s) {nQueryHeight : ℤ}
    (hx : x ∈ hs) (hquery : ∀ y ∈ hs, y - 2880 ≤ nQueryHeight) (hge : nQueryHeight - 2880 ≤ x)
    (hle : x ≤ nQueryHeight) :
    s.registry.isMasternodeActiveAtHeight k nQueryHeight 2880 = true := by
  obtain ⟨hrecorded, -, hvalid⟩ := h.recorded
  have hxS := mem_recordedOf_of_recent hx fun y hy ↦ by have := hquery y hy; omega
  rw [← hrecorded, Registry.recorded] at hxS
  simp only [Registry.isMasternodeActiveAtHeight, Bool.and_eq_true, Bool.or_eq_true, Option.any_eq_true,
    Option.bind_eq_some_iff, decide_eq_true_eq]
  refine ⟨hvalid (List.ne_nil_of_mem hx), .inl ?_⟩
  cases hS : s.registry.mapMasternodeActiveHeights[k]? with
  | none => simp [hS] at hxS
  | some S =>
    rw [hS, Option.getD_some] at hxS
    have hfilter (y : ℤ) : y ∈ S.filter (· ≤ nQueryHeight) ↔ y ∈ S ∧ y ≤ nQueryHeight := by simp
    obtain ⟨m, hm⟩ := Heights.exists_last ((hfilter x).2 ⟨hxS, hle⟩)
    obtain ⟨hmS, hmax⟩ := Heights.last_eq_some_iff.1 hm
    have hxm := hmax x ((hfilter x).2 ⟨hxS, hle⟩)
    exact ⟨m, ⟨S, rfl, hm⟩, ((hfilter m).1 hmS).2, by omega⟩

/-- **Trimming does not change the answers.** A key is active at a height that is at most 2880 blocks below
its last registration exactly if one of its registrations, recorded or not, was in the window. -/
theorem isMasternodeActiveAtHeight_iff (h : RegisteredAt P k hs s) (nQueryHeight : ℤ)
    (hquery : ∀ y ∈ hs, y - 2880 ≤ nQueryHeight) :
    s.registry.isMasternodeActiveAtHeight k nQueryHeight 2880 = true ↔
      ∃ x ∈ hs, nQueryHeight - 2880 ≤ x ∧ x ≤ nQueryHeight := by
  refine ⟨fun hactive ↦ ?_, fun ⟨x, hx, hge, hle⟩ ↦ isMasternodeActiveAtHeight_of_mem h hx hquery hge hle⟩
  obtain ⟨hrecorded, hlast, -⟩ := h.recorded
  simp only [Registry.isMasternodeActiveAtHeight, Bool.and_eq_true, Bool.or_eq_true, Option.any_eq_true,
    Option.bind_eq_some_iff, decide_eq_true_eq, hlast] at hactive
  obtain ⟨-, ⟨x, ⟨S, hS, hx⟩, hle, hwindow⟩ | ⟨x, hx, hle, hwindow⟩⟩ := hactive
  · have hxS : x ∈ S := by
      have := (Heights.last_eq_some_iff.1 hx).1
      simp only [Std.ExtTreeSet.mem_filter] at this
      exact this.1
    refine ⟨x, mem_of_mem_recordedOf ?_, by omega, hle⟩
    rwa [← hrecorded, Registry.recorded, hS]
  · exact ⟨x, mem_of_mem_recordedOf (Heights.last_eq_some_iff.1 hx).1, by omega, hle⟩

section Example

/-- The example's coins, made at some height. -/
def exampleViewAt (coinHeight : ℤ) : CoinLookup := fun o ↦
  (exampleView o).map ({ · with nHeight := coinHeight })

theorem isValidMasternodeCollateralAndAuth_example (hP : P.crypto = default)
    (coinHeight nHeight : ℤ) (S : Delegations) :
    isValidMasternodeCollateralAndAuth P (exampleViewAt coinHeight) S exampleKey (exampleCollateral 1)
      nHeight none = true := by
  have hvalid : exampleKey.isValid = true := by decide
  have hnull : (exampleCollateral 1).isNull = false := by decide
  simp [isValidMasternodeCollateralAndAuth, hvalid, hnull, hP, exampleViewAt, exampleView, exampleEnv,
    Coin.isSpent, CTxOut.isNull, getMasternodeNodeCollateral, coin]

/-- The state after a key has registered for its own coin, last height first. -/
def exampleHistory (hs : List ℤ) : MasternodeState :=
  ⟨hs.foldr (fun nHeight R ↦ R.bind exampleKey (exampleCollateral 1) nHeight) .empty, .empty, ∅⟩

theorem registeredAt_exampleHistory (hs : List ℤ) :
    RegisteredAt exampleEnv.toPingChecks exampleKey hs (exampleHistory hs) := by
  induction hs with
  | nil => exact .unknown (by decide)
  | cons nHeight hs ih =>
    refine .register (exampleViewAt 0) (exampleCollateral 1) nHeight none ih ?_
    rw [registerOnChainMasternodePing, if_pos (isValidMasternodeCollateralAndAuth_example rfl 0 nHeight _)]
    rfl

theorem isMasternodeActiveAtHeight_example :
    (exampleHistory [3000, 10]).registry.isMasternodeActiveAtHeight exampleKey 3001 2880 = true ∧
      (exampleHistory [3000, 10]).registry.isMasternodeActiveAtHeight exampleKey 2999 2880 = false := by
  have hiff (q : ℤ) (hq : 120 ≤ q) := isMasternodeActiveAtHeight_iff
    (registeredAt_exampleHistory [3000, 10]) q (by simp; omega)
  exact ⟨(hiff 3001 (by decide)).2 ⟨3000, by simp⟩,
    Bool.eq_false_iff.2 fun h ↦ by simpa using (hiff 2999 (by decide)).1 h⟩

theorem bound_exampleHistory (nHeight : ℤ) (hs : List ℤ) (k' : CPubKey) :
    (exampleHistory (nHeight :: hs)).registry.mapMasternodeCollateralOutpoints[k']? =
      some (exampleCollateral 1) ↔ k' = exampleKey := by
  obtain ⟨rfl, _, -, -, -, hC⟩ | ⟨hne, -, -, -, hC⟩ | ⟨hne, hC, -, -, hC'⟩ :=
    Registry.bind_cases (exampleHistory hs).registry exampleKey (exampleCollateral 1) nHeight k'
  · exact iff_of_true hC rfl
  · refine iff_of_false (fun h ↦ ?_) hne
    exact Option.some_ne_none _ (h.symm.trans hC)
  · exact iff_of_false (fun h ↦ hC (hC'.symm.trans h)) hne

end Example

end KristaTech.Masternode
