import KristaTech.Masternode.ActivityUndo

/-!
# Replayed delegations

A delegation says when it was signed, but nothing compares that time with the time of the delegation
it replaces. So an older delegation, which anybody can read on the chain, replaces a newer one
whenever a ping carries it and the collateral is still there (`former_operator_returns`). A run of
connected blocks keeps the newer delegations exactly if no ping in it does that
(`newer_delegations_kept_iff`).
-/

namespace KristaTech.Masternode

/-! ### Pings in a run -/

/-- A transaction of a block that is being connected, with the state its ping is registered on. -/
structure PingStep where
  before : MasternodeState
  view : CoinLookup
  nHeight : ℤ
  tx : CTransaction

/-- A block, with its height and the coins it is connected on. -/
structure ConnectedBlock where
  block : CBlock
  nHeight : ℤ
  view : CoinLookup

variable (E : ActivityEnv)

def PingStep.after (p : PingStep) : MasternodeState := registerPing E p.view p.nHeight p.before p.tx

def MasternodeState.delegation (s : MasternodeState) (o : COutPoint) :
    Option COnChainMasternodeDelegation :=
  s.delegations.mapOnChainCollateralDelegations[o]?

def pingSteps (view : CoinLookup) (nHeight : ℤ) : MasternodeState → List CTransaction → List PingStep
  | _, [] => []
  | s, tx :: vtx =>
    ⟨s, view, nHeight, tx⟩ :: pingSteps view nHeight (registerPing E view nHeight s tx) vtx

def runSteps : MasternodeState → List ConnectedBlock → List PingStep
  | _, [] => []
  | s, b :: bs => pingSteps E b.view b.nHeight s b.block.vtx ++
      runSteps (registerBlockMasternodeActivity E b.view s b.block b.nHeight) bs

/-- Something holds at each step of a list, given the steps before it. -/
def AtEachStep (f : List PingStep → PingStep → Prop) : List PingStep → List PingStep → Prop
  | _, [] => True
  | hist, p :: l => f hist p ∧ AtEachStep f (p :: hist) l

/-- The ping carries a delegation of the outpoint, signed by the owner of the collateral earlier than
a delegation that was current at some time up to now. -/
def Replays (hist : List PingStep) (p : PingStep) (o : COutPoint) : Prop :=
  ∃ ping d coin, extractOnChainMasternodePing E.toPingChecks p.tx = some ping ∧
    ping.collateralOutpoint = o ∧ ping.inlineDel = some d ∧ p.view o = some coin ∧
    delegates E.toPingChecks d ping.pubKeyMasternode o coin.out.scriptPubKey = true ∧
    ∃ q ∈ p :: hist, ∃ del, q.before.delegation o = some del ∧ d.sigTime < del.sigTime

/-- Neither the current delegation of the outpoint nor the key bound to it changes. -/
def Unchanged (p : PingStep) (o : COutPoint) : Prop :=
  (p.after E).delegation o = p.before.delegation o ∧
    ∀ k : CPubKey, (p.after E).registry.mapMasternodeCollateralOutpoints[k]? = some o ↔
      p.before.registry.mapMasternodeCollateralOutpoints[k]? = some o

/-- The outpoint is an unspent coin of the required amount. -/
def PingStep.Live (p : PingStep) (o : COutPoint) : Prop :=
  o.isNull = false ∧ ∃ coin, p.view o = some coin ∧ coin.isSpent = false ∧
    coin.out.nValue = getMasternodeNodeCollateral p.nHeight

/-! ### One ping -/

variable {E} {p : PingStep} {o : COutPoint}

/-- A registration is only accepted for a collateral that is there. -/
theorem live_of_isValid {S : Delegations} {k : CPubKey} {inlineDel : Option COnChainMasternodeDelegation}
    (h : isValidMasternodeCollateralAndAuth E.toPingChecks p.view S k o p.nHeight inlineDel = true) :
    p.Live o := by
  rw [isValidMasternodeCollateralAndAuth, Bool.and_eq_true, Bool.and_eq_true] at h
  obtain ⟨⟨-, hnull⟩, h⟩ := h
  refine ⟨by simpa using hnull, ?_⟩
  cases hcoin : p.view o with
  | none => simp [hcoin] at h
  | some coin =>
    simp only [hcoin, Bool.and_eq_true, Bool.not_eq_true', beq_iff_eq] at h
    exact ⟨coin, rfl, h.1.1, h.1.2⟩

/-- **What a ping does to a delegation**: nothing, or it records its own for a collateral that is
there. -/
theorem delegation_after_cases (p : PingStep) (o : COutPoint) :
    (p.after E).delegation o = p.before.delegation o ∨
      ∃ ping d coin, extractOnChainMasternodePing E.toPingChecks p.tx = some ping ∧
        ping.collateralOutpoint = o ∧ ping.inlineDel = some d ∧ p.view o = some coin ∧
        delegates E.toPingChecks d ping.pubKeyMasternode o coin.out.scriptPubKey = true ∧
        p.Live o ∧ (p.after E).delegation o = some d := by
  rw [PingStep.after, registerPing]
  split
  case h_2 => exact Or.inl rfl
  case h_1 ping hping =>
    rw [registerOnChainMasternodePing]
    split_ifs with hvalid
    case neg => exact Or.inl rfl
    simp only [MasternodeState.delegation]
    cases hdel : ping.inlineDel with
    | none => exact Or.inl rfl
    | some d =>
      rw [recordInlineDelegation]
      split_ifs with hany
      case neg => exact Or.inl rfl
      obtain ⟨hrecorded, -⟩ := p.before.delegations.record_self ping.collateralOutpoint d p.nHeight
      by_cases ho : ping.collateralOutpoint = o
      · subst ho
        cases hcoin : p.view ping.collateralOutpoint with
        | none => simp [hcoin] at hany
        | some coin =>
          simp only [hcoin, Option.any_some, Bool.and_eq_true] at hany
          exact Or.inr ⟨ping, d, coin, hping, rfl, hdel, rfl, hany.2, live_of_isValid hvalid, hrecorded⟩
      · exact Or.inl (p.before.delegations.record_of_ne d p.nHeight ho).1

theorem unchanged_of_not_live {hist : List PingStep} (h : Replays E hist p o) (hlive : ¬p.Live o) :
    Unchanged E p o := by
  obtain ⟨ping, d, coin, hping, rfl, -⟩ := h
  have hafter : p.after E = p.before := by
    rw [PingStep.after, registerPing, hping]
    simp only [registerOnChainMasternodePing, if_neg fun hvalid ↦ hlive (live_of_isValid hvalid)]
  rw [Unchanged, hafter]
  exact ⟨rfl, fun _ ↦ Iff.rfl⟩

/-- An owner's delegation is recorded if the collateral is there, whatever its time. -/
theorem recorded_of_live {ping : MasternodePing} {d : COnChainMasternodeDelegation} {coin : Coin}
    (hping : extractOnChainMasternodePing E.toPingChecks p.tx = some ping)
    (hdel : ping.inlineDel = some d) (hcoin : p.view ping.collateralOutpoint = some coin)
    (hdelegates : delegates E.toPingChecks d ping.pubKeyMasternode ping.collateralOutpoint
      coin.out.scriptPubKey = true) (hlive : p.Live ping.collateralOutpoint) :
    (p.after E).delegation ping.collateralOutpoint = some d := by
  obtain ⟨hnull, coin', hcoin', hspent, hvalue⟩ := hlive
  obtain rfl := Option.some.inj (hcoin.symm.trans hcoin')
  have hkey : ping.pubKeyMasternode.isValid = true := by
    simp only [delegates, verifyOnChainDelegationSignature, Bool.and_eq_true, beq_iff_eq] at hdelegates
    rw [← hdelegates.1.1.1]
    exact hdelegates.2.1.1.2
  have hvalid : isValidMasternodeCollateralAndAuth E.toPingChecks p.view p.before.delegations
      ping.pubKeyMasternode ping.collateralOutpoint p.nHeight (some d) = true := by
    simp [isValidMasternodeCollateralAndAuth, hkey, hnull, hcoin, hspent, hvalue, hdelegates]
  rw [PingStep.after, registerPing, hping]
  simp only [registerOnChainMasternodePing, hdel, hvalid, if_true, MasternodeState.delegation,
    recordInlineDelegation, hcoin, Option.any_some, hspent, hdelegates, Bool.not_false, Bool.and_self]
  exact (p.before.delegations.record_self ping.collateralOutpoint d p.nHeight).1

/-! ### A run -/

/-- Every delegation that was current once has not been replaced by an older one. -/
def Newest (hist : List PingStep) (S : Delegations) : Prop :=
  ∀ q ∈ hist, ∀ o del, q.before.delegation o = some del →
    ∃ cur, S.mapOnChainCollateralDelegations[o]? = some cur ∧ del.sigTime ≤ cur.sigTime

variable {hist : List PingStep}

theorem unchanged_iff_not_live (hnewest : Newest hist p.before.delegations) (h : Replays E hist p o) :
    Unchanged E p o ↔ ¬p.Live o := by
  refine ⟨fun hsame hlive ↦ ?_, unchanged_of_not_live h⟩
  obtain ⟨ping, d, coin, hping, rfl, hdel, hcoin, hdelegates, q, hq, del, hold, hlt⟩ := h
  obtain ⟨cur, hcur, hle⟩ : ∃ cur, p.before.delegation ping.collateralOutpoint = some cur ∧
      del.sigTime ≤ cur.sigTime := by
    rcases List.mem_cons.1 hq with rfl | hq
    · exact ⟨del, hold, le_rfl⟩
    · exact hnewest q hq _ del hold
  have hrecorded := recorded_of_live hping hdel hcoin hdelegates hlive
  obtain rfl : d = cur := Option.some.inj (hrecorded.symm.trans (hsame.1.trans hcur))
  omega

theorem Newest.step (hnewest : Newest hist p.before.delegations) (h : ∀ o, Replays E hist p o → ¬p.Live o) :
    Newest (p :: hist) (p.after E).delegations := by
  intro q hq o del hold
  obtain ⟨cur, hcur, hle⟩ : ∃ cur, p.before.delegation o = some cur ∧ del.sigTime ≤ cur.sigTime := by
    rcases List.mem_cons.1 hq with rfl | hq
    · exact ⟨del, hold, le_rfl⟩
    · exact hnewest q hq o del hold
  rcases delegation_after_cases (E := E) p o with
    hsame | ⟨ping, d, coin, hping, ho, hdel, hcoin, hdelegates, hlive, hrecorded⟩
  · exact ⟨cur, hsame.trans hcur, hle⟩
  · have hnot : ¬d.sigTime < del.sigTime := fun hlt ↦
      h o ⟨ping, d, coin, hping, ho, hdel, hcoin, hdelegates, q, hq, del, hold, hlt⟩ hlive
    exact ⟨d, hrecorded, not_lt.1 hnot⟩

/-- The steps follow each other, as far as the delegations go. -/
inductive Linked (E : ActivityEnv) : Delegations → List PingStep → Delegations → Prop
  | nil (S) : Linked E S [] S
  | cons {p l S} : Linked E (p.after E).delegations l S → Linked E p.before.delegations (p :: l) S

theorem Linked.append {S S' S'' : Delegations} {l l' : List PingStep} (h : Linked E S l S')
    (h' : Linked E S' l' S'') : Linked E S (l ++ l') S'' := by
  induction h with
  | nil => exact h'
  | cons _ ih => exact .cons (ih h')

theorem linked_pingSteps (view : CoinLookup) (nHeight : ℤ) (vtx : List CTransaction)
    (s : MasternodeState) : Linked E s.delegations (pingSteps E view nHeight s vtx)
      (vtx.foldl (registerPing E view nHeight) s).delegations := by
  induction vtx generalizing s with
  | nil => exact .nil _
  | cons tx vtx ih => exact Linked.cons (p := ⟨s, view, nHeight, tx⟩) (ih _)

theorem delegations_registerBlock (view : CoinLookup) (s : MasternodeState) (block : CBlock)
    (nHeight : ℤ) : (registerBlockMasternodeActivity E view s block nHeight).delegations =
      (block.vtx.foldl (registerPing E view nHeight) s).delegations := by
  set s' := block.vtx.foldl (registerPing E view nHeight) s with hs'
  have hrest : registerBlockMasternodeActivity E view s block nHeight =
      registerBlockMasternodeActivity E view s' { block with vtx := [] } nHeight := rfl
  have hregister (t : MasternodeState) (k : CPubKey) (o : COutPoint) (ht : t.delegations = s'.delegations) :
      (registerOnChainMasternodePing E.toPingChecks view t k o nHeight none).2.delegations =
        s'.delegations := by
    rw [registerOnChainMasternodePing]
    split_ifs <;> exact ht
  rw [hrest]
  exact registerBlock_induction (motive := fun t ↦ t.delegations = s'.delegations) rfl
    (fun _ _ _ _ _ _ ht ↦ ht) (fun _ _ _ htx ↦ absurd htx List.not_mem_nil)
    (fun t k o _ ht ↦ hregister t k o ht) (fun t k sigPair _ _ _ ht ↦ hregister t k sigPair.1 ht)

theorem linked_runSteps (bs : List ConnectedBlock) (s : MasternodeState) :
    ∃ S, Linked E s.delegations (runSteps E s bs) S := by
  induction bs generalizing s with
  | nil => exact ⟨_, .nil _⟩
  | cons b bs ih =>
    obtain ⟨S, hS⟩ := ih (registerBlockMasternodeActivity E b.view s b.block b.nHeight)
    rw [delegations_registerBlock] at hS
    exact ⟨S, (linked_pingSteps b.view b.nHeight b.block.vtx s).append hS⟩

theorem atEachStep_iff {S S' : Delegations} {l : List PingStep} (hl : Linked E S l S')
    {hist : List PingStep} (hnewest : Newest hist S) :
    AtEachStep (fun hist p ↦ ∀ o, Replays E hist p o → Unchanged E p o) hist l ↔
      AtEachStep (fun hist p ↦ ∀ o, Replays E hist p o → ¬p.Live o) hist l := by
  induction hl generalizing hist with
  | nil => exact Iff.rfl
  | @cons p l S _ ih =>
    have hstep : (∀ o, Replays E hist p o → Unchanged E p o) ↔ ∀ o, Replays E hist p o → ¬p.Live o :=
      forall_congr' fun o ↦ forall_congr' fun h ↦ unchanged_iff_not_live hnewest h
    rw [AtEachStep, AtEachStep, hstep]
    exact and_congr_right fun h ↦ ih (hnewest.step h)

/-- **Replaced operators.** Connect any blocks to any state. No ping with a delegation older than one
that was current before changes the outpoint's delegation or the key bound to it, exactly if each
such ping comes when the outpoint is not an unspent coin of the required amount. -/
theorem newer_delegations_kept_iff (E : ActivityEnv) (s : MasternodeState) (bs : List ConnectedBlock) :
    AtEachStep (fun hist p ↦ ∀ o, Replays E hist p o → Unchanged E p o) [] (runSteps E s bs) ↔
      AtEachStep (fun hist p ↦ ∀ o, Replays E hist p o → ¬p.Live o) [] (runSteps E s bs) := by
  obtain ⟨S, hS⟩ := linked_runSteps (E := E) bs s
  exact atEachStep_iff hS fun _ hq ↦ absurd hq List.not_mem_nil

/-! ### A former operator -/

section Example

def trustingEnv : ActivityEnv := { exampleEnv with checkSignature := fun _ _ ↦ true }

def operatorKey (i : UInt8) : CPubKey := CPubKey.set (3 :: List.replicate 32 i)

/-- The owner of the collateral makes somebody its operator. -/
def operatorDelegation (i sigTime : UInt8) : COnChainMasternodeDelegation :=
  ⟨exampleKey, operatorKey i, ⟨0, 0⟩, sigTime.toNat, 0, 0, [1]⟩

def operatorPing (i sigTime : UInt8) : CTransaction where
  nVersion := 1
  vin := [⟨⟨9, 0⟩, [], sequenceFinal⟩]
  vout :=
    [⟨0, 33 :: (operatorKey i).vch ++ [Opcode.OP_CHECKSIGVERIFY.toByte, Opcode.OP_1.toByte]⟩,
     ⟨0, CScript.pushData [Opcode.OP_RETURN.toByte]
      (Writer.outPoint (exampleCollateral 1) ++ [1, 1, 1] ++ 33 :: exampleKey.vch ++
        33 :: (operatorKey i).vch ++ List.replicate 18 0 ++ sigTime :: List.replicate 7 0 ++
        List.replicate 8 0 ++ [1, 1])⟩]
  nLockTime := 0

def operatorBlock (i sigTime : UInt8) : CBlock :=
  { examplePingBlock 1 with vtx := [operatorPing i sigTime] }

/-- The state after the first operator was replaced by the second one. -/
def secondOperator : MasternodeState :=
  registerBlockMasternodeActivity trustingEnv exampleView
    (registerBlockMasternodeActivity trustingEnv exampleView ⟨Registry.empty, Delegations.empty, ∅⟩
      (operatorBlock 1 10) 1)
    (operatorBlock 2 20) 2

/-- The state after the first operator's old delegation comes again. -/
def firstOperatorAgain : MasternodeState :=
  registerBlockMasternodeActivity trustingEnv exampleView secondOperator (operatorBlock 1 10) 3

/-- **A former operator returns.** The delegation of time 10 replaces the one of time 20, and the
collateral is bound to its key again. -/
theorem former_operator_returns :
    secondOperator.delegation (exampleCollateral 1) = some (operatorDelegation 2 20) ∧
      secondOperator.registry.mapMasternodeCollateralOutpoints[operatorKey 2]? =
        some (exampleCollateral 1) ∧
      secondOperator.registry.mapMasternodeCollateralOutpoints[operatorKey 1]? = none ∧
      firstOperatorAgain.delegation (exampleCollateral 1) = some (operatorDelegation 1 10) ∧
      firstOperatorAgain.registry.mapMasternodeCollateralOutpoints[operatorKey 2]? = none ∧
      firstOperatorAgain.registry.mapMasternodeCollateralOutpoints[operatorKey 1]? =
        some (exampleCollateral 1) := by
  decide +kernel

end Example

end KristaTech.Masternode
