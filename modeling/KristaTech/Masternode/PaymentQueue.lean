import Mathlib.Data.Fintype.EquivFin
import KristaTech.Masternode.Payments

/-!
# The passive reward over a run of blocks

From Model D on half of a reward goes to one of the active masternodes, which the documents call the
next one in a queue. `GetModelDPassiveMasternodePayee` keeps no queue: in every block it takes the
masternode at the place that the seed of the parent gives, modulo their number, in the order of the
collaterals (`MasternodeRun.payee_eq`).

So in a run of `n` blocks with the same `n` masternodes everybody is paid in turn exactly if the
seeds happen to fall so (`followsQueue_iff`).
-/

namespace KristaTech.Masternode

open Adam List

variable {E : ValidationEnv} {n : ℕ}

theorem collateralPayee_of_isValid {outs : COutPoint → CTxOut} {view : CoinLookup} {S : Delegations}
    {k : CPubKey} {o : COutPoint} {refHeight : ℤ} (hview : view.Agrees outs)
    (h : isValidMasternodeCollateralAndAuth E.toPingChecks view S k o refHeight none = true)
    (nHeight : ℤ) : collateralPayee view nHeight o = some (outs o).scriptPubKey := by
  rw [isValidMasternodeCollateralAndAuth, Bool.and_eq_true] at h
  cases hcoin : view o with
  | none => simp [hcoin] at h
  | some coin =>
    simp only [hcoin, Bool.and_eq_true, Bool.not_eq_true'] at h
    obtain ⟨-, ⟨hspent, hvalue⟩, -⟩ := h
    have hout := hview o coin hcoin hspent
    -- the amount of a collateral is the same at every height
    have hpaid : (!coin.isSpent && coin.out.nValue == getMasternodeNodeCollateral nHeight) = true := by
      rw [hspent]
      exact hvalue
    rw [collateralPayee, hcoin, Option.bind_some, if_pos hpaid, hout]

variable (E n) in
/-- A run of `n` consecutive Model D blocks, in whose parents' states the same `n` collaterals are
those of the active masternodes. -/
structure MasternodeRun where
  /-- The height of the first block. -/
  nHeight : ℤ
  /-- What each block is checked in. -/
  states : Fin n → ElectionState
  outs : COutPoint → CTxOut
  collaterals : List COutPoint
  length_collaterals : collaterals.length = n
  isModelDActive : ∀ i : Fin n, E.consensus.isModelDActive (nHeight + i) = true
  active : ∀ i : Fin n, ((activeMasternodes E (states i).view (states i).masternodes
    (nHeight + i - 1)).map Prod.snd).Perm collaterals
  agrees : ∀ i, (states i).view.Agrees outs

namespace MasternodeRun

variable (R : MasternodeRun E n)

/-- The script that the passive share of a block has to be paid to. -/
def payee (i : Fin n) : Option CScript :=
  getModelDPassiveMasternodePayee E (R.states i) (R.nHeight + i)

/-- The owners are paid in turn: each one's script is the payee once for each of its collaterals. -/
def FollowsQueue : Prop :=
  ∀ o ∈ R.collaterals, (List.finRange n).countP (fun i ↦ R.payee i = some (R.outs o).scriptPubKey) =
      R.collaterals.countP fun o' ↦ (R.outs o').scriptPubKey = (R.outs o).scriptPubKey

instance : Decidable R.FollowsQueue :=
  inferInstanceAs (Decidable (∀ o ∈ R.collaterals, _ = _))

def ordered : List COutPoint := R.collaterals.insertionSort fun a b ↦ (compare a b).isLE

theorem length_ordered : R.ordered.length = n :=
  (perm_insertionSort _ _).length_eq.trans R.length_collaterals

def owner (j : Fin n) : CScript := (R.outs (R.ordered.get (j.cast R.length_ordered.symm))).scriptPubKey

/-- The place that a block's seed gives, of `n`. -/
def winIdx (i : Fin n) : Fin n :=
  ⟨((R.states i).seedAt (R.nHeight + i - 1)).toNat % 2 ^ 64 % n, Nat.mod_lt _ i.pos⟩

theorem map_fst_sorted (i : Fin n) :
    (((activeMasternodes E (R.states i).view (R.states i).masternodes (R.nHeight + i - 1)).map
      Prod.swap).insertionSort fun a b ↦
        ((compare a.1 b.1).then (compare a.2 b.2)).isLE).map Prod.fst = R.ordered := by
  have := KeyOrder.total_isLE fun a b : COutPoint ↦ compare a b
  have := KeyOrder.isTrans_isLE fun a b : COutPoint ↦ compare a b
  have := KeyOrder.antisymm_isLE fun a b : COutPoint ↦ compare a b
  rw [KeyOrder.map_fst_insertionSort, map_map]
  refine List.Perm.eq_of_pairwise' (r := fun a b : COutPoint ↦ (compare a b).isLE = true)
    (pairwise_insertionSort _ _) (pairwise_insertionSort _ _) ?_
  exact (perm_insertionSort _ _).trans ((R.active i).trans (perm_insertionSort _ _).symm)

/-- **The payee of a block** is the owner at the place that its seed gives. -/
theorem payee_eq (i : Fin n) : R.payee i = some (R.owner (R.winIdx i)) := by
  set mns := ((activeMasternodes E (R.states i).view (R.states i).masternodes
    (R.nHeight + i - 1)).map Prod.swap).insertionSort fun a b ↦
      ((compare a.1 b.1).then (compare a.2 b.2)).isLE with hmns
  have hordered : mns.map Prod.fst = R.ordered := R.map_fst_sorted i
  have hlength : mns.length = n := by rw [← length_map, hordered, R.length_ordered]
  have hlt : ((R.states i).seedAt (R.nHeight + i - 1)).toNat % 2 ^ 64 % mns.length < mns.length :=
    Nat.mod_lt _ (hlength ▸ i.pos)
  set win := mns[((R.states i).seedAt (R.nHeight + i - 1)).toNat % 2 ^ 64 % mns.length] with hwin
  have howner : R.owner (R.winIdx i) = (R.outs win.1).scriptPubKey := by
    simp [owner, winIdx, hwin, ← hordered, hlength]
  obtain ⟨kv, hkv, hswap⟩ := mem_map.1 ((perm_insertionSort _ _).mem_iff.1 (getElem_mem hlt))
  have hpayee := collateralPayee_of_isValid (R.agrees i) (mem_activeMasternodes hkv).2 (R.nHeight + i)
  have hfst : win.1 = kv.2 := by rw [hwin, ← hswap, Prod.fst_swap]
  rw [howner, hfst, payee, getModelDPassiveMasternodePayee, ← hmns, getElem?_eq_getElem hlt,
    ← hwin, Option.bind_some, hfst, hpayee, Option.some_or]

theorem ordered_eq_map :
    R.ordered = (List.finRange n).map fun j ↦ R.ordered.get (j.cast R.length_ordered.symm) :=
  ext_getElem (by simp [R.length_ordered]) (by simp)

theorem countP_collaterals (p : CScript → Bool) : R.collaterals.countP (fun o ↦ p (R.outs o).scriptPubKey) =
      (List.finRange n).countP fun j ↦ p (R.owner j) := by
  have hperm : R.ordered.Perm R.collaterals := perm_insertionSort _ _
  rw [← hperm.countP_eq, ordered_eq_map, countP_map]
  rfl

theorem mem_collaterals_iff {o : COutPoint} :
    o ∈ R.collaterals ↔ ∃ j : Fin n, R.ordered.get (j.cast R.length_ordered.symm) = o := by
  have hperm : R.ordered.Perm R.collaterals := perm_insertionSort _ _
  have hmem : o ∈ R.ordered ↔ o ∈ (List.finRange n).map fun j ↦
      R.ordered.get (j.cast R.length_ordered.symm) := by rw [← ordered_eq_map]
  simp [← hperm.mem_iff, hmem]

theorem followsQueue_iff_count : R.FollowsQueue ↔ ∀ j : Fin n,
      (List.finRange n).countP (fun i ↦ R.owner (R.winIdx i) = R.owner j) =
        (List.finRange n).countP fun j' ↦ R.owner j' = R.owner j := by
  have hcount (script : CScript) : (List.finRange n).countP (fun i ↦ R.payee i = some script) =
          R.collaterals.countP (fun o ↦ (R.outs o).scriptPubKey = script) ↔
        (List.finRange n).countP (fun i ↦ R.owner (R.winIdx i) = script) =
          (List.finRange n).countP fun j ↦ R.owner j = script := by
    simp only [payee_eq, Option.some.injEq]
    rw [R.countP_collaterals fun s ↦ decide (s = script)]
  constructor
  · intro h j
    exact (hcount _).1 (h _ (R.mem_collaterals_iff.2 ⟨j, rfl⟩))
  · intro h o ho
    obtain ⟨j, rfl⟩ := R.mem_collaterals_iff.1 ho
    exact (hcount _).2 (h j)

theorem countP_eq_one_iff_injective (f : Fin n → Fin n) :
    (∀ j, (List.finRange n).countP (fun i ↦ f i = j) = 1) ↔ f.Injective := by
  have hcount (j : Fin n) :
      (List.finRange n).countP (fun i ↦ f i = j) = ((List.finRange n).map f).count j := by
    rw [List.count, countP_map]
    exact countP_congr fun i _ ↦ by simp
  simp only [hcount]
  constructor
  · intro h
    have hnodup : ((List.finRange n).map f).Nodup :=
      nodup_iff_count_le_one.2 fun j ↦ (h j).le
    exact fun i i' heq ↦ inj_on_of_nodup_map hnodup (mem_finRange i) (mem_finRange i') heq
  · intro h j
    obtain ⟨i, rfl⟩ := Finite.injective_iff_surjective.1 h j
    rw [count_map_of_injective _ f h]
    exact count_eq_one_of_mem (nodup_finRange n) (mem_finRange i)

/-- **The passive reward follows a queue exactly if the seeds fall so**: if the places they give are
as often those of an owner as it has collaterals. If the owners differ, then no two seeds may be equal
modulo the number of masternodes. -/
theorem followsQueue_iff : (R.FollowsQueue ↔ ∀ j : Fin n,
      (List.finRange n).countP (fun i ↦ R.owner (R.winIdx i) = R.owner j) =
        (List.finRange n).countP fun j' ↦ R.owner j' = R.owner j) ∧
    (R.owner.Injective → (R.FollowsQueue ↔ R.winIdx.Injective)) := by
  refine ⟨R.followsQueue_iff_count, fun hinj ↦ ?_⟩
  have hself (j : Fin n) : (List.finRange n).countP (fun j' ↦ j' = j) = 1 :=
    (countP_eq_one_iff_injective id).2 Function.injective_id j
  rw [followsQueue_iff_count]
  simp only [hinj.eq_iff, hself]
  exact countP_eq_one_iff_injective R.winIdx

end MasternodeRun

/-! ### Two masternodes -/

def collateralOutpoint (n : UInt8) : COutPoint := ⟨n.toNat, 0⟩

def collateralOut (n : UInt8) : CTxOut :=
  ⟨getMasternodeNodeCollateral 0, getScriptForDestination (.keyID ((minedKey n).getID default))⟩

def pairView : CoinLookup := fun o ↦
  if o = collateralOutpoint 1 then some ⟨false, false, collateralOut 1, 1⟩
  else if o = collateralOutpoint 2 then some ⟨false, false, collateralOut 2, 1⟩
  else none

/-- Two masternodes that were active at height 2100, and a seed. -/
def pairState (seed : Uint256) : ElectionState where
  view := pairView
  masternodes :=
    { registry :=
        { mapMasternodeActiveHeights := .ofList [(minedKey 1, Std.ExtTreeSet.ofList [(2100 : ℤ)]),
            (minedKey 2, Std.ExtTreeSet.ofList [(2100 : ℤ)])]
          mapMasternodeLastActiveHeight := .ofList [(minedKey 1, (2100 : ℤ)), (minedKey 2, 2100)]
          mapMasternodeCollateralOutpoints := .ofList [(minedKey 1, collateralOutpoint 1),
            (minedKey 2, collateralOutpoint 2)] }
      delegations := .empty
      pins := ∅ }
  getAdamMinerPool := fun _ ↦ []
  seedAt := fun _ ↦ seed
  isValid_minerPool := nofun
  nodup_minerPool := fun _ ↦ nodup_nil

theorem active_pairState (seed : Uint256) (i : Fin 2) :
    ((activeMasternodes default (pairState seed).view (pairState seed).masternodes
      (2200 + i - 1)).map Prod.snd).Perm [collateralOutpoint 1, collateralOutpoint 2] := by
  have hactive : ∀ i : Fin 2, ((activeMasternodes default (pairState 0).view
      (pairState 0).masternodes (2200 + i - 1)).map Prod.snd).Perm
        [collateralOutpoint 1, collateralOutpoint 2] := by decide +kernel
  exact hactive i

def pairRun (seed seed' : Uint256) : MasternodeRun default 2 where
  nHeight := 2200
  states := fun i ↦ pairState (if i = 0 then seed else seed')
  outs := fun o ↦ if o = collateralOutpoint 1 then collateralOut 1 else collateralOut 2
  collaterals := [collateralOutpoint 1, collateralOutpoint 2]
  length_collaterals := rfl
  isModelDActive := by decide
  active := fun i ↦ active_pairState _ i
  agrees := by
    intro i o coin hcoin _
    change pairView o = some coin at hcoin
    rw [pairView] at hcoin
    split_ifs at hcoin with h1 h2
    · simp [h1, ← Option.some.inj hcoin]
    · simp [h1, ← Option.some.inj hcoin]

/-- With the seeds 7 and 8 both masternodes are paid. -/
theorem followsQueue_pairRun : (pairRun 7 8).owner.Injective ∧ (pairRun 7 8).FollowsQueue := by
  have howner : (pairRun 7 8).owner.Injective := by decide +kernel
  exact ⟨howner, ((pairRun 7 8).followsQueue_iff.2 howner).2 (by decide)⟩

/-- With the seeds 7 and 9 the second masternode is paid twice, and the first not at all. -/
theorem not_followsQueue_pairRun : ¬ (pairRun 7 9).FollowsQueue := by
  decide +kernel

end KristaTech.Masternode
