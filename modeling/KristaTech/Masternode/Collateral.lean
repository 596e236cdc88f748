import KristaTech.Primitives.RoundTrip
import KristaTech.Masternode.Consistency

/-!
# What the collaterals pay to

A collateral is only registered for a masternode if its coin pays to a key, either the masternode's
own or that of an owner who has delegated it. The coin is looked at when the collateral is
registered; later on, when rewards are paid to its script, the registry is trusted.

An outpoint names a transaction by its hash, so whatever coins are unspent along a run, there is one
output for each outpoint (`CoinLookup.Agrees`). Then in every run, through connections and
disconnections, the registered collaterals pay to keys (`ReachableOn.boundToKeys`), and such a script
has the key's address as its destination (`extractDestination_keyID`).
-/

namespace KristaTech

/-! ### The script of a key -/

theorem solver_keyID (mescalDecompiles : CScript → Bool) (id : Uint160) :
    solver mescalDecompiles (getScriptForDestination (.keyID id)) =
      some (.TX_PUBKEYHASH, [id.toBytes]) := by
  have hlen : (getScriptForDestination (.keyID id)).length = 25 := by
    simp [getScriptForDestination]
  have hreturn : (getScriptForDestination (.keyID id)).head? ≠ some Opcode.OP_RETURN.toByte := by
    show some Opcode.OP_DUP.toByte ≠ some Opcode.OP_RETURN.toByte
    decide
  have hscript : CScript.isPayToScriptHash (getScriptForDestination (.keyID id)) = false := by
    simp [CScript.isPayToScriptHash, hlen]
  have hkey : matchPayToPubkey (getScriptForDestination (.keyID id)) = none := by
    simp [matchPayToPubkey, matchKeyOfSize, hlen, CPubKey.publicKeySize, CPubKey.compressedPublicKeySize]
  have hhash : matchPayToPubkeyHash (getScriptForDestination (.keyID id)) = some id.toBytes := by
    simp [matchPayToPubkeyHash, getScriptForDestination, List.take_left']
  simp [solver, hscript, hlen, hreturn, hkey, hhash]

theorem extractDestination_keyID (mescalDecompiles : CScript → Bool) (C : Crypto) (id : Uint160) :
    extractDestination mescalDecompiles C (getScriptForDestination (.keyID id)) = some (.keyID id) := by
  rw [extractDestination, solver_keyID]
  show some (CTxDestination.keyID (Uint160.ofBytes id.toBytes)) = _
  rw [id.ofBytes_toBytes]

namespace Masternode

def PaysToKey (out : CTxOut) : Prop := ∃ id, out.scriptPubKey = getScriptForDestination (.keyID id)

/-- The unspent coins are outputs of the transactions that their outpoints name. -/
def CoinLookup.Agrees (outs : COutPoint → CTxOut) (view : CoinLookup) : Prop :=
  ∀ o coin, view o = some coin → coin.isSpent = false → coin.out = outs o

def MasternodeState.BoundToKeys (outs : COutPoint → CTxOut) (s : MasternodeState) : Prop :=
  ∀ (k : CPubKey) o, s.registry.mapMasternodeCollateralOutpoints[k]? = some o → PaysToKey (outs o)

variable {E : ActivityEnv} {P : PingChecks} {view : CoinLookup} {outs : COutPoint → CTxOut}
  {s : MasternodeState} {nHeight : ℤ}

theorem exists_coin_of_isValid {S : Delegations} {k : CPubKey} {o : COutPoint}
    {inlineDel : Option COnChainMasternodeDelegation}
    (h : isValidMasternodeCollateralAndAuth P view S k o nHeight inlineDel = true) :
    ∃ coin, view o = some coin ∧ coin.isSpent = false ∧ PaysToKey coin.out := by
  have hdelegates {del : COnChainMasternodeDelegation} {script : CScript}
      (hdel : delegates P del k o script = true) :
      ∃ id, script = getScriptForDestination (.keyID id) := by
    simp only [delegates, Bool.and_eq_true, beq_iff_eq] at hdel
    exact ⟨_, hdel.1.2⟩
  rw [isValidMasternodeCollateralAndAuth, Bool.and_eq_true] at h
  cases hcoin : view o with
  | none => simp [hcoin] at h
  | some coin =>
    simp only [hcoin, Bool.and_eq_true, Bool.or_eq_true, Bool.not_eq_true', beq_iff_eq,
      Option.any_eq_true] at h
    obtain ⟨-, ⟨hspent, -⟩, (hscript | ⟨del, -, hdel⟩) | ⟨del, -, hdel⟩⟩ := h
    · exact ⟨coin, rfl, hspent, _, hscript⟩
    · exact ⟨coin, rfl, hspent, hdelegates hdel⟩
    · exact ⟨coin, rfl, hspent, hdelegates hdel⟩

namespace MasternodeState.BoundToKeys

theorem mono {s' : MasternodeState} (h : s.BoundToKeys outs)
    (hsub : ∀ (k : CPubKey) o, s'.registry.mapMasternodeCollateralOutpoints[k]? = some o →
      s.registry.mapMasternodeCollateralOutpoints[k]? = some o) : s'.BoundToKeys outs :=
  fun k o ho ↦ h k o (hsub k o ho)

theorem register (h : s.BoundToKeys outs) (hview : view.Agrees outs) (k : CPubKey) (o : COutPoint)
    (inlineDel : Option COnChainMasternodeDelegation) :
    (registerOnChainMasternodePing P view s k o nHeight inlineDel).2.BoundToKeys outs := by
  rw [registerOnChainMasternodePing]
  split_ifs with hvalid
  · intro k' o' ho'
    change (s.registry.bind k o nHeight).mapMasternodeCollateralOutpoints[k']? = some o' at ho'
    simp only [Registry.bind, Std.ExtTreeMap.getElem?_insert, Std.LawfulEqOrd.compare_eq_iff_eq] at ho'
    split_ifs at ho' with hk
    · obtain rfl := Option.some.inj ho'
      obtain ⟨coin, hcoin, hspent, hpays⟩ := exists_coin_of_isValid hvalid
      rwa [← hview o coin hcoin hspent]
    · rw [Registry.evictOthers, Std.ExtTreeMap.getElem?_filter] at ho'
      simp only [Option.pfilter_eq_some_iff] at ho'
      exact h k' o' ho'.1
  · exact h

theorem registerBlock (h : s.BoundToKeys outs) (hview : view.Agrees outs) (block : CBlock) :
    (registerBlockMasternodeActivity E view s block nHeight).BoundToKeys outs :=
  registerBlock_induction (motive := fun s ↦ s.BoundToKeys outs) h
    (fun _ _ _ _ _ _ h ↦ h) (fun _ _ _ _ _ h ↦ h.register hview _ _ _)
    (fun _ _ _ _ h ↦ h.register hview _ _ _) (fun _ _ _ _ _ _ h ↦ h.register hview _ _ _)

theorem restoreKey (h : s.BoundToKeys outs) (hview : view.Agrees outs)
    (readBlock : ℤ → Option CBlock) (mapEmptiedCollaterals : Std.ExtTreeMap CPubKey COutPoint)
    (k : CPubKey) :
    (restoreKey E view readBlock nHeight mapEmptiedCollaterals s k).BoundToKeys outs := by
  refine List.tryEach_invariant (motive := fun s : MasternodeState ↦ s.BoundToKeys outs) ?_
    fun x hx s h ↦ scanAndRescan_induction (motive := fun s ↦ s.BoundToKeys outs) h
      (fun _ _ _ _ _ _ h ↦ h.register hview _ _ _) readBlock _ _ hx
  refine h.mono fun k' o ho ↦ ?_
  rw [Std.ExtTreeMap.getElem?_erase] at ho
  split at ho
  · cases ho
  · exact ho

theorem disconnect (h : s.BoundToKeys outs) (hview : view.Agrees outs)
    (readBlock : ℤ → Option CBlock) (block : CBlock) :
    (disconnectMasternodes E view readBlock s block nHeight).BoundToKeys outs := by
  rw [disconnectMasternodes]
  refine List.foldl_invariant (motive := fun s : MasternodeState ↦ s.BoundToKeys outs) ?_
    fun k _ s h ↦ h.restoreKey hview readBlock _ k
  refine List.foldl_invariant (motive := fun a : Emptied ↦ a.state.BoundToKeys outs) ?_ fun tx _ a h ↦ ?_
  · refine h.mono fun k o ho ↦ ?_
    have hcases := eraseHeights_cases nHeight { s with pins := s.pins.unpinBLSPubKeysAtHeight nHeight } k
    obtain ⟨-, ha⟩ | ⟨S, m, -, -, -, ha⟩ | ⟨S, -, -, -, ha⟩ := hcases <;>
      simp only [Emptied.atKey, Registry.entry, Prod.mk.injEq] at ha <;> exact ha.1.2.2 ▸ ho
  · obtain ⟨hR, -⟩ := revertPing_frame E nHeight a tx
    exact h.mono fun k o ho ↦ hR ▸ ho

end MasternodeState.BoundToKeys

/-- The states a node can be in, when all its coins are outputs that their outpoints name. -/
inductive ReachableOn (outs : COutPoint → CTxOut) : MasternodeState → ℤ → Prop
  | start : ReachableOn outs ⟨Registry.empty, Delegations.empty, ∅⟩ 0
  | connect {s nTip} (E : ActivityEnv) (view : CoinLookup) (block : CBlock) : view.Agrees outs →
    ReachableOn outs s nTip →
    ReachableOn outs (registerBlockMasternodeActivity E view s block (nTip + 1)) (nTip + 1)
  | disconnect {s nTip} (E : ActivityEnv) (view : CoinLookup) (readBlock : ℤ → Option CBlock)
    (block : CBlock) : view.Agrees outs → ReachableOn outs s nTip →
    ReachableOn outs (disconnectMasternodes E view readBlock s block nTip) (nTip - 1)

theorem ReachableOn.boundToKeys {nTip : ℤ} (h : ReachableOn outs s nTip) : s.BoundToKeys outs := by
  induction h with
  | start =>
    intro k o ho
    simp [Registry.empty] at ho
  | connect E view block hview _ ih => exact ih.registerBlock hview block
  | disconnect E view readBlock block hview _ ih => exact ih.disconnect hview readBlock block

end Masternode

end KristaTech
