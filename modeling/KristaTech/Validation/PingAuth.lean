import KristaTech.Validation.ConnectFailure
import KristaTech.Masternode.ActivityUndo
import KristaTech.Primitives.RoundTrip

/-!
# Who signed a ping

A ping whose key is named by an output has to carry a signature of the key. One whose key is named by
an input does not: the key is taken from the last push but one of the input's script, as if the
input had been spent through a leaf script with this key. Nothing makes sure of that, so anybody can
let any masternode ping (`ping_without_signature`). The pings of transactions without such an input
are signed (`pings_signed`).
-/

namespace KristaTech

open Option

/-! ### Readers that only differ in what they find -/

namespace Reader
variable {α β γ δ : Type}

/-- Two readers stop at the same place, with results that agree as far as `q` looks. -/
def Same (q : α → β) (r r' : Reader α) : Prop :=
  ∀ s, (r s).map (Prod.map q id) = (r' s).map (Prod.map q id)

theorem Same.refl (q : α → β) (r : Reader α) : Same q r r := fun _ ↦ rfl

variable {q : α → β}

theorem Same.pure {a a' : α} (h : q a = q a') : Same q (pure a) (pure a') :=
  fun s ↦ congrArg (fun b ↦ some (b, s)) h

theorem Same.bind {p : γ → δ} {r r' : Reader α} {f f' : α → Reader γ} (hr : Same q r r')
    (hf : ∀ a a', q a = q a' → Same p (f a) (f' a')) : Same p (r >>= f) (r' >>= f') := by
  intro s
  have h := hr s
  show ((r s).bind fun p ↦ f p.1 p.2).map _ = ((r' s).bind fun p ↦ f' p.1 p.2).map _
  cases hs : r s with
  | none =>
    rw [hs] at h
    rw [map_eq_none_iff.1 h.symm]
    rfl
  | some a =>
    rw [hs] at h
    obtain ⟨a', ha', h⟩ := map_eq_some_iff.1 h.symm
    obtain ⟨hq, hrest⟩ : q a'.1 = q a.1 ∧ a'.2 = a.2 := Prod.mk.inj h
    rw [ha', bind_some, bind_some, hrest]
    exact hf _ _ hq.symm _

theorem Same.ite {c : Prop} [Decidable c] {r₁ r₁' r₂ r₂' : Reader α} (h₁ : Same q r₁ r₁')
    (h₂ : Same q r₂ r₂') : Same q (if c then r₁ else r₂) (if c then r₁' else r₂') := by
  split
  · exact h₁
  · exact h₂

end Reader
namespace Masternode

variable {P P' : PingChecks} {tx : CTransaction} {K : CPubKey} {o : COutPoint}

/-! ### Signatures in a transaction -/

/-- An output carries a signature of the key for the collateral and the first input. -/
def PingSignature (P : PingChecks) (tx : CTransaction) (K : CPubKey) (o : COutPoint) : Prop :=
  ∃ out ∈ tx.vout, ∃ op, CScript.getOp (out.scriptPubKey.drop 1) = some op ∧
    ∃ rest, Reader.readOutPoint op.vch = some (o, rest) ∧
      ∃ vchPingSig rest', Reader.readByteVector rest = some (vchPingSig, rest') ∧
        K.verify P.crypto (P.crypto.hash (Writer.outPoint o ++
          (tx.vin.head?.map fun txin ↦ Writer.outPoint txin.prevout).getD [])) vchPingSig = true

/-- An input carries a signature of the key for the transaction, with whatever script code. -/
def InputSignature (P : PingChecks) (tx : CTransaction) (K : CPubKey) : Prop :=
  ∃ txin ∈ tx.vin, ∃ vchSig ∈ CScript.pushes txin.scriptSig, ∃ nIn scriptCode,
    ({ txTo := tx, nIn := nIn, precomTxData := none } : TransactionSignatureChecker).checkEcdsaSig
      P.crypto vchSig K.bytes scriptCode = true

def SignedPing (P : PingChecks) (tx : CTransaction) (K : CPubKey) (o : COutPoint) : Prop :=
  PingSignature P tx K o ∨ InputSignature P tx K

/-- No input's script carries what looks like a leaf script with a key. -/
def NoLeafKey (tx : CTransaction) : Prop :=
  ∀ txin ∈ tx.vin, (leafScript txin).bind pingScriptKey = none

theorem findPingKey_of_noLeafKey (h : NoLeafKey tx) :
    findPingKey tx = (tx.vout.findSome? fun out ↦ pingScriptKey out.scriptPubKey).map (·, false) := by
  rw [findPingKey, List.findSome?_eq_none_iff.2 h]

theorem findPingKey_of_leafKey (h : ¬NoLeafKey tx) : ∃ K, findPingKey tx = some (K, true) := by
  rw [NoLeafKey, ← List.findSome?_eq_none_iff] at h
  obtain ⟨K, hK⟩ := ne_none_iff_exists'.1 h
  exact ⟨K, by rw [findPingKey, hK]⟩

/-! ### A ping that an output names -/

variable {s : MasternodeState} {ping : MasternodePing} {k : CPubKey} {nHeight x : ℤ}

/-- A ping named by an output only is read with its signature. -/
theorem signature_of_readPing {s rest : Bytes} (h : readPing P tx K false s = some (some ping, rest)) :
    ping.pubKeyMasternode = K ∧ ∃ rest, Reader.readOutPoint s = some (ping.collateralOutpoint, rest) ∧
      ∃ vchPingSig rest', Reader.readByteVector rest = some (vchPingSig, rest') ∧
        K.verify P.crypto (P.crypto.hash (Writer.outPoint ping.collateralOutpoint ++
          (tx.vin.head?.map fun txin ↦ Writer.outPoint txin.prevout).getD [])) vchPingSig = true := by
  obtain ⟨o, s₁, ho, h⟩ := Reader.bind_eq_some_iff.1 h
  obtain ⟨empty, s₂, hempty, h⟩ := Reader.bind_eq_some_iff.1 h
  obtain ⟨rfl, rfl⟩ : s₁.isEmpty = empty ∧ s₁ = s₂ := Prod.mk.inj (Option.some.inj hempty)
  split at h
  · cases h
  obtain ⟨sig, s₃, hsig, h⟩ := Reader.bind_eq_some_iff.1 h
  simp only at h
  split at h
  · cases h
  rename_i hverify
  obtain ⟨inlineDel, s₄, -, h⟩ := Reader.bind_eq_some_iff.1 h
  obtain rfl := Option.some.inj (Prod.mk.inj (Option.some.inj h)).1
  simp only [Bool.or_eq_true, Bool.not_eq_true', not_or, Bool.not_eq_false] at hverify
  exact ⟨rfl, s₁, ho, sig, s₃, hsig, hverify.2⟩

theorem pingSignature_of_findSome (h : (tx.vout.findSome? (readPingOutput P tx K false)).join = some ping) :
    PingSignature P tx ping.pubKeyMasternode ping.collateralOutpoint := by
  obtain ⟨out, hout, hread⟩ := List.exists_of_findSome?_eq_some (join_eq_some_iff.1 h)
  simp only [readPingOutput, bind_eq_bind, bind_eq_some_iff, guard_eq_some',
    pure_def, Option.some.injEq] at hread
  obtain ⟨-, -, op, hop, -, -, ⟨ping', rest⟩, hping, rfl⟩ := hread
  obtain ⟨rfl, hsig⟩ := signature_of_readPing hping
  exact ⟨out, hout, op, hop, hsig⟩

theorem pingSignature_of_extract (h : NoLeafKey tx)
    (hping : extractOnChainMasternodePing P tx = some ping) :
    PingSignature P tx ping.pubKeyMasternode ping.collateralOutpoint := by
  simp only [extractOnChainMasternodePing, findPingKey_of_noLeafKey h, bind_eq_bind,
    bind_eq_some_iff, map_eq_some_iff] at hping
  obtain ⟨_, -, ⟨K, fSignedInput⟩, ⟨_, -, heq⟩, hread⟩ := hping
  obtain ⟨-, rfl⟩ := Prod.mk.inj heq
  exact pingSignature_of_findSome hread

/-! ### A ping that an input names -/

open Reader in
theorem same_readInlineDelegation :
    Same (fun _ ↦ ()) (readInlineDelegation P K o) (readInlineDelegation P' K o) := by
  refine Same.bind (Same.refl id _) ?_
  rintro a _ rfl
  refine Same.ite (Same.refl _ _) ?_
  refine Same.bind (Same.refl id _) ?_
  rintro b _ rfl
  refine Same.bind (Same.refl id _) ?_
  rintro c _ rfl
  refine Same.ite (Same.refl _ _) ?_
  refine Same.bind (Same.refl id _) ?_
  rintro d _ rfl
  split <;> split <;> exact Same.pure rfl

def MasternodePing.named (ping : MasternodePing) : CPubKey × COutPoint :=
  (ping.pubKeyMasternode, ping.collateralOutpoint)

open Reader in
theorem same_readPing :
    Same (Option.map MasternodePing.named) (readPing P tx K true) (readPing P' tx K true) := by
  refine Same.bind (Same.refl id _) ?_
  rintro o _ rfl
  have hdel : Same (Option.map MasternodePing.named)
      (readInlineDelegation P K o >>= fun d ↦ pure (some ⟨K, o, d⟩))
      (readInlineDelegation P' K o >>= fun d ↦ pure (some ⟨K, o, d⟩)) :=
    Same.bind same_readInlineDelegation fun _ _ _ ↦ Same.pure rfl
  refine Same.bind (Same.refl id _) ?_
  rintro c _ rfl
  refine Same.ite (Same.bind (Same.refl id _) fun _ _ _ ↦ hdel) hdel

theorem named_extract_of_leafKey (h : ¬NoLeafKey tx) :
    (extractOnChainMasternodePing P tx).map MasternodePing.named =
      (extractOnChainMasternodePing P' tx).map MasternodePing.named := by
  obtain ⟨K, hK⟩ := findPingKey_of_leafKey h
  have hread (out : CTxOut) : (readPingOutput P tx K true out).map (Option.map MasternodePing.named) =
      (readPingOutput P' tx K true out).map (Option.map MasternodePing.named) := by
    simp only [readPingOutput, bind_eq_bind, map_bind, Function.comp_def]
    refine bind_congr fun _ _ ↦ bind_congr fun op _ ↦ bind_congr fun _ _ ↦ ?_
    have hsame := congrArg (Option.map Prod.fst) (@same_readPing P P' tx K op.vch)
    rw [map_map, map_map, map_eq_bind, map_eq_bind] at hsame
    exact hsame
  have hfind : (tx.vout.findSome? (readPingOutput P tx K true)).map (Option.map MasternodePing.named) =
      (tx.vout.findSome? (readPingOutput P' tx K true)).map (Option.map MasternodePing.named) := by
    rw [List.map_findSome?, List.map_findSome?]
    exact congrArg (List.findSome? · tx.vout) (funext hread)
  have hjoin := congrArg Option.join hfind
  rw [join_map_eq_map_join, join_map_eq_map_join] at hjoin
  simp only [extractOnChainMasternodePing, hK, bind_eq_bind, bind_some, map_bind, Function.comp_def, hjoin]

def PingChecks.withoutSignatures (P : PingChecks) : PingChecks :=
  { P with crypto := { P.crypto with ecdsaVerify := fun _ _ _ ↦ false } }

theorem not_signedPing (h : ∀ hash vchSig, K.verify P.crypto hash vchSig = false)
    (h' : ∀ hash vchSig, (CPubKey.set K.bytes).verify P.crypto hash vchSig = false) :
    ¬SignedPing P tx K o := by
  rintro (⟨_, -, _, -, _, -, _, _, -, hverify⟩ | ⟨_, -, vchSig, -, nIn, scriptCode, hcheck⟩)
  · rw [h] at hverify
    cases hverify
  · rw [TransactionSignatureChecker.checkEcdsaSig] at hcheck
    cases hlast : vchSig.getLast? with
    | none => simp [hlast] at hcheck
    | some nHashType => simp [hlast, h'] at hcheck

theorem signedPing_forall_iff {ping₀ : MasternodePing}
    (h₀ : extractOnChainMasternodePing P tx = some ping₀) :
    (∀ P' ping, extractOnChainMasternodePing P' tx = some ping →
        SignedPing P' tx ping.pubKeyMasternode ping.collateralOutpoint) ↔
      NoLeafKey tx := by
  constructor
  · intro h
    by_contra hleaf
    have hnamed := @named_extract_of_leafKey P P.withoutSignatures tx hleaf
    rw [h₀] at hnamed
    obtain ⟨ping, hping, -⟩ := map_eq_some_iff.1 hnamed.symm
    have hnone (k : CPubKey) (hash : Uint256) (vchSig : Bytes) :
        k.verify P.withoutSignatures.crypto hash vchSig = false := Bool.and_false _
    exact not_signedPing (hnone _) (hnone _) (h _ ping hping)
  · intro h P' ping hping
    exact Or.inl (pingSignature_of_extract h hping)

/-! ### The pings of a block -/

/-- The registry says that the key was active at the height. -/
def Registry.ActiveAt (R : Registry) (k : CPubKey) (nHeight : ℤ) : Prop :=
  ∃ setHeights, R.mapMasternodeActiveHeights[k]? = some setHeights ∧ nHeight ∈ setHeights

theorem Registry.activeAt_of_bind {R : Registry} {k' : CPubKey}
    (h : (R.bind k o nHeight).ActiveAt k' x) : R.ActiveAt k' x ∨ k' = k := by
  obtain ⟨S, hS, hx⟩ := h
  obtain ⟨hk, -⟩ | ⟨-, -, hnone, -⟩ | ⟨-, -, hsame, -⟩ := R.bind_cases k o nHeight k'
  · exact Or.inr hk
  · rw [hnone] at hS
    cases hS
  · exact Or.inl ⟨S, hsame ▸ hS, hx⟩

theorem activeAt_of_registerPing {E : ActivityEnv} {view : CoinLookup}
    (h : (registerPing E view nHeight s tx).registry.ActiveAt k x) :
    s.registry.ActiveAt k x ∨ ∃ ping, extractOnChainMasternodePing E.toPingChecks tx = some ping ∧
      ping.pubKeyMasternode = k := by
  rw [registerPing] at h
  cases hping : extractOnChainMasternodePing E.toPingChecks tx with
  | none => exact Or.inl (by simpa only [hping] using h)
  | some ping =>
    simp only [hping, registerOnChainMasternodePing] at h
    split at h
    · exact (Registry.activeAt_of_bind h).imp_right fun hk ↦ ⟨ping, rfl, hk.symm⟩
    · exact Or.inl h

theorem activeAt_of_foldl_registerPing {E : ActivityEnv} {view : CoinLookup} (vtx : List CTransaction)
    (h : (vtx.foldl (registerPing E view nHeight) s).registry.ActiveAt k x) :
    s.registry.ActiveAt k x ∨ ∃ tx ∈ vtx, ∃ ping,
      extractOnChainMasternodePing E.toPingChecks tx = some ping ∧ ping.pubKeyMasternode = k := by
  induction vtx generalizing s with
  | nil => exact Or.inl h
  | cons tx vtx ih =>
    rcases ih h with hstep | ⟨tx', htx', hping⟩
    · exact (activeAt_of_registerPing hstep).imp_right fun hping ↦ ⟨tx, List.mem_cons_self, hping⟩
    · exact Or.inr ⟨tx', List.mem_cons_of_mem _ htx', hping⟩

/-- **Who signed a ping.** For every transaction that is a ping, a signature of the masternode's key
is enforced exactly if no input carries what looks like a leaf script with a key. And in a block
whose transactions have no such input, a masternode that the pings made active has signed one. -/
theorem pings_signed (tx : CTransaction) (E : ActivityEnv) (view : CoinLookup) (s : MasternodeState)
    (vtx : List CTransaction) (nHeight : ℤ) (k : CPubKey) :
    (∀ P₀ ping₀, extractOnChainMasternodePing P₀ tx = some ping₀ →
      ((∀ P ping, extractOnChainMasternodePing P tx = some ping →
          SignedPing P tx ping.pubKeyMasternode ping.collateralOutpoint) ↔
        NoLeafKey tx)) ∧
    ((∀ tx ∈ vtx, NoLeafKey tx) → (vtx.foldl (registerPing E view nHeight) s).registry.ActiveAt k nHeight →
      ¬s.registry.ActiveAt k nHeight →
      ∃ tx ∈ vtx, ∃ ping, extractOnChainMasternodePing E.toPingChecks tx = some ping ∧
        ping.pubKeyMasternode = k ∧ SignedPing E.toPingChecks tx k ping.collateralOutpoint) := by
  refine ⟨fun P₀ ping₀ h₀ ↦ signedPing_forall_iff h₀, ?_⟩
  intro hleaf hafter hbefore
  rcases activeAt_of_foldl_registerPing vtx hafter with h | ⟨tx, htx, ping, hping, rfl⟩
  · exact absurd h hbefore
  · exact ⟨tx, htx, ping, hping, rfl, Or.inl (pingSignature_of_extract (hleaf tx htx) hping)⟩

/-! ### A ping in somebody's name -/

section Example

/-- The main network, with a masternode that never signs anything. -/
def silentEnv : ValidationEnv :=
  { (default : ValidationEnv) with
    crypto := { (default : Crypto) with ecdsaVerify := fun pubkey _ _ ↦ pubkey != exampleKey.bytes } }

/-- The masternode's collateral, and a coin that anybody can spend. -/
def silentView : CCoinsViewCache := .ofBase
  { getCoin := fun o ↦
      if o = exampleCollateral 1 then
        some ⟨false, false, ⟨getMasternodeNodeCollateral 2,
          getScriptForDestination (.keyID (exampleKey.getID silentEnv.crypto))⟩, 0⟩
      else if o = ⟨9, 0⟩ then some ⟨false, false, ⟨10 ^ 8, [Opcode.OP_1.toByte]⟩, 0⟩
      else none
    hashBlock := 1 }

/-- The coin is spent by a transaction whose input carries the masternode's key. -/
def silentBlock : CBlock :=
  { burnBlock 100 with vtx := [coinbaseTx 100, examplePingTx 1] }

def silentIndex : CBlockIndex := ⟨silentBlock.getHash silentEnv.crypto, 1, 2, 0⟩

def connectSilentBlock : NodeState × Except ValidationError Connected :=
  connectBlock silentEnv burnContext emptyNode silentBlock silentIndex silentView {} false false

/-- **A ping that its masternode did not sign.** `ConnectBlock` accepts the block and registers the
masternode as active, which has signed nothing. -/
theorem ping_without_signature : connectSilentBlock.2.failure? = none ∧
      extractOnChainMasternodePing silentEnv.toPingChecks (examplePingTx 1) =
        some ⟨exampleKey, exampleCollateral 1, none⟩ ∧
      ¬SignedPing silentEnv.toPingChecks (examplePingTx 1) exampleKey (exampleCollateral 1) ∧
      emptyNode.masternodes.registry.isMasternodeActiveAtHeight exampleKey 2 = false ∧
      connectSilentBlock.1.masternodes.registry.isMasternodeActiveAtHeight exampleKey 2 = true := by
  have hsilent (hash : Uint256) (vchSig : Bytes) :
      exampleKey.verify silentEnv.crypto hash vchSig = false := by
    simp [CPubKey.verify, silentEnv]
  have hkey : CPubKey.set exampleKey.bytes = exampleKey := by decide
  exact ⟨by decide +kernel, by decide +kernel, not_signedPing hsilent (by rwa [hkey]),
    by decide +kernel, by decide +kernel⟩

end Example

end Masternode

end KristaTech
