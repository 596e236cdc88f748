import KristaTech.Validation.Locks
import KristaTech.Adam.PoolContents

/-!
# The coins of a registration

A coin-lock registration counts for the pool of miners as long as its lock time, taken as a height, is far
enough in the future, and its coin is there. Whether the lock holds the coin is another matter. A lock time
from 500000000 on is a time for the interpreter, and it may have passed: then the owner can take the coin
back in the next block, and the key is still in the pool (`collateral_locked_iff`).
-/

namespace KristaTech.Adam

open Masternode List

variable {E : ValidationEnv} {N : PoolParams} {B : Uint256 → CBlock} {ancestors : List CBlockIndex}
  {nTipHeight nBlockTime : ℤ} {k : CPubKey} {pindex pprev : CBlockIndex} {entry : CachedBlockRegEntry}
  {X : ContextualEnv} {I : ConnectInput} {view : CCoinsViewCache}

/-- The output of a coin-lock registration. -/
structure CollateralOutput (E : ValidationEnv) (block : CBlock) (entry : CachedBlockRegEntry)
    (out : CTxOut) : Prop where
  output : ∃ tx ∈ block.vtx, ∃ n : ℕ, tx.vout[n]? = some out ∧
    entry.outpoint = ⟨tx.getHash E.crypto, UInt32.ofNat n⟩
  registration : ∃ r, matchCoinLockRegistration out.scriptPubKey = some r ∧ r.lockTime = entry.lockTime

theorem exists_collateralOutput {block : CBlock} (h : entry ∈ blockRegistrations E N block)
    (hkind : entry.isCoinLock = true) : ∃ out, CollateralOutput E block entry out := by
  have htx (isZeroCoinTx : Bool) (tx : CTransaction) (hmem : entry ∈ txRegistrations E N isZeroCoinTx tx) :
      ∃ (n : ℕ) (out : CTxOut), tx.vout[n]? = some out ∧
        entry.outpoint = ⟨tx.getHash E.crypto, UInt32.ofNat n⟩ ∧
        ∃ r, matchCoinLockRegistration out.scriptPubKey = some r ∧ r.lockTime = entry.lockTime := by
    obtain ⟨⟨out, n⟩, hout, hregistration⟩ := mem_filterMap.1 hmem
    refine ⟨n, out, mem_zipIdx_iff_getElem?.1 hout, ?_⟩
    simp only [registration] at hregistration
    split at hregistration
    · cases hregistration
    · split at hregistration
      · rename_i r hmatch
        split_ifs at hregistration
        obtain rfl := Option.some.inj hregistration
        exact ⟨rfl, r, hmatch, rfl⟩
      · split at hregistration
        · split_ifs at hregistration
          obtain rfl := Option.some.inj hregistration
          cases hkind
        · cases hregistration
  have hblock (nZeroCoin : ℕ) (vtx : List CTransaction) (hmem : entry ∈ registrationsFrom E N nZeroCoin vtx) :
      ∃ tx ∈ vtx, ∃ isZeroCoinTx, entry ∈ txRegistrations E N isZeroCoinTx tx := by
    induction vtx generalizing nZeroCoin with
    | nil => cases hmem
    | cons tx vtx ih =>
      rw [registrationsFrom] at hmem
      have hrest (nZeroCoin : ℕ) (hmem : entry ∈ registrationsFrom E N nZeroCoin vtx) :
          ∃ tx' ∈ tx :: vtx, ∃ isZeroCoinTx, entry ∈ txRegistrations E N isZeroCoinTx tx' := by
        obtain ⟨tx', htx', hentry⟩ := ih nZeroCoin hmem
        exact ⟨tx', mem_cons_of_mem _ htx', hentry⟩
      split_ifs at hmem
      · exact hrest _ hmem
      · rcases mem_append.1 hmem with hmem | hmem
        · exact ⟨tx, mem_cons_self, true, hmem⟩
        · exact hrest _ hmem
      · rcases mem_append.1 hmem with hmem | hmem
        · exact ⟨tx, mem_cons_self, false, hmem⟩
        · exact hrest _ hmem
  obtain ⟨tx, htxMem, isZeroCoinTx, hentry⟩ := hblock _ _ h
  obtain ⟨n, out, hout, houtpoint, hmatch⟩ := htx _ _ hentry
  exact ⟨out, ⟨tx, htxMem, n, hout, houtpoint⟩, hmatch⟩

/-- The lock of a registration keeps its coin in the next block: locks are enforced there, and the lock
time is a height, or a time that has not come. -/
def CollateralKept (E : ValidationEnv) (X : ContextualEnv) (I : ConnectInput) (pprev : CBlockIndex)
    (nBlockTime lockTime : ℤ) : Prop :=
  I.fScriptChecks E = true ∧ E.consensus.networkUpgradeActive pprev.nHeight .UPGRADE_BIP65 = true ∧
    (lockTime < locktimeThreshold ∨ lockTimeCutoff X nBlockTime ≤ lockTime)

variable {lookup : CoinLookup}

theorem Registered.nTipHeight_lt (h : Registered E N B ancestors lookup nTipHeight k pindex entry) :
    nTipHeight < entry.lockTime := by
  have hrecent := h.recent
  have hlocked := h.locked
  omega

theorem exists_coin_of_haveCoin {o : COutPoint} (h : haveCoin lookup o = true) :
    ∃ coin, lookup o = some coin ∧ coin.isSpent = false := by
  simpa [haveCoin, Option.any_eq_true] using h

/-- **Registered collateral.** The output of a coin-lock registration that counts is unspent at the tip.
No transaction that spends it is valid in the next block, at the time `nBlockTime`, if the lock is of the
kind that keeps it; and otherwise its owner can spend it, as far as nothing but the lock is in the way. -/
theorem collateral_locked_iff (hreg : Registered E N B ancestors view.getCoin nTipHeight k pindex entry)
    (hkind : entry.isCoinLock = true)
    (hcoins : ∀ out coin, CollateralOutput E (B pindex.hash) entry out →
      view.getCoin entry.outpoint = some coin → coin.out = out)
    (hheight : I.pindex.nHeight = nTipHeight + 1) (hpprev : I.pprev = some pprev) (nBlockTime : ℤ) :
    ∃ coin, view.getCoin entry.outpoint = some coin ∧ coin.isSpent = false ∧
      (paysDeveloperFund E coin.out.scriptPubKey = false →
        CollateralKept E X I pprev nBlockTime entry.lockTime →
          ∀ tx, ¬ValidSpend E X I nBlockTime entry.outpoint coin.out.scriptPubKey tx) ∧
      (SpendableCoin E I.ctx I.pindex view entry.outpoint coin →
        OwnerCanSign E.crypto coin.out.scriptPubKey →
          ((∀ tx, ¬ValidSpend E X I nBlockTime entry.outpoint coin.out.scriptPubKey tx) ↔
            CollateralKept E X I pprev nBlockTime entry.lockTime)) := by
  obtain ⟨coin, hcoin, hunspent⟩ := exists_coin_of_haveCoin hreg.unspent
  obtain ⟨out, hout⟩ := exists_collateralOutput hreg.mem_block hkind
  obtain rfl := hcoins out coin hout hcoin
  obtain ⟨r, hmatch, hlockTime⟩ := hout.registration
  have hlocked : IsLocked coin.out.scriptPubKey r := isLocked_of_matchCoinLockRegistration hmatch
  have hpos : 0 < I.pindex.nHeight := by
    have hle := hreg.nHeight_le
    have hpos := hreg.nHeight_pos
    omega
  have hlt : nTipHeight < r.lockTime := hlockTime ▸ hreg.nTipHeight_lt
  have hrpos : 0 < r.lockTime := by omega
  obtain ⟨lock, check, hscript, hop, hrange, hnum⟩ := hlocked.exists_lockScript hrpos
  rw [← hlockTime]
  have hsafe (hfund : paysDeveloperFund E coin.out.scriptPubKey = false)
      (hkept : CollateralKept E X I pprev nBlockTime r.lockTime) (tx : CTransaction) :
      ¬ValidSpend E X I nBlockTime entry.outpoint coin.out.scriptPubKey tx := by
    obtain ⟨hscripts, hbip65, hlock⟩ := hkept
    have hflag := (ConnectInput.flags_checklocktimeverify hpprev).2 ⟨hscripts, hbip65⟩
    have hunexpired : Unexpired X I.pindex.nHeight nBlockTime r.lockTime := by
      rw [Unexpired]
      split_ifs with hthreshold
      · omega
      · exact hlock.resolve_left hthreshold
    rw [CScriptNum.eq_setVch_of_ofVch hnum] at hrpos hunexpired
    exact not_validSpend_of_unexpired hflag hfund hrpos hpos hunexpired
      (fun checker scriptSig ↦ hscript.checkLockTime_of_verifyScript hop rfl hflag) tx
  refine ⟨coin, hcoin, hunspent, hsafe, fun hspendable howner ↦ ⟨fun hnone ↦ ?_, hsafe hspendable.notFund⟩⟩
  by_contra hkept
  by_cases hflag : (I.flags E).checklocktimeverify = true
  · have hexpired : ¬Unexpired X I.pindex.nHeight nBlockTime r.lockTime := by
      intro hlock
      obtain ⟨hscripts, hbip65⟩ := (ConnectInput.flags_checklocktimeverify hpprev).1 hflag
      refine hkept ⟨hscripts, hbip65, ?_⟩
      rw [Unexpired] at hlock
      split_ifs at hlock with hthreshold
      · exact Or.inl hthreshold
      · exact Or.inr hlock
    obtain ⟨tx, hvalid, -⟩ := hscript.exists_validSpend_of_expired hspendable howner hop hflag hnum hrpos.le
      hrange hpos hexpired
    exact hnone tx hvalid
  · obtain ⟨tx, hvalid, -⟩ := hscript.exists_validSpend_of_unchecked hspendable howner hop
      (Bool.eq_false_iff.2 hflag)
    exact hnone tx hvalid

/-! ### A lock time that has passed -/

section Example

def collateralKey : Bytes := 2 :: List.replicate 32 7

/-- A coin lock of this key until `t`. -/
def collateralScript (t : ℤ) : CScript :=
  pushAll [collateralKey] ++ [Opcode.OP_DROP.toByte] ++ pushAll [CScriptNum.serialize t] ++
    [Opcode.OP_CHECKLOCKTIMEVERIFY, .OP_DROP, .OP_DUP, .OP_HASH160].map Opcode.toByte ++
    pushAll [((default : Crypto).hash160 collateralKey).toBytes] ++
    [Opcode.OP_EQUALVERIFY, .OP_CHECKSIG].map Opcode.toByte

def lockedCollateralTx (t : ℤ) : CTransaction where
  nVersion := 1
  vin := [⟨⟨5, 0⟩, [], sequenceFinal⟩]
  vout := [⟨1000 * coin, collateralScript t⟩]
  nLockTime := 0

def collateralBlock (t : ℤ) : CBlock where
  nVersion := 5
  hashPrevBlock := 1
  hashMerkleRoot := 0
  nTime := 1700000000
  nBits := 0
  nNonce := 0
  vtx := [lockedCollateralTx t]

def collateralOutpoint (t : ℤ) : COutPoint := ⟨(lockedCollateralTx t).getHash default, 0⟩

def collateralEntry (t : ℤ) : CachedBlockRegEntry :=
  ⟨true, collateralOutpoint t, 1000 * coin, CPubKey.set collateralKey, t, 0⟩

/-- The block of the registration, at height 300, which is the tip. -/
def collateralTip : CBlockIndex := ⟨2, 1, 300, 1700000000⟩

def collateralCoin (t : ℤ) : Coin := ⟨false, false, ⟨1000 * coin, collateralScript t⟩, 300⟩

def collateralView (t : ℤ) : CCoinsViewCache := .ofBase
  { getCoin := fun o ↦ if o = collateralOutpoint t then some (collateralCoin t) else none
    hashBlock := 2 }

theorem getCoin_collateralView (t : ℤ) :
    (collateralView t).getCoin (collateralOutpoint t) = some (collateralCoin t) := by
  simp [collateralView, CCoinsViewCache.getCoin, CCoinsViewCache.ofBase]

theorem registered_collateral {t : ℤ} (hlocked : 3180 ≤ t)
    (hmem : collateralEntry t ∈ blockRegistrations default mainPoolParams (collateralBlock t)) :
    Registered default mainPoolParams (fun _ ↦ collateralBlock t) [collateralTip] (collateralView t).getCoin 300
      (CPubKey.set collateralKey) collateralTip (collateralEntry t) where
  mem_ancestors := mem_singleton_self _
  nHeight_pos := by decide
  nHeight_le := le_rfl
  recent := by decide
  mem_block := hmem
  pubkey_eq := rfl
  locked := hlocked
  unspent := by
    rw [haveCoin, collateralEntry, getCoin_collateralView]
    rfl
  kind := Or.inl rfl

/-- A lock until height 5000 keeps the coin. -/
theorem collateral_locked_height :
    collateralEntry 5000 ∈ blockRegistrations default mainPoolParams (collateralBlock 5000) ∧
      ∀ tx, ¬ValidSpend default quietContextual (nextOf collateralTip) 1700000060 (collateralOutpoint 5000)
        (collateralScript 5000) tx := by
  have hmem : collateralEntry 5000 ∈ blockRegistrations default mainPoolParams (collateralBlock 5000) := by
    decide +kernel
  have hcoins (out : CTxOut) (coin : Coin)
      (hout : CollateralOutput default (collateralBlock 5000) (collateralEntry 5000) out)
      (hcoin : (collateralView 5000).getCoin (collateralEntry 5000).outpoint = some coin) : coin.out = out := by
    obtain ⟨tx, htx, n, hn, -⟩ := hout.output
    obtain rfl := mem_singleton.1 htx
    obtain rfl := Option.some.inj ((getCoin_collateralView 5000).symm.trans hcoin)
    exact mem_singleton.1 (mem_of_getElem? hn) ▸ rfl
  obtain ⟨coin, hcoin, -, hsafe, -⟩ := collateral_locked_iff (X := quietContextual) (I := nextOf collateralTip)
    (registered_collateral (by decide) hmem) rfl hcoins rfl (show _ = some collateralTip by decide)
    1700000060
  obtain rfl := Option.some.inj ((getCoin_collateralView 5000).symm.trans hcoin)
  exact ⟨hmem, hsafe (by decide +kernel) ⟨by decide +kernel, by decide +kernel, Or.inl (by decide)⟩⟩

/-- **A registration whose coin is free.** Its lock time, a moment of the year 2001, passes for a height
far in the future: the key counts for the pool, and the coin can be spent in the next block. -/
theorem collateral_of_past_time :
    Registered default mainPoolParams (fun _ ↦ collateralBlock 1000000000) [collateralTip]
        (collateralView 1000000000).getCoin 300 (CPubKey.set collateralKey) collateralTip
        (collateralEntry 1000000000) ∧
      ∃ tx, ValidSpend default quietContextual (nextOf collateralTip) 1700000060
        (collateralOutpoint 1000000000) (collateralScript 1000000000) tx := by
  have hmatch : matchCoinLockRegistration (collateralScript 1000000000) =
      some ⟨CPubKey.set collateralKey, 1000000000, (default : Crypto).hash160 collateralKey⟩ := by
    decide +kernel
  have hspendable : SpendableCoin default (nextOf collateralTip).ctx (nextOf collateralTip).pindex (collateralView 1000000000)
      (collateralOutpoint 1000000000) (collateralCoin 1000000000) :=
    ⟨getCoin_collateralView _, by decide +kernel, by decide +kernel, nofun, by decide +kernel, by decide +kernel⟩
  have howner : OwnerCanSign default (collateralScript 1000000000) :=
    ownerCanSign_default collateralKey (by decide +kernel) (by decide +kernel) (by decide +kernel) (by decide)
      (by decide)
  obtain ⟨lock, check, hscript, hop, hrange, hnum⟩ :=
    (isLocked_of_matchCoinLockRegistration hmatch).exists_lockScript (by decide)
  obtain ⟨tx, htx, -⟩ : ∃ tx, ValidSpend default quietContextual (nextOf collateralTip) 1700000060
      (collateralOutpoint 1000000000) (collateralScript 1000000000) tx ∧ tx.isCoinStake = false :=
    hscript.exists_validSpend_of_expired hspendable howner hop (by decide) hnum (by decide) hrange
      (by decide) (by decide)
  exact ⟨registered_collateral (by decide) (by decide +kernel), tx, htx⟩

end Example

end KristaTech.Adam
