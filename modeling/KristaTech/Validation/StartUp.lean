import KristaTech.Validation.CoinIds
import Mathlib.Tactic.LinearCombination
import Mathlib.Tactic.Ring

/-!
# The money supply after a restart

`AppInitMain` of `init.cpp` adds up the unspent coins of the database, without those at burn
addresses. A node that runs adds what each block pays out and takes away what it spends. The two sums
differ by what is unspent at burn addresses and by what was paid to scripts that cannot be spent, for
such an output is never stored (`startUpSupply_add`).
-/

namespace KristaTech

open CCoinsViewCache Ledger List

variable (E : ValidationEnv)

def isBurned (nHeight : ℤ) (coin : Coin) : Bool :=
  (extractDestination E.mescalDecompiles E.crypto coin.out.scriptPubKey).any fun source ↦
    E.consensus.isBurnAddress source nHeight

/-- The loop of `AppInitMain` over the coins of the database. -/
def startUpSupply (nHeight : ℤ) (coins : List (COutPoint × Coin)) : CAmount :=
  coins.foldl (fun nMoneySupply p ↦
    if isBurned E nHeight p.2 then nMoneySupply else nMoneySupply + p.2.out.nValue) 0

/-! ### What the sums leave out -/

def burnedValue (nHeight : ℤ) (coins : List (COutPoint × Coin)) : CAmount :=
  (coins.map fun p ↦ if isBurned E nHeight p.2 then p.2.out.nValue else 0).sum

/-- What a transaction pays to scripts that cannot be spent. -/
def unspendableValue (tx : CTransaction) : CAmount :=
  (tx.vout.map fun out ↦ if CScript.isUnspendable out.scriptPubKey then out.nValue else 0).sum

def lostValue (txs : List CTransaction) : CAmount := (txs.map unspendableValue).sum

variable {E}

theorem startUpSupply_add_burnedValue (nHeight : ℤ) (coins : List (COutPoint × Coin)) :
    startUpSupply E nHeight coins + burnedValue E nHeight coins =
      (coins.map fun p ↦ p.2.out.nValue).sum := by
  have hfold : ∀ n : CAmount, coins.foldl (fun nMoneySupply p ↦
      if isBurned E nHeight p.2 then nMoneySupply else nMoneySupply + p.2.out.nValue) n +
        burnedValue E nHeight coins = n + (coins.map fun p ↦ p.2.out.nValue).sum := by
    induction coins with
    | nil => simp [burnedValue]
    | cons p coins ih =>
      intro n
      rw [burnedValue] at ih ⊢
      rw [foldl_cons, map_cons, sum_cons, map_cons, sum_cons]
      split_ifs
      · linear_combination ih n
      · linear_combination ih (n + p.2.out.nValue)
  exact (hfold 0).trans (zero_add _)

theorem lostValue_append (txs txs' : List CTransaction) :
    lostValue (txs ++ txs') = lostValue txs + lostValue txs' := by
  rw [lostValue, map_append, sum_append, lostValue, lostValue]

theorem sum_newCoins (C : Crypto) (tx : CTransaction) (nHeight : ℤ) :
    ((newCoins C tx nHeight).map fun kv ↦ kv.2.out.nValue).sum = tx.valueOut - unspendableValue tx := by
  have hsum : ∀ l : List (CTxOut × ℕ), ((l.filterMap (newCoin C tx nHeight)).map
      fun kv ↦ kv.2.out.nValue).sum = ((l.map Prod.fst).map (·.nValue)).sum -
        ((l.map Prod.fst).map fun out ↦
          if CScript.isUnspendable out.scriptPubKey then out.nValue else 0).sum := by
    intro l
    induction l with
    | nil => rfl
    | cons p l ih =>
      simp only [map_cons, sum_cons]
      cases hscript : CScript.isUnspendable p.1.scriptPubKey with
      | true =>
        have hnone : newCoin C tx nHeight p = none := by rw [newCoin, if_pos hscript]
        rw [filterMap_cons_none hnone, ih, if_pos rfl]
        ring
      | false =>
        have hsome : newCoin C tx nHeight p = some (⟨tx.getHash C, UInt32.ofNat p.2⟩,
            ⟨tx.isCoinBase, tx.isCoinStake, p.1, nHeight⟩) := by
          rw [newCoin, hscript, if_neg Bool.false_ne_true]
        rw [filterMap_cons_some hsome, map_cons, sum_cons, ih, if_neg Bool.false_ne_true]
        ring
  rw [newCoins, hsum, zipIdx_map_fst]
  rfl

/-! ### The coins of a run -/

section Applies

variable {C : Crypto} {nHeight : ℤ} {U U' : Utxo} {n : ℤ}

theorem Applies.weighs_iff {tx : CTransaction} {undo : CTxUndo}
    (h : Applies C tx nHeight undo U U') : Weighs (·.out.nValue) U n ↔
      Weighs (·.out.nValue) U' (n + (tx.valueOut - unspendableValue tx - valueSpent C tx undo)) := by
  cases h with
  | spending hspends hledger hcreates =>
    rw [hledger.weighs_iff, hcreates.weighs_iff, sum_newCoins, valueSpent, if_pos hspends]
    ring_nf
  | creating hspends hcreates =>
    rw [hcreates.weighs_iff, sum_newCoins, valueSpent, hspends, if_neg Bool.false_ne_true, sub_zero]

theorem AppliesAll.weighs_iff {txs : List CTransaction} {undos : List CTxUndo}
    (h : AppliesAll C nHeight txs undos U U') : Weighs (·.out.nValue) U n ↔
      Weighs (·.out.nValue) U' (n + (totalOut txs - lostValue txs - totalSpent C txs undos)) := by
  induction h generalizing n with
  | nil => simp [totalOut, lostValue, totalSpent]
  | cons happly _ ih =>
    rw [happly.weighs_iff, ih, totalOut, totalOut, lostValue, lostValue, totalSpent, totalSpent,
      map_cons, sum_cons, map_cons, sum_cons, zipWith_cons_cons, sum_cons]
    ring_nf

end Applies

abbrev NewIdsRun (E : ValidationEnv) : ChainState → Prop :=
  ChainRun E SeesCoins fun s block ↦ DistinctIds E s block ∧ NewRegistrations E s block

variable {s : ChainState}

/-- **The unspent coins are worth the supply**, but for what was paid to scripts that cannot be
spent. -/
theorem ChainRun.weighs (h : NewIdsRun E s) :
    Weighs (·.out.nValue) s.utxo (s.node.nMoneySupply - lostValue (chainTxs s.links)) := by
  induction h with
  | genesis => exact weighs_empty _
  | @connect s c G connected hrun htip hview hids hok ih =>
    obtain ⟨-, undos, hcoins⟩ := (ChainRun.traced hrun).connect htip (htip.nHeight_ne_zero hrun) hview
      hids.1 hids.2 hok
    have hworth := hcoins.applies.weighs_iff.1 (hview.utxo ▸ ih)
    show Weighs _ connected.view.utxo (G.nMoneySupply - lostValue (chainTxs s.links ++ c.block.vtx))
    rw [hcoins.supply, lostValue_append]
    convert hworth using 1
    ring
  | @disconnect s link links D view G view' hrun hlinks hview hD hok ih =>
    have htraced := ChainRun.traced hrun
    rw [hlinks, ← hview.utxo] at ih htraced
    obtain ⟨-, undos, happlies, hsupply⟩ := htraced.disconnect hview.coherent hD hok
    show Weighs _ view'.utxo (G.nMoneySupply - lostValue (chainTxs links))
    rw [happlies.weighs_iff, hsupply]
    convert ih using 1
    rw [chainTxs, lostValue_append]
    ring

variable {coins : List (COutPoint × Coin)}

/-- **What a restart changes**: the burned coins are no longer counted, and what was paid to scripts
that cannot be spent. -/
theorem startUpSupply_add (h : NewIdsRun E s) (hcoins : Enumerates coins s.utxo) (nHeight : ℤ) :
    startUpSupply E nHeight coins + burnedValue E nHeight coins + lostValue (chainTxs s.links) =
      s.node.nMoneySupply := by
  have hworth : (coins.map fun kv ↦ kv.2.out.nValue).sum =
      s.node.nMoneySupply - lostValue (chainTxs s.links) :=
    Weighs.unique (w := (·.out.nValue)) ⟨coins, hcoins, rfl⟩ h.weighs
  rw [startUpSupply_add_burnedValue, hworth, sub_add_cancel]

/-! ### When nothing changes -/

theorem nonneg_of_mem_newCoins {C : Crypto} {tx : CTransaction} {nHeight : ℤ}
    (hout : ∀ out ∈ tx.vout, 0 ≤ out.nValue) {kv : COutPoint × Coin}
    (hkv : kv ∈ newCoins C tx nHeight) : 0 ≤ kv.2.out.nValue := by
  obtain ⟨p, hp, hcoin⟩ := mem_filterMap.1 hkv
  rw [newCoin] at hcoin
  split_ifs at hcoin
  obtain rfl := Option.some.inj hcoin
  exact hout p.1 (fst_mem_of_mem_zipIdx hp)

theorem Traced.nonneg {links : List Link} {U : Utxo} (h : Traced E links U) :
    (∀ tx ∈ chainTxs links, ∀ out ∈ tx.vout, 0 ≤ out.nValue) ∧
      ∀ o coin, U o = some coin → 0 ≤ coin.out.nValue := by
  induction h with
  | nil => exact ⟨nofun, nofun⟩
  | @cons link links undos U U' _ _ _ hvalue _ happlies _ ih =>
    have hout : ∀ tx ∈ link.block.vtx, ∀ out ∈ tx.vout, 0 ≤ out.nValue := fun tx htx ↦
      (CTransaction.getValueOut_eq_some (hvalue tx htx)).2
    refine ⟨fun tx htx ↦ ?_, happlies.forall_coin ih.2 fun tx htx kv hkv ↦
      nonneg_of_mem_newCoins (hout tx htx) hkv⟩
    rcases mem_append.1 htx with htx | htx
    · exact ih.1 tx htx
    · exact hout tx htx

theorem sum_eq_zero_iff_of_nonneg {α : Type} {l : List α} {f : α → CAmount} {p : α → Bool}
    (h : ∀ a ∈ l, 0 ≤ f a) : 0 ≤ (l.map fun a ↦ if p a then f a else 0).sum ∧
      ((l.map fun a ↦ if p a then f a else 0).sum = 0 ↔ ∀ a ∈ l, p a = true → f a = 0) := by
  induction l with
  | nil => simp
  | cons a l ih =>
    rw [forall_mem_cons] at h ⊢
    obtain ⟨hnonneg, hzero⟩ := ih h.2
    have ha : 0 ≤ if p a then f a else 0 := by
      split_ifs
      · exact h.1
      · exact le_rfl
    rw [map_cons, sum_cons, ← hzero, add_eq_zero_iff_of_nonneg ha hnonneg, ite_eq_right_iff]
    exact ⟨add_nonneg ha hnonneg, Iff.rfl⟩

theorem burnedValue_eq_zero_iff (h : NewIdsRun E s) (hcoins : Enumerates coins s.utxo) (nHeight : ℤ) :
    0 ≤ burnedValue E nHeight coins ∧ (burnedValue E nHeight coins = 0 ↔
      ∀ o coin, s.utxo o = some coin → isBurned E nHeight coin = true → coin.out.nValue = 0) := by
  obtain ⟨-, hcoin⟩ := (ChainRun.traced h).nonneg
  obtain ⟨hnonneg, hzero⟩ : 0 ≤ burnedValue E nHeight coins ∧ (burnedValue E nHeight coins = 0 ↔
      ∀ kv ∈ coins, isBurned E nHeight kv.2 = true → kv.2.out.nValue = 0) :=
    sum_eq_zero_iff_of_nonneg fun kv hkv ↦ hcoin kv.1 kv.2 ((hcoins.mem_iff kv.1 kv.2).1 hkv)
  refine ⟨hnonneg, hzero.trans ⟨fun hall o coin ho ↦ ?_, fun hall kv hkv ↦ ?_⟩⟩
  · exact hall (o, coin) ((hcoins.mem_iff o coin).2 ho)
  · exact hall kv.1 kv.2 ((hcoins.mem_iff kv.1 kv.2).1 hkv)

theorem lostValue_eq_zero_iff (h : NewIdsRun E s) : 0 ≤ lostValue (chainTxs s.links) ∧
    (lostValue (chainTxs s.links) = 0 ↔ ∀ tx ∈ chainTxs s.links, ∀ out ∈ tx.vout,
      CScript.isUnspendable out.scriptPubKey = true → out.nValue = 0) := by
  obtain ⟨hout, -⟩ := (ChainRun.traced h).nonneg
  have htx : ∀ tx ∈ chainTxs s.links, 0 ≤ unspendableValue tx ∧ (unspendableValue tx = 0 ↔
      ∀ out ∈ tx.vout, CScript.isUnspendable out.scriptPubKey = true → out.nValue = 0) := fun tx htx ↦
    sum_eq_zero_iff_of_nonneg (hout tx htx)
  obtain ⟨hnonneg, hzero⟩ : 0 ≤ lostValue (chainTxs s.links) ∧ (lostValue (chainTxs s.links) = 0 ↔
      ∀ tx ∈ chainTxs s.links, unspendableValue tx = 0) := by
    simpa [lostValue] using sum_eq_zero_iff_of_nonneg (p := fun _ ↦ true) fun tx hmem ↦ (htx tx hmem).1
  exact ⟨hnonneg, hzero.trans (forall₂_congr fun tx hmem ↦ (htx tx hmem).2)⟩

/-- **When a restart keeps the supply.** In every run in which the ids are new, the supply that is
computed at start-up is the one the node holds exactly when no transaction of the chain pays to a
script that cannot be spent and no coin at a burn address is worth anything. -/
theorem restart_keeps_supply_iff
    (h : ChainRun E SeesCoins (fun s block ↦ DistinctIds E s block ∧ NewRegistrations E s block) s)
    {coins : List (COutPoint × Coin)} (hcoins : Enumerates coins s.utxo) :
    startUpSupply E s.tip.nHeight coins = s.node.nMoneySupply ↔
      (∀ tx ∈ chainTxs s.links, ∀ out ∈ tx.vout, CScript.isUnspendable out.scriptPubKey = true →
        out.nValue = 0) ∧
      ∀ o coin, s.utxo o = some coin → isBurned E s.tip.nHeight coin = true → coin.out.nValue = 0 := by
  obtain ⟨hburned, hburned'⟩ := burnedValue_eq_zero_iff h hcoins s.tip.nHeight
  obtain ⟨hlost, hlost'⟩ := lostValue_eq_zero_iff h
  rw [← startUpSupply_add h hcoins s.tip.nHeight, add_assoc, left_eq_add,
    add_eq_zero_iff_of_nonneg hburned hlost, hburned', hlost', and_comm]

/-! ### A coinbase that pays to a burn address -/

section Example

/-- A coinbase that pays all 100 coins to the burn address. -/
def burningCoinbase : CTransaction where
  nVersion := 1
  vin := [⟨COutPoint.null, [2, 2], sequenceFinal⟩]
  vout := [⟨100 * 10 ^ 8, getScriptForDestination (.keyID 0)⟩]
  nLockTime := 0

def emptyCall : ConnectCall := plainCall genesisTip (fun _ ↦ none) [coinbaseTx 0]

def emptyConnected : Connected := (emptyCall.run default emptyNode).2.okOr ⟨emptyCall.view, []⟩

def oneBlockState : ChainState :=
  genesisState.connect emptyCall (emptyCall.run default emptyNode).1 emptyConnected

def burningCall : ConnectCall :=
  plainCall oneBlockState.tip emptyConnected.view.getCoin [burningCoinbase]

def burningConnected : Connected :=
  (burningCall.run default oneBlockState.node).2.okOr ⟨burningCall.view, []⟩

/-- Two blocks above the genesis block. The second one pays to the burn address. -/
def burnedState : ChainState :=
  oneBlockState.connect burningCall (burningCall.run default oneBlockState.node).1 burningConnected

theorem utxo_oneBlockState : oneBlockState.utxo = emptyConnected.view.utxo :=
  ChainState.utxo_connect genesisState emptyCall _ emptyConnected

theorem utxo_burnedState : burnedState.utxo = burningConnected.view.utxo :=
  ChainState.utxo_connect oneBlockState burningCall _ burningConnected

theorem newIdsRun_oneBlockState : NewIdsRun default oneBlockState := by
  have hok : (emptyCall.run default emptyNode).2 = .ok emptyConnected :=
    Except.eq_ok_okOr (by decide +kernel) _
  have hids : DistinctIds default genesisState emptyCall.block := by
    refine ⟨?_, nofun⟩
    rw [NoCollisions]
    decide +kernel
  have hregistrations : NewRegistrations default genesisState emptyCall.block :=
    firstUses_cons.2 ⟨fun _ t ht ↦ absurd ht not_mem_nil, firstUses_nil⟩
  exact .connect (s := genesisState) (.genesis rfl rfl) (plainCall_onTip genesisState _ _ (by decide +kernel))
    (plainCall_seesCoins fun _ ↦ rfl) ⟨hids, hregistrations⟩
    (Prod.mk.eta.symm.trans (congrArg (Prod.mk _) hok))

theorem newIdsRun_burnedState : NewIdsRun default burnedState := by
  have hok : (burningCall.run default oneBlockState.node).2 = .ok burningConnected :=
    Except.eq_ok_okOr (by decide +kernel) _
  have hids : DistinctIds default oneBlockState burningCall.block := by
    refine ⟨?_, ?_⟩
    · rw [NoCollisions]
      decide +kernel
    · decide +kernel
  have hregistrations : NewRegistrations default oneBlockState burningCall.block := by
    refine firstUses_cons.2 ⟨?_, firstUses_nil⟩
    decide
  exact .connect newIdsRun_oneBlockState (plainCall_onTip oneBlockState _ _ (by decide +kernel))
    (plainCall_seesCoins fun o ↦ (congrFun utxo_oneBlockState o).symm) ⟨hids, hregistrations⟩
    (Prod.mk.eta.symm.trans (congrArg (Prod.mk _) hok))

/-- The burned coins, by the general statement. -/
theorem restart_burnedState_iff : ∃ coins, Enumerates coins burnedState.utxo ∧
    (startUpSupply default burnedState.tip.nHeight coins = burnedState.node.nMoneySupply ↔
      (∀ tx ∈ chainTxs burnedState.links, ∀ out ∈ tx.vout,
        CScript.isUnspendable out.scriptPubKey = true → out.nValue = 0) ∧
      ∀ o coin, burnedState.utxo o = some coin →
        isBurned default burnedState.tip.nHeight coin = true → coin.out.nValue = 0) := by
  obtain ⟨coins, hcoins, -⟩ := newIdsRun_burnedState.weighs
  exact ⟨coins, hcoins, restart_keeps_supply_iff newIdsRun_burnedState hcoins⟩

/-- **A restart forgets the burned coins.** After the two blocks the node holds a supply of 100 coins,
but whichever way the coins of the database are listed, the sum at start-up is another one. -/
theorem restart_forgets_burned_coins : NewIdsRun default burnedState ∧
    burnedState.node.nMoneySupply = 100 * 10 ^ 8 ∧
    (∃ coins, Enumerates coins burnedState.utxo) ∧
    ∀ coins, Enumerates coins burnedState.utxo →
      startUpSupply default burnedState.tip.nHeight coins ≠ burnedState.node.nMoneySupply := by
  obtain ⟨coins, hcoins, -⟩ := newIdsRun_burnedState.weighs
  refine ⟨newIdsRun_burnedState, by decide +kernel, ⟨coins, hcoins⟩, fun coins hcoins heq ↦ ?_⟩
  have hsum := startUpSupply_add newIdsRun_burnedState hcoins burnedState.tip.nHeight
  have hlost : lostValue (chainTxs burnedState.links) = 0 := by decide
  rw [heq, hlost, add_zero, add_eq_left, (burnedValue_eq_zero_iff newIdsRun_burnedState hcoins _).2] at hsum
  have hcoin : burnedState.utxo ⟨burningCoinbase.getHash default, 0⟩ =
      some ⟨true, false, ⟨100 * 10 ^ 8, getScriptForDestination (.keyID 0)⟩, 2⟩ := by
    rw [utxo_burnedState]
    decide +kernel
  exact absurd (hsum _ _ hcoin (by decide)) (by decide)

end Example

end KristaTech
