import KristaTech.Validation.StartUp
import KristaTech.Validation.Supply
import KristaTech.Validation.OpenCoins
import KristaTech.Validation.SampleBlocks

/-!
# Sums of 64 bits

`ConnectBlock` adds up what a block spends and pays out in signed numbers of 64 bits. `GetValueOut`
looks out for an overflow, the loop over the transactions does not. What each transaction spends and
pays out is within the money range; but the transactions of one block can pass the same coins on, so
the sums have no bound besides the size of the block.

The sums fit if the outputs of the block are worth less than `2 ^ 63` by at least the cap of the
supply, for what is spent is the parent's or was paid out before (`sumsFit_of_totalOut_lt`).
-/

namespace KristaTech

open CCoinsViewCache Ledger List

variable {E : ValidationEnv}

/-- The number can be held by an `int64_t`. -/
def FitsInt64 (n : ℤ) : Prop := -2 ^ 63 ≤ n ∧ n < 2 ^ 63

/-- The sums of the loop over the transactions, as far as it has come. -/
structure ConnectState.Fits (acc : ConnectState) : Prop where
  nValueIn : FitsInt64 acc.nValueIn
  nValueOut : FitsInt64 acc.nValueOut
  nFees : FitsInt64 acc.nFees

/-- The sums after the loop. -/
structure ConnectState.MintFits (acc : ConnectState) (nMoneySupply nBlockValue : CAmount) : Prop where
  net : FitsInt64 (acc.nValueOut - acc.nValueIn)
  nMint : FitsInt64 (acc.nValueOut - acc.nValueIn + acc.nFees)
  nExpectedMint : FitsInt64 (nBlockValue + acc.nFees)
  nMoneySupply : FitsInt64 (nMoneySupply + (acc.nValueOut - acc.nValueIn))

/-- The sums of the mint computation fit, after each transaction and at the end. -/
structure ConnectCall.SumsFit (E : ValidationEnv) (s : ChainState) (c : ConnectCall) : Prop where
  turns : ∀ pre post acc, c.block.vtx = pre ++ post →
    ((⟨c.ctx, s.node.masternodes, c.pindex, false⟩ : ConnectInput).connectTxs E pre
      s.node.mapAddressBurns { view := c.view }).2 = .ok acc → acc.Fits
  mint : ∀ acc, ((⟨c.ctx, s.node.masternodes, c.pindex, false⟩ : ConnectInput).connectTxs E c.block.vtx
    s.node.mapAddressBurns { view := c.view }).2 = .ok acc →
    acc.MintFits s.node.nMoneySupply (E.consensus.getBlockValue s.node.nMoneySupply (s.tip.nHeight + 1))

/-! ### What bounds the sums -/

/-- What is known of the sums when the outputs so far are worth `nOut`. -/
structure ConnectState.Bounded (acc : ConnectState) (nMoneySupply nOut : CAmount) : Prop where
  nValueOut : acc.nValueOut = nOut
  nFees_nonneg : 0 ≤ acc.nFees
  nFees_le : acc.nFees ≤ acc.nValueIn
  nValueIn_le : acc.nValueIn ≤ nMoneySupply + nOut

theorem totalOut_append (txs txs' : List CTransaction) :
    totalOut (txs ++ txs') = totalOut txs + totalOut txs' := by
  rw [totalOut, map_append, sum_append, totalOut, totalOut]

variable {txs : List CTransaction}

theorem totalOut_nonneg (h : ∀ tx ∈ txs, ∀ out ∈ tx.vout, 0 ≤ out.nValue) : 0 ≤ totalOut txs := by
  refine sum_nonneg fun v hv ↦ ?_
  obtain ⟨tx, htx, rfl⟩ := mem_map.1 hv
  refine sum_nonneg fun v hv ↦ ?_
  obtain ⟨out, hout, rfl⟩ := mem_map.1 hv
  exact h tx htx out hout

theorem lostValue_nonneg (h : ∀ tx ∈ txs, ∀ out ∈ tx.vout, 0 ≤ out.nValue) : 0 ≤ lostValue txs := by
  refine sum_nonneg fun v hv ↦ ?_
  obtain ⟨tx, htx, rfl⟩ := mem_map.1 hv
  exact (sum_eq_zero_iff_of_nonneg (h tx htx)).1

section Bounds

variable {s : ChainState} {c : ConnectCall} {G : NodeState} {connected : Connected}

/-- A view that has the coins of the tip, none of which is unspendable. -/
structure SeesSpendableCoins (s : ChainState) (view : CCoinsViewCache) : Prop extends
    SeesCoins s view where
  spendable : view.Spendable

/-- The runs in which the ids are new and the views have the coins of the tip. -/
abbrev NewIdsSpendableRun (E : ValidationEnv) : ChainState → Prop :=
  ChainRun E SeesSpendableCoins fun s block ↦ DistinctIds E s block ∧ NewRegistrations E s block

variable (hestimate : E.consensus.totalBlocksEstimate ≤ 0) (hrun : NewIdsSpendableRun E s)
  (htip : c.OnTip E s) (hview : SeesSpendableCoins s c.view)
  (hids : DistinctIds E s c.block ∧ NewRegistrations E s c.block)
  (hok : c.run E s.node = (G, .ok connected))

include hestimate hrun htip hview hids hok

theorem bounded_of_connectTxs {pre post : List CTransaction}
    (hvtx : c.block.vtx = pre ++ post) {acc : ConnectState}
    (hloop : ((⟨c.ctx, s.node.masternodes, c.pindex, false⟩ : ConnectInput).connectTxs E pre
      s.node.mapAddressBurns { view := c.view }).2 = .ok acc) :
    acc.Bounded s.node.nMoneySupply (totalOut pre) ∧ ∀ tx ∈ pre, ∀ out ∈ tx.vout, 0 ≤ out.nValue := by
  have hrun' : NewIdsRun E s := hrun.mono (fun _ _ h ↦ h.toSeesCoins) fun _ _ h ↦ h
  have htraced := ChainRun.traced hrun'
  obtain ⟨hform, hnew⟩ := htip.firstUses hview.toSeesCoins htraced hids.1 hids.2 hok
  obtain ⟨hbefore, -⟩ := (connectBlock_eq_ok_iff rfl htip.notGenesis).1 hok
  have hdistinct : ∀ tx ∈ pre, InputsDistinct E.crypto tx := fun tx htx ↦
    inputsDistinct_of_checkTransaction (hform.transactions tx (hvtx ▸ mem_append_left _ htx))
  have hcovered : ∀ tx ∈ pre, ∀ kv ∈ newCoins E.crypto tx c.pindex.nHeight, c.view.Covered kv.1 := by
    intro tx htx kv hkv
    have hfresh : FreshIds E.crypto c.view c.block :=
      hnew.freshIds (by rw [hview.utxo]; exact htraced.known)
    exact hfresh.covered (hvtx ▸ mem_append_left _ htx) hkv
  obtain ⟨-, undos, happlies, -, hvalueIn, hvalueOut, hvalues⟩ :=
    ConnectInput.appliesAll_of_connectTxs hdistinct hview.coherent hcovered hloop
  obtain ⟨undos', hcounted⟩ := ConnectInput.exists_counted hdistinct hview.spendable (by
      show E.consensus.totalBlocksEstimate < getSpendHeight c.ctx c.view
      rw [htip.getSpendHeight_eq hbefore]
      exact lt_of_le_of_lt hestimate (hrun.nHeight_pos htip)) hloop
  have hout : ∀ tx ∈ pre, ∀ out ∈ tx.vout, 0 ≤ out.nValue := fun tx htx ↦
    (CTransaction.getValueOut_eq_some (hvalues tx htx)).2
  -- what is unspent after these transactions is worth something
  obtain ⟨hchain, hcoin⟩ := htraced.nonneg
  have hnonneg := (happlies.weighs_iff.1
    (show Weighs (·.out.nValue) c.view.utxo _ from hview.utxo ▸ hrun'.weighs)).nonneg
      (happlies.forall_coin (hview.utxo ▸ hcoin) fun tx htx kv hkv ↦
        nonneg_of_mem_newCoins (hout tx htx) hkv)
  have hlost := lostValue_nonneg hout
  have hlost' := lostValue_nonneg hchain
  have hvalueIn : acc.nValueIn = totalSpent E.crypto pre undos := hvalueIn.trans (zero_add _)
  refine ⟨⟨hvalueOut.trans (zero_add _), hcounted.nFees.1, ?_, by linarith⟩, hout⟩
  rw [hcounted.nValueIn]
  exact hcounted.nFees.2

/-- After the whole loop. -/
theorem exists_bounded : ∃ acc,
    ((⟨c.ctx, s.node.masternodes, c.pindex, false⟩ : ConnectInput).connectTxs E c.block.vtx
      s.node.mapAddressBurns { view := c.view }).2 = .ok acc ∧
    acc.Bounded s.node.nMoneySupply (totalOut c.block.vtx) ∧
      ∀ tx ∈ c.block.vtx, ∀ out ∈ tx.vout, 0 ≤ out.nValue := by
  obtain ⟨-, -, burns, acc, hloop, -⟩ := (connectBlock_eq_ok_iff rfl htip.notGenesis).1 hok
  have hloop := congrArg Prod.snd hloop
  exact ⟨acc, hloop, bounded_of_connectTxs hestimate hrun htip hview hids hok (append_nil _).symm hloop⟩

/-- **When the sums fit.** -/
theorem sumsFit_of_totalOut_lt (hcap : 9999 * (100 * 10 ^ 8) ≤ E.consensus.nMaxMoneyOut)
    (hout : totalOut c.block.vtx + E.consensus.nMaxMoneyOut < 2 ^ 63) : c.SumsFit E s := by
  have hsees : ∀ s view, SeesSpendableCoins s view → view.Spendable := fun _ _ h ↦ h.spendable
  have hsupply := hrun.supply_le hsees hestimate hcap
  have hreward := hrun.supply_add_getBlockValue_le hsees hestimate hcap
  have hvalue := E.consensus.getBlockValue_nonneg s.node.nMoneySupply (s.tip.nHeight + 1)
  obtain ⟨_, hloop', hbounded, hnonneg⟩ := exists_bounded hestimate hrun htip hview hids hok
  refine ⟨fun pre post acc hvtx hloop ↦ ?_, fun acc hloop ↦ ?_⟩
  · obtain ⟨hbounded, -⟩ := bounded_of_connectTxs hestimate hrun htip hview hids hok hvtx hloop
    rw [hvtx, forall_mem_append] at hnonneg
    have hpre := totalOut_nonneg hnonneg.1
    have hpost := totalOut_nonneg hnonneg.2
    rw [hvtx, totalOut_append] at hout
    obtain ⟨hvalueOut, hfees, hfeesIn, hvalueIn⟩ := hbounded
    refine ⟨⟨?_, ?_⟩, ⟨?_, ?_⟩, ⟨?_, ?_⟩⟩ <;> linarith
  · obtain rfl := Except.ok.inj (hloop'.symm.trans hloop)
    obtain ⟨hvalueOut, hfees, hfeesIn, hvalueIn⟩ := hbounded
    have hpos := totalOut_nonneg hnonneg
    refine ⟨⟨?_, ?_⟩, ⟨?_, ?_⟩, ⟨?_, ?_⟩, ⟨?_, ?_⟩⟩ <;> linarith

theorem totalOut_lt_of_sumsFit (h : c.SumsFit E s) : totalOut c.block.vtx < 2 ^ 63 := by
  obtain ⟨acc, hloop, hbounded, -⟩ := exists_bounded hestimate hrun htip hview hids hok
  rw [← hbounded.nValueOut]
  exact (h.turns _ [] _ (append_nil _).symm hloop).nValueOut.2

end Bounds

def busyOut (i : ℕ) : COutPoint := ⟨BitVec.ofNat 256 i, 0⟩

def mintValue (i : ℕ) : CAmount := if i = 1 then 0 else 100 * 10 ^ 8

/-- What the later transactions spend: a minted coin, as long as there are any left, and the coin of the
transaction before. -/
def busyInputs (i : ℕ) : List COutPoint :=
  (if i ≤ 18100 then [busyOut (i - 9100)] else []) ++ (if i = 9102 then [] else [busyOut (i - 1)])

def passValue (i : ℕ) : CAmount := (min (i - 9101) 8999 : ℕ) * (100 * 10 ^ 8)

def busyTx (i : ℕ) : CTransaction :=
  if i ≤ 9101 then mintTx i (mintValue i) else openTx i (busyInputs i) (passValue i)

def mintCoin (i : ℕ) : Coin := ⟨true, false, ⟨mintValue i, openScript⟩, i⟩

def passCoin (i : ℕ) : Coin := ⟨false, false, ⟨passValue i, openScript⟩, 9101⟩

section Busy

variable {i j : ℕ}

theorem busyOut_inj (hi : i < 2 ^ 32) (hj : j < 2 ^ 32) : busyOut i = busyOut j ↔ i = j := by
  refine ⟨fun h ↦ ?_, fun h ↦ h ▸ rfl⟩
  have htoNat := congrArg (fun o : COutPoint ↦ o.hash.toNat) h
  simp only [busyOut, BitVec.toNat_ofNat] at htoNat
  omega

theorem not_isNull_busyOut (i : ℕ) : (busyOut i).isNull = false := by
  simp [busyOut, COutPoint.isNull, COutPoint.null]

theorem busyInputs_ne_nil (i : ℕ) : busyInputs i ≠ [] := by
  rw [busyInputs]
  split_ifs <;> simp
  omega

theorem mem_busyInputs {o : COutPoint} : o ∈ busyInputs i ↔
    i ≤ 18100 ∧ o = busyOut (i - 9100) ∨ i ≠ 9102 ∧ o = busyOut (i - 1) := by
  rw [busyInputs, mem_append]
  split_ifs <;> simp_all

theorem exists_of_mem_busyInputs {o : COutPoint} (hi : 9102 ≤ i) (ho : o ∈ busyInputs i) :
    ∃ j, 2 ≤ j ∧ j < i ∧ busyOut j = o := by
  rcases mem_busyInputs.1 ho with ⟨-, rfl⟩ | ⟨-, rfl⟩
  · exact ⟨i - 9100, by omega, by omega, rfl⟩
  · exact ⟨i - 1, by omega, by omega, rfl⟩

theorem nodup_busyInputs (hi : 9102 ≤ i) (hlt : i < 2 ^ 32) : (busyInputs i).Nodup := by
  have hne : busyOut (i - 9100) ≠ busyOut (i - 1) := by
    rw [ne_eq, busyOut_inj (by omega) (by omega)]
    omega
  rw [busyInputs]
  split_ifs <;> simp [hne]

theorem length_busyInputs_le (i : ℕ) : (busyInputs i).length ≤ if i ≤ 18100 then 2 else 1 := by
  rw [busyInputs]
  split_ifs <;> simp

theorem nVersion_busyTx (i : ℕ) : (busyTx i).nVersion = i := by
  rw [busyTx]
  split_ifs <;> rfl

theorem getHash_busyTx (hi : i < 2 ^ 32) : (busyTx i).getHash sampleEnv.crypto = BitVec.ofNat 256 i :=
  getHash_tx_sampleCrypto (nVersion_busyTx i) hi

theorem busyTx_of_le (hi : i ≤ 9101) : busyTx i = mintTx i (mintValue i) := if_pos hi

theorem busyTx_of_lt (hi : 9102 ≤ i) : busyTx i = openTx i (busyInputs i) (passValue i) :=
  if_neg (by omega)

theorem notNull_of_mem_busyInputs {o : COutPoint} (hi : 9102 ≤ i) (ho : o ∈ busyInputs i) :
    o.isNull = false := by
  obtain ⟨j, -, -, rfl⟩ := exists_of_mem_busyInputs hi ho
  exact not_isNull_busyOut j

theorem isCoinBase_busyTx (i : ℕ) : (busyTx i).isCoinBase = decide (i ≤ 9101) := by
  by_cases hi : i ≤ 9101
  · rw [busyTx_of_le hi, isCoinBase_mintTx, decide_eq_true hi]
  · rw [busyTx_of_lt (by omega), not_isCoinBase_openTx (busyInputs_ne_nil i)
      fun o ↦ notNull_of_mem_busyInputs (by omega), decide_eq_false hi]

theorem mintValue_range (i : ℕ) : 0 ≤ mintValue i ∧ mintValue i ≤ 100 * 10 ^ 8 := by
  rw [mintValue]
  split_ifs <;> decide

theorem passValue_range (i : ℕ) : 0 ≤ passValue i ∧ passValue i ≤ 8999 * (100 * 10 ^ 8) := by
  have hmin : ((min (i - 9101) 8999 : ℕ) : ℤ) ≤ 8999 := by exact_mod_cast Nat.min_le_right _ _
  have hcoin : (0 : ℤ) ≤ 100 * 10 ^ 8 := by norm_num
  exact ⟨mul_nonneg (Nat.cast_nonneg _) hcoin, mul_le_mul_of_nonneg_right hmin hcoin⟩

theorem passValue_eq (hi : 9102 ≤ i) :
    passValue i = (if i ≤ 18100 then 100 * 10 ^ 8 else 0) + passValue (i - 1) := by
  rw [passValue, passValue]
  split_ifs
  · have hmin : min (i - 9101) 8999 = min (i - 1 - 9101) 8999 + 1 := by omega
    rw [hmin, Nat.cast_succ, add_one_mul, add_comm]
  · have hmin : min (i - 9101) 8999 = min (i - 1 - 9101) 8999 := by omega
    rw [hmin, zero_add]

theorem moneyRange_of_le {n : CAmount} (h : 0 ≤ n ∧ n ≤ 8999 * (100 * 10 ^ 8)) :
    sampleEnv.consensus.moneyRange n = true := by
  have hmax : sampleEnv.consensus.nMaxMoneyOut = 210000000 * 10 ^ 8 := rfl
  exact Params.moneyRange_iff.2 ⟨h.1, by rw [hmax]; linarith [h.2]⟩

theorem checked_busyTx (hi : i < 2 ^ 32) : checkTransaction sampleEnv (busyTx i) = .ok () ∧
    sampleEnv.isZeroCoinPoW (busyTx i) = false := by
  by_cases hmint : i ≤ 9101
  · rw [busyTx_of_le hmint]
    have hrange := mintValue_range i
    exact ⟨checkTransaction_mintTx (moneyRange_of_le ⟨hrange.1, by linarith⟩), rfl⟩
  · rw [busyTx_of_lt (by omega)]
    refine ⟨checkTransaction_openTx (busyInputs_ne_nil i) (nodup_busyInputs (by omega) hi)
      (fun o ho ↦ ⟨notNull_of_mem_busyInputs (by omega) ho, ?_⟩) ?_
      (moneyRange_of_le (passValue_range i)), not_isZeroCoinPoW_openTx⟩
    · obtain ⟨j, hj, hj', rfl⟩ := exists_of_mem_busyInputs (by omega) ho
      have hone : zeroCoinSentinel = busyOut 1 := rfl
      rw [hone, ne_eq, busyOut_inj (by omega) (by decide)]
      omega
    · have hle := length_busyInputs_le i
      split_ifs at hle <;> omega

theorem not_isCoinStake_busyTx (l : List ℕ) : (l.map busyTx)[1]?.any (·.isCoinStake) = false := by
  have hstake (i : ℕ) : (busyTx i).isCoinStake = false := by
    rw [busyTx]
    split_ifs
    · exact isCoinStake_mintTx
    · exact not_isCoinStake_openTx
  rw [getElem?_map]
  cases l[1]? with
  | none => rfl
  | some i => exact hstake i

theorem length_serialize_busyTx (i : ℕ) : (busyTx i).serialize.length ≤ if i ≤ 18100 then 102 else 61 := by
  by_cases hmint : i ≤ 9101
  · have hle : (mintTx i (mintValue i)).serialize.length ≤ 100 := length_serialize_mintTx
    rw [busyTx_of_le hmint, if_pos (by omega)]
    omega
  · have hcount := length_busyInputs_le i
    rw [busyTx_of_lt (by omega), length_serialize_openTx (by split_ifs at hcount <;> omega)]
    split_ifs at hcount ⊢ <;> omega

theorem formChecked_busyTx {hashPrevBlock : Uint256} {n k m : ℕ} (hk : k ≤ 9100) (hm : m = 0 ∨ k = 9100)
    (hlt : k + m + 1 < 2 ^ 32) :
    FormChecked sampleEnv (checkedBlock hashPrevBlock n ((List.range' (k + 1) (m + 1)).map busyTx)) where
  first := by
    show (busyTx (k + 1)).isCoinBase = true
    rw [isCoinBase_busyTx]
    exact decide_eq_true (by omega)
  others := by
    show ((List.range' (k + 1 + 1) m).map busyTx).any _ = false
    rw [any_eq_false]
    intro tx htx
    obtain ⟨i, hi, rfl⟩ := mem_map.1 htx
    rw [mem_range'_1] at hi
    rw [isCoinBase_busyTx, decide_eq_true_eq]
    omega
  transactions tx htx := by
    obtain ⟨i, hi, rfl⟩ := mem_map.1 htx
    rw [mem_range'_1] at hi
    exact (checked_busyTx (by omega)).1

end Busy

theorem ne_hashGenesisBlock {n : ℕ} (hn : n < 2 ^ 32) :
    BitVec.ofNat 256 n ≠ sampleEnv.consensus.hashGenesisBlock := by
  intro heq
  have hgenesis : 2 ^ 32 ≤ sampleEnv.consensus.hashGenesisBlock.toNat := by decide
  have htoNat := congrArg BitVec.toNat heq
  rw [BitVec.toNat_ofNat] at htoNat
  omega

/-- The state after `k` blocks with a coinbase each. -/
structure MintedTo (k : ℕ) (s : ChainState) : Prop where
  run : NewIdsSpendableRun sampleEnv s
  nHeight : s.tip.nHeight = k
  txs : ∀ tx ∈ chainTxs s.links, ∃ i, i ≤ k ∧ tx = busyTx i
  coins : ∀ i, 1 ≤ i → i ≤ k → s.utxo (busyOut i) = some (mintCoin i)
  free : ∀ i, k < i → i < 2 ^ 32 → s.utxo (busyOut i) = none
  isOpen : ∀ o coin, s.utxo o = some coin → coin.out.scriptPubKey = openScript ∧ 0 ≤ coin.out.nValue

namespace MintedTo

variable {k : ℕ} {s : ChainState} (h : MintedTo k s)

include h

theorem sees : SeesSpendableCoins s (sampleView s) where
  coherent := coherent_ofBase _
  utxo := by
    funext o
    show unspent (s.utxo o) = s.utxo o
    cases hcoin : s.utxo o with
    | none => rfl
    | some coin => exact unspent_eq_some_iff.2 ⟨rfl, Coin.isSpent_eq_false (h.isOpen o coin hcoin).2⟩
  spendable :=
    ⟨by simp [sampleView, ofBase], fun o coin hcoin ↦ by
      rw [(h.isOpen o coin hcoin).1]
      exact isUnspendable_openScript⟩

theorem ids (n : ℕ) {vtx : List CTransaction} (hk : k < 2 ^ 32)
    (hvtx : ∀ tx ∈ vtx, ∃ i, k < i ∧ i < 2 ^ 32 ∧ tx = busyTx i) :
    DistinctIds sampleEnv s (checkedBlock s.tip.hash n vtx) ∧
      NewRegistrations sampleEnv s (checkedBlock s.tip.hash n vtx) := by
  have hall : ∀ tx ∈ chainTxs s.links ++ vtx, ∃ i, i < 2 ^ 32 ∧ tx = busyTx i := by
    intro tx htx
    rcases mem_append.1 htx with hchain | hblock
    · obtain ⟨i, hi, rfl⟩ := h.txs tx hchain
      exact ⟨i, by omega, rfl⟩
    · obtain ⟨i, -, hi, rfl⟩ := hvtx tx hblock
      exact ⟨i, hi, rfl⟩
  have hinj : ∀ {i j : ℕ}, i < 2 ^ 32 → j < 2 ^ 32 →
      (busyTx i).getHash sampleEnv.crypto = (busyTx j).getHash sampleEnv.crypto → i = j := by
    intro i j hi hj heq
    rw [getHash_busyTx hi, getHash_busyTx hj] at heq
    exact (busyOut_inj hi hj).1 (congrArg (COutPoint.mk · 0) heq)
  refine ⟨⟨fun t ht tx htx heq ↦ ?_, fun tx htx _ t ht _ heq ↦ ?_⟩, fun pre tx post hpre hzero ↦ ?_⟩
  · obtain ⟨i, hi, rfl⟩ := hall t ht
    obtain ⟨j, hj, rfl⟩ := hall tx htx
    rw [hinj hi hj heq]
  · obtain ⟨i, hi, rfl⟩ := h.txs t ht
    obtain ⟨j, hkj, hj, rfl⟩ := hvtx tx htx
    have hij := hinj (by omega) hj heq
    omega
  · obtain ⟨j, -, hj, rfl⟩ := hvtx tx (by
      show tx ∈ (checkedBlock s.tip.hash n vtx).vtx
      rw [hpre]
      simp)
    rw [(checked_busyTx hj).2] at hzero
    exact absurd hzero Bool.false_ne_true

theorem exists_mint (hk : k ≤ 9100) (n : ℕ) :
    ∃ mid acc, (sampleInput s n).checkTx sampleEnv { view := sampleView s } (busyTx (k + 1)) = .ok mid ∧
      (sampleInput s n).updateTx sampleEnv mid (busyTx (k + 1)) = .ok acc ∧
      OpenTurn { view := sampleView s } [] (BitVec.ofNat 256 (k + 1)) (mintCoin (k + 1)) 0 acc := by
  have hrange := mintValue_range (k + 1)
  have hhash := getHash_busyTx (show k + 1 < 2 ^ 32 by omega)
  have hcoin : mintCoin (k + 1) = ⟨true, false, ⟨mintValue (k + 1), openScript⟩,
      (sampleInput s n).pindex.nHeight⟩ := by
    show _ = (⟨_, _, _, s.tip.nHeight + 1⟩ : Coin)
    rw [h.nHeight]
    rfl
  rw [hcoin, ← hhash, busyTx_of_le (by omega)]
  refine exists_mintTurn h.sees.coherent (Nat.zero_le _) hrange.1 (by linarith) ?_
  rw [← busyTx_of_le (by omega), hhash]
  show (sampleView s).utxo (busyOut (k + 1)) = none
  rw [h.sees.utxo]
  exact h.free (k + 1) (by omega) (by omega)

theorem mintValue_le (hk : k ≤ 9100) : mintValue (k + 1) ≤
    sampleEnv.consensus.getBlockValue s.node.nMoneySupply (s.tip.nHeight + 1) := by
  have hmax : sampleEnv.consensus.nMaxMoneyOut = 210000000 * 10 ^ 8 := rfl
  have hsupplied := h.run.supplied (fun _ _ hview ↦ hview.spendable) (by decide)
  have hlength : s.links.length = k := by
    have := h.run.heights.1
    rw [h.nHeight] at this
    exact_mod_cast this.symm
  have hle := (hsupplied.le (by decide) h.run.heights.2).1 (by omega)
  rw [hlength] at hle
  have hk' : (k : ℤ) ≤ 9100 := by exact_mod_cast hk
  have hroom : ¬sampleEnv.consensus.nMaxMoneyOut ≤ s.node.nMoneySupply := by
    rw [hmax]
    linarith
  rw [Params.getBlockValue, if_neg hroom, h.nHeight, mintValue]
  by_cases hone : k = 0
  · simp [hone]
  · rw [if_neg (by omega), if_neg (by omega), if_pos (by omega), if_neg (by omega)]

/-- **One block more.** -/
theorem exists_succ (hk : k ≤ 9099) : ∃ s', MintedTo (k + 1) s' := by
  obtain ⟨mid, acc, hcheck, hupdate, hturn⟩ := h.exists_mint (by omega) (k + 1)
  set vtx := [busyTx (k + 1)] with hvtx
  have htip : (checkedCall s (k + 1) vtx).OnTip sampleEnv s := checkedCall_onTip
    (formChecked_busyTx (m := 0) (by omega) (.inl rfl) (by omega)) (by omega) (ne_hashGenesisBlock (by omega))
  have hloop : ((sampleInput s (k + 1)).connectTxs sampleEnv vtx s.node.mapAddressBurns
      { view := sampleView s }).2 = .ok acc := by
    rw [hvtx, ConnectInput.connectTxs_cons hcheck hupdate]
    rfl
  have hmint : acc.nValueOut - acc.nValueIn ≤
      sampleEnv.consensus.getBlockValue s.node.nMoneySupply (s.tip.nHeight + 1) := by
    rw [hturn.nValueOut, hturn.nValueIn]
    show 0 + mintValue (k + 1) - (0 + 0) ≤ _
    rw [zero_add, zero_add, sub_zero]
    exact h.mintValue_le (by omega)
  obtain ⟨G, connected, hok, hutxo⟩ := exists_connect_checkedCall htip rfl hloop hmint
  have hutxo' : connected.view.utxo = acc.view.utxo := hutxo
  have hothers : ∀ o, o ≠ busyOut (k + 1) → connected.view.utxo o = s.utxo o := by
    intro o ho
    rw [hutxo', hturn.others o not_mem_nil ho]
    exact congrFun h.sees.utxo o
  have hcreated : connected.view.utxo (busyOut (k + 1)) = some (mintCoin (k + 1)) := by
    rw [hutxo']
    exact hturn.created
  have hnew : ∀ tx ∈ vtx, ∃ i, k < i ∧ i < 2 ^ 32 ∧ tx = busyTx i := fun tx htx ↦
    ⟨k + 1, by omega, by omega, mem_singleton.1 htx⟩
  refine ⟨s.connect (checkedCall s (k + 1) vtx) G connected,
    h.run.connect htip h.sees (h.ids (k + 1) (by omega) hnew) hok,
    ?_, fun tx htx ↦ ?_, fun i hi hik ↦ ?_, fun i hi hlt ↦ ?_, fun o coin hcoin ↦ ?_⟩
  · show s.tip.nHeight + 1 = _
    rw [h.nHeight]
    rfl
  · rcases mem_append.1 htx with hchain | hblock
    · obtain ⟨i, hi, rfl⟩ := h.txs tx hchain
      exact ⟨i, by omega, rfl⟩
    · exact ⟨k + 1, le_rfl, mem_singleton.1 hblock⟩
  · show connected.view.utxo _ = _
    by_cases heq : i = k + 1
    · rw [heq, hcreated]
    · rw [hothers _ (by rw [ne_eq, busyOut_inj (by omega) (by omega)]; exact heq)]
      exact h.coins i hi (by omega)
  · show connected.view.utxo _ = _
    rw [hothers _ (by rw [ne_eq, busyOut_inj (by omega) (by omega)]; omega)]
    exact h.free i (by omega) hlt
  · have hcoin' : connected.view.utxo o = some coin := hcoin
    by_cases heq : o = busyOut (k + 1)
    · rw [heq, hcreated] at hcoin'
      obtain rfl := Option.some.inj hcoin'
      exact ⟨rfl, (mintValue_range _).1⟩
    · rw [hothers o heq] at hcoin'
      exact h.isOpen o coin hcoin'

end MintedTo

theorem exists_mintedTo {k : ℕ} (hk : k ≤ 9100) : ∃ s, MintedTo k s := by
  induction k with
  | zero =>
    refine ⟨genesisState, .genesis rfl rfl, rfl, fun tx htx ↦ ?_, fun i hi hi' ↦ ?_, fun i _ _ ↦ rfl,
      fun o coin hcoin ↦ ?_⟩
    · cases htx
    · omega
    · cases hcoin
  | succ k ih =>
    obtain ⟨s, h⟩ := ih (by omega)
    exact h.exists_succ (by omega)

/-- The sums and the coins before the transaction with the number. -/
structure Passing (hash : Uint256) (i : ℕ) (acc : ConnectState) : Prop where
  coherent : acc.view.Coherent
  bestBlock : acc.view.getBestBlock = hash
  nSigOps : acc.nSigOps = 0
  net : acc.nValueOut - acc.nValueIn = 100 * 10 ^ 8
  nValueOut : 8999 * (100 * 10 ^ 8) * ((i - 18101 : ℕ) : ℤ) ≤ acc.nValueOut
  minted : ∀ j, i ≤ j + 9100 → j ≤ 9000 → acc.view.utxo (busyOut j) = some (mintCoin j)
  last : i ≠ 9102 → acc.view.utxo (busyOut (i - 1)) = some (passCoin (i - 1))
  free : ∀ j, i ≤ j → j < 2 ^ 32 → acc.view.utxo (busyOut j) = none

theorem openCoin_mintCoin {j : ℕ} (hj : j ≤ 9001) : OpenCoin sampleEnv 9101 (mintCoin j) where
  script := rfl
  value := moneyRange_of_le ⟨(mintValue_range j).1, by
    show mintValue j ≤ _
    linarith [(mintValue_range j).2]⟩
  mature _ := by
    show (100 : ℤ) ≤ 9101 - (j : ℤ)
    omega

theorem openCoin_passCoin (j : ℕ) : OpenCoin sampleEnv 9101 (passCoin j) where
  script := rfl
  value := moneyRange_of_le (passValue_range j)
  mature := nofun

namespace Passing

variable {hash : Uint256} {i : ℕ} {acc : ConnectState} (h : Passing hash i acc) (hi : 9102 ≤ i)

include h hi

theorem openInputs (hlt : i < 2 ^ 32) {I : ConnectInput} (hheight : getSpendHeight I.ctx acc.view = 9101) :
    OpenInputs sampleEnv I.ctx acc.view (busyInputs i) (passValue i) := by
  have hmint : i ≤ 18100 → acc.view.utxo (busyOut (i - 9100)) = some (mintCoin (i - 9100)) :=
    fun hle ↦ h.minted _ (by omega) (by omega)
  have hrange := passValue_range i
  refine ⟨busyInputs_ne_nil i, nodup_busyInputs hi hlt, fun o ↦ notNull_of_mem_busyInputs hi,
    fun o ho ↦ ?_, ?_, moneyRange_of_le hrange, by linarith⟩
  · rw [hheight]
    rcases mem_busyInputs.1 ho with ⟨hle, rfl⟩ | ⟨hne, rfl⟩
    · exact ⟨_, hmint hle, openCoin_mintCoin (by omega)⟩
    · exact ⟨_, h.last hne, openCoin_passCoin _⟩
  · have hminted : mintValue (i - 9100) = 100 * 10 ^ 8 := if_neg (by omega)
    have hfirst : i = 9102 → passValue (i - 1) = 0 := fun heq ↦ by simp [heq, passValue]
    rw [busyInputs, passValue_eq hi]
    -- else the places `i - 9100` and `i - 1` are compared by counting down
    generalize i - 9100 = j at hmint hminted ⊢
    split_ifs with hle heq heq
    · simp [accessCoin_of_utxo (hmint hle), mintCoin, hminted, hfirst heq]
    · simp [accessCoin_of_utxo (hmint hle), accessCoin_of_utxo (h.last heq), mintCoin, passCoin, hminted]
    · omega
    · simp [accessCoin_of_utxo (h.last heq), passCoin]

theorem of_openTurn (hlt : i < 2 ^ 32) {acc' : ConnectState}
    (hturn : OpenTurn acc (busyInputs i) (BitVec.ofNat 256 i) (passCoin i) (passValue i) acc') :
    Passing hash (i + 1) acc' := by
  have hothers : ∀ j, j ≠ i → j ≠ i - 9100 → j ≠ i - 1 → j < 2 ^ 32 →
      acc'.view.utxo (busyOut j) = acc.view.utxo (busyOut j) := by
    intro j hne hminted hlast hj
    refine hturn.others _ (fun hmem ↦ ?_) ((busyOut_inj hj hlt).not.2 hne)
    rcases mem_busyInputs.1 hmem with ⟨-, heq⟩ | ⟨-, heq⟩
    · exact hminted ((busyOut_inj hj (by omega)).1 heq)
    · exact hlast ((busyOut_inj hj (by omega)).1 heq)
  have hvalue : (passCoin i).out.nValue = passValue i := rfl
  refine ⟨hturn.coherent, hturn.bestBlock.trans h.bestBlock, hturn.nSigOps.trans h.nSigOps, ?_, ?_,
    fun j hj hj' ↦ ?_, fun _ ↦ hturn.created, fun j hj hj' ↦ ?_⟩
  · rw [hturn.nValueOut, hturn.nValueIn, hvalue]
    linarith [h.net]
  · rw [hturn.nValueOut, hvalue]
    have hout := h.nValueOut
    by_cases hgather : i ≤ 18100
    · rw [Nat.sub_eq_zero_of_le (show i ≤ 18101 by omega)] at hout
      rw [Nat.sub_eq_zero_of_le (show i + 1 ≤ 18101 by omega)]
      linarith [(passValue_range i).1]
    · have hsucc : i + 1 - 18101 = i - 18101 + 1 := by omega
      have hmin : min (i - 9101) 8999 = 8999 := by omega
      rw [passValue, hmin, hsucc, Nat.cast_succ]
      push_cast
      linarith
  · rw [hothers j (by omega) (by omega) (by omega) (by omega)]
    exact h.minted j (by omega) hj'
  · rw [hothers j (by omega) (by omega) (by omega) hj']
    exact h.free j (by omega) hj'

/-- **One transaction more.** -/
theorem exists_succ (hlt : i < 2 ^ 32) {s : ChainState} (hhash : hash = s.tip.hash)
    (hheight : s.tip.nHeight = 9100) (n : ℕ) : ∃ mid acc',
      (sampleInput s n).checkTx sampleEnv acc (busyTx i) = .ok mid ∧
      (sampleInput s n).updateTx sampleEnv mid (busyTx i) = .ok acc' ∧ Passing hash (i + 1) acc' := by
  have hspend : getSpendHeight (sampleInput s n).ctx acc.view = 9101 := by
    rw [getSpendHeight, h.bestBlock, hhash]
    have hindex : (sampleInput s n).ctx.mapBlockIndex s.tip.hash = some s.tip := if_pos rfl
    rw [hindex]
    show s.tip.nHeight + 1 = 9101
    rw [hheight]
    rfl
  have hid := getHash_busyTx hlt
  rw [busyTx_of_lt hi] at hid ⊢
  have hfree : acc.view.utxo ⟨(openTx i (busyInputs i) (passValue i)).getHash sampleEnv.crypto, 0⟩ =
      none := by
    rw [hid]
    exact h.free i le_rfl hlt
  obtain ⟨mid, acc', hcheck, hupdate, hturn⟩ := exists_openTurn h.coherent (h.nSigOps ▸ Nat.zero_le _)
    (h.openInputs hi hlt (I := sampleInput s n) hspend) hfree
  have hcoin : (⟨false, false, ⟨passValue i, openScript⟩, (sampleInput s n).pindex.nHeight⟩ : Coin) =
      passCoin i := by
    show (⟨_, _, _, s.tip.nHeight + 1⟩ : Coin) = _
    rw [hheight]
    rfl
  rw [hid, hcoin] at hturn
  refine ⟨mid, acc', hcheck, hupdate, h.of_openTurn hi hlt hturn⟩

/-- **Any number of transactions more.** -/
theorem exists_pass {s : ChainState} (hhash : hash = s.tip.hash) (hheight : s.tip.nHeight = 9100)
    (n : ℕ) (burns : BurnCache) {m : ℕ} (hlt : i + m < 2 ^ 32) : ∃ acc',
      ((sampleInput s n).connectTxs sampleEnv ((List.range' i m).map busyTx) burns acc).2 = .ok acc' ∧
      Passing hash (i + m) acc' := by
  induction m generalizing i acc burns with
  | zero => exact ⟨acc, rfl, h⟩
  | succ m ih =>
    obtain ⟨mid, acc₁, hcheck, hupdate, h₁⟩ := h.exists_succ hi (by omega) hhash hheight n
    obtain ⟨acc', hloop, h'⟩ := ih h₁ (by omega) ((sampleInput s n).recordBurn sampleEnv mid (busyTx i) burns)
      (by omega)
    refine ⟨acc', ?_, by rwa [add_assoc, add_comm 1] at h'⟩
    rw [range'_succ, map_cons, ConnectInput.connectTxs_cons hcheck hupdate]
    exact hloop

end Passing

theorem MintedTo.passing {s : ChainState} (h : MintedTo 9100 s) {acc : ConnectState}
    (hturn : OpenTurn { view := sampleView s } [] (BitVec.ofNat 256 9101) (mintCoin 9101) 0 acc) :
    Passing s.tip.hash 9102 acc := by
  have hothers : ∀ j, j ≠ 9101 → j < 2 ^ 32 → acc.view.utxo (busyOut j) = s.utxo (busyOut j) := by
    intro j hne hj
    rw [hturn.others _ not_mem_nil ((busyOut_inj hj (by decide)).not.2 hne)]
    exact congrFun h.sees.utxo _
  refine ⟨hturn.coherent, hturn.bestBlock.trans (getBestBlock_sampleView s), hturn.nSigOps, ?_, ?_,
    fun j hj hj' ↦ ?_, fun hne ↦ absurd rfl hne, fun j hj hj' ↦ ?_⟩
  · rw [hturn.nValueOut, hturn.nValueIn]
    rfl
  · rw [hturn.nValueOut]
    show (0 : ℤ) ≤ 0 + mintValue 9101
    decide
  · rw [hothers j (by omega) (by omega)]
    exact h.coins j (by omega) (by omega)
  · rw [hothers j (by omega) hj']
    exact h.free j (by omega) hj'

theorem sum_length_busyTx_le (m : ℕ) :
    ((List.range' 9101 (9000 + m)).map fun i ↦ (busyTx i).serialize.length).sum ≤ 9000 * 102 + m * 61 := by
  have hfew (a b : ℕ) (l : ℕ) (hl : ∀ i ∈ List.range' a b, (busyTx i).serialize.length ≤ l) :
      ((List.range' a b).map fun i ↦ (busyTx i).serialize.length).sum ≤ b * l := by
    refine (sum_le_card_nsmul _ l fun x hx ↦ ?_).trans ?_
    · obtain ⟨i, hi, rfl⟩ := mem_map.1 hx
      exact hl i hi
    · rw [length_map, length_range', smul_eq_mul]
  have hsplit : List.range' 9101 (9000 + m) = List.range' 9101 9000 ++ List.range' 18101 m :=
    range'_append.symm
  rw [hsplit, map_append, sum_append]
  refine Nat.add_le_add (hfew _ _ _ fun i hi ↦ ?_) (hfew _ _ _ fun i hi ↦ ?_)
  · have hle := length_serialize_busyTx i
    rw [mem_range'_1] at hi
    rwa [if_pos (by omega)] at hle
  · have hle := length_serialize_busyTx i
    rw [mem_range'_1] at hi
    rwa [if_neg (by omega)] at hle

end KristaTech
