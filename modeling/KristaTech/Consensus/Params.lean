import KristaTech.Script.Standard
import Mathlib.Data.BitVec

/-!
# Consensus parameters

The parameters of a network that validation reads (`consensus/params.h`, `chainparams.cpp`,
`checkpoints.cpp`). What is proved holds for every choice of them, so for the main network, the test
network and the regression-test network alike. Addresses are compared in their text form, so the
encoding is a parameter as well.
-/

namespace KristaTech

/-- `Consensus::UpgradeIndex`, without the upgrades nothing modelled here asks for. -/
inductive UpgradeIndex
  | UPGRADE_POS
  | UPGRADE_BIP65
  | UPGRADE_TIME_PROTOCOL_V2
  | UPGRADE_P2PKH_BLOCK_SIGNATURES
  | UPGRADE_ADAM
  | UPGRADE_POMBL
  | UPGRADE_MODELD
  deriving DecidableEq, Repr

/-- `Consensus::Params` and the parts of `CChainParams` that validation uses. -/
structure Params where
  hashGenesisBlock : Uint256
  nCoinbaseMaturity : ℤ
  nMaxMoneyOut : CAmount
  nAdamMinersCount : ℕ
  nAdamThreshold : ℤ
  nAdamThresholdBootstrapLimit : ℤ
  nAdamStrictHeight : ℤ
  nAdamQuorumEnforcementHeight : ℤ
  nTreasuryGovernanceStartHeight : ℤ
  /-- The burn addresses, each with the height above which it counts. -/
  mBurnAddresses : List (String × ℤ)
  /-- `CPubKey(ParseHex(strSporkPubKey))`. -/
  sporkPubKey : CPubKey
  /-- `nActivationHeight`; none for an upgrade that never activates. -/
  nActivationHeight : UpgradeIndex → Option ℤ
  developerFundAddress : String
  /-- `EncodeDestination`. -/
  encodeDestination : CTxDestination → String
  /-- `Checkpoints::GetTotalBlocksEstimate`: the height of the last checkpoint. -/
  totalBlocksEstimate : ℤ
  /-- `GetZeroCoinPoWLimit`. -/
  zeroCoinPoWLimit : Uint256
  isRegTestNet : Bool

namespace Params

variable (consensus : Params)

/-- `MoneyRange`. -/
def moneyRange (nValue : CAmount) : Bool := 0 ≤ nValue && nValue ≤ consensus.nMaxMoneyOut

theorem moneyRange_iff {consensus : Params} {nValue : CAmount} :
    consensus.moneyRange nValue = true ↔ 0 ≤ nValue ∧ nValue ≤ consensus.nMaxMoneyOut := by
  rw [moneyRange, Bool.and_eq_true, decide_eq_true_eq, decide_eq_true_eq]

/-- `NetworkUpgradeActive`. -/
def networkUpgradeActive (nHeight : ℤ) (idx : UpgradeIndex) : Bool :=
  (consensus.nActivationHeight idx).any fun nActivationHeight ↦ nActivationHeight ≤ nHeight

/-- `IsAdamActive`. -/
def isAdamActive (nHeight : ℤ) : Bool := consensus.networkUpgradeActive nHeight .UPGRADE_ADAM

/-- `IsModelDActive`. -/
def isModelDActive (nHeight : ℤ) : Bool := consensus.networkUpgradeActive nHeight .UPGRADE_MODELD

/-- `GetAdamThreshold`. -/
def getAdamThreshold (nHeight : ℤ) : ℤ :=
  if nHeight < consensus.nAdamThresholdBootstrapLimit ∧ 0 ≤ nHeight then 5
  else consensus.nAdamThreshold

/-- `IsBurnAddress` of the text of a destination. -/
def isBurnAddress (addr : CTxDestination) (nHeight : ℤ) : Bool :=
  (consensus.mBurnAddresses.lookup (consensus.encodeDestination addr)).any (· < nHeight)

def isDeveloperFund (addr : CTxDestination) : Bool :=
  consensus.encodeDestination addr == consensus.developerFundAddress

/-- `CMainParams`, with the encoding of addresses left open. -/
def main (encodeDestination : CTxDestination → String) : Params where
  hashGenesisBlock := 0x0000050d4a94e97a9491c2ddde1251ff040772fee943e653fe583d5737e4d5e3
  nCoinbaseMaturity := 100
  nMaxMoneyOut := 210000000 * 10 ^ 8
  nAdamMinersCount := 11
  nAdamThreshold := 7
  nAdamThresholdBootstrapLimit := 50000
  nAdamStrictHeight := 2500
  nAdamQuorumEnforcementHeight := 200
  nTreasuryGovernanceStartHeight := 2880
  mBurnAddresses := [("KTburnCYcDjF1GsXa5k3tc3eZrVVbqefyWr", 0), ("KTburnUHdmKMVx4z8BcnZYZCWYKxRgfZp95", 0)]
  sporkPubKey := CPubKey.set [
    0x02, 0x48, 0x97, 0xee, 0x03, 0xb6, 0xf8, 0x13, 0x3a, 0xa5, 0xfc, 0x92, 0x6c, 0x8f, 0x9f, 0xd8, 0x3b,
    0x14, 0x54, 0xa8, 0x17, 0xfd, 0xa9, 0xfc, 0x90, 0x7d, 0xe1, 0x88, 0x66, 0xeb, 0xa0, 0x03, 0x0a]
  nActivationHeight
    | .UPGRADE_POMBL => some 2000
    | .UPGRADE_MODELD => some 2200
    | _ => some 200
  developerFundAddress := "KTeRC2Kj8hXcuzRohxPp2LtYFRJm2BceRoP"
  encodeDestination := encodeDestination
  totalBlocksEstimate := 0
  zeroCoinPoWLimit := 2 ^ 232 - 1
  isRegTestNet := false

/-- `CRegTestParams`, with the encoding of addresses left open. -/
def regTest (encodeDestination : CTxDestination → String) : Params where
  hashGenesisBlock := 0x00000e861e53873b7022fd0b9acabb804bd9eb14b8efe9ab20fe94ff3d24ca90
  nCoinbaseMaturity := 10
  nMaxMoneyOut := 43199500 * 10 ^ 8
  nAdamMinersCount := 11
  nAdamThreshold := 7
  nAdamThresholdBootstrapLimit := 1000
  nAdamStrictHeight := 1100
  nAdamQuorumEnforcementHeight := 0
  nTreasuryGovernanceStartHeight := 100
  mBurnAddresses := [("ktBurn42LtQP2pJ2fS5X2kpRx4Sd86kNgx4", 0), ("ktBurnKmNRzVXVVVDXxFhhKytkH5x2yqsCG", 0)]
  sporkPubKey := CPubKey.set [
    0x04, 0x39, 0x69, 0xb1, 0xb0, 0xe6, 0xf3, 0x27, 0xde, 0x37, 0xf2, 0x97, 0xa0, 0x15, 0xd3, 0x7e, 0x22,
    0x35, 0xea, 0xae, 0xeb, 0x39, 0x33, 0xde, 0xec, 0xd8, 0x16, 0x2c, 0x07, 0x5c, 0xee, 0x02, 0x07, 0xb1,
    0x35, 0x37, 0x61, 0x8b, 0xde, 0x64, 0x08, 0x79, 0x60, 0x60, 0x01, 0xa8, 0x13, 0x60, 0x91, 0xc6, 0x2e,
    0xc2, 0x72, 0xdd, 0x01, 0x33, 0x42, 0x4a, 0x17, 0x87, 0x04, 0xe6, 0xe7, 0x5b, 0xb7]
  nActivationHeight
    | .UPGRADE_POS => some 251
    | .UPGRADE_BIP65 | .UPGRADE_TIME_PROTOCOL_V2 => some 0
    | .UPGRADE_P2PKH_BLOCK_SIGNATURES | .UPGRADE_POMBL => some 300
    | .UPGRADE_ADAM | .UPGRADE_MODELD => some 200
  developerFundAddress := "kt5KNitasi4bEHbQQCrpy6445nJD7uSVNux"
  encodeDestination := encodeDestination
  totalBlocksEstimate := 0
  zeroCoinPoWLimit := 2 ^ 248 - 1
  isRegTestNet := true

/-! ### The block reward -/

/-- `FIXED_SCALE`. -/
def fixedScale : ℕ := 10 ^ 18

def fixedMul (a b : ℕ) : ℕ := (a * b + fixedScale / 2) / fixedScale

/-- The loop of `GetBlockValue`: a power by squaring. The exponent has at most `fuel` bits. -/
def decayLoop : (fuel exp factor base : ℕ) → ℕ
  | 0, _, factor, _ => factor
  | fuel + 1, exp, factor, base =>
    if exp = 0 then factor
    else
      let factor := if exp % 2 = 1 then fixedMul factor base else factor
      let exp := exp / 2
      decayLoop fuel exp factor (if 0 < exp then fixedMul base base else base)

/-- `GetBlockValue`, which reads the money supply: 100 coins at first, then 15 coins that lose 1.9 %
every 259200 blocks, and never more than there is left to mint. -/
def getBlockValue (nMoneySupply : CAmount) (nHeight : ℤ) : CAmount :=
  let coin : CAmount := 10 ^ 8
  if consensus.nMaxMoneyOut ≤ nMoneySupply then 0
  else if nHeight = 1 then 0
  else if nHeight < 10000 then if nHeight = 0 then 15 * coin else 100 * coin
  else
    let period := ((nHeight - 10000) / 259200).toNat
    let nSubsidy : CAmount := fixedMul (15 * 10 ^ 8) (decayLoop 32 period fixedScale (981 * 10 ^ 15))
    if consensus.nMaxMoneyOut < nMoneySupply + nSubsidy then consensus.nMaxMoneyOut - nMoneySupply
    else nSubsidy

theorem getBlockValue_nonneg (nMoneySupply : CAmount) (nHeight : ℤ) :
    0 ≤ consensus.getBlockValue nMoneySupply nHeight := by
  simp only [getBlockValue]
  split_ifs with hcap
  · exact le_rfl
  · exact le_rfl
  · decide
  · decide
  · exact Int.sub_nonneg_of_le (Int.le_of_lt (Int.not_le.1 hcap))
  · exact Int.natCast_nonneg _

end Params

end KristaTech
