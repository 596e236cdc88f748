import KristaTech.Library.EarlyExit
import KristaTech.Library.EffectLoop
import KristaTech.Library.KeyOrder
import KristaTech.Library.Majority
import KristaTech.Library.UndoStack
import KristaTech.Library.Ledger
import KristaTech.Primitives.Basic
import KristaTech.Primitives.Serialize
import KristaTech.Primitives.Bls
import KristaTech.Script.Script
import KristaTech.Primitives.Transaction
import KristaTech.Primitives.Block
import KristaTech.Primitives.RoundTrip
import KristaTech.Script.Standard
import KristaTech.Script.Interpreter
import KristaTech.Script.Verify
import KristaTech.Script.Taproot
import KristaTech.Consensus.Params
import KristaTech.Consensus.Emission
import KristaTech.Quorum.Certificate
import KristaTech.Quorum.Guard
import KristaTech.Quorum.ProposalGuard
import KristaTech.Quorum.Protocol
import KristaTech.Primitives.WireFormat
import KristaTech.Quorum.Agreement
import KristaTech.Quorum.Certified
import KristaTech.Quorum.Rotation
import KristaTech.Masternode.Delegation
import KristaTech.Masternode.DelegationUndo
import KristaTech.Masternode.Ping
import KristaTech.Masternode.Registry
import KristaTech.Masternode.Activity
import KristaTech.Masternode.Consistency
import KristaTech.Masternode.Undoable
import KristaTech.Masternode.ActivityUndo
import KristaTech.Masternode.History
import KristaTech.Masternode.Pins
import KristaTech.Masternode.Replay
import KristaTech.Masternode.Restart
import KristaTech.Chain.Coins
import KristaTech.Chain.Utxo
import KristaTech.Chain.Values
import KristaTech.Adam.Seed
import KristaTech.Adam.Solution
import KristaTech.Adam.Tickets
import KristaTech.Adam.HashRounds
import KristaTech.Validation.State
import KristaTech.Chain.Burns
import KristaTech.Validation.CheckBlock
import KristaTech.Validation.Contextual
import KristaTech.Validation.Inputs
import KristaTech.Validation.Connect
import KristaTech.Validation.TxSteps
import KristaTech.Validation.ScriptChecks
import KristaTech.Validation.ConnectFailure
import KristaTech.Validation.TaprootSpend
import KristaTech.Validation.TaprootDigest
import KristaTech.Validation.Disconnect
import KristaTech.Validation.CoinUndo
import KristaTech.Validation.ChainRun
import KristaTech.Validation.CoinIds
import KristaTech.Validation.StartUp
import KristaTech.Validation.Supply
import KristaTech.Validation.OpenCoins
import KristaTech.Validation.GrownChain
import KristaTech.Validation.BurnHistory
import KristaTech.Validation.BurnRestart
import KristaTech.Validation.SampleBlocks
import KristaTech.Validation.Overflow
import KristaTech.Validation.VerifyDB
import KristaTech.Validation.VerifyEffects
import KristaTech.Validation.PingAuth
import KristaTech.Validation.Mempool
import KristaTech.Validation.Template
import KristaTech.Validation.PendingRegistrations
import KristaTech.Stake.Kernel
import KristaTech.Validation.ProposeBlock
import KristaTech.Adam.SeedCache
import KristaTech.Adam.MinerPool
import KristaTech.Library.Accounts
import KristaTech.Library.Claims
import KristaTech.Library.Shares
import KristaTech.Library.Ranking
import KristaTech.Adam.Election
import KristaTech.Adam.PoolContents
import KristaTech.Adam.Selection
import KristaTech.Validation.Treasury
import KristaTech.Masternode.Collateral
import KristaTech.Masternode.PaymentQueue
import KristaTech.Masternode.Payments
import KristaTech.Primitives.UniValue
import KristaTech.Relay.CompactBlock
import KristaTech.Relay.FutureBlocks
import KristaTech.Relay.IndexLists
import KristaTech.Relay.Interference
import KristaTech.Relay.Reconstruction
import KristaTech.Script.Instructions
import KristaTech.Script.Run
import KristaTech.Mescal.Compile
import KristaTech.Mescal.Structure
import KristaTech.Mescal.Conditions
import KristaTech.Script.Numbers
import KristaTech.Mescal.Decompile
import KristaTech.Mescal.Emit
import KristaTech.Mescal.Shorten
import KristaTech.Mescal.RoundTrip
import KristaTech.Script.Timelocks
import KristaTech.Mescal.Registrations
import KristaTech.Script.Completion
import KristaTech.Validation.CoinSpend
import KristaTech.Validation.Locks
import KristaTech.Adam.Collateral
import KristaTech.Stake.Locks
import KristaTech.Adam.Fallback
import KristaTech.Validation.Producer
import KristaTech.Masternode.Conservation
import KristaTech.Stake.Weight
import KristaTech.Stake.Uptime
