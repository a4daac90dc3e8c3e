import Verge.Foundation.Ancestry
import Verge.Foundation.AssocMap
import Verge.Foundation.Reader
import Verge.Foundation.WriteLog
import Verge.Primitives
import Verge.Coins.Coin
import Verge.Coins.Logic
import Verge.Coins.Cache
import Verge.Coins.Layer
import Verge.Coins.Stack
import Verge.Coins.DB
import Verge.Coins.Simulation
import Verge.Coins.Usage
import Verge.Serialize
import Verge.Compressor
import Verge.Undo
import Verge.TxVerify
import Verge.Validation.ConnectBlock
import Verge.Validation.Effects
import Verge.Validation.ConnectSpec
import Verge.Validation.UndoBlock
import Verge.Validation.Supply
import Verge.Validation.Replay
import Verge.Validation.Reorganization
import Verge.Chain.ActivateBestChain
import Verge.Chain.FindMostWork
import Verge.Chain.Operations
import Verge.Chain.ChainState
import Verge.Chain.Interleaving
import Verge.Net.BlockEncodings
import Verge.Net.BlocksInFlight
import Verge.Net.CompactBlocks
import Verge.Chain.BlockIndexDB
import Verge.Chain.Linking
import Verge.Chain.SkipList
import Verge.Chain.BlockIndex
import Verge.Chain.LiveIndex
import Verge.Chain.LoadBlockIndex
import Verge.Chain.Reload
import Verge.Foundation.Runs
import Verge.Script.Script
import Verge.Smsg.PaidFunding
import Verge.Foundation.Threads
import Verge.CheckQueue
import Verge.Smsg.Bucket
import Verge.Smsg.Exchange
import Verge.Smsg.Withheld
import Verge.Foundation.Restricts
import Verge.Script.Interpreter
import Verge.Script.SoftFork
import Verge.Validation.MempoolScripts
import Verge.Foundation.MerkleTree
import Verge.LockTime
import Verge.Validation.BlockChecks
import Verge.Chain.Unharmed
import Verge.Chain.ProcessNewBlock
import Verge.Script.Standard
import Verge.Stealth
import Verge.Wallet.StealthPayment
import Verge.Wallet.StealthReceipt
import Verge.Foundation.SinglePrecision
import Verge.Foundation.Loop
import Verge.Policy
import Verge.Wallet.CoinSelection
import Verge.Wallet.SelectCoins
import Verge.Wallet.CreateTransaction
import Verge.Wallet.CreateSpec
import Verge.Wallet.CreatePass
import Verge.Foundation.Worklist
import Verge.Wallet.Transactions
import Verge.Validation.TestBlockValidity
import Verge.StealthAgreement
import Verge.Foundation.Packed
import Verge.Smsg.SecureMessage
import Verge.Smsg.Crypt
import Verge.Smsg.PaidMessage
import Verge.Smsg.Authenticity
import Verge.Foundation.RecordFile
import Verge.Smsg.Store
import Verge.Smsg.Disk
import Verge.Smsg.Reload
import Verge.Smsg.Purged
import Verge.Smsg.Receive
import Verge.Foundation.Eviction
import Verge.Smsg.FundingRebuild
import Verge.Smsg.FundingRuns
import Verge.Smsg.Requests
import Verge.Smsg.Quiescence
import Verge.Chain.BuiltIndex
import Verge.Validation.AlgorithmDiversity
import Verge.Validation.BlockSignature
import Verge.ChainParams
import Verge.Validation.CheckBlockContext
import Verge.Difficulty.Compact
import Verge.Difficulty.Retarget
import Verge.Difficulty.Gravity
import Verge.Difficulty.SteadyState
import Verge.Foundation.UnsignedFormula
import Verge.Difficulty.Unbounded
import Verge.Chain.BlockFiles
import Verge.Chain.Pruning
import Verge.Chain.BestCandidate
import Verge.Chain.StepSpec
import Verge.Chain.NeverWorse
import Verge.Chain.CallEnds
import Verge.Foundation.MiddleElement
import Verge.Coins.Serialization
import Verge.VersionBits
import Verge.Foundation.OrderedWalk
import Verge.Wallet.Abandon
import Verge.Net.NetAddress
import Verge.Net.PeerLogic
import Verge.TimeData
import Verge.Net.BlockTransactions
