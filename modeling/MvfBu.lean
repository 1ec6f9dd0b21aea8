import MvfBu.Lib.LongDivision
import MvfBu.Lib.IntConv
import MvfBu.Lib.ExceptLemmas
import MvfBu.Arith.Uint256
import MvfBu.Arith.Compact
import MvfBu.Consensus.Params
import MvfBu.Pow
import MvfBu.Serialize
import MvfBu.Script.Script
import MvfBu.Primitives.Transaction
import MvfBu.Script.SigHash
import MvfBu.Validation.ForkActivation
import MvfBu.Lib.Restricts
import MvfBu.Script.Interpreter
import MvfBu.Script.SoftFork
import MvfBu.Primitives.Coins
import MvfBu.Validation.CheckInputs
import MvfBu.Validation.ConnectBlock
import MvfBu.Node.Mempool
import MvfBu.Node.Handlers
import MvfBu.Node.ForkSwitch
import MvfBu.Node.XThin
import MvfBu.Coins.ViewCache
import MvfBu.Lib.AListFold
import MvfBu.Coins.Refinement
import MvfBu.Primitives.Compressor
import MvfBu.Lib.MerkleTree
import MvfBu.Consensus.Merkle
import MvfBu.Consensus.MerkleLevels
import MvfBu.Lib.SortedMap
import MvfBu.Node.RequestManager
import MvfBu.Lib.Median
import MvfBu.Consensus.VersionBits
import MvfBu.Validation.ChainSelection
import MvfBu.Lib.SlotTable
import MvfBu.Lib.PosIndex
import MvfBu.Node.AddrMan
import MvfBu.Node.AddrManInv
import MvfBu.Node.AddrManSteps
import MvfBu.Node.AddrManRun
import MvfBu.Node.AddrManCheck
import MvfBu.Lib.BitMask
import MvfBu.Primitives.CoinsSerialize
import MvfBu.Lib.Ancestry
import MvfBu.Chain.SkipList
import MvfBu.Chain.ActiveChain
import MvfBu.Script.ScriptNum
import MvfBu.Lib.ThrowsOnlyIf
import MvfBu.Script.EvalSafety
import MvfBu.Lib.Reach
import MvfBu.Node.MempoolAncestors
import MvfBu.Lib.Decimal
import MvfBu.Util.MoneyStr
import MvfBu.Lib.BitFields
import MvfBu.Util.StrEncodings
import MvfBu.Net.LeakyBucket
import MvfBu.Node.ThinBlockBytes
import MvfBu.Lib.ByteBits
import MvfBu.Net.Bloom
import MvfBu.Util.FixedPoint
import MvfBu.Node.OrphanPool
import MvfBu.Node.MempoolTrim
import MvfBu.Primitives.Prevector
import MvfBu.Validation.SequenceLocks
import MvfBu.Net.MerkleBlock
