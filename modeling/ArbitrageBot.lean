import ArbitrageBot.Contracts.LiquidityBook.LBPair
import ArbitrageBot.Contracts.LiquidityBook.Math
import ArbitrageBot.Contracts.LiquidityBook.BinQuote
import ArbitrageBot.Amms.Moe.Math
import ArbitrageBot.Lib.BitFields
import ArbitrageBot.Amms.UniswapV2
import ArbitrageBot.Amms.UniswapV3.Pool
import ArbitrageBot.Amms.UniswapV3.Coherence
import ArbitrageBot.Amms.UniswapV3.BitmapBatch
import ArbitrageBot.Amms.UniswapV3.TickRequests
import ArbitrageBot.Amms.UniswapV3.Swap
import ArbitrageBot.Amms.Agni.Pool
import ArbitrageBot.Amms.Moe.Pair
import ArbitrageBot.Amms.Amm
import ArbitrageBot.Lib.UndoLog
import ArbitrageBot.Lib.Worklist
import ArbitrageBot.Lib.Cycles
import ArbitrageBot.StateSpace.Cache
import ArbitrageBot.StateSpace.Sync
import ArbitrageBot.Arbitrage.Graph
import ArbitrageBot.Arbitrage.PathFinder
import ArbitrageBot.Arbitrage.FindCycles
import ArbitrageBot.Arbitrage.Misprices
import ArbitrageBot.Amms.UniswapV3.SwapSpec
import ArbitrageBot.Amms.UniswapV3.SwapCoherence
import ArbitrageBot.Amms.Agni.Swap
import ArbitrageBot.Amms.Agni.TickSync
import ArbitrageBot.Amms.SwapCopies
import ArbitrageBot.Amms.SwapRuns
import ArbitrageBot.StateSpace.SyncSpec
import ArbitrageBot.StateSpace.Manager
import ArbitrageBot.StateSpace.Reorg
import ArbitrageBot.StateSpace.Recovery
import ArbitrageBot.StateSpace.Report
import ArbitrageBot.Lib.Prog
import ArbitrageBot.Lib.Account
import ArbitrageBot.Contracts.Executor
import ArbitrageBot.Contracts.ExecutorFunds
import ArbitrageBot.Contracts.ExecutorBalances
import ArbitrageBot.Amms.Moe.MathSpec
import ArbitrageBot.Amms.Discovery
import ArbitrageBot.Amms.Moe.PackedAmounts
import ArbitrageBot.Lib.WideDiv
import ArbitrageBot.Lib.NewtonRoot
import ArbitrageBot.Amms.Moe.Uint256x256
import ArbitrageBot.Amms.Moe.Swap
import ArbitrageBot.Contracts.LiquidityBook.TreeMath
import ArbitrageBot.Amms.Moe.Port
import ArbitrageBot.Contracts.LiquidityBook.LBPairSpec
import ArbitrageBot.Amms.UniswapV2Spec
import ArbitrageBot.Amms.Moe.SwapAcross
import ArbitrageBot.Amms.Moe.SwapSpec
import ArbitrageBot.Lib.MapSums
import ArbitrageBot.Lib.SparseBits
import ArbitrageBot.Amms.Moe.Reserves
import ArbitrageBot.Amms.Moe.Atomicity
import ArbitrageBot.Amms.Moe.Walk
import ArbitrageBot.Amms.Moe.Absorption
import ArbitrageBot.Amms.Moe.BinEvents
import ArbitrageBot.Amms.Moe.BinSync
import ArbitrageBot.Protocols.MoeMonitor
import ArbitrageBot.Protocols.BinSnapshot
import ArbitrageBot.Execution.Executor
import ArbitrageBot.Execution.Calldata
import ArbitrageBot.Amms.Swap
import ArbitrageBot.Lib.Bisection
import ArbitrageBot.Arbitrage.Optimizer
import ArbitrageBot.Arbitrage.OptimizerSpec
import ArbitrageBot.Arbitrage.SharedCopies
import ArbitrageBot.Amms.Moe.BinSyncSpec
import ArbitrageBot.Amms.Moe.BinPort
import ArbitrageBot.Amms.Moe.Delivery
import ArbitrageBot.Amms.Moe.Refinement
import ArbitrageBot.Amms.Moe.TreeMath
import ArbitrageBot.Amms.Moe.BinSafety
import ArbitrageBot.Lib.Ladder
import ArbitrageBot.Amms.Moe.QuoteMono
import ArbitrageBot.Amms.Moe.Volatility
import ArbitrageBot.Amms.Moe.StaticParameters
import ArbitrageBot.Execution.FeePlan
import ArbitrageBot.Execution.NonLoss
import ArbitrageBot.Protocols.Candidate
import ArbitrageBot.Protocols.AgniMonitor
import ArbitrageBot.Protocols.AgniFreshness
import ArbitrageBot.Protocols.MoeExecution
import ArbitrageBot.Protocols.GraphResync
import ArbitrageBot.Protocols.Resync
import ArbitrageBot.Amms.Moe.Sample
import ArbitrageBot.Amms.Moe.LiquidityConfigurations
import ArbitrageBot.Amms.Moe.Power
import ArbitrageBot.Amms.Moe.TreeSearch
import ArbitrageBot.Amms.Moe.FeeGrossUp
import ArbitrageBot.Lib.Shares
import ArbitrageBot.Amms.Moe.BinShares
import ArbitrageBot.Amms.UniswapV2Price
import ArbitrageBot.Lib.BinaryLog
import ArbitrageBot.Amms.Moe.Logarithm
import ArbitrageBot.Amms.Moe.LogBounds
import ArbitrageBot.Amms.Moe.PriceBins
import ArbitrageBot.Lib.Greedy
import ArbitrageBot.Protocols.Selection
import ArbitrageBot.Lib.Traces
import ArbitrageBot.Execution.Nonce
import ArbitrageBot.Protocols.Dispatch
import ArbitrageBot.Protocols.DispatchRuns
import ArbitrageBot.Lib.Batches
import ArbitrageBot.Amms.UniswapV2Factory
import ArbitrageBot.Amms.SyncFrame
import ArbitrageBot.StateSpace.Bootstrap
import ArbitrageBot.StateSpace.Builder
import ArbitrageBot.StateSpace.Tracked
import ArbitrageBot.Amms.UniswapV2Orders
import ArbitrageBot.StateSpace.SyncRule
import ArbitrageBot.Arbitrage.Scan
import ArbitrageBot.Amms.UniswapV3.PoolSync
import ArbitrageBot.Amms.UniswapV3.PoolSyncSpec
import ArbitrageBot.Execution.SwapExecutor
import ArbitrageBot.Execution.SwapExecutorRuns
import ArbitrageBot.Contracts.WmntValueInPools
import ArbitrageBot.Contracts.WmntValue
import ArbitrageBot.StateSpace.ValueFilter
import ArbitrageBot.StateSpace.ValueFilterSpec
import ArbitrageBot.Amms.Moe.Factory
import ArbitrageBot.Amms.Moe.FactorySpec
import ArbitrageBot.Amms.UniswapV3.PoolStart
import ArbitrageBot.Contracts.UniV3Pool
import ArbitrageBot.Contracts.UniV3PoolSpec
import ArbitrageBot.Amms.UniswapV3.Follow
import ArbitrageBot.StateSpace.Follow
import ArbitrageBot.Contracts.UniV3Swap
import ArbitrageBot.Amms.UniswapV3.Quote
