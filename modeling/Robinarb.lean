import Robinarb.Library.Binary64
import Robinarb.Library.BoundedLoop
import Robinarb.Library.CheckedWord
import Robinarb.Library.AdjacentDedup
import Robinarb.Library.BitSearch
import Robinarb.Library.BitFields
import Robinarb.Library.CacheFill
import Robinarb.Library.ListFilters
import Robinarb.Library.Overrun
import Robinarb.Library.Fallible
import Robinarb.Library.Runs
import Robinarb.Library.TaskList
import Robinarb.Library.InFlight
import Robinarb.Library.Batch
import Robinarb.Library.CheckpointedLoop
import Robinarb.Library.RangeChunks
import Robinarb.Library.Debounce
import Robinarb.Library.GreedySelection
import Robinarb.Library.RankedPrefix
import Robinarb.Library.PartialMaps
import Robinarb.Library.LastEntry
import Robinarb.Library.Lookups
import Robinarb.Library.CallStack
import Robinarb.Library.DealChain
import Robinarb.Library.Numerals
import Robinarb.Library.ConstantProduct
import Robinarb.Library.CubicNewton
import Robinarb.Library.LinearFractional
import Robinarb.Library.ConcaveSearch
import Robinarb.Library.TopBits
import Robinarb.Library.StableCurve
import Robinarb.Word
import Robinarb.Math.SwapMath
import Robinarb.Math.TickBitmap
import Robinarb.Math.ReferenceMath
import Robinarb.Math.TickSearch
import Robinarb.Math.V3
import Robinarb.Math.V3Table
import Robinarb.Math.V3Crossing
import Robinarb.Math.V3Hydration
import Robinarb.Math.LostLiquidity
import Robinarb.Math.V2
import Robinarb.Math.AeroStable
import Robinarb.Math.StableChecked
import Robinarb.Math.StableExact
import Robinarb.Math.StableSolver
import Robinarb.Math.StableShallow
import Robinarb.Math.StableQuote
import Robinarb.Engine.Engine
import Robinarb.Ingest.SlotLayout
import Robinarb.Ingest.Backend
import Robinarb.Ingest.RpcBackend
import Robinarb.Ingest.Multicall
import Robinarb.Ingest.Backfill
import Robinarb.State.ChainState
import Robinarb.State.SamplePool
import Robinarb.State.Hydration
import Robinarb.State.Patch
import Robinarb.State.Coupling
import Robinarb.State.TwoWord
import Robinarb.Ingest.Pipeline
import Robinarb.State.SlotPlans
import Robinarb.Ingest.BatchLabels
import Robinarb.Ingest.Fees
import Robinarb.Ingest.Reconnect
import Robinarb.Ingest.Triggers
import Robinarb.Math.Quote
import Robinarb.State.PackedWords
import Robinarb.Math.MissingSlots
import Robinarb.Math.QuoteF64
import Robinarb.Routing.Graph
import Robinarb.Routing.Cycles
import Robinarb.Routing.Enumeration
import Robinarb.Routing.Routes
import Robinarb.Routing.Store
import Robinarb.Routing.Candidates
import Robinarb.Routing.Optimizer
import Robinarb.Runtime.Model
import Robinarb.Runtime.Generations
import Robinarb.Runtime.Prefetch
import Robinarb.Runtime.Announced
import Robinarb.Runtime.Centring
import Robinarb.Runtime.ResyncLoop
import Robinarb.Runtime.TickWrites
import Robinarb.Runtime.MissedEvents
import Robinarb.Executor.Nonce
import Robinarb.Executor.Firing
import Robinarb.Contracts.ArbExecutor
import Robinarb.Contracts.Ledger
import Robinarb.Contracts.Reentrancy
import Robinarb.Contracts.ProfitGuard
import Robinarb.Contracts.FeeProbe
import Robinarb.Ingest.FeeProbe
import Robinarb.Ingest.Discovery
import Robinarb.Ingest.FactoryScan
import Robinarb.Ingest.ChunkedFetch
import Robinarb.Ingest.Bootstrap
import Robinarb.Ingest.BootstrapWords
import Robinarb.Ingest.HostileAnswers
import Robinarb.Ingest.Identity
import Robinarb.Executor.Encoder
import Robinarb.Executor.RouteCalldata
import Robinarb.Contracts.Interactions
import Robinarb.Contracts.CallbackGuards
import Robinarb.Contracts.CallbackAuth
import Robinarb.Contracts.Legs
import Robinarb.Contracts.IdleFunds
import Robinarb.Contracts.Market
import Robinarb.Contracts.Settlement
import Robinarb.Contracts.HopDeals
import Robinarb.Contracts.HopByHop
import Robinarb.Contracts.FundedRun
import Robinarb.Math.V2Exact
import Robinarb.Routing.ClosedForm
import Robinarb.Routing.TernarySearch
import Robinarb.Routing.SpotGate
import Robinarb.Math.StableRate
import Robinarb.Routing.RouteReads
import Robinarb.Routing.SealedRoutes
import Robinarb.Routing.Emission
import Robinarb.Routing.FanoutCap
import Robinarb.Gas.GasStation
import Robinarb.Routing.GasGate
import Robinarb.Routing.Returns
import Robinarb.Routing.Evaluator
import Robinarb.Routing.EvaluatorRuns
import Robinarb.Executor.QuotedProfit
import Robinarb.Executor.SentProfit
import Robinarb.Ingest.LayoutDiscovery
import Robinarb.State.DiscoveredPlans
import Robinarb.Executor.Lanes
import Robinarb.Ingest.Loader
import Robinarb.Ingest.PoolSet
import Robinarb.Executor.Receipts
import Robinarb.Contracts.TickSync
import Robinarb.Ingest.FeeVerdicts
import Robinarb.Executor.OwnBalances
