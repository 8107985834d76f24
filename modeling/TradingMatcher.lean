import TradingMatcher.Runs
import TradingMatcher.SortedMap
import TradingMatcher.PriceTime
import TradingMatcher.Matcher
import TradingMatcher.Representation
import TradingMatcher.MatchLoop
import TradingMatcher.Refinement
import TradingMatcher.SignedArithmetic
import TradingMatcher.CrossedBook
import TradingMatcher.Spread
import TradingMatcher.Ledger
import TradingMatcher.AcceptedOrders
import TradingMatcher.LevelTotals
import TradingMatcher.FailedCalls
import TradingMatcher.MatchOutcome
import TradingMatcher.TradePrice
import TradingMatcher.TimePriority
import TradingMatcher.SurvivingOrders
import TradingMatcher.CircularBuffer
import TradingMatcher.SPSCQueue
import TradingMatcher.BoundedFifo
import TradingMatcher.QueueSize
import TradingMatcher.AsyncLogger
import TradingMatcher.LoggerProtocol
import TradingMatcher.LoggerDelivery
import TradingMatcher.ConcurrentLogging
import TradingMatcher.LoggerLifecycle
import TradingMatcher.MemoryPool
import TradingMatcher.LiveOrders
import TradingMatcher.HandOffDelivery
import TradingMatcher.ReceivedBytes
import TradingMatcher.AcceptLoop
import TradingMatcher.OrderStatistics
import TradingMatcher.RoundToNearest
import TradingMatcher.LatencyStats
import TradingMatcher.Benchmark
import TradingMatcher.HeapFrame
import TradingMatcher.OrderPipeline
import TradingMatcher.PipelineOwnership
import TradingMatcher.PipelineRefinement
import TradingMatcher.PrintFormat
import TradingMatcher.LogFormat
import TradingMatcher.TradeLog
import TradingMatcher.AuditTrail
import TradingMatcher.Allocation
import TradingMatcher.EventDelivery
import TradingMatcher.PriceConversion
import TradingMatcher.QueueChecks
import TradingMatcher.UntradedOrders
import TradingMatcher.PoolReset
import TradingMatcher.Aggressor
import TradingMatcher.Relabelling
import TradingMatcher.BookSymmetries
import TradingMatcher.UDPServer
import TradingMatcher.RelativeError
import TradingMatcher.LatencyTimer
