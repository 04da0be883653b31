import PpiwTrading.Heap.Sift
import PpiwTrading.Exchange.PriceLaws
import PpiwTrading.Exchange.PriceBand
import PpiwTrading.Exchange.ReceiveOrder
import PpiwTrading.Exchange.Status
import PpiwTrading.Exchange.Mirror
import PpiwTrading.Trader.LoadModes
import PpiwTrading.Trader.TradeLog
import PpiwTrading.System.Determinism
import PpiwTrading.System.Quiescence
import PpiwTrading.System.Capacity
import PpiwTrading.Messages.Wire
import PpiwTrading.Network.Connecting
import PpiwTrading.Network.Framing
import PpiwTrading.Network.ConnectionPool
import PpiwTrading.Common.SortedEntries
import PpiwTrading.Exchange.ZeroVolume
import PpiwTrading.Exchange.TradeCount
import PpiwTrading.Exchange.Copies
import PpiwTrading.System.Consume
import PpiwTrading.Common.BlockQueue
import PpiwTrading.Common.NetworkConfig
import PpiwTrading.Transition.Potential
import PpiwTrading.Transition.Confluence
import PpiwTrading.Sequence.UpdatedSum
import PpiwTrading.System.Effort
import PpiwTrading.System.Progress
import PpiwTrading.System.Outcome
import PpiwTrading.System.Replay
import PpiwTrading.Trader.OutputDiff
import PpiwTrading.System.TradeFiles
import PpiwTrading.Transition.Bisimulation
import PpiwTrading.Trader.CachedProcess
import PpiwTrading.System.CachedRuns
import PpiwTrading.System.Loaded
import PpiwTrading.Network.MessageReceiver
import PpiwTrading.System.Polling
import PpiwTrading.Transition.Monitor
import PpiwTrading.Common.Blocking
import PpiwTrading.Common.Console
import PpiwTrading.System.Pausing
import PpiwTrading.System.Resuming
