import YakUnshorn.Lib.Chain
import YakUnshorn.Lib.Runs
import YakUnshorn.Lib.CappedSet
import YakUnshorn.BunuelibSet
import YakUnshorn.SetRuns
import YakUnshorn.HeldKeys
import YakUnshorn.Subscriptions
import YakUnshorn.SubscriptionLinks
import YakUnshorn.EventTypes
import YakUnshorn.SubscriptionRuns
import YakUnshorn.CommandRuns
import YakUnshorn.EventIds
import YakUnshorn.Republishing
import YakUnshorn.SubscriptionChains
import YakUnshorn.SubscribeRuns
import YakUnshorn.NativeModule
import YakUnshorn.NullCallbacks
import YakUnshorn.Compaction
import YakUnshorn.ModuleLifecycle
import YakUnshorn.DisplayRuns
import YakUnshorn.PoolRuns
import YakUnshorn.ArenaRuns
import YakUnshorn.PoolWipes
import YakUnshorn.PoolAlignment
import YakUnshorn.PoolCreation
import YakUnshorn.DisplayMisuse
import YakUnshorn.OxmodOrder
import YakUnshorn.CommentLines
import YakUnshorn.PopById
import YakUnshorn.Publishing
import YakUnshorn.CommandParsers
import YakUnshorn.ChordContext
import YakUnshorn.LoaderResources
import YakUnshorn.LoaderLedger
import YakUnshorn.Lib.Fifo
import YakUnshorn.Lib.History
import YakUnshorn.EventLoop
import YakUnshorn.LoopEvents
import YakUnshorn.LoopCalls
import YakUnshorn.LoopDispatch
import YakUnshorn.LoopQuits
import YakUnshorn.LoopQueue
import YakUnshorn.CommandLoop
import YakUnshorn.LoopSafety
import YakUnshorn.LoopFrames
import YakUnshorn.LoadedKernel
import YakUnshorn.OxMain
import YakUnshorn.PoolDrops
import YakUnshorn.BunuelibLog
import YakUnshorn.PoolsTogether
import YakUnshorn.PoolOverruns
