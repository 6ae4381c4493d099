import Sniper.Cache.Bounds
import Sniper.Hierarchy.Leading
import Sniper.Hierarchy.HitCounts
import Sniper.Hierarchy.MovedData
import Sniper.Hierarchy.Replacement
import Sniper.Hierarchy.Interleaving
import Sniper.Sift.Pages
import Sniper.Sift.Exchange
import Sniper.Rob.Skip
import Sniper.Rob.Barriers
import Sniper.Rob.MemoryOrder
import Sniper.Rob.NehalemContention
import Sniper.Rob.SquashedPlaces
import Sniper.System.BarrierOrder
import Sniper.System.Joins
import Sniper.System.SimBarrier
import Sniper.System.SyncOrder
import Sniper.System.FutexTimeouts
import Sniper.Misc.SpinLoopDetector
import Sniper.Misc.StatHist
import Sniper.Scheduler.AffinityCalls
import Sniper.Scheduler.BigSmall
import Sniper.Scheduler.VectorBounds
import Sniper.Scheduler.InitialAffinity
import Sniper.TraceFrontend.RunCount
import Sniper.TraceFrontend.BlockingCalls
import Sniper.TraceFrontend.BasicBlocks
import Sniper.Cache.CheetahStats
import Sniper.Config.ConfigFile
import Sniper.BranchPredictor.LoopLocking
import Sniper.Network.Broadcast
import Sniper.Network.SendDelay
import Sniper.Network.MemoryControllers
import Sniper.Dram.DramCache
import Sniper.Directory.Nuca
import Sniper.System.MemoryTracker
import Sniper.RoutineTracer.Conservation
import Sniper.RoutineTracer.Callsites
import Sniper.FastNehalem.FastCache
import Sniper.Cache.HomeLookup
import Sniper.Core.InstructionFetch
import Sniper.PerformanceModel.ContentionModel
import Sniper.PerformanceModel.HistoryList
import Sniper.PerformanceModel.WindowedMG1
import Sniper.PerformanceModel.IntervalWindows
import Sniper.PerformanceModel.BranchResolution
import Sniper.PerformanceModel.BlockWindow
import Sniper.Prefetch.GhbPrefetcher
import Sniper.Hierarchy.Tlb
import Sniper.Directory.Messages
import Sniper.Directory.Limitless
