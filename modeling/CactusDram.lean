import CactusDram.TimingSoundness
import CactusDram.MultiPrecharge
import CactusDram.Legality
import CactusDram.LazyAccounting
import CactusDram.WriteDrain
import CactusDram.Transactions
import CactusDram.AddressMap
import CactusDram.Abacus
import CactusDram.Maintenance
import CactusDram.Hydra
import CactusDram.Graphene
import CactusDram.AboAlerts
import CactusDram.AlertProtocol
import CactusDram.SharedQueue
import CactusDram.SharedCounters
import CactusDram.CactusMitigation
import CactusDram.Cooling
import CactusDram.MaxRegister
import CactusDram.RefreshTargets
import CactusDram.DreamMapping
import CactusDram.BanksetScope
import CactusDram.IndexBounds
import CactusDram.ActivationWindows
import CactusDram.BanksetResets
import CactusDram.RefreshRecovery
import CactusDram.RowCycle
import CactusDram.GrapheneMitigation
import CactusDram.Memsim.RobSafety
import CactusDram.Memsim.MshrUniqueness
import CactusDram.Memsim.Writebacks
import CactusDram.Channel.Banks
import CactusDram.Foundations.Recency
import CactusDram.LRURefinement
import CactusDram.Memsim.CacheRefinement
import CactusDram.QueueFlags
import CactusDram.RaaBound
import CactusDram.RccOutcomes
import CactusDram.SamplerBound
import CactusDram.DrfmRequests
import CactusDram.MoatRegister
import CactusDram.System
import CactusDram.HydraChannels
import CactusDram.Memsim.SrripVictim
import CactusDram.Memsim.Translation
import CactusDram.RowTags
import CactusDram.HMC.AgeQueue
import CactusDram.IdealSystem
import CactusDram.Statistics
import CactusDram.EpochTotals
import CactusDram.Energy
import CactusDram.HMC.QueueMirror
import CactusDram.HMC.ResponseMatching
import CactusDram.ReadLatency
import CactusDram.AggressorAlerts
import CactusDram.CounterCalls
import CactusDram.TraceDelivery
import CactusDram.StreamDelivery
import CactusDram.CovertChannel
import CactusDram.DataBus
import CactusDram.MintWindows
import CactusDram.RowConflicts
import CactusDram.Coherence
import CactusDram.SharedMitigation
import CactusDram.RowExposure
import CactusDram.Memsim.TraceReplay
