import BackboneEvents.ConstrainedTables
import BackboneEvents.TransactionPrograms
import BackboneEvents.GuardedRuns
import BackboneEvents.DeterministicRuns
import BackboneEvents.TransactionInterleavings
import BackboneEvents.EventRows
import BackboneEvents.SeatRepository
import BackboneEvents.GrandTotal
import BackboneEvents.SaleSeamRepository
import BackboneEvents.VerbEffects
import BackboneEvents.VerbCalls
import BackboneEvents.SeamDeliveries
import BackboneEvents.SeatEntries
import BackboneEvents.SeatCapacity
import BackboneEvents.MintInterleavings
import BackboneEvents.SeamMirrors
import BackboneEvents.SeamConvergence
import BackboneEvents.SchedulerArming
import BackboneEvents.SchedulerRepository
import BackboneEvents.SchedulerService
import BackboneEvents.ReceiptDeliveries
import BackboneEvents.ReceiptTruth
import BackboneEvents.SchedulerWalks
import BackboneEvents.SchedulerTermination
import BackboneEvents.SchedulerRounds
import BackboneEvents.SchedulerRows
import BackboneEvents.SchedulerConvergence
import BackboneEvents.LeadCommandRepository
import BackboneEvents.LeadGenerationService
import BackboneEvents.LeadFrames
import BackboneEvents.LeadArms
import BackboneEvents.LeadWalks
import BackboneEvents.LeadQueue
import BackboneEvents.LeadArming
import BackboneEvents.Leases
import BackboneEvents.LeadLeases
import BackboneEvents.LeadFencing
import BackboneEvents.LeadPartition
import BackboneEvents.LeadCreates
import BackboneEvents.DeskService
import BackboneEvents.LeadJoins
import BackboneEvents.LeadDrains
import BackboneEvents.LeadPasses
import BackboneEvents.BoothCommandRepository
import BackboneEvents.BoothLatch
import BackboneEvents.BoothInterleavings
import BackboneEvents.SchedulerPasses
import BackboneEvents.Base64Url
import BackboneEvents.Capability
import BackboneEvents.EventCommandRepository
import BackboneEvents.PublicGate
import BackboneEvents.TemplateCascade
import BackboneEvents.RegistrationBelonging
import BackboneEvents.CancelledEvents
import BackboneEvents.SchedulerAnchors
import BackboneEvents.AuditTruth
import BackboneEvents.SchedulerCalls
import BackboneEvents.SteadyWalks
import BackboneEvents.SchedulerIsolation
import BackboneEvents.LockedCommits
import BackboneEvents.SeatRaces
import BackboneEvents.LockWaits
import BackboneEvents.LockOrders
import BackboneEvents.SeatLocks
import BackboneEvents.BookingLines
import BackboneEvents.SaleSeamService
import BackboneEvents.EventLifecycle
import BackboneEvents.KanbanAxis
import BackboneEvents.DoneSweep
import BackboneEvents.TicketCaps
import BackboneEvents.SeatService
import BackboneEvents.SeatPaths
import BackboneEvents.FreeOrders
import BackboneEvents.PredicateQuery
import BackboneEvents.CronPasses
import BackboneEvents.PendingReceipts
import BackboneEvents.LeadRelinks
import BackboneEvents.BoothRefusals
import BackboneEvents.FixedWindows
import BackboneEvents.IntakeService
import BackboneEvents.PublicRoutes
import BackboneEvents.RouteRates
import BackboneEvents.ForwardedHops
import BackboneEvents.Base64UrlDigits
import BackboneEvents.TokenStrings
import BackboneEvents.TicketReports
import BackboneEvents.FoldedLines
import BackboneEvents.IcsText
import BackboneEvents.PhysicalLines
import BackboneEvents.JsonValues
import BackboneEvents.AdminRoutes
import BackboneEvents.BodyFields
import BackboneEvents.RegistrationPatches
import BackboneEvents.WriteHistories
import BackboneEvents.EventEffects
import BackboneEvents.EventColumns
import BackboneEvents.PublicationHistory
import BackboneEvents.RegistrationLives
import BackboneEvents.PublicLinks
import BackboneEvents.KeptLocks
import BackboneEvents.SerialSeats
import BackboneEvents.KeysetPages
import BackboneEvents.RegistrationPages
import BackboneEvents.TrailReplay
import BackboneEvents.LeadRuleCommandService
import BackboneEvents.OwnRecords
import BackboneEvents.SchedulerSummaries
import BackboneEvents.LeadSummaries
import BackboneEvents.LeadOrigins
import BackboneEvents.ReplayedTrails
import BackboneEvents.BoothEffects
import BackboneEvents.BoothHistories
import BackboneEvents.BoothTrails
import BackboneEvents.IntakeRates
