import Gingko.KeyedMaps
import Gingko.GuardedRuns
import Gingko.Base64Codec
import Gingko.PeerRecords
import Gingko.RandomDraws
import Gingko.PeerUpdates
import Gingko.PeerScans
import Gingko.TrackerState
import Gingko.RemoteCounts
import Gingko.PublishLotteries
import Gingko.StopOrders
import Gingko.RefusedAnnounces
import Gingko.AnnounceCalls
import Gingko.SweepRaces
import Gingko.SweepClocks
import Gingko.PeerFiling
import Gingko.ScanPicks
import Gingko.TrackerRuns
import Gingko.PeerLists
import Gingko.SeedChoice
import Gingko.AgentMessages
import Gingko.AgentTasks
import Gingko.AgentAdds
import Gingko.EncodedTexts
import Gingko.AgentRequests
import Gingko.AgentRuns
import Gingko.AgentChanges
import Gingko.TaskKeys
import Gingko.TaskIndexes
import Gingko.UserIsolation
import Gingko.AddOutcomes
import Gingko.RequestReplies
import Gingko.FailedAdds
import Gingko.WholeRequests
import Gingko.HashRings
import Gingko.TrackerRings
import Gingko.RingOrders
import Gingko.RingRemovals
import Gingko.RedisHashes
import Gingko.CommandTexts
import Gingko.PublishedSets
import Gingko.PublishedRecords
import Gingko.SyncQueues
import Gingko.StatusItems
import Gingko.ObjectPools
import Gingko.RedisPipelines
import Gingko.NullContexts
import Gingko.PipelineCounts
import Gingko.PreAllocations
import Gingko.Downloads
import Gingko.SocketFrames
import Gingko.SocketRuns
import Gingko.TaskResumes
import Gingko.AgentLimits
import Gingko.ClusterWorkers
import Gingko.ClusterPieces
import Gingko.ClusterStops
import Gingko.PieceHashes
import Gingko.PieceClaims
import Gingko.IpFilterBlocks
import Gingko.GroupAdds
import Gingko.FailedGroupAdds
import Gingko.GroupCalls
import Gingko.AbsentTasks
import Gingko.GroupFinishes
import Gingko.FinishedTasks
import Gingko.ClusterSchedulers
import Gingko.GroupResumes
import Gingko.CircularScans
import Gingko.RoomVisits
import Gingko.AnnounceAnswers
import Gingko.RingWalks
import Gingko.MachineRooms
import Gingko.TrackerLoads
import Gingko.MetaEvictions
import Gingko.SeedingTimers
import Gingko.SqlLiterals
import Gingko.SqlTexts
import Gingko.TaskRows
import Gingko.DbReconnects
import Gingko.DataPaths
import Gingko.SyncReads
import Gingko.RequestRetries
import Gingko.ChunkTilings
import Gingko.NeededPieces
import Gingko.SeedingTimes
import Gingko.UndownloadedPieces
import Gingko.SpeedWindows
import Gingko.PieceReads
import Gingko.FileFilters
import Gingko.OutsideFiles
import Gingko.MaskRanges
import Gingko.TextFields
import Gingko.ClusterUris
import Gingko.DecimalTexts
import Gingko.LimitOptions
import Gingko.Cancellations
import Gingko.TrimmedPaths
import Gingko.MaximalFields
import Gingko.SliptStrings
import Gingko.EventLoops
import Gingko.AnnounceDelays
import Gingko.ConfigRanges
import Gingko.UrlRenames
import Gingko.FinishedSweeps
import Gingko.ScanIndexes
import Gingko.VisitIndexes
import Gingko.FinishedResumes
import Gingko.FinishedContents
import Gingko.FinishedSaves
import Gingko.DirectoryTrees
import Gingko.FileSystems
import Gingko.MadeDirectories
import Gingko.BelledQueues
import Gingko.PendingFunctors
import Gingko.ShiftRegisters
import Gingko.CrcRegisters
import Gingko.FieldProtocols
import Gingko.TokenStreams
import Gingko.AnnounceMessages
import Gingko.RemoteCalls
import Gingko.AnnounceServices
import Gingko.TaskPools
import Gingko.AnnounceLoops
import Gingko.AsyncOperations
import Gingko.ConnectionLives
import Gingko.ConnectionEnds
import Gingko.ListedTorrents
import Gingko.TorrentPaths
import Gingko.TorrentTrees
import Gingko.ReadTorrents
import Gingko.FiledPaths
import Gingko.FilteredTorrents
