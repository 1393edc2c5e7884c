import Majutsu.Cluster.Durability
import Majutsu.Cluster.GcCoherence
import Majutsu.Remote.BatchDelete
import Majutsu.Remote.FileListing
import Majutsu.Remote.MultipartExact
import Majutsu.Remote.OneWinner
import Majutsu.Repo.BranchRefs
import Majutsu.Repo.ChunkBoundaries
import Majutsu.Repo.ChunkPipeline
import Majutsu.Repo.CloneHooks
import Majutsu.Repo.FixedStreaming
import Majutsu.Repo.HistoryCompaction
import Majutsu.Repo.MaintenanceIsolation
import Majutsu.Repo.ObjectPublish
import Majutsu.Repo.OperationEntries
import Majutsu.Repo.Packing
import Majutsu.Repo.PointInTime
import Majutsu.Repo.ProcessLock
import Majutsu.Repo.RecordedSize
import Majutsu.Repo.RestoreDeletes
import Majutsu.Repo.RotationCrash
import Majutsu.Repo.ScanReach
import Majutsu.Repo.SnapshotWindow
import Majutsu.Repo.TimeSelection
import Majutsu.Repo.TreeDiff
import Majutsu.Repo.WatchBuffer
import Majutsu.Upload.Batches
