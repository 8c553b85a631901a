import Voxen.Land.CompressedChunkCopies
import Voxen.Land.CompressedBoolStorage
import Voxen.Land.ChunkTicketRuns
import Voxen.Land.StorageTreeKeys
import Voxen.Land.StorageTreeFailures
import Voxen.Land.StorageTreeRemovals
import Voxen.Common.V8gHashTrieIsolation
import Voxen.Common.V8gHashTrieSnapshots
import Voxen.Common.SharedObjectPoolRuns
import Voxen.Common.PipeMemoryAllocatorRuns
import Voxen.Svc.AsyncCounterTrackerRuns
import Voxen.Svc.TaskServiceRuns
import Voxen.Svc.TaskQueueSetWrap
import Voxen.Svc.TaskCoroRuns
import Voxen.Svc.TaskServiceSlaveRuns
import Voxen.Svc.MessageRouterRequests
import Voxen.Svc.AsyncFileIoServiceRuns
import Voxen.Svc.ServiceLocatorThreadRuns
import Voxen.Gfx.TransientBufferAllocatorRuns
import Voxen.Gfx.CommandAllocatorRuns
import Voxen.Gfx.MeshStreamerRuns
import Voxen.Terrain.ControllerLoads
import Voxen.Terrain.ControllerCoverRuns
import Voxen.Common.FileIoThreadPoolRuns
import Voxen.Assets.PngBounds
import Voxen.Common.Uid
import Voxen.Common.V8gFlatMapRuns
import Voxen.Common.V8gFlatMapDiff
import Voxen.Common.V8gHashTrieNext
import Voxen.Land.PseudoChunkSurfaceIndices
import Voxen.Land.LandServiceCounts
import Voxen.Land.LandServiceEdits
import Voxen.Svc.InboundQueueRuns
import Voxen.Svc.AsyncCounterTrackerCalls
import Voxen.Svc.TaskHeaderRuns
import Voxen.Svc.FutexWorkCounter
import Voxen.Common.PipeMemoryAllocatorAnySize
import Voxen.Common.SharedObjectPoolLayout
import Voxen.Extras.LinearAllocatorReserve
import Voxen.Os.FutexLockRuns
import Voxen.Os.FutexRWLockWakes
import Voxen.Gfx.LandLoaderCover
import Voxen.Gfx.GfxSystem
import Voxen.Gfx.RenderGraphResourcesRuns
import Voxen.Gfx.RenderGraphLayouts
import Voxen.Terrain.SurfaceBuilder
import Voxen.Terrain.ChunkCacheRuns
import Voxen.Gfx.FrameTickSourcePending
import Voxen.Common.V8gHashTrieArena
import Voxen.Common.V8gHashTrieReplica
import Voxen.Util.LruVisitOrderingCalls
