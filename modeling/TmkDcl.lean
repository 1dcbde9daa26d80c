import TmkDcl.Pipeline.Shutdown
import TmkDcl.Pipeline.Race
import TmkDcl.Pipeline.FailedStart
import TmkDcl.Pipeline.Names
import TmkDcl.ProcessMngr
import TmkDcl.Collector.SourceTcp
import TmkDcl.Collector.Closing
import TmkDcl.Collector.Stopping
import TmkDcl.Collector.ObjectSize
import TmkDcl.Tcp.TcpProcess
import TmkDcl.Tcp.Messenger
import TmkDcl.Tcp.CommandServer
import TmkDcl.Capture.ControlChannel
import TmkDcl.Capture.GigeCameraOps
import TmkDcl.Capture.FrameIds
import TmkDcl.Pipeline.ModulesConfiguration
import TmkDcl.Winnum.HandleQueue
import TmkDcl.Winnum.HandleNotify
import TmkDcl.Spinnaker.CaptureManager
import TmkDcl.Storage.RoundTrip
import TmkDcl.Storage.StorageInterface
import TmkDcl.Storage.StoredImage
import TmkDcl.Storage.DescriptorsDB
import TmkDcl.Libcommon.SaveLoad
import TmkDcl.Tcp.ApiCommand
import TmkDcl.Tcp.ConnectionLifecycle
import TmkDcl.Libdclalgo.PolarExpand
import TmkDcl.Libdclalgo.ExpandDebayerFast
import TmkDcl.Libdclalgo.Extrapolation
import TmkDcl.Libdclalgo.ExpandLite
import TmkDcl.Libdclalgo.EdgeMap
import TmkDcl.Libdclalgo.EdgeAware
import TmkDcl.Libdclalgo.PolarDecomposition
import TmkDcl.Libdclalgo.Interp1
import TmkDcl.DefectMiddle.DefectDetection
import TmkDcl.Libdclalgo.AzimuthEvaluation
import TmkDcl.Capture.GvspHeaders
import TmkDcl.Capture.GvspBounds
import TmkDcl.Pipeline.InitialHead
import TmkDcl.Pipeline.ProcessKillAll
import TmkDcl.Pipeline.PipelineInit
import TmkDcl.Pipeline.ConfigurationFile
import TmkDcl.Pipeline.ModuleArgv
import TmkDcl.Libcommon.PipelineNodes
import TmkDcl.Libcommon.PipelineEquality
import TmkDcl.Libcommon.ServerSettingsView
import TmkDcl.Storage.FrameImage
import TmkDcl.Storage.FrameDataJson
import TmkDcl.Tcp.ClientCommand
import TmkDcl.Tcp.TcpClient
import TmkDcl.Tcp.ReplyBuffers
import TmkDcl.Capture.DiscoverySockets
import TmkDcl.Capture.BreakDetection
import TmkDcl.Capture.GvspTimestamp
import TmkDcl.Libdclalgo.Median
import TmkDcl.Libdclalgo.Statistics
import TmkDcl.SaveMiddle.SaveFormat
import TmkDcl.Aravis.CameraMetaData
import TmkDcl.Capture.CvGenerator
import TmkDcl.Pipeline.MemoryLayout
import TmkDcl.RingThreads
import TmkDcl.IntrusiveList
import TmkDcl.Pipeline.DfsCheck
import TmkDcl.Libdclalgo.KeeperRuns
import TmkDcl.Pipeline.BoundedWork
import TmkDcl.Processor.ObjectLife
import TmkDcl.Tcp.CommandThread
import TmkDcl.Collector.Frames
import TmkDcl.Spinnaker.ConfigureCameras
import TmkDcl.Spinnaker.Recording
import TmkDcl.Spinnaker.StoreRequests
import TmkDcl.Spinnaker.StoragePaths
import TmkDcl.Libdclalgo.ExpandWithoutBoundaries
import TmkDcl.Storage.Store
import TmkDcl.SaveMiddle.SaveBlock
