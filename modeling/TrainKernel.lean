import TrainKernel.Kernel.EnableBits
import TrainKernel.Kernel.IdleRatio
import TrainKernel.Kernel.MissingTask
import TrainKernel.Kernel.ReadyQueues
import TrainKernel.Kernel.TaskCreation
import TrainKernel.Kernel.TransmitFlags
import TrainKernel.Kernel.TrapFrames
import TrainKernel.TrackData.Generator
import TrainKernel.User.BusyWait
import TrainKernel.User.ClockTimeliness
import TrainKernel.User.CommandOrder
import TrainKernel.User.EbookCapacity
import TrainKernel.User.Echo
import TrainKernel.User.EngineerPointers
import TrainKernel.User.GoRoute
import TrainKernel.User.HeapRuns
import TrainKernel.User.LandmarkDistance
import TrainKernel.User.LandmarkStop
import TrainKernel.User.NameTable
import TrainKernel.User.NetworkClaims
import TrainKernel.User.ParserArguments
import TrainKernel.User.ParserTask
import TrainKernel.User.PathExpansion
import TrainKernel.User.PathMemory
import TrainKernel.User.PushReports
import TrainKernel.User.ReleaseNodes
import TrainKernel.User.ReserveNodes
import TrainKernel.User.ReverseFlags
import TrainKernel.User.RingBuffers
import TrainKernel.User.RouteFollowing
import TrainKernel.User.RouteTurnouts
import TrainKernel.User.SensorDisplay
import TrainKernel.User.TrainCommands
import TrainKernel.User.TravelTimes
