import PeridotSw.Rpc.SinkStream
import PeridotSw.Rpc.SinkStores
import PeridotSw.Bridge.Demux
import PeridotSw.Bridge.Mkpipe
import PeridotSw.Bridge.AvmAnswers
import PeridotSw.Rpc.PacketRoundTrip
import PeridotSw.Rpc.Resync
import PeridotSw.Digests.Crc32
import PeridotSw.Digests.Md5Standard
import PeridotSw.Bson.Assignment
import PeridotSw.Bson.Confinement
import PeridotSw.Bson.RoundTrip
import PeridotSw.Bson.Specification
import PeridotSw.Bson.Shrink
import PeridotSw.Rpc.Disclosure
import PeridotSw.Rpc.ReplyLaw
import PeridotSw.Bridge.Pipe
import PeridotSw.Bridge.PipeQueue
import PeridotSw.Bridge.RingCapacities
import PeridotSw.Bridge.StagingBounds
import PeridotSw.Bridge.SourceDecoding
import PeridotSw.Client.OpenFiles
import PeridotSw.Client.PathAccess
import PeridotSw.Client.PathConfinement
import PeridotSw.Client.VfdCleanup
import PeridotSw.Client.Constructions
import PeridotSw.Fifo.CommonLock
import PeridotSw.Fifo.Deadlock
import PeridotSw.Fifo.Hangup
import PeridotSw.Rpc.JobOwnership
import PeridotSw.Rpc.NullParams
import PeridotSw.Rubic.InfoCache
import PeridotSw.Rubic.InfoDecoding
import PeridotSw.Rubic.InfoBounds
import PeridotSw.Rubic.BootObjects
import PeridotSw.Rubic.BootBounds
import PeridotSw.Rubic.MutexDiscipline
import PeridotSw.Rubic.RequestCustody
import PeridotSw.Rubic.ProgWrite
import PeridotSw.Rpc.AsyncReplies
import PeridotSw.Rpc.ReplyLifetimes
import PeridotSw.Client.ResultRooms
import PeridotSw.Client.IoctlArgument
import PeridotSw.Bson.Dump
import PeridotSw.Bson.DumpTermination
import PeridotSw.Bson.DumpText
import PeridotSw.Bridge.SourceThreads
import PeridotSw.Rpc.Conversation
import PeridotSw.Rpc.Handover
import PeridotSw.Client.SessionHandles
import PeridotSw.Bridge.AvmConversation
import PeridotSw.Bson.DumpRendering
import PeridotSw.Bridge.PipeStream
import PeridotSw.Rubic.Status
import PeridotSw.Rubic.Programming
import PeridotSw.Rubic.QueueReplies
import PeridotSw.Machine.SharedList
import PeridotSw.Client.AllowedPaths
import PeridotSw.Rpc.MethodList
