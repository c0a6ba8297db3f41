import Amester.Lib.BinaryFormat
import Amester.Lib.ByteReader
import Amester.Lib.Elements
import Amester.Lib.EventMachine
import Amester.Lib.Reentrant
import Amester.Lib.PriorityQueue
import Amester.Lib.QueueDiscipline
import Amester.Lib.Courier
import Amester.Lib.ListFormat
import Amester.Lib.Numeral
import Amester.Lib.WhileLoop
import Amester.Lib.Bitmap
import Amester.Lib.Framing
import Amester.Lib.Binary64
import Amester.Lib.Json
import Amester.Ipmi.Request
import Amester.Ipmi.Queue
import Amester.Ipmi.Slot
import Amester.Netc.Message
import Amester.Netc.Session
import Amester.Netc.Conservation
import Amester.Netc.Errors
import Amester.Netc.WireFormat
import Amester.Netc.Framing
import Amester.Netc.Reconnection
import Amester.Netc.Callbacks
import Amester.Netc.Slot
import Amester.OpenBmc.Session
import Amester.OpenBmc.Books
import Amester.OpenBmc.Matching
import Amester.OpenBmc.Slot
import Amester.OpenBmc.Response
import Amester.OpenBmc.Encoding
import Amester.OpenBmc.Instances
import Amester.Ipmi.Routing
import Amester.Ipmi.Cache
import Amester.Ipmi.CacheIndex
import Amester.Ipmi.CacheResponses
import Amester.Ipmi.CacheIsolation
import Amester.Ipmi.CacheDisabled
import Amester.LineHost.Session
import Amester.LineHost.Conservation
import Amester.LineHost.Entries
import Amester.OpenPower.Worker
import Amester.OpenPower.Completion
import Amester.LocalHost.Session
import Amester.LocalHost.RetryOrder
import Amester.LocalHost.Callbacks
import Amester.Ipmi.Discipline
import Amester.Ipmi.Responses
import Amester.Parm.Object
import Amester.Parm.Codec
import Amester.Parm.Write
import Amester.Parm.WriteReport
import Amester.Parm.BulkRead
import Amester.Parm.CommandSize
import Amester.Sensor.Reading
import Amester.Sensor.Watch
import Amester.Sensor.Batching
import Amester.Sensor.MessageSize
import Amester.Sensor.Conservation
import Amester.Sensor.Delayed
import Amester.Sensor.OneOff
import Amester.Trace.Config
import Amester.Trace.Parse
import Amester.Trace.Walk
import Amester.Trace.FailedConfig
import Amester.Trace.Versions
import Amester.Trace.Download
import Amester.Trace.SavedTrace
import Amester.Trace.Incomplete
import Amester.Scope.Record
import Amester.Scope.Interpolate
import Amester.Scope.Stream
import Amester.Scope.Search
import Amester.Scope.Positions
import Amester.Lib.Paging
import Amester.Lib.Glob
import Amester.Lib.Tally
import Amester.Scope.Store
import Amester.Scope.Isolation
import Amester.Scope.Length
import Amester.Scope.PowerAnalysis
import Amester.Scope.Wrap
import Amester.Sensor.Accumulation
import Amester.Sensor.Histogram
import Amester.Sensor.Snapshot
import Amester.Discovery.Tables
import Amester.Discovery.Termination
import Amester.Discovery.Objects
import Amester.Discovery.SensorTable
import Amester.Discovery.ParmTable
import Amester.Partition.Record
import Amester.Partition.Table
import Amester.Partition.Ownership
import Amester.Partition.RoundTrip
import Amester.Rmcp.Format
import Amester.Rmcp.Handshake
import Amester.Rmcp.Connection
import Amester.Rmcp.Moves
import Amester.Rmcp.Order
import Amester.Rmcp.Timers
import Amester.Lib.CallChain
import Amester.Job.Queue
import Amester.Job.Conservation
import Amester.LocalHost.Occupied
import Amester.Job.Exec
import Amester.Lib.Lines
import Amester.Lib.TextChannel
import Amester.BladeCenter.CommandTable
import Amester.BladeCenter.Login
import Amester.BladeCenter.Reply
import Amester.BladeCenter.Session
import Amester.BladeCenter.Order
import Amester.BladeCenter.Progress
import Amester.Agent.Server
import Amester.Agent.Isolation
import Amester.Agent.System
import Amester.Agent.EndToEnd
import Amester.Agent.Tunnel
