import NetworkExperiment.Lib.ActionSystem
import NetworkExperiment.Lib.Bytes
import NetworkExperiment.Lib.Descriptors
import NetworkExperiment.Lib.Projection
import NetworkExperiment.Lib.Script
import NetworkExperiment.Lib.LastEvent
import NetworkExperiment.Lib.FileOffset
import NetworkExperiment.Lib.Dictionary
import NetworkExperiment.Lib.BitField
import NetworkExperiment.Lib.FlagMask
import NetworkExperiment.Lib.Draining
import NetworkExperiment.Lib.CString
import NetworkExperiment.Lib.CharArray
import NetworkExperiment.Lib.LinkedChain
import NetworkExperiment.Lib.Loop
import NetworkExperiment.Lib.Share
import NetworkExperiment.Lib.FloatRounding
import NetworkExperiment.Lib.TwoWayChain
import NetworkExperiment.Proto.Message
import NetworkExperiment.Network.Transfer
import NetworkExperiment.Network.Deeds
import NetworkExperiment.Server.ServerFunc
import NetworkExperiment.Server.Process
import NetworkExperiment.Server.Conservation
import NetworkExperiment.Server.Isolation
import NetworkExperiment.Server.Confinement
import NetworkExperiment.Server.Lifetime
import NetworkExperiment.Client.SendRequest
import NetworkExperiment.Client.Process
import NetworkExperiment.Client.FlooderMarkers
import NetworkExperiment.Client.Descriptors
import NetworkExperiment.Client.ControlPhase
import NetworkExperiment.Client.Connection
import NetworkExperiment.Exchange.Protocol
import NetworkExperiment.Exchange.Safety
import NetworkExperiment.Exchange.Delivery
import NetworkExperiment.Exchange.Truncation
import NetworkExperiment.Log.Levels
import NetworkExperiment.Log.Message
import NetworkExperiment.Log.Trace
import NetworkExperiment.Log.BufferMessage
import NetworkExperiment.Opcode.Definition
import NetworkExperiment.Opcode.Fields
import NetworkExperiment.Opcode.Independence
import NetworkExperiment.Opcode.Requests
import NetworkExperiment.Opcode.Widths
import NetworkExperiment.Opcode.Logging
import NetworkExperiment.Hashtable.Table
import NetworkExperiment.Hashtable.Chains
import NetworkExperiment.Hashtable.Operations
import NetworkExperiment.Hashtable.Entries
import NetworkExperiment.Hashtable.Iterator
import NetworkExperiment.Hashtable.Refinement
import NetworkExperiment.Hashtable.Iteration
import NetworkExperiment.Cache.Cache
import NetworkExperiment.Cache.Runs
import NetworkExperiment.Cache.Books
import NetworkExperiment.Cache.Calls
import NetworkExperiment.Cache.Bookkeeping
import NetworkExperiment.Cache.Frame
import NetworkExperiment.Cache.Closing
import NetworkExperiment.Cache.Reput
import NetworkExperiment.Cache.Capacity
import NetworkExperiment.Cache.Coherence
import NetworkExperiment.Cache.AllOrNothing
import NetworkExperiment.Cache.Eviction
import NetworkExperiment.Capture.Environment
import NetworkExperiment.Capture.Layout
import NetworkExperiment.Capture.Steps
import NetworkExperiment.Capture.RoundTrip
import NetworkExperiment.Capture.Termination
import NetworkExperiment.Capture.Damage
import NetworkExperiment.Flooder.Run
import NetworkExperiment.Flooder.Windows
import NetworkExperiment.Analysis.Text
import NetworkExperiment.Analysis.ClientTimes
import NetworkExperiment.Analysis.Partition
import NetworkExperiment.Analysis.ClientLog
import NetworkExperiment.Analysis.RequestPairs
import NetworkExperiment.Analysis.RequestCounter
import NetworkExperiment.Analysis.Measurements
import NetworkExperiment.Analysis.Classification
import NetworkExperiment.Analysis.Scores
import NetworkExperiment.Analysis.SuccessRates
import NetworkExperiment.Lib.Simulation
import NetworkExperiment.Lib.FramedPipe
import NetworkExperiment.Lib.Lockstep
import NetworkExperiment.Lib.StackAlgorithm
import NetworkExperiment.Lib.MarkedWords
import NetworkExperiment.Lib.RecencyStack
import NetworkExperiment.Util.Random
import NetworkExperiment.Exchange.Bytewise
import NetworkExperiment.Exchange.SocketRoom
import NetworkExperiment.Cache.Demand
import NetworkExperiment.Cache.Inclusion
import NetworkExperiment.Cache.Custody
import NetworkExperiment.Cache.Stack
import NetworkExperiment.Cache.UnitTest
import NetworkExperiment.Flooder.Notifications
import NetworkExperiment.Lib.Dialogue
import NetworkExperiment.Exchange.UnitTest
import NetworkExperiment.Hashtable.Cleanup
import NetworkExperiment.Hashtable.UnitTest
import NetworkExperiment.Opcode.Release
import NetworkExperiment.Opcode.UnitTest
import NetworkExperiment.Lib.WordBytes
import NetworkExperiment.Util.NetworkOrder
import NetworkExperiment.Opcode.Bits
import NetworkExperiment.Lib.HeapBlock
import NetworkExperiment.Capture.Response
import NetworkExperiment.Lib.Quantile
import NetworkExperiment.Analysis.Outliers
import NetworkExperiment.Flooder.Shutdown
