import JPipe.Schedules
import JPipe.Potential
import JPipe.Monitor
import JPipe.Region
import JPipe.Tiles
import JPipe.Words
import JPipe.Ledger
import JPipe.Journal
import JPipe.OrderedMap
import JPipe.Paths
import JPipe.Numeral
import JPipe.Getopt
import JPipe.Cutting
import JPipe.Contiguity
import JPipe.Framing
import JPipe.Printf
import JPipe.Utf8
import JPipe.JsonText
import JPipe.Errno
import JPipe.Diagnostics
import JPipe.Effects
import JPipe.Field
import JPipe.FieldSets
import JPipe.Json
import JPipe.Escaping
import JPipe.Inference
import JPipe.Record
import JPipe.Members
import JPipe.Forced
import JPipe.Writer
import JPipe.Payloads
import JPipe.Characters
import JPipe.File
import JPipe.Transfer
import JPipe.Delivery
import JPipe.Channel
import JPipe.Queue
import JPipe.Settings
import JPipe.Allocation
import JPipe.Producing
import JPipe.ProducingRuns
import JPipe.OutputDir
import JPipe.Command
import JPipe.Options
import JPipe.Raising
import JPipe.Worker
import JPipe.Ownership
import JPipe.QueueSafety
import JPipe.Contents
import JPipe.Arena
import JPipe.ArenaRuns
import JPipe.Wakeups
import JPipe.Reader
import JPipe.ReaderSafety
import JPipe.Poller
import JPipe.Pipeline
import JPipe.Pairing
import JPipe.ReaderRuns
import JPipe.Dropping
import JPipe.Leaving
import JPipe.Coupling
import JPipe.Shutdown
import JPipe.Stream
import JPipe.Startup
import JPipe.Engine
import JPipe.Feeding
import JPipe.Placement
import JPipe.Lines
import JPipe.Flushing
import JPipe.Progress
import JPipe.Liveness
import JPipe.Completion
import JPipe.Alone
import JPipe.Output
import JPipe.Program
import JPipe.Reporting
