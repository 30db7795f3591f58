import NagiosTrapd.Words
import NagiosTrapd.ShellWords
import NagiosTrapd.ShellShape
import NagiosTrapd.Template
import NagiosTrapd.Doubling
import NagiosTrapd.Chain
import NagiosTrapd.Worklist
import NagiosTrapd.FileLocks
import NagiosTrapd.Transition
import NagiosTrapd.Blocks
import NagiosTrapd.LineBuffer
import NagiosTrapd.FileTree
import NagiosTrapd.Util
import NagiosTrapd.Socket
import NagiosTrapd.SocketRoom
import NagiosTrapd.Trap
import NagiosTrapd.TrapInv
import NagiosTrapd.TrapParse
import NagiosTrapd.PduReader
import NagiosTrapd.Varbinds
import NagiosTrapd.TrapContents
import NagiosTrapd.TrapSerialize
import NagiosTrapd.TrapFaults
import NagiosTrapd.SenderAddress
import NagiosTrapd.TrapSafe
import NagiosTrapd.Diagnostics
import NagiosTrapd.DiagnosticsSafe
import NagiosTrapd.DiagnosticsRoom
import NagiosTrapd.DiagnosticsPool
import NagiosTrapd.Reply
import NagiosTrapd.Command
import NagiosTrapd.Query
import NagiosTrapd.QueryMarkers
import NagiosTrapd.QueryLines
import NagiosTrapd.QueryFiles
import NagiosTrapd.Db
import NagiosTrapd.DbIndex
import NagiosTrapd.Resources
import NagiosTrapd.CommandMacros
import NagiosTrapd.CommandBuffers
import NagiosTrapd.Arguments
import NagiosTrapd.FileName
import NagiosTrapd.Execlist
import NagiosTrapd.Exec
import NagiosTrapd.ExecOutput
import NagiosTrapd.ExecLines
import NagiosTrapd.ExecStatus
import NagiosTrapd.ExecRuns
import NagiosTrapd.ExecLimits
import NagiosTrapd.TrapShell
import NagiosTrapd.TrapText
import NagiosTrapd.CommandShape
import NagiosTrapd.Standalone
import NagiosTrapd.Plugins
import NagiosTrapd.Channel
import NagiosTrapd.ChannelLines
import NagiosTrapd.Worker
import NagiosTrapd.WorkerSelect
import NagiosTrapd.WorkerStop
import NagiosTrapd.Startup
import NagiosTrapd.Interleaving
import NagiosTrapd.Ring
import NagiosTrapd.Simulation
import NagiosTrapd.Threadpool
import NagiosTrapd.ThreadpoolThreads
import NagiosTrapd.ThreadpoolOutline
import NagiosTrapd.ThreadpoolRuns
import NagiosTrapd.Dictionary
import NagiosTrapd.IniLine
import NagiosTrapd.IniLoad
import NagiosTrapd.Config
import NagiosTrapd.ConfigDump
import NagiosTrapd.Cells
import NagiosTrapd.Stack
import NagiosTrapd.ExecStack
import NagiosTrapd.Traphandler
