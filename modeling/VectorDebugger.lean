import VectorDebugger.Library.Transition
import VectorDebugger.Machine.Banking
import VectorDebugger.Machine.Board
import VectorDebugger.Machine.BeamTime
import VectorDebugger.Machine.FrameRun
import VectorDebugger.Machine.Alike
import VectorDebugger.Machine.Stepping
import VectorDebugger.Machine.Interrupts
import VectorDebugger.Machine.Calls
import VectorDebugger.Debugger.SymbolCoherence
import VectorDebugger.Debugger.Instrumentation
import VectorDebugger.Debugger.Accounting
import VectorDebugger.Debugger.Sequence
import VectorDebugger.Debugger.Trace
import VectorDebugger.Debugger.Breakpoints
import VectorDebugger.Debugger.SoundSnapshot
import VectorDebugger.Debugger.ShownFlags
import VectorDebugger.Debugger.ControlFlow
import VectorDebugger.Debugger.StopCause
import VectorDebugger.Debugger.TemporaryBreakpoints
import VectorDebugger.Debugger.TraceFunction
import VectorDebugger.Debugger.PausedOperations
import VectorDebugger.Debugger.Queries
import VectorDebugger.Debugger.Transparency
import VectorDebugger.Debugger.CommandRuns
import VectorDebugger.Debugger.Promises
import VectorDebugger.Debugger.LoadedRom
import VectorDebugger.Debugger.Resets
import VectorDebugger.Machine.FrameTime
import VectorDebugger.Machine.PortWrites
import VectorDebugger.Debugger.PortOrder
import VectorDebugger.Machine.PaletteWrites
import VectorDebugger.Debugger.VideoMode
import VectorDebugger.Machine.FrameBuffer
import VectorDebugger.Machine.DrawnPixels
import VectorDebugger.Debugger.RasterEvents
import VectorDebugger.Debugger.LoadedSymbols
import VectorDebugger.Debugger.AsmLayout
import VectorDebugger.Debugger.RdbSession
import VectorDebugger.Debugger.RdbRoundTrip
import VectorDebugger.Debugger.BreakpointSets
import VectorDebugger.Machine.Watchpoints
import VectorDebugger.Machine.SavedState
import VectorDebugger.Debugger.XrefSessions
import VectorDebugger.Library.TextSearch
import VectorDebugger.Debugger.ProjectFile
import VectorDebugger.Debugger.ProjectRoundTrip
import VectorDebugger.Library.Intervals
import VectorDebugger.Debugger.CodeSearch
import VectorDebugger.Debugger.CodeRanges
import VectorDebugger.Debugger.Spelling
import VectorDebugger.Debugger.HistoryText
import VectorDebugger.Debugger.AsmText
import VectorDebugger.Debugger.TraceSummary
import VectorDebugger.Debugger.Inspections
import VectorDebugger.Debugger.AsmOwners
import VectorDebugger.Debugger.AsmCoverage
import VectorDebugger.Debugger.GdbServer
import VectorDebugger.Debugger.GdbAnswers
import VectorDebugger.Debugger.TextContent
import VectorDebugger.Debugger.WellAddressed
import VectorDebugger.Debugger.Regions
import VectorDebugger.Library.Runs
import VectorDebugger.Debugger.LinearSweep
import VectorDebugger.Debugger.CoverageRanges
import VectorDebugger.Debugger.MemorySnapshots
import VectorDebugger.Debugger.RangeChecks
import VectorDebugger.Debugger.XrefExact
import VectorDebugger.Debugger.FunctionMirror
import VectorDebugger.Library.Collect
import VectorDebugger.Debugger.Searches
import VectorDebugger.Machine.Timer
import VectorDebugger.Library.Windows
import VectorDebugger.Machine.Floppy
import VectorDebugger.Machine.FloppyFaults
import VectorDebugger.Machine.SectorTransfers
import VectorDebugger.Machine.SectorContents
import VectorDebugger.Debugger.VramMapping
import VectorDebugger.Machine.Envelope
import VectorDebugger.Machine.SquareWave
import VectorDebugger.Machine.LatchedCount
import VectorDebugger.Debugger.SoundMirror
import VectorDebugger.Debugger.TimerMirror
import VectorDebugger.Debugger.BeamStates
import VectorDebugger.Machine.Wav
import VectorDebugger.Machine.WavSafety
import VectorDebugger.Machine.WavDecoding
import VectorDebugger.Debugger.VramDrawing
import VectorDebugger.Machine.CpmNames
import VectorDebugger.Debugger.RingWindow
import VectorDebugger.Debugger.AccessLog
import VectorDebugger.Debugger.CallGraph
import VectorDebugger.Machine.Keyboard
import VectorDebugger.Machine.Resampler
import VectorDebugger.Machine.SoundBuffers
import VectorDebugger.Library.Fips180
import VectorDebugger.Library.Checksums
import VectorDebugger.Debugger.HaltedReturn
import VectorDebugger.Debugger.Png
import VectorDebugger.Debugger.Sha256
import VectorDebugger.Tools.Bas2asc
import VectorDebugger.Library.Cells
import VectorDebugger.Library.CarryChain
import VectorDebugger.Library.Fields
import VectorDebugger.Library.FeedbackRegister
import VectorDebugger.Machine.FilesystemImage
import VectorDebugger.Machine.FileExtents
import VectorDebugger.Machine.SavedFiles
import VectorDebugger.Machine.Arithmetic
import VectorDebugger.Machine.Noise
import VectorDebugger.Machine.Countdown
import VectorDebugger.Machine.WavRecorder
import VectorDebugger.Debugger.MapLoader
import VectorDebugger.Debugger.MapRoundTrip
import VectorDebugger.Debugger.MapSymbols
