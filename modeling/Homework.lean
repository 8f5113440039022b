import Homework.Zip.Archive
import Homework.LogParser.Threads
import Homework.MouseDriver.Queue
import Homework.Crc.File
import Homework.Game2048.GameOver
import Homework.Hash.Table
import Homework.Hash.WordCount
import Homework.Hash.Correctness
import Homework.Library.CInt
import Homework.Library.Runs
import Homework.Pomodoro.MainWindow
import Homework.Pomodoro.Timer
import Homework.Pomodoro.Durations
import Homework.Pomodoro.Phases
import Homework.Pomodoro.Saving
import Homework.Assembly.Program
import Homework.Assembly.Convention
import Homework.Assembly.Routines
import Homework.Assembly.Traversals
import Homework.Assembly.Main
import Homework.Assembly.Agreement
import Homework.Library.StringBuffer
import Homework.FileServer.Request
import Homework.Library.LexicalPath
import Homework.FileServer.Confinement
import Homework.FileServer.Delivery
import Homework.FileServer.Buffers
import Homework.FileServer.Reassembly
import Homework.FileServer.Kernel
import Homework.FileServer.Indices
import Homework.FileServer.Wakeups
import Homework.Game2048.Bounded
import Homework.Hash.Growth
import Homework.Hash.HashString
import Homework.Hash.Lookup
import Homework.Hash.Removal
import Homework.Hash.Load
import Homework.Library.Decimal
import Homework.Library.Lines
import Homework.Library.TextInput
import Homework.MouseDriver.Faults
import Homework.MouseDriver.Records
import Homework.Library.HttpMessage
import Homework.FileServer.Framing
import Homework.Crc.Bursts
import Homework.Crc.Main
import Homework.Game2048.Moves
import Homework.Zip.Eocdr
import Homework.Zip.Members
import Homework.Pomodoro.Sources
import Homework.Library.Selection
import Homework.LogParser.TopN
import Homework.FileServer.Leaks
import Homework.FileServer.Scanning
import Homework.Convertor.Reading
import Homework.Convertor.Stream
import Homework.Convertor.Ending
import Homework.Logger.LifeCycle
import Homework.Pomodoro.RoundTrip
import Homework.Library.Double
import Homework.Column.Main
import Homework.Column.Results
import Homework.Column.Interleaving
import Homework.DirView.DirView
import Homework.DirView.Hierarchy
import Homework.Weather.Shape
import Homework.Assembly.Preservation
import Homework.Assembly.Alignment
import Homework.Zip.ReadFile
import Homework.Weather.Response
import Homework.LogParser.EntryArray
import Homework.LogParser.Accumulation
import Homework.Ipc.Server
import Homework.Library.CriticalSections
import Homework.Logger.Threads
import Homework.Crc.Forcing
import Homework.Crc.TwoBits
import Homework.MouseDriver.Concurrency
import Homework.LogParser.Machine
import Homework.LogParser.Grammar
import Homework.LogParser.Segmentation
import Homework.LogParser.Joins
import Homework.LogParser.Conservation
import Homework.Library.Staged
import Homework.MouseDriver.Module
import Homework.Convertor.Dialogue
import Homework.Ipc.Sessions
import Homework.Game2048.Session
import Homework.Library.Console
import Homework.Zip.Listing
import Homework.Hash.Program
