import LinuxLikeOS.Transition
import LinuxLikeOS.CountedLoop
import LinuxLikeOS.StackFamily
import LinuxLikeOS.StackMachine
import LinuxLikeOS.CTypes
import LinuxLikeOS.KernelState
import LinuxLikeOS.Screen
import LinuxLikeOS.FileSystem
import LinuxLikeOS.ProcessTable
import LinuxLikeOS.Drivers
import LinuxLikeOS.SystemCalls
import LinuxLikeOS.Execute
import LinuxLikeOS.Scheduling
import LinuxLikeOS.KernelRun
import LinuxLikeOS.Frames
import LinuxLikeOS.ProcessView
import LinuxLikeOS.ProcessStacks
import LinuxLikeOS.KernelSessions
import LinuxLikeOS.Scenes
import LinuxLikeOS.SlotOwnership
import LinuxLikeOS.ParentChain
import LinuxLikeOS.ContextSwitch
import LinuxLikeOS.DescriptorIsolation
import LinuxLikeOS.VideoMapping
import LinuxLikeOS.ExitStatus
import LinuxLikeOS.UserBuffers
import LinuxLikeOS.PointerSafety
import LinuxLikeOS.LengthDiscipline
import LinuxLikeOS.ReaderSteps
import LinuxLikeOS.ReaderDesk
import LinuxLikeOS.TerminalLine
import LinuxLikeOS.TypedLines
import LinuxLikeOS.LineIsolation
import LinuxLikeOS.SystemCallLinkage
import LinuxLikeOS.SlotReservation
import LinuxLikeOS.AddressSpaces
import LinuxLikeOS.SingleTerminal
import LinuxLikeOS.FreshDescriptors
import LinuxLikeOS.BlockSafety
import LinuxLikeOS.FileReads
import LinuxLikeOS.TerminatedText
import LinuxLikeOS.DirectoryReads
import LinuxLikeOS.Keyboard
import LinuxLikeOS.LineEditing
import LinuxLikeOS.ScreenPages
import LinuxLikeOS.OutputAgreement
import LinuxLikeOS.DrawnText
import LinuxLikeOS.ScreenBounds
import LinuxLikeOS.SwitchedScreens
import LinuxLikeOS.LostWrites
import LinuxLikeOS.EndOfFile
import LinuxLikeOS.NameLookup
import LinuxLikeOS.CommandLine
import LinuxLikeOS.DescriptorAllocation
import LinuxLikeOS.ArgumentDelivery
import LinuxLikeOS.CursorColumns
import LinuxLikeOS.VisibleKeys
import LinuxLikeOS.KeyDecoding
import LinuxLikeOS.ClockFrequency
import LinuxLikeOS.CursorCoherence
import LinuxLikeOS.HaltFrame
import LinuxLikeOS.CommandScan
import LinuxLikeOS.LineResults
import LinuxLikeOS.ScrollWindow
import LinuxLikeOS.ScreenWindow
import LinuxLikeOS.ExecutableGate
import LinuxLikeOS.LoaderConfinement
import LinuxLikeOS.Numerals
import LinuxLikeOS.NumberText
import LinuxLikeOS.FormatScan
import LinuxLikeOS.NumberPrinting
import LinuxLikeOS.MemoryRanges
import LinuxLikeOS.StringMachine
import LinuxLikeOS.MemoryPrimitives
import LinuxLikeOS.BlockMoves
import LinuxLikeOS.CallingPrograms
import LinuxLikeOS.ProcessCalls
import LinuxLikeOS.UserPrograms
import LinuxLikeOS.LineBuffer
import LinuxLikeOS.ArraySlices
import LinuxLikeOS.FilePrinting
import LinuxLikeOS.GrepProgram
import LinuxLikeOS.CommandRuns
import LinuxLikeOS.PageWalk
import LinuxLikeOS.AddressTranslation
import LinuxLikeOS.MappedStores
import LinuxLikeOS.ProcessMemory
import LinuxLikeOS.InterruptController
import LinuxLikeOS.Interrupts
import LinuxLikeOS.SystemDescriptors
import LinuxLikeOS.DescriptorTables
