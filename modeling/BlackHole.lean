import BlackHole.Lib.Loop
import BlackHole.Lib.Bytes
import BlackHole.Lib.Chain
import BlackHole.Lib.FirstFit
import BlackHole.Lib.FreeRuns
import BlackHole.Lib.Circular
import BlackHole.Lib.LinkedRing
import BlackHole.Lib.Rota
import BlackHole.Lib.Screen
import BlackHole.Lib.X86
import BlackHole.Lib.Stack
import BlackHole.Lib.Machine
import BlackHole.Lib.SlotTable
import BlackHole.Lib.BlockProgram
import BlackHole.Fat16.Driver
import BlackHole.Fat16.Layout
import BlackHole.Fat16.Directory
import BlackHole.Fat16.Names
import BlackHole.Fat16.NameFields
import BlackHole.Fat16.Clusters
import BlackHole.Fat16.Volume
import BlackHole.Fat16.Formatting
import BlackHole.Fat16.Regions
import BlackHole.Fat16.Calls
import BlackHole.Fat16.Reading
import BlackHole.Fat16.History
import BlackHole.Fat16.RoundTrip
import BlackHole.Fat16.Overwriting
import BlackHole.Fat16.Conservation
import BlackHole.Fat16.Geometry
import BlackHole.Fat16.Termination
import BlackHole.Fat16.ReadBounds
import BlackHole.Fat16.ClusterCount
import BlackHole.Libc.Strings
import BlackHole.Libc.Numerals
import BlackHole.Libc.Itoa
import BlackHole.Libc.Stdio
import BlackHole.Libc.Formats
import BlackHole.Fat16.Listing
import BlackHole.Fat16.Scanners
import BlackHole.Fat16.ListingText
import BlackHole.Fat16.FileStore
import BlackHole.Fat16.StoreRefinement
import BlackHole.Fat16.SectorProgram
import BlackHole.Drivers.Keyboard
import BlackHole.Drivers.KeyQueue
import BlackHole.Drivers.Vga
import BlackHole.Drivers.Cursor
import BlackHole.Drivers.Terminal
import BlackHole.Drivers.Echo
import BlackHole.Drivers.Readline
import BlackHole.Drivers.LineScreen
import BlackHole.Drivers.LineInput
import BlackHole.Drivers.ShiftKeys
import BlackHole.Drivers.Ata
import BlackHole.Drivers.Identify
import BlackHole.Fat16.AtaStack
import BlackHole.Drivers.Timer
import BlackHole.Drivers.Pit
import BlackHole.Libc.Console
import BlackHole.Kernel.Memory
import BlackHole.Kernel.BlockList
import BlackHole.Kernel.HeapShape
import BlackHole.Kernel.Heap
import BlackHole.Kernel.HeapRuns
import BlackHole.Kernel.Allocation
import BlackHole.Kernel.Task
import BlackHole.Kernel.Switch
import BlackHole.Kernel.Creation
import BlackHole.Kernel.ContextSwitch
import BlackHole.Kernel.Preemption
import BlackHole.Kernel.Schedule
import BlackHole.Kernel.RoundRobin
import BlackHole.Kernel.ThreadFailure
import BlackHole.Kernel.Fairness
import BlackHole.Kernel.Paging
import BlackHole.Kernel.Translation
import BlackHole.Kernel.UserMode
import BlackHole.Kernel.Interrupts
import BlackHole.Kernel.Pic
import BlackHole.Kernel.Handlers
import BlackHole.Shell.Commands
import BlackHole.Shell.FatCopies
import BlackHole.Shell.CommandLines
import BlackHole.Shell.FileNames
import BlackHole.Shell.WriteLine
import BlackHole.Shell.Session
import BlackHole.Shell.Rounds
import BlackHole.Shell.Device
import BlackHole.Kernel.Boot
import BlackHole.Kernel.BootScreen
