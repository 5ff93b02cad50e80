import HalOs.General.Runs
import HalOs.General.Loops
import HalOs.Model.Console
import HalOs.Model.Filesystem
import HalOs.Model.Descriptors
import HalOs.Model.Process
import HalOs.Model.Events
import HalOs.Proofs.Handlers
import HalOs.Proofs.VideoMapping
import HalOs.General.Forest
import HalOs.Proofs.ProcessTree
import HalOs.Proofs.NestedExec
import HalOs.Proofs.Screens
import HalOs.Proofs.WriteRows
import HalOs.Proofs.FileReads
import HalOs.Proofs.LoadRace
import HalOs.Model.Calls
import HalOs.Proofs.PidRace
import HalOs.Model.Readers
import HalOs.Proofs.ReadRace
import HalOs.Model.Translation
import HalOs.Proofs.AddressSpace
import HalOs.Model.UserCalls
import HalOs.Proofs.DescriptorTable
import HalOs.Proofs.Arguments
import HalOs.Model.Line
import HalOs.Proofs.LineEditor
import HalOs.Proofs.ReadBounds
import HalOs.Model.Exits
import HalOs.Proofs.ExitRace
import HalOs.Proofs.FirstTick
import HalOs.Model.Jobs
import HalOs.Proofs.Resumed
import HalOs.Model.Scheduling
import HalOs.Proofs.NestedSwitch
import HalOs.General.Scans
import HalOs.Model.Lookups
import HalOs.Proofs.ImageBounds
import HalOs.Model.Pointers
import HalOs.Proofs.OwnHandlers
import HalOs.Proofs.UserPointers
import HalOs.Proofs.Listing
import HalOs.Model.Command
import HalOs.Proofs.CommandBuffers
import HalOs.Proofs.Acceptance
import HalOs.Model.RtcReads
import HalOs.Proofs.Wakeups
import HalOs.Model.Keyboard
import HalOs.Proofs.Rejections
import HalOs.Proofs.TypedLines
import HalOs.Model.Output
import HalOs.Proofs.PrintedText
import HalOs.Proofs.Backspace
import HalOs.Model.Emulation
import HalOs.Proofs.Getargs
import HalOs.Model.CallerPcb
import HalOs.Proofs.FailedCalls
import HalOs.Proofs.Respawn
import HalOs.General.Displays
import HalOs.Proofs.ConsolePages
import HalOs.Proofs.WrittenScreens
import HalOs.Model.TypedTerminals
import HalOs.Proofs.NulKeys
import HalOs.General.Masks
import HalOs.Model.I8259
import HalOs.Proofs.IrqMasks
import HalOs.Model.Rtc
import HalOs.Proofs.RtcWrites
import HalOs.Proofs.Scrolling
import HalOs.General.Numerals
import HalOs.General.Segments
import HalOs.Model.Printing
import HalOs.Proofs.Itoa
import HalOs.Proofs.Formats
import HalOs.General.X86
import HalOs.Model.Memcpy
import HalOs.Proofs.Memcpy
import HalOs.General.Chains
import HalOs.Model.Blink
import HalOs.Proofs.BlinkList
import HalOs.Proofs.BlinkCycle
import HalOs.Model.Fish
import HalOs.Proofs.BlinkPhase
import HalOs.Proofs.FishFrames
import HalOs.Proofs.FishPicture
import HalOs.Model.Programs
import HalOs.General.Texts
import HalOs.Proofs.Grep
import HalOs.Proofs.GrepDirectory
import HalOs.General.Ia32
import HalOs.General.Ia32Stack
import HalOs.General.Ia32Calls
import HalOs.General.Ia32Flags
import HalOs.Model.Interrupts
import HalOs.Model.ProcessCalls
import HalOs.Proofs.ProcessCalls
import HalOs.Proofs.InterruptTable
import HalOs.Proofs.DeviceInterrupts
import HalOs.Proofs.SystemCalls
import HalOs.Model.ProcessCalls
import HalOs.Proofs.ProcessCalls
