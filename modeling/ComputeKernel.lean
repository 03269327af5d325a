import ComputeKernel.Support.Runs
import ComputeKernel.Support.FirstMatch
import ComputeKernel.Support.Selections
import ComputeKernel.Support.Slots
import ComputeKernel.Support.Window
import ComputeKernel.Support.Memory
import ComputeKernel.Support.Returns
import ComputeKernel.Support.Finishes
import ComputeKernel.Support.Commutes
import ComputeKernel.Support.Footprint
import ComputeKernel.Support.Simulation
import ComputeKernel.Support.Layout
import ComputeKernel.Support.Scrollback
import ComputeKernel.Support.Raster
import ComputeKernel.Support.Utf8
import ComputeKernel.Support.Words
import ComputeKernel.Support.Locks
import ComputeKernel.Support.Interrupts
import ComputeKernel.Support.SharedData
import ComputeKernel.Support.Sections
import ComputeKernel.Support.OnesComplement
import ComputeKernel.Process.Model
import ComputeKernel.Process.Steps
import ComputeKernel.Process.Parents
import ComputeKernel.Process.Conservation
import ComputeKernel.Process.ExitStatus
import ComputeKernel.Process.Signals
import ComputeKernel.Process.Scheduling
import ComputeKernel.Process.Fairness
import ComputeKernel.Process.Progress
import ComputeKernel.Process.Wait
import ComputeKernel.Process.Locking
import ComputeKernel.Memory.Frames
import ComputeKernel.Memory.Heap
import ComputeKernel.Net.Model
import ComputeKernel.Net.Parsing
import ComputeKernel.Net.Lengths
import ComputeKernel.Net.Wire
import ComputeKernel.Net.Checksum
import ComputeKernel.Net.Transit
import ComputeKernel.Arch.Interrupts
import ComputeKernel.Drivers.Vga
import ComputeKernel.Drivers.Screen
import ComputeKernel.Drivers.Accesses
import ComputeKernel.Drivers.Framebuffer
import ComputeKernel.Drivers.Painting
import ComputeKernel.Drivers.Keyboard
import ComputeKernel.Drivers.KeyOrder
import ComputeKernel.Drivers.Pci
import ComputeKernel.Drivers.ConfigSpace
import ComputeKernel.Syscall.Model
import ComputeKernel.Syscall.Meanwhile
import ComputeKernel.Syscall.UserMemory
import ComputeKernel.Syscall.Blocking
import ComputeKernel.Syscall.Safety
import ComputeKernel.Syscall.Panics
import ComputeKernel.Syscall.Terminal
import ComputeKernel.Syscall.UserStrings
import ComputeKernel.Syscall.Confinement
import ComputeKernel.Syscall.Descriptors
import ComputeKernel.Syscall.Failures
import ComputeKernel.Syscall.WaitStatus
import ComputeKernel.Syscall.Deaths
import ComputeKernel.Syscall.Rejections
import ComputeKernel.Fs.Vfs
import ComputeKernel.Fs.Pseudo
import ComputeKernel.Fs.Initramfs
import ComputeKernel.Fs.Newc
import ComputeKernel.Fs.Scan
import ComputeKernel.Fs.Archive
import ComputeKernel.Fs.Bounds
import ComputeKernel.Fs.Directory
import ComputeKernel.Syscall.PseudoFiles
import ComputeKernel.Syscall.Access
import ComputeKernel.Syscall.Chunks
import ComputeKernel.Syscall.Output
import ComputeKernel.Shell.Model
import ComputeKernel.Shell.Editing
import ComputeKernel.Shell.Commands
import ComputeKernel.Shell.Parsing
import ComputeKernel.Shell.Desk
import ComputeKernel.Shell.Printing
import ComputeKernel.Shell.Session
import ComputeKernel.Boot.Locks
import ComputeKernel.Syscall.Ledger
import ComputeKernel.Boot.Exceptions
import ComputeKernel.Syscall.Input
import ComputeKernel.Syscall.Display
