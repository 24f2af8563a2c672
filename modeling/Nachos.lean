import Nachos.Lib.Moves
import Nachos.Lib.Loop
import Nachos.Lib.Memory
import Nachos.Lib.Mutex
import Nachos.Lib.Order
import Nachos.Lib.Path
import Nachos.Passport.Senators
import Nachos.Passport.Lines
import Nachos.Passport.Calls
import Nachos.Passport.Records
import Nachos.Passport.Served
import Nachos.Passport.Meeting
import Nachos.Passport.Certificates
import Nachos.Passport.Desks
import Nachos.Passport.Service
import Nachos.VM.Frames
import Nachos.VM.Swap
import Nachos.VM.Queue
import Nachos.VM.TLB
import Nachos.VM.Fresh
import Nachos.VM.Bounds
import Nachos.VM.Reload
import Nachos.VM.StackRanges
import Nachos.Net.Lengths
import Nachos.Net.Entitled
import Nachos.Net.WaitingLock
import Nachos.Net.Register
import Nachos.Net.Lifetime
import Nachos.Net.Lone
import Nachos.Net.Unowned
import Nachos.Net.Polling
import Nachos.Net.Agreement
import Nachos.Threads.Broadcast
import Nachos.Threads.Deletion
import Nachos.Threads.Access
import Nachos.Threads.Lists
import Nachos.Processes.Halting
import Nachos.Processes.Files
import Nachos.FileSys.Basic
import Nachos.FileSys.Contents
import Nachos.FileSys.FreeMap
import Nachos.FileSys.Directory
import Nachos.FileSys.System
import Nachos.FileSys.Allocation
import Nachos.FileSys.Layout
import Nachos.FileSys.Fetching
import Nachos.FileSys.Entries
import Nachos.FileSys.Operations
import Nachos.FileSys.Formatting
import Nachos.FileSys.Files
import Nachos.FileSys.Simulation
import Nachos.FileSys.Accounting
import Nachos.Machine.Interrupts
import Nachos.Machine.Latency
import Nachos.Machine.Instruction
import Nachos.Machine.Multiply
import Nachos.Machine.Processor
import Nachos.Machine.Hazards
import Nachos.Machine.Faults
import Nachos.Machine.Paging
import Nachos.Machine.Programs
