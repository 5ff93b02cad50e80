import HalOs.Model.Scheduler

/-!
# Starting and ending processes

`execute` is split at its first store to global state. What comes before, the parsing of the
command and the checks of the file, is a function of the image. What comes after the choice
of a process id is a list of statements, so that interrupts can be placed between any two of
them. Statements that only fill fields of the new PCB which no handler reads are grouped.
-/

namespace HalOs

abbrev execArgLen : ℕ := 128
abbrev magicNumber : List UInt8 := [0x7f, 0x45, 0x4c, 0x46]
abbrev entryPtStart : ℕ := 24
abbrev entryPtLen : ℕ := 4
abbrev progImgOffset : ℕ := 0x48000
abbrev userPageSize : ℕ := 0x400000
abbrev exceptionRetVal : ℕ := 256

/-- The command of a base shell. -/
def shellCommand : List UInt8 := [115, 104, 101, 108, 108]

/-- What the stack of a call of `execute` contributes: its frame, the old contents of its
header buffer, and the context a tick saves while it waits to be scheduled. -/
structure CallFrame where
  regs : Regs
  header : ℕ → UInt8
  waiting : Regs

/-- A program `execute` has accepted. -/
structure Program where
  entryPoint : ℕ
  arg : List UInt8
  copyArg : Bool
  bytes : List UInt8
  deriving DecidableEq, Repr

/-- The word `execute` copies into `filename`. The buffer has 32 bytes; stores past it are
taken to hit nothing else. -/
def commandWord (cmd : List UInt8) : List UInt8 := cmd.takeWhile (· ≠ spaceAscii)

/-- `arg_start_idx`. -/
def argStart (cmd : List UInt8) : ℕ :=
  if (commandWord cmd).length < cmd.length then (commandWord cmd).length + 1 else 0

/-- `arg`, up to the zeros the array is filled with. -/
def commandArg (cmd : List UInt8) : List UInt8 :=
  if argStart cmd = 0 then [] else cmd.drop (argStart cmd)

/-- Byte `i` of the header buffer after `read_data` has been asked for the header. -/
def headerByte (img : Image) (inode : UInt32) (old : ℕ → UInt8) (i : ℕ) : UInt8 :=
  (readData img inode.toNat 0 (entryPtStart + entryPtLen)).2.getD i (old i)

/-- The checks of `execute`: `some none` when it returns -1 before it stores anything. -/
def checkProgram (img : Image) (old : ℕ → UInt8) (command : List UInt8) :
    Option (Option Program) :=
  let cmd := cString command
  if execArgLen < cmd.length then some none
  else
    (readDentryByName img (commandWord cmd)).map fun found =>
      found.bind fun d =>
        let header := headerByte img d.inodeNumber old
        if (List.range magicNumber.length).map header = magicNumber then
          some {
            entryPoint := (List.range entryPtLen).foldl
              (fun e i => e ||| (header (i + entryPtStart)).toNat <<< (i * 8)) 0
            arg := commandArg cmd
            copyArg := argStart cmd < cmd.length
            bytes := (readData img d.inodeNumber.toNat 0 userPageSize).2 }
        else none

namespace Kernel

/-- `get_pid`; `none` for -1. -/
def getPid (k : Kernel) : Option ℤ :=
  ((List.range numPids).find? fun i : ℕ => (k.pcbs (i : ℤ)).inUse ≠ 1).map fun i : ℕ => (i : ℤ)

/-- The process id `execute` gives the new process. -/
def choosePid (k : Kernel) : Option ℤ :=
  if k.initializedTerminals k.activeTerminal then k.getPid
  else some k.activeTerminal.val

/-- The physical address of a byte of the 4 MB user page. -/
def userAddress (k : Kernel) (off : ℕ) : ℕ := k.paging.userFrame / 1024 * userPageSize + off

/-- A byte stored in the user page; past its end nothing is mapped. -/
def storeUser (off : ℕ) (b : UInt8) (k : Kernel) : Option Kernel :=
  if off < userPageSize then
    some { k with mem := Function.update k.mem (k.userAddress off) b }
  else none

end Kernel

/-- The locals of `execute` that are fixed once the process id is chosen. -/
structure Activation where
  program : Program
  pid : ℤ
  regs : Regs

/-- The statements of `execute` from the user page on. -/
inductive Stmt where
  | setPage
  | copy (i : ℕ)
  | markInUse
  | clearFds
  | setProcessId
  | clearSaved
  | setActive
  | reserve (t : Fin 3)
  | setParent
  | copyArg
  | openStdio
  | setEsp0
  | saveRegs
  | setCurrent
  | setActivePid
  | activate
  | await
  | enter
  deriving DecidableEq, Repr

/-- `execute` between two statements: the kernel, and whether the call has taken the branch
that initialises its terminal. -/
structure ExecState where
  kernel : Kernel
  first : Bool

namespace Activation

variable (a : Activation)

/-- `strcpy` of the argument over the bytes an earlier process left there. -/
def copiedArg (old : ℕ → UInt8) : ℕ → UInt8 := fun i =>
  if i < a.program.arg.length then byteAt a.program.arg i
  else if i = a.program.arg.length then 0 else old i

/-- Standard input and output opened on the terminal. -/
def stdioTable (fds : FdTable) : FdTable := fun i =>
  if i ≤ 1 then { fds i with fileOpTablePtr := some .terminal, flags := 1 } else fds i

/-- The effect of one statement. -/
def exec (s : Stmt) (x : ExecState) : Option ExecState :=
  let k := x.kernel
  let next (k : Kernel) : Option ExecState := some { x with kernel := k }
  let pcb (f : Pcb → Pcb) : Option ExecState := next (k.setPcb a.pid f)
  match s with
  | .setPage => next { k with paging := k.paging.mapUser a.pid }
  | .copy i =>
    (k.storeUser (progImgOffset + i) (byteAt a.program.bytes i)).bind next
  | .markInUse => pcb fun p => { p with inUse := 1 }
  | .clearFds => pcb fun p => { p with fdArray := fun _ => emptyFd }
  | .setProcessId => pcb fun p => { p with processId := a.pid }
  | .clearSaved => pcb fun p => { p with saved := ⟨0, 0⟩ }
  | .setActive => next { k with activeTerminal := if a.pid = 0 then 0 else k.activeTerminal }
  | .reserve t => next (if a.pid = 0 then k.setPcb t.val fun p => { p with inUse := 1 } else k)
  | .setParent =>
    let parent := if a.pid < maxTerminals then -1 else (k.terminals k.activeTerminal).activePid
    pcb fun p => { p with parentProcessId := parent }
  | .copyArg => pcb fun p =>
    { p with arg := if a.program.copyArg then a.copiedArg p.arg else p.arg }
  | .openStdio => pcb fun p => { p with fdArray := stdioTable p.fdArray }
  | .setEsp0 => next { k with tssEsp0 := Kernel.kernelStack a.pid }
  | .saveRegs => pcb fun p => { p with saved := a.regs }
  | .setCurrent => next { k with currentPcb := some a.pid }
  | .setActivePid =>
    k.currentPcb.bind fun p =>
      next (k.setTerminal k.activeTerminal fun ti =>
        { ti with activePid := (k.pcbs p).processId % 256 })
  | .activate =>
    if k.initializedTerminals k.activeTerminal then some x
    else
      let flags := Function.update k.initializedTerminals k.activeTerminal true
      some ⟨{ k with initializedTerminals := flags }, true⟩
  -- only an interrupt ends the wait for the scheduled terminal
  | .await => if x.first ∧ k.activeTerminal ≠ k.scheduledTerminal then none else some x
  | .enter => some x

/-- The statements after the program has been copied. -/
def installation : List Stmt :=
  [.markInUse, .clearFds, .setProcessId, .clearSaved, .setActive, .reserve 1, .reserve 2,
    .setParent, .copyArg, .openStdio, .setEsp0, .saveRegs, .setCurrent, .setActivePid, .activate,
    .await, .enter]

/-- The statements of the call, one store for each byte of the program. -/
def body : List Stmt :=
  .setPage :: (List.range a.program.bytes.length).map Stmt.copy ++ installation

end Activation

/-- The ticks an uninterrupted call needs: those that end its wait. -/
def waitTicks (r : Regs) (s : Stmt) (x : ExecState) : Option ExecState :=
  if s = .await ∧ x.first ∧ x.kernel.activeTerminal ≠ x.kernel.scheduledTerminal then
    (x.kernel.preempt r).map fun k => { x with kernel := k }
  else some x

namespace Kernel

/-- `execute` as one step: the kernel after it, and the new process or `none` for -1. -/
def execute (img : Image) (f : CallFrame) (command : List UInt8) (k : Kernel) :
    Option (Kernel × Option ℤ) :=
  (checkProgram img f.header command).bind fun accepted =>
    match accepted, k.choosePid with
    | some program, some pid =>
      let a : Activation := ⟨program, pid, f.regs⟩
      (Loops.runUnder (waitTicks f.waiting) a.exec a.body ⟨k, false⟩).map fun x =>
        (x.kernel, some pid)
    | _, _ => some (k, none)

/-- How `halt` leaves the kernel: back in the parent's call of `execute`, whose frame and
return value it loads, or in a new base shell. -/
inductive Halted where
  | parent (k : Kernel) (frame : Regs) (value : ℕ)
  | shell (k : Kernel) (pid : ℤ)

def Halted.kernel : Halted → Kernel
  | .parent k _ _ => k
  | .shell k _ => k

/-- What `halt` does first in either case: the exception flag is consumed, the descriptors are
closed, and the PCB is given up. -/
def release (p : ℤ) (k : Kernel) : Kernel :=
  let closeAll (fds : FdTable) : FdTable :=
    (List.range fdArrayLength).foldl (fun fds i => (sysClose fds (i : ℤ)).2) fds
  let k := { k with exceptionInChild := false }
  k.setPcb p fun pcb => { pcb with fdArray := closeAll pcb.fdArray, saved := ⟨0, 0⟩, inUse := 0 }

def forgetIds (p : ℤ) (k : Kernel) : Kernel :=
  k.setPcb p fun pcb => { pcb with parentProcessId := 0, processId := 0 }

/-- The part of `halt` that hands the terminal back to the parent process. -/
def toParent (p : ℤ) (k : Kernel) : Kernel :=
  let parent := (k.pcbs p).parentProcessId
  let k := k.forgetIds p
  let k := k.setTerminal k.scheduledTerminal fun ti =>
    { ti with activePid := (k.pcbs parent).processId % 256 }
  { k with
    tssEsp0 := kernelStack parent
    paging := k.paging.mapUser (k.pcbs parent).processId
    currentPcb := some parent }

/-- The state in which `halt` runs a new shell in place of a base shell. -/
def relaunching (p : ℤ) (k : Kernel) : Kernel :=
  { k.forgetIds p with currentPcb := none, tssEsp0 := kernelStack (k.pcbs p).processId }

/-- `halt`. When the new shell of a base shell cannot be started, the code goes on with a null
current PCB and faults. -/
def halt (img : Image) (f : CallFrame) (status : UInt8) (k : Kernel) : Option Halted :=
  k.currentPcb.bind fun p =>
    let frame := (k.pcbs p).saved
    let value := if k.exceptionInChild then exceptionRetVal else status.toNat
    let k := k.release p
    if (k.pcbs p).processId < maxTerminals then
      ((k.relaunching p).execute img f shellCommand).bind fun r =>
        r.2.map fun pid => .shell r.1 pid
    else some (.parent (k.toParent p) frame value)

/-- `terminal_switch`. -/
def terminalSwitch (img : Image) (f : CallFrame) (target : Fin 3) (k : Kernel) : Option Kernel :=
  if k.activeTerminal = target then some k
  else
    let k := k.switchScreens target
    if k.initializedTerminals target then some k
    else (k.execute img f shellCommand).map Prod.fst

end Kernel

end HalOs
