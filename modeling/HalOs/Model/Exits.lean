import HalOs.Model.Events

/-!
# Exits in progress

The ends of processes, statement by statement: a call of `halt`, or a CPU exception that enters
`halt` through `exception_handler`. An exit goes on while its process is the current one; ticks
and the other handlers run between its statements. The part of `halt` under `cli` is one
statement. A process that is resumed goes on where it was interrupted.

What each parent's `execute` returned is recorded in a list.
-/

namespace HalOs

/-- `exception_lookup`. -/
def exceptionLookup : List String := [
  "EXCEPTION 0: Divide Error Exception",
  "EXCEPTION 1: Debug Exception",
  "EXCEPTION 2: NMI Interrupt",
  "EXCEPTION 3: Breakpoint Exception",
  "EXCEPTION 4: Overflow Exception",
  "EXCEPTION 5: BOUND Range Exceeded Exception",
  "EXCEPTION 6: Invalid Opcode Exception",
  "EXCEPTION 7: Device Not Available Exception",
  "EXCEPTION 8: Double Fault Exception",
  "EXCEPTION 9: Coprocessor Segment Overrun",
  "EXCEPTION 10: Invalid TSS Exception",
  "EXCEPTION 11: Segment Not Present",
  "EXCEPTION 12: Stack Fault Exception",
  "EXCEPTION 13: General Protection Exception",
  "EXCEPTION 14: Page Fault Exception",
  "EXCEPTION 15: Assertion Error",
  "EXCEPTION 16: FPU Floating-Point Error",
  "EXCEPTION 17: Alignment Check Exception",
  "EXCEPTION 18: Machine-Check Exception",
  "EXCEPTION 19: SIMD Floating-Point Exception"]

/-- The text `exception_handler` prints. -/
def exceptionText (num : Fin 20) : List UInt8 :=
  spaceAscii :: (exceptionLookup.getD num.val "").toUTF8.toList

/-- `halt` gives up the PCB. -/
def Kernel.vacate (p : ℤ) (k : Kernel) : Kernel :=
  k.setPcb p fun pcb => { pcb with saved := ⟨0, 0⟩, inUse := 0 }

/-- The statements of `exception_handler`, then those of `halt`. -/
inductive ExitStmt where
  | print (num : Fin 20)
  | raise
  | cache
  | test
  | clear
  | close (i : Fin 8)
  | leave
  deriving DecidableEq, Repr

/-- How a process ends: by `halt`, or by an exception. -/
structure Ending where
  exception : Option (Fin 20)
  /-- The argument of `halt`; after an exception, the byte it finds in its place. -/
  status : UInt8
  deriving DecidableEq, Repr

/-- What the parent's `execute` has to return. -/
def Ending.expected (e : Ending) : ℕ := if e.exception.isSome then exceptionRetVal else e.status.toNat

/-- An exit of process `pid`, with the locals of `halt`. -/
structure Exit where
  pid : ℤ
  ending : Ending
  frame : Regs
  value : ℕ
  next : ExitStmt
  deriving DecidableEq, Repr

def Exit.start (p : ℤ) (ending : Ending) : Exit where
  pid := p
  ending := ending
  frame := ⟨0, 0⟩
  value := 0
  next := (ending.exception.map ExitStmt.print).getD .cache

/-- A statement before the `cli` of `halt`. -/
def Exit.exec (x : Exit) (k : Kernel) : Option (Kernel × Exit) :=
  match x.next with
  | .print num =>
    (k.onConsole fun v => v.puts (exceptionText num)).map fun k => (k, { x with next := .raise })
  | .raise => some ({ k with exceptionInChild := true }, { x with next := .cache })
  | .cache => some (k, { x with frame := (k.pcbs x.pid).saved, next := .test })
  | .test =>
    if k.exceptionInChild then some (k, { x with value := exceptionRetVal, next := .clear })
    else some (k, { x with value := x.ending.status.toNat, next := .close 0 })
  | .clear => some ({ k with exceptionInChild := false }, { x with next := .close 0 })
  | .close i =>
    some (k.setPcb x.pid fun pcb => { pcb with fdArray := (sysClose pcb.fdArray i.val).2 },
      { x with next := if i = 7 then .leave else .close (i + 1) })
  | .leave => none

/-- A value returned by a parent's `execute`, in the frame `halt` loads. -/
structure Delivery where
  child : ℤ
  parent : ℤ
  frame : Regs
  ending : Ending
  value : ℕ
  deriving DecidableEq, Repr

structure Exits where
  kernel : Kernel
  pending : List Exit
  delivered : List Delivery

inductive ExitEvent where
  /-- A handler or a call other than `halt`. -/
  | kernel (e : Event)
  /-- The running process calls `halt`. -/
  | halt (status : UInt8)
  /-- The running process causes an exception. -/
  | fault (num : Fin 20) (status : UInt8)
  /-- The running exit goes on to its next statement. -/
  | run (f : CallFrame)

namespace Exits

def start (k : Kernel) : Exits := ⟨k, [], []⟩

def isRunning (m : Exits) (x : Exit) : Bool := m.kernel.currentPcb = some x.pid

def running (m : Exits) : Option Exit := m.pending.find? m.isRunning

def waiting (m : Exits) : List Exit := m.pending.eraseP m.isRunning

/-- Whether an event can happen. A process that exits makes no calls, and the shell of a first
switch would take over its stack. -/
def permits (m : Exits) : Event → Bool
  | .tick _ => true
  | .key _ => true
  | .clear => true
  | .switch target _ => m.running.isNone ∨ m.kernel.initializedTerminals target = true
  | .execute _ _ => m.running.isNone
  | .halt _ _ => false

/-- The running process begins to exit. -/
def begin (ending : Ending) (m : Exits) : Option Exits :=
  m.kernel.currentPcb.bind fun p =>
    if m.running.isNone then
      some { m with pending := .start p ending :: m.pending }
    else none

/-- `halt` from `cli` on: a base shell is replaced, any other process returns to its parent. -/
def leave (img : Image) (f : CallFrame) (x : Exit) (m : Exits) : Option Exits :=
  let k := m.kernel.vacate x.pid
  if (k.pcbs x.pid).processId < maxTerminals then
    ((k.relaunching x.pid).execute img f shellCommand).bind fun r =>
      r.2.map fun _ => { m with kernel := r.1, pending := m.waiting }
  else
    some {
      kernel := k.toParent x.pid
      pending := m.waiting
      delivered :=
        ⟨x.pid, (k.pcbs x.pid).parentProcessId, x.frame, x.ending, x.value⟩ :: m.delivered }

/-- The next statement of the exit that runs. -/
def exec (img : Image) (f : CallFrame) (x : Exit) (m : Exits) : Option Exits :=
  if x.next = .leave then m.leave img f x
  else (x.exec m.kernel).map fun r => { m with kernel := r.1, pending := r.2 :: m.waiting }

def step (img : Image) (m : Exits) : ExitEvent → Option Exits
  | .kernel e =>
    if m.permits e then (m.kernel.step img e).map fun k => { m with kernel := k } else none
  | .halt status => m.begin ⟨none, status⟩
  | .fault num status => m.begin ⟨some num, status⟩
  | .run f => m.running.bind fun x => m.exec img f x

end Exits

end HalOs
