import HalOs.Model.Events

/-!
# Calls of `execute` in progress

The kernel together with the calls of `execute` that have not returned. A call runs statement
by statement, and only while the PCB that holds its context is the current one: a tick changes
which call that is. The keyboard handler can start a call on top of any context. `halt` runs to
completion; the relaunch of a base shell it ends in is a call like any other, made while no
process is current. It is accepted and gets its process id within the event of the halt: a tick
that comes before finds no current PCB and does nothing, and a key that comes before has no place
here.

Two lists record what the code does not: every process id given out, and to whom, and the ids
of the processes that have been started and not halted.
-/

namespace HalOs

/-- For whom `execute` is called: a process, or the kernel that starts the base shell of a
terminal. -/
inductive Caller where
  | process
  | shell (t : Fin 3)
  deriving DecidableEq, Repr

/-- A call of `execute` whose program has been accepted. Before its process id is chosen it
has no statements left to run but the choice. -/
structure Call where
  caller : Caller
  holder : Option ℤ
  program : Program
  regs : Regs
  chosen : Option ℤ
  rest : List Stmt
  first : Bool

def Call.activation (c : Call) (pid : ℤ) : Activation := ⟨c.program, pid, c.regs⟩

structure Machine where
  kernel : Kernel
  calls : List Call
  given : List (ℤ × Caller)
  live : List ℤ

inductive Move where
  | tick (r : Regs)
  | switch (target : Fin 3) (f : CallFrame)
  /-- The running process calls `execute`. -/
  | call (f : CallFrame) (command : List UInt8)
  /-- The running call goes on to its next statement. -/
  | run
  | halt (f : CallFrame)

namespace Machine

/-- The kernel when the first shell runs. -/
def start (k : Kernel) : Machine where
  kernel := k
  calls := []
  given := [(0, .shell 0)]
  live := [0]

/-- The context that runs is the one the current PCB holds. -/
def isRunning (m : Machine) (c : Call) : Bool := c.holder = m.kernel.currentPcb

/-- The call that runs: of those in the running context, the last one made. -/
def running (m : Machine) : Option Call := m.calls.find? m.isRunning

def waiting (m : Machine) : List Call := m.calls.eraseP m.isRunning

/-- The running context is process `p`, in user mode. -/
def InUser (m : Machine) (p : ℤ) : Prop :=
  m.kernel.currentPcb = some p ∧ p ∈ m.live ∧
    ∀ c ∈ m.calls, c.holder ≠ some p ∧ c.chosen ≠ some p

instance (m : Machine) (p : ℤ) : Decidable (m.InUser p) := by
  unfold InUser
  infer_instance

def newCall (caller : Caller) (program : Program) (f : CallFrame) (m : Machine) : Call :=
  ⟨caller, m.kernel.currentPcb, program, f.regs, none, [], false⟩

/-- A call of `execute` by the running context, up to the choice of the process id. -/
def call (img : Image) (caller : Caller) (f : CallFrame) (command : List UInt8) (m : Machine) :
    Option Machine :=
  (checkProgram img f.header command).map fun accepted =>
    match accepted with
    | some program => { m with calls := m.newCall caller program f :: m.calls }
    | none => m

/-- The process id `pid` is given to the call. -/
def give (c : Call) (pid : ℤ) (m : Machine) : Machine :=
  { m with
    calls := { c with chosen := some pid, rest := (c.activation pid).body } :: m.calls
    given := (pid, c.caller) :: m.given
    live := pid :: m.live }

/-- The choice of the process id. -/
def choose (c : Call) (m : Machine) : Machine :=
  let m := { m with calls := m.waiting }
  match m.kernel.choosePid with
  | some pid => m.give c pid
  | none => m

/-- A statement after the choice. After its last one the call has jumped to user mode. -/
def advance (c : Call) (pid : ℤ) (m : Machine) : Option Machine :=
  match c.rest with
  | [] => none
  | s :: rest =>
    ((c.activation pid).exec s ⟨m.kernel, c.first⟩).map fun x =>
      let c := { c with holder := x.kernel.currentPcb, rest := rest, first := x.first }
      { m with kernel := x.kernel, calls := if rest = [] then m.waiting else c :: m.waiting }

def run (m : Machine) : Option Machine :=
  m.running.bind fun c =>
    match c.chosen with
    | none => some (m.choose c)
    | some pid => m.advance c pid

/-- `terminal_switch`, which ends in a call the first time. -/
def switch (img : Image) (f : CallFrame) (target : Fin 3) (m : Machine) : Option Machine :=
  if m.kernel.activeTerminal = target then some m
  else
    let m := { m with kernel := m.kernel.switchScreens target }
    if m.kernel.initializedTerminals target then some m
    else m.call img (.shell target) f shellCommand

/-- `halt` by the running process. The shell that replaces a base shell is accepted and given its
process id in the same event, although a tick can come between; when it is not accepted or gets
no process id, the code goes on with a null current PCB and faults. -/
def halt (img : Image) (f : CallFrame) (m : Machine) : Option Machine :=
  m.kernel.currentPcb.bind fun p =>
    if m.InUser p then
      let k := m.kernel.release p
      let m := { m with live := m.live.erase p }
      if (k.pcbs p).processId < maxTerminals then
        let m := { m with kernel := k.relaunching p }
        let shell := Caller.shell (Fin.ofNat 3 (k.pcbs p).processId.toNat)
        (checkProgram img f.header shellCommand).bind fun accepted =>
          accepted.bind fun program =>
            m.kernel.choosePid.map fun pid => m.give (m.newCall shell program f) pid
      else some { m with kernel := k.toParent p }
    else none

def step (img : Image) (m : Machine) : Move → Option Machine
  | .tick r => (m.kernel.pitHandler r).map fun k => { m with kernel := k }
  | .switch target f => m.switch img f target
  | .call f command =>
    if ∃ p ∈ m.live, m.InUser p then m.call img .process f command else none
  | .run => m.run
  | .halt f => m.halt img f

end Machine

end HalOs
