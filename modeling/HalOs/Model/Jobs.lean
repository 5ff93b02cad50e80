import HalOs.Model.Exits

/-!
# Preemption at every statement

The kernel from the moment `entry` enables interrupts, together with the runs of `execute`,
`halt` and `terminal_switch` that have not ended. Each goes on statement by statement, and only
while the PCB its context is saved in is the current one. A tick is a whole run of
`pit_handler`, possible before every statement. The keyboard handler can start a switch on top
of any context, and runs with it on the kernel stack of that context.
-/

namespace HalOs

/-- The statements of `terminal_switch` after its first test. -/
inductive SwitchStmt where
  | testMapped
  | unmapTable
  | unmapVmem
  | copyOut
  | copyIn
  | testScheduled
  | remapTable
  | remapVmem
  | setActive
  | testFirst
  deriving DecidableEq, Repr

/-- What a handler or system call has still to do. -/
inductive Work where
  | switching (target : Fin 3) (next : SwitchStmt)
  /-- `execute` of an accepted program, up to the choice of the process id; whether it is the
  one a base shell ends in. -/
  | choosing (program : Program) (regs : Regs) (relaunch : Bool)
  /-- `execute` from the choice on. -/
  | starting (a : Activation) (rest : List Stmt) (first : Bool)
  | exiting (x : Exit)
  /-- The last instructions of `halt`, which load the frame of the parent's `execute`. -/
  | loading (frame : Regs)

/-- A run in progress: the PCB that holds its context, and the process whose kernel stack it is
on; the boot stack is the one of process 0. -/
structure Job where
  holder : Option ℤ
  stack : ℤ
  work : Work

structure Jobs where
  kernel : Kernel
  jobs : List Job
  /-- The processes that have been started and not ended. -/
  live : List ℤ
  /-- `entry` has not come to its call of `execute`, and can. -/
  booting : Bool

inductive JobEvent where
  | tick (r : Regs)
  /-- Alt and a function key. -/
  | switch (target : Fin 3)
  /-- `entry` calls `execute`. -/
  | entry (f : CallFrame)
  /-- The running process calls `execute`, calls `halt`, or causes an exception. -/
  | execute (f : CallFrame) (command : List UInt8)
  | halt (status : UInt8)
  | fault (num : Fin 20) (status : UInt8)
  /-- The running job goes on to its next statement. -/
  | run (f : CallFrame)

/-- The effect of a statement of `terminal_switch`, and the next one if there is one left. -/
def SwitchStmt.exec (target : Fin 3) (k : Kernel) : SwitchStmt → Kernel × Option SwitchStmt
  | .testMapped => (k, some (if k.activeTerminal ≠ k.scheduledTerminal then .unmapTable else .copyOut))
  | .unmapTable => ({ k with paging := k.paging.mapTable video }, some .unmapVmem)
  | .unmapVmem => ({ k with paging := k.paging.mapVmem video }, some .copyOut)
  | .copyOut =>
    (k.memcpyPage (terminalVidPage + k.activeTerminal.val) videoMemoryPage, some .copyIn)
  | .copyIn => (k.memcpyPage videoMemoryPage (terminalVidPage + target.val), some .testScheduled)
  | .testScheduled => (k, some (if target ≠ k.scheduledTerminal then .remapTable else .setActive))
  | .remapTable =>
    ({ k with paging := k.paging.mapTable (terminalVideo + align4kb * k.scheduledTerminal.val) },
      some .remapVmem)
  | .remapVmem =>
    ({ k with paging := k.paging.mapVmem (terminalVideo + align4kb * k.scheduledTerminal.val) },
      some .setActive)
  | .setActive => ({ k with activeTerminal := target }, some .testFirst)
  | .testFirst => (k, none)

namespace Jobs

/-- The kernel when `entry` enables interrupts. -/
def start (k : Kernel) : Jobs := ⟨k, [], [], true⟩

def isRunning (m : Jobs) (j : Job) : Bool := j.holder = m.kernel.currentPcb

/-- The job that runs: of those in the running context, the last one begun. -/
def running (m : Jobs) : Option Job := m.jobs.find? m.isRunning

def waiting (m : Jobs) : List Job := m.jobs.eraseP m.isRunning

/-- The process whose kernel stack the running context is on, or enters at the next interrupt. -/
def stack (m : Jobs) : ℤ :=
  match m.running with
  | some j => j.stack
  | none => (eightMb - m.kernel.tssEsp0) / eightKb

/-- The running context is the process `p`, in user mode. -/
def InUser (m : Jobs) (p : ℤ) : Prop :=
  m.kernel.currentPcb = some p ∧ p ∈ m.live ∧ m.running.isNone

instance (m : Jobs) (p : ℤ) : Decidable (m.InUser p) := by
  unfold InUser
  infer_instance

/-- The running context begins a job. -/
def begin (work : Work) (m : Jobs) : Jobs :=
  { m with jobs := ⟨m.kernel.currentPcb, m.stack, work⟩ :: m.jobs }

/-- The running job has more to do. -/
def goOn (j : Job) (work : Work) (k : Kernel) (m : Jobs) : Jobs :=
  { m with kernel := k, jobs := { j with holder := k.currentPcb, work := work } :: m.waiting }

/-- The running job has ended. -/
def finish (k : Kernel) (m : Jobs) : Jobs := { m with kernel := k, jobs := m.waiting }

/-- `execute` up to the choice of the process id. -/
def call (img : Image) (f : CallFrame) (command : List UInt8) (m : Jobs) : Option Jobs :=
  (checkProgram img f.header command).map fun accepted =>
    match accepted with
    | some program => m.begin (.choosing program f.regs false)
    | none => m

/-- The choice of the process id. A shell the keyboard starts before `entry` has called
`execute` never returns to it; a base shell that cannot be replaced faults. -/
def choose (j : Job) (program : Program) (regs : Regs) (relaunch : Bool) (m : Jobs) :
    Option Jobs :=
  match m.kernel.choosePid with
  | some pid =>
    let a : Activation := ⟨program, pid, regs⟩
    some { m.goOn j (.starting a a.body false) m.kernel with
      live := pid :: m.live, booting := false }
  | none => if relaunch then none else some (m.finish m.kernel)

/-- A statement of `execute` after the choice. After the last one the new process is in user
mode. -/
def advance (j : Job) (a : Activation) (rest : List Stmt) (first : Bool) (m : Jobs) : Option Jobs :=
  match rest with
  | [] => none
  | s :: rest =>
    (a.exec s ⟨m.kernel, first⟩).map fun x =>
      if rest = [] then m.finish x.kernel else m.goOn j (.starting a rest x.first) x.kernel

/-- A statement of `terminal_switch`. The shell of a first switch is started by the last. -/
def switchOn (img : Image) (f : CallFrame) (j : Job) (target : Fin 3) (s : SwitchStmt) (m : Jobs) :
    Option Jobs :=
  match s.exec target m.kernel with
  | (k, some next) => some (m.goOn j (.switching target next) k)
  | (k, none) =>
    if k.initializedTerminals k.activeTerminal then some (m.finish k)
    else (checkProgram img f.header shellCommand).map fun accepted =>
      match accepted with
      | some program => m.goOn j (.choosing program f.regs false) k
      | none => m.finish k

/-- `halt` from `cli` to `sti`. When the shell that replaces a base shell is not accepted, the
code goes on with a null current PCB and faults. -/
def leave (img : Image) (f : CallFrame) (j : Job) (x : Exit) (m : Jobs) : Option Jobs :=
  let k := m.kernel.vacate x.pid
  let m := { m with live := m.live.erase x.pid }
  if (k.pcbs x.pid).processId < maxTerminals then
    (checkProgram img f.header shellCommand).bind fun accepted =>
      accepted.map fun program => m.goOn j (.choosing program f.regs true) (k.relaunching x.pid)
  else some (m.goOn j (.loading x.frame) (k.toParent x.pid))

def runJob (img : Image) (f : CallFrame) (j : Job) (m : Jobs) : Option Jobs :=
  match j.work with
  | .switching target s => m.switchOn img f j target s
  | .choosing program regs relaunch => m.choose j program regs relaunch
  | .starting a rest first => m.advance j a rest first
  | .exiting x =>
    if x.next = .leave then m.leave img f j x
    else (x.exec m.kernel).map fun r => m.goOn j (.exiting r.2) r.1
  | .loading _ => some (m.finish m.kernel)

def step (img : Image) (m : Jobs) : JobEvent → Option Jobs
  | .tick r => (m.kernel.pitHandler r).map fun k => { m with kernel := k }
  | .switch target =>
    if m.kernel.activeTerminal = target then some m
    else some (m.begin (.switching target .testMapped))
  | .entry f =>
    if m.booting ∧ m.kernel.currentPcb = none ∧ m.running = none then
      { m with booting := false }.call img f shellCommand
    else none
  | .execute f command =>
    if ∃ p ∈ m.live, m.InUser p then m.call img f command else none
  | .halt status =>
    m.kernel.currentPcb.bind fun p =>
      if m.InUser p then some (m.begin (.exiting (.start p ⟨none, status⟩))) else none
  | .fault num status =>
    m.kernel.currentPcb.bind fun p =>
      if m.InUser p then some (m.begin (.exiting (.start p ⟨some num, status⟩))) else none
  | .run f => m.running.bind fun j => m.runJob img f j

end Jobs

/-! ### Who has run where -/

/-- A pair the scheduler has stored in a PCB: when, on which kernel stack, and the pair. -/
structure SavedContext where
  time : ℕ
  stack : ℤ
  regs : Regs
  deriving DecidableEq, Repr

/-- The jobs with what the code does not record: for each kernel stack when code last ran on
it, and for each PCB the pair stored last. -/
structure Traced where
  jobs : Jobs
  clock : ℕ
  lastRun : ℤ → ℕ
  saved : ℤ → Option SavedContext

namespace Traced

def start (k : Kernel) : Traced := ⟨.start k, 0, fun _ => 0, fun _ => none⟩

/-- What the PCBs hold after an event: a tick that reaches `scheduler` stores a pair in the
current one. -/
def storedBy (t : Traced) : JobEvent → ℤ → Option SavedContext
  | .tick r =>
    match t.jobs.kernel.currentPcb with
    | some p => Function.update t.saved p (some ⟨t.clock + 1, t.jobs.stack, r⟩)
    | none => t.saved
  | _ => t.saved

def step (img : Image) (t : Traced) (e : JobEvent) : Option Traced :=
  (t.jobs.step img e).map fun jobs =>
    { jobs := jobs
      clock := t.clock + 1
      lastRun := Function.update t.lastRun t.jobs.stack (t.clock + 1)
      saved := t.storedBy e }

end Traced

end HalOs
