import HalOs.Model.Process

/-!
# The scheduler, statement by statement

`scheduler` runs with interrupts enabled once its own has been acknowledged, so the keyboard
handler can run a whole `terminal_switch` between any two of its statements.
-/

namespace HalOs

/-- The statements of `scheduler`. The loop that looks for the next terminal is one of them,
since it changes a local only, and flushing the TLB is none. -/
inductive SchedStmt where
  | resetScheduled
  | clearFirst
  | saveEsp
  | saveEbp
  | saveX
  | saveY
  | findNext
  | setScheduled
  | setCurrent
  | setEsp0
  | setPage
  | testActive
  | mapTable
  | mapVmem
  | setCursor
  | load
  deriving DecidableEq, Repr

/-- `scheduler` between two statements: the kernel, the next terminal, and the outcome of the
test for the active one. -/
structure Scheduling where
  kernel : Kernel
  next : Fin 3
  onScreen : Bool

namespace Scheduling

def exec (r : Regs) (s : SchedStmt) (x : Scheduling) : Option Scheduling :=
  let k := x.kernel
  let goOn (k : Kernel) : Option Scheduling := some { x with kernel := k }
  let ofCurrent (f : ℤ → Kernel) : Option Scheduling := k.currentPcb.bind fun p => goOn (f p)
  let screen (g : TerminalInfo → TerminalInfo) : Option Scheduling :=
    goOn (k.setTerminal k.scheduledTerminal g)
  let address : ℕ :=
    if x.onScreen then video else terminalVideo + align4kb * k.scheduledTerminal.val
  match s with
  | .resetScheduled => goOn (if k.firstSwap then { k with scheduledTerminal := 0 } else k)
  | .clearFirst => goOn { k with firstSwap := false }
  | .saveEsp => ofCurrent fun p => k.setPcb p fun pcb =>
    { pcb with scheduling := { pcb.scheduling with esp := r.esp } }
  | .saveEbp => ofCurrent fun p => k.setPcb p fun pcb =>
    { pcb with scheduling := { pcb.scheduling with ebp := r.ebp } }
  | .saveX => screen fun ti => { ti with terminalScreenX := k.screenX }
  | .saveY => screen fun ti => { ti with terminalScreenY := k.screenY }
  | .findNext => k.nextScheduled.map fun next => { x with next := next }
  | .setScheduled => goOn { k with scheduledTerminal := x.next }
  | .setCurrent => goOn { k with currentPcb := some (k.terminals k.scheduledTerminal).activePid }
  | .setEsp0 => ofCurrent fun p => { k with tssEsp0 := Kernel.kernelStack (k.pcbs p).processId }
  | .setPage => ofCurrent fun p => { k with paging := k.paging.mapUser (k.pcbs p).processId }
  | .testActive => some { x with onScreen := k.scheduledTerminal = k.activeTerminal }
  | .mapTable => goOn { k with paging := k.paging.mapTable address }
  | .mapVmem => goOn { k with paging := k.paging.mapVmem address }
  | .setCursor =>
    let ti := k.terminals k.scheduledTerminal
    goOn { k with screenX := ti.terminalScreenX % 256, screenY := ti.terminalScreenY % 256 }
  | .load => some x

def body : List SchedStmt :=
  [.resetScheduled, .clearFirst, .saveEsp, .saveEbp, .saveX, .saveY, .findNext, .setScheduled,
    .setCurrent, .setEsp0, .setPage, .testActive, .mapTable, .mapVmem, .setCursor, .load]

def run (r : Regs) : List SchedStmt → Scheduling → Option Scheduling :=
  Loops.runUnder (fun _ x => some x) (exec r)

/-- `scheduler` with a switch after its first `i` statements. -/
def interrupted (img : Image) (f : CallFrame) (r : Regs) (i : ℕ) (target : Fin 3) (k : Kernel) :
    Option Kernel :=
  (run r (body.take i) ⟨k, 0, false⟩).bind fun x =>
    (x.kernel.terminalSwitch img f target).bind fun k =>
      (run r (body.drop i) { x with kernel := k }).map Scheduling.kernel

end Scheduling

end HalOs
