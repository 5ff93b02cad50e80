import HalOs.Model.Descriptors

/-!
# The scheduler and the screen switch

`scheduler`, the handler of the programmable interval timer, and the part of
`terminal_switch` that moves the screens.
-/

namespace HalOs

namespace Kernel

/-- The loop of `scheduler` that looks for the next initialised terminal. -/
def nextScheduled (k : Kernel) : Option (Fin 3) :=
  Loops.search k.initializedTerminals 3 (k.scheduledTerminal + 1)

/-- What `scheduler` stores before it picks a terminal: the running context in the PCB of the
current process `p`, and the live cursor in the scheduled terminal. -/
def saveContext (r : Regs) (p : ℤ) (k : Kernel) : Kernel :=
  (k.setPcb p fun pcb => { pcb with scheduling := r }).setTerminal k.scheduledTerminal
    fun ti => { ti with terminalScreenX := k.screenX, terminalScreenY := k.screenY }

/-- The rest of `scheduler`, once the next terminal is known. -/
def switchTo (next : Fin 3) (k : Kernel) : Kernel :=
  let pid := (k.terminals next).activePid
  { k with
    scheduledTerminal := next
    currentPcb := some pid
    tssEsp0 := kernelStack (k.pcbs pid).processId
    paging := (k.paging.mapUser (k.pcbs pid).processId).mapVideo
      (videoAddress k.activeTerminal next)
    screenX := (k.terminals next).terminalScreenX % 256
    screenY := (k.terminals next).terminalScreenY % 256 }

def resetFirstSwap (k : Kernel) : Kernel :=
  if k.firstSwap then { k with scheduledTerminal := 0, firstSwap := false } else k

/-- `scheduler`, run on behalf of the interrupted context `r`. The pair it loads at its end is
the one in the PCB it makes current. -/
def scheduler (r : Regs) (k : Kernel) : Option Kernel :=
  k.currentPcb.bind fun p =>
    let saved := k.resetFirstSwap.saveContext r p
    saved.nextScheduled.map fun next => saved.switchTo next

/-- `pit_handler`; the addresses of the two arrays it also tests are never null. -/
def pitHandler (r : Regs) (k : Kernel) : Option Kernel :=
  if k.currentPcb.isSome then k.scheduler r else some k

/-- Ticks until the PCB `owner` is current again. The processes that run meanwhile are
interrupted at the contexts they were resumed in. -/
def resumeIn (owner : ℤ) : ℕ → Kernel → Option Kernel
  | 0, _ => none
  | n + 1, k =>
    if k.currentPcb = some owner then some k
    else (k.currentPcb.bind fun p => k.scheduler (k.pcbs p).scheduling).bind (resumeIn owner n)

/-- The running context is interrupted by a tick and gets the processor back: at once when
the handler finds no current process, and otherwise when the PCB it was saved in is current
again. Three ticks visit every terminal, so a context not resumed by then never is. -/
def preempt (r : Regs) (k : Kernel) : Option Kernel :=
  match k.currentPcb with
  | none => some k
  | some owner => (k.scheduler r).bind (resumeIn owner 3)

/-- `memcpy` of a whole page between two pages of the first 4 MB. -/
def memcpyPage (dest src : ℕ) (k : Kernel) : Kernel :=
  { k with
    mem := k.mem.copyPage (k.paging.tableArray dest).offset_31_12
      (k.paging.tableArray src).offset_31_12 }

/-- `terminal_switch` up to the test for a first switch. -/
def switchScreens (target : Fin 3) (k : Kernel) : Kernel :=
  let k := if k.activeTerminal ≠ k.scheduledTerminal then k.mapVideo video else k
  let k := k.memcpyPage (terminalVidPage + k.activeTerminal.val) videoMemoryPage
  let k := k.memcpyPage videoMemoryPage (terminalVidPage + target.val)
  let k := if target ≠ k.scheduledTerminal then
      k.mapVideo (terminalVideo + align4kb * k.scheduledTerminal.val) else k
  { k with activeTerminal := target }

end Kernel

end HalOs
