import HalOs.Model.Filesystem

/-!
# The kernel state

Terminals, process control blocks and the globals the handlers and system calls share. A
PCB is found by the process id its address stands for. An operation that does not complete
(a loop without an exit, a fault inside the kernel) has no next state.
-/

namespace HalOs

abbrev maxTerminals : ℕ := 3
abbrev fdArrayLength : ℕ := 8
abbrev numPids : ℕ := 6
abbrev maxBufferLength : ℕ := 128

/-! The literals of terminals and descriptors all find the same two facts. -/

instance maxTerminals_neZero : NeZero 3 := ⟨by decide⟩

instance fdArrayLength_neZero : NeZero 8 := ⟨by decide⟩

/-- `terminal_info_t`. The 8-bit counters are kept below 256 by every assignment. -/
structure TerminalInfo where
  keyboardBuffer : ℕ → UInt8
  currentChar : ℕ
  enterFlag : Bool
  currentLine : ℕ
  resetFlag : Bool
  charInLine : ℕ
  lastCurrentChar : ℕ
  terminalScreenX : ℕ
  terminalScreenY : ℕ
  activePid : ℤ

/-- The four tables of file operations. -/
inductive OpTable where
  | terminal
  | rtc
  | directory
  | file
  deriving DecidableEq, Repr

/-- `fd_element_t`. -/
structure FdElement where
  fileOpTablePtr : Option OpTable
  inodeNum : UInt32
  filePosition : UInt32
  flags : UInt32
  deriving DecidableEq, Repr

abbrev FdTable := Fin 8 → FdElement

def emptyFd : FdElement := ⟨none, 0, 0, 0⟩

/-- A stored pair of EBP and ESP. -/
structure Regs where
  ebp : ℕ
  esp : ℕ
  deriving DecidableEq, Repr

/-- `pcb_t`; `saved` is the pair `ebp_val`, `esp_val` and `scheduling` the pair
`scheduling_ebp_val`, `scheduling_esp_val`. -/
structure Pcb where
  fdArray : FdTable
  processId : ℤ
  parentProcessId : ℤ
  saved : Regs
  inUse : ℕ
  arg : ℕ → UInt8
  scheduling : Regs

structure Kernel where
  mem : Memory
  paging : Paging
  screenX : ℕ
  screenY : ℕ
  terminals : Fin 3 → TerminalInfo
  activeTerminal : Fin 3
  scheduledTerminal : Fin 3
  initializedTerminals : Fin 3 → Bool
  firstSwap : Bool
  currentPcb : Option ℤ
  pcbs : ℤ → Pcb
  tssEsp0 : ℤ
  exceptionInChild : Bool

namespace Kernel

def setTerminal (t : Fin 3) (f : TerminalInfo → TerminalInfo) (k : Kernel) : Kernel :=
  { k with terminals := Function.update k.terminals t (f (k.terminals t)) }

def setPcb (pid : ℤ) (f : Pcb → Pcb) (k : Kernel) : Kernel :=
  { k with pcbs := Function.update k.pcbs pid (f (k.pcbs pid)) }

/-- The page `addr` names becomes the screen that output goes to. -/
def mapVideo (addr : ℕ) (k : Kernel) : Kernel := { k with paging := k.paging.mapVideo addr }

/-- The kernel stack of a process, as `tss.esp0` names it. -/
def kernelStack (pid : ℤ) : ℤ := eightMb - eightKb * pid - 4

/-- Where the output of the scheduled terminal belongs. -/
def videoAddress (active scheduled : Fin 3) : ℕ :=
  if scheduled = active then video else terminalVideo + align4kb * scheduled.val

/-- The console as the running code sees it: the page behind `video_mem` and the live cursor. -/
def console (k : Kernel) : Console where
  screenX := k.screenX
  screenY := k.screenY
  videoMem := k.mem.page k.paging.videoFrame
  stores := []

/-- Runs console code. A store past the mapped page faults. -/
def onConsole (f : Console → Console) (k : Kernel) : Option Kernel :=
  let v := f k.console
  if v.stores.all (· < align4kb) then
    some { k with
      mem := k.mem.setPage k.paging.videoFrame v.videoMem
      screenX := v.screenX
      screenY := v.screenY }
  else none

end Kernel

end HalOs
