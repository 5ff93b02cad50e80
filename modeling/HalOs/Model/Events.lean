import HalOs.Model.Terminal

/-!
# Handlers and system calls as atomic events

The kernel as a system whose events are whole runs of a handler or of a system call. Each
event carries what comes from outside: the stack of the interrupted or calling context, the
key, the command.
-/

namespace HalOs

inductive Event where
  /-- A tick of the interval timer. -/
  | tick (r : Regs)
  /-- Alt and a function key. -/
  | switch (target : Fin 3) (f : CallFrame)
  /-- A character from the keyboard. -/
  | key (c : UInt8)
  /-- Control and L. -/
  | clear
  | execute (f : CallFrame) (command : List UInt8)
  | halt (f : CallFrame) (status : UInt8)

namespace Kernel

def step (img : Image) (k : Kernel) : Event → Option Kernel
  | .tick r => k.pitHandler r
  | .switch target f => k.terminalSwitch img f target
  | .key c => k.updateKbBuffer c
  | .clear => k.clearTerminal
  | .execute f command => (k.execute img f command).map Prod.fst
  | .halt f status => (k.halt img f status).map Halted.kernel

/-- A terminal as the zeroed data segment leaves it. -/
def blankTerminal : TerminalInfo where
  keyboardBuffer := fun _ => 0
  currentChar := 0
  enterFlag := false
  currentLine := 0
  resetFlag := false
  charInLine := 0
  lastCurrentChar := 0
  terminalScreenX := 0
  terminalScreenY := 0
  activePid := 0

def blankPcb : Pcb where
  fdArray := fun _ => emptyFd
  processId := 0
  parentProcessId := 0
  saved := ⟨0, 0⟩
  inUse := 0
  arg := fun _ => 0
  scheduling := ⟨0, 0⟩

/-- The kernel when `entry` enables interrupts, just after `init_paging`: no process and no
terminal initialised. The PCBs lie in zeroed memory; the rest of it, and the cursor the boot
messages have left, can be anything. -/
def boot (frames : TableFrames) (mem : Memory) (x y : ℕ) : Kernel where
  mem := mem
  paging := initPaging frames
  screenX := x
  screenY := y
  terminals := fun _ => blankTerminal
  activeTerminal := 0
  scheduledTerminal := 0
  initializedTerminals := fun _ => false
  firstSwap := true
  currentPcb := none
  pcbs := fun _ => blankPcb
  tssEsp0 := eightMb
  exceptionInChild := false

end Kernel

/-! ### An image to start shells from -/

/-- The smallest image `execute` accepts a shell from: one regular file of one header. -/
def shellImage : Image where
  numDentries := 1
  numInodes := 1
  numDataBlocks := 1
  bootDentries := fun _ => ⟨fun i => byteAt shellCommand i.val, 2, 0⟩
  inodes := fun _ => ⟨28, fun _ => 0⟩
  dataBlocks := fun _ j => byteAt magicNumber j

def shellProgram : Program where
  entryPoint := 0
  arg := []
  copyArg := true
  bytes := magicNumber ++ List.replicate 24 0

lemma checkProgram_shellImage :
    checkProgram shellImage (fun _ => 0) shellCommand = some (some shellProgram) := by
  decide +kernel

/-- A caller with nothing on its stack. -/
def bareFrame : CallFrame := ⟨⟨0, 0⟩, fun _ => 0, ⟨0, 0⟩⟩

end HalOs
