import HalOs.Model.Events

/-!
# Processes in `terminal_read`

The kernel together with the calls of `terminal_read` that have not returned, one for each
terminal at most. A call runs statement by statement while its terminal is the scheduled one;
each statement looks up the active terminal again. A store or load past the keyboard buffer has
no next state.

Beside what the code stores, each byte of a keyboard buffer, and each byte copied from there,
carries the terminal that was active when it was typed; the newline that ends a line counts as
typed where Enter was pressed. Two lists record the calls that returned and the calls that
cleared an enter flag.
-/

namespace HalOs

/-- The statements of `terminal_read` in source order. -/
inductive ReadStmt where
  | savePrevChar
  | testEnter
  | testChanged
  | clearReset
  | testFull
  | testLastRow
  | testScheduled
  | shiftUp
  | lineUp
  | saveChar
  | saveTerminal
  | terminate
  | waitScheduled
  | echo
  | clearEnter
  | testWrapped
  | lineDown
  | home
  | addNewline
  | countNewline
  | testMore
  | copyByte
  | finish
  deriving DecidableEq, Repr

/-- `terminal_read` between two statements: its locals, the caller's buffer, and where the Enter
it has seen and the bytes in the buffer were typed. -/
structure Reader where
  next : ReadStmt
  lastTerminal : Fin 3
  prevCharInLine : ℕ
  shiftUpFlag : Bool
  i : ℕ
  buf : ℕ → UInt8
  entered : Option (Fin 3)
  source : ℕ → Option (Fin 3)

structure Readers where
  kernel : Kernel
  origin : Fin 3 → ℕ → Option (Fin 3)
  calls : Fin 3 → Option Reader
  /-- The reading terminal, and the terminal whose flag was cleared. -/
  cleared : List (Fin 3 × Fin 3)
  /-- The reading terminal, and the bytes returned to it with their origins. -/
  returned : List (Fin 3 × List (UInt8 × Option (Fin 3)))

inductive ReadEvent where
  | tick (r : Regs)
  | switch (target : Fin 3) (f : CallFrame)
  | key (c : UInt8)
  | clear
  /-- The process of the scheduled terminal calls `terminal_read` with a buffer. -/
  | call (buf : ℕ → UInt8)
  /-- The call of the scheduled terminal goes on to its next statement. -/
  | run

/-- `NUM_COLS - char_in_line`, as it is compared with an unsigned count. -/
def lineRoom (charInLine : ℕ) : ℕ := (((numCols : ℤ) - charInLine) % 2 ^ 32).toNat

namespace Readers

def start (k : Kernel) : Readers where
  kernel := k
  origin := fun _ _ => none
  calls := fun _ => none
  cleared := []
  returned := []

def setCall (r : Option Reader) (m : Readers) : Readers :=
  { m with calls := Function.update m.calls m.kernel.scheduledTerminal r }

/-- Assignments to the fields of the active terminal. -/
def assign (g : TerminalInfo → TerminalInfo) (m : Readers) : Readers :=
  { m with kernel := m.kernel.setTerminal m.kernel.activeTerminal g }

/-- A byte stored in the keyboard buffer of the active terminal. -/
def storeKey (i : ℕ) (b : UInt8) (o : Option (Fin 3)) (m : Readers) : Option Readers :=
  if i < maxBufferLength + 1 then
    let m := m.assign fun ti => { ti with keyboardBuffer := Function.update ti.keyboardBuffer i b }
    let active := m.kernel.activeTerminal
    some { m with origin := Function.update m.origin active (Function.update (m.origin active) i o) }
  else none

def onConsole (g : Console → Console) (m : Readers) : Option Readers :=
  (m.kernel.onConsole g).map fun k => { m with kernel := k }

/-- One statement of the call `r`. -/
def exec (r : Reader) (m : Readers) : Option Readers :=
  let active := m.kernel.activeTerminal
  let scheduled := m.kernel.scheduledTerminal
  let ti := m.kernel.terminals active
  let goto (next : ReadStmt) : Option Readers := some (m.setCall (some { r with next := next }))
  let andGoto (next : ReadStmt) (m : Readers) : Readers := m.setCall (some { r with next := next })
  match r.next with
  | .savePrevChar =>
    some (m.setCall (some { r with prevCharInLine := ti.charInLine, next := .testEnter }))
  | .testEnter =>
    if ti.enterFlag then
      some (m.setCall (some { r with entered := some active, next := .clearEnter }))
    else goto .testChanged
  | .testChanged =>
    if ti.currentChar ≠ ti.lastCurrentChar ∨ ti.resetFlag ∨ active ≠ r.lastTerminal then
      goto .clearReset
    else goto .testEnter
  | .clearReset => some (andGoto .testFull (m.assign fun ti => { ti with resetFlag := false }))
  | .testFull => goto (if lineRoom ti.charInLine ≤ ti.currentChar then .testLastRow else .saveChar)
  | .testLastRow =>
    goto (if ¬r.shiftUpFlag ∧ numRows - 1 ≤ ti.currentLine then .testScheduled else .saveChar)
  | .testScheduled => goto (if scheduled = active then .shiftUp else .lineUp)
  | .shiftUp => (m.onConsole fun v => v.shiftVideoMemUp 0 numRows).map (andGoto .lineUp)
  | .lineUp =>
    let m := m.assign fun ti => { ti with currentLine := (ti.currentLine + 255) % 256 }
    some (m.setCall (some { r with shiftUpFlag := true, next := .saveChar }))
  | .saveChar =>
    some (andGoto .saveTerminal (m.assign fun ti => { ti with lastCurrentChar := ti.currentChar }))
  | .saveTerminal => some (m.setCall (some { r with lastTerminal := active, next := .terminate }))
  | .terminate => (m.storeKey ti.currentChar 0 none).map (andGoto .waitScheduled)
  | .waitScheduled => goto (if scheduled = active then .echo else .waitScheduled)
  | .echo =>
    let text := (List.range (maxBufferLength + 1)).map ti.keyboardBuffer
    (m.onConsole fun v => (v.setCursor ti.charInLine ti.currentLine).puts text).map
      (andGoto .testEnter)
  | .clearEnter =>
    let m := m.assign fun ti => { ti with enterFlag := false }
    some (andGoto .testWrapped { m with cleared := (scheduled, active) :: m.cleared })
  | .testWrapped =>
    goto (if lineRoom r.prevCharInLine < ti.currentChar then .lineDown else .addNewline)
  | .lineDown =>
    some (andGoto .home
      (m.assign fun ti => { ti with currentLine := (ti.currentLine + 1) % 256 }))
  | .home => (m.onConsole fun v => v.setCursor 0 ti.currentLine).map (andGoto .addNewline)
  | .addNewline =>
    (m.storeKey ti.currentChar newlineAscii r.entered).map (andGoto .countNewline)
  | .countNewline =>
    some (andGoto .testMore (m.assign fun ti => { ti with currentChar := ti.currentChar + 1 }))
  | .testMore => goto (if r.i < ti.currentChar then .copyByte else .finish)
  | .copyByte =>
    some (m.setCall (some { r with
      buf := Function.update r.buf r.i (ti.keyboardBuffer r.i)
      source := Function.update r.source r.i (m.origin active r.i)
      i := r.i + 1
      next := .testMore }))
  | .finish =>
    let bytes := (List.range ti.currentChar).map fun j => (r.buf j, r.source j)
    some { m.setCall none with returned := (scheduled, bytes) :: m.returned }

/-- A call up to its first use of a terminal's fields. -/
def newReader (buf : ℕ → UInt8) (m : Readers) : Reader where
  next := .savePrevChar
  lastTerminal := m.kernel.activeTerminal
  prevCharInLine := 0
  shiftUpFlag := false
  i := 0
  buf := buf
  entered := none
  source := fun _ => none

/-- Where the bytes of the active terminal's buffer come from once a key has been handled. -/
def typed (c : UInt8) (m : Readers) : Fin 3 → ℕ → Option (Fin 3) :=
  let active := m.kernel.activeTerminal
  let ti := m.kernel.terminals active
  let set (i : ℕ) (o : Option (Fin 3)) :=
    Function.update m.origin active (Function.update (m.origin active) i o)
  if c = newlineAscii ∨ ti.enterFlag then m.origin
  else if c = backspaceAscii then set (ti.currentChar - 1) none
  else if maxBufferLength - 1 ≤ ti.currentChar then m.origin
  else set ti.currentChar (some active)

def step (img : Image) (m : Readers) : ReadEvent → Option Readers
  | .tick r => (m.kernel.pitHandler r).map fun k => { m with kernel := k }
  | .switch target f => (m.kernel.terminalSwitch img f target).map fun k => { m with kernel := k }
  | .key c => (m.kernel.updateKbBuffer c).map fun k => { m with kernel := k, origin := m.typed c }
  | .clear => m.kernel.clearTerminal.map fun k => { m with kernel := k }
  | .call buf =>
    if (m.calls m.kernel.scheduledTerminal).isNone then some (m.setCall (some (m.newReader buf)))
    else none
  | .run => (m.calls m.kernel.scheduledTerminal).bind fun r => m.exec r

end Readers

end HalOs
