import HalOs.Model.Readers
import HalOs.Model.UserCalls

/-!
# One terminal and its line

Key events, `terminal_read` and `terminal_write` on a terminal that is both active and
scheduled, as they act on its keyboard buffer. A read is an event when it completes; until
then it passes through its loop.
-/

namespace HalOs

/-- The fields of `terminal_info_t` that decide what is typed and read. -/
structure Line where
  keyboardBuffer : ℕ → UInt8
  currentChar : ℕ
  enterFlag : Bool
  lastCurrentChar : ℕ
  resetFlag : Bool

def TerminalInfo.line (ti : TerminalInfo) : Line :=
  ⟨ti.keyboardBuffer, ti.currentChar, ti.enterFlag, ti.lastCurrentChar, ti.resetFlag⟩

inductive LineEvent where
  | key (c : UInt8)
  /-- Control and L. -/
  | clear
  /-- A waiting read goes through its loop once. -/
  | pass
  | read
  | write (nbytes : ℤ)
  deriving DecidableEq, Repr

namespace Line

/-- `update_kb_buffer`. -/
def typeKey (c : UInt8) (l : Line) : Line :=
  if c = newlineAscii ∨ l.enterFlag then { l with enterFlag := true }
  else if c = backspaceAscii then
    { l with
      currentChar := l.currentChar - 1
      keyboardBuffer := Function.update l.keyboardBuffer (l.currentChar - 1) 0 }
  else if maxBufferLength - 1 ≤ l.currentChar then l
  else
    { l with
      keyboardBuffer := Function.update l.keyboardBuffer l.currentChar c
      currentChar := l.currentChar + 1 }

/-- A pass of the loop of `terminal_read`. -/
def waitPass (l : Line) : Line :=
  if l.currentChar ≠ l.lastCurrentChar ∨ l.resetFlag then
    { l with
      resetFlag := false
      lastCurrentChar := l.currentChar
      keyboardBuffer := Function.update l.keyboardBuffer l.currentChar 0 }
  else l

/-- The end of `terminal_read`, after its loop. -/
def takeLine (l : Line) : Line :=
  { l with
    enterFlag := false
    keyboardBuffer := Function.update l.keyboardBuffer l.currentChar newlineAscii
    currentChar := l.currentChar + 1 }

/-- The bytes the end of `terminal_read` copies to the caller; it returns their number. -/
def bytesTaken (l : Line) : List UInt8 :=
  (List.range l.takeLine.currentChar).map l.takeLine.keyboardBuffer

/-- `terminal_write`. -/
def writeOver (nbytes : ℤ) (l : Line) : Line :=
  if maxInputBufLen < nbytes then l
  else
    { l with
      keyboardBuffer := fun i => if i < maxBufferLength then 0 else l.keyboardBuffer i
      currentChar := 0 }

def step (l : Line) : LineEvent → Option Line
  | .key c => some (l.typeKey c)
  | .clear => some { l with resetFlag := true }
  | .pass => if l.enterFlag then none else some l.waitPass
  | .read => if l.enterFlag then some l.takeLine else none
  | .write nbytes => some (l.writeOver nbytes)

/-- Where `update_kb_buffer` and `terminal_read` store in the keyboard buffer. -/
def stores (l : Line) : LineEvent → List ℕ
  | .key c =>
    if c = newlineAscii ∨ l.enterFlag then []
    else if c = backspaceAscii then [l.currentChar - 1]
    else if maxBufferLength - 1 ≤ l.currentChar then []
    else [l.currentChar]
  | .pass => if l.currentChar ≠ l.lastCurrentChar ∨ l.resetFlag then [l.currentChar] else []
  | .read => [l.currentChar]
  | .clear => []
  | .write _ => []

def blank : Line := Kernel.blankTerminal.line

end Line

/-! ### Reads of any kind -/

namespace ReadCall

/-- A call of the read entry of an op table: a terminal read that ends when the line is `l`,
with a buffer that held `old`. -/
def handled (img : Image) (l : Line) (old : ℕ → UInt8) (c : ReadCall) :
    OpTable → ReadArgs → Option Transfer
  | .terminal, .device _ => some ⟨l.bytesTaken.length, c.buf.toNat, l.bytesTaken⟩
  | .directory, .device fd =>
    let r := directoryStores img (fd % 2 ^ 32).toNat old
    some ⟨r.1, c.buf.toNat, r.2⟩
  | .directory, .directory position =>
    let r := directoryStores img position.toNat old
    some ⟨r.1, c.buf.toNat, r.2⟩
  | table, args => c.transfer img table args

/-- What `read` stores and returns. -/
def outcome (img : Image) (fds : FdTable) (l : Line) (old : ℕ → UInt8) (c : ReadCall) :
    Option Transfer :=
  match c.entry fds with
  | none => some ⟨-1, c.buf.toNat, []⟩
  | some i =>
    (fds i).fileOpTablePtr.bind fun table =>
      match readDispatch img fds i with
      | none => some ⟨-1, c.buf.toNat, []⟩
      | some (args, _) => c.handled img l old table args

end ReadCall

/-! ### A reference editor -/

/-- A terminal beside the editor its users expect: the characters typed since the last line was
read, whether Enter has ended them, the lines ended so far, and the lines read so far. -/
structure Session where
  line : Line
  draft : List UInt8
  entered : Bool
  committed : List (List UInt8)
  delivered : List (List UInt8)

namespace Session

def start : Session := ⟨Line.blank, [], false, [], []⟩

/-- What a key does to the line being edited. -/
def edit (c : UInt8) (s : Session) : Session :=
  if s.entered then s
  else if c = newlineAscii then
    { s with entered := true, committed := s.committed ++ [s.draft] }
  else if c = backspaceAscii then { s with draft := s.draft.dropLast }
  else if maxBufferLength - 1 ≤ s.draft.length then s
  else { s with draft := s.draft ++ [c] }

def step (s : Session) (e : LineEvent) : Option Session :=
  (s.line.step e).map fun l =>
    match e with
    | .key c => { s.edit c with line := l }
    | .read =>
      { s with
        line := l
        draft := []
        entered := false
        delivered := s.delivered ++ [s.line.bytesTaken] }
    | _ => { s with line := l }

end Session

end HalOs
