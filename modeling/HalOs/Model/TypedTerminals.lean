import HalOs.Model.Keyboard

/-!
# The keyboard before its three terminals

Scan codes go to the line of the active terminal, which Alt and a function key choose. Reads
follow the active terminal too; a write empties the line of the scheduled terminal. A pass of the
loop of `terminal_read` is one step: no key comes between the index it takes and the store there.
-/

namespace HalOs

/-- The flags of the keyboard, the active terminal and the lines of the three terminals. -/
structure TypedTerminals where
  keyboard : Keyboard
  active : Fin 3
  lines : Fin 3 → Line

inductive TerminalEvent where
  | scan (code : UInt8)
  /-- A waiting read whose `last_terminal` is `last` goes through its loop once. -/
  | pass (last : Fin 3)
  /-- A read ends. -/
  | read
  | write (scheduled : Fin 3) (nbytes : ℤ)
  deriving DecidableEq, Repr

namespace TypedTerminals

def setLine (t : Fin 3) (g : Line → Line) (s : TypedTerminals) : TypedTerminals :=
  { s with lines := Function.update s.lines t (g (s.lines t)) }

/-- What `keyboard_handler` calls. -/
def call (s : TypedTerminals) : KeyboardCall → TypedTerminals
  | .nothing => s
  | .clearTerminal => s.setLine s.active fun l => { l with resetFlag := true }
  | .terminalSwitch target => { s with active := target }
  | .updateKbBuffer chars => s.setLine s.active (Typing.typeAll chars)

/-- `keyboard_handler`. -/
def scan (code : UInt8) (s : TypedTerminals) : TypedTerminals :=
  let r := s.keyboard.handle code
  { s with keyboard := r.1 }.call r.2

/-- A pass of the loop of `terminal_read`; it takes up a line that has changed, and any line
after a switch. -/
def waitPass (last : Fin 3) (s : TypedTerminals) : TypedTerminals :=
  s.setLine s.active fun l =>
    if l.currentChar ≠ l.lastCurrentChar ∨ l.resetFlag ∨ s.active ≠ last then
      { l with
        resetFlag := false
        lastCurrentChar := l.currentChar
        keyboardBuffer := Function.update l.keyboardBuffer l.currentChar 0 }
    else l

def step (s : TypedTerminals) : TerminalEvent → Option TypedTerminals
  | .scan code => some (s.scan code)
  | .pass last => if (s.lines s.active).enterFlag then none else some (s.waitPass last)
  | .read =>
    if (s.lines s.active).enterFlag then some (s.setLine s.active Line.takeLine) else none
  | .write scheduled nbytes => some (s.setLine scheduled (Line.writeOver nbytes))

end TypedTerminals

/-- The keys whose entry in the tables is NUL and which no branch of `keyboard_handler` takes out:
the code 0 of the padding, Escape and the `*` of the keypad. -/
def Keyboard.nulKeys : List UInt8 := [0x00, 0x01, 0x37]

/-- The flags, the active terminal and the lines in the kernel. -/
def Kernel.typed (kb : Keyboard) (k : Kernel) : TypedTerminals :=
  ⟨kb, k.activeTerminal, fun t => (k.terminals t).line⟩

/-! ### What a program sees -/

/-- What the string functions of the shell see of a line that `read` has stored: it drops the
newline and puts a NUL at the count. -/
def shellLine (taken : List UInt8) : List UInt8 :=
  cString ((if taken.getLast? = some newlineAscii then taken.dropLast else taken) ++ [0])

/-- The line a read would return now reaches its program as a whole. -/
structure Line.ReadsWhole (l : Line) : Prop where
  noNul : 0 ∉ l.bytesTaken
  length : strlen (l.bytesTaken ++ [0]) = l.bytesTaken.length
  seen : shellLine l.bytesTaken = l.bytesTaken.dropLast

end HalOs
