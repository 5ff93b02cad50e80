import HalOs.Model.Line

/-!
# The keyboard handler

What `keyboard_handler` does with one scan code, by the modifier flags: it changes a flag, or
calls `update_kb_buffer`, `clear_terminal` or `terminal_switch`.
-/

namespace HalOs

abbrev numScanCodes : ℕ := 58
abbrev upperRowLetterStart : UInt8 := 0x10
abbrev upperRowLetterEnd : UInt8 := 0x19
abbrev midRowLetterStart : UInt8 := 0x1E
abbrev midRowLetterEnd : UInt8 := 0x26
abbrev lowerRowLetterStart : UInt8 := 0x2C
abbrev lowerRowLetterEnd : UInt8 := 0x32
abbrev capsLock : UInt8 := 0x3A
abbrev lShiftPress : UInt8 := 0x2A
abbrev lShiftRelease : UInt8 := 0xAA
abbrev rShiftPress : UInt8 := 0x36
abbrev rShiftRelease : UInt8 := 0xB6
abbrev ctrlPress : UInt8 := 0x1D
abbrev ctrlRelease : UInt8 := 0x9D
abbrev altPress : UInt8 := 0x38
abbrev altRelease : UInt8 := 0xB8
abbrev f1Press : UInt8 := 0x3B
abbrev f2Press : UInt8 := 0x3C
abbrev f3Press : UInt8 := 0x3D
abbrev lPress : UInt8 := 0x26
abbrev tabPress : UInt8 := 0x0F
abbrev tabSpace : ℕ := 4

/-- `lowercase_scancode_to_char`. -/
def lowercaseScancodeToChar : List UInt8 :=
  -- padding, escape, the digits, - and =, backspace, tab
  [0, 0, 49, 50, 51, 52, 53, 54, 55, 56, 57, 48, 45, 61, 8, 0,
    -- q to p, the brackets, enter, left control
    113, 119, 101, 114, 116, 121, 117, 105, 111, 112, 91, 93, 10, 0,
    -- a to l, the semicolon, the quote and the backquote, left shift
    97, 115, 100, 102, 103, 104, 106, 107, 108, 59, 39, 96, 0,
    -- the backslash, z to m, comma, full stop and slash, right shift, keypad *, alt, space
    92, 122, 120, 99, 118, 98, 110, 109, 44, 46, 47, 0, 0, 0, 32]

/-- `uppercase_scancode_to_char`. -/
def uppercaseScancodeToChar : List UInt8 :=
  [0, 0, 33, 64, 35, 36, 37, 94, 38, 42, 40, 41, 95, 43, 8, 0,
    81, 87, 69, 82, 84, 89, 85, 73, 79, 80, 123, 125, 10, 0,
    65, 83, 68, 70, 71, 72, 74, 75, 76, 58, 34, 126, 0,
    124, 90, 88, 67, 86, 66, 78, 77, 60, 62, 63, 0, 0, 0, 32]

/-- The modifier flags. -/
structure Keyboard where
  capsLockFlag : Bool
  lShiftFlag : Bool
  rShiftFlag : Bool
  ctrlFlag : Bool
  altFlag : Bool
  deriving DecidableEq, Repr

/-- What the handler calls. -/
inductive KeyboardCall where
  | nothing
  | clearTerminal
  | terminalSwitch (target : Fin 3)
  /-- `update_kb_buffer` for each of the characters. -/
  | updateKbBuffer (chars : List UInt8)
  deriving DecidableEq, Repr

namespace Keyboard

def init : Keyboard := ⟨false, false, false, false, false⟩

/-- The rows of the letters. -/
def isLetterCode (scanCode : UInt8) : Bool :=
  (upperRowLetterStart ≤ scanCode ∧ scanCode ≤ upperRowLetterEnd) ∨
    (midRowLetterStart ≤ scanCode ∧ scanCode ≤ midRowLetterEnd) ∨
    (lowerRowLetterStart ≤ scanCode ∧ scanCode ≤ lowerRowLetterEnd)

/-- `output_char`. -/
def outputChar (scanCode : UInt8) (kb : Keyboard) : UInt8 :=
  let useCaps := kb.lShiftFlag || kb.rShiftFlag
  let useCaps := if isLetterCode scanCode then xor useCaps kb.capsLockFlag else useCaps
  byteAt (if useCaps then uppercaseScancodeToChar else lowercaseScancodeToChar) scanCode.toNat

/-- The terminal a function key stands for. -/
def functionKey (scanCode : UInt8) : Option (Fin 3) :=
  if scanCode = f1Press then some 0
  else if scanCode = f2Press then some 1
  else if scanCode = f3Press then some 2
  else none

/-- The keys after those that change a flag. -/
def call (scanCode : UInt8) (kb : Keyboard) : KeyboardCall :=
  if scanCode = lPress ∧ kb.ctrlFlag then .clearTerminal
  else
    match if kb.altFlag then functionKey scanCode else none with
    | some target => .terminalSwitch target
    | none =>
      if scanCode = tabPress then .updateKbBuffer (List.replicate tabSpace spaceAscii)
      else if scanCode.toNat ≤ numScanCodes then .updateKbBuffer [kb.outputChar scanCode]
      else .nothing

/-- `keyboard_handler`, for a scan code that is ready: the flags after it and what it calls. -/
def handle (scanCode : UInt8) (kb : Keyboard) : Keyboard × KeyboardCall :=
  if scanCode = capsLock then ({ kb with capsLockFlag := !kb.capsLockFlag }, .nothing)
  else if scanCode = lShiftPress then ({ kb with lShiftFlag := true }, .nothing)
  else if scanCode = rShiftPress then ({ kb with rShiftFlag := true }, .nothing)
  else if scanCode = lShiftRelease then ({ kb with lShiftFlag := false }, .nothing)
  else if scanCode = rShiftRelease then ({ kb with rShiftFlag := false }, .nothing)
  else if scanCode = ctrlPress then ({ kb with ctrlFlag := true }, .nothing)
  else if scanCode = ctrlRelease then ({ kb with ctrlFlag := false }, .nothing)
  else if scanCode = altPress then ({ kb with altFlag := true }, .nothing)
  else if scanCode = altRelease then ({ kb with altFlag := false }, .nothing)
  else (kb, kb.call scanCode)

end Keyboard

/-- `keyboard_handler` on top of the running context. -/
def Kernel.keyboardHandler (img : Image) (f : CallFrame) (scanCode : UInt8) (kb : Keyboard)
    (k : Kernel) : Option (Keyboard × Kernel) :=
  let r := kb.handle scanCode
  let after :=
    match r.2 with
    | .nothing => some k
    | .clearTerminal => k.clearTerminal
    | .terminalSwitch target => k.terminalSwitch img f target
    | .updateKbBuffer chars => chars.foldlM (fun k c => k.updateKbBuffer c) k
  after.map fun k => (r.1, k)

/-! ### One terminal at the keyboard -/

/-- The active terminal's line, with the flags of the keyboard. -/
structure Typing where
  keyboard : Keyboard
  line : Line

inductive TypingEvent where
  | scan (code : UInt8)
  /-- A waiting read goes through its loop once. -/
  | pass
  deriving DecidableEq, Repr

namespace Typing

def typeAll (chars : List UInt8) (l : Line) : Line := chars.foldl (fun l c => l.typeKey c) l

/-- A switch leaves the line of the terminal it leaves as it is. -/
def step (s : Typing) : TypingEvent → Option Typing
  | .scan code =>
    let r := s.keyboard.handle code
    some ⟨r.1, match r.2 with
      | .nothing => s.line
      | .clearTerminal => { s.line with resetFlag := true }
      | .terminalSwitch _ => s.line
      | .updateKbBuffer chars => typeAll chars s.line⟩
  | .pass => (s.line.step .pass).map fun l => { s with line := l }

end Typing

/-! ### A reference editor for keys -/

/-- What a key does to a line of text. -/
inductive Key where
  | leftShift (down : Bool)
  | rightShift (down : Bool)
  | capsLock
  | tab
  | backspace
  | enter
  | char (lower upper : UInt8)
  | other
  deriving DecidableEq, Repr

/-- The key of a scan code. -/
def keyOf (code : UInt8) : Key :=
  if code = lShiftPress then .leftShift true
  else if code = lShiftRelease then .leftShift false
  else if code = rShiftPress then .rightShift true
  else if code = rShiftRelease then .rightShift false
  else if code = capsLock then .capsLock
  else if code = tabPress then .tab
  else if code = 0x0E then .backspace
  else if code = 0x1C then .enter
  else if code = ctrlPress ∨ code = altPress then .other
  else if code.toNat < numScanCodes then
    .char (byteAt lowercaseScancodeToChar code.toNat) (byteAt uppercaseScancodeToChar code.toNat)
  else .other

/-- The line as its user sees it, and the keys held down. -/
structure Editor where
  leftShift : Bool
  rightShift : Bool
  caps : Bool
  text : List UInt8
  entered : Bool
  deriving DecidableEq, Repr

namespace Editor

def start : Editor := ⟨false, false, false, [], false⟩

/-- A character is appended while fewer than 127 are held. -/
def insert (c : UInt8) (e : Editor) : Editor :=
  if e.entered ∨ 127 ≤ e.text.length then e else { e with text := e.text ++ [c] }

def isLetter (c : UInt8) : Bool := 97 ≤ c ∧ c ≤ 122

def press (e : Editor) : Key → Editor
  | .leftShift down => { e with leftShift := down }
  | .rightShift down => { e with rightShift := down }
  | .capsLock => { e with caps := !e.caps }
  | .tab => (insert spaceAscii)^[4] e
  | .backspace => if e.entered then e else { e with text := e.text.dropLast }
  | .enter => { e with entered := true }
  | .char lower upper =>
    let shifted := e.leftShift || e.rightShift
    let capital := if isLetter lower then xor shifted e.caps else shifted
    e.insert (if capital then upper else lower)
  | .other => e

def event (e : Editor) : TypingEvent → Editor
  | .scan code => e.press (keyOf code)
  | .pass => e

end Editor

end HalOs
