import HalOs.Model.Process

/-!
# The stack frame of `execute`

The parsing of a command and the checks of the file, as they work on the buffers `arg`,
`filename` and `header` of the frame, none of which is initialised when the call begins. What
lies behind a buffer is taken to be none of the other two.
-/

namespace HalOs

abbrev maxFilenameLen : ℕ := 32

/-- A byte of the frame, counted from the start of a buffer. -/
inductive FrameCell where
  | arg (i : ℕ)
  | filename (i : ℕ)
  | header (i : ℕ)
  deriving DecidableEq, Repr

/-- The buffers as they are declared. -/
def FrameCell.Declared : FrameCell → Prop
  | .arg i => i < execArgLen
  | .filename i => i < maxFilenameLen
  | .header i => i < entryPtStart + entryPtLen

instance : DecidablePred FrameCell.Declared
  | .arg i => inferInstanceAs (Decidable (i < execArgLen))
  | .filename i => inferInstanceAs (Decidable (i < maxFilenameLen))
  | .header i => inferInstanceAs (Decidable (i < entryPtStart + entryPtLen))

/-- The bytes of the frame and the cells stored in, most recent first. -/
structure Frame where
  byte : FrameCell → UInt8
  stores : List FrameCell

namespace Frame

def store (c : FrameCell) (b : UInt8) (f : Frame) : Frame :=
  ⟨Function.update f.byte c b, c :: f.stores⟩

/-- The loop that resets `n` bytes of a buffer. -/
def reset (buffer : ℕ → FrameCell) : ℕ → Frame → Frame
  | 0, f => f
  | n + 1, f => (f.reset buffer n).store (buffer n) 0

/-- The loop that fills `filename`, with `i` bytes of the command behind it: `arg_start_idx` and
the frame. -/
def fillName : List UInt8 → ℕ → Frame → ℕ × Frame
  | [], _, f => (0, f)
  | b :: rest, i, f =>
    if b = spaceAscii then (i + 1, f) else fillName rest (i + 1) (f.store (.filename i) b)

/-- The loop that fills `arg` from index `j` on. -/
def fillArg : List UInt8 → ℕ → Frame → Frame
  | [], _, f => f
  | b :: rest, j, f => fillArg rest (j + 1) (f.store (.arg j) b)

end Frame

/-- `cmd_len`. -/
def cmdLen (command : List UInt8) : ℤ := asInt32 (strlen command)

/-- What the loops look at of a command. -/
def visible (command : List UInt8) : List UInt8 :=
  (cString command).take (cmdLen command).toNat

/-- The parsing of what the loops look at, with the resets before it. -/
def Frame.fill (l : List UInt8) (f : Frame) : Frame :=
  let f := (f.reset .arg execArgLen).reset .filename maxFilenameLen
  let r := f.fillName l 0
  if r.1 ≠ 0 then r.2.fillArg (l.drop r.1) 0 else r.2

/-- The parsing; `none` when the command is too long. -/
def parse (command : List UInt8) (f : Frame) : Option Frame :=
  if execArgLen < cmdLen command then none else some (f.fill (visible command))

/-- The string at `filename`, as far as its length matters: one without a NUL in its first 33
bytes is too long for a name. -/
def Frame.name (f : Frame) : List UInt8 :=
  cString ((List.range (maxFilenameLen + 1)).map fun i => f.byte (.filename i))

def entryPoint (header : ℕ → UInt8) : ℕ :=
  (List.range entryPtLen).foldl
    (fun e i => e ||| (header (i + entryPtStart)).toNat <<< (i * 8)) 0

/-- The checks of the file: `some none` when they return -1, else the entry point of the program
accepted. -/
def Frame.check (img : Image) (f : Frame) : Option (Option ℕ) :=
  (readDentryByName img f.name).map fun found => found.bind fun d =>
    let header := headerByte img d.inodeNumber fun i => f.byte (.header i)
    if (List.range magicNumber.length).map header = magicNumber then some (entryPoint header)
    else none

/-- The parsing and the checks. -/
def accept (img : Image) (command : List UInt8) (f : Frame) : Option (Option ℕ) :=
  (parse command f).elim (some none) (Frame.check img)

end HalOs
