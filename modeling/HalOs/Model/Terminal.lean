import HalOs.Model.Process

/-!
# The terminal driver

The keyboard side of the terminal (`update_kb_buffer`, `clear_terminal`) acts on the active
terminal and borrows the video mapping to draw there. `terminal_write` acts on the scheduled
terminal and the console; its loops are unrolled up to a bound, so that a call that never
returns has no result at any bound.
-/

namespace HalOs

abbrev maxInputBufLen : ℕ := 1024

namespace Kernel

/-- The branch of `update_kb_buffer` for the backspace key. -/
def eraseChar (k : Kernel) : Option Kernel :=
  let active := k.activeTerminal
  let n := (k.terminals active).currentChar - 1
  let k := k.setTerminal active fun ti =>
    { ti with currentChar := n, keyboardBuffer := Function.update ti.keyboardBuffer n 0 }
  let x := (k.terminals active).terminalScreenX
  let y := (k.terminals active).terminalScreenY
  ((k.mapVideo video).onConsole fun v => (v.setCursor x y).backspaceCalled).bind fun k =>
    let ti := k.terminals k.scheduledTerminal
    (k.mapVideo (terminalVideo + align4kb * k.scheduledTerminal.val)).onConsole
      fun v => v.setCursor ti.terminalScreenX ti.terminalScreenY

/-- `update_kb_buffer`. -/
def updateKbBuffer (input : UInt8) (k : Kernel) : Option Kernel :=
  let ti := k.terminals k.activeTerminal
  if input = newlineAscii ∨ ti.enterFlag then
    some (k.setTerminal k.activeTerminal fun ti => { ti with enterFlag := true, charInLine := 0 })
  else if input = backspaceAscii then k.eraseChar
  else if maxBufferLength - 1 ≤ ti.currentChar then some k
  else
    some (k.setTerminal k.activeTerminal fun ti => { ti with
      keyboardBuffer := Function.update ti.keyboardBuffer ti.currentChar input
      currentChar := ti.currentChar + 1 })

/-- `clear_terminal`. -/
def clearTerminal (k : Kernel) : Option Kernel :=
  ((k.mapVideo video).onConsole fun v => v.clear.setCursor 0 0).map fun k =>
    (k.mapVideo (terminalVideo + align4kb * k.scheduledTerminal.val)).setTerminal k.activeTerminal
      fun ti => { ti with resetFlag := true, currentLine := 0, charInLine := 0 }

end Kernel

/-! ### `terminal_write` -/

/-- What `terminal_write` works on: the scheduled terminal and the console. -/
structure Writer where
  info : TerminalInfo
  console : Console

namespace Writer

/-- `shift_video_mem_up(0, NUM_ROWS)` and `current_line--`, in 8 bits. -/
def scrollLine (w : Writer) : Writer where
  info := { w.info with currentLine := (w.info.currentLine + 255) % 256 }
  console := w.console.shiftVideoMemUp 0 numRows

/-- `while (current_line > NUM_ROWS - 1)`. -/
def scrollDown (fuel : ℕ) (w : Writer) : Option Writer :=
  Loops.whileLoop (fun w => numRows - 1 < w.info.currentLine) scrollLine fuel w

/-- `while (newline_count > lines_left)`; `lines_left` is a signed difference. -/
def makeRoom (newlineCount : ℕ) (fuel : ℕ) (w : Writer) : Option Writer :=
  Loops.whileLoop (fun w => (numRows : ℤ) - w.info.currentLine < newlineCount) scrollLine fuel w

/-- The text `terminal_write` measures: its bytes below `nbytes` before the first NUL. -/
def measured (buf : List UInt8) (nbytes : ℕ) : List UInt8 :=
  cString ((List.range nbytes).map (byteAt buf))

def newlineCount (buf : List UInt8) (nbytes : ℕ) : ℕ :=
  (measured buf nbytes).count newlineAscii

/-- The keyboard buffer is emptied, and a line still in it moves the text below it. -/
def dropInput (w : Writer) : Writer :=
  let info := { w.info with
    keyboardBuffer := fun i => if i < maxBufferLength then 0 else w.info.keyboardBuffer i }
  { w with info :=
      if 0 < info.currentChar then
        { info with currentLine := (info.currentLine + 1) % 256, currentChar := 0 }
      else info }

/-- The extra row made for a text that wraps on the last row. -/
def wrapRoom (nbytes : ℕ) (w : Writer) : Writer :=
  if w.info.currentLine = numRows - 1 ∧ (numCols : ℤ) - w.info.charInLine ≤ nbytes then
    w.scrollLine
  else w

/-- The text printed from the stored position. -/
def print (buf : List UInt8) (w : Writer) : Writer :=
  { w with console := (w.console.setCursor w.info.charInLine w.info.currentLine).puts buf }

/-- The column count after the text, and the value `nbytes` has from there on. -/
def advance (buf : List UInt8) (nbytes : ℕ) (w : Writer) : Writer × ℕ :=
  if nbytes ≠ numCols ∧ byteAt buf (nbytes - 1) ≠ newlineAscii then
    ({ w with info := { w.info with charInLine := (w.info.charInLine + nbytes) % 256 } }, nbytes)
  else (w, nbytes - 1)

/-- The last block of `terminal_write`, for a text with newlines. -/
def nextLine (newlineCount nbytes fuel : ℕ) (w : Writer) : Option Writer :=
  let line := (w.info.currentLine + newlineCount) % 256
  let line := if (numCols : ℤ) - w.info.charInLine ≤ nbytes then (line + 1) % 256 else line
  let w := { w with info := { w.info with currentLine := line } }
  (w.scrollDown fuel).map fun w => { w with info := { w.info with charInLine := 0 } }

/-- `terminal_write` for a positive byte count, its loops unrolled at most `fuel` times. The
value returned counts the NUL that ended the measured text. -/
def terminalWrite (fuel : ℕ) (buf : List UInt8) (nbytes : ℕ) (w : Writer) : Option (ℕ × Writer) :=
  if maxInputBufLen < nbytes then some (0, w)
  else
    let newlines := newlineCount buf nbytes
    let strLen := min nbytes ((measured buf nbytes).length + 1)
    (w.dropInput.scrollDown fuel).bind fun w =>
      ((w.wrapRoom nbytes).makeRoom newlines fuel).bind fun w =>
        let (w, nbytes) := (w.print buf).advance buf nbytes
        let last := if newlines = 0 then some w else w.nextLine newlines nbytes fuel
        last.map fun w =>
          (strLen, { w with
            console := w.console.setCursor w.info.charInLine w.info.currentLine })

end Writer

end HalOs
