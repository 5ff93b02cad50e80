import HalOs.Model.Paging

/-!
# Console output

The text screen routines of the kernel library, over the bytes at `video_mem` and the live
cursor. Every store is also recorded by its byte offset from `video_mem`, most recent
first. The VGA cursor registers written by `update_cursor_position` are not modelled.
-/

namespace HalOs

abbrev numCols : ℕ := 80
abbrev numRows : ℕ := 25
abbrev attrib : UInt8 := 0x7
abbrev spaceAscii : UInt8 := 0x20
abbrev newlineAscii : UInt8 := 0x0A
abbrev returnAscii : UInt8 := 0x0D
abbrev backspaceAscii : UInt8 := 0x08

/-- `screen_x`, `screen_y` and the bytes from `video_mem` on. -/
structure Console where
  screenX : ℕ
  screenY : ℕ
  videoMem : ℕ → UInt8
  stores : List ℕ

/-- The bytes of a C string: everything before the first NUL. -/
def cString (s : List UInt8) : List UInt8 := s.takeWhile (· ≠ 0)

def strlen (s : List UInt8) : ℕ := (cString s).length

/-- The byte `i` places after a string's first; the NUL after its end otherwise. -/
def byteAt (s : List UInt8) (i : ℕ) : UInt8 := s.getD i 0

namespace Console

/-- One byte stored at `video_mem + off`. -/
def store (off : ℕ) (b : UInt8) (v : Console) : Console :=
  { v with videoMem := Function.update v.videoMem off b, stores := off :: v.stores }

/-- Whether `putc` starts a new row for the character. -/
def isBreak (c : UInt8) : Bool := c = newlineAscii ∨ c = returnAscii

def putc (c : UInt8) (v : Console) : Console :=
  if isBreak c then
    { v with screenY := v.screenY + 1, screenX := 0 }
  else
    let off := (numCols * v.screenY + v.screenX) * 2
    { (v.store off c).store (off + 1) attrib with
      screenX := (v.screenX + 1) % numCols
      screenY := (v.screenY + (v.screenX + 1) / numCols) % numRows }

def puts (s : List UInt8) (v : Console) : Console := (cString s).foldl (fun v c => v.putc c) v

/-- `set_cursor`, whose arguments are single bytes. -/
def setCursor (x y : ℕ) (v : Console) : Console :=
  { v with screenX := x % 256, screenY := y % 256 }

def clear (v : Console) : Console :=
  (List.range (numRows * numCols)).foldl
    (fun v i => (v.store (i * 2) spaceAscii).store (i * 2 + 1) attrib) v

/-- The inner loop of `shift_video_mem_up`: row `row + 1` copied onto row `row`. -/
def copyRowUp (row : ℕ) (v : Console) : Console :=
  (List.range (numCols * 2)).foldl
    (fun v i => v.store (numCols * row * 2 + i) (v.videoMem (numCols * (row + 1) * 2 + i))) v

/-- The last loop of `shift_video_mem_up`: the bytes of one row blanked. -/
def blankRow (row : ℕ) (v : Console) : Console :=
  (List.range (numCols * 2)).foldl
    (fun v i => v.store (numCols * row * 2 + i) (if i % 2 = 0 then 0 else attrib)) v

/-- `shift_video_mem_up`, which does nothing when the end is above the start. -/
def shiftVideoMemUp (startRow endRow : ℕ) (v : Console) : Console :=
  if endRow < startRow then v
  else
    let endRow := min endRow (numRows - 1)
    ((List.range' startRow (endRow - startRow)).foldl (fun v row => v.copyRowUp row) v).blankRow
      endRow

/-- `backspace_called`: blanks the cell before the cursor and leaves the cursor where it was. -/
def backspaceCalled (v : Console) : Console :=
  if v.screenX = 0 ∧ v.screenY = 0 then v
  else if v.screenX = 0 then
    (((v.setCursor (numCols - 1) (v.screenY - 1)).putc spaceAscii).setCursor
      (v.screenX % 256) (v.screenY % 256))
  else
    (((v.setCursor (v.screenX - 1) v.screenY).putc spaceAscii).setCursor
      (v.screenX % 256) (v.screenY % 256))

end Console

end HalOs
