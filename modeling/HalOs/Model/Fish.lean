import HalOs.Model.Blink

/-!
# The fish program

`main` and `add_frames` of `fish.c`. The two frame files are read one character at a time, in
step, row by row: each place where one of them has a visible character becomes a character that
blinks between the two.
-/

namespace HalOs.Fish

open Blink

def newline : UInt8 := 10

def space : UInt8 := 32

/-- One file of `add_frames`: what is still unread of it, its last character (`c0`, `c1`) and
its end-of-file flag. -/
structure Reader where
  rest : List UInt8
  c : UInt8
  eof : Bool

/-- `if(c != '\n')` with the read of one character and the test of its result. -/
def Reader.step (f : Reader) : Reader :=
  if f.c ≠ newline then
    match f.rest with
    | [] => { f with c := newline, eof := true }
    | x :: rest => { f with c := x, rest := rest }
  else f

/-- The assignment to the character at the end of a row. -/
def Reader.nextRow (f : Reader) : Reader := { f with c := if f.eof then newline else 48 }

/-- The variables of the loops. -/
structure Frames where
  file0 : Reader
  file1 : Reader
  row : ℕ
  col : ℕ

/-- What `add_frames` does besides reading. -/
inductive Action where
  | add (b : BlinkStruct)
  | close0
  | close1

/-- `offset = 40` -/
def offset : ℕ := 40

/-- The `else` branch of the inner loop: `blink` is the structure the function reuses. -/
def addCell (blink : BlinkStruct) (s : Frames) : List Action :=
  let c0 := s.file0.c
  let c1 := s.file1.c
  if (c0 ≠ space ∧ c0 ≠ newline) ∨ (c1 ≠ space ∧ c1 ≠ newline) then
    [.add { blink with
      onLength := 15
      offLength := 15
      onChar := if c0 = newline then space else c0
      offChar := if c1 = newline then space else c1
      location := UInt16.ofNat (s.row * 80 + s.col + offset) }]
  else []

/-- The inner loop: one row. -/
def addRow (blink : BlinkStruct) : ℕ → Frames → Option (List Action × Frames)
  | 0, _ => none
  | fuel + 1, s =>
    let s := { s with file0 := s.file0.step, file1 := s.file1.step }
    if s.file0.c = newline ∧ s.file1.c = newline then some ([], s)
    else (addRow blink fuel { s with col := s.col + 1 }).map fun (actions, t) =>
      (addCell blink s ++ actions, t)

/-- The `ece391_close` calls at the end of a row. -/
def closes (eof0 eof1 : Bool) : List Action :=
  (if eof0 then [.close0] else []) ++ (if eof1 then [.close1] else [])

/-- The outer loop. -/
def addRows (blink : BlinkStruct) (fuel : ℕ) : ℕ → Frames → Option (List Action)
  | rows, s =>
    if s.file0.eof = false ∨ s.file1.eof = false then
      match rows with
      | 0 => none
      | rows + 1 => (addRow blink fuel { s with col := 0 }).bind fun (actions, t) =>
          (addRows blink fuel rows
            { t with file0 := t.file0.nextRow, file1 := t.file1.nextRow, row := t.row + 1 }).map
              fun later => actions ++ closes t.file0.eof t.file1.eof ++ later
    else some []

/-- `add_frames` on the contents of the two files. -/
def addFrames (blink : BlinkStruct) (fuel : ℕ) (frame0 frame1 : List UInt8) :
    Option (List Action) :=
  addRows blink fuel fuel ⟨⟨frame0, 48, false⟩, ⟨frame1, 48, false⟩, 0, 0⟩

/-- The ioctls of a list of actions. -/
def requests (actions : List Action) : List Request :=
  actions.filterMap fun
    | .add b => some (.add b)
    | _ => none

end HalOs.Fish
