import HalOs.General.Chains

/-!
# Blinking characters

`blink.S` and the two allocation functions of `fish.c`: a table of blink structures, those in
use linked from `mp1_list_head`, the four ioctls over them and the tasklet that runs on each
RTC tick. A pointer is null or a slot of the table; a free slot is one whose location is 0. The
loops over the list are bounded by `fuel`: a list that never ends has no result at any bound.
-/

namespace HalOs

/-- The data of `struct mp1_blink_struct`. -/
@[ext]
structure Blinker where
  location : UInt16
  onChar : UInt8
  offChar : UInt8
  onLength : UInt16
  offLength : UInt16
  countdown : UInt16
  status : UInt16
deriving DecidableEq

/-- `80*25` -/
def blinkSlots : ℕ := 80 * 25

abbrev Slot := Fin blinkSlots

/-- `struct mp1_blink_struct` -/
structure BlinkStruct extends Blinker where
  next : Option Slot

/-- `mp1_list_head`, `blink_array` and the bytes of the mapped video page. -/
structure Blink where
  listHead : Option Slot
  blinkArray : Slot → BlinkStruct
  video : ℕ → UInt8

namespace Blink

def links (s : Blink) (i : Slot) : Option Slot := (s.blinkArray i).next

def data (s : Blink) (i : Slot) : Blinker := (s.blinkArray i).toBlinker

def store (s : Blink) (i : Slot) (b : BlinkStruct) : Blink :=
  { s with blinkArray := Function.update s.blinkArray i b }

def setData (s : Blink) (i : Slot) (d : Blinker) : Blink :=
  s.store i { s.blinkArray i with toBlinker := d }

def setNext (s : Blink) (i : Slot) (p : Option Slot) : Blink :=
  s.store i { s.blinkArray i with next := p }

/-- `mp1_poke` with `%eax` twice the location. -/
def mp1Poke (location : UInt16) (c : UInt8) (s : Blink) : Blink :=
  { s with video := Function.update s.video (2 * location.toNat) c }

/-! ### The slots -/

/-- The structure `ece391_memset` leaves. -/
def zeroStruct : BlinkStruct := ⟨⟨0, 0, 0, 0, 0, 0, 0⟩, none⟩

def mp1Malloc (s : Blink) : Option Slot :=
  (List.finRange blinkSlots).find? fun i => (s.data i).location = 0

def mp1Free (i : Slot) (s : Blink) : Blink := s.store i zeroStruct

/-- `mp1_find_helper`, which compares the low word of its argument. -/
def mp1FindHelper (fuel : ℕ) (arg : UInt32) (s : Blink) : Option (Option Slot) :=
  Chains.search s.links (fun i => (s.data i).location = arg.toUInt16) fuel s.listHead

/-! ### The ioctls -/

/-- `$-1` in `%eax` -/
def ioctlFailed : UInt32 := 0xFFFFFFFF

def mp1IoctlAdd (arg : BlinkStruct) (s : Blink) : UInt32 × Blink :=
  let temp := { arg.toBlinker with status := 1, countdown := arg.onLength }
  if 80 * 25 ≤ arg.location.toNat then (ioctlFailed, s)
  else
    match s.mp1Malloc with
    | none => (ioctlFailed, s)
    | some i =>
      let linked := s.store i { temp with next := s.listHead }
      (0, { linked with listHead := some i }.mp1Poke temp.location temp.onChar)

/-- The word that `%edx` points at in `remove_find_prev`: the list head or a slot's link. -/
def cell (s : Blink) : Option Slot → Option Slot
  | none => s.listHead
  | some i => s.links i

/-- `remove_find_prev`: the first word from `edx` on that holds the slot. -/
def removeFindPrev (s : Blink) (slot : Slot) : ℕ → Option Slot → Option (Option Slot)
  | 0, _ => none
  | fuel + 1, edx =>
    if s.cell edx = some slot then some edx
    -- a null word here would send the loop to the link at address 12
    else (s.cell edx).bind fun i => s.removeFindPrev slot fuel (some i)

/-- The word at `edx` set to a pointer. -/
def setCell (s : Blink) (p : Option Slot) : Option Slot → Blink
  | none => { s with listHead := p }
  | some i => s.setNext i p

def mp1IoctlRemove (fuel : ℕ) (arg : UInt32) (s : Blink) : Option (UInt32 × Blink) :=
  (s.mp1FindHelper fuel arg).bind fun
    | none => some (ioctlFailed, s)
    | some slot => (s.removeFindPrev slot fuel none).map fun edx =>
        (0, (s.setCell (s.links slot) edx).mp1Free slot)

/-- The structure written back over the argument, where there is one. -/
def mp1IoctlFind (fuel : ℕ) (location : UInt16) (s : Blink) :
    Option (UInt32 × Option BlinkStruct) :=
  (s.mp1FindHelper fuel location.toUInt32).map fun
    | none => (ioctlFailed, none)
    | some slot => (0, some (s.blinkArray slot))

/-- `testb $0x1, STATUS` clears the overflow flag and takes the sign of its result; `cmovl`
moves when the two flags differ. -/
def cmovlAfterTest (status : UInt16) (moved kept : UInt8) : UInt8 :=
  let sign := decide (0x80 ≤ status.toUInt8 &&& 1)
  if sign ≠ false then moved else kept

def mp1IoctlSync (fuel : ℕ) (arg : UInt32) (s : Blink) : Option (UInt32 × Blink) :=
  (s.mp1FindHelper fuel (arg >>> 16)).bind fun
    | none => some (ioctlFailed, s)
    | some esi => (s.mp1FindHelper fuel (arg &&& 0xFFFF)).map fun
      | none => (ioctlFailed, s)
      | some edi =>
        let from_ := s.data esi
        let synced := { s.data edi with
          onLength := from_.onLength
          offLength := from_.offLength
          countdown := from_.countdown
          status := from_.status }
        let shown := cmovlAfterTest synced.status synced.onChar synced.offChar
        (0, (s.setData edi synced).mp1Poke synced.location shown)

/-! ### The tasklet -/

/-- `cmpw $0, COUNTDOWN` with `jg`: the word is positive as a signed one. -/
def countsOn (countdown : UInt16) : Prop := 0 < countdown.toInt16

instance (countdown : UInt16) : Decidable (countsOn countdown) :=
  inferInstanceAs (Decidable (0 < countdown.toInt16))

/-- One pass of `tasklet_loop` over a structure: its new data, and the character poked. -/
def taskletBody (d : Blinker) : Blinker × Option UInt8 :=
  let d := { d with countdown := d.countdown - 1 }
  if countsOn d.countdown then (d, none)
  else if d.status &&& 1 = 0 then
    ({ d with countdown := d.onLength, status := d.status ^^^ 1 }, some d.onChar)
  else ({ d with countdown := d.offLength, status := d.status ^^^ 1 }, some d.offChar)

def taskletVisit (s : Blink) (i : Slot) : Blink :=
  let (d, shown) := taskletBody (s.data i)
  match shown with
  | none => s.setData i d
  | some c => (s.setData i d).mp1Poke d.location c

def mp1RtcTasklet (fuel : ℕ) (s : Blink) : Option Blink :=
  Chains.walk links taskletVisit fuel s.listHead s

/-! ### Runs -/

/-- What the fish program asks of the blink code. -/
inductive Request where
  | add (arg : BlinkStruct)
  | remove (arg : UInt32)
  | find (location : UInt16)
  | sync (arg : UInt32)
  | tick

/-- The word returned, where there is one, and the structure written over the argument. -/
abbrev Answer := Option UInt32 × Option BlinkStruct

def serve (fuel : ℕ) (s : Blink) : Request → Option (Answer × Blink)
  | .add arg => some ((some (s.mp1IoctlAdd arg).1, none), (s.mp1IoctlAdd arg).2)
  | .remove arg => (s.mp1IoctlRemove fuel arg).map fun (eax, t) => ((some eax, none), t)
  | .find location => (s.mp1IoctlFind fuel location).map fun (eax, b) => ((some eax, b), s)
  | .sync arg => (s.mp1IoctlSync fuel arg).map fun (eax, t) => ((some eax, none), t)
  | .tick => (s.mp1RtcTasklet fuel).map fun t => ((none, none), t)

/-- A list of requests served one after the other. -/
def session (fuel : ℕ) : Blink → List Request → Option (List Answer × Blink)
  | s, [] => some ([], s)
  | s, r :: rs => (s.serve fuel r).bind fun (answer, t) =>
      (session fuel t rs).map fun (answers, u) => (answer :: answers, u)

/-- After `main` has cleared the table. -/
def initial (video : ℕ → UInt8) : Blink := ⟨none, fun _ => zeroStruct, video⟩

end Blink

end HalOs
