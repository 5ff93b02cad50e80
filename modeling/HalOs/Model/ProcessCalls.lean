import HalOs.Model.CallerPcb
import HalOs.Model.Events

/-!
# Calls of the running process

The system calls of the running process other than `execute` and `halt`, as they leave the
kernel. They store through its pointers, and these reach the PCBs of all processes. Of the
kernel's own memory only the PCBs have addresses that the code fixes; a store to the rest of it
has no result here. What the drivers leave in the other memory, the cursor and the terminals
comes from outside.
-/

namespace HalOs

/-! ### The bytes of a PCB -/

def pcbSize : ℕ := 284

namespace Pcb

/-- Byte `j` of a PCB behind its descriptor table: five words, the argument and two words. -/
def byte (p : Pcb) (j : ℕ) : UInt8 :=
  let word : UInt32 :=
    match j / 4 with
    | 0 => UInt32.ofInt p.processId
    | 1 => UInt32.ofInt p.parentProcessId
    | 2 => UInt32.ofNat p.saved.esp
    | 3 => UInt32.ofNat p.saved.ebp
    | 4 => UInt32.ofNat p.inUse
    | 37 => UInt32.ofNat p.scheduling.esp
    | _ => UInt32.ofNat p.scheduling.ebp
  if 20 ≤ j ∧ j < 20 + execArgLen then p.arg (j - 20)
  else UInt8.ofNat (word.toNat >>> (j % 4 * 8))

/-- The PCB as the calls on descriptors see it. -/
def caller (p : Pcb) : CallerPcb := ⟨p.fdArray, p.byte⟩

end Pcb

/-- The fields that the bytes of a PCB hold. -/
def CallerPcb.fields (c : CallerPcb) : Pcb where
  fdArray := c.fds
  processId := asInt32 (TableLayout.loadWord c.rest 0).toNat
  parentProcessId := asInt32 (TableLayout.loadWord c.rest 4).toNat
  saved := ⟨(TableLayout.loadWord c.rest 12).toNat, (TableLayout.loadWord c.rest 8).toNat⟩
  inUse := (TableLayout.loadWord c.rest 16).toNat
  arg := c.arg
  scheduling := ⟨(TableLayout.loadWord c.rest 152).toNat, (TableLayout.loadWord c.rest 148).toNat⟩

/-- The PCB of `lay.pid` after the stores of a transfer. -/
def Pcb.after (lay : TableLayout) (t : Transfer) (p : Pcb) : Pcb :=
  if (List.range pcbSize).any fun j => (t.byteStored (lay.base + j)).isSome then
    (lay.pcbAfter t p.caller).fields
  else p

/-! ### Stores in the kernel -/

/-- The process id a number is, if it is one. -/
def pidIndex (p : ℤ) : Option (Fin 6) :=
  if h : 0 ≤ p ∧ p < 6 then some ⟨p.toNat, by omega⟩ else none

/-- Whether a transfer stores a byte in the kernel's 4 MB outside the PCBs. -/
def Transfer.strays (ops : OpTable → UInt32) (t : Transfer) : Bool :=
  (List.range t.bytes.length).any fun j =>
    let a := (t.address + j) % 2 ^ 32
    decide (0x400000 ≤ a ∧ a < 0x800000) && (List.finRange 6).all fun i =>
      let base := (TableLayout.mk i ops).base
      decide (a < base ∨ base + pcbSize ≤ a)

namespace Kernel

/-- The PCBs after the stores of a transfer. -/
def pcbsAfter (ops : OpTable → UInt32) (t : Transfer) (k : Kernel) (q : ℤ) : Pcb :=
  match pidIndex q with
  | some i => (k.pcbs q).after ⟨i, ops⟩ t
  | none => k.pcbs q

def stores (ops : OpTable → UInt32) (t : Transfer) (k : Kernel) : Option Kernel :=
  if t.strays ops then none else some { k with pcbs := k.pcbsAfter ops t }

end Kernel

/-! ### Calls -/

/-- What the drivers leave behind a call. -/
structure Drivers where
  mem : Memory
  screenX : ℕ
  screenY : ℕ
  terminals : Fin 3 → TerminalInfo

namespace Kernel

/-- No driver touches the foreground process of a terminal. -/
def driven (d : Drivers) (k : Kernel) : Kernel := { k with
  mem := d.mem
  screenX := d.screenX
  screenY := d.screenY
  terminals := fun t => { d.terminals t with activePid := (k.terminals t).activePid } }

/-- A call on descriptors, or `getargs`. -/
def pcbCall (img : Image) (ops : OpTable → UInt32) (call : PcbCall) (d : Drivers) (k : Kernel) :
    Option Kernel :=
  k.currentPcb.bind fun p => (pidIndex p).bind fun i =>
    (call.run img ⟨i, ops⟩ (k.pcbs p).caller).bind fun (t, caller) =>
      (k.stores ops t).map fun k =>
        (k.setPcb p fun pcb => { pcb with fdArray := caller.fds }).driven d

/-- `vidmap`. -/
def vidmapCall (ops : OpTable → UInt32) (screenStart : UInt32) (d : Drivers) (k : Kernel) :
    Option Kernel :=
  k.currentPcb.bind fun _ => (k.stores ops (vidmap screenStart)).map (driven d)

end Kernel

/-- The events of the kernel together with the other system calls. -/
inductive SystemEvent where
  | kernel (e : Event)
  | call (call : PcbCall) (d : Drivers)
  | vidmap (screenStart : UInt32) (d : Drivers)

def Kernel.systemStep (img : Image) (ops : OpTable → UInt32) (k : Kernel) :
    SystemEvent → Option Kernel
  | .kernel e => k.step img e
  | .call call d => k.pcbCall img ops call d
  | .vidmap screenStart d => k.vidmapCall ops screenStart d

end HalOs
