import HalOs.General.X86

/-!
# Stacks, calls and gates of a 32-bit x86

A machine for the code around a kernel's entry points: the stack instructions, calls through a
table, the flags, and the change of privilege by an interrupt gate and by `iret`. Memory is bytes
by linear address, and all arithmetic on addresses wraps.
-/

namespace Ia32

/-! ### Memory -/

abbrev Memory := UInt32 → UInt8

/-- The word at an address, low byte first. -/
def load (m : Memory) (a : UInt32) : UInt32 :=
  UInt32.ofNat ((m a).toNat + 2 ^ 8 * (m (a + 1)).toNat + 2 ^ 16 * (m (a + 2)).toNat +
    2 ^ 24 * (m (a + 3)).toNat)

def store (m : Memory) (a v : UInt32) : Memory := fun x =>
  if (x - a).toNat < 4 then UInt8.ofNat (v.toNat / 2 ^ (8 * (x - a).toNat)) else m x

/-- The address is one of the `n` from `lo` on. -/
def Within (x lo : UInt32) (n : ℕ) : Prop := (x - lo).toNat < n

instance (x lo : UInt32) (n : ℕ) : Decidable (Within x lo n) :=
  inferInstanceAs (Decidable ((x - lo).toNat < n))

/-- Consecutive words of the memory. -/
def Holds (m : Memory) : UInt32 → List UInt32 → Prop
  | _, [] => True
  | a, w :: ws => load m a = w ∧ Holds m (a + 4) ws

/-! ### The machine -/

/-- The general registers, in the order of `pushal`. -/
inductive Reg where
  | eax
  | ecx
  | edx
  | ebx
  | esp
  | ebp
  | esi
  | edi
  deriving DecidableEq, Repr

inductive Operand where
  | imm (value : UInt32)
  | reg (r : Reg)
  deriving DecidableEq, Repr

/-- Instructions with the source operand first; `T` is what names a place in the code. -/
inductive Instr (T : Type) where
  | pushl (src : Operand)
  | popl (dst : Reg)
  | pushfl
  | popfl
  | pushal
  | popal
  | movl (src : Operand) (dst : Reg)
  /-- `movl disp(%esp), dst` -/
  | loadStack (disp : UInt32) (dst : Reg)
  | addl (value : UInt32) (dst : Reg)
  | cmpl (value : UInt32) (dst : Reg)
  | decl (dst : Reg)
  | jmp (target : T)
  | jl (target : T)
  | jg (target : T)
  | call (target : T)
  /-- `call *table(, index, 4)` -/
  | callTable (table : T) (index : Reg)
  | ret
  | int (vector : UInt8)
  | iret
  deriving DecidableEq, Repr

/-- The registers; `ss0` and `esp0` are those of the task state segment. -/
@[ext]
structure Cpu where
  reg : Reg → UInt32
  eip : UInt32
  eflags : UInt32
  cs : UInt16
  ss : UInt16
  ss0 : UInt16
  esp0 : UInt32

structure State extends Cpu where
  memory : Memory

/-- An entry of the interrupt table that leads to ring 0. -/
structure Gate where
  selector : UInt16
  offset : UInt32
  dpl : UInt16
  /-- a trap gate, which leaves the interrupt flag alone -/
  trap : Bool
  deriving DecidableEq, Repr

/-- The code, as the instruction at an address and the address behind it, and the interrupt
table. -/
structure Machine where
  fetch : UInt32 → Option (Instr UInt32 × UInt32)
  idt : UInt8 → Option Gate

/-! ### Flags -/

def signed (v : UInt32) : ℤ := if v.toNat < 2 ^ 31 then v.toNat else v.toNat - 2 ^ 32

abbrev carryFlag : UInt32 := 0x1
abbrev parityFlag : UInt32 := 0x4
abbrev adjustFlag : UInt32 := 0x10
abbrev zeroFlag : UInt32 := 0x40
abbrev signFlag : UInt32 := 0x80
abbrev directionFlag : UInt32 := 0x400
abbrev overflowFlag : UInt32 := 0x800
abbrev nestedTask : UInt32 := 0x4000
abbrev virtualMode : UInt32 := 0x20000

/-- The flags that a protected-mode program may be given by `popfl` in ring 0. -/
abbrev poppedFlags : UInt32 := 0x247FD5

/-- The reserved flags and virtual mode, which `popfl` leaves alone. -/
abbrev keptFlags : UInt32 := 0x2802A

/-- `iopl` and the interrupt flag, which `popfl` leaves alone outside ring 0. -/
abbrev systemFlags : UInt32 := 0x3200

def flag (b : Bool) (f : UInt32) : UInt32 := if b then f else 0

/-- The bits of a byte are even in number. -/
def evenParity (b : UInt8) : Bool := ((List.range 8).countP fun i => b.toNat.testBit i) % 2 = 0

/-- The flags of a result: zero, sign and parity are its own. -/
def status (result : UInt32) (carry adjust overflow : Bool) : UInt32 :=
  flag carry carryFlag ||| flag (evenParity result.toUInt8) parityFlag |||
    flag adjust adjustFlag ||| flag (result = 0) zeroFlag ||| flag (signed result < 0) signFlag |||
    flag overflow overflowFlag

abbrev statusMask : UInt32 := 0x8D5

def addFlags (a b : UInt32) : UInt32 :=
  status (a + b) (2 ^ 32 ≤ a.toNat + b.toNat) (16 ≤ a.toNat % 16 + b.toNat % 16)
    (signed a + signed b ≠ signed (a + b))

def subFlags (a b : UInt32) : UInt32 :=
  status (a - b) (a.toNat < b.toNat) (a.toNat % 16 < b.toNat % 16)
    (signed a - signed b ≠ signed (a - b))

/-- The flags of `mask` replaced. -/
def setFlags (mask new eflags : UInt32) : UInt32 := eflags &&& ~~~mask ||| new &&& mask

def less (eflags : UInt32) : Bool := (eflags &&& signFlag != 0) != (eflags &&& overflowFlag != 0)

def greater (eflags : UInt32) : Bool := eflags &&& zeroFlag = 0 && !less eflags

/-- What `pushfl` stores: the flags without virtual mode and resume. -/
def pushedFlags (eflags : UInt32) : UInt32 := eflags &&& 0xFCFFFF

/-- The flags a gate enters with: no single step, nested task, resume or virtual mode. -/
def Gate.flags (g : Gate) (eflags : UInt32) : UInt32 :=
  eflags &&& ~~~(if g.trap then 0x34100 else 0x34300)

/-! ### Execution -/

namespace Cpu

variable (c : Cpu)

def cpl : UInt16 := c.cs &&& 3

def value : Operand → UInt32
  | .imm v => v
  | .reg r => c.reg r

def set (r : Reg) (v : UInt32) : Cpu := { c with reg := Function.update c.reg r v }

@[simp] lemma set_self (r : Reg) (v : UInt32) : (c.set r v).reg r = v := by
  simp only [set, Function.update_self]

@[simp] lemma set_of_ne {r r' : Reg} (h : r' ≠ r) (v : UInt32) : (c.set r v).reg r' = c.reg r' := by
  simp only [set, Function.update_of_ne h]

/-- The words an interrupt saves, the last one first. The old stack is saved only when the
stack is changed. -/
def frame (back : UInt32) : List UInt32 :=
  back :: c.cs.toUInt32 :: c.eflags ::
    if c.cpl = 0 then [] else [c.reg .esp, c.ss.toUInt32]

/-- On the stack for ring 0, which outside ring 0 is that of the task state segment. -/
def ring0 : Cpu := if c.cpl = 0 then c else { c.set .esp c.esp0 with ss := c.ss0 }

/-- The flags after `popfl` of a word. -/
def flagsPopped (word : UInt32) : UInt32 :=
  let mask := if c.cpl = 0 then poppedFlags else poppedFlags &&& ~~~systemFlags
  let kept := if c.cpl = 0 then keptFlags else keptFlags ||| systemFlags
  word &&& mask ||| c.eflags &&& kept

end Cpu

namespace State

variable (s : State)

def push (v : UInt32) : State where
  toCpu := s.set .esp (s.reg .esp - 4)
  memory := store s.memory (s.reg .esp - 4) v

def pushes (vs : List UInt32) : State := vs.foldl push s

/-- The word on the top of the stack. -/
def top : UInt32 := load s.memory (s.reg .esp)

def drop (n : ℕ) : State :=
  { s with toCpu := s.set .esp (s.reg .esp + UInt32.ofNat (4 * n)) }

/-- `popl` into a register. -/
def pop (r : Reg) : State := { s.drop 1 with toCpu := (s.drop 1).toCpu.set r s.top }

/-- One of the pops of `popal`; `none` is the stack pointer, whose word is dropped. -/
def popTo : Option Reg → State
  | none => s.drop 1
  | some r => s.pop r

/-- Delivery of an interrupt through its gate, with the address to come back to. -/
def deliver (g : Gate) (back : UInt32) : State :=
  { { s with toCpu := s.ring0 }.pushes (s.frame back).reverse with
    eip := g.offset
    cs := g.selector
    eflags := g.flags s.eflags }

/-- `iret` in ring 0, to ring 0 or outwards; a return to another task or to virtual mode is
not followed. -/
def iret : Option State :=
  let eip := s.top
  let cs := (s.drop 1).top.toUInt16
  let eflags := (s.drop 2).top
  if s.cpl ≠ 0 ∨ s.eflags &&& nestedTask ≠ 0 ∨ eflags &&& virtualMode ≠ 0 then none
  else
    let s' := { s.drop 3 with eip := eip, cs := cs, eflags := eflags }
    some (if cs &&& 3 = 0 then s' else
      { s' with toCpu := { s'.set .esp s'.top with ss := (s'.drop 1).top.toUInt16 } })

end State

/-- The registers in the order of `pushal`. -/
def pushalOrder : List Reg := [.eax, .ecx, .edx, .ebx, .esp, .ebp, .esi, .edi]

/-- The registers in the order of `popal`. -/
def popalOrder : List (Option Reg) :=
  [some .edi, some .esi, some .ebp, none, some .ebx, some .edx, some .ecx, some .eax]

/-- An instruction that goes on to the next one, without its going on. -/
def State.effect (s : State) {T : Type} : Instr T → Option State
  | .pushl src => some (s.push (s.value src))
  | .popl dst => some (s.pop dst)
  | .pushfl => some (s.push (pushedFlags s.eflags))
  | .popfl => some { s.drop 1 with eflags := s.flagsPopped s.top }
  | .pushal => some (s.pushes (pushalOrder.map s.reg))
  | .popal => some (popalOrder.foldl State.popTo s)
  | .movl src dst => some { s with toCpu := s.set dst (s.value src) }
  | .loadStack disp dst => some { s with toCpu := s.set dst (load s.memory (s.reg .esp + disp)) }
  | .addl v dst => some { s with
      toCpu := { s.set dst (s.reg dst + v) with
        eflags := setFlags statusMask (addFlags (s.reg dst) v) s.eflags } }
  | .cmpl v dst => some { s with
      eflags := setFlags statusMask (subFlags (s.reg dst) v) s.eflags }
  | .decl dst => some { s with
      toCpu := { s.set dst (s.reg dst - 1) with
        eflags := setFlags (statusMask &&& ~~~carryFlag) (subFlags (s.reg dst) 1) s.eflags } }
  | _ => none

namespace Machine

/-- A software interrupt needs a gate that its ring may use; what happens without one is not
followed. -/
def int (M : Machine) (vector : UInt8) (next : UInt32) (s : State) : Option State :=
  (M.idt vector).bind fun g => if s.cpl ≤ g.dpl then some (s.deliver g next) else none

/-- One instruction, with the address behind it. -/
def exec (M : Machine) (s : State) (next : UInt32) : Instr UInt32 → Option State
  | .jmp target => some { s with eip := target }
  | .jl target => some { s with eip := if less s.eflags then target else next }
  | .jg target => some { s with eip := if greater s.eflags then target else next }
  | .call target => some { s.push next with eip := target }
  | .callTable table index => some { s.push next with
      eip := load s.memory (table + 4 * s.reg index) }
  | .ret => some { s.drop 1 with eip := s.top }
  | .int vector => M.int vector next s
  | .iret => s.iret
  | i => (s.effect i).map fun s => { s with eip := next }

def step (M : Machine) (s : State) : Option State :=
  (M.fetch s.eip).bind fun (i, next) => M.exec s next i

end Machine

/-! ### Listings -/

/-- A line of a listing over symbols of type `L`. -/
inductive Line (L : Type) where
  | label (l : L)
  | code (i : Instr L)
  deriving DecidableEq, Repr

def Instr.map {T T' : Type} (f : T → T') : Instr T → Instr T'
  | .pushl src => .pushl src
  | .popl dst => .popl dst
  | .pushfl => .pushfl
  | .popfl => .popfl
  | .pushal => .pushal
  | .popal => .popal
  | .movl src dst => .movl src dst
  | .loadStack disp dst => .loadStack disp dst
  | .addl v dst => .addl v dst
  | .cmpl v dst => .cmpl v dst
  | .decl dst => .decl dst
  | .jmp t => .jmp (f t)
  | .jl t => .jl (f t)
  | .jg t => .jg (f t)
  | .call t => .call (f t)
  | .callTable t index => .callTable (f t) index
  | .ret => .ret
  | .int vector => .int vector
  | .iret => .iret

/-- The code at an address is that of the listing, with the symbols at their addresses. -/
def Assembled {L : Type} (M : Machine) (address : L → UInt32) : UInt32 → List (Line L) → Prop
  | _, [] => True
  | a, .label l :: ls => address l = a ∧ Assembled M address a ls
  | a, .code i :: ls => ∃ b, M.fetch a = some (i.map address, b) ∧ Assembled M address b ls

end Ia32
