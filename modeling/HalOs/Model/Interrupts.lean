import HalOs.General.Ia32
import HalOs.Model.Kernel

/-!
# The interrupt table and the assembly linkage

`init_interrupts` with the descriptors as the processor reads them, and the listings of
`intr_asm_linkage.S`, `sys_call_asm_linkage.S` and of the user's `ece391syscall.S`.
-/

namespace HalOs.Interrupts

open Ia32

/-! ### Symbols -/

/-- The wrappers of `intr_asm_linkage.S` for the processor's exceptions. -/
inductive Exception where
  | divideErrorExc
  | debugExc
  | nmiInterruptExc
  | breakpointExc
  | overflowExc
  | boundRangeExceededExc
  | invalidOpcodeExc
  | deviceNotAvailableExc
  | doubleFaultExc
  | coprocessorSegmentOverrunExc
  | invalidTssExc
  | segmentNotPresentExc
  | stackFaultExc
  | generalProtectionExc
  | pageFaultExc
  | assertionErrorExc
  | fpuFpErrorExc
  | alignmentCheckExc
  | machineCheckExc
  | simdFpExc
  deriving DecidableEq, Repr

/-- The system calls, in the order of `sys_call_table`. -/
inductive SysCall where
  | halt
  | execute
  | read
  | write
  | open
  | close
  | getargs
  | vidmap
  | setHandler
  | sigreturn
  deriving DecidableEq, Repr

/-- The devices with an interrupt of their own. -/
inductive Device where
  | pit
  | keyboard
  | rtc
  deriving DecidableEq, Repr

/-- The symbols of the linkage. -/
inductive Symbol where
  | exception (e : Exception)
  | exceptionHandler
  /-- `pit_intr`, `keyboard_intr` and `rtc_intr` -/
  | intr (d : Device)
  /-- `pit_handler`, `keyboard_handler` and `rtc_handler` -/
  | handler (d : Device)
  | sysCallLinkage
  | invalidSysCall
  | done
  | sysCallTable
  /-- the kernel's function for a system call -/
  | sysCall (c : SysCall)
  /-- the user's `ece391_` function for it -/
  | ece391 (c : SysCall)
  deriving DecidableEq, Repr

/-! ### `x86_desc.h` -/

/-- `KERNEL_CS`. -/
def kernelCs : UInt16 := 0x10

/-- `idt_desc_t`. -/
structure IdtDesc where
  offset1500 : BitVec 16
  segSelector : BitVec 16
  reserved4 : BitVec 8
  reserved3 : BitVec 1
  reserved2 : BitVec 1
  reserved1 : BitVec 1
  size : BitVec 1
  reserved0 : BitVec 1
  dpl : BitVec 2
  present : BitVec 1
  offset3116 : BitVec 16
  deriving DecidableEq, Repr

/-- A `.quad 0` of the table. -/
def IdtDesc.zero : IdtDesc := ⟨0, 0, 0, 0, 0, 0, 0, 0, 0, 0, 0⟩

/-- The gate type of the descriptor. -/
def IdtDesc.gateType (d : IdtDesc) : BitVec 4 :=
  d.size ++ d.reserved1 ++ d.reserved2 ++ d.reserved3

/-- The eight bytes of the descriptor, the first field lowest. -/
def IdtDesc.val (d : IdtDesc) : BitVec 64 :=
  d.offset3116 ++ d.present ++ d.dpl ++ d.reserved0 ++ d.gateType ++ d.reserved4 ++
    d.segSelector ++ d.offset1500

/-- `SET_IDT_ENTRY`. -/
def setIdtEntry (d : IdtDesc) (handler : UInt32) : IdtDesc :=
  { d with
    offset3116 := ((handler &&& 0xFFFF0000) >>> 16).toBitVec.truncate 16
    offset1500 := (handler &&& 0xFFFF).toBitVec.truncate 16 }

/-- What the processor takes from a descriptor: a present 32-bit interrupt or trap gate. -/
def gateOf (w : BitVec 64) : Option Gate :=
  let type := w.extractLsb' 40 4
  if w.extractLsb' 47 1 = 1 ∧ w.extractLsb' 44 1 = 0 ∧ (type = 0xE ∨ type = 0xF) then
    some {
      selector := ⟨w.extractLsb' 16 16⟩
      offset := ⟨w.extractLsb' 48 16 ++ w.extractLsb' 0 16⟩
      dpl := ⟨(w.extractLsb' 45 2).setWidth 16⟩
      trap := type = 0xF }
  else none

/-! ### `interrupts.c` -/

abbrev numExceptions : ℕ := 0x20
abbrev systemCallIndex : ℕ := 0x80
abbrev pitIndex : ℕ := 0x20
abbrev keyboardIndex : ℕ := 0x21
abbrev rtcIndex : ℕ := 0x28

/-- The initializer of `exceptions`; what it does not name is `NULL`. -/
def exceptions : List Exception :=
  [.divideErrorExc, .debugExc, .nmiInterruptExc, .breakpointExc, .overflowExc,
    .boundRangeExceededExc, .invalidOpcodeExc, .deviceNotAvailableExc, .doubleFaultExc,
    .coprocessorSegmentOverrunExc, .invalidTssExc, .segmentNotPresentExc, .stackFaultExc,
    .generalProtectionExc, .pageFaultExc, .assertionErrorExc, .fpuFpErrorExc, .alignmentCheckExc,
    .machineCheckExc, .simdFpExc]

/-- `handlers[i]` after the first two loops. -/
def handlers (i : ℕ) : Option Symbol :=
  if i < numExceptions then exceptions[i]?.map .exception
  else if i = systemCallIndex then some .sysCallLinkage
  else if i = rtcIndex then some (.intr .rtc)
  else if i = keyboardIndex then some (.intr .keyboard)
  else if i = pitIndex then some (.intr .pit)
  else none

/-- `idt[i]` after `init_interrupts`, with the addresses of the symbols; `NULL` is 0. -/
def initInterrupts (address : Symbol → UInt32) (i : ℕ) : IdtDesc :=
  let handler : UInt32 := (handlers i).elim 0 address
  { setIdtEntry .zero handler with
    segSelector := kernelCs.toBitVec
    present := if handler ≠ 0 then 1 else 0
    dpl := if i = systemCallIndex then 3 else 0
    reserved0 := 0
    size := 1
    reserved1 := 1
    reserved2 := 1
    reserved3 := 1 }

/-! ### `intr_asm_linkage.S` -/

def sysCallLinkage : List (Line Symbol) :=
  [.label .sysCallLinkage,
    .code (.pushl (.reg .ebp)), .code (.pushl (.reg .edi)), .code (.pushl (.reg .esi)),
    .code .pushfl,
    .code (.pushl (.reg .edx)), .code (.pushl (.reg .ecx)), .code (.pushl (.reg .ebx)),
    .code (.cmpl 1 .eax), .code (.jl .invalidSysCall),
    .code (.cmpl 10 .eax), .code (.jg .invalidSysCall),
    .code (.decl .eax),
    .code (.callTable .sysCallTable .eax),
    .code (.jmp .done),
    .label .invalidSysCall,
    .code (.movl (.imm (-1)) .eax),
    .label .done,
    .code (.addl 12 .esp),
    .code .popfl,
    .code (.popl .esi), .code (.popl .edi), .code (.popl .ebp),
    .code .iret]

def sysCallTable : List SysCall :=
  [.halt, .execute, .read, .write, .open, .close, .getargs, .vidmap, .setHandler, .sigreturn]

/-! ### `ece391syscall.S` -/

end HalOs.Interrupts
