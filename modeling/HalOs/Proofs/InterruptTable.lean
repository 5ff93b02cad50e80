import HalOs.Model.Interrupts

/-!
# The interrupt table

What the processor reads from the table that `init_interrupts` fills, and what a user program
can reach through it.
-/

namespace HalOs.Interrupts

open Ia32

/-! ### Descriptors -/

section Descriptors

variable (d : IdtDesc)

lemma val_offsetLow : d.val.extractLsb' 0 16 = d.offset1500 :=
  BitVec.extractLsb'_append_eq_right

lemma val_selector : d.val.extractLsb' 16 16 = d.segSelector :=
  (BitVec.extractLsb'_append_eq_of_le (by decide)).trans BitVec.extractLsb'_append_eq_right

lemma val_gateType : d.val.extractLsb' 40 4 = d.gateType := by
  unfold IdtDesc.val
  iterate 3 refine (BitVec.extractLsb'_append_eq_of_le (by decide)).trans ?_
  exact BitVec.extractLsb'_append_eq_right

lemma val_reserved0 : d.val.extractLsb' 44 1 = d.reserved0 := by
  unfold IdtDesc.val
  iterate 4 refine (BitVec.extractLsb'_append_eq_of_le (by decide)).trans ?_
  exact BitVec.extractLsb'_append_eq_right

lemma val_dpl : d.val.extractLsb' 45 2 = d.dpl := by
  unfold IdtDesc.val
  iterate 5 refine (BitVec.extractLsb'_append_eq_of_le (by decide)).trans ?_
  exact BitVec.extractLsb'_append_eq_right

lemma val_present : d.val.extractLsb' 47 1 = d.present := by
  unfold IdtDesc.val
  iterate 6 refine (BitVec.extractLsb'_append_eq_of_le (by decide)).trans ?_
  exact BitVec.extractLsb'_append_eq_right

lemma val_offsetHigh : d.val.extractLsb' 48 16 = d.offset3116 := by
  unfold IdtDesc.val
  iterate 7 refine (BitVec.extractLsb'_append_eq_of_le (by decide)).trans ?_
  exact BitVec.extractLsb'_eq_self

end Descriptors

/-- The two halves of an offset are put together again. -/
lemma offset_halves (a : UInt32) :
    ((a &&& 0xFFFF0000) >>> 16).toBitVec.truncate 16 ++ (a &&& 0xFFFF).toBitVec.truncate 16 =
      a.toBitVec := by
  have hlow : ∀ i : Fin 16, (0xFFFF#32).getLsbD i.val = true := by decide
  have hhigh : ∀ i : Fin 16, (0xFFFF0000#32).getLsbD (16 + i.val) = true := by decide
  have hmask : (a &&& 0xFFFF).toBitVec = a.toBitVec &&& 0xFFFF#32 := rfl
  have hshift : ((a &&& 0xFFFF0000) >>> 16).toBitVec = (a.toBitVec &&& 0xFFFF0000#32) >>> 16 := by
    simp
  refine BitVec.eq_of_getLsbD_eq fun i hi => ?_
  rw [BitVec.getLsbD_append, hmask, hshift]
  by_cases h : i < 16
  · have hbit := hlow ⟨i, h⟩
    rw [if_pos h, BitVec.getLsbD_setWidth, BitVec.getLsbD_and, hbit, Bool.and_true,
      decide_eq_true h, Bool.true_and]
  · have hbit := hhigh ⟨i - 16, by omega⟩
    have hi' : 16 + (i - 16) = i := by omega
    have hlt : i - 16 < 16 := by omega
    dsimp only at hbit
    rw [if_neg h, BitVec.getLsbD_setWidth, BitVec.getLsbD_ushiftRight, BitVec.getLsbD_and, hbit,
      Bool.and_true, decide_eq_true hlt, Bool.true_and, hi']

/-! ### The table -/

section Table

variable (address : Symbol → UInt32)

/-- Every symbol has code, and there is none at address 0. -/
def Linked : Prop := ∀ s, address s ≠ 0

/-- The privilege a program needs for a software interrupt of the vector. -/
def requiredDpl (i : ℕ) : UInt16 := if i = systemCallIndex then 3 else 0

lemma initInterrupts_gateType (i : ℕ) : (initInterrupts address i).gateType = 0xF := by
  change (1#1 ++ 1#1 ++ 1#1 ++ 1#1 : BitVec 4) = 0xF#4
  decide

lemma dpl_widened (i : ℕ) :
    (⟨(if i = systemCallIndex then 3 else 0 : BitVec 2).setWidth 16⟩ : UInt16) = requiredDpl i := by
  unfold requiredDpl
  split_ifs <;> rfl

/-- The processor reads the handlers from the table as `init_interrupts` names them. -/
lemma gateOf_initInterrupts (hlinked : Linked address) (i : ℕ) :
    gateOf (initInterrupts address i).val = (handlers i).map fun s =>
      ⟨kernelCs, address s, requiredDpl i, true⟩ := by
  simp only [gateOf, val_offsetLow, val_selector, val_gateType, val_reserved0, val_dpl, val_present,
    val_offsetHigh, initInterrupts_gateType]
  cases hh : handlers i with
  | none => simp [initInterrupts, hh]
  | some s =>
    have hs := hlinked s
    simp only [initInterrupts, hh, Option.elim_some, setIdtEntry, offset_halves, ne_eq, hs,
      not_false_eq_true, if_true, Option.map_some, or_true, and_self, dpl_widened, decide_true]

end Table

/-- A processor with the table of `init_interrupts` loaded. -/
structure Loaded (M : Ia32.Machine) (address : Symbol → UInt32) : Prop where
  linked : Linked address
  idt : ∀ v, M.idt v = gateOf (initInterrupts address v.toNat).val

section Loaded

variable {M : Ia32.Machine} {address : Symbol → UInt32} {s : State} {v : UInt8}

lemma Loaded.gate (h : Loaded M address) {sym : Symbol} (hsym : handlers v.toNat = some sym) :
    M.idt v = some ⟨kernelCs, address sym, requiredDpl v.toNat, true⟩ := by
  rw [h.idt, gateOf_initInterrupts address h.linked, hsym, Option.map_some]

lemma handlers_systemCall : handlers systemCallIndex = some .sysCallLinkage := rfl

end Loaded

/-- The software interrupt of the system calls goes through for a program. -/
lemma int_user_gate {M : Ia32.Machine} {address : Symbol → UInt32} (h : Loaded M address)
    (s : State) (hcpl : s.cpl = 3) (next : UInt32) :
    M.int 0x80 next s = some (s.deliver ⟨kernelCs, address .sysCallLinkage, 3, true⟩ next) := by
  have hgate : M.idt 0x80 = some ⟨kernelCs, address .sysCallLinkage, 3, true⟩ :=
    h.gate (v := 0x80) handlers_systemCall
  have hring : s.cpl ≤ 3 := by
    rw [hcpl]
    decide
  rw [Ia32.Machine.int, hgate, Option.bind_some, if_pos hring]

/-- Of the software interrupts of a program the one of the system calls goes through and no other
does, whatever handlers the table has; and it goes to `sys_call_linkage`, with the flags, place and
stack of the program saved on the kernel's stack. -/
theorem int_user_iff {M : Ia32.Machine} {address : Symbol → UInt32} (h : Loaded M address)
    (s : State) (hcpl : s.cpl = 3) (v : UInt8) (next : UInt32) (t : State) :
    M.int v next s = some t ↔ v = 0x80 ∧
      t = s.deliver ⟨kernelCs, address .sysCallLinkage, 3, true⟩ next := by
  by_cases hv : v = 0x80
  · rw [hv, int_user_gate h s hcpl, Option.some.injEq, and_iff_right rfl, eq_comm]
  · have hne : v.toNat ≠ systemCallIndex := fun heq => hv (UInt8.toNat_inj.mp heq)
    have hdpl : requiredDpl v.toNat = 0 := if_neg hne
    have hring : ¬s.cpl ≤ 0 := by
      rw [hcpl]
      decide
    refine iff_of_false (fun ht => ?_) fun ht => hv ht.1
    rw [Ia32.Machine.int, h.idt, gateOf_initInterrupts address h.linked] at ht
    cases hh : handlers v.toNat with
    | none =>
      rw [hh] at ht
      exact absurd ht (by simp)
    | some sym =>
      rw [hh, Option.map_some, Option.bind_some, hdpl, if_neg hring] at ht
      exact absurd ht (by simp)

/-! ### A small machine -/

/-- A kernel whose system calls return their second argument, and whose handlers return 7. -/
def smallAddress : Symbol → UInt32
  | .sysCall _ => 1
  | .handler _ => 10
  | .ece391 _ => 100
  | .sysCallLinkage => 200
  | .invalidSysCall => 214
  | .done => 215
  | .sysCallTable => 0x1000
  | _ => 16

def smallCode : List (UInt32 × Instr UInt32) :=
  [(1, .loadStack 8 .eax), (2, .ret), (10, .movl (.imm 7) .eax), (11, .ret),
    (16, .pushfl), (17, .pushal), (18, .call 10), (19, .popal), (20, .popfl), (21, .iret),
    (100, .pushl (.reg .ebx)), (101, .movl (.imm 6) .eax), (102, .loadStack 8 .ebx),
    (103, .loadStack 12 .ecx), (104, .loadStack 16 .edx), (105, .int 0x80), (106, .popl .ebx),
    (107, .ret),
    (200, .pushl (.reg .ebp)), (201, .pushl (.reg .edi)), (202, .pushl (.reg .esi)), (203, .pushfl),
    (204, .pushl (.reg .edx)), (205, .pushl (.reg .ecx)), (206, .pushl (.reg .ebx)),
    (207, .cmpl 1 .eax), (208, .jl 214), (209, .cmpl 10 .eax), (210, .jg 214), (211, .decl .eax),
    (212, .callTable 0x1000 .eax), (213, .jmp 215), (214, .movl (.imm (-1)) .eax),
    (215, .addl 12 .esp), (216, .popfl), (217, .popl .esi), (218, .popl .edi), (219, .popl .ebp),
    (220, .iret)]

def smallKernel : Ia32.Machine where
  fetch a := (smallCode.lookup a).map fun i => (i, a + 1)
  idt v := gateOf (initInterrupts smallAddress v.toNat).val

/-- A program in ring 3 that makes a system call with the arguments 4, 8 and 12, and the table of
the system calls. -/
def smallProgram : State where
  reg _ := 0x8400000
  eip := 100
  eflags := 0x202
  cs := 0x23
  ss := 0x2B
  ss0 := 0x18
  esp0 := 0x800000
  memory x :=
    if x.toNat % 4 = 0 then
      if (x - 0x1000).toNat < 40 then 1
      else if (x - 0x8400000).toNat < 16 then x.toUInt8
      else 0
    else 0

lemma smallKernel_loaded : Loaded smallKernel smallAddress := by
  refine ⟨fun s => ?_, fun _ => rfl⟩
  unfold smallAddress
  split <;> decide

theorem int_user_iff_small : (∀ t, smallKernel.int 0x21 5 smallProgram ≠ some t) ∧
    smallKernel.int 0x80 5 smallProgram =
      some (smallProgram.deliver ⟨kernelCs, 200, 3, true⟩ 5) := by
  have hcpl : smallProgram.cpl = 3 := rfl
  refine ⟨fun t ht => ?_, ?_⟩
  · have hne := (int_user_iff smallKernel_loaded smallProgram hcpl 0x21 5 t).mp ht
    exact absurd hne.1 (by decide)
  · exact (int_user_iff smallKernel_loaded smallProgram hcpl 0x80 5 _).mpr ⟨rfl, rfl⟩

end HalOs.Interrupts
