import HalOs.Proofs.DeviceInterrupts

/-!
# System calls

The user's stub, the gate, `sys_call_linkage` and back: to a program a system call is a call of
the kernel's function on the program's own arguments.
-/

namespace HalOs.Interrupts

open Ia32
open X86 (Eventually)

/-! ### The pieces on the list -/

section Pieces

variable {c : Cpu} {back a₁ a₂ a₃ number : UInt32} {stack : List UInt32}

/-- The first instructions of `sys_call_linkage`. -/
lemma run_linkage (v : View) : ∃ v',
    v.run ([.pushl (.reg .ebp), .pushl (.reg .edi), .pushl (.reg .esi), .pushfl,
      .pushl (.reg .edx), .pushl (.reg .ecx), .pushl (.reg .ebx), .cmpl 1 .eax] :
        List (Instr Symbol)) = some v' ∧
    (∀ r, r ≠ .esp → v'.reg r = v.reg r) ∧ v'.cs = v.cs ∧ v'.ss = v.ss ∧ v'.ss0 = v.ss0 ∧
    v'.esp0 = v.esp0 ∧ v'.eflags = setFlags statusMask (subFlags (v.reg .eax) 1) v.eflags ∧
    v'.stack = [v.reg .ebx, v.reg .ecx, v.reg .edx] ++ pushedFlags v.eflags ::
      v.reg .esi :: v.reg .edi :: v.reg .ebp :: v.stack := by
  refine ⟨_, rfl, ?_, rfl, rfl, rfl, rfl, rfl, rfl⟩
  intro r hr
  cases r <;> first | rfl | exact absurd rfl hr

/-- The last instructions of `sys_call_linkage`, behind three words of arguments. -/
lemma run_done (c : Cpu) (hcpl : c.cpl = 0) (args : List UInt32) (hargs : args.length = 3)
    (flags esi edi ebp : UInt32) (rest : List UInt32) : ∃ reg eflags,
    View.run ([.addl 12 .esp, .popfl, .popl .esi, .popl .edi, .popl .ebp] : List (Instr Symbol))
      ⟨c, args ++ pushedFlags flags :: esi :: edi :: ebp :: rest⟩ =
        some ⟨{ c with reg := reg, eflags := eflags }, rest⟩ ∧
    reg .esi = esi ∧ reg .edi = edi ∧ reg .ebp = ebp ∧ reg .eax = c.reg .eax ∧
    reg .ecx = c.reg .ecx ∧ reg .edx = c.reg .edx ∧ reg .ebx = c.reg .ebx ∧
    eflags &&& nestedTask = flags &&& nestedTask := by
  obtain ⟨x, y, z, rfl⟩ := List.length_eq_three.mp hargs
  have hpopped := flagsPopped_nested (c := { c with
    eflags := setFlags statusMask (addFlags (c.reg .esp) 12) c.eflags }) hcpl flags
  exact ⟨_, _, rfl, rfl, rfl, rfl, rfl, rfl, rfl, rfl, hpopped⟩

end Pieces

/-! ### Into the kernel and back -/

section Linkage

variable {M : Ia32.Machine} {address : Symbol → UInt32} {s t : State} {room : ℕ}

/-- The gate of the system calls. -/
def sysCallGate (address : Symbol → UInt32) : Gate :=
  ⟨kernelCs, address .sysCallLinkage, 3, true⟩

/-- What `sys_call_linkage` has on the stack when it looks at the number: the arguments, and what
it gives back. -/
def linkageStack (s : State) (back : UInt32) : List UInt32 :=
  [s.reg .ebx, s.reg .ecx, s.reg .edx] ++ pushedFlags ((sysCallGate fun _ => 0).flags s.eflags) ::
    s.reg .esi :: s.reg .edi :: s.reg .ebp :: s.frame back

/-- In the kernel for a system call of `s`, with the registers of `s` but for the stack. -/
structure InLinkage (s : State) (room : ℕ) (back : UInt32) (v : View) (t : State) : Prop where
  sees : Sees (s.ring0.reg .esp) room s.memory v t
  regs : ∀ r, r ≠ .esp → v.reg r = s.reg r
  cs : v.cs = kernelCs
  ss : v.ss = s.ring0.ss
  ss0 : v.ss0 = s.ss0
  esp0 : v.esp0 = s.esp0
  stack : v.stack = linkageStack s back
  direction : v.eflags &&& directionFlag = s.eflags &&& directionFlag

/-- `sys_call_linkage` up to the first jump. -/
lemma enters_linkage (hcode : Assembled M address (address .sysCallLinkage) sysCallLinkage)
    (s : State) (back : UInt32) (hroom : room < 2 ^ 32) (hn : 48 ≤ room) :
    Eventually M.step (fun t => Assembled M address t.eip (sysCallLinkage.drop 9) ∧
      ∃ v, InLinkage s room back v t ∧ v.eflags = setFlags statusMask
        (subFlags (s.reg .eax) 1) ((sysCallGate address).flags s.eflags))
      (s.deliver (sysCallGate address) back) := by
  have hlength := length_frame_le s.toCpu back
  have h0 := Sees.deliver s (sysCallGate address) back hroom (by omega)
  obtain ⟨v, hrun, hregs, hcs, hss, hss0, hesp0, heflags, hstack⟩ :=
    run_linkage ⟨s.entered (sysCallGate address) back, s.frame back⟩
  have hroom0 : 4 * ((s.frame back).length + 7) ≤ room := by omega
  have hentered : ∀ r, r ≠ .esp → (s.entered (sysCallGate address) back).reg r = s.reg r :=
    fun r hr => s.entered_of_ne _ back hr
  refine (h0.run hroom [.pushl (.reg .ebp), .pushl (.reg .edi), .pushl (.reg .esi), .pushfl,
    .pushl (.reg .edx), .pushl (.reg .ecx), .pushl (.reg .ebx), .cmpl 1 .eax] hcode.2 hrun
    hroom0).imp fun t ht => ⟨ht.1, { v with eip := t.eip }, ⟨ht.2, ?_, hcs, hss,
      hss0.trans s.ring0_ss0, hesp0.trans s.ring0_esp0, ?_, ?_⟩, ?_⟩
  · exact fun r hr => (hregs r hr).trans (hentered r hr)
  · refine hstack.trans ?_
    simp only [hentered, ne_eq, reduceCtorEq, not_false_eq_true, linkageStack]
    rfl
  · refine (congrArg (· &&& directionFlag) heflags).trans ?_
    dsimp only
    rw [setFlags_and rfl rfl]
    exact gate_direction _ s.eflags
  · refine heflags.trans ?_
    simp only [hentered, ne_eq, reduceCtorEq, not_false_eq_true]
    rfl

/-- The registers that an interrupt saves, and those that it looks at. -/
structure SameFrame (c c' : Cpu) : Prop where
  esp : c.reg .esp = c'.reg .esp
  eflags : c.eflags = c'.eflags
  cs : c.cs = c'.cs
  ss : c.ss = c'.ss
  ss0 : c.ss0 = c'.ss0
  esp0 : c.esp0 = c'.esp0

lemma SameFrame.frame {c c' : Cpu} (h : SameFrame c c') (back : UInt32) :
    c.frame back = c'.frame back := by
  unfold Cpu.frame Cpu.cpl
  rw [h.esp, h.eflags, h.cs, h.ss]

lemma SameFrame.ring0 {c c' : Cpu} (h : SameFrame c c') :
    c.ring0.reg .esp = c'.ring0.reg .esp ∧ c.ring0.ss = c'.ring0.ss := by
  unfold Cpu.ring0 Cpu.cpl
  rw [h.cs]
  split_ifs
  · exact ⟨h.esp, h.ss⟩
  · refine ⟨?_, h.ss0⟩
    change (c.set .esp c.esp0).reg .esp = (c'.set .esp c'.esp0).reg .esp
    rw [Cpu.set_self, Cpu.set_self, h.esp0]

/-- Back from the system call of `s`, with the value and the scratch registers of `t`. -/
structure Left (s t : State) (back : UInt32) (u : State) : Prop where
  eip : u.eip = back
  eflags : u.eflags = s.eflags
  cs : u.cs = s.cs
  ss : u.ss = s.ss
  ss0 : u.ss0 = s.ss0
  esp0 : u.esp0 = s.esp0
  kept : ∀ r ∈ [Reg.esp, .ebp, .esi, .edi], u.reg r = s.reg r
  taken : ∀ r ∈ [Reg.eax, .ecx, .edx, .ebx], u.reg r = t.reg r

/-- `sys_call_linkage` from `done` on. -/
lemma leaves_linkage {m : Ia32.Memory} {args : List UInt32} {back : UInt32}
    (hcode : Assembled M address t.eip (sysCallLinkage.drop 18)) (hroom : room < 2 ^ 32)
    (h : Sees (s.ring0.reg .esp) room m ⟨t.toCpu, args ++ (linkageStack s back).drop 3⟩ t)
    (hargs : args.length = 3) (hn : 4 * (7 + (s.frame back).length) ≤ room)
    (hvirtual : s.eflags &&& virtualMode = 0) (hcs : t.cs = kernelCs) (hss : t.ss = s.ring0.ss)
    (hss0 : t.ss0 = s.ss0) (hesp0 : t.esp0 = s.esp0) :
    Eventually M.step (fun u => Left s t back u ∧
      ∀ x, ¬Within x (s.ring0.reg .esp - UInt32.ofNat room) room → u.memory x = m x) t := by
  have hcpl : t.cpl = 0 := by
    rw [Cpu.cpl, hcs, kernelCs_ring]
  obtain ⟨reg, eflags, hrun, hesi, hedi, hebp, heax, hecx, hedx, hebx, hnested⟩ :=
    run_done t.toCpu hcpl args hargs ((sysCallGate fun _ => 0).flags s.eflags) (s.reg .esi)
      (s.reg .edi) (s.reg .ebp) (s.frame back)
  have hroom0 : 4 * ((args ++ (linkageStack s back).drop 3).length + 0) ≤ room := by
    have hlength : ((linkageStack s back).drop 3).length = 4 + (s.frame back).length := by
      change (s.frame back).length + 1 + 1 + 1 + 1 = _
      omega
    rw [List.length_append, hargs, hlength]
    omega
  refine (h.run hroom [.addl 12 .esp, .popfl, .popl .esi, .popl .edi, .popl .ebp] hcode hrun
    hroom0).trans fun t₁ ht₁ => ?_
  obtain ⟨⟨last, hfetch, -⟩, h1⟩ := ht₁
  -- What `iret` gives back, with the registers as they are now.
  obtain ⟨c, hc, hcregs⟩ : ∃ c : Cpu, SameFrame c s.toCpu ∧ ∀ r, r ≠ .esp → c.reg r = reg r :=
    ⟨{ s.toCpu with reg := Function.update reg .esp (s.reg .esp) },
      ⟨by simp only [Function.update_self], rfl, rfl, rfl, rfl, rfl⟩,
      fun r hr => by simp only [Function.update_of_ne hr]⟩
  obtain ⟨hbase, hring⟩ := hc.ring0
  rw [← hbase] at h1
  have hiret := h1.iret (hc.frame back).symm (fun r hr => (hcregs r hr).symm) hcpl
    (by rw [hnested]; exact gate_nested _ s.eflags) (by rw [hc.eflags]; exact hvirtual)
    (hss.trans hring.symm) (hss0.trans hc.ss0.symm) (hesp0.trans hc.esp0.symm)
  have hlast : M.step t₁ = some ⟨{ c with eip := back }, t₁.memory⟩ := by
    rw [Ia32.Machine.step, hfetch]
    exact hiret
  refine Eventually.next hlast (Eventually.here ⟨⟨rfl, hc.eflags, hc.cs, hc.ss, hc.ss0, hc.esp0,
    fun r hr => ?_, fun r hr => ?_⟩, fun x hx => ?_⟩)
  · change c.reg r = s.reg r
    simp only [List.mem_cons, List.not_mem_nil, or_false] at hr
    rcases hr with rfl | rfl | rfl | rfl
    · exact hc.esp
    · exact (hcregs _ (by decide)).trans hebp
    · exact (hcregs _ (by decide)).trans hesi
    · exact (hcregs _ (by decide)).trans hedi
  · change c.reg r = t.reg r
    simp only [List.mem_cons, List.not_mem_nil, or_false] at hr
    rcases hr with rfl | rfl | rfl | rfl
    · exact (hcregs _ (by decide)).trans heax
    · exact (hcregs _ (by decide)).trans hecx
    · exact (hcregs _ (by decide)).trans hedx
    · exact (hcregs _ (by decide)).trans hebx
  · exact h1.frame x (by rwa [hbase])

/-- Where the labels of `sys_call_linkage` are. -/
lemma linkage_labels {a : UInt32} (hcode : Assembled M address a (sysCallLinkage.drop 9)) :
    Assembled M address (address .invalidSysCall) (sysCallLinkage.drop 16) ∧
      Assembled M address (address .done) (sysCallLinkage.drop 18) := by
  obtain ⟨_, _, _, _, _, _, _, _, _, _, _, _, rfl, _, hmovl, rfl, hdone⟩ := hcode
  exact ⟨⟨_, hmovl, rfl, hdone⟩, hdone⟩

/-- The number of a system call. -/
def ValidNumber (n : UInt32) : Prop := 1 ≤ signed n ∧ signed n ≤ 10

instance (n : UInt32) : Decidable (ValidNumber n) :=
  inferInstanceAs (Decidable (1 ≤ signed n ∧ signed n ≤ 10))

lemma InLinkage.with_cpu {back : UInt32} {v : View} (h : InLinkage s room back v t) (a f : UInt32)
    (hf : f &&& directionFlag = s.eflags &&& directionFlag) :
    InLinkage s room back { v with eip := a, eflags := f } { t with eip := a, eflags := f } :=
  ⟨h.sees.with_cpu (fun c => { c with eip := a, eflags := f }) fun _ => rfl, h.regs, h.cs, h.ss,
    h.ss0, h.esp0, h.stack, hf⟩

/-- The two tests of the number. -/
lemma tests_number {back : UInt32} {v : View}
    (hcode : Assembled M address t.eip (sysCallLinkage.drop 9)) (h : InLinkage s room back v t)
    (heflags : v.eflags = setFlags statusMask (subFlags (s.reg .eax) 1)
      ((sysCallGate address).flags s.eflags)) :
    Eventually M.step (fun u => Assembled M address u.eip
        (sysCallLinkage.drop (if ValidNumber (s.reg .eax) then 12 else 16)) ∧
      ∃ v, InLinkage s room back v u) t := by
  have hone : signed 1 = 1 := rfl
  have hten : signed 10 = 10 := rfl
  have hlabels := linkage_labels hcode
  have ht : t.eflags = v.eflags ∧ t.reg .eax = s.reg .eax := by
    rw [h.sees.cpu]
    exact ⟨rfl, h.regs _ (by decide)⟩
  obtain ⟨a₁, hjl, a₂, hcmp, a₃, hjg, hrest⟩ := hcode
  have hless : less t.eflags = decide (signed (s.reg .eax) < 1) := by
    rw [ht.1, heflags, less_cmp, hone]
  have hstep : M.step t = some { t with
      eip := if less t.eflags then address .invalidSysCall else a₁ } := by
    rw [Ia32.Machine.step, hjl]
    rfl
  refine Eventually.next hstep ?_
  rw [hless]
  by_cases hlow : signed (s.reg .eax) < 1
  · have hbad : ¬ValidNumber (s.reg .eax) := fun hv => absurd hv.1 (by omega)
    rw [if_neg hbad]
    simp only [hlow, decide_true, if_true]
    have hnext := h.with_cpu (address .invalidSysCall) v.eflags h.direction
    rw [← ht.1] at hnext
    exact Eventually.here ⟨hlabels.1, _, hnext⟩
  · simp only [hlow, decide_false, Bool.false_eq_true, if_false]
    have hflags : setFlags statusMask (subFlags (s.reg .eax) 10) t.eflags &&& directionFlag =
        s.eflags &&& directionFlag := by
      rw [setFlags_and rfl rfl, ht.1, h.direction]
    have hcmpl : M.step { t with eip := a₁ } = some { t with
        eip := a₂, eflags := setFlags statusMask (subFlags (s.reg .eax) 10) t.eflags } := by
      rw [Ia32.Machine.step, hcmp, ← ht.2]
      rfl
    have hgreater : greater (setFlags statusMask (subFlags (s.reg .eax) 10) t.eflags) =
        decide (10 < signed (s.reg .eax)) := by
      rw [greater_cmp, hten]
    have hjump : M.step { t with
        eip := a₂, eflags := setFlags statusMask (subFlags (s.reg .eax) 10) t.eflags } =
          some { t with
            eip := if 10 < signed (s.reg .eax) then address .invalidSysCall else a₃
            eflags := setFlags statusMask (subFlags (s.reg .eax) 10) t.eflags } := by
      rw [Ia32.Machine.step, hjg]
      change some _ = _
      simp only [hgreater, decide_eq_true_eq]
    refine Eventually.next hcmpl (Eventually.next hjump ?_)
    by_cases hhigh : 10 < signed (s.reg .eax)
    · have hbad : ¬ValidNumber (s.reg .eax) := fun hv => absurd hv.2 (by omega)
      rw [if_neg hbad]
      simp only [hhigh, if_true]
      exact Eventually.here ⟨hlabels.1, _, h.with_cpu _ _ hflags⟩
    · rw [if_pos ⟨by omega, by omega⟩]
      simp only [hhigh, if_false]
      exact Eventually.here ⟨hrest, _, h.with_cpu _ _ hflags⟩

lemma sees_own {base : UInt32} {m : Ia32.Memory} {v : View} (h : Sees base room m v t) :
    Sees base room m ⟨t.toCpu, v.stack⟩ t := by
  rw [h.cpu]
  exact h

lemma ring0_program {c : Cpu} (hcpl : c.cpl = 3) : c.ring0.reg .esp = c.esp0 := by
  have hne : c.cpl ≠ 0 := by
    rw [hcpl]
    decide
  rw [Cpu.ring0, if_neg hne]
  exact c.set_self .esp _

/-- `INT $0x80` in a program. -/
lemma int_step (h : Loaded M address) (hcpl : s.cpl = 3) {next : UInt32}
    (hint : M.fetch s.eip = some (.int 0x80, next)) :
    M.step s = some (s.deliver (sysCallGate address) next) := by
  rw [Ia32.Machine.step, hint]
  exact (int_user_gate h s hcpl next)

/-- The way of a bad number through the linkage. -/
lemma linkage_invalid (hlinkage : Assembled M address (address .sysCallLinkage) sysCallLinkage)
    (s : State) (back : UInt32) (hroom : room < 2 ^ 32) (hn : 48 ≤ room)
    (hvirtual : s.eflags &&& virtualMode = 0) (hbad : ¬ValidNumber (s.reg .eax)) :
    Eventually M.step (fun u =>
      u.toCpu = { s.toCpu.set .eax (-1) with eip := back } ∧
      ∀ x, ¬Within x (s.ring0.reg .esp - UInt32.ofNat room) room → u.memory x = s.memory x)
      (s.deliver (sysCallGate address) back) := by
  have hlength := length_frame_le s.toCpu back
  refine (enters_linkage hlinkage s back hroom hn).trans fun t₁ ht₁ => ?_
  obtain ⟨hcode, v₁, h1, heflags⟩ := ht₁
  refine (tests_number hcode h1 heflags).trans fun t₂ ht₂ => ?_
  rw [if_neg hbad] at ht₂
  obtain ⟨hcode, v₂, h2⟩ := ht₂
  have hroom2 : 4 * (v₂.stack.length + 0) ≤ room := by
    rw [h2.stack]
    change 4 * ((s.frame back).length + 1 + 1 + 1 + 1 + 1 + 1 + 1) ≤ room
    omega
  refine (h2.sees.run hroom [.movl (.imm (-1)) .eax] hcode rfl hroom2).trans fun t₃ ht₃ => ?_
  obtain ⟨⟨-, hcode⟩, h3⟩ := ht₃
  have hreg3 : t₃.reg .eax = -1 ∧ ∀ r, r ≠ .eax → t₃.reg r = v₂.reg r := by
    rw [h3.cpu]
    exact ⟨v₂.toCpu.set_self .eax (-1), fun r hr => v₂.toCpu.set_of_ne hr (-1)⟩
  have hcpu3 : t₃.cs = v₂.cs ∧ t₃.ss = v₂.ss ∧ t₃.ss0 = v₂.ss0 ∧ t₃.esp0 = v₂.esp0 := by
    rw [h3.cpu]
    exact ⟨rfl, rfl, rfl, rfl⟩
  have hview : Sees (s.ring0.reg .esp) room s.memory ⟨t₃.toCpu,
      [s.reg .ebx, s.reg .ecx, s.reg .edx] ++ (linkageStack s back).drop 3⟩ t₃ := by
    have hown := sees_own h3
    dsimp only at hown
    rw [h2.stack] at hown
    exact hown
  refine (leaves_linkage hcode hroom hview rfl (by omega) hvirtual (hcpu3.1.trans h2.cs)
    (hcpu3.2.1.trans h2.ss) (hcpu3.2.2.1.trans h2.ss0) (hcpu3.2.2.2.trans h2.esp0)).imp
    fun u hu => ?_
  obtain ⟨hleft, hmemory⟩ := hu
  refine ⟨Cpu.ext (funext fun r => ?_) hleft.eip hleft.eflags hleft.cs hleft.ss hleft.ss0
    hleft.esp0, hmemory⟩
  by_cases hr : r = .eax
  · rw [hr, hleft.taken .eax (by decide), hreg3.1]
    exact (s.toCpu.set_self .eax (-1)).symm
  · refine Eq.trans ?_ (s.toCpu.set_of_ne hr (-1)).symm
    by_cases hkept : r ∈ [Reg.esp, .ebp, .esi, .edi]
    · exact hleft.kept r hkept
    · have htaken : r ∈ [Reg.eax, .ecx, .edx, .ebx] ∧ r ≠ .esp := by
        revert hkept
        cases r <;> decide
      rw [hleft.taken r htaken.1, hreg3.2 r hr, h2.regs r htaken.2]

/-- A system call with a number that is not one of the ten gives -1 and nothing else: every other
register, the flags, the stacks and all memory but the kernel's stack are as they were. -/
theorem int_invalid (h : Loaded M address)
    (hlinkage : Assembled M address (address .sysCallLinkage) sysCallLinkage) (s : State)
    (hcpl : s.cpl = 3) {next : UInt32} (hint : M.fetch s.eip = some (.int 0x80, next))
    (hbad : ¬ValidNumber (s.reg .eax)) (hroom : room < 2 ^ 32) (hn : 48 ≤ room)
    (hvirtual : s.eflags &&& virtualMode = 0) :
    Eventually M.step (fun u => u.toCpu = { s.toCpu.set .eax (-1) with eip := next } ∧
      ∀ x, ¬Within x (s.esp0 - UInt32.ofNat room) room → u.memory x = s.memory x) s := by
  have hinvalid := linkage_invalid hlinkage s next hroom hn hvirtual hbad
  rw [ring0_program hcpl] at hinvalid
  exact Eventually.next (int_step h hcpl hint) hinvalid

end Linkage

/-! ### The small machine -/

lemma small_linkage :
    Assembled smallKernel smallAddress (smallAddress .sysCallLinkage) sysCallLinkage :=
  ⟨rfl, _, rfl, _, rfl, _, rfl, _, rfl, _, rfl, _, rfl, _, rfl, _, rfl, _, rfl, _, rfl, _, rfl, _,
    rfl, _, rfl, _, rfl, rfl, _, rfl, rfl, _, rfl, _, rfl, _, rfl, _, rfl, _, rfl, _, rfl, trivial⟩

theorem int_invalid_small : Eventually smallKernel.step
    (fun u => u.reg .eax = -1) { smallProgram with eip := 105 } := by
  have hinvalid := int_invalid smallKernel_loaded small_linkage { smallProgram with eip := 105 } rfl
    rfl (by decide) (by decide) le_rfl rfl
  refine hinvalid.imp fun u hu => ?_
  rw [hu.1]
  rfl

end HalOs.Interrupts
