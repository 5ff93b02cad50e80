import HalOs.General.Ia32Stack

/-!
# Calls, interrupts and their return

Straight-line code of a listing as one step on the list of the stack; the rule for a call of a
compiled function, from what its calling convention promises; and an interrupt through a gate
with the `iret` that ends it.
-/

namespace Ia32

open X86 (Eventually)

/-! ### Straight-line code -/

lemma effect_map {T T' : Type} (f : T → T') (s : State) (i : Instr T) :
    s.effect (i.map f) = s.effect i := by
  cases i <;> rfl

lemma exec_of_effect {M : Machine} {s s' : State} {i : Instr UInt32} (h : s.effect i = some s')
    (next : UInt32) : M.exec s next i = some { s' with eip := next } := by
  cases i with
  | jmp | jl | jg | call | callTable | ret | int | iret => exact absurd h (by simp [State.effect])
  | _ => exact congrArg (Option.map fun s : State => { s with eip := next }) h

namespace View

variable {v v' : View} {T : Type}

lemma pushes_eip (v : View) (a : UInt32) (ws : List UInt32) :
    ws.foldl push { v with eip := a } = { ws.foldl push v with eip := a } := by
  induction ws generalizing v with
  | nil => rfl
  | cons w ws ih => exact ih (v.push w)

lemma pops_eip (v : View) (a : UInt32) (rs : List (Option Reg)) :
    rs.foldl popTo { v with eip := a } = { rs.foldl popTo v with eip := a } := by
  induction rs generalizing v with
  | nil => rfl
  | cons r rs ih =>
    cases r with
    | none => exact ih (v.drop 1)
    | some r => exact ih (v.pop r)

lemma effect_eip (v : View) (a : UInt32) (i : Instr T) : View.effect { v with eip := a } i =
    (v.effect i).map fun v => { v with eip := a } := by
  cases i with
  | pushal => exact congrArg some (pushes_eip v a _)
  | popal =>
    simp only [effect, pops_eip]
    split_ifs <;> rfl
  | popl | movl | loadStack | addl | decl | popfl =>
    simp only [effect]
    split_ifs <;> rfl
  | _ => rfl

lemma run_eip (v : View) (a : UInt32) (is : List (Instr T)) : View.run is { v with eip := a } =
    (v.run is).map fun v => { v with eip := a } := by
  induction is generalizing v with
  | nil => rfl
  | cons i is ih =>
    rw [run, run, effect_eip]
    cases v.effect i with
    | none => rfl
    | some v' => exact ih v'

lemma length_pops_le (v : View) (rs : List (Option Reg)) :
    (rs.foldl popTo v).stack.length ≤ v.stack.length := by
  induction rs generalizing v with
  | nil => exact le_rfl
  | cons r rs ih => exact (ih _).trans (by rw [length_popTo]; omega)

lemma length_effect {i : Instr T} (h : v.effect i = some v') :
    v'.stack.length ≤ v.stack.length + i.words := by
  cases i with
  | jmp | jl | jg | call | callTable | ret | int | iret => exact absurd h (by simp [effect])
  | pushl | pushfl | pushal | cmpl =>
    obtain rfl := Option.some.inj h
    simp [push, pushalOrder, Instr.words]
  | popal =>
    obtain ⟨-, hv⟩ := Option.ite_none_right_eq_some.mp h
    obtain rfl := Option.some.inj hv
    have hle := length_pops_le v popalOrder
    omega
  | _ =>
    obtain ⟨-, hv⟩ := Option.ite_none_right_eq_some.mp h
    obtain rfl := Option.some.inj hv
    simp [pop, drop]
    try omega

end View

namespace View

end View

section Runs

variable {M : Machine} {base : UInt32} {room : ℕ} {m : Memory} {v v' : View} {s : State} {L : Type}
  {address : L → UInt32} {rest : List (Line L)}

/-- A stretch of straight-line code runs as it does on the list. -/
theorem Sees.run (h : Sees base room m v s) (hroom : room < 2 ^ 32) (is : List (Instr L))
    (hcode : Assembled M address s.eip (is.map .code ++ rest)) (hrun : v.run is = some v')
    (hn : 4 * (v.stack.length + (is.map Instr.words).sum) ≤ room) :
    Eventually M.step (fun t => Assembled M address t.eip rest ∧
      Sees base room m { v' with eip := t.eip } t) s := by
  induction is generalizing v v' s with
  | nil =>
    obtain rfl := Option.some.inj hrun
    refine Eventually.here ⟨hcode, ?_⟩
    exact h.with_eip s.eip
  | cons i is ih =>
    obtain ⟨next, hfetch, hcode⟩ := hcode
    obtain ⟨v₁, hi, hrun⟩ := Option.bind_eq_some_iff.mp hrun
    rw [List.map_cons, List.sum_cons] at hn
    obtain ⟨s₁, hs₁, h₁⟩ := h.effect hroom hi (by omega)
    have hstep : M.step s = some { s₁ with eip := next } := by
      rw [Machine.step, hfetch, Option.bind_some]
      exact exec_of_effect ((effect_map address s i).trans hs₁) next
    have hlength := View.length_effect hi
    have hrun' : View.run is { v₁ with eip := next } = some { v' with eip := next } := by
      rw [View.run_eip, hrun, Option.map_some]
    refine Eventually.next hstep ?_
    refine (ih (h₁.with_eip next) hcode hrun' ?_).imp fun t ht => ht
    dsimp only
    omega

end Runs

/-! ### Calls of compiled functions -/

/-- What a function compiled for the C calling convention leaves behind: it may change `eax`,
`ecx`, `edx` and the flags, its arguments, the `depth` bytes below them, and `writes`. -/
structure Returned (nargs depth : ℕ) (writes : Set UInt32) (s t : State) : Prop where
  eip : t.eip = s.top
  esp : t.reg .esp = s.reg .esp + 4
  saved : ∀ r ∈ [Reg.ebx, .ebp, .esi, .edi], t.reg r = s.reg r
  cs : t.cs = s.cs
  ss : t.ss = s.ss
  ss0 : t.ss0 = s.ss0
  esp0 : t.esp0 = s.esp0
  memory : ∀ x, x ∉ writes →
    ¬Within x (s.reg .esp - UInt32.ofNat depth) (depth + 4 + 4 * nargs) → t.memory x = s.memory x

/-- The stretch is not touched from outside the stack. -/
def Spares (writes : Set UInt32) (base : UInt32) (room : ℕ) : Prop :=
  ∀ x ∈ writes, ¬Within x (base - UInt32.ofNat room) room

section Calls

variable {M : Machine} {base f back : UInt32} {room nargs depth : ℕ} {m : Memory} {v : View}
  {s t : State} {writes : Set UInt32} {R : List UInt32 → Memory → UInt32 → Memory → Prop}
  {args frame : List UInt32}

/-- The words behind the arguments are kept. -/
lemma Sees.returned (h : Sees base room m v s) (hroom : room < 2 ^ 32)
    (hstack : v.stack = back :: args ++ frame) (hn : 4 * v.stack.length + depth ≤ room)
    (hspares : Spares writes base room) (ht : Returned args.length depth writes s t) :
    t.eip = back ∧ (∃ args', args'.length = args.length ∧
      Sees base room t.memory ⟨t.toCpu, args' ++ frame⟩ t) ∧
    ∀ x, x ∉ writes → ¬Within x (base - UInt32.ofNat room) room → t.memory x = m x := by
  have hlength : v.stack.length = 1 + args.length + frame.length := by
    rw [hstack, List.length_append, List.length_cons]
    omega
  have hesp : s.reg .esp = base - UInt32.ofNat (4 * v.stack.length) := by
    rw [h.cpu]
    exact h.esp
  have hafter : t.reg .esp = base - UInt32.ofNat (4 * (args.length + frame.length)) := by
    have hfour : (4 : UInt32) = UInt32.ofNat 4 := rfl
    rw [ht.esp, hesp, hfour, sub_add_ofNat base (by omega)]
    congr 2
    omega
  have hholds := h.stack
  rw [hstack, List.cons_append, ← congrArg (fun c : Cpu => c.reg .esp) h.cpu] at hholds
  have hframe := (holds_append.mp hholds.2).2
  have hplace : s.reg .esp + 4 + UInt32.ofNat (4 * args.length) =
      base - UInt32.ofNat (4 * frame.length) := by
    rw [← ht.esp, hafter, sub_add_ofNat base (by omega)]
    congr 2
    omega
  have hbelow : s.reg .esp - UInt32.ofNat depth =
      base - UInt32.ofNat (4 * v.stack.length + depth) := by
    rw [hesp, sub_sub_ofNat]
  obtain ⟨args', hargs', hholds'⟩ := exists_holds t.memory (t.reg .esp) args.length
  have hargsLength : (args' ++ frame).length = args.length + frame.length := by
    rw [List.length_append, hargs']
  refine ⟨ht.eip.trans hholds.1, ⟨args', hargs', rfl, ?_, ?_, fun _ _ => rfl⟩, fun x hx hout => ?_⟩
  · rw [hargsLength]
    exact hafter
  · refine holds_append.mpr ⟨hholds', ?_⟩
    rw [hargs', ht.esp, hplace]
    rw [hplace] at hframe
    refine hframe.congr fun x hx => ht.memory x (fun hmem => hspares x hmem ?_) fun hin => ?_
    · exact within_mono hx le_rfl (by omega)
    · rw [hbelow] at hin
      exact within_disjoint hx hin le_rfl (by omega) (by omega)
  · rw [ht.memory x hx, h.frame x hout]
    refine fun hin => hout ?_
    rw [hbelow] at hin
    exact within_mono hin (by omega) hn

end Calls

/-! ### Interrupts -/

/-- The registers at a handler's first instruction. -/
def Cpu.entered (c : Cpu) (g : Gate) (back : UInt32) : Cpu :=
  { c.ring0.set .esp (c.ring0.reg .esp - UInt32.ofNat (4 * (c.frame back).length)) with
    eip := g.offset
    cs := g.selector
    eflags := g.flags c.eflags }

namespace Cpu

lemma ring0_of_ne (c : Cpu) {r : Reg} (hr : r ≠ .esp) : c.ring0.reg r = c.reg r := by
  unfold ring0
  split_ifs
  · rfl
  · exact c.set_of_ne hr c.esp0

lemma ring0_ss0 (c : Cpu) : c.ring0.ss0 = c.ss0 := by
  unfold ring0
  split_ifs <;> rfl

lemma ring0_esp0 (c : Cpu) : c.ring0.esp0 = c.esp0 := by
  unfold ring0
  split_ifs <;> rfl

lemma entered_of_ne (c : Cpu) (g : Gate) (back : UInt32) {r : Reg} (hr : r ≠ .esp) :
    (c.entered g back).reg r = c.reg r :=
  (c.ring0.set_of_ne hr _).trans (c.ring0_of_ne hr)

end Cpu

section Interrupts

variable {base back : UInt32} {room : ℕ} {m : Memory} {v : View} {s t : State} {g : Gate}

lemma length_frame_le (c : Cpu) (back : UInt32) : (c.frame back).length ≤ 5 := by
  unfold Cpu.frame
  split_ifs <;> simp

lemma pushes_view (v : View) (ws : List UInt32) :
    ws.foldl View.push v = ⟨v.set .esp (v.reg .esp - UInt32.ofNat (4 * ws.length)),
      ws.reverse ++ v.stack⟩ := by
  induction ws generalizing v with
  | nil =>
    have hzero : v.reg .esp - UInt32.ofNat (4 * 0) = v.reg .esp := UInt32.sub_zero _
    rw [List.length_nil, hzero, Cpu.set, Function.update_eq_self]
    rfl
  | cons w ws ih =>
    have hfour : (4 : UInt32) = UInt32.ofNat 4 := rfl
    have hplace : v.reg .esp - 4 - UInt32.ofNat (4 * ws.length) =
        v.reg .esp - UInt32.ofNat (4 * (ws.length + 1)) := by
      rw [hfour, sub_sub_ofNat]
      congr 2
      omega
    rw [List.foldl_cons, ih, List.length_cons, List.reverse_cons, List.append_assoc, ← hplace]
    simp only [View.push, Cpu.set, Function.update_self, Function.update_idem, List.cons_append,
      List.nil_append]

/-- An interrupt leaves its frame on the stack and enters the handler. -/
lemma Sees.deliver (s : State) (g : Gate) (back : UInt32) (hroom : room < 2 ^ 32)
    (hn : 20 ≤ room) :
    Sees (s.ring0.reg .esp) room s.memory ⟨s.entered g back, s.frame back⟩ (s.deliver g back) := by
  have hlength := length_frame_le s.toCpu back
  have hzero : s.ring0.reg .esp - UInt32.ofNat 0 = s.ring0.reg .esp := UInt32.sub_zero _
  have hsees : Sees (s.ring0.reg .esp) room s.memory ⟨s.ring0, []⟩ { s with toCpu := s.ring0 } :=
    ⟨rfl, hzero.symm, trivial, fun _ _ => rfl⟩
  have hpushes := hsees.pushes hroom (s.frame back).reverse (by
    rw [List.length_reverse, List.length_nil]
    omega)
  rw [pushes_view, List.reverse_reverse, List.append_nil, List.length_reverse] at hpushes
  exact hpushes.with_cpu (fun c => { c with
    eip := g.offset, cs := g.selector, eflags := g.flags s.eflags }) fun _ => rfl

lemma toUInt16_toUInt32 (x : UInt16) : x.toUInt32.toUInt16 = x := by
  refine UInt16.toNat_inj.mp ?_
  have hx := x.toNat_lt
  rw [UInt32.toNat_toUInt16, UInt16.toNat_toUInt32, Nat.mod_eq_of_lt hx]

/-- `iret` on the frame of an interrupt, with the other registers as they were, is back where
the interrupt came. -/
theorem Sees.iret {c : Cpu} (h : Sees (c.ring0.reg .esp) room m v t)
    (hstack : v.stack = c.frame back) (hregs : ∀ r, r ≠ .esp → v.reg r = c.reg r)
    (hcpl : v.cpl = 0) (hnested : v.eflags &&& nestedTask = 0)
    (hvirtual : c.eflags &&& virtualMode = 0) (hss : v.ss = c.ring0.ss) (hss0 : v.ss0 = c.ss0)
    (hesp0 : v.esp0 = c.esp0) : t.iret = some ⟨{ c with eip := back }, t.memory⟩ := by
  obtain ⟨cpu, stack⟩ := v
  subst hstack
  have hcpu : t.toCpu = cpu := h.cpu
  have hlength : 3 ≤ (c.frame back).length := by simp [Cpu.frame]
  have h1 := (h.drop 1 (by dsimp only; omega)).top_eq (by simp [View.drop, Cpu.frame])
  have h2 := (h.drop 2 (by dsimp only; omega)).top_eq (by simp [View.drop, Cpu.frame])
  have h0 : t.top = back := h.top_eq (by dsimp only; omega)
  have hcs : (t.drop 1).top.toUInt16 = c.cs := by
    rw [h1]
    exact toUInt16_toUInt32 c.cs
  have heflags : (t.drop 2).top = c.eflags := h2
  -- After the first three words.
  have h3 := (h.drop 3 hlength).with_cpu
    (fun c' => { c' with eip := back, cs := c.cs, eflags := c.eflags }) fun _ => rfl
  have hkept : ∀ r, r ≠ .esp → (t.drop 3).reg r = c.reg r := fun r hr =>
    (t.toCpu.set_of_ne hr _).trans ((congrArg (fun c' : Cpu => c'.reg r) hcpu).trans (hregs r hr))
  have hplace : (t.drop 3).reg .esp =
      c.ring0.reg .esp - UInt32.ofNat (4 * ((c.frame back).drop 3).length) :=
    (congrArg (fun c' : Cpu => c'.reg .esp) h3.cpu).trans h3.esp
  have hfields : (t.drop 3).ss = c.ring0.ss ∧ (t.drop 3).ss0 = c.ss0 ∧
      (t.drop 3).esp0 = c.esp0 := by
    have hold : t.ss = cpu.ss ∧ t.ss0 = cpu.ss0 ∧ t.esp0 = cpu.esp0 := by
      rw [hcpu]
      exact ⟨rfl, rfl, rfl⟩
    exact ⟨hold.1.trans hss, hold.2.1.trans hss0, hold.2.2.trans hesp0⟩
  unfold State.iret
  rw [h0, hcs, heflags, if_neg (by rw [hcpu]; simp [hcpl, hnested, hvirtual])]
  refine congrArg some ?_
  by_cases hring : c.cs &&& 3 = 0
  · have hcpl' : c.cpl = 0 := hring
    have hzero : c.reg .esp - UInt32.ofNat (4 * 0) = c.reg .esp := UInt32.sub_zero _
    simp only [Cpu.ring0, Cpu.frame, hcpl', if_true, List.drop_succ_cons, List.drop_zero,
      List.length_nil, hzero] at hplace hfields
    rw [if_pos hring]
    refine congrArg₂ State.mk (Cpu.ext (funext fun r => ?_) rfl rfl rfl hfields.1 hfields.2.1
      hfields.2.2) rfl
    by_cases hr : r = .esp
    · exact hr ▸ hplace
    · exact hkept r hr
  · have hcpl' : c.cpl ≠ 0 := hring
    simp only [Cpu.frame, hcpl', if_false] at h3
    have hesp := h3.top_eq (Nat.succ_pos _)
    have hold := (h3.drop 1 (Nat.succ_pos _)).top_eq (Nat.succ_pos _)
    rw [if_neg hring]
    refine congrArg₂ State.mk (Cpu.ext (funext fun r => ?_) rfl rfl rfl ?_ hfields.2.1
      hfields.2.2) rfl
    · change (Cpu.set _ .esp _).reg r = c.reg r
      by_cases hr : r = .esp
      · rw [hr, Cpu.set_self]
        exact hesp
      · rw [Cpu.set_of_ne _ hr]
        exact hkept r hr
    · exact (congrArg UInt32.toUInt16 hold).trans (toUInt16_toUInt32 c.ss)

end Interrupts

end Ia32
