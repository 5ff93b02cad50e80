import HalOs.General.Ia32

/-!
# The words of a stack

The stack of the machine as a list of words. Straight-line code runs on the list, and the
machine follows it as long as the stack stays in its room; nothing outside that room changes.
-/

namespace Ia32

open X86 (Eventually)

/-! ### Memory -/

section Memory

variable {m m' : Memory} {a b v x lo : UInt32} {n k : ℕ} {ws : List UInt32}

lemma add_sub_self (a k : UInt32) : a + k - a = k := by
  rw [UInt32.add_comm, UInt32.add_sub_cancel]

lemma store_of_not_within (h : ¬Within x a 4) : store m a v x = m x := if_neg h

lemma load_congr (h : ∀ x, Within x a 4 → m' x = m x) : load m' a = load m a := by
  have hbyte : ∀ k : UInt32, k.toNat < 4 → m' (a + k) = m (a + k) := fun k hk => by
    refine h _ ?_
    rwa [Within, add_sub_self]
  have h0 := hbyte 0 (by decide)
  rw [UInt32.add_zero] at h0
  rw [load, load, h0, hbyte 1 (by decide), hbyte 2 (by decide), hbyte 3 (by decide)]

lemma load_store_self : load (store m a v) a = v := by
  have hbyte : ∀ k : UInt32, k.toNat < 4 →
      store m a v (a + k) = UInt8.ofNat (v.toNat / 2 ^ (8 * k.toNat)) := fun k hk => by
    rw [store, add_sub_self, if_pos hk]
  have h0 := hbyte 0 (by decide)
  rw [UInt32.add_zero] at h0
  have hv := v.toNat_lt
  rw [load, h0, hbyte 1 (by decide), hbyte 2 (by decide), hbyte 3 (by decide)]
  refine UInt32.toNat_inj.mp ?_
  simp only [UInt8.toNat_ofNat', UInt32.toNat_ofNat', UInt32.reduceToNat]
  omega

lemma within_four (h : Within x a (4 * k)) (hk : k ≤ n) : Within x a (4 * n) :=
  lt_of_lt_of_le h (by omega)

lemma within_next (h : Within x (a + 4) n) : Within x a (n + 4) := by
  unfold Within at *
  rw [UInt32.toNat_sub, UInt32.toNat_add] at h
  rw [UInt32.toNat_sub]
  have hfour : (4 : UInt32).toNat = 4 := rfl
  have hx := x.toNat_lt
  have ha := a.toNat_lt
  omega

lemma Holds.congr (h : Holds m a ws) (hsame : ∀ x, Within x a (4 * ws.length) → m' x = m x) :
    Holds m' a ws := by
  induction ws generalizing a with
  | nil => trivial
  | cons w ws ih =>
    rw [List.length_cons] at hsame
    refine ⟨?_, ih h.2 fun x hx => hsame x (within_next hx)⟩
    rw [load_congr fun x hx => hsame x (within_four (k := 1) hx (by omega)), h.1]

/-- A word below a stretch of words. -/
lemma Holds.store_below (h : Holds m a ws) (hroom : 4 * ws.length + 4 ≤ 2 ^ 32) (v : UInt32) :
    Holds (store m (a - 4) v) (a - 4) (v :: ws) := by
  refine ⟨load_store_self, ?_⟩
  rw [UInt32.sub_add_cancel]
  refine h.congr fun x hx => store_of_not_within fun hx' => ?_
  unfold Within at hx hx'
  rw [UInt32.toNat_sub] at hx hx'
  rw [UInt32.toNat_sub] at hx'
  have hfour : (4 : UInt32).toNat = 4 := rfl
  have hx := x.toNat_lt
  have ha := a.toNat_lt
  omega

lemma holds_append {ws' : List UInt32} :
    Holds m a (ws ++ ws') ↔ Holds m a ws ∧ Holds m (a + UInt32.ofNat (4 * ws.length)) ws' := by
  induction ws generalizing a with
  | nil =>
    have hzero : a + UInt32.ofNat (4 * 0) = a := UInt32.add_zero a
    rw [List.nil_append, List.length_nil, hzero]
    exact (and_iff_right trivial).symm
  | cons w ws ih =>
    have hnext : a + 4 + UInt32.ofNat (4 * ws.length) = a + UInt32.ofNat (4 * (ws.length + 1)) := by
      rw [Nat.mul_succ, UInt32.ofNat_add, UInt32.add_assoc, UInt32.add_comm 4]
      rfl
    rw [List.cons_append, List.length_cons, ← hnext]
    change load m a = w ∧ Holds m (a + 4) (ws ++ ws') ↔ (load m a = w ∧ Holds m (a + 4) ws) ∧ _
    rw [ih, and_assoc]

lemma Holds.drop (h : Holds m a ws) {n : ℕ} (hn : n ≤ ws.length) :
    Holds m (a + UInt32.ofNat (4 * n)) (ws.drop n) := by
  rw [← List.take_append_drop n ws, holds_append, List.length_take, Nat.min_eq_left hn] at h
  exact h.2

lemma exists_holds (m : Memory) (a : UInt32) (n : ℕ) : ∃ ws, ws.length = n ∧ Holds m a ws := by
  induction n generalizing a with
  | zero => exact ⟨[], rfl, trivial⟩
  | succ n ih =>
    obtain ⟨ws, hlength, hws⟩ := ih (a + 4)
    exact ⟨load m a :: ws, by rw [List.length_cons, hlength], rfl, hws⟩

end Memory

/-! ### Stretches below an address -/

section Below

variable {x base : UInt32} {j k n n' room : ℕ}

lemma sub_sub_ofNat (base : UInt32) (k j : ℕ) :
    base - UInt32.ofNat k - UInt32.ofNat j = base - UInt32.ofNat (k + j) := by
  refine UInt32.toNat_inj.mp ?_
  simp only [UInt32.toNat_sub, UInt32.toNat_ofNat']
  omega

lemma sub_add_ofNat (base : UInt32) (h : j ≤ k) :
    base - UInt32.ofNat k + UInt32.ofNat j = base - UInt32.ofNat (k - j) := by
  refine UInt32.toNat_inj.mp ?_
  simp only [UInt32.toNat_sub, UInt32.toNat_add, UInt32.toNat_ofNat']
  omega

/-- The part of the `room` bytes below `base`. -/
lemma within_mono (h : Within x (base - UInt32.ofNat k) n) (hn : n ≤ k)
    (hk : k ≤ room) : Within x (base - UInt32.ofNat room) room := by
  unfold Within at *
  have hx := x.toNat_lt
  have hbase := base.toNat_lt
  simp only [UInt32.toNat_sub, UInt32.toNat_ofNat'] at *
  omega

lemma within_disjoint (h : Within x (base - UInt32.ofNat k) n)
    (h' : Within x (base - UInt32.ofNat j) n') (hn : n ≤ k) (hj : k + n' ≤ j) (hroom : j < 2 ^ 32) :
    False := by
  unfold Within at *
  have hx := x.toNat_lt
  have hbase := base.toNat_lt
  simp only [UInt32.toNat_sub, UInt32.toNat_ofNat'] at *
  omega

end Below

/-! ### The stack as a list -/

/-- The words an instruction pushes on its way to the next one. -/
def Instr.words {T : Type} : Instr T → ℕ
  | .pushl _ | .pushfl => 1
  | .pushal => 8
  | _ => 0

/-- The registers, and the words from the top of the stack down to its base. -/
structure View extends Cpu where
  stack : List UInt32

namespace View

variable (v : View)

def push (w : UInt32) : View where
  toCpu := v.set .esp (v.reg .esp - 4)
  stack := w :: v.stack

def drop (n : ℕ) : View where
  toCpu := v.set .esp (v.reg .esp + UInt32.ofNat (4 * n))
  stack := v.stack.drop n

def pop (r : Reg) : View :=
  { v.drop 1 with toCpu := (v.drop 1).toCpu.set r (v.stack.headD 0) }

def popTo : Option Reg → View
  | none => v.drop 1
  | some r => v.pop r

/-- The instructions that the entry code is made of, on the list; `none` also when the stack
is too short. -/
def effect {T : Type} : Instr T → Option View
  | .pushl src => some (v.push (v.value src))
  | .popl dst => if 0 < v.stack.length ∧ dst ≠ .esp then some (v.pop dst) else none
  | .pushfl => some (v.push (pushedFlags v.eflags))
  | .popfl =>
    if 0 < v.stack.length then
      some { v.drop 1 with eflags := v.flagsPopped (v.stack.headD 0) }
    else none
  | .pushal => some ((pushalOrder.map v.reg).foldl push v)
  | .popal =>
    if popalOrder.length ≤ v.stack.length then some (popalOrder.foldl popTo v) else none
  | .movl src dst => if dst ≠ .esp then some { v with toCpu := v.set dst (v.value src) } else none
  | .loadStack disp dst =>
    if disp.toNat % 4 = 0 ∧ disp.toNat / 4 < v.stack.length ∧ dst ≠ .esp then
      some { v with toCpu := v.set dst (v.stack.getD (disp.toNat / 4) 0) }
    else none
  | .addl value dst =>
    if dst = .esp ∧ value.toNat % 4 = 0 ∧ value.toNat / 4 ≤ v.stack.length then
      some { v.drop (value.toNat / 4) with
        eflags := setFlags statusMask (addFlags (v.reg .esp) value) v.eflags }
    else none
  | .cmpl value dst => some { v with
      eflags := setFlags statusMask (subFlags (v.reg dst) value) v.eflags }
  | .decl dst =>
    if dst ≠ .esp then
      some { v with
        toCpu := { v.set dst (v.reg dst - 1) with
          eflags := setFlags (statusMask &&& ~~~carryFlag) (subFlags (v.reg dst) 1) v.eflags } }
    else none
  | _ => none

/-- Straight-line code on the list. -/
def run {T : Type} : List (Instr T) → View → Option View
  | [], v => some v
  | i :: is, v => (v.effect i).bind (run is)

lemma length_popTo (r : Option Reg) : (v.popTo r).stack.length = v.stack.length - 1 := by
  cases r <;> exact List.length_drop

end View

/-- The machine's stack is the list, in the `room` bytes below `base`; outside them the memory
is `m`. -/
structure Sees (base : UInt32) (room : ℕ) (m : Memory) (v : View) (s : State) : Prop where
  cpu : s.toCpu = v.toCpu
  esp : v.reg .esp = base - UInt32.ofNat (4 * v.stack.length)
  stack : Holds s.memory (v.reg .esp) v.stack
  frame : ∀ x, ¬Within x (base - UInt32.ofNat room) room → s.memory x = m x

namespace Sees

variable {base : UInt32} {room : ℕ} {m : Memory} {v v' : View} {s s' : State} {w : UInt32}

lemma push (h : Sees base room m v s) (hroom : room < 2 ^ 32)
    (hn : 4 * (v.stack.length + 1) ≤ room) (w : UInt32) :
    Sees base room m (v.push w) (s.push w) := by
  have hesp : (v.push w).reg .esp = v.reg .esp - 4 := Cpu.set_self ..
  refine ⟨?_, ?_, ?_, fun x hx => ?_⟩
  · rw [State.push, View.push, h.cpu]
  · rw [hesp, h.esp, View.push, List.length_cons, Nat.mul_succ, ← sub_sub_ofNat]
    rfl
  · rw [hesp, State.push, h.cpu]
    exact h.stack.store_below (by omega) w
  · rw [State.push, h.cpu]
    refine (store_of_not_within fun hx' => hx ?_).trans (h.frame x hx)
    rw [h.esp] at hx'
    have hfour : (4 : UInt32) = UInt32.ofNat 4 := rfl
    rw [hfour, sub_sub_ofNat] at hx'
    exact within_mono hx' (by omega) (by omega)

lemma pushes (h : Sees base room m v s) (hroom : room < 2 ^ 32) (ws : List UInt32)
    (hn : 4 * (v.stack.length + ws.length) ≤ room) :
    Sees base room m (ws.foldl View.push v) (s.pushes ws) := by
  induction ws generalizing v s with
  | nil => exact h
  | cons w ws ih =>
    rw [List.length_cons] at hn
    refine ih (h.push hroom (by omega) w) ?_
    rw [View.push, List.length_cons]
    omega

lemma top_eq (h : Sees base room m v s) (hne : 0 < v.stack.length) :
    s.top = v.stack.headD 0 := by
  obtain ⟨hcpu, -, hstack, -⟩ := h
  obtain ⟨cpu, _ | ⟨w, ws⟩⟩ := v
  · exact absurd hne (Nat.lt_irrefl 0)
  · rw [State.top, hcpu]
    exact hstack.1

lemma drop (h : Sees base room m v s) (n : ℕ) (hn : n ≤ v.stack.length) :
    Sees base room m (v.drop n) (s.drop n) := by
  have hesp : (v.drop n).reg .esp = v.reg .esp + UInt32.ofNat (4 * n) := Cpu.set_self ..
  refine ⟨?_, ?_, ?_, h.frame⟩
  · rw [State.drop, View.drop, h.cpu]
  · rw [hesp, h.esp, View.drop, List.length_drop, sub_add_ofNat base (by omega), Nat.mul_sub]
  · rw [hesp]
    exact h.stack.drop hn

/-- A change of the registers that leaves the stack pointer alone. -/
lemma with_cpu (h : Sees base room m v s) (f : Cpu → Cpu)
    (hf : ∀ c, (f c).reg .esp = c.reg .esp) :
    Sees base room m ⟨f v.toCpu, v.stack⟩ ⟨f s.toCpu, s.memory⟩ := by
  refine ⟨congrArg f h.cpu, (hf _).trans h.esp, ?_, h.frame⟩
  dsimp only
  rw [hf]
  exact h.stack

lemma set (h : Sees base room m v s) {r : Reg} (hr : r ≠ .esp) (w : UInt32) :
    Sees base room m { v with toCpu := v.set r w } { s with toCpu := s.set r w } :=
  h.with_cpu (fun c => c.set r w) fun c => c.set_of_ne hr.symm w

lemma pop (h : Sees base room m v s) {r : Reg} (hr : r ≠ .esp) (hne : 0 < v.stack.length) :
    Sees base room m (v.pop r) (s.pop r) := by
  rw [State.pop, h.top_eq hne]
  exact (h.drop 1 hne).set hr _

lemma with_eflags (h : Sees base room m v s) (f : UInt32) :
    Sees base room m { v with eflags := f } { s with eflags := f } :=
  h.with_cpu (fun c => { c with eflags := f }) fun _ => rfl

lemma with_eip (h : Sees base room m v s) (a : UInt32) :
    Sees base room m { v with eip := a } { s with eip := a } :=
  h.with_cpu (fun c => { c with eip := a }) fun _ => rfl

lemma holds_getD {a : UInt32} {ws : List UInt32} {m : Memory} (h : Holds m a ws) {n : ℕ}
    (hn : n < ws.length) : load m (a + UInt32.ofNat (4 * n)) = ws.getD n 0 := by
  have hdrop := h.drop hn.le
  rw [List.drop_eq_getElem_cons hn] at hdrop
  rw [List.getD_eq_getElem _ _ hn]
  exact hdrop.1

lemma disp_eq {disp : UInt32} (h : disp.toNat % 4 = 0) :
    disp = UInt32.ofNat (4 * (disp.toNat / 4)) := by
  have hdisp : 4 * (disp.toNat / 4) = disp.toNat := by omega
  rw [hdisp, UInt32.ofNat_toNat]

lemma pops (h : Sees base room m v s) (rs : List (Option Reg)) (hrs : some .esp ∉ rs)
    (hn : rs.length ≤ v.stack.length) :
    Sees base room m (rs.foldl View.popTo v) (rs.foldl State.popTo s) := by
  induction rs generalizing v s with
  | nil => exact h
  | cons r rs ih =>
    rw [List.length_cons] at hn
    rw [List.mem_cons, not_or] at hrs
    have hr : Sees base room m (v.popTo r) (s.popTo r) := by
      cases r with
      | none => exact h.drop 1 (by omega)
      | some r => exact h.pop (fun heq => hrs.1 (congrArg some heq.symm)) (by omega)
    exact ih hr hrs.2 (by rw [View.length_popTo]; omega)

/-- The machine follows the list. -/
theorem effect (h : Sees base room m v s) (hroom : room < 2 ^ 32) {T : Type} {i : Instr T}
    (hi : v.effect i = some v') (hn : 4 * (v.stack.length + i.words) ≤ room) :
    ∃ s', s.effect i = some s' ∧ Sees base room m v' s' := by
  cases i with
  | pushl src =>
    obtain rfl := Option.some.inj hi
    refine ⟨_, rfl, ?_⟩
    rw [h.cpu]
    exact h.push hroom hn _
  | popl dst =>
    obtain ⟨⟨hne, hdst⟩, hv⟩ := Option.ite_none_right_eq_some.mp hi
    obtain rfl := Option.some.inj hv
    exact ⟨_, rfl, h.pop hdst hne⟩
  | pushfl =>
    obtain rfl := Option.some.inj hi
    refine ⟨_, rfl, ?_⟩
    rw [h.cpu]
    exact h.push hroom hn _
  | popfl =>
    obtain ⟨hne, hv⟩ := Option.ite_none_right_eq_some.mp hi
    obtain rfl := Option.some.inj hv
    refine ⟨_, rfl, ?_⟩
    rw [h.top_eq hne, h.cpu]
    exact (h.drop 1 hne).with_eflags _
  | pushal =>
    obtain rfl := Option.some.inj hi
    refine ⟨_, rfl, ?_⟩
    rw [h.cpu]
    refine h.pushes hroom _ ?_
    rwa [List.length_map]
  | popal =>
    obtain ⟨hne, hv⟩ := Option.ite_none_right_eq_some.mp hi
    obtain rfl := Option.some.inj hv
    exact ⟨_, rfl, h.pops popalOrder (by decide) hne⟩
  | movl src dst =>
    obtain ⟨hdst, hv⟩ := Option.ite_none_right_eq_some.mp hi
    obtain rfl := Option.some.inj hv
    refine ⟨_, rfl, ?_⟩
    have hvalue : s.value src = v.value src := by rw [h.cpu]
    rw [hvalue]
    exact h.set hdst _
  | loadStack disp dst =>
    obtain ⟨⟨hdisp, hlength, hdst⟩, hv⟩ := Option.ite_none_right_eq_some.mp hi
    obtain rfl := Option.some.inj hv
    have hload : load s.memory (s.reg .esp + disp) = v.stack.getD (disp.toNat / 4) 0 := by
      rw [h.cpu, ← holds_getD h.stack hlength]
      conv_lhs => rw [disp_eq hdisp]
    refine ⟨_, rfl, ?_⟩
    rw [hload]
    exact h.set hdst _
  | addl value dst =>
    obtain ⟨⟨rfl, hvalue, hlength⟩, hv⟩ := Option.ite_none_right_eq_some.mp hi
    obtain rfl := Option.some.inj hv
    refine ⟨_, rfl, ?_⟩
    rw [h.cpu]
    have hdrop := (h.drop _ hlength).with_eflags
      (setFlags statusMask (addFlags (v.reg .esp) value) v.eflags)
    rw [State.drop, ← disp_eq hvalue, h.cpu] at hdrop
    exact hdrop
  | cmpl value dst =>
    obtain rfl := Option.some.inj hi
    have hflags := h.with_eflags (setFlags statusMask (subFlags (v.reg dst) value) v.eflags)
    refine ⟨_, rfl, ?_⟩
    rw [h.cpu] at hflags ⊢
    exact hflags
  | decl dst =>
    obtain ⟨hdst, hv⟩ := Option.ite_none_right_eq_some.mp hi
    obtain rfl := Option.some.inj hv
    refine ⟨_, rfl, ?_⟩
    rw [h.cpu]
    have hset := (h.set hdst (v.reg dst - 1)).with_eflags
      (setFlags (statusMask &&& ~~~carryFlag) (subFlags (v.reg dst) 1) v.eflags)
    rwa [h.cpu] at hset
  | _ => exact absurd hi (by simp [View.effect])

end Sees

end Ia32
