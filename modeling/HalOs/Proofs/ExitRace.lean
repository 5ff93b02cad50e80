import HalOs.Model.Exits
import HalOs.Proofs.Handlers

/-!
# What the parent of a process learns of its end

`exception_handler` hands the exception to `halt` through one global flag. As long as a call
of `halt` finds the flag clear, and no exit clears it while another one counts on it, each
parent is told how its own child ended. Two terminals are enough to lose an exception, or to
give one to the wrong parent.
-/

namespace HalOs

/-- A delivery tells the parent what its child's end was. -/
def Delivery.Right (d : Delivery) : Prop :=
  (d.value = exceptionRetVal ↔ d.ending.exception.isSome) ∧
    (d.ending.exception = none → d.value = d.ending.status.toNat)

/-- The exit has raised the flag and not tested it. -/
def Exit.Untested (x : Exit) : Prop :=
  x.ending.exception.isSome ∧ (x.next = .cache ∨ x.next = .test)

instance (x : Exit) : Decidable x.Untested := by
  unfold Exit.Untested
  infer_instance

/-- The exit is past its test of the flag. -/
def Exit.Tested (x : Exit) : Prop := match x.next with
  | .print _ => False
  | .raise => False
  | .cache => False
  | .test => False
  | .clear => True
  | .close _ => True
  | .leave => True

structure Exit.Sound (flag : Bool) (x : Exit) : Prop where
  untested : x.Untested → flag = true
  tested : x.Tested → x.value = x.ending.expected

lemma Ending.expected_right {d : Delivery} (h : d.value = d.ending.expected) : d.Right := by
  have hstatus : d.ending.status.toNat < 256 := d.ending.status.toNat_lt
  unfold Delivery.Right
  rw [h]
  cases he : d.ending.exception with
  | none =>
    simp only [expected, he, Option.isSome_none, Bool.false_eq_true, if_false, iff_false,
      forall_const, and_true, exceptionRetVal]
    omega
  | some num => simp [expected, he]

/-! ### The flag outside `exception_handler` and `halt` -/

namespace Kernel

variable {img : Image} {k k' : Kernel} {r : Regs} {f : CallFrame}

lemma scheduler_exception (h : k.scheduler r = some k') :
    k'.exceptionInChild = k.exceptionInChild := by
  obtain ⟨p, next, -, -, rfl⟩ := scheduler_cases h
  unfold resetFirstSwap
  split <;> rfl

lemma pitHandler_exception (h : k.pitHandler r = some k') :
    k'.exceptionInChild = k.exceptionInChild := by
  unfold pitHandler at h
  split at h
  · exact scheduler_exception h
  · rw [← Option.some.inj h]

lemma execute_exception {command : List UInt8} {res : Option ℤ}
    (h : k.execute img f command = some (k', res)) :
    k'.exceptionInChild = k.exceptionInChild := by
  rcases execute_cases h with ⟨-, rfl⟩ | ⟨a, mem, -, -, -, -, ⟨rfl, -⟩ | ⟨-, -, hwait, -⟩⟩
  · rfl
  · rfl
  · apply preempt_invariant (P := fun k₁ => k₁.exceptionInChild = k.exceptionInChild) _ _ hwait
    · intro r k₁ k₂ hk hs
      exact (scheduler_exception hs).trans hk
    · rfl

lemma switchScreens_exception (target : Fin 3) :
    (k.switchScreens target).exceptionInChild = k.exceptionInChild := by
  rw [switchScreens_eq]

lemma terminalSwitch_exception {target : Fin 3} (h : k.terminalSwitch img f target = some k') :
    k'.exceptionInChild = k.exceptionInChild := by
  rcases terminalSwitch_cases h with ⟨-, rfl⟩ | ⟨-, -, rfl⟩ | ⟨-, -, res, hex⟩
  · rfl
  · exact switchScreens_exception target
  · exact (execute_exception hex).trans (switchScreens_exception target)

/-- No handler or call but `halt` touches the flag. -/
lemma step_exception {e : Event} (hno : ∀ f status, e ≠ .halt f status)
    (h : k.step img e = some k') : k'.exceptionInChild = k.exceptionInChild := by
  cases e with
  | tick r => exact pitHandler_exception h
  | switch target f => exact terminalSwitch_exception h
  | key c =>
    rcases updateKbBuffer_cases h with ⟨g, rfl, -⟩ | rfl | ⟨-, -, mem, x, y, g, rfl, -⟩ <;> rfl
  | clear =>
    obtain ⟨mem, x, y, g, rfl, -⟩ := clearTerminal_cases h
    rfl
  | execute f command =>
    obtain ⟨⟨k₁, res⟩, hex, rfl⟩ := Option.map_eq_some_iff.mp h
    exact execute_exception hex
  | halt f status => exact absurd rfl (hno f status)

lemma onConsole_exception {g : Console → Console} (h : k.onConsole g = some k') :
    k'.exceptionInChild = k.exceptionInChild := by
  obtain ⟨mem, x, y, rfl⟩ := onConsole_cases h
  rfl

/-- What a completed call of `halt` tells a parent. -/
def Halted.deliveries (child parent : ℤ) (status : UInt8) :
    Halted → List Delivery
  | .parent _ frame value => [⟨child, parent, frame, ⟨none, status⟩, value⟩]
  | .shell _ _ => []

end Kernel

/-- What a statement makes of the exit that runs it, and of the others. -/
lemma Exit.exec_sound {k k' : Kernel} {x x' : Exit} (hx : x.Sound k.exceptionInChild)
    (htest : x.next = .test → x.ending.exception = none → k.exceptionInChild = false)
    (h : x.exec k = some (k', x')) : x'.Sound k'.exceptionInChild ∧
      ∀ y : Exit, (x.next = .clear → ¬y.Untested) → y.Sound k.exceptionInChild →
        y.Sound k'.exceptionInChild := by
  unfold exec at h
  cases hn : x.next with
  | print num =>
    simp only [hn] at h
    obtain ⟨k₁, hk, h⟩ := Option.map_eq_some_iff.mp h
    obtain ⟨rfl, rfl⟩ := Prod.mk.inj h
    refine ⟨⟨fun hu => by simp [Untested] at hu, fun ht => ht.elim⟩, fun y _ hy => ?_⟩
    exact (Kernel.onConsole_exception hk).symm ▸ hy
  | raise =>
    simp only [hn] at h
    obtain ⟨rfl, rfl⟩ := Prod.mk.inj (Option.some.inj h)
    exact ⟨⟨fun _ => rfl, fun ht => ht.elim⟩, fun y _ hy => ⟨fun _ => rfl, hy.tested⟩⟩
  | cache =>
    simp only [hn] at h
    obtain ⟨rfl, rfl⟩ := Prod.mk.inj (Option.some.inj h)
    exact ⟨⟨fun hu => hx.untested ⟨hu.1, Or.inl hn⟩, fun ht => ht.elim⟩, fun y _ hy => hy⟩
  | test =>
    simp only [hn] at h
    split at h
    · rename_i hflag
      obtain ⟨rfl, rfl⟩ := Prod.mk.inj (Option.some.inj h)
      -- under the guard only an exception finds the flag raised
      have hexc : x.ending.exception.isSome = true := by
        rw [Option.isSome_iff_ne_none]
        intro hnone
        exact absurd (hflag.symm.trans (htest hn hnone)) (by simp)
      refine ⟨⟨fun hu => by simp [Untested] at hu, fun _ => ?_⟩, fun y _ hy => hy⟩
      simp [Ending.expected, hexc]
    · rename_i hflag
      obtain ⟨rfl, rfl⟩ := Prod.mk.inj (Option.some.inj h)
      -- an exception has raised the flag, and no one has cleared it
      have hexc : x.ending.exception.isSome = false := by
        by_contra hsome
        exact hflag (hx.untested ⟨Bool.eq_true_of_not_eq_false hsome, Or.inr hn⟩)
      refine ⟨⟨fun hu => by simp [Untested] at hu, fun _ => ?_⟩, fun y _ hy => hy⟩
      simp [Ending.expected, hexc]
  | clear =>
    simp only [hn] at h
    obtain ⟨rfl, rfl⟩ := Prod.mk.inj (Option.some.inj h)
    have hvalue : x.value = x.ending.expected := hx.tested (by simp [Tested, hn])
    refine ⟨⟨fun hu => by simp [Untested] at hu, fun _ => hvalue⟩, fun y hy hsound => ?_⟩
    exact ⟨fun hu => absurd hu (hy rfl), hsound.tested⟩
  | close i =>
    simp only [hn] at h
    obtain ⟨rfl, rfl⟩ := Prod.mk.inj (Option.some.inj h)
    have hvalue : x.value = x.ending.expected := hx.tested (by simp [Tested, hn])
    by_cases hi : i = 7
    · exact ⟨⟨fun hu => by simp [Untested, hi] at hu, fun _ => hvalue⟩, fun y _ hy => hy⟩
    · exact ⟨⟨fun hu => by simp [Untested, hi] at hu, fun _ => hvalue⟩, fun y _ hy => hy⟩
  | leave => simp [hn] at h

namespace Exit

/-- The statements of an exit that runs alone, up to the `cli` of `halt`. -/
abbrev Steps : Kernel × Exit → Kernel × Exit → Prop :=
  Relation.ReflTransGen fun s t => s.2.exec s.1 = some t

/-- `close` of the descriptors from `i` on, `n + 1` of them. -/
def closing (i n : ℕ) (pcb : Pcb) : Pcb :=
  { pcb with
    fdArray := (List.range' i (n + 1)).foldl (fun fds j => (sysClose fds (j : ℤ)).2) pcb.fdArray }

lemma exec_keeps {s t : Kernel × Exit} (h : s.2.exec s.1 = some t) :
    t.1.currentPcb = s.1.currentPcb ∧ t.2.pid = s.2.pid ∧ s.2.next ≠ .leave := by
  unfold exec at h
  cases hn : s.2.next with
  | print num =>
    simp only [hn] at h
    obtain ⟨k, hk, rfl⟩ := Option.map_eq_some_iff.mp h
    obtain ⟨mem, x, y, rfl⟩ := Kernel.onConsole_cases hk
    simp
  | test =>
    simp only [hn] at h
    split at h <;> simp [← Option.some.inj h]
  | leave => simp [hn] at h
  | raise | cache | clear | close i =>
    simp only [hn] at h
    simp [← Option.some.inj h, Kernel.setPcb]

lemma steps_close {k : Kernel} {x : Exit} {n i : ℕ} (hi : i + n = 7)
    (hx : x.next = .close (Fin.ofNat 8 i)) :
    Steps (k, x) (k.setPcb x.pid (closing i n), { x with next := .leave }) := by
  induction n generalizing k x i with
  | zero =>
    obtain rfl : i = 7 := by omega
    apply Relation.ReflTransGen.single
    simp only [exec, hx]
    rfl
  | succ n ih =>
    have hlt : i < 8 := by omega
    have hval : (Fin.ofNat 8 i).val = i := Nat.mod_eq_of_lt hlt
    have hne : Fin.ofNat 8 i ≠ 7 := by
      intro h7
      have h7val := congrArg Fin.val h7
      rw [hval] at h7val
      simp at h7val
      omega
    have hnext : Fin.ofNat 8 i + 1 = Fin.ofNat 8 (i + 1) := by
      apply Fin.ext
      simp [Fin.val_add]
    let k₁ := k.setPcb x.pid (closing i 0)
    let x₁ : Exit := { x with next := .close (Fin.ofNat 8 (i + 1)) }
    have hone : x.exec k = some (k₁, x₁) := by
      simp only [exec, hx, if_neg hne, hnext, hval]
      rfl
    have hk : k₁.setPcb x.pid (closing (i + 1) n) = k.setPcb x.pid (closing i (n + 1)) := by
      simp [k₁, Kernel.setPcb, closing, List.range'_succ]
    exact Relation.ReflTransGen.head hone (hk ▸ ih (k := k₁) (x := x₁) (by omega) rfl)

lemma steps_test {k : Kernel} {x : Exit} (hx : x.next = .test) :
    Steps (k, x) ({ k with exceptionInChild := false }, { x with
      value := if k.exceptionInChild then exceptionRetVal else x.ending.status.toNat
      next := .close 0 }) := by
  cases hflag : k.exceptionInChild with
  | false =>
    have hk : { k with exceptionInChild := false } = k := by
      rw [← hflag]
    apply Relation.ReflTransGen.single
    rw [hk]
    simp [exec, hx, hflag]
  | true =>
    let x₁ : Exit := { x with value := exceptionRetVal, next := .clear }
    have hraised : x.exec k = some (k, x₁) := by
      simp [exec, hx, hflag, x₁]
    exact Relation.ReflTransGen.head hraised (Relation.ReflTransGen.single rfl)

/-- Up to its `cli`, `halt` reads the frame and the flag, and closes the descriptors. -/
lemma steps_halt {k : Kernel} {x : Exit} (hx : x.next = .cache) : ∃ k' x',
    Steps (k, x) (k', x') ∧ k'.vacate x.pid = k.release x.pid ∧ x' = { x with
      frame := (k.pcbs x.pid).saved
      value := if k.exceptionInChild then exceptionRetVal else x.ending.status.toNat
      next := .leave } := by
  let x₁ : Exit := { x with frame := (k.pcbs x.pid).saved, next := .test }
  have hcache : x.exec k = some (k, x₁) := by
    simp only [exec, hx, x₁]
  refine ⟨_, _, Relation.ReflTransGen.head hcache ((steps_test rfl).trans
    (steps_close (Nat.zero_add 7) rfl)), ?_, rfl⟩
  simp [Kernel.setPcb, closing, Kernel.release, Kernel.vacate, x₁, List.range_eq_range']

end Exit

namespace Exits

variable {img : Image} {m m' : Exits} {x : Exit} {f : CallFrame}

/-- A call of `halt` finds the flag clear, and no exit clears a flag another one counts on. -/
def Exclusive (m : Exits) : ExitEvent → Prop
  | .run _ => ∀ x ∈ m.running,
      (x.next = .test → x.ending.exception = none → m.kernel.exceptionInChild = false) ∧
        (x.next = .clear → ∀ y ∈ m.waiting, ¬y.Untested)
  | _ => True

structure Sound (m : Exits) : Prop where
  pending : ∀ x ∈ m.pending, x.Sound m.kernel.exceptionInChild
  delivered : ∀ d ∈ m.delivered, d.Right

lemma running_mem (h : m.running = some x) : x ∈ m.pending := List.mem_of_find?_eq_some h

lemma waiting_sound (hm : m.Sound) : ∀ y ∈ m.waiting, y.Sound m.kernel.exceptionInChild :=
  fun y hy => hm.pending y (List.mem_of_mem_eraseP hy)

lemma leave_sound (hm : m.Sound) (hx : x.value = x.ending.expected)
    (h : m.leave img f x = some m') : m'.Sound := by
  unfold leave at h
  dsimp only at h
  split at h
  · obtain ⟨⟨k', res⟩, hex, h⟩ := Option.bind_eq_some_iff.mp h
    obtain ⟨pid, -, rfl⟩ := Option.map_eq_some_iff.mp h
    have hflag := Kernel.execute_exception hex
    refine ⟨fun y hy => ?_, hm.delivered⟩
    exact hflag.symm ▸ waiting_sound hm y hy
  · obtain rfl := Option.some.inj h
    refine ⟨waiting_sound hm, fun d hd => ?_⟩
    rcases List.mem_cons.mp hd with rfl | hd
    · exact Ending.expected_right hx
    · exact hm.delivered d hd

lemma exec_sound (hm : m.Sound) (hrun : m.running = some x) (hg : m.Exclusive (.run f))
    (h : m.exec img f x = some m') : m'.Sound := by
  obtain ⟨htest, hclear⟩ := hg x hrun
  have hx := hm.pending x (running_mem hrun)
  unfold exec at h
  split at h
  · rename_i hn
    exact leave_sound hm (hx.tested (by simp [Exit.Tested, hn])) h
  · obtain ⟨⟨k, x'⟩, hexec, rfl⟩ := Option.map_eq_some_iff.mp h
    obtain ⟨hx', hothers⟩ := Exit.exec_sound hx htest hexec
    refine ⟨fun y hy => ?_, hm.delivered⟩
    rcases List.mem_cons.mp hy with rfl | hy
    · exact hx'
    · exact hothers y (fun hn => hclear hn y hy) (waiting_sound hm y hy)

lemma begin_sound {ending : Ending} (hm : m.Sound) (h : m.begin ending = some m') :
    m'.Sound := by
  obtain ⟨p, -, h⟩ := Option.bind_eq_some_iff.mp h
  split at h
  · obtain rfl := Option.some.inj h
    refine ⟨fun y hy => ?_, hm.delivered⟩
    rcases List.mem_cons.mp hy with rfl | hy
    · cases he : ending.exception with
      | none =>
        refine ⟨fun hu => absurd hu.1 (by simp [Exit.start, he]), fun ht => ?_⟩
        simp [Exit.Tested, Exit.start, he] at ht
      | some num =>
        refine ⟨fun hu => ?_, fun ht => ?_⟩
        · simp [Exit.Untested, Exit.start, he] at hu
        · simp [Exit.Tested, Exit.start, he] at ht
    · exact hm.pending y hy
  · exact absurd h (by simp)

lemma kernel_sound {e : Event} (hm : m.Sound) (h : m.step img (.kernel e) = some m') :
    m'.Sound := by
  simp only [step] at h
  split at h
  · rename_i hpermits
    obtain ⟨k, hk, rfl⟩ := Option.map_eq_some_iff.mp h
    have hno : ∀ f status, e ≠ .halt f status := by
      rintro f status rfl
      exact absurd hpermits (by simp [permits])
    refine ⟨fun y hy => ?_, hm.delivered⟩
    exact (Kernel.step_exception hno hk).symm ▸ hm.pending y hy
  · exact absurd h (by simp)

lemma step_sound {e : ExitEvent} (hm : m.Sound) (hg : m.Exclusive e)
    (h : m.step img e = some m') : m'.Sound := by
  cases e with
  | kernel e => exact kernel_sound hm h
  | halt status => exact begin_sound hm h
  | fault num status => exact begin_sound hm h
  | run f =>
    obtain ⟨x, hrun, h⟩ := Option.bind_eq_some_iff.mp h
    exact exec_sound hm hrun hg h

/-! ### An exit nothing interrupts -/

section Uninterrupted

variable {k : Kernel} {ps : List Exit} {ds : List Delivery}

lemma running_head (h : k.currentPcb = some x.pid) : running ⟨k, x :: ps, ds⟩ = some x := by
  simp [running, isRunning, h]

lemma waiting_head (h : k.currentPcb = some x.pid) : waiting ⟨k, x :: ps, ds⟩ = ps := by
  simp [waiting, isRunning, h]

/-- The run of one exit alone. -/
abbrev Alone (img : Image) (f : CallFrame) : Exits → List ExitEvent → Exits → Prop :=
  Runs.Path (step img) fun _ e => e = .run f

lemma Alone.one (h : k.currentPcb = some x.pid)
    (hexec : exec img f x ⟨k, x :: ps, ds⟩ = some m') :
    Alone img f ⟨k, x :: ps, ds⟩ [.run f] m' := by
  have hstep : step img ⟨k, x :: ps, ds⟩ (.run f) = some m' := by
    simp only [step, running_head h, Option.bind_some, hexec]
  exact Runs.Path.cons rfl hstep (Runs.Path.nil _)

lemma Alone.steps (img : Image) (f : CallFrame) (ps : List Exit) (ds : List Delivery)
    {s t : Kernel × Exit} (h : Exit.Steps s t)
    (hp : s.1.currentPcb = some s.2.pid) :
    ∃ es, Alone img f ⟨s.1, s.2 :: ps, ds⟩ es ⟨t.1, t.2 :: ps, ds⟩ := by
  induction h using Relation.ReflTransGen.head_induction_on with
  | refl => exact ⟨[], Runs.Path.nil _⟩
  | @head s u hexec _ ih =>
    obtain ⟨hcur, hpid, hnext⟩ := Exit.exec_keeps hexec
    obtain ⟨es, hes⟩ := ih (by rw [hcur, hpid, hp])
    refine ⟨.run f :: es, (Alone.one hp ?_).append hes⟩
    simp only [exec, if_neg hnext, hexec, waiting_head hp, Option.map_some]

/-- From `cli` on, an exit that read its frame and status does what `halt` does. -/
lemma leave_alone {k' : Kernel} {status : UInt8} {res : Kernel.Halted}
    (hcur : k'.currentPcb = some x.pid) (hvacate : k'.vacate x.pid = k.release x.pid)
    (hp : k.currentPcb = some x.pid) (hending : x.ending = ⟨none, status⟩)
    (hread : (x.frame, x.value) = ((k.pcbs x.pid).saved,
      if k.exceptionInChild then exceptionRetVal else status.toNat))
    (h : k.halt img f status = some res) : leave img f x ⟨k', x :: ps, ds⟩ =
      some ⟨res.kernel, ps, res.deliveries x.pid (k.pcbs x.pid).parentProcessId status ++ ds⟩ := by
  have hparent : ((k.release x.pid).pcbs x.pid).parentProcessId =
      (k.pcbs x.pid).parentProcessId := by
    simp [Kernel.release, Kernel.setPcb]
  obtain ⟨hframe, hvalue⟩ := Prod.mk.inj hread
  obtain ⟨q, hq, hres⟩ := Kernel.halt_cases h
  obtain rfl := Option.some.inj (hp.symm.trans hq)
  simp only [leave, waiting_head hcur, hvacate, Kernel.release_processId, hparent, hframe, hvalue,
    hending]
  rcases hres with ⟨hlt, k', pid, hex, rfl⟩ | ⟨hge, rfl⟩
  · rw [if_pos hlt, hex]
    rfl
  · rw [if_neg (not_lt.mpr hge)]
    rfl

/-- A call of `halt` that nothing interrupts does what `halt` does, and the value it returns to
the parent is recorded. -/
theorem halt_uninterrupted {p : ℤ} {status : UInt8} {res : Kernel.Halted}
    (hp : k.currentPcb = some p) (hfree : running ⟨k, ps, ds⟩ = none)
    (h : k.halt img f status = some res) : ∃ x es,
      begin ⟨none, status⟩ ⟨k, ps, ds⟩ = some ⟨k, x :: ps, ds⟩ ∧
      Alone img f ⟨k, x :: ps, ds⟩ es
        ⟨res.kernel, ps, res.deliveries p (k.pcbs p).parentProcessId status ++ ds⟩ := by
  let x : Exit := .start p ⟨none, status⟩
  have hbegin : begin ⟨none, status⟩ ⟨k, ps, ds⟩ = some ⟨k, x :: ps, ds⟩ := by
    simp [begin, hp, hfree, x]
  obtain ⟨k', x', hsteps, hvacate, rfl⟩ := Exit.steps_halt (k := k) (x := x) rfl
  obtain ⟨es, hes⟩ := Alone.steps img f ps ds hsteps hp
  have hcur : k'.currentPcb = some p := by
    have hkept : (k'.vacate p).currentPcb = (k.release p).currentPcb :=
      congrArg Kernel.currentPcb hvacate
    exact hkept.trans hp
  refine ⟨x, es ++ [.run f], hbegin, hes.append (Alone.one hcur ?_)⟩
  exact (if_pos rfl).trans (leave_alone hcur hvacate hp rfl rfl h)

end Uninterrupted

/-- In every run whose exits take turns, each parent is told how its own child ended. -/
theorem values_run {k : Kernel} {es : List ExitEvent}
    (h : Runs.Path (step img) Exclusive (start k) es m) : ∀ d ∈ m.delivered, d.Right :=
  (h.invariant (fun _ _ _ hm hg hs => step_sound hm hg hs) (by constructor <;> simp [start])).delivered

instance (m : Exits) (e : ExitEvent) : Decidable (m.Exclusive e) := by
  cases e <;> unfold Exclusive <;> infer_instance

/-- Shells on two terminals, and a program on each. -/
def twoPrograms : List ExitEvent :=
  [.kernel (.execute bareFrame shellCommand), .kernel (.execute bareFrame shellCommand),
    .kernel (.tick ⟨0, 0⟩), .kernel (.switch 1 bareFrame),
    .kernel (.execute bareFrame shellCommand)]

/-- The program of the second terminal faults, and then that of the first one halts. -/
def turns : List ExitEvent :=
  twoPrograms ++ .fault 14 0 :: List.replicate 14 (.run bareFrame) ++
    [.kernel (.tick ⟨0, 0⟩), .halt 7] ++ List.replicate 11 (.run bareFrame)

theorem values_run_turns : ∃ m : Exits,
    m.delivered.map (fun d => (d.child, d.parent, d.value)) = [(3, 0, 7), (4, 1, 256)] ∧
      ∀ d ∈ m.delivered, d.Right := by
  have hend : (Runs.run (step shellImage) Exclusive
      (start (Kernel.boot ⟨0, 0⟩ (fun _ => 0) 0 0)) turns).map
      (fun m => m.delivered.map fun d => (d.child, d.parent, d.value)) =
        some [(3, 0, 7), (4, 1, 256)] := by
    decide +kernel
  obtain ⟨m, hrun, hm⟩ := Option.map_eq_some_iff.mp hend
  exact ⟨m, hm, values_run (Runs.path_of_run hrun)⟩

/-- A tick comes before the fault is handled, and the program of the first terminal halts. -/
def crossing : List ExitEvent :=
  twoPrograms ++ .fault 14 0 :: List.replicate 2 (.run bareFrame) ++
    [.kernel (.tick ⟨0, 0⟩), .halt 7] ++ List.replicate 12 (.run bareFrame)

theorem halt_takes_exception : ¬∀ (img : Image) (frames : TableFrames) (mem : Memory) (x y : ℕ)
    (es : List ExitEvent) (m : Exits),
    Runs.Path (step img) (fun _ _ => True) (start (Kernel.boot frames mem x y)) es m →
      ∀ d ∈ m.delivered, d.Right := by
  intro h
  have hend : (Runs.run (step shellImage) (fun _ _ => True)
      (start (Kernel.boot ⟨0, 0⟩ (fun _ => 0) 0 0)) crossing).map Exits.delivered =
        some [⟨3, 0, ⟨0, 0⟩, ⟨none, 7⟩, 256⟩] := by
    decide +kernel
  obtain ⟨m, hrun, hm⟩ := Option.map_eq_some_iff.mp hend
  have hright := h _ _ _ _ _ _ m (Runs.path_of_run hrun) ⟨3, 0, ⟨0, 0⟩, ⟨none, 7⟩, 256⟩ (by simp [hm])
  exact absurd (hright.1.mp rfl) (by simp)

end Exits

end HalOs
