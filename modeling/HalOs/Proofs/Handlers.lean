import HalOs.Model.Events

/-!
# What the handlers and system calls do

One inversion lemma for each of `scheduler`, `preempt`, `terminal_switch`, `execute` and
`halt`: when it completes, the state it leaves is written out in terms of the state before.
Everything later about runs of the kernel is derived from these.
-/

namespace HalOs

namespace Kernel

variable {img : Image} {k k' : Kernel} {r : Regs} {f : CallFrame} {target : Fin 3}

/-! ### Scheduling -/

/-! A tick saves registers in one PCB and a cursor in one terminal, and nothing else there. -/

lemma saved_pcbs (p q : ℤ) : (k.resetFirstSwap.saveContext r p).pcbs q =
    { k.pcbs q with scheduling := if q = p then r else (k.pcbs q).scheduling } := by
  unfold resetFirstSwap
  by_cases hq : q = p
  · subst hq
    split <;> simp [saveContext, setPcb, setTerminal]
  · split <;> simp [saveContext, setPcb, setTerminal, hq]

lemma saved_terminals (p : ℤ) (t : Fin 3) : ∃ x y,
    (k.resetFirstSwap.saveContext r p).terminals t =
      { k.terminals t with terminalScreenX := x, terminalScreenY := y } := by
  have hterm : k.resetFirstSwap.terminals = k.terminals := by
    unfold resetFirstSwap
    split <;> rfl
  by_cases ht : t = k.resetFirstSwap.scheduledTerminal
  · refine ⟨k.resetFirstSwap.screenX, k.resetFirstSwap.screenY, ?_⟩
    rw [← hterm, ht]
    simp [saveContext, setPcb, setTerminal]
  · refine ⟨(k.terminals t).terminalScreenX, (k.terminals t).terminalScreenY, ?_⟩
    rw [← hterm]
    simp [saveContext, setPcb, setTerminal, ht]

lemma saved_activePid (p : ℤ) (t : Fin 3) :
    ((k.resetFirstSwap.saveContext r p).terminals t).activePid = (k.terminals t).activePid := by
  obtain ⟨x, y, h⟩ := saved_terminals (k := k) (r := r) p t
  rw [h]

lemma saved_initialized (p : ℤ) : (k.resetFirstSwap.saveContext r p).initializedTerminals =
    k.initializedTerminals := by
  unfold resetFirstSwap
  split <;> rfl

theorem scheduler_cases (h : k.scheduler r = some k') :
    ∃ p next, k.currentPcb = some p ∧ k.initializedTerminals next = true ∧
      k' = (k.resetFirstSwap.saveContext r p).switchTo next := by
  obtain ⟨p, hp, h⟩ := Option.bind_eq_some_iff.mp h
  obtain ⟨next, hn, rfl⟩ := Option.map_eq_some_iff.mp h
  refine ⟨p, next, hp, ?_, rfl⟩
  have hr := Loops.search_ready hn
  rwa [saved_initialized] at hr

lemma scheduler_memory (h : k.scheduler r = some k') : k'.mem = k.mem ∧
    k'.activeTerminal = k.activeTerminal ∧ k'.initializedTerminals = k.initializedTerminals ∧
    ∀ t, k'.paging.backingFrame t = k.paging.backingFrame t := by
  obtain ⟨p, next, -, -, rfl⟩ := scheduler_cases h
  unfold resetFirstSwap
  split
  · exact ⟨rfl, rfl, rfl, fun t => by simp [switchTo, saveContext, setTerminal, setPcb]⟩
  · exact ⟨rfl, rfl, rfl, fun t => by simp [switchTo, saveContext, setTerminal, setPcb]⟩

/-- With a current process and an initialised terminal, a tick completes. -/
theorem scheduler_completes {p : ℤ} {t : Fin 3} (hp : k.currentPcb = some p)
    (ht : k.initializedTerminals t = true) : ∃ k', k.scheduler r = some k' := by
  have hinit : (k.resetFirstSwap.saveContext r p).initializedTerminals t = true := by
    rw [saved_initialized]
    exact ht
  obtain ⟨next, hnext⟩ := Loops.search_full hinit
    (i := (k.resetFirstSwap.saveContext r p).scheduledTerminal + 1)
  refine ⟨(k.resetFirstSwap.saveContext r p).switchTo next, ?_⟩
  simp only [scheduler, hp, Option.bind_some, nextScheduled, hnext, Option.map_some]

lemma pitHandler_completes {p : ℤ} {t : Fin 3} (hp : k.currentPcb = some p)
    (ht : k.initializedTerminals t = true) : ∃ k', k.pitHandler r = some k' := by
  obtain ⟨k', hk'⟩ := scheduler_completes (r := r) hp ht
  exact ⟨k', by simp only [pitHandler, hp, Option.isSome_some, if_true, hk']⟩

lemma resumeIn_invariant {P : Kernel → Prop} {p : ℤ} {n : ℕ}
    (hP : ∀ (r : Regs) (k k' : Kernel), P k → k.scheduler r = some k' → P k') (hk : P k)
    (h : resumeIn p n k = some k') : P k' ∧ k'.currentPcb = some p := by
  induction n generalizing k with
  | zero => exact absurd h (by simp [resumeIn])
  | succ n ih =>
    unfold resumeIn at h
    split at h
    · rename_i hc
      obtain rfl := Option.some.inj h
      exact ⟨hk, hc⟩
    · obtain ⟨k₁, h₁, h⟩ := Option.bind_eq_some_iff.mp h
      obtain ⟨q, _, h₁⟩ := Option.bind_eq_some_iff.mp h₁
      exact ih (hP _ _ _ hk h₁) h

/-- A preempted process is current again, in a state that ticks have left. -/
theorem preempt_cases {P Q : Kernel → Prop} {p : ℤ}
    (hstep : ∀ (r : Regs) (k k' : Kernel), Q k → k.scheduler r = some k' → P k')
    (hPQ : ∀ k, P k → Q k) (hk : Q k) (hp : k.currentPcb = some p)
    (h : k.preempt r = some k') : P k' ∧ k'.currentPcb = some p := by
  simp only [preempt, hp] at h
  obtain ⟨k₁, h₁, h⟩ := Option.bind_eq_some_iff.mp h
  exact resumeIn_invariant (fun r k k' hk hs => hstep r k k' (hPQ k hk) hs) (hstep _ _ _ hk h₁) h

/-- What every tick preserves, a preemption preserves. -/
theorem preempt_invariant {P : Kernel → Prop}
    (hP : ∀ (r : Regs) (k k' : Kernel), P k → k.scheduler r = some k' → P k') (hk : P k)
    (h : k.preempt r = some k') : P k' := by
  cases hp : k.currentPcb with
  | none =>
    simp only [preempt, hp, Option.some.injEq] at h
    exact h ▸ hk
  | some p =>
    simp only [preempt, hp] at h
    obtain ⟨k₁, h₁, h⟩ := Option.bind_eq_some_iff.mp h
    exact (resumeIn_invariant hP (hP _ _ _ hk h₁) h).1

/-! ### `execute` -/

section Execute

variable (a : Activation)

/-- What one statement of `execute` can change. -/
inductive Effect (s : Stmt) (k : Kernel) : Kernel → Prop where
  | memory (mem : Memory) (paging : Paging) (esp0 : ℤ) :
    Effect s k { k with mem := mem, paging := paging, tssEsp0 := esp0 }
  | pcb (g : Pcb → Pcb) (inUse : ∀ p, p.inUse = 1 → (g p).inUse = 1)
      (processId : s ≠ .setProcessId → ∀ p, (g p).processId = p.processId)
      (parent : s ≠ .setParent → ∀ p, (g p).parentProcessId = p.parentProcessId) :
    Effect s k (k.setPcb a.pid g)
  | reserve (t : Fin 3) (first : a.pid = 0) :
    Effect s k (k.setPcb t.val fun p => { p with inUse := 1 })
  | active (first : a.pid = 0) : Effect s k { k with activeTerminal := 0 }
  | current : Effect s k { k with currentPcb := some a.pid }
  | foreground (p : ℤ) (hs : s = .setActivePid) (hp : k.currentPcb = some p) :
    Effect s k (k.setTerminal k.activeTerminal fun ti =>
      { ti with activePid := (k.pcbs p).processId % 256 })
  | mark : Effect s k { k with
      initializedTerminals := Function.update k.initializedTerminals k.activeTerminal true }

/-- The PCB `execute` fills in. -/
def newPcb (k : Kernel) : Pcb where
  fdArray := Activation.stdioTable fun _ => emptyFd
  processId := a.pid
  parentProcessId := if a.pid < maxTerminals then -1 else (k.terminals k.activeTerminal).activePid
  saved := a.regs
  inUse := 1
  arg := if a.program.copyArg then a.copiedArg (k.pcbs a.pid).arg else (k.pcbs a.pid).arg
  scheduling := (k.pcbs a.pid).scheduling

/-- The PCBs after `execute`: its own, and for PID 0 the reservation of PIDs 1 and 2. -/
def installedPcbs (k : Kernel) : ℤ → Pcb := fun q =>
  if q = a.pid then k.newPcb a
  else if a.pid = 0 ∧ (q = 1 ∨ q = 2) then { k.pcbs q with inUse := 1 }
  else k.pcbs q

/-- The kernel when the new process has been installed. -/
def installed (mem : Memory) (k : Kernel) : Kernel :=
  let active := if a.pid = 0 then 0 else k.activeTerminal
  { k with
    mem := mem
    paging := k.paging.mapUser a.pid
    pcbs := k.installedPcbs a
    activeTerminal := active
    tssEsp0 := kernelStack a.pid
    currentPcb := some a.pid
    terminals := Function.update k.terminals active
      { k.terminals active with activePid := a.pid % 256 }
    initializedTerminals := Function.update k.initializedTerminals active true }

variable {a}

lemma installedPcbs_processId : (k.installedPcbs a a.pid).processId = a.pid := by
  simp [installedPcbs, newPcb]

lemma exec_effect {s : Stmt} {x y : ExecState} (h : a.exec s x = some y) :
    Effect a s x.kernel y.kernel := by
  cases s with
  | copy i =>
    obtain ⟨k₁, h₁, h⟩ := Option.bind_eq_some_iff.mp h
    obtain rfl := Option.some.inj h
    unfold storeUser at h₁
    split at h₁
    · obtain rfl := Option.some.inj h₁
      exact .memory _ _ _
    · exact absurd h₁ (by simp)
  | setActivePid =>
    obtain ⟨p, hp, h⟩ := Option.bind_eq_some_iff.mp h
    obtain rfl := Option.some.inj h
    exact .foreground p rfl hp
  | activate =>
    simp only [Activation.exec] at h
    split at h
    · obtain rfl := Option.some.inj h
      exact .memory _ _ _
    · obtain rfl := Option.some.inj h
      exact .mark
  | await =>
    simp only [Activation.exec] at h
    split at h
    · exact absurd h (by simp)
    · obtain rfl := Option.some.inj h
      exact .memory _ _ _
  | reserve t =>
    obtain rfl := Option.some.inj h
    by_cases h0 : a.pid = 0
    · simp only [if_pos h0]
      exact .reserve t h0
    · simp only [if_neg h0]
      exact .memory _ _ _
  | setActive =>
    obtain rfl := Option.some.inj h
    by_cases h0 : a.pid = 0
    · simp only [if_pos h0]
      exact .active h0
    · simp only [if_neg h0]
      exact .memory _ _ _
  | setCurrent =>
    obtain rfl := Option.some.inj h
    exact .current
  | setPage | setEsp0 | enter =>
    obtain rfl := Option.some.inj h
    exact .memory _ _ _
  | setProcessId =>
    obtain rfl := Option.some.inj h
    dsimp only
    apply Effect.pcb
    · exact fun _ hp => hp
    · exact fun hs => absurd rfl hs
    · exact fun _ _ => rfl
  | setParent =>
    obtain rfl := Option.some.inj h
    dsimp only
    apply Effect.pcb
    · exact fun _ hp => hp
    · exact fun _ _ => rfl
    · exact fun hs => absurd rfl hs
  | markInUse =>
    obtain rfl := Option.some.inj h
    dsimp only
    apply Effect.pcb <;> exact fun _ _ => rfl
  | clearFds | clearSaved | copyArg | openStdio | saveRegs =>
    obtain rfl := Option.some.inj h
    dsimp only
    apply Effect.pcb
    · exact fun _ hp => hp
    · exact fun _ _ => rfl
    · exact fun _ _ => rfl

section Effects

variable {s : Stmt}

lemma setPcb_of_ne {p q : ℤ} {g : Pcb → Pcb} (hq : q ≠ p) : (k.setPcb p g).pcbs q = k.pcbs q := by
  simp [setPcb, hq]

lemma setPcb_keeps {β : Type*} {p : ℤ} {g : Pcb → Pcb} {field : Pcb → β}
    (hg : ∀ pcb, field (g pcb) = field pcb) (q : ℤ) :
    field ((k.setPcb p g).pcbs q) = field (k.pcbs q) := by
  by_cases hq : q = p
  · subst hq
    simp [setPcb, hg]
  · rw [setPcb_of_ne hq]

lemma Effect.scheduled (h : Effect a s k k') : k'.scheduledTerminal = k.scheduledTerminal := by
  cases h <;> rfl

lemma Effect.inUse (h : Effect a s k k') {q : ℤ} (hq : (k.pcbs q).inUse = 1) :
    (k'.pcbs q).inUse = 1 := by
  cases h with
  | pcb g hg _ _ =>
    by_cases hp : q = a.pid
    · subst hp
      simp [setPcb, hg _ hq]
    · rw [setPcb_of_ne hp, hq]
  | reserve t _ =>
    by_cases hp : q = t.val
    · simp [setPcb, hp]
    · rw [setPcb_of_ne hp, hq]
  | memory | active | current | foreground | mark => exact hq

lemma Effect.parent (h : Effect a s k k') (hs : s ≠ .setParent) (q : ℤ) :
    (k'.pcbs q).parentProcessId = (k.pcbs q).parentProcessId := by
  cases h with
  | pcb g _ _ hg => exact setPcb_keeps (hg hs) q
  | reserve t _ =>
    refine setPcb_keeps ?_ q
    exact fun _ => rfl
  | memory | active | current | foreground | mark => rfl

/-- A call that is not the first leaves the PCBs of other processes alone. -/
lemma Effect.pcbs_of_ne (h : Effect a s k k') (h0 : a.pid ≠ 0) {q : ℤ} (hq : q ≠ a.pid) :
    k'.pcbs q = k.pcbs q := by
  cases h with
  | pcb g _ _ _ => exact setPcb_of_ne hq
  | reserve t first => exact absurd first h0
  | memory | active | current | foreground | mark => rfl

/-- Initialised terminals stay so, and only the active one becomes so. -/
lemma Effect.initialized (h : Effect a s k k') (t : Fin 3) :
    (k.initializedTerminals t = true → k'.initializedTerminals t = true) ∧
      (k'.initializedTerminals t = true →
        k.initializedTerminals t = true ∨ t = k.activeTerminal) := by
  cases h with
  | mark =>
    by_cases ht : t = k.activeTerminal
    · simp [ht]
    · simp only [Function.update_of_ne ht]
      exact ⟨id, Or.inl⟩
  | memory | pcb | reserve | active | current | foreground => exact ⟨id, Or.inl⟩

lemma Effect.activeTerminal (h : Effect a s k k') (h0 : k.activeTerminal = 0) : k'.activeTerminal = 0 := by
  cases h with
  | active => rfl
  | memory | pcb | reserve | current | foreground | mark => exact h0

lemma Effect.activePid (h : Effect a s k k') (hs : s ≠ .setActivePid) (t : Fin 3) :
    (k'.terminals t).activePid = (k.terminals t).activePid := by
  cases h with
  | foreground p hact _ => exact absurd hact hs
  | memory | pcb | reserve | active | current | mark => rfl

end Effects

/-- A statement changes the user page, the current process or a process id only if that is
what it is for. -/
lemma exec_cases {s : Stmt} {x y : ExecState} (h : a.exec s x = some y) :
    y.kernel.paging = (if s = .setPage then x.kernel.paging.mapUser a.pid else x.kernel.paging) ∧
      y.kernel.currentPcb = (if s = .setCurrent then some a.pid else x.kernel.currentPcb) ∧
      ∀ q, (y.kernel.pcbs q).processId =
        if s = .setProcessId ∧ q = a.pid then a.pid else (x.kernel.pcbs q).processId := by
  cases s with
  | copy i =>
    obtain ⟨k₁, h₁, h⟩ := Option.bind_eq_some_iff.mp h
    obtain rfl := Option.some.inj h
    unfold storeUser at h₁
    split at h₁
    · obtain rfl := Option.some.inj h₁
      simp
    · exact absurd h₁ (by simp)
  | setActivePid =>
    obtain ⟨p, hp, h⟩ := Option.bind_eq_some_iff.mp h
    obtain rfl := Option.some.inj h
    simp [setTerminal]
  | activate =>
    simp only [Activation.exec] at h
    split at h
    · obtain rfl := Option.some.inj h
      simp
    · obtain rfl := Option.some.inj h
      simp
  | await =>
    simp only [Activation.exec] at h
    split at h
    · exact absurd h (by simp)
    · obtain rfl := Option.some.inj h
      simp
  | reserve t =>
    obtain rfl := Option.some.inj h
    by_cases h0 : a.pid = 0
    · refine ⟨by simp [h0, setPcb], by simp [h0, setPcb], fun q => ?_⟩
      by_cases hq : q = t.val <;> simp [h0, setPcb, hq]
    · simp [h0]
  | _ =>
    obtain rfl := Option.some.inj h
    simp [setPcb, Function.update_apply] <;> (intro q; split <;> simp_all)

lemma run_copies {r : Regs} {is : List ℕ} {x x' : ExecState}
    (h : Loops.runUnder (waitTicks r) a.exec (is.map Stmt.copy) x = some x') :
    ∃ mem, x' = { x with kernel := { x.kernel with mem := mem } } := by
  induction is generalizing x with
  | nil =>
    obtain rfl := Option.some.inj h
    exact ⟨x.kernel.mem, rfl⟩
  | cons i is ih =>
    obtain ⟨u, v, hu, hv, h⟩ := Loops.runUnder_cons.mp h
    simp only [waitTicks, reduceCtorEq, false_and, if_false, Option.some.injEq] at hu
    subst hu
    obtain ⟨k₁, hk₁, hv⟩ := Option.bind_eq_some_iff.mp hv
    obtain rfl := Option.some.inj hv
    unfold storeUser at hk₁
    split at hk₁
    · obtain rfl := Option.some.inj hk₁
      obtain ⟨mem, rfl⟩ := ih h
      exact ⟨mem, rfl⟩
    · exact absurd hk₁ (by simp)

/-- The statements up to the one that makes the new PCB current. -/
lemma run_setup {r : Regs} :
    Loops.runUnder (waitTicks r) a.exec (Activation.installation.take 13) ⟨k, false⟩ =
      some ⟨{ k with
        pcbs := k.installedPcbs a
        activeTerminal := if a.pid = 0 then 0 else k.activeTerminal
        tssEsp0 := kernelStack a.pid
        currentPcb := some a.pid }, false⟩ := by
  by_cases h0 : a.pid = 0
  · simp only [Activation.installation, List.take_succ_cons, List.take_zero, Loops.runUnder,
      waitTicks, Activation.exec, setPcb, h0, reduceCtorEq, false_and, if_false, if_true,
      Option.bind_some, Option.some.injEq, ExecState.mk.injEq, Kernel.mk.injEq, and_true, true_and]
    funext q
    by_cases hq : q = 0
    · subst hq
      simp [installedPcbs, newPcb, h0]
    · by_cases h1 : q = 1
      · subst h1
        simp [installedPcbs, h0]
      · by_cases h2 : q = 2
        · subst h2
          simp [installedPcbs, h0]
        · simp [installedPcbs, h0, hq, h1, h2]
  · simp only [Activation.installation, List.take_succ_cons, List.take_zero, Loops.runUnder,
      waitTicks, Activation.exec, setPcb, h0, reduceCtorEq, false_and, if_false,
      Option.bind_some, Option.some.injEq, ExecState.mk.injEq, Kernel.mk.injEq, and_true, true_and]
    funext q
    by_cases hq : q = a.pid
    · subst hq
      simp [installedPcbs, newPcb]
    · simp [installedPcbs, h0, hq]

/-- The statements that record the new process in the active terminal. -/
lemma run_record {r : Regs} {p : ℤ} (hp : k.currentPcb = some p) :
    Loops.runUnder (waitTicks r) a.exec [.setActivePid, .activate] ⟨k, false⟩ =
      some ⟨{ k with
        terminals := Function.update k.terminals k.activeTerminal
          { k.terminals k.activeTerminal with activePid := (k.pcbs p).processId % 256 }
        initializedTerminals := Function.update k.initializedTerminals k.activeTerminal true },
        !k.initializedTerminals k.activeTerminal⟩ := by
  cases hi : k.initializedTerminals k.activeTerminal with
  | false => simp [Loops.runUnder, waitTicks, Activation.exec, setTerminal, hp, hi]
  | true =>
    have hu : Function.update k.initializedTerminals k.activeTerminal true =
        k.initializedTerminals := by
      rw [← hi]
      exact Function.update_eq_self _ _
    simp [Loops.runUnder, waitTicks, Activation.exec, setTerminal, hp, hi, hu]

/-- The wait at the end of `execute` and the jump to user mode. -/
lemma run_wait {r : Regs} {x x' : ExecState}
    (h : Loops.runUnder (waitTicks r) a.exec [.await, .enter] x = some x') :
    (x' = x ∧ ¬(x.first = true ∧ x.kernel.activeTerminal ≠ x.kernel.scheduledTerminal)) ∨
      (x.first = true ∧ x.kernel.activeTerminal ≠ x.kernel.scheduledTerminal ∧
        x.kernel.preempt r = some x'.kernel ∧
        x'.kernel.activeTerminal = x'.kernel.scheduledTerminal) := by
  obtain ⟨u, v, hu, hv, h⟩ := Loops.runUnder_cons.mp h
  simp only [Loops.runUnder, waitTicks, Activation.exec, reduceCtorEq, false_and, if_false,
    Option.bind_some, Option.some.injEq] at h
  subst h
  simp only [waitTicks, true_and] at hu
  simp only [Activation.exec] at hv
  by_cases hc : x.first = true ∧ x.kernel.activeTerminal ≠ x.kernel.scheduledTerminal
  · rw [if_pos hc] at hu
    obtain ⟨k₁, hk₁, rfl⟩ := Option.map_eq_some_iff.mp hu
    split at hv
    · exact absurd hv (by simp)
    · rename_i hw
      obtain rfl := Option.some.inj hv
      refine Or.inr ⟨hc.1, hc.2, hk₁, ?_⟩
      by_contra hne
      exact hw ⟨hc.1, hne⟩
  · rw [if_neg hc] at hu
    obtain rfl := Option.some.inj hu
    rw [if_neg hc] at hv
    exact Or.inl ⟨(Option.some.inj hv).symm, hc⟩

/-- A run of `execute` either returns -1 and changes nothing, or installs a process; if its
terminal had to be initialised and is not scheduled, it then waits for a tick to schedule it. -/
theorem execute_cases {command : List UInt8} {res : Option ℤ}
    (h : k.execute img f command = some (k', res)) :
    (res = none ∧ k' = k) ∨
      ∃ a mem, k.choosePid = some a.pid ∧ res = some a.pid ∧ a.regs = f.regs ∧
        checkProgram img f.header command = some (some a.program) ∧
        ((k' = k.installed a mem ∧
            (k.initializedTerminals (k.installed a mem).activeTerminal = true ∨
              (k.installed a mem).activeTerminal = k.scheduledTerminal)) ∨
          (k.initializedTerminals (k.installed a mem).activeTerminal = false ∧
            (k.installed a mem).activeTerminal ≠ k.scheduledTerminal ∧
            (k.installed a mem).preempt f.waiting = some k' ∧
            k'.activeTerminal = k'.scheduledTerminal)) := by
  obtain ⟨accepted, hacc, h⟩ := Option.bind_eq_some_iff.mp h
  cases accepted with
  | none =>
    simp only [Option.some.injEq, Prod.mk.injEq] at h
    exact Or.inl ⟨h.2.symm, h.1.symm⟩
  | some program =>
    cases hpid : k.choosePid with
    | none =>
      simp only [hpid, Option.some.injEq, Prod.mk.injEq] at h
      exact Or.inl ⟨h.2.symm, h.1.symm⟩
    | some pid =>
      simp only [hpid] at h
      obtain ⟨x', hrun, h⟩ := Option.map_eq_some_iff.mp h
      simp only [Prod.mk.injEq] at h
      obtain ⟨rfl, rfl⟩ := h
      let a : Activation := ⟨program, pid, f.regs⟩
      have hsplit : a.body = [Stmt.setPage] ++ ((List.range a.program.bytes.length).map Stmt.copy ++
          (Activation.installation.take 13 ++ ([.setActivePid, .activate] ++ [.await, .enter]))) := rfl
      change Loops.runUnder (waitTicks f.waiting) a.exec a.body ⟨k, false⟩ = some x' at hrun
      rw [hsplit, Loops.runUnder_append] at hrun
      simp only [Loops.runUnder, waitTicks, Activation.exec, reduceCtorEq, false_and, if_false,
        Option.bind_some] at hrun
      rw [Loops.runUnder_append] at hrun
      obtain ⟨y, hy, hrun⟩ := Option.bind_eq_some_iff.mp hrun
      obtain ⟨mem, rfl⟩ := run_copies hy
      rw [Loops.runUnder_append, run_setup] at hrun
      simp only [Option.bind_some] at hrun
      rw [Loops.runUnder_append, run_record rfl] at hrun
      simp only [Option.bind_some] at hrun
      simp only [installedPcbs_processId] at hrun
      have hlast : Loops.runUnder (waitTicks f.waiting) a.exec [.await, .enter]
          ⟨k.installed a mem, !k.initializedTerminals (k.installed a mem).activeTerminal⟩ =
            some x' := hrun
      refine Or.inr ⟨a, mem, rfl, rfl, rfl, hacc, ?_⟩
      rcases run_wait hlast with ⟨rfl, hskip⟩ | ⟨hf, hne, hpre, hact⟩
      · refine Or.inl ⟨rfl, ?_⟩
        by_contra hno
        obtain ⟨hi, hs⟩ := not_or.mp hno
        exact hskip ⟨by simpa using hi, hs⟩
      · exact Or.inr ⟨by simpa using hf, hne, hpre, hact⟩

lemma run_copies_some {r : Regs} {is : List ℕ} {x : ExecState}
    (hi : ∀ i ∈ is, progImgOffset + i < userPageSize) :
    ∃ mem, Loops.runUnder (waitTicks r) a.exec (is.map Stmt.copy) x =
      some { x with kernel := { x.kernel with mem := mem } } := by
  induction is generalizing x with
  | nil => exact ⟨x.kernel.mem, rfl⟩
  | cons i is ih =>
    have hlt : progImgOffset + i < userPageSize := hi i (by simp)
    obtain ⟨mem, hmem⟩ := ih (fun j hj => hi j (by simp [hj]))
      (x := { x with kernel := { x.kernel with
        mem := Function.update x.kernel.mem (x.kernel.userAddress (progImgOffset + i))
          (byteAt a.program.bytes i) } })
    refine ⟨mem, Loops.runUnder_cons.mpr ⟨x, _, rfl, ?_, hmem⟩⟩
    simp only [Activation.exec, storeUser, if_pos hlt, Option.bind_some]

/-- An accepted program whose terminal is already initialised, or is scheduled, is installed
at once. -/
theorem execute_installs {command : List UInt8}
    (hacc : checkProgram img f.header command = some (some a.program))
    (hpid : k.choosePid = some a.pid) (hregs : a.regs = f.regs)
    (hlen : progImgOffset + a.program.bytes.length ≤ userPageSize)
    (hwait : k.initializedTerminals (if a.pid = 0 then 0 else k.activeTerminal) = true ∨
      (if a.pid = 0 then 0 else k.activeTerminal) = k.scheduledTerminal) :
    ∃ mem, k.execute img f command = some (k.installed a mem, some a.pid) := by
  have hcopies : ∀ i ∈ List.range a.program.bytes.length, progImgOffset + i < userPageSize := by
    intro i hi
    have hlt := List.mem_range.mp hi
    omega
  obtain ⟨mem, hmem⟩ := run_copies_some (a := a) (r := f.waiting)
    (x := ⟨{ k with paging := k.paging.mapUser a.pid }, false⟩) hcopies
  refine ⟨mem, ?_⟩
  have hsplit : a.body = [Stmt.setPage] ++ ((List.range a.program.bytes.length).map Stmt.copy ++
      (Activation.installation.take 13 ++ ([.setActivePid, .activate] ++ [.await, .enter]))) := rfl
  have hrun : Loops.runUnder (waitTicks f.waiting) a.exec a.body ⟨k, false⟩ =
      some ⟨k.installed a mem,
        !k.initializedTerminals (if a.pid = 0 then 0 else k.activeTerminal)⟩ := by
    rw [hsplit, Loops.runUnder_append]
    simp only [Loops.runUnder, waitTicks, Activation.exec, reduceCtorEq, false_and, if_false,
      Option.bind_some]
    rw [Loops.runUnder_append, hmem, Option.bind_some, Loops.runUnder_append, run_setup,
      Option.bind_some, Loops.runUnder_append, run_record rfl, Option.bind_some]
    simp only [installedPcbs_processId]
    have hskip : ¬((!k.initializedTerminals (if a.pid = 0 then 0 else k.activeTerminal)) = true ∧
        (if a.pid = 0 then 0 else k.activeTerminal) ≠ k.scheduledTerminal) := by
      rintro ⟨hi, hs⟩
      rcases hwait with h | h
      · simp [h] at hi
      · exact hs h
    simp only [Loops.runUnder, waitTicks, Activation.exec, true_and, if_neg hskip, reduceCtorEq,
      false_and, if_false, Option.bind_some]
    rfl
  have ha : (⟨a.program, a.pid, f.regs⟩ : Activation) = a := by
    rw [← hregs]
  simp only [execute, hacc, hpid, Option.bind_some, ha, hrun, Option.map_some]

/-- The first shell, as started from an image with nothing else. -/
def firstShell : Activation := ⟨shellProgram, 0, bareFrame.regs⟩

lemma boot_execute (frames : TableFrames) (mem : Memory) (x y : ℕ) : ∃ mem',
    (boot frames mem x y).execute shellImage bareFrame shellCommand =
      some ((boot frames mem x y).installed firstShell mem', some 0) :=
  execute_installs (a := firstShell) checkProgram_shellImage rfl rfl (by decide) (Or.inr rfl)

end Execute

/-! ### `halt` and `terminal_switch` -/

lemma release_pcbs_of_ne {p q : ℤ} (hq : q ≠ p) : (k.release p).pcbs q = k.pcbs q := by
  simp [release, setPcb, hq]

lemma release_processId (p q : ℤ) : ((k.release p).pcbs q).processId = (k.pcbs q).processId := by
  by_cases hq : q = p
  · subst hq
    simp [release, setPcb]
  · rw [release_pcbs_of_ne hq]

/-- A halted process hands the terminal back: the PCB it gives up aside, the kernel is as the
parent's own call left it. -/
lemma toParent_eq {p q : ℤ} (hq : q ≠ p) (hparent : (k.pcbs p).parentProcessId = q)
    (hid : (k.pcbs q).processId = q) (hmod : q % 256 = q) : (k.release p).toParent p =
    { k with
      exceptionInChild := false
      pcbs := Function.update k.pcbs p (((k.release p).forgetIds p).pcbs p)
      terminals := Function.update k.terminals k.scheduledTerminal
        { k.terminals k.scheduledTerminal with activePid := q }
      tssEsp0 := kernelStack q
      paging := k.paging.mapUser q
      currentPcb := some q } := by
  have hrp : ((k.release p).pcbs p).parentProcessId = q := by
    simp [release, setPcb, hparent]
  have hrq : (((k.release p).forgetIds p).pcbs q).processId = q := by
    simp [forgetIds, setPcb, release, hq, hid]
  have hpcbs : ((k.release p).forgetIds p).pcbs =
      Function.update k.pcbs p (((k.release p).forgetIds p).pcbs p) := by
    funext r
    by_cases hr : r = p
    · subst hr
      simp
    · simp [forgetIds, setPcb, release, hr]
  simp only [toParent, setTerminal, hrp, hrq, hmod]
  rw [← hpcbs]
  rfl

lemma forgotten_inUse (p : ℤ) : (((k.release p).forgetIds p).pcbs p).inUse = 0 := by
  simp [forgetIds, setPcb, release]

theorem halt_cases {status : UInt8} {res : Halted} (h : k.halt img f status = some res) :
    ∃ p, k.currentPcb = some p ∧
      (((k.pcbs p).processId < maxTerminals ∧ ∃ k' pid,
          ((k.release p).relaunching p).execute img f shellCommand = some (k', some pid) ∧
          res = .shell k' pid) ∨
        ((maxTerminals : ℤ) ≤ (k.pcbs p).processId ∧
          res = .parent ((k.release p).toParent p) (k.pcbs p).saved
            (if k.exceptionInChild then exceptionRetVal else status.toNat))) := by
  obtain ⟨p, hp, h⟩ := Option.bind_eq_some_iff.mp h
  refine ⟨p, hp, ?_⟩
  simp only [release_processId] at h
  by_cases hlt : (k.pcbs p).processId < maxTerminals
  · rw [if_pos hlt] at h
    obtain ⟨⟨k', pid⟩, hex, h⟩ := Option.bind_eq_some_iff.mp h
    obtain ⟨pid, rfl, rfl⟩ := Option.map_eq_some_iff.mp h
    exact Or.inl ⟨hlt, k', pid, hex, rfl⟩
  · rw [if_neg hlt] at h
    obtain rfl := Option.some.inj h
    exact Or.inr ⟨not_lt.mp hlt, rfl⟩

theorem terminalSwitch_cases (h : k.terminalSwitch img f target = some k') :
    (k.activeTerminal = target ∧ k' = k) ∨
      (k.activeTerminal ≠ target ∧ k.initializedTerminals target = true ∧
        k' = k.switchScreens target) ∨
      (k.activeTerminal ≠ target ∧ k.initializedTerminals target = false ∧
        ∃ res, (k.switchScreens target).execute img f shellCommand = some (k', res)) := by
  unfold terminalSwitch at h
  by_cases ha : k.activeTerminal = target
  · rw [if_pos ha] at h
    exact Or.inl ⟨ha, (Option.some.inj h).symm⟩
  · rw [if_neg ha] at h
    have hi : (k.switchScreens target).initializedTerminals target =
        k.initializedTerminals target := by
      unfold switchScreens
      dsimp only
      split_ifs <;> rfl
    simp only [hi] at h
    by_cases ht : k.initializedTerminals target = true
    · rw [if_pos ht] at h
      exact Or.inr (Or.inl ⟨ha, ht, (Option.some.inj h).symm⟩)
    · rw [if_neg ht] at h
      obtain ⟨⟨_, res⟩, hex, rfl⟩ := Option.map_eq_some_iff.mp h
      exact Or.inr (Or.inr ⟨ha, by simpa using ht, res, hex⟩)

/-- The mapping under which `terminal_switch` copies the screens. -/
def copyPaging (k : Kernel) : Paging :=
  if k.activeTerminal ≠ k.scheduledTerminal then k.paging.mapVideo video else k.paging

/-- The mapping `terminal_switch` leaves. -/
def switchedPaging (target : Fin 3) (k : Kernel) : Paging :=
  if target ≠ k.scheduledTerminal then
    k.copyPaging.mapVideo (terminalVideo + align4kb * k.scheduledTerminal.val)
  else k.copyPaging

/-- The screens move; of the rest only the active terminal changes. -/
lemma switchScreens_eq (target : Fin 3) : k.switchScreens target =
    { k with
      mem := (k.mem.copyPage (k.copyPaging.backingFrame k.activeTerminal)
        k.copyPaging.videoFrame).copyPage k.copyPaging.videoFrame
        (k.copyPaging.backingFrame target)
      paging := k.switchedPaging target
      activeTerminal := target } := by
  unfold switchScreens switchedPaging copyPaging
  dsimp only
  by_cases ha : k.activeTerminal ≠ k.scheduledTerminal
  · simp only [if_pos ha]
    by_cases ht : target ≠ k.scheduledTerminal
    · simp only [if_pos ht]
      exact if_pos ht ▸ rfl
    · simp only [if_neg ht]
      exact if_neg ht ▸ rfl
  · simp only [if_neg ha]
    by_cases ht : target ≠ k.scheduledTerminal
    · simp only [if_pos ht]
      exact if_pos ht ▸ rfl
    · simp only [if_neg ht]
      exact if_neg ht ▸ rfl

/-! ### The keyboard -/

lemma onConsole_eq {g : Console → Console} (h : k.onConsole g = some k') :
    k' = { k with
      mem := k.mem.setPage k.paging.videoFrame (g k.console).videoMem
      screenX := (g k.console).screenX
      screenY := (g k.console).screenY } := by
  unfold onConsole at h
  dsimp only at h
  split at h
  · exact (Option.some.inj h).symm
  · exact absurd h (by simp)

lemma onConsole_cases {g : Console → Console} (h : k.onConsole g = some k') :
    ∃ mem x y, k' = { k with mem := mem, screenX := x, screenY := y } :=
  ⟨_, _, _, onConsole_eq h⟩

/-- A key changes the active terminal; a backspace also leaves the video page on the backing
page of the scheduled terminal. -/
theorem updateKbBuffer_cases {c : UInt8} (h : k.updateKbBuffer c = some k') :
    (∃ g, k' = k.setTerminal k.activeTerminal g ∧
        ∀ ti, (g ti).activePid = ti.activePid) ∨
      k' = k ∨
      (c = backspaceAscii ∧ (k.terminals k.activeTerminal).enterFlag = false ∧
        ∃ mem x y g, k' = { (k.setTerminal k.activeTerminal g) with
            mem := mem, screenX := x, screenY := y
            paging := (k.paging.mapVideo video).mapVideo
              (terminalVideo + align4kb * k.scheduledTerminal.val) } ∧
          ∀ ti, (g ti).activePid = ti.activePid) := by
  unfold updateKbBuffer at h
  dsimp only at h
  split at h
  · exact Or.inl ⟨_, (Option.some.inj h).symm, fun _ => rfl⟩
  · rename_i hn
    split at h
    · rename_i hc
      unfold eraseChar at h
      obtain ⟨k₁, h₁, h⟩ := Option.bind_eq_some_iff.mp h
      obtain ⟨mem, x, y, rfl⟩ := onConsole_cases h₁
      obtain ⟨mem, x, y, rfl⟩ := onConsole_cases h
      have hflag : (k.terminals k.activeTerminal).enterFlag = false := by
        by_contra hf
        exact hn (Or.inr (by simpa using hf))
      let n := (k.terminals k.activeTerminal).currentChar - 1
      exact Or.inr (Or.inr ⟨hc, hflag, mem, x, y, fun ti =>
        { ti with currentChar := n, keyboardBuffer := Function.update ti.keyboardBuffer n 0 },
        rfl, fun _ => rfl⟩)
    · split at h
      · exact Or.inr (Or.inl (Option.some.inj h).symm)
      · exact Or.inl ⟨_, (Option.some.inj h).symm, fun _ => rfl⟩

theorem clearTerminal_cases (h : k.clearTerminal = some k') :
    ∃ mem x y g, k' = { (k.setTerminal k.activeTerminal g) with
        mem := mem, screenX := x, screenY := y
        paging := (k.paging.mapVideo video).mapVideo
          (terminalVideo + align4kb * k.scheduledTerminal.val) } ∧
      ∀ ti, (g ti).activePid = ti.activePid := by
  obtain ⟨k₁, h₁, rfl⟩ := Option.map_eq_some_iff.mp h
  obtain ⟨mem, x, y, rfl⟩ := onConsole_cases h₁
  exact ⟨mem, x, y, fun ti => { ti with resetFlag := true, currentLine := 0, charInLine := 0 },
    rfl, fun _ => rfl⟩

end Kernel

end HalOs
