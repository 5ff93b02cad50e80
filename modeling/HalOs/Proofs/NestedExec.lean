import HalOs.Proofs.ProcessCalls
import HalOs.Proofs.ProcessTree

/-!
# Nested calls of `execute`

A process that starts a child waits until the child halts. In between the child may use its
descriptors and start children of its own. Whatever it does, the halt that ends it undoes
the seven stores of its start, as long as no buffer of the child lies in the kernel's memory: the
PCB of its parent is within its reach.
-/

namespace HalOs

namespace Kernel

/-- A call of `execute` whose first word fits its buffer. -/
structure Called (img : Image) (f : CallFrame) (command : List UInt8) (k k' : Kernel)
    (child : Option ℤ) : Prop where
  word : (commandWord (cString command)).length < maxFilenameSize
  result : k.execute img f command = some (k', child)

/-- The kernel when the running process has, or has not, just raised an exception. -/
def withException (e : Bool) (k : Kernel) : Kernel :=
  if e then { k with exceptionInChild := true } else k

/-- What a process does between its start and its end: calls on descriptors within `guard`,
calls of `execute` that fail, and children that run to their own end. -/
inductive Nested (img : Image) (ops : OpTable → UInt32) (guard : Kernel → PcbCall → Prop) :
    Kernel → Kernel → Prop where
  | nil (k : Kernel) : Nested img ops guard k k
  | fd {k k₁ k' : Kernel} {call : PcbCall} {d : Drivers} (ok : guard k call)
      (step : k.pcbCall img ops call d = some k₁) (rest : Nested img ops guard k₁ k') :
      Nested img ops guard k k'
  | rejected {k k₁ k' : Kernel} {f : CallFrame} {command : List UInt8}
      (call : Called img f command k k₁ none) (rest : Nested img ops guard k₁ k') :
      Nested img ops guard k k'
  | child {k k₁ k₂ k' : Kernel} {f g : CallFrame} {command : List UInt8} {c : ℤ} {e : Bool}
      {status : UInt8} {res : Halted} (call : Called img f command k k₁ (some c))
      (body : Nested img ops guard k₁ k₂)
      (ends : (k₂.withException e).halt img g status = some res)
      (rest : Nested img ops guard res.kernel k') : Nested img ops guard k k'

/-- The process `p` runs on terminal `t`, which is active and scheduled. -/
structure Running (t : Fin 3) (p : ℤ) (k : Kernel) : Prop where
  current : k.currentPcb = some p
  active : k.activeTerminal = t
  scheduled : k.scheduledTerminal = t
  initialized : k.initializedTerminals t = true
  foreground : (k.terminals t).activePid = p
  processId : (k.pcbs p).processId = p
  inUse : (k.pcbs p).inUse = 1
  range : 0 ≤ p ∧ p < numPids
  stack : k.tssEsp0 = kernelStack p
  page : k.paging.userFrame = offsetField (getPhysAddr p)
  quiet : k.exceptionInChild = false

/-- Everything shared is as before, and so is every process there was. -/
structure Restored (k k' : Kernel) : Prop where
  current : k'.currentPcb = k.currentPcb
  active : k'.activeTerminal = k.activeTerminal
  scheduled : k'.scheduledTerminal = k.scheduledTerminal
  initialized : k'.initializedTerminals = k.initializedTerminals
  foreground : ∀ t, (k'.terminals t).activePid = (k.terminals t).activePid
  stack : k'.tssEsp0 = k.tssEsp0
  page : k'.paging.directoryArray userSpaceDirNum = k.paging.directoryArray userSpaceDirNum
  quiet : k'.exceptionInChild = k.exceptionInChild
  inUse : ∀ q, (k'.pcbs q).inUse = 1 ↔ (k.pcbs q).inUse = 1
  pcbs : ∀ q, (k.pcbs q).inUse = 1 → k'.pcbs q = k.pcbs q

/-- Restored but for the descriptors of `p`. -/
def Framed (p : ℤ) (k k' : Kernel) : Prop :=
  ∃ fds, Restored (k.setPcb p fun pcb => { pcb with fdArray := fds }) k'

section Frames

variable {img : Image} {ops : OpTable → UInt32} {k k₁ k₂ k₃ k' : Kernel} {f g : CallFrame}
  {command : List UInt8} {t : Fin 3} {p c : ℤ} {e : Bool} {status : UInt8} {res : Halted}
  {chain : Fin 3 → List ℤ}

lemma Settled.running (hk : k.Settled chain) (hact : k.activeTerminal = k.scheduledTerminal) :
    k.Running k.scheduledTerminal (k.terminals k.scheduledTerminal).activePid := by
  have hlive := foreground_live hk.tree hk.scheduled
  obtain ⟨hid, hlow, hhigh⟩ := hk.pids _ hlive
  exact ⟨hk.current, hact, rfl, hk.scheduled, rfl, hid, hlive.1, ⟨hlow, hhigh⟩, hk.stack, hk.page,
    hk.quiet⟩

/-- Where the tree is kept, the current process runs so whenever its terminal is active. -/
theorem running_run {frames : TableFrames} {mem : Memory} {x y : ℕ} {es : List Event}
    (h : Runs.Path (step img) KeepsTree (boot frames mem x y) es k) (hp : k.currentPcb = some p)
    (hact : k.activeTerminal = k.scheduledTerminal) : k.Running k.scheduledTerminal p := by
  rcases reached_run h with hf | ⟨chain, hk⟩
  · exact absurd (hf.current.symm.trans hp) (by simp)
  · obtain rfl := Option.some.inj (hp.symm.trans hk.current)
    exact hk.running hact

lemma setPcb_self (p : ℤ) :
    k.setPcb p (fun pcb => { pcb with fdArray := (k.pcbs p).fdArray }) = k := by
  have h : Function.update k.pcbs p (k.pcbs p) = k.pcbs := Function.update_eq_self p k.pcbs
  simp only [setPcb, h]

lemma Restored.refl (k : Kernel) : Restored k k :=
  ⟨rfl, rfl, rfl, rfl, fun _ => rfl, rfl, rfl, rfl, fun _ => Iff.rfl, fun _ _ => rfl⟩

lemma Restored.trans (h : Restored k k₁) (h' : Restored k₁ k₂) : Restored k k₂ where
  current := h'.current.trans h.current
  active := h'.active.trans h.active
  scheduled := h'.scheduled.trans h.scheduled
  initialized := h'.initialized.trans h.initialized
  foreground u := (h'.foreground u).trans (h.foreground u)
  stack := h'.stack.trans h.stack
  page := h'.page.trans h.page
  quiet := h'.quiet.trans h.quiet
  inUse q := (h'.inUse q).trans (h.inUse q)
  pcbs q hq := (h'.pcbs q ((h.inUse q).mpr hq)).trans (h.pcbs q hq)

/-- Descriptors that are overwritten later do not matter. -/
lemma Restored.setPcb (fds : FdTable) (h : Restored k k₁) (hp : (k.pcbs p).inUse = 1) :
    Restored (k.setPcb p fun pcb => { pcb with fdArray := fds })
      (k₁.setPcb p fun pcb => { pcb with fdArray := fds }) := by
  refine ⟨h.current, h.active, h.scheduled, h.initialized, h.foreground, h.stack, h.page, h.quiet,
    fun q => ?_, fun q hq => ?_⟩
  · rw [setPcb_inUse, setPcb_inUse]
    exact h.inUse q
  · rw [setPcb_inUse] at hq
    by_cases hqp : q = p
    · subst hqp
      simp [Kernel.setPcb, h.pcbs q hp]
    · simp [Kernel.setPcb, hqp, h.pcbs q hq]

lemma Restored.framed (h : Restored k k') : Framed p k k' :=
  ⟨(k.pcbs p).fdArray, by rwa [setPcb_self]⟩

lemma Framed.trans (h : Framed p k k₁) (h' : Framed p k₁ k₂) (hp : (k.pcbs p).inUse = 1) :
    Framed p k k₂ := by
  obtain ⟨fds, h⟩ := h
  obtain ⟨fds', h'⟩ := h'
  refine ⟨fds', ?_⟩
  have hinner := (h.setPcb fds' (p := p) (by rw [setPcb_inUse, hp])).trans h'
  have hover : (k.setPcb p fun pcb => { pcb with fdArray := fds }).setPcb p
      (fun pcb => { pcb with fdArray := fds' }) =
      k.setPcb p fun pcb => { pcb with fdArray := fds' } := by
    simp [Kernel.setPcb]
  rwa [hover] at hinner

lemma Framed.running (hk : k.Running t p) (h : Framed p k k') : k'.Running t p := by
  obtain ⟨fds, h⟩ := h
  have hp := h.pcbs p (by rw [setPcb_inUse, hk.inUse])
  have hself : k'.pcbs p = { k.pcbs p with fdArray := fds } := by simpa [Kernel.setPcb] using hp
  refine ⟨h.current.trans hk.current, h.active.trans hk.active, h.scheduled.trans hk.scheduled,
    ?_, (h.foreground t).trans hk.foreground, ?_, ?_, hk.range, h.stack.trans hk.stack, ?_,
    h.quiet.trans hk.quiet⟩
  · rw [h.initialized]
    exact hk.initialized
  · rw [hself]
    exact hk.processId
  · rw [hself]
    exact hk.inUse
  · unfold Paging.userFrame
    rw [h.page]
    exact hk.page

lemma Framed.reserved (h : Framed p k k') (hres : ∀ u, (k.pcbs (baseShell u)).inUse = 1)
    (u : Fin 3) : (k'.pcbs (baseShell u)).inUse = 1 := by
  obtain ⟨fds, h⟩ := h
  rw [h.inUse, setPcb_inUse]
  exact hres u

/-- A call on a descriptor leaves everything but the descriptors of the caller. -/
lemma pcbCall_framed {call : PcbCall} {d : Drivers} (hk : k.Running t p)
    (h : k.pcbCall img ops call d = some k') (hspared : k.Spared img ops call) : Framed p k k' := by
  obtain ⟨q, fds, hq, rfl⟩ := pcbCall_cases h hspared
  obtain rfl := Option.some.inj (hk.current.symm.trans hq)
  exact ⟨fds, rfl, rfl, rfl, rfl, fun _ => rfl, rfl, rfl, rfl, fun _ => Iff.rfl, fun _ _ => rfl⟩

/-! ### One child -/

/-- What a successful call leaves: the new process installed, at once. -/
lemma Called.installed (hk : k.Running t p) (hres : ∀ u, (k.pcbs (baseShell u)).inUse = 1)
    (h : Called img f command k k₁ (some c)) : ∃ a mem, a.pid = c ∧ a.regs = f.regs ∧
      k₁ = k.installed a mem ∧ maxTerminals ≤ c ∧ c < numPids ∧ (k.pcbs c).inUse ≠ 1 := by
  have hinit : k.initializedTerminals k.activeTerminal = true := by
    rw [hk.active]
    exact hk.initialized
  rcases execute_cases h.result with ⟨hno, -⟩ | ⟨a, mem, hpid, hc, hregs, -, hdone⟩
  · exact absurd hno (by simp)
  · obtain rfl := Option.some.inj hc
    rcases choosePid_chosen hres hpid with ⟨hno, -⟩ | ⟨-, hlow, hhigh, -⟩
    · exact absurd (hno.symm.trans hinit) (by simp)
    · have hfree : (k.pcbs a.pid).inUse ≠ 1 := by
        unfold choosePid at hpid
        rw [if_pos hinit] at hpid
        obtain ⟨i, hfind, hi⟩ := Option.map_eq_some_iff.mp hpid
        rw [← hi]
        simpa using List.find?_some hfind
      have h0 : a.pid ≠ 0 := by
        simp only [maxTerminals, Nat.cast_ofNat] at hlow
        omega
      rcases hdone with ⟨rfl, -⟩ | ⟨hno, -⟩
      · exact ⟨a, mem, rfl, hregs, rfl, hlow, hhigh, hfree⟩
      · simp only [Kernel.installed, if_neg h0] at hno
        exact absurd (hno.symm.trans hinit) (by simp)

lemma Called.running (hk : k.Running t p) (hres : ∀ u, (k.pcbs (baseShell u)).inUse = 1)
    (h : Called img f command k k₁ (some c)) :
    k₁.Running t c ∧ ∀ u, (k₁.pcbs (baseShell u)).inUse = 1 := by
  obtain ⟨a, mem, rfl, -, rfl, hlow, hhigh, -⟩ := h.installed hk hres
  simp only [maxTerminals, numPids, Nat.cast_ofNat] at hlow hhigh
  have h0 : a.pid ≠ 0 := by omega
  have hmod : a.pid % 256 = a.pid := Int.emod_eq_of_lt (by omega) (by omega)
  have hact : (k.installed a mem).activeTerminal = t := by
    simp only [Kernel.installed, if_neg h0, hk.active]
  refine ⟨⟨rfl, hact, hk.scheduled, ?_, ?_, installedPcbs_processId, ?_, ⟨by omega, hhigh⟩, rfl,
    Paging.userFrame_mapUser _ _, hk.quiet⟩, fun u => ?_⟩
  · simp [Kernel.installed, h0, hk.active]
  · simp [Kernel.installed, h0, hk.active, hmod]
  · simp [Kernel.installed, installedPcbs, newPcb]
  · have hu : baseShell u ≠ a.pid := by
      have hb := u.isLt
      unfold baseShell
      omega
    simp [Kernel.installed, installedPcbs, hu, h0, hres u]

lemma withException_eq (e : Bool) (k : Kernel) :
    k.withException e = { k with exceptionInChild := e || k.exceptionInChild } := by
  cases e <;> rfl

lemma installed_pcbs_of_ne {a : Activation} {mem : Memory} {q : ℤ} (h0 : a.pid ≠ 0)
    (hq : q ≠ a.pid) : (k.installed a mem).pcbs q = k.pcbs q := by
  simp [Kernel.installed, installedPcbs, hq, h0]

/-- The PCBs when a child ends: its own with other descriptors, and those there were. -/
lemma Framed.installed {a : Activation} {mem : Memory} (h0 : a.pid ≠ 0)
    (h : Framed a.pid (k.installed a mem) k₂) :
    (∃ fds, k₂.pcbs a.pid = { k.newPcb a with fdArray := fds }) ∧
      (∀ q, q ≠ a.pid → (k.pcbs q).inUse = 1 → k₂.pcbs q = k.pcbs q) ∧
      ∀ q, q ≠ a.pid → ((k₂.pcbs q).inUse = 1 ↔ (k.pcbs q).inUse = 1) := by
  obtain ⟨fds, h⟩ := h
  have hnew : (k.installed a mem).pcbs a.pid = k.newPcb a := by
    simp [Kernel.installed, installedPcbs]
  have hin : (k.newPcb a).inUse = 1 := rfl
  refine ⟨⟨fds, ?_⟩, fun q hq huse => ?_, fun q hq => ?_⟩
  · rw [h.pcbs a.pid (by rw [setPcb_inUse, hnew, hin])]
    simp [Kernel.setPcb, hnew]
  · rw [h.pcbs q (by rw [setPcb_inUse, installed_pcbs_of_ne h0 hq, huse])]
    simp only [Kernel.setPcb, Function.update_of_ne hq]
    exact installed_pcbs_of_ne h0 hq
  · rw [h.inUse, setPcb_inUse, installed_pcbs_of_ne h0 hq]

/-- The halt of a child restores what its start changed. -/
lemma Called.halt_restores (hk : k.Running t p) (hres : ∀ u, (k.pcbs (baseShell u)).inUse = 1)
    (h : Called img f command k k₁ (some c)) (hbody : Framed c k₁ k₂)
    (hhalt : (k₂.withException e).halt img g status = some res) :
    ∃ k₃, res = .parent k₃ f.regs (if e then exceptionRetVal else status.toNat) ∧
      Restored k k₃ := by
  obtain ⟨a, mem, rfl, hregs, rfl, hlow, hhigh, hfree⟩ := h.installed hk hres
  have hlow' := hlow
  simp only [maxTerminals, numPids, Nat.cast_ofNat] at hlow' hhigh
  have h0 : a.pid ≠ 0 := by omega
  have hpc : p ≠ a.pid := fun he => hfree (he ▸ hk.inUse)
  obtain ⟨⟨fds, hself⟩, hother, huse⟩ := hbody.installed h0
  obtain ⟨_, hframe⟩ := hbody
  rw [withException_eq] at hhalt
  let x := { k₂ with exceptionInChild := e || k₂.exceptionInChild }
  have hparent : (x.pcbs a.pid).parentProcessId = p := by
    change (k₂.pcbs a.pid).parentProcessId = p
    rw [hself]
    simp only [newPcb, if_neg (not_lt.mpr hlow), hk.active, hk.foreground]
  have hid : (x.pcbs p).processId = p := by
    change (k₂.pcbs p).processId = p
    rw [hother p hpc hk.inUse, hk.processId]
  have hmod : p % 256 = p := by
    obtain ⟨hp0, hp6⟩ := hk.range
    simp only [numPids, Nat.cast_ofNat] at hp6
    exact Int.emod_eq_of_lt hp0 (by omega)
  obtain ⟨q, hq, hcase⟩ := halt_cases hhalt
  obtain rfl : q = a.pid := Option.some.inj (hq.symm.trans hframe.current)
  have hpid : (k₂.pcbs a.pid).processId = a.pid := by
    rw [hself]
    rfl
  rcases hcase with ⟨hlt, -⟩ | ⟨-, rfl⟩
  · exact absurd (hpid ▸ hlt) (not_lt.mpr hlow)
  have hsaved : (k₂.pcbs a.pid).saved = f.regs := by
    rw [hself, ← hregs]
    rfl
  have hflag : (e || k₂.exceptionInChild) = e := by
    rw [hframe.quiet.trans hk.quiet, Bool.or_false]
  refine ⟨(x.release a.pid).toParent a.pid, ?_, ?_⟩
  · change Halted.parent _ (k₂.pcbs a.pid).saved
      (if (e || k₂.exceptionInChild) = true then _ else _) = _
    rw [hsaved, hflag]
    rfl
  have hactive : x.activeTerminal = k.activeTerminal := hframe.active.trans (if_neg h0)
  have hsched : x.scheduledTerminal = k.scheduledTerminal := hframe.scheduled
  have hinit : x.initializedTerminals = k.initializedTerminals := by
    refine hframe.initialized.trans ?_
    simp only [Kernel.setPcb, Kernel.installed, if_neg h0, hk.active]
    rw [← hk.initialized]
    exact Function.update_eq_self t k.initializedTerminals
  have hfore : ∀ u, u ≠ t → (x.terminals u).activePid = (k.terminals u).activePid := by
    intro u hu
    refine (hframe.foreground u).trans ?_
    simp [Kernel.setPcb, Kernel.installed, h0, hk.active, hu]
  rw [toParent_eq hpc hparent hid hmod]
  refine ⟨hk.current.symm, hactive, hsched, hinit, fun u => ?_, hk.stack.symm, ?_,
    hk.quiet.symm, fun r => ?_, fun r hr => ?_⟩
  · by_cases hu : u = t
    · subst hu
      simp [hsched, hk.scheduled, hk.foreground]
    · simp [hsched, hk.scheduled, hu, hfore u hu]
  · have hpage : x.paging.directoryArray userSpaceDirNum = _ := hframe.page
    simp only [Paging.mapUser, Function.update_self, hpage]
    simp only [Kernel.setPcb, Kernel.installed, Paging.mapUser, Function.update_self]
    rw [← hk.page]
    rfl
  · by_cases hr : r = a.pid
    · subst hr
      simp [forgotten_inUse, hfree]
    · simp only [Function.update_of_ne hr]
      exact huse r hr
  · have hne : r ≠ a.pid := fun he => hfree (he ▸ hr)
    simp only [Function.update_of_ne hne]
    exact hother r hne hr

/-! ### Any nesting -/

/-- Whatever a process does between its start and its end only touches its descriptors. -/
theorem Nested.framed (hbody : Nested img ops (Spared img ops) k k') (hk : k.Running t p)
    (hres : ∀ u, (k.pcbs (baseShell u)).inUse = 1) : Framed p k k' := by
  induction hbody generalizing p with
  | nil k => exact (Restored.refl k).framed
  | fd ok step rest ih =>
    have hstep := pcbCall_framed hk step ok
    exact hstep.trans (ih (hstep.running hk) (hstep.reserved hres)) hk.inUse
  | rejected call rest ih =>
    rcases execute_cases call.result with ⟨-, rfl⟩ | ⟨a, mem, -, hno, -⟩
    · exact ih hk hres
    · exact absurd hno (by simp)
  | child call body ends rest ihbody ihrest =>
    obtain ⟨hchild, hres'⟩ := call.running hk hres
    obtain ⟨k₃, rfl, hrest⟩ := call.halt_restores hk hres (ihbody hchild hres') ends
    have hframe : Framed p _ k₃ := hrest.framed
    exact hframe.trans (ihrest (hframe.running hk) (hframe.reserved hres)) hk.inUse

/-- A child with a process id past those of the base shells leaves those in use. -/
lemma Called.reserved (hk : k.Running t p) (h : Called img f command k k₁ (some c))
    (hc : maxTerminals ≤ c) (u : Fin 3) : (k.pcbs (baseShell u)).inUse = 1 := by
  have hinit : k.initializedTerminals k.activeTerminal = true := by
    rw [hk.active]
    exact hk.initialized
  rcases execute_cases h.result with ⟨hno, -⟩ | ⟨a, mem, hpid, hpc, -⟩
  · exact absurd hno (by simp)
  · obtain rfl := Option.some.inj hpc
    unfold choosePid at hpid
    rw [if_pos hinit] at hpid
    obtain ⟨i, hfind, hi⟩ := Option.map_eq_some_iff.mp hpid
    obtain ⟨-, -, hless⟩ := List.find?_range_eq_some.mp hfind
    have hu := u.isLt
    simp only [maxTerminals, Nat.cast_ofNat] at hc
    have hused := hless u.val (by omega)
    simpa [baseShell] using hused

/-- A process that starts a child gets everything back when the child halts, and the status
of the child as the value of its call, if no call in between stores into the kernel. -/
theorem execute_halt_restores (hk : k.Running t p) (hcall : Called img f command k k₁ (some c))
    (hc : maxTerminals ≤ c) (hbody : Nested img ops (Spared img ops) k₁ k₂)
    (hhalt : k₂.halt img g status = some res) :
    ∃ k₃, res = .parent k₃ f.regs status.toNat ∧ Restored k k₃ := by
  have hres := hcall.reserved hk hc
  obtain ⟨hchild, hres'⟩ := hcall.running hk hres
  exact hcall.halt_restores (e := false) hk hres (hbody.framed hchild hres') hhalt

/-- The kernel with the first shell. -/
lemma firstShell_running (mem : Memory) :
    ((boot ⟨0, 0⟩ (fun _ => 0) 0 0).installed firstShell mem).Running 0 0 :=
  ⟨rfl, rfl, rfl, rfl, rfl, rfl, rfl, by decide, rfl, rfl, rfl⟩

/-- The first shell starts a shell, which opens the file it was loaded from, reads its head to
where it was loaded, and starts a shell of its own, before both exit. -/
theorem execute_halt_restores_shells : ∃ k k₁ k₂ k₃ : Kernel, k.Running 0 0 ∧
    Called shellImage bareFrame shellCommand k k₁ (some 3) ∧
    Nested shellImage shellLayout.opTable (Spared shellImage shellLayout.opTable) k₁ k₂ ∧
    k₂.halt shellImage bareFrame 7 = some (.parent k₃ ⟨0, 0⟩ 7) ∧ Restored k k₃ := by
  have hrun : (((boot ⟨0, 0⟩ (fun _ => 0) 0 0).execute shellImage bareFrame shellCommand).bind
      fun k => (k.1.execute shellImage bareFrame shellCommand).bind
      fun k₁ => (k₁.1.pcbCall shellImage shellLayout.opTable (.opens shellCommand)
        k₁.1.idle).bind
      fun u => (u.pcbCall shellImage shellLayout.opTable (readInto 0x8048000 2 4)
        u.idle).bind
      fun v => (v.execute shellImage bareFrame shellCommand).bind
      fun w => (w.1.halt shellImage bareFrame 5).bind
      fun res => (res.kernel.halt shellImage bareFrame 7).map fun _ => (k₁.2, w.2,
        decide (k₁.1.StoresInPage shellImage shellLayout.opTable (.opens shellCommand)),
        decide (u.StoresInPage shellImage shellLayout.opTable (readInto 0x8048000 2 4)))) =
      some (some 3, some 4, true, true) := by
    decide +kernel
  obtain ⟨⟨k, first⟩, hk, hrun⟩ := Option.bind_eq_some_iff.mp hrun
  obtain ⟨⟨k₁, child⟩, hk₁, hrun⟩ := Option.bind_eq_some_iff.mp hrun
  obtain ⟨u, hu, hrun⟩ := Option.bind_eq_some_iff.mp hrun
  obtain ⟨v, hv, hrun⟩ := Option.bind_eq_some_iff.mp hrun
  obtain ⟨⟨w, grandchild⟩, hw, hrun⟩ := Option.bind_eq_some_iff.mp hrun
  obtain ⟨res, hres, hrun⟩ := Option.bind_eq_some_iff.mp hrun
  obtain ⟨res', hhalt, hrun⟩ := Option.map_eq_some_iff.mp hrun
  simp only [Prod.mk.injEq, decide_eq_true_eq] at hrun
  obtain ⟨rfl, rfl, hopens, hreads⟩ := hrun
  obtain ⟨mem, hboot⟩ := boot_execute ⟨0, 0⟩ (fun _ => 0) 0 0
  obtain ⟨rfl, rfl⟩ := Prod.mk.inj (Option.some.inj (hboot.symm.trans hk))
  have hcall : Called shellImage bareFrame shellCommand _ k₁ (some 3) := ⟨by decide, hk₁⟩
  have hbody : Nested shellImage shellLayout.opTable (Spared shellImage shellLayout.opTable) k₁
      res.kernel :=
    .fd hopens.spared hu (.fd hreads.spared hv
      (.child (e := false) ⟨by decide, hw⟩ (.nil w) hres (.nil res.kernel)))
  obtain ⟨k₃, rfl, hrest⟩ :=
    execute_halt_restores (firstShell_running mem) hcall (by decide) hbody hhalt
  exact ⟨_, k₁, res.kernel, k₃, firstShell_running mem, hcall, hbody, hhalt, hrest⟩

end Frames

/-! ### A buffer over the PCB of the parent -/

/-- The child reads the head of a file into the argument of its parent. -/
theorem read_reaches_parent : ¬∀ (img : Image) (ops : OpTable → UInt32) (k k₁ k₂ : Kernel)
    (t : Fin 3) (p c : ℤ) (f g : CallFrame) (command : List UInt8) (status : UInt8) (res : Halted),
    k.Running t p → Called img f command k k₁ (some c) → maxTerminals ≤ c →
    Nested img ops (fun _ _ => True) k₁ k₂ → k₂.halt img g status = some res →
    ∃ k₃, res = .parent k₃ f.regs status.toNat ∧ Restored k k₃ := by
  intro h
  have hrun : (((boot ⟨0, 0⟩ (fun _ => 0) 0 0).execute shellImage bareFrame shellCommand).bind
      fun k => (k.1.execute shellImage bareFrame shellCommand).bind
      fun k₁ => (k₁.1.pcbCall shellImage shellLayout.opTable (.opens shellCommand)
        k₁.1.idle).bind
      fun u => (u.pcbCall shellImage shellLayout.opTable (readInto 0x7FE094 2 4)
        u.idle).bind
      fun v => (v.halt shellImage bareFrame 7).map fun res => (k₁.2, (k.1.pcbs 0).arg 0,
        (res.kernel.pcbs 0).arg 0)) = some (some 3, 0, 0x7F) := by
    decide +kernel
  obtain ⟨⟨k, first⟩, hk, hrun⟩ := Option.bind_eq_some_iff.mp hrun
  obtain ⟨⟨k₁, child⟩, hk₁, hrun⟩ := Option.bind_eq_some_iff.mp hrun
  obtain ⟨u, hu, hrun⟩ := Option.bind_eq_some_iff.mp hrun
  obtain ⟨v, hv, hrun⟩ := Option.bind_eq_some_iff.mp hrun
  obtain ⟨res, hhalt, hrun⟩ := Option.map_eq_some_iff.mp hrun
  simp only [Prod.mk.injEq] at hrun
  obtain ⟨rfl, hbefore, hafter⟩ := hrun
  obtain ⟨mem, hboot⟩ := boot_execute ⟨0, 0⟩ (fun _ => 0) 0 0
  obtain ⟨rfl, rfl⟩ := Prod.mk.inj (Option.some.inj (hboot.symm.trans hk))
  have hrunning := firstShell_running mem
  obtain ⟨k₃, rfl, hrest⟩ := h shellImage shellLayout.opTable _ k₁ v 0 0 3 bareFrame bareFrame
    shellCommand 7 res hrunning ⟨by decide, hk₁⟩ (by decide)
    (.fd trivial hu (.fd trivial hv (.nil v))) hhalt
  have harg := congrArg (fun pcb => pcb.arg 0) (hrest.pcbs 0 hrunning.inUse)
  exact absurd (hbefore.symm.trans (harg.symm.trans hafter)) (by decide)

end Kernel

end HalOs
