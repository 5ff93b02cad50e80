import HalOs.Proofs.ProcessCalls
import HalOs.Proofs.ProcessTree
import HalOs.Proofs.ReadBounds
import HalOs.Proofs.Rejections

/-!
# The shell after a base shell

The first process reserves PIDs 1 and 2 along with its own PID 0. From then on no call gives a
reserved PID away, and `halt` finds the PID of a base shell free again as the lowest of all.
A terminal switched to before the first shell gets its shell without the reservation, and a
buffer over the PCB of a process can free its PID.
-/

namespace HalOs

namespace Kernel

/-- The image has a program named `shell` that fits the user page. -/
structure ValidShell (img : Image) (d : Dentry) : Prop where
  dentries : img.numDentries.toNat ≤ maxNumDentries
  named : img.firstNamed (wordOf shellCommand) = some d
  held : HeaderHeld img d
  magic : HasMagic img d
  fits : progImgOffset + (img.inodes d.inodeNumber.toNat).numBytes.toNat ≤ userPageSize

lemma ValidShell.accepted {img : Image} {d : Dentry} (h : ValidShell img d) (old : ℕ → UInt8) :
    ∃ program : Program, checkProgram img old shellCommand = some (some program) ∧
      progImgOffset + program.bytes.length ≤ userPageSize := by
  obtain ⟨program, hacc⟩ :=
    checkProgram_accepts h.dentries (by decide) h.named h.held h.magic old
  have hbytes := checkProgram_bytes h.dentries h.named hacc
  have hlen : program.bytes.length ≤ (img.inodes d.inodeNumber.toNat).numBytes.toNat := by
    rw [hbytes, readData_length]
    unfold readCount
    generalize (0 + userPageSize) % 2 ^ 32 - 0 = room
    split_ifs
    · exact Nat.zero_le _
    · omega
  exact ⟨program, hacc, le_trans (Nat.add_le_add_left hlen _) h.fits⟩

/-- The first terminal and the active one have had their shells, the ids of the base shells are
taken, and no PCB has the id of another. -/
structure Reserved (k : Kernel) : Prop where
  first : k.initializedTerminals 0 = true
  active : k.initializedTerminals k.activeTerminal = true
  inUse : ∀ t, (k.pcbs (baseShell t)).inUse = 1
  ids : ∀ q, (k.pcbs q).processId = q ∨ (k.pcbs q).processId = 0

section Reservation

variable {img : Image} {k k' : Kernel} {r : Regs} {f : CallFrame} {target t : Fin 3}
  {a : Activation} {mem : Memory} {p : ℤ} {d : Dentry}

/-! ### Steps that start no process -/

/-- A change that leaves the ids, the use of the PCBs and the terminals that are initialised. -/
lemma Reserved.congr (hk : k.Reserved) (huse : ∀ q, (k'.pcbs q).inUse = (k.pcbs q).inUse)
    (hids : ∀ q, (k'.pcbs q).processId = (k.pcbs q).processId)
    (hinit : k'.initializedTerminals = k.initializedTerminals)
    (hactive : k.initializedTerminals k'.activeTerminal = true) : k'.Reserved := by
  refine ⟨?_, ?_, fun t => ?_, fun q => ?_⟩
  · rw [hinit]
    exact hk.first
  · rw [hinit]
    exact hactive
  · rw [huse]
    exact hk.inUse t
  · rw [hids]
    exact hk.ids q

lemma scheduler_reserved (r : Regs) (k k' : Kernel) (hk : k.Reserved)
    (h : k.scheduler r = some k') : k'.Reserved := by
  obtain ⟨p, next, -, -, rfl⟩ := scheduler_cases h
  have hactive : ((k.resetFirstSwap.saveContext r p).switchTo next).activeTerminal =
      k.activeTerminal := by
    unfold resetFirstSwap
    split <;> rfl
  refine hk.congr (fun q => ?_) (fun q => ?_) (saved_initialized (r := r) p) ?_
  · change ((k.resetFirstSwap.saveContext r p).pcbs q).inUse = _
    rw [saved_pcbs]
  · change ((k.resetFirstSwap.saveContext r p).pcbs q).processId = _
    rw [saved_pcbs]
  · rw [hactive]
    exact hk.active

lemma tick_reserved (hk : k.Reserved) (h : k.pitHandler r = some k') : k'.Reserved := by
  unfold pitHandler at h
  split at h
  · exact scheduler_reserved r k k' hk h
  · exact Option.some.inj h ▸ hk

lemma key_reserved {c : UInt8} (hk : k.Reserved) (h : k.updateKbBuffer c = some k') :
    k'.Reserved := by
  rcases updateKbBuffer_cases h with ⟨g, rfl, -⟩ | rfl | ⟨-, -, mem, x, y, g, rfl, -⟩
  · exact hk.congr (fun _ => rfl) (fun _ => rfl) rfl hk.active
  · exact hk
  · exact hk.congr (fun _ => rfl) (fun _ => rfl) rfl hk.active

lemma clear_reserved (hk : k.Reserved) (h : k.clearTerminal = some k') : k'.Reserved := by
  obtain ⟨mem, x, y, g, rfl, -⟩ := clearTerminal_cases h
  exact hk.congr (fun _ => rfl) (fun _ => rfl) rfl hk.active

/-! ### Starting a process -/

/-- A new process keeps the reservation if the PIDs other than its own are taken; PID 0 brings
the reservation along. -/
lemma installed_reserved (mem : Memory) (hfirst : a.pid = 0 ∨ k.initializedTerminals 0 = true)
    (huse : a.pid = 0 ∨ ∀ t, baseShell t ≠ a.pid → (k.pcbs (baseShell t)).inUse = 1)
    (hids : ∀ q, (k.pcbs q).processId = q ∨ (k.pcbs q).processId = 0) :
    (k.installed a mem).Reserved := by
  have hpcbs : ∀ q, (k.installed a mem).pcbs q = k.installedPcbs a q := fun _ => rfl
  refine ⟨?_, ?_, fun t => ?_, fun q => ?_⟩
  · simp only [installed]
    by_cases h0 : (0 : Fin 3) = if a.pid = 0 then 0 else k.activeTerminal
    · rw [← h0, Function.update_self]
    · rw [Function.update_of_ne h0]
      rcases hfirst with hpid | hinit
      · exact absurd (if_pos hpid).symm h0
      · exact hinit
  · simp only [installed, Function.update_self]
  · rw [hpcbs]
    unfold installedPcbs
    by_cases ht : baseShell t = a.pid
    · rw [if_pos ht]
      rfl
    rw [if_neg ht]
    by_cases h0 : a.pid = 0 ∧ (baseShell t = 1 ∨ baseShell t = 2)
    · rw [if_pos h0]
    rw [if_neg h0]
    rcases huse with hpid | huse
    · have hlt := t.isLt
      simp only [baseShell] at ht h0
      omega
    · exact huse t ht
  · rw [hpcbs]
    unfold installedPcbs
    split_ifs with hq
    · exact Or.inl hq.symm
    · exact hids q
    · exact hids q

lemma execute_reserved {command : List UInt8} {res : Option ℤ}
    (hids : ∀ q, (k.pcbs q).processId = q ∨ (k.pcbs q).processId = 0)
    (hchosen : ∀ p, k.choosePid = some p → p = 0 ∨ (k.initializedTerminals 0 = true ∧
      ∀ t, baseShell t ≠ p → (k.pcbs (baseShell t)).inUse = 1))
    (h : k.execute img f command = some (k', res)) : (res = none ∧ k' = k) ∨ k'.Reserved := by
  rcases execute_cases h with hnone | ⟨a, mem, hpid, -, -, -, hend⟩
  · exact Or.inl hnone
  right
  have hinst : (k.installed a mem).Reserved := by
    rcases hchosen a.pid hpid with h0 | ⟨hfirst, huse⟩
    · exact installed_reserved mem (Or.inl h0) (Or.inl h0) hids
    · exact installed_reserved mem (Or.inr hfirst) (Or.inr huse) hids
  rcases hend with ⟨rfl, -⟩ | ⟨-, -, hpre, -⟩
  · exact hinst
  · exact preempt_invariant scheduler_reserved hinst hpre

lemma Reserved.execute {command : List UInt8} {res : Option ℤ} (hk : k.Reserved)
    (h : k.execute img f command = some (k', res)) : k'.Reserved := by
  have hchosen : ∀ p, k.choosePid = some p → p = 0 ∨ (k.initializedTerminals 0 = true ∧
      ∀ t, baseShell t ≠ p → (k.pcbs (baseShell t)).inUse = 1) :=
    fun p _ => Or.inr ⟨hk.first, fun t _ => hk.inUse t⟩
  rcases execute_reserved hk.ids hchosen h with ⟨-, rfl⟩ | hdone
  · exact hk
  · exact hdone

lemma execute_accepted {command : List UInt8} {program : Program} {res : Option ℤ}
    (hacc : checkProgram img f.header command = some (some program))
    (hpid : k.choosePid = some p) (h : k.execute img f command = some (k', res)) :
    res = some p := by
  simp only [execute, hacc, hpid, Option.bind_some] at h
  obtain ⟨x, -, h⟩ := Option.map_eq_some_iff.mp h
  exact (Prod.mk.inj h).2.symm

lemma switch_reserved (hk : k.Reserved) (hshell : ValidShell img d)
    (h : k.terminalSwitch img f target = some k') : k'.Reserved := by
  rcases terminalSwitch_cases h with ⟨-, rfl⟩ | ⟨-, hinit, rfl⟩ | ⟨-, hno, res, hex⟩
  · exact hk
  · rw [switchScreens_eq]
    exact hk.congr (fun _ => rfl) (fun _ => rfl) rfl hinit
  · have hpid : (k.switchScreens target).choosePid = some (baseShell target) := by
      rw [switchScreens_eq]
      unfold choosePid
      dsimp only
      rw [hno]
      rfl
    have hids : ∀ q, ((k.switchScreens target).pcbs q).processId = q ∨
        ((k.switchScreens target).pcbs q).processId = 0 := by
      rw [switchScreens_eq]
      exact hk.ids
    have hchosen : ∀ p, (k.switchScreens target).choosePid = some p →
        p = 0 ∨ ((k.switchScreens target).initializedTerminals 0 = true ∧
          ∀ t, baseShell t ≠ p → ((k.switchScreens target).pcbs (baseShell t)).inUse = 1) := by
      rw [switchScreens_eq]
      exact fun p _ => Or.inr ⟨hk.first, fun t _ => hk.inUse t⟩
    obtain ⟨program, hacc, -⟩ := hshell.accepted f.header
    rcases execute_reserved hids hchosen hex with ⟨hnone, -⟩ | hdone
    · rw [execute_accepted hacc hpid hex] at hnone
      exact absurd hnone (by simp)
    · exact hdone

/-! ### Ending a process -/

/-- Once its PCB is given up, a base shell has the lowest PID there is. -/
lemma relaunching_chosen (hk : k.Reserved) {pid : ℤ}
    (h : ((k.release p).relaunching p).choosePid = some pid) (t : Fin 3)
    (ht : baseShell t ≠ pid) : (((k.release p).relaunching p).pcbs (baseShell t)).inUse = 1 := by
  by_cases hp : baseShell t = p
  · subst hp
    have hself := relaunching_choosePid_self hk.inUse hk.active (s := t)
    exact absurd (Option.some.inj (hself.symm.trans h)) ht
  · rw [relaunching_pcbs_of_ne hp]
    exact hk.inUse t

lemma relaunching_ids (hk : k.Reserved) (q : ℤ) :
    (((k.release p).relaunching p).pcbs q).processId = q ∨
      (((k.release p).relaunching p).pcbs q).processId = 0 := by
  by_cases hq : q = p
  · subst hq
    right
    simp [relaunching, forgetIds, setPcb]
  · rw [relaunching_pcbs_of_ne hq]
    exact hk.ids q

lemma toParent_same (k : Kernel) (p : ℤ) : (k.toParent p).pcbs = (k.relaunching p).pcbs ∧
    (k.toParent p).initializedTerminals = k.initializedTerminals ∧
    (k.toParent p).activeTerminal = k.activeTerminal := ⟨rfl, rfl, rfl⟩

lemma halt_reserved {status : UInt8} {res : Halted} (hk : k.Reserved)
    (h : k.halt img f status = some res) : res.kernel.Reserved := by
  obtain ⟨p, -, ⟨-, k', pid, hex, rfl⟩ | ⟨hlow, rfl⟩⟩ := halt_cases h
  · have hchosen : ∀ q, ((k.release p).relaunching p).choosePid = some q →
        q = 0 ∨ (((k.release p).relaunching p).initializedTerminals 0 = true ∧
          ∀ t, baseShell t ≠ q → (((k.release p).relaunching p).pcbs (baseShell t)).inUse = 1) :=
      fun q hq => Or.inr ⟨hk.first, relaunching_chosen hk hq⟩
    rcases execute_reserved (relaunching_ids hk) hchosen hex with ⟨hnone, -⟩ | hdone
    · exact absurd hnone (by simp)
    · exact hdone
  · have hid : (k.pcbs p).processId = p := by
      rcases hk.ids p with hid | hid
      · exact hid
      · rw [hid] at hlow
        exact absurd hlow (by decide)
    obtain ⟨hpcbs, hinit, hactive⟩ := toParent_same (k.release p) p
    refine ⟨?_, ?_, fun t => ?_, fun q => ?_⟩
    · exact (congrFun hinit 0).trans hk.first
    · exact (congrFun hinit _).trans ((congrArg k.initializedTerminals hactive).trans hk.active)
    · have hne : baseShell t ≠ p := by
        have hlt := baseShell_lt t
        omega
      rw [Halted.kernel, hpcbs, relaunching_pcbs_of_ne hne]
      exact hk.inUse t
    · rw [Halted.kernel, hpcbs]
      exact relaunching_ids hk q

/-! ### Runs -/

/-- No process has been started yet. -/
structure Unstarted (k : Kernel) : Prop where
  current : k.currentPcb = none
  active : k.activeTerminal = 0
  initialized : k.initializedTerminals 0 = false
  ids : ∀ q, (k.pcbs q).processId = q ∨ (k.pcbs q).processId = 0

/-- No terminal is switched to before the first shell runs. -/
def ShellFirst (k : Kernel) : Event → Prop
  | .switch _ _ => k.initializedTerminals 0 = true
  | _ => True

lemma Unstarted.step {e : Event} (hk : k.Unstarted) (hg : k.ShellFirst e)
    (h : step img k e = some k') : k'.Unstarted ∨ k'.Reserved := by
  cases e with
  | tick r =>
    have hnone : ¬k.currentPcb.isSome = true := by simp [hk.current]
    obtain rfl := Option.some.inj ((if_neg hnone).symm.trans h)
    exact Or.inl hk
  | switch target f => exact absurd (hk.initialized.symm.trans hg) (by decide)
  | key c =>
    rcases updateKbBuffer_cases h with ⟨g, rfl, -⟩ | rfl | ⟨-, -, mem, x, y, g, rfl, -⟩
    · exact Or.inl ⟨hk.current, hk.active, hk.initialized, hk.ids⟩
    · exact Or.inl hk
    · exact Or.inl ⟨hk.current, hk.active, hk.initialized, hk.ids⟩
  | clear =>
    obtain ⟨mem, x, y, g, rfl, -⟩ := clearTerminal_cases h
    exact Or.inl ⟨hk.current, hk.active, hk.initialized, hk.ids⟩
  | execute f command =>
    obtain ⟨⟨k', res⟩, hex, rfl⟩ := Option.map_eq_some_iff.mp h
    have hchosen : ∀ p, k.choosePid = some p → p = 0 ∨ (k.initializedTerminals 0 = true ∧
        ∀ t, baseShell t ≠ p → (k.pcbs (baseShell t)).inUse = 1) := by
      intro p hp
      unfold choosePid at hp
      rw [hk.active, hk.initialized] at hp
      exact Or.inl (Option.some.inj hp).symm
    rcases execute_reserved hk.ids hchosen hex with ⟨-, rfl⟩ | hdone
    · exact Or.inl hk
    · exact Or.inr hdone
  | halt f status =>
    obtain ⟨res, hres, -⟩ := Option.map_eq_some_iff.mp h
    obtain ⟨p, hp, -⟩ := halt_cases hres
    exact absurd (hk.current.symm.trans hp) (by simp)

lemma Reserved.step {e : Event} (hk : k.Reserved) (hshell : ValidShell img d)
    (h : step img k e = some k') : k'.Reserved := by
  cases e with
  | tick r => exact tick_reserved hk h
  | switch target f => exact switch_reserved hk hshell h
  | key c => exact key_reserved hk h
  | clear => exact clear_reserved hk h
  | execute f command =>
    obtain ⟨⟨k', res⟩, hex, rfl⟩ := Option.map_eq_some_iff.mp h
    exact hk.execute hex
  | halt f status =>
    obtain ⟨res, hres, rfl⟩ := Option.map_eq_some_iff.mp h
    exact halt_reserved hk hres

section Calls

variable {ops : OpTable → UInt32} {call : PcbCall} {drivers : Drivers}

lemma pcbCall_reserved (hk : k.Reserved) (hspared : k.Spared img ops call)
    (h : k.pcbCall img ops call drivers = some k') : k'.Reserved := by
  obtain ⟨p, fds, -, rfl⟩ := pcbCall_cases h hspared
  exact hk.congr (fun q => setPcb_inUse p q) (fun q => setPcb_processId p q) rfl hk.active

lemma vidmapCall_reserved {screenStart : UInt32} (hk : k.Reserved)
    (h : k.vidmapCall ops screenStart drivers = some k') : k'.Reserved := by
  obtain ⟨-, rfl⟩ := vidmapCall_cases h
  exact hk.congr (fun _ => rfl) (fun _ => rfl) rfl hk.active

/-- The first shell comes before any switch, and no call stores into the kernel's 4 MB. -/
def Orderly (img : Image) (ops : OpTable → UInt32) (k : Kernel) : SystemEvent → Prop
  | .kernel e => k.ShellFirst e
  | .call call _ => k.Spared img ops call
  | .vidmap _ _ => True

lemma Unstarted.systemStep {e : SystemEvent} (hk : k.Unstarted) (hg : k.Orderly img ops e)
    (h : k.systemStep img ops e = some k') : k'.Unstarted ∨ k'.Reserved := by
  cases e with
  | kernel e => exact hk.step hg h
  | call call drivers =>
    obtain ⟨p, -, hp, -⟩ := pcbCall_cases h hg
    exact absurd (hk.current.symm.trans hp) (by simp)
  | vidmap screenStart drivers =>
    obtain ⟨⟨p, hp⟩, -⟩ := vidmapCall_cases h
    exact absurd (hk.current.symm.trans hp) (by simp)

lemma Reserved.systemStep {e : SystemEvent} (hk : k.Reserved) (hshell : ValidShell img d)
    (hg : k.Orderly img ops e) (h : k.systemStep img ops e = some k') : k'.Reserved := by
  cases e with
  | kernel e => exact hk.step hshell h
  | call call drivers => exact pcbCall_reserved hk hg h
  | vidmap screenStart drivers => exact vidmapCall_reserved hk h

end Calls

/-- Once a process runs, the reservation holds in every orderly run. -/
theorem reserved_run {ops : OpTable → UInt32} {frames : TableFrames} {x y : ℕ}
    {es : List SystemEvent} (hshell : ValidShell img d)
    (h : Runs.Path (systemStep img ops) (Orderly img ops) (boot frames mem x y) es k) :
    k.Unstarted ∨ k.Reserved := by
  have hboot : (boot frames mem x y).Unstarted := ⟨rfl, rfl, rfl, fun _ => Or.inr rfl⟩
  refine h.invariant (I := fun k => k.Unstarted ∨ k.Reserved) ?_ (Or.inl hboot)
  intro s e u hs hg hnext
  rcases hs with hs | hs
  · exact hs.systemStep hg hnext
  · exact Or.inr (hs.systemStep hshell hg hnext)

/-! ### The new shell -/

/-- Terminal `t` has a new shell in the place of its base shell, and nothing else has changed. -/
structure Respawned (k k' : Kernel) (t : Fin 3) : Prop where
  current : k'.currentPcb = some (baseShell t)
  inUse : (k'.pcbs (baseShell t)).inUse = 1
  processId : (k'.pcbs (baseShell t)).processId = baseShell t
  parent : (k'.pcbs (baseShell t)).parentProcessId = -1
  table : (k'.pcbs (baseShell t)).fdArray = Activation.stdioTable fun _ => emptyFd
  foreground : (k'.terminals t).activePid = baseShell t
  page : k'.paging.userFrame = offsetField (getPhysAddr (baseShell t))
  stack : k'.tssEsp0 = kernelStack (baseShell t)
  active : k'.activeTerminal = k.activeTerminal
  others : ∀ q ≠ baseShell t, k'.pcbs q = k.pcbs q

/-- PID 0 belongs to the first terminal, so its branch leaves the active terminal. -/
lemma shell_terminal (hact : k.activeTerminal = t) :
    (if baseShell t = 0 then 0 else k.activeTerminal) = k.activeTerminal := by
  by_cases h0 : baseShell t = 0
  · rw [if_pos h0, hact]
    apply Fin.ext
    simp only [baseShell] at h0
    omega
  · rw [if_neg h0]

lemma installed_respawned (hk : k.Reserved) (hact : k.activeTerminal = t) (a : Activation)
    (mem : Memory) (hpid : a.pid = baseShell t) :
    Respawned k (((k.release (baseShell t)).relaunching (baseShell t)).installed a mem) t := by
  have hlt := baseShell_lt t
  have hother : ∀ q ≠ baseShell t,
      ((k.release (baseShell t)).relaunching (baseShell t)).pcbs q = k.pcbs q :=
    fun _ hq => relaunching_pcbs_of_ne hq
  have hterm : ((k.release (baseShell t)).relaunching (baseShell t)).activeTerminal = t := hact
  generalize (k.release (baseShell t)).relaunching (baseShell t) = u at hother hterm
  have hactive : (if a.pid = 0 then 0 else u.activeTerminal) = t := by
    rw [hpid, shell_terminal hterm, hterm]
  have hown : (u.installed a mem).pcbs (baseShell t) = u.newPcb a := if_pos hpid.symm
  refine {
    current := congrArg some hpid
    inUse := congrArg Pcb.inUse hown
    processId := (congrArg Pcb.processId hown).trans hpid
    parent := (congrArg Pcb.parentProcessId hown).trans (if_pos (hpid.trans_lt hlt))
    table := congrArg Pcb.fdArray hown
    foreground := ?_
    page := ?_
    stack := congrArg kernelStack hpid
    active := hactive.trans hact.symm
    others := fun q hq => ?_ }
  · simp only [installed, hactive, Function.update_self]
    rw [hpid]
    simp only [baseShell]
    omega
  · rw [← hpid]
    exact Paging.userFrame_mapUser _ _
  · change u.installedPcbs a q = k.pcbs q
    unfold installedPcbs
    rw [if_neg fun h => hq (h.trans hpid), hother q hq]
    by_cases hreserve : a.pid = 0 ∧ (q = 1 ∨ q = 2)
    · have huse : (k.pcbs q).inUse = 1 := by
        rcases hreserve.2 with rfl | rfl
        · exact hk.inUse 1
        · exact hk.inUse 2
      rw [if_pos hreserve, ← huse]
    · rw [if_neg hreserve]

lemma halt_respawns {status : UInt8} (hk : k.Reserved) (hshell : ValidShell img d)
    (hcur : k.currentPcb = some (baseShell t)) (hact : k.activeTerminal = t) :
    ∃ k', k.halt img f status = some (.shell k' (baseShell t)) ∧ Respawned k k' t := by
  obtain ⟨program, hacc, hlen⟩ := hshell.accepted f.header
  let a : Activation := ⟨program, baseShell t, f.regs⟩
  have hpid := relaunching_choosePid_self hk.inUse hk.active (s := t)
  have hwait : k.initializedTerminals (if baseShell t = 0 then 0 else k.activeTerminal) = true := by
    rw [shell_terminal hact]
    exact hk.active
  obtain ⟨mem, hex⟩ := execute_installs (a := a)
    (k := (k.release (baseShell t)).relaunching (baseShell t)) hacc hpid rfl hlen (Or.inl hwait)
  have hlow : (k.pcbs (baseShell t)).processId < maxTerminals := by
    rcases hk.ids (baseShell t) with hid | hid
    · rw [hid]
      exact baseShell_lt t
    · rw [hid]
      decide
  refine ⟨_, ?_, installed_respawned hk hact a mem rfl⟩
  simp only [halt, hcur, Option.bind_some, release_processId, if_pos hlow, hex, Option.map_some]
  rfl

/-- In every orderly run of handlers and system calls, a base shell that halts on the screen is
followed by a shell with its PID. -/
theorem baseShell_respawns {ops : OpTable → UInt32} {frames : TableFrames} {x y : ℕ}
    {es : List SystemEvent} (status : UInt8) (f : CallFrame) (hshell : ValidShell img d)
    (h : Runs.Path (systemStep img ops) (Orderly img ops) (boot frames mem x y) es k)
    (hcur : k.currentPcb = some (baseShell t)) (hact : k.activeTerminal = t) :
    ∃ k', k.halt img f status = some (.shell k' (baseShell t)) ∧ Respawned k k' t := by
  rcases reserved_run hshell h with hk | hk
  · exact absurd (hk.current.symm.trans hcur) (by simp)
  · exact halt_respawns hk hshell hcur hact

lemma shellImage_valid : ValidShell shellImage (shellImage.bootDentries 0) := by
  obtain ⟨d, hd⟩ : ∃ d, shellImage.firstNamed (wordOf shellCommand) = some d :=
    Option.isSome_iff_exists.mp (by decide +kernel)
  have hmagic : ∀ j < 4, shellImage.fileByte 0 j = byteAt magicNumber j := by decide +kernel
  have hsize : (shellImage.inodes (shellImage.bootDentries 0).inodeNumber.toNat).numBytes.toNat =
      28 := by
    decide
  refine ⟨by decide, by rw [hd, shell_firstNamed hd], ⟨by decide, by decide⟩, hmagic, ?_⟩
  rw [hsize]
  simp only [progImgOffset, userPageSize]
  omega

/-- The guard of a run in a form that evaluates. -/
def orderlyInPage (img : Image) (ops : OpTable → UInt32) (k : Kernel) : SystemEvent → Bool
  | .kernel (.switch _ _) => k.initializedTerminals 0
  | .kernel _ => true
  | .call call _ => decide (k.StoresInPage img ops call)
  | .vidmap _ _ => true

lemma orderlyInPage_of {ops : OpTable → UInt32} {e : SystemEvent}
    (h : k.orderlyInPage img ops e = true) : k.Orderly img ops e := by
  cases e with
  | kernel e =>
    cases e with
    | switch target f => exact h
    | _ => trivial
  | call call drivers => exact (of_decide_eq_true h).spared
  | vidmap screenStart drivers => trivial

/-- A tick and the first shell. -/
def firstStart : List SystemEvent :=
  [.kernel (.tick ⟨0, 0⟩), .kernel (.execute bareFrame shellCommand)]

/-- The shell opens the file it was loaded from, and reads its head to where it was loaded. -/
def firstCalls (k : Kernel) : List SystemEvent :=
  [.call (.opens shellCommand) k.idle, .call (readInto 0x8048000 2 4) k.idle]

theorem baseShell_respawns_first : ∃ k k' k'' : Kernel,
    Runs.Path (systemStep shellImage shellLayout.opTable) (Orderly shellImage shellLayout.opTable)
      (boot ⟨0, 0⟩ (fun _ => 0) 0 0) (firstStart ++ firstCalls k) k' ∧
    ((k'.pcbs 0).fdArray 2).flags = 1 ∧
    k'.halt shellImage bareFrame 0 = some (.shell k'' 0) ∧ Respawned k' k'' 0 := by
  have hend : ((Runs.run (systemStep shellImage shellLayout.opTable)
      (fun k e => k.orderlyInPage shellImage shellLayout.opTable e = true)
      (boot ⟨0, 0⟩ (fun _ => 0) 0 0) firstStart).bind fun k =>
        (Runs.run (systemStep shellImage shellLayout.opTable)
          (fun k e => k.orderlyInPage shellImage shellLayout.opTable e = true) k
          (firstCalls k)).map fun k' => (k'.currentPcb, k'.activeTerminal,
            ((k'.pcbs 0).fdArray 2).flags)) = some (some 0, 0, 1) := by
    decide +kernel
  obtain ⟨k, hstart, hend⟩ := Option.bind_eq_some_iff.mp hend
  obtain ⟨k', hcalls, hk'⟩ := Option.map_eq_some_iff.mp hend
  simp only [Prod.mk.injEq] at hk'
  obtain ⟨hcur, hact, hopen⟩ := hk'
  have hpath := ((Runs.path_of_run hstart).append (Runs.path_of_run hcalls)).mono
    fun _ _ => orderlyInPage_of
  obtain ⟨k'', hk''⟩ := baseShell_respawns (t := 0) 0 bareFrame shellImage_valid hpath hcur hact
  exact ⟨k, k', k'', hpath, hopen, hk''⟩

end Reservation

/-! ### A switch before the first shell -/

/-- The second terminal gets the only shell, and no PID is reserved. -/
def earlySwitch : List SystemEvent := [.kernel (.switch 1 bareFrame)]

/-- Ticks, switches and system calls. -/
def TickOrCall : SystemEvent → Bool
  | .kernel e => ProcessEvent e
  | _ => true

/-- The shell has PID 1, and the shell after it has PID 0. -/
theorem early_switch_respawns : ¬∀ (img : Image) (ops : OpTable → UInt32) (frames : TableFrames)
    (mem : Memory) (x y : ℕ) (es : List SystemEvent) (k : Kernel) (t : Fin 3) (d : Dentry)
    (f : CallFrame) (status : UInt8), ValidShell img d →
    Runs.Path (systemStep img ops) (fun _ e => TickOrCall e = true) (boot frames mem x y) es k →
    k.currentPcb = some (baseShell t) → (k.pcbs (baseShell t)).processId = baseShell t →
    k.activeTerminal = t → k.scheduledTerminal = t →
    ∃ k', k.halt img f status = some (.shell k' (baseShell t)) ∧ Respawned k k' t := by
  intro h
  let start := boot ⟨0, 0⟩ (fun _ => 0) 0 0
  have hend : (Runs.run (systemStep shellImage shellLayout.opTable)
      (fun _ e => TickOrCall e = true) start earlySwitch).map (fun k => (k.currentPcb,
        (k.pcbs 1).processId, k.activeTerminal, k.scheduledTerminal,
        (k.halt shellImage bareFrame 0).map fun r => r.kernel.currentPcb)) =
      some (some 1, 1, 1, 1, some (some 0)) := by
    decide +kernel
  obtain ⟨k, hrun, hk⟩ := Option.map_eq_some_iff.mp hend
  simp only [Prod.mk.injEq] at hk
  obtain ⟨hcur, hid, hact, hsched, hhalt⟩ := hk
  obtain ⟨k', hk', hspawn⟩ := h _ _ _ _ _ _ _ k 1 _ bareFrame 0 shellImage_valid
    (Runs.path_of_run hrun) hcur hid hact hsched
  rw [hk', Option.map_some, Halted.kernel, hspawn.current] at hhalt
  exact absurd hhalt (by decide)

end Kernel

end HalOs
