import HalOs.General.Forest
import HalOs.Proofs.Handlers

/-!
# The process tree

The live processes of each terminal form a chain from its foreground process down to its
base shell. `execute` records the parent and the foreground process of the active terminal
and `halt` those of the scheduled terminal, so the chains survive as long as a process calls
`execute`, and a base shell `halt`, while the two are the same.
-/

namespace HalOs

namespace Kernel

/-- A process that has been started and not halted. PIDs 1 and 2 are marked in use before
their shells are started. -/
def Live (k : Kernel) (p : ℤ) : Prop :=
  (k.pcbs p).inUse = 1 ∧ ∀ t : Fin 3, p = t.val → k.initializedTerminals t = true

def parentOf (k : Kernel) (p : ℤ) : Option ℤ :=
  if (k.pcbs p).parentProcessId = -1 then none else some (k.pcbs p).parentProcessId

/-- The process an initialised terminal has in the foreground. -/
def foreground (k : Kernel) (t : Fin 3) : Option ℤ :=
  if k.initializedTerminals t then some (k.terminals t).activePid else none

def baseShell (t : Fin 3) : ℤ := t.val

/-- The parent links from each foreground process end in the base shell of its terminal, the
chains are disjoint, and they hold exactly the live processes. -/
abbrev ProcessTree (k : Kernel) (chain : Fin 3 → List ℤ) : Prop :=
  Forests.Forest baseShell k.foreground k.parentOf k.Live chain

/-- A tree whose PCBs know their process ids, with the ids of the base shells taken. -/
structure Planted (k : Kernel) (chain : Fin 3 → List ℤ) : Prop where
  tree : k.ProcessTree chain
  reserved : ∀ t : Fin 3, (k.pcbs (baseShell t)).inUse = 1
  pids : ∀ p, k.Live p → (k.pcbs p).processId = p ∧ 0 ≤ p ∧ p < numPids

/-- The running process is the foreground process of the scheduled terminal, on its own
kernel stack and with its own user page. -/
structure Settled (k : Kernel) (chain : Fin 3 → List ℤ) : Prop extends Planted k chain where
  current : k.currentPcb = some (k.terminals k.scheduledTerminal).activePid
  scheduled : k.initializedTerminals k.scheduledTerminal = true
  stack : k.tssEsp0 = kernelStack (k.terminals k.scheduledTerminal).activePid
  page : k.paging.userFrame =
    offsetField (getPhysAddr (k.terminals k.scheduledTerminal).activePid)
  quiet : k.exceptionInChild = false

/-- No process has been started. -/
structure Fresh (k : Kernel) : Prop where
  current : k.currentPcb = none
  free : ∀ p, (k.pcbs p).inUse = 0
  initialized : ∀ t, k.initializedTerminals t = false
  active : k.activeTerminal = 0
  scheduled : k.scheduledTerminal = 0
  quiet : k.exceptionInChild = false

section Tree

variable {img : Image} {k k' : Kernel} {r : Regs} {f : CallFrame} {target : Fin 3}
  {chain : Fin 3 → List ℤ} {a : Activation} {mem : Memory} {p : ℤ} {t : Fin 3}

lemma baseShell_injective : Function.Injective baseShell := by
  intro t u h
  apply Fin.ext
  unfold baseShell at h
  exact_mod_cast h

lemma baseShell_lt (t : Fin 3) : baseShell t < maxTerminals := by
  have ht := t.isLt
  simp only [baseShell, maxTerminals]
  omega

/-! ### What the tree says about its processes -/

lemma foreground_of_initialized (h : k.initializedTerminals t = true) :
    k.foreground t = some (k.terminals t).activePid := if_pos h

lemma chain_ne_nil (hk : k.ProcessTree chain) (ht : k.initializedTerminals t = true) :
    chain t ≠ [] := by
  rw [Ne, hk.chain_eq_nil, foreground_of_initialized ht]
  exact Option.some_ne_none _

lemma foreground_live (hk : k.ProcessTree chain) (ht : k.initializedTerminals t = true) :
    k.Live (k.terminals t).activePid := hk.top_alive (foreground_of_initialized ht)

lemma baseShell_live (hk : k.ProcessTree chain) (ht : k.initializedTerminals t = true) :
    k.Live (baseShell t) := hk.alive_of_mem (hk.root_mem (chain_ne_nil hk ht))

/-- The ids below 3 of live processes are those of the base shells. -/
lemma live_of_lt (hk : k.Planted chain) (hp : k.Live p) (hlt : p < maxTerminals) :
    ∃ t, p = baseShell t ∧ p ∈ chain t := by
  obtain ⟨-, h0, -⟩ := hk.pids p hp
  have hb : p.toNat < 3 := by
    simp only [maxTerminals] at hlt
    omega
  have hpt : p = baseShell ⟨p.toNat, hb⟩ := by
    simp only [baseShell]
    omega
  refine ⟨⟨p.toNat, hb⟩, hpt, ?_⟩
  have hinit := hp.2 ⟨p.toNat, hb⟩ hpt
  have hroot := hk.tree.root_mem (chain_ne_nil hk.tree hinit)
  rwa [← hpt] at hroot

/-- Steps that keep the links, the foreground processes and the process ids keep the tree. -/
lemma Planted.congr (hk : k.Planted chain)
    (huse : ∀ q, (k'.pcbs q).inUse = (k.pcbs q).inUse)
    (hparent : ∀ q, (k'.pcbs q).parentProcessId = (k.pcbs q).parentProcessId)
    (hid : ∀ q, (k'.pcbs q).processId = (k.pcbs q).processId)
    (hfore : ∀ t, (k'.terminals t).activePid = (k.terminals t).activePid)
    (hinit : k'.initializedTerminals = k.initializedTerminals) : k'.Planted chain := by
  have hlive : ∀ q, k'.Live q ↔ k.Live q := by
    intro q
    unfold Live
    rw [huse, hinit]
  refine ⟨hk.tree.congr (fun t => ?_) (fun q _ => ?_) hlive, fun t => ?_, fun q hq => ?_⟩
  · unfold foreground
    rw [hinit, hfore]
  · unfold parentOf
    rw [hparent]
  · rw [huse]
    exact hk.reserved t
  · rw [hid]
    exact hk.pids q ((hlive q).mp hq)

/-! ### Ticks -/

/-- A tick makes the foreground process of the terminal it schedules the current one. -/
lemma scheduler_settled (hk : k.Planted chain) (hq : k.exceptionInChild = false)
    (h : k.scheduler r = some k') : k'.Settled chain := by
  obtain ⟨p, next, -, hnext, rfl⟩ := scheduler_cases h
  have hinit : ((k.resetFirstSwap.saveContext r p).switchTo next).initializedTerminals =
      k.initializedTerminals := saved_initialized (r := r) p
  have hplanted : ((k.resetFirstSwap.saveContext r p).switchTo next).Planted chain := by
    refine hk.congr (fun q => ?_) (fun q => ?_) (fun q => ?_) (saved_activePid p) hinit
    · exact congrArg (fun pcb => pcb.inUse) (saved_pcbs p q)
    · exact congrArg (fun pcb => pcb.parentProcessId) (saved_pcbs p q)
    · exact congrArg (fun pcb => pcb.processId) (saved_pcbs p q)
  have hnext' : ((k.resetFirstSwap.saveContext r p).switchTo next).initializedTerminals next =
      true := by
    rw [hinit]
    exact hnext
  have hid := (hplanted.pids _ (foreground_live hplanted.tree hnext')).1
  have hquiet : ((k.resetFirstSwap.saveContext r p).switchTo next).exceptionInChild = false := by
    rw [← hq]
    unfold resetFirstSwap
    split <;> rfl
  refine ⟨hplanted, rfl, hnext', congrArg kernelStack hid, ?_, hquiet⟩
  exact congrArg (fun p => offsetField (getPhysAddr p)) hid

lemma preempt_settled (hk : k.Planted chain) (hq : k.exceptionInChild = false)
    (hp : k.currentPcb = some p) (h : k.preempt r = some k') : k'.Settled chain :=
  (preempt_cases (Q := fun k => k.Planted chain ∧ k.exceptionInChild = false)
    (fun _ _ _ hk hs => scheduler_settled hk.1 hk.2 hs)
    (fun _ hs => ⟨hs.toPlanted, hs.quiet⟩) ⟨hk, hq⟩ hp h).1

/-! ### New processes -/

lemma installed_active (mem : Memory) (ha : a.pid = 0 → k.activeTerminal = 0) :
    (k.installed a mem).activeTerminal = k.activeTerminal := by
  by_cases h0 : a.pid = 0
  · simp only [installed, h0, if_true, ha h0]
  · simp only [installed, h0, if_false]

/-- The ways `execute` can choose a process id: that of the base shell of an active terminal
without one, and otherwise a free one past those of the base shells. -/
def PidChosen (k : Kernel) (p : ℤ) : Prop :=
  (k.initializedTerminals k.activeTerminal = false ∧ p = baseShell k.activeTerminal) ∨
    (k.initializedTerminals k.activeTerminal = true ∧ maxTerminals ≤ p ∧ p < numPids ∧
      ¬k.Live p)

lemma PidChosen.bounds (h : k.PidChosen p) : 0 ≤ p ∧ p < numPids := by
  rcases h with ⟨-, rfl⟩ | ⟨-, hlow, hhigh, -⟩
  · have hlt := k.activeTerminal.isLt
    simp only [baseShell, numPids]
    omega
  · simp only [maxTerminals, Nat.cast_ofNat] at hlow
    omega

lemma PidChosen.fresh (h : k.PidChosen p) : ¬k.Live p := by
  rcases h with ⟨hi, rfl⟩ | ⟨-, -, -, hn⟩
  · intro hl
    have ht := hl.2 k.activeTerminal rfl
    rw [hi] at ht
    exact absurd ht (by simp)
  · exact hn

lemma PidChosen.active_zero (h : k.PidChosen p) (h0 : p = 0) : k.activeTerminal = 0 := by
  rcases h with ⟨-, hp⟩ | ⟨-, hlow, -⟩
  · exact baseShell_injective (hp.symm.trans h0)
  · simp only [maxTerminals, Nat.cast_ofNat] at hlow
    omega

lemma installed_live (mem : Memory) (hk : k.ProcessTree chain) (hp : k.PidChosen a.pid) (q : ℤ) :
    (k.installed a mem).Live q ↔ q = a.pid ∨ k.Live q := by
  have hact : (k.installed a mem).initializedTerminals =
      Function.update k.initializedTerminals k.activeTerminal true := by
    have h := installed_active mem hp.active_zero
    simp only [installed] at h ⊢
    rw [h]
  have hinit : ∀ t, (k.installed a mem).initializedTerminals t = true ↔
      t = k.activeTerminal ∨ k.initializedTerminals t = true := by
    intro t
    rw [hact, Function.update_apply]
    by_cases ht : t = k.activeTerminal <;> simp [ht]
  unfold Live
  simp only [hinit]
  by_cases hq : q = a.pid
  · subst hq
    simp only [true_or, iff_true]
    refine ⟨by simp [installed, installedPcbs, newPcb], fun t ht => ?_⟩
    rcases hp with ⟨-, hb⟩ | ⟨-, hlow, -⟩
    · exact Or.inl (baseShell_injective (ht.symm.trans hb))
    · have hlt := baseShell_lt t
      unfold baseShell at hlt
      omega
  · have huse : ((k.installed a mem).pcbs q).inUse =
        if a.pid = 0 ∧ (q = 1 ∨ q = 2) then 1 else (k.pcbs q).inUse := by
      simp only [installed, installedPcbs, if_neg hq]
      split <;> rfl
    rw [huse]
    simp only [hq, false_or]
    constructor
    · rintro ⟨hu, ht⟩
      have hold : ∀ t : Fin 3, q = t.val → k.initializedTerminals t = true := by
        intro t hqt
        rcases ht t hqt with rfl | hi
        · rcases hp with ⟨-, hb⟩ | ⟨hi, -⟩
          · exact absurd (hqt.trans hb.symm) hq
          · exact hi
        · exact hi
      refine ⟨?_, hold⟩
      split at hu
      · rename_i hc
        rcases hc.2 with h1 | h2
        · rw [h1]
          exact (baseShell_live hk (hold 1 h1)).1
        · rw [h2]
          exact (baseShell_live hk (hold 2 h2)).1
      · exact hu
    · rintro ⟨hu, ht⟩
      refine ⟨?_, fun t hqt => Or.inr (ht t hqt)⟩
      split
      · rfl
      · exact hu

/-- `execute` puts the new process on top of the chain of the active terminal. -/
lemma installed_planted (mem : Memory) (hk : k.ProcessTree chain)
    (hids : ∀ q, k.Live q → (k.pcbs q).processId = q ∧ 0 ≤ q ∧ q < numPids)
    (hres : a.pid = 0 ∨ ∀ t, (k.pcbs (baseShell t)).inUse = 1) (hp : k.PidChosen a.pid) :
    (k.installed a mem).Planted
      (Function.update chain k.activeTerminal (a.pid :: chain k.activeTerminal)) := by
  obtain ⟨hlow, hhigh⟩ := hp.bounds
  simp only [numPids, Nat.cast_ofNat] at hhigh
  have hlive := installed_live mem hk hp
  have hact := installed_active mem hp.active_zero
  have hpcb : ∀ q, k.Live q → ((k.installed a mem).pcbs q).parentProcessId =
      (k.pcbs q).parentProcessId ∧ ((k.installed a mem).pcbs q).processId =
      (k.pcbs q).processId := by
    intro q hq
    have hne : q ≠ a.pid := fun he => hp.fresh (he ▸ hq)
    simp only [installed, installedPcbs, if_neg hne]
    split <;> exact ⟨rfl, rfl⟩
  have hforest : Forests.Forest baseShell (k.installed a mem).foreground
      (k.installed a mem).parentOf (k.installed a mem).Live
      (Function.update chain k.activeTerminal (a.pid :: chain k.activeTerminal)) := by
    refine hk.push (fun hc => ?_) hp.fresh (fun u => ?_) ?_ (fun q hq => ?_) hlive
    · rcases hp with ⟨-, hb⟩ | ⟨hi, -⟩
      · exact hb
      · exact absurd hc (chain_ne_nil hk hi)
    · have hmod : a.pid % 256 = a.pid := Int.emod_eq_of_lt hlow (by omega)
      have hterm : (k.installed a mem).terminals = Function.update k.terminals k.activeTerminal
          { k.terminals k.activeTerminal with activePid := a.pid } := by
        simp only [installed] at hact ⊢
        rw [hact, hmod]
      have hinit : (k.installed a mem).initializedTerminals =
          Function.update k.initializedTerminals k.activeTerminal true := by
        simp only [installed] at hact ⊢
        rw [hact]
      unfold foreground
      rw [hterm, hinit]
      by_cases hu : u = k.activeTerminal
      · subst hu
        simp
      · simp [hu]
    · have hparent : ((k.installed a mem).pcbs a.pid).parentProcessId =
          if a.pid < maxTerminals then -1 else (k.terminals k.activeTerminal).activePid := by
        simp [installed, installedPcbs, newPcb]
      unfold parentOf
      rw [hparent]
      rcases hp with ⟨hi, hb⟩ | ⟨hi, hlow', -⟩
      · have hlt : a.pid < maxTerminals := by
          rw [hb]
          exact baseShell_lt k.activeTerminal
        rw [if_pos hlt, if_pos rfl, foreground, hi]
        rfl
      · have hne : (k.terminals k.activeTerminal).activePid ≠ -1 := by
          have hb := (hids _ (foreground_live hk hi)).2.1
          omega
        rw [if_neg (not_lt.mpr hlow'), if_neg hne, foreground_of_initialized hi]
    · unfold parentOf
      rw [(hpcb q hq).1]
  refine ⟨hforest, fun t => ?_, fun q hq => ?_⟩
  · by_cases ht : baseShell t = a.pid
    · simp [installed, installedPcbs, newPcb, ht]
    · simp only [installed, installedPcbs, if_neg ht]
      split
      · rfl
      · rename_i hc
        rcases hres with h0 | hres
        · have hb := t.isLt
          unfold baseShell at ht hc
          exact absurd ⟨h0, by omega⟩ hc
        · exact hres t
  · rcases (hlive q).mp hq with rfl | hold
    · refine ⟨?_, hp.bounds⟩
      simp only [installed]
      exact installedPcbs_processId
    · rw [(hpcb q hold).2]
      exact hids q hold

/-- A completed `execute` in a state where the process id is chosen as it should be. -/
lemma execute_settled {command : List UInt8} {res : Option ℤ} (hk : k.ProcessTree chain)
    (hids : ∀ q, k.Live q → (k.pcbs q).processId = q ∧ 0 ≤ q ∧ q < numPids)
    (hres : k.choosePid = some 0 ∨ ∀ t, (k.pcbs (baseShell t)).inUse = 1)
    (hp : ∀ p, k.choosePid = some p → k.PidChosen p)
    (h : k.execute img f command = some (k', res))
    (hsched : k.initializedTerminals k.activeTerminal = true →
      k.activeTerminal = k.scheduledTerminal) (hquiet : k.exceptionInChild = false) :
    (res = none ∧ k' = k) ∨ ∃ chain', k'.Settled chain' := by
  rcases execute_cases h with hnone | ⟨a, mem, hpid, -, -, -, hdone⟩
  · exact Or.inl hnone
  · have hchosen := hp _ hpid
    have hact := installed_active mem hchosen.active_zero
    have hplanted := installed_planted mem hk hids
      (hres.imp_left fun h0 => Option.some.inj (hpid.symm.trans h0)) hchosen
    right
    rcases hdone with ⟨rfl, hskip⟩ | ⟨-, -, hpre, -⟩
    · rw [hact] at hskip
      have hsame : k.activeTerminal = k.scheduledTerminal := hskip.elim hsched id
      have hmod : a.pid % 256 = a.pid := by
        obtain ⟨hlow, hhigh⟩ := hchosen.bounds
        simp only [numPids, Nat.cast_ofNat] at hhigh
        exact Int.emod_eq_of_lt hlow (by omega)
      have hfore : ((k.installed a mem).terminals (k.installed a mem).scheduledTerminal).activePid =
          a.pid := by
        simp only [installed] at hact ⊢
        rw [hact, ← hsame, Function.update_self, hmod]
      refine ⟨_, hplanted, ?_, ?_, ?_, ?_, hquiet⟩
      · rw [hfore]
        rfl
      · simp only [installed] at hact ⊢
        rw [hact, ← hsame, Function.update_self]
      · rw [hfore]
        rfl
      · rw [hfore]
        exact Paging.userFrame_mapUser _ _
    · exact ⟨_, preempt_settled hplanted hquiet rfl hpre⟩

/-- The process id chosen is one of the six, and no live process has it. -/
lemma choosePid_fresh (h : k.choosePid = some p) : (0 ≤ p ∧ p < numPids) ∧ ¬k.Live p := by
  unfold choosePid at h
  cases hi : k.initializedTerminals k.activeTerminal with
  | false =>
    rw [hi] at h
    obtain rfl := Option.some.inj h
    have hlt := k.activeTerminal.isLt
    refine ⟨⟨by omega, ?_⟩, fun hl => ?_⟩
    · simp only [numPids, Nat.cast_ofNat]
      omega
    · exact absurd (hi.symm.trans (hl.2 k.activeTerminal rfl)) (by simp)
  | true =>
    rw [hi, if_pos rfl] at h
    obtain ⟨i, hfind, rfl⟩ := Option.map_eq_some_iff.mp h
    obtain ⟨hfree, hmem, -⟩ := List.find?_range_eq_some.mp hfind
    have hlt := List.mem_range.mp hmem
    refine ⟨⟨by omega, by exact_mod_cast hlt⟩, fun hl => ?_⟩
    exact of_decide_eq_true hfree hl.1

/-- With the ids of the base shells taken, `get_pid` gives a free one past them. -/
lemma choosePid_chosen (hres : ∀ t, (k.pcbs (baseShell t)).inUse = 1)
    (h : k.choosePid = some p) : k.PidChosen p := by
  obtain ⟨⟨-, hhigh⟩, hfresh⟩ := choosePid_fresh h
  unfold choosePid at h
  cases hi : k.initializedTerminals k.activeTerminal with
  | false =>
    rw [hi] at h
    exact Or.inl ⟨hi, (Option.some.inj h).symm⟩
  | true =>
    rw [hi, if_pos rfl] at h
    obtain ⟨i, hfind, rfl⟩ := Option.map_eq_some_iff.mp h
    obtain ⟨hfree, -, -⟩ := List.find?_range_eq_some.mp hfind
    refine Or.inr ⟨hi, ?_, hhigh, hfresh⟩
    by_contra hlt
    simp only [maxTerminals, Nat.cast_ofNat] at hlt
    exact of_decide_eq_true hfree (hres ⟨i, by omega⟩)

/-! ### Halting -/

/-- A process that is not a base shell leaves its terminal to its parent. -/
lemma toParent_settled (hk : k.Settled chain) (hp : k.currentPcb = some p)
    (hlow : (maxTerminals : ℤ) ≤ (k.pcbs p).processId) :
    ∃ chain', ((k.release p).toParent p).Settled chain' := by
  have hfore := foreground_of_initialized hk.scheduled
  have hcur : p = (k.terminals k.scheduledTerminal).activePid :=
    Option.some.inj (hp.symm.trans hk.current)
  rw [← hcur] at hfore
  have hlive : k.Live p := hk.tree.top_alive hfore
  have hpid := (hk.pids p hlive).1
  rw [hpid] at hlow
  have hbase : ∀ t, p ≠ baseShell t := fun t he => absurd (he ▸ baseShell_lt t) (not_lt.mpr hlow)
  obtain ⟨q, rest, hc, hpar⟩ := hk.tree.chain_of_top hfore (hbase _)
  have hq : k.Live q := hk.tree.alive_of_mem (t := k.scheduledTerminal) (by simp [hc])
  have hqp : q ≠ p := by
    intro he
    have hnodup := hk.tree.nodup k.scheduledTerminal
    rw [hc, he] at hnodup
    exact absurd (List.mem_cons_self) (List.nodup_cons.mp hnodup).1
  have hparent : (k.pcbs p).parentProcessId = q := by
    unfold parentOf at hpar
    split at hpar
    · exact absurd hpar (by simp)
    · exact Option.some.inj hpar
  obtain ⟨hqid, hq0, hq6⟩ := hk.pids q hq
  simp only [numPids, Nat.cast_ofNat] at hq6
  rw [toParent_eq hqp hparent hqid (Int.emod_eq_of_lt hq0 (by omega))]
  let pcbs := Function.update k.pcbs p (((k.release p).forgetIds p).pcbs p)
  have hold : ∀ r, r ≠ p → pcbs r = k.pcbs r := fun r hr => Function.update_of_ne hr _ _
  have hgone : (pcbs p).inUse = 0 := by
    simp only [pcbs, Function.update_self, forgotten_inUse]
  refine ⟨Function.update chain k.scheduledTerminal (q :: rest), ⟨?_, fun t => ?_, fun r hr => ?_⟩,
    ?_, hk.scheduled, ?_, ?_, rfl⟩
  · refine hk.tree.pop hc (fun u => ?_) (fun r _ hr => ?_) fun r => ?_
    · unfold foreground
      by_cases hu : u = k.scheduledTerminal
      · subst hu
        simp [hk.scheduled]
      · simp [hu]
    · simp only [parentOf, Function.update_of_ne hr]
    · by_cases hr : r = p
      · subst hr
        simp [Live, forgotten_inUse]
      · simp [Live, hr]
  · have ht := hold _ (hbase t).symm
    exact (congrArg Pcb.inUse ht).trans (hk.reserved t)
  · have hne : r ≠ p := by
      intro he
      exact absurd (hgone.symm.trans (he ▸ hr.1)) (by simp)
    have hr' : k.Live r := ⟨(congrArg Pcb.inUse (hold r hne)).symm.trans hr.1, hr.2⟩
    exact ⟨(congrArg Pcb.processId (hold r hne)).trans (hk.pids r hr').1, (hk.pids r hr').2⟩
  · simp
  · simp
  · simp only [Function.update_self]
    exact Paging.userFrame_mapUser _ _

lemma relaunching_pcbs_of_ne {q : ℤ} (hq : q ≠ p) :
    ((k.release p).relaunching p).pcbs q = k.pcbs q := by
  simp [relaunching, forgetIds, setPcb, release, hq]

/-- The base shell of the active terminal gives its process id to the shell after it. -/
lemma relaunching_choosePid_self (hres : ∀ t, (k.pcbs (baseShell t)).inUse = 1)
    (hi : k.initializedTerminals k.activeTerminal = true) {s : Fin 3} :
    ((k.release (baseShell s)).relaunching (baseShell s)).choosePid = some (baseShell s) := by
  have hget : ((k.release (baseShell s)).relaunching (baseShell s)).choosePid =
      ((k.release (baseShell s)).relaunching (baseShell s)).getPid := if_pos hi
  have hfree : (((k.release (baseShell s)).relaunching (baseShell s)).pcbs
      (baseShell s)).inUse = 0 := by
    simp [relaunching, forgetIds, setPcb, release]
  have hlt := s.isLt
  rw [hget, getPid, Option.map_eq_some_iff]
  refine ⟨s.val, List.find?_range_eq_some.mpr ⟨?_, ?_, fun j hj => ?_⟩, rfl⟩
  · have hne : (((k.release (baseShell s)).relaunching (baseShell s)).pcbs
        (baseShell s)).inUse ≠ 1 := by
      rw [hfree]
      exact Nat.zero_ne_one
    exact decide_eq_true hne
  · simp only [List.mem_range, numPids]
    omega
  · have hne : ((j : ℕ) : ℤ) ≠ baseShell s := by
      simp only [baseShell]
      omega
    have huse := hres ⟨j, by omega⟩
    simp only [baseShell] at huse
    rw [relaunching_pcbs_of_ne hne, huse]
    rfl

/-- A shell in the place of a base shell has the PCB the base shell had, for what the tree is
made of. -/
lemma relaunched_pcb {s : Fin 3} (hk : k.Planted chain)
    (hinit : k.initializedTerminals s = true) (hlive : k.Live (baseShell s))
    (hapid : a.pid = baseShell s) (q : ℤ) :
    let new := (((k.release (baseShell s)).relaunching (baseShell s)).installed a mem).pcbs q
    new.inUse = (k.pcbs q).inUse ∧ new.parentProcessId = (k.pcbs q).parentProcessId ∧
      new.processId = (k.pcbs q).processId := by
  have hlt : a.pid < maxTerminals := by
    have hb := s.isLt
    rw [hapid, baseShell, maxTerminals]
    omega
  have hroot : (k.pcbs (baseShell s)).parentProcessId = -1 := by
    have hr := hk.tree.rootless s (chain_ne_nil hk.tree hinit)
    unfold parentOf at hr
    by_contra hne
    rw [if_neg hne] at hr
    exact absurd hr (by simp)
  intro new
  by_cases hq : q = baseShell s
  · have hself : new =
        ((k.release (baseShell s)).relaunching (baseShell s)).newPcb a := by
      simp only [new, installed, installedPcbs, hapid, hq, if_true]
    rw [hself, hq]
    refine ⟨hlive.1.symm, ?_, ?_⟩
    · rw [hroot, newPcb]
      exact if_pos hlt
    · rw [(hk.pids _ hlive).1]
      exact hapid
  · have hother : new =
        if a.pid = 0 ∧ (q = 1 ∨ q = 2) then { k.pcbs q with inUse := 1 } else k.pcbs q := by
      simp only [new, installed, installedPcbs, hapid, if_neg hq, relaunching_pcbs_of_ne hq]
    rw [hother]
    split
    · rename_i hc
      refine ⟨?_, rfl, rfl⟩
      rcases hc.2 with rfl | rfl
      · exact (hk.reserved 1).symm
      · exact (hk.reserved 2).symm
    · exact ⟨rfl, rfl, rfl⟩

/-- A base shell that halts on the screen is replaced by a shell in its place. -/
lemma relaunch_settled (hk : k.Settled chain) (hp : k.currentPcb = some p)
    (hlt : (k.pcbs p).processId < maxTerminals) (hact : k.activeTerminal = k.scheduledTerminal)
    {pid : ℤ} (h : ((k.release p).relaunching p).execute img f shellCommand = some (k', some pid)) :
    k'.Settled chain := by
  let s := k.scheduledTerminal
  have hfore := foreground_of_initialized hk.scheduled
  have hcur : p = (k.terminals s).activePid := Option.some.inj (hp.symm.trans hk.current)
  rw [← hcur] at hfore
  have hlive : k.Live p := hk.tree.top_alive hfore
  rw [(hk.pids p hlive).1] at hlt
  obtain ⟨t, rfl, ht⟩ := live_of_lt hk.toPlanted hlive hlt
  have hmem : baseShell t ∈ chain s := List.mem_of_head? ((hk.tree.head s).trans hfore)
  obtain rfl : t = s := hk.tree.eq_of_mem ht hmem
  have hactive : k.initializedTerminals k.activeTerminal = true := by
    rw [hact]
    exact hk.scheduled
  have hchoose := relaunching_choosePid_self (s := s) hk.reserved hactive
  rcases execute_cases h with ⟨hno, -⟩ | ⟨a, mem, hpid, -, -, -, hdone⟩
  · exact absurd hno (by simp)
  have hapid : a.pid = baseShell s := Option.some.inj (hpid.symm.trans hchoose)
  let k₁ := (k.release (baseShell s)).relaunching (baseShell s)
  have hnew : (k₁.installed a mem).activeTerminal = s := by
    rw [installed_active]
    · exact hact
    · intro h0
      exact hact.trans (baseShell_injective (hapid.symm.trans h0))
  rcases hdone with ⟨rfl, -⟩ | ⟨hno, -⟩
  · have hterm : (k₁.installed a mem).terminals = Function.update k.terminals s
        { k.terminals s with activePid := baseShell s } := by
      have hmod : a.pid % 256 = baseShell s := by
        have hb := s.isLt
        rw [hapid, baseShell]
        omega
      have hn := hnew
      simp only [installed] at hn ⊢
      rw [hn, hmod]
      rfl
    have hinit : (k₁.installed a mem).initializedTerminals = k.initializedTerminals := by
      have hn := hnew
      simp only [installed] at hn ⊢
      rw [hn, ← hk.scheduled]
      exact Function.update_eq_self s k.initializedTerminals
    have hfore' : ((k₁.installed a mem).terminals
        (k₁.installed a mem).scheduledTerminal).activePid = a.pid := by
      have hs : (k₁.installed a mem).scheduledTerminal = s := rfl
      rw [hs, hterm, Function.update_self, hapid]
    have hpcb := @relaunched_pcb _ _ _ mem _ hk.toPlanted hk.scheduled hlive hapid
    refine ⟨hk.toPlanted.congr (fun q => (hpcb q).1) (fun q => (hpcb q).2.1)
      (fun q => (hpcb q).2.2) (fun t => ?_) hinit, ?_, ?_, ?_, ?_, rfl⟩
    · rw [hterm]
      by_cases ht : t = s
      · subst ht
        simp [hcur]
      · rw [Function.update_of_ne ht]
    · rw [hfore']
      rfl
    · rw [hinit]
      exact hk.scheduled
    · rw [hfore']
      rfl
    · rw [hfore']
      exact Paging.userFrame_mapUser _ _
  · rw [hnew] at hno
    exact absurd (hno.symm.trans hk.scheduled) (by simp)

/-! ### Runs -/

/-- No process yet, or a settled tree. -/
def Reached (k : Kernel) : Prop := k.Fresh ∨ ∃ chain, k.Settled chain

/-- A process calls `execute`, and a base shell `halt`, only while the active terminal is the
scheduled one; and no terminal is switched to before the first shell runs. -/
def KeepsTree (k : Kernel) : Event → Prop
  | .switch _ _ => k.currentPcb ≠ none
  | .execute _ _ => k.currentPcb = none ∨ k.activeTerminal = k.scheduledTerminal
  | .halt _ _ => ∀ p, k.currentPcb = some p → (k.pcbs p).processId < maxTerminals →
      k.activeTerminal = k.scheduledTerminal
  | _ => True

lemma fresh_tree (hk : k.Fresh) : k.ProcessTree fun _ => [] := by
  refine ⟨fun t => ?_, by simp, by simp, by simp, fun p => ?_, by simp, by simp⟩
  · simp [foreground, hk.initialized]
  · simp [Live, hk.free]

lemma reached_tree (hk : k.Reached) : ∃ chain, k.ProcessTree chain := by
  rcases hk with hk | ⟨chain, hk⟩
  · exact ⟨_, fresh_tree hk⟩
  · exact ⟨chain, hk.tree⟩

lemma Reached.congr (hk : k.Reached) (hcur : k'.currentPcb = k.currentPcb)
    (hpcbs : k'.pcbs = k.pcbs)
    (hfore : ∀ t, (k'.terminals t).activePid = (k.terminals t).activePid)
    (hinit : k'.initializedTerminals = k.initializedTerminals)
    (hsched : k'.scheduledTerminal = k.scheduledTerminal)
    (hact : k.currentPcb = none → k'.activeTerminal = k.activeTerminal)
    (hstack : k'.tssEsp0 = k.tssEsp0) (hpage : k'.paging.userFrame = k.paging.userFrame)
    (hquiet : k'.exceptionInChild = k.exceptionInChild) : k'.Reached := by
  rcases hk with hk | ⟨chain, hk⟩
  · left
    refine ⟨hcur.trans hk.current, ?_, ?_, (hact hk.current).trans hk.active,
      hsched.trans hk.scheduled, hquiet.trans hk.quiet⟩
    · rw [hpcbs]
      exact hk.free
    · rw [hinit]
      exact hk.initialized
  · right
    refine ⟨chain, hk.toPlanted.congr ?_ ?_ ?_ hfore hinit, ?_, ?_, ?_, ?_,
      hquiet.trans hk.quiet⟩
    · simp [hpcbs]
    · simp [hpcbs]
    · simp [hpcbs]
    · rw [hcur, hsched, hfore]
      exact hk.current
    · rw [hinit, hsched]
      exact hk.scheduled
    · rw [hstack, hsched, hfore]
      exact hk.stack
    · rw [hpage, hsched, hfore]
      exact hk.page

lemma setTerminal_activePid {g : TerminalInfo → TerminalInfo} (u : Fin 3)
    (hg : ∀ ti, (g ti).activePid = ti.activePid) :
    ((k.setTerminal u g).terminals t).activePid = (k.terminals t).activePid := by
  by_cases ht : t = u
  · subst ht
    simp [setTerminal, hg]
  · simp [setTerminal, ht]

lemma tick_reached (hk : k.Reached) (h : k.pitHandler r = some k') : k'.Reached := by
  unfold pitHandler at h
  split at h
  · rename_i hc
    rcases hk with hk | ⟨chain, hk⟩
    · rw [hk.current] at hc
      exact absurd hc (by simp)
    · exact Or.inr ⟨chain, scheduler_settled hk.toPlanted hk.quiet h⟩
  · exact Option.some.inj h ▸ hk

lemma key_reached {c : UInt8} (hk : k.Reached) (h : k.updateKbBuffer c = some k') :
    k'.Reached := by
  rcases updateKbBuffer_cases h with ⟨g, rfl, hg⟩ | rfl | ⟨-, -, mem, x, y, g, rfl, hg⟩
  · exact hk.congr rfl rfl (fun t => setTerminal_activePid _ hg) rfl rfl (fun _ => rfl) rfl rfl rfl
  · exact hk
  · exact hk.congr rfl rfl (fun t => setTerminal_activePid _ hg) rfl rfl (fun _ => rfl) rfl rfl rfl

lemma clear_reached (hk : k.Reached) (h : k.clearTerminal = some k') : k'.Reached := by
  obtain ⟨mem, x, y, g, rfl, hg⟩ := clearTerminal_cases h
  exact hk.congr rfl rfl (fun t => setTerminal_activePid _ hg) rfl rfl (fun _ => rfl) rfl rfl rfl

lemma switch_reached (hk : k.Reached) (hrun : k.currentPcb ≠ none)
    (h : k.terminalSwitch img f target = some k') : k'.Reached := by
  have hmoved : (k.switchScreens target).Reached := by
    rw [switchScreens_eq]
    have hpage : (k.switchedPaging target).userFrame = k.paging.userFrame := by
      unfold switchedPaging copyPaging
      split_ifs <;> rfl
    exact hk.congr rfl rfl (fun _ => rfl) rfl rfl (fun hn => absurd hn hrun) rfl hpage rfl
  rcases terminalSwitch_cases h with ⟨-, rfl⟩ | ⟨-, -, rfl⟩ | ⟨-, hi, res, hex⟩
  · exact hk
  · exact hmoved
  · have hnew : (k.switchScreens target).initializedTerminals
        (k.switchScreens target).activeTerminal = false := by
      rw [switchScreens_eq]
      exact hi
    have hcur : (k.switchScreens target).currentPcb = k.currentPcb := by rw [switchScreens_eq]
    rcases hmoved with hf | ⟨chain, hs⟩
    · exact absurd (hcur.symm.trans hf.current) hrun
    · have hdone := execute_settled hs.tree hs.pids (Or.inr hs.reserved)
        (fun _ hp => choosePid_chosen hs.reserved hp) hex
        (fun hi' => absurd (hnew.symm.trans hi') (by simp)) hs.quiet
      rcases hdone with ⟨-, rfl⟩ | hsettled
      · exact Or.inr ⟨chain, hs⟩
      · exact Or.inr hsettled

lemma execute_reached {command : List UInt8} {res : Option ℤ} (hk : k.Reached)
    (hact : k.currentPcb = none ∨ k.activeTerminal = k.scheduledTerminal)
    (h : k.execute img f command = some (k', res)) : k'.Reached := by
  rcases hk with hf | ⟨chain, hs⟩
  · have hpid : k.choosePid = some 0 := by
      simp [choosePid, hf.initialized, hf.active]
    have hchosen : ∀ p, k.choosePid = some p → k.PidChosen p := by
      intro p hp
      obtain rfl := Option.some.inj (hpid.symm.trans hp)
      exact Or.inl ⟨hf.initialized _, by rw [hf.active]; rfl⟩
    have hnone : ∀ q, k.Live q → (k.pcbs q).processId = q ∧ 0 ≤ q ∧ q < numPids := by
      intro q hq
      exact absurd ((hf.free q).symm.trans hq.1) (by simp)
    rcases execute_settled (fresh_tree hf) hnone (Or.inl hpid) hchosen h
      (fun _ => hf.active.trans hf.scheduled.symm) hf.quiet with ⟨-, rfl⟩ | hsettled
    · exact Or.inl hf
    · exact Or.inr hsettled
  · have hsame : k.activeTerminal = k.scheduledTerminal := by
      rcases hact with hn | hsame
      · exact absurd (hs.current.symm.trans hn) (by simp)
      · exact hsame
    rcases execute_settled hs.tree hs.pids (Or.inr hs.reserved)
      (fun _ hp => choosePid_chosen hs.reserved hp) h (fun _ => hsame) hs.quiet with
      ⟨-, rfl⟩ | hsettled
    · exact Or.inr ⟨chain, hs⟩
    · exact Or.inr hsettled

lemma halt_reached {status : UInt8} {res : Halted} (hk : k.Reached)
    (hact : ∀ p, k.currentPcb = some p → (k.pcbs p).processId < maxTerminals →
      k.activeTerminal = k.scheduledTerminal)
    (h : k.halt img f status = some res) : res.kernel.Reached := by
  obtain ⟨p, hp, hcase⟩ := halt_cases h
  rcases hk with hf | ⟨chain, hs⟩
  · exact absurd (hf.current.symm.trans hp) (by simp)
  · right
    rcases hcase with ⟨hlt, k', pid, hex, rfl⟩ | ⟨hlow, rfl⟩
    · exact ⟨chain, relaunch_settled hs hp hlt (hact p hp hlt) hex⟩
    · exact toParent_settled hs hp hlow

lemma step_reached {e : Event} (hk : k.Reached) (hg : k.KeepsTree e)
    (h : step img k e = some k') : k'.Reached := by
  cases e with
  | tick r => exact tick_reached hk h
  | switch target f => exact switch_reached hk hg h
  | key c => exact key_reached hk h
  | clear => exact clear_reached hk h
  | execute f command =>
    obtain ⟨⟨k', res⟩, hex, rfl⟩ := Option.map_eq_some_iff.mp h
    exact execute_reached hk hg hex
  | halt f status =>
    obtain ⟨res, hres, rfl⟩ := Option.map_eq_some_iff.mp h
    exact halt_reached hk hg hres

lemma boot_fresh (frames : TableFrames) (mem : Memory) (x y : ℕ) :
    (boot frames mem x y).Fresh := ⟨rfl, fun _ => rfl, fun _ => rfl, rfl, rfl, rfl⟩

lemma reached_run {frames : TableFrames} {x y : ℕ} {es : List Event}
    (h : Runs.Path (step img) KeepsTree (boot frames mem x y) es k') : k'.Reached :=
  h.invariant (fun _ _ _ hk hg hs => step_reached hk hg hs) (Or.inl (boot_fresh ..))

/-- In every run from boot whose events keep the tree, the live processes form one chain for
each initialised terminal in every state. -/
theorem processTree_run {frames : TableFrames} {x y : ℕ} {es : List Event}
    (h : Runs.Path (step img) KeepsTree (boot frames mem x y) es k') :
    ∃ chain, k'.ProcessTree chain :=
  reached_tree (reached_run h)

/-- Calls made with the scheduled terminal on the screen. -/
def onScreen (k : Kernel) : Event → Bool
  | .switch _ _ => false
  | _ => k.activeTerminal = k.scheduledTerminal

lemma keepsTree_of_onScreen (k : Kernel) (e : Event) (h : k.onScreen e = true) :
    k.KeepsTree e := by
  cases e with
  | switch target f => exact absurd h (by simp [onScreen])
  | execute f command => exact Or.inr (by simpa [onScreen] using h)
  | halt f status => exact fun _ _ _ => by simpa [onScreen] using h
  | tick r => trivial
  | key c => trivial
  | clear => trivial

/-- A shell starts a shell, which exits. -/
def childRun : List Event :=
  [.execute bareFrame shellCommand, .execute bareFrame shellCommand, .halt bareFrame 0]

theorem processTree_run_child : ∃ k',
    Runs.Path (step shellImage) KeepsTree (boot ⟨0, 0⟩ (fun _ => 0) 0 0) childRun k' ∧
      ∃ chain, k'.ProcessTree chain := by
  have hend : (Runs.run (step shellImage) (fun k e => k.onScreen e = true)
      (boot ⟨0, 0⟩ (fun _ => 0) 0 0) childRun).isSome = true := by
    decide +kernel
  obtain ⟨k', hrun⟩ := Option.isSome_iff_exists.mp hend
  have hpath := (Runs.path_of_run hrun).mono keepsTree_of_onScreen
  exact ⟨k', hpath, processTree_run hpath⟩

end Tree

/-! ### A background shell starts a program -/

/-- The events that schedule, start and end processes. -/
def ProcessEvent : Event → Bool
  | .key _ => false
  | .clear => false
  | _ => true

/-- A tick comes, the user opens a second terminal, the shell of the first starts a shell while it
is off the screen, and that shell exits. -/
def backgroundRun : List Event :=
  [.execute bareFrame shellCommand, .tick ⟨0, 0⟩, .switch 1 bareFrame, .tick ⟨0, 0⟩,
    .execute bareFrame shellCommand, .halt bareFrame 0]

/-- The first terminal then has the shell of the second in the foreground, and the second a
process that has ended. -/
theorem background_breaks_tree : ¬∀ (img : Image) (frames : TableFrames) (mem : Memory)
    (x y : ℕ) (es : List Event) (k' : Kernel),
    Runs.Path (step img) (fun _ e => ProcessEvent e = true) (boot frames mem x y) es k' →
      ∃ chain, k'.ProcessTree chain := by
  intro h
  let start := boot ⟨0, 0⟩ (fun _ => 0) 0 0
  have hend : (Runs.run (step shellImage) (fun _ e => ProcessEvent e = true) start
      backgroundRun).map (fun k => (k.initializedTerminals 1, (k.terminals 1).activePid,
        (k.pcbs 3).inUse)) = some (true, 3, 0) := by
    decide +kernel
  obtain ⟨k', hrun, hk'⟩ := Option.map_eq_some_iff.mp hend
  simp only [Prod.mk.injEq] at hk'
  obtain ⟨hinit, hfore, huse⟩ := hk'
  obtain ⟨chain, htree⟩ := h _ _ _ _ _ _ _ (Runs.path_of_run hrun)
  have hlive := foreground_live htree hinit
  rw [hfore] at hlive
  exact absurd (hlive.1.symm.trans huse) (by simp)

end Kernel

end HalOs
