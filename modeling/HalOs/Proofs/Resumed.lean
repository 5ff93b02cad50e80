import HalOs.Proofs.FirstTick

/-!
# The contexts the scheduler resumes

`scheduler` saves the running context in the current PCB and resumes the foreground process of
the next terminal. `execute` names a new current process one statement before it makes it the
foreground process, and the shell of a first switch starts on the kernel stack of a process
that no tick has saved. As long as neither comes in, one terminal runs and every tick resumes
the context it has just saved.
-/

namespace HalOs

/-- The scheduler would resume `p` where it was interrupted last: its PCB holds the pair stored
last, and nothing has run on that kernel stack since. -/
def Traced.Intact (t : Traced) (p : ℤ) : Prop :=
  ∃ s, t.saved p = some s ∧ (t.jobs.kernel.pcbs p).scheduling = s.regs ∧
    t.lastRun s.stack = s.time

lemma Placed.rest_eq {s : Stmt} {rest : List Stmt} (h : Placed (s :: rest)) {n : ℕ} (hlt : n < 17)
    (hn : Activation.installation[n]? = some s) : rest = Activation.installation.drop (n + 1) := by
  have hnodup : Activation.installation.Nodup := by decide
  rcases h.next with ⟨hs, -⟩ | ⟨i, hi, hrest⟩
  · have hmem : s ∈ Activation.installation := List.mem_of_getElem? hn
    rcases hs with rfl | ⟨i, rfl⟩
    · exact absurd hmem (by decide)
    · simp [Activation.installation] at hmem
  · rw [hrest, (List.getElem?_inj hlt hnodup).mp (hn.trans hi.symm)]

namespace Kernel

variable {k k' : Kernel} {a : Activation} {s : Stmt} {x y : ExecState} {r : Regs} {p : ℤ}

/-! ### The chain of processes -/

/-- The processes of the one terminal that runs, from the foreground process to the base
shell. -/
structure Chain (k : Kernel) (L : List ℤ) : Prop where
  active : k.activeTerminal = 0
  scheduled : k.scheduledTerminal = 0
  alone : ∀ t, k.initializedTerminals t = true → t = 0
  opened : L ≠ [] → k.initializedTerminals 0 = true
  reserved : L ≠ [] → (k.pcbs 1).inUse = 1 ∧ (k.pcbs 2).inUse = 1
  nodup : L.Nodup
  own : ∀ p ∈ L, (k.pcbs p).processId = p ∧ (k.pcbs p).inUse = 1 ∧ 0 ≤ p ∧ p < numPids
  linked : L.IsChain fun p q => (k.pcbs p).parentProcessId = q ∧ (maxTerminals : ℤ) ≤ p
  base : ∀ p ∈ L.getLast?, p = 0

/-- The first of the chain is the current process and in the foreground. -/
structure Front (k : Kernel) (L : List ℤ) : Prop where
  current : k.currentPcb = L.head?
  foreground : ∀ p ∈ L.head?, (k.terminals 0).activePid = p

/-- Without a process, the next base shell gets process id 0. -/
def Free (k : Kernel) : Prop := k.initializedTerminals 0 = false ∨ (k.pcbs 0).inUse ≠ 1

/-- The part of the kernel a chain depends on. -/
structure SameView (k k' : Kernel) : Prop where
  active : k'.activeTerminal = k.activeTerminal
  scheduled : k'.scheduledTerminal = k.scheduledTerminal
  initialized : k'.initializedTerminals = k.initializedTerminals
  current : k'.currentPcb = k.currentPcb
  foreground : ∀ t, (k'.terminals t).activePid = (k.terminals t).activePid
  processId : ∀ p, (k'.pcbs p).processId = (k.pcbs p).processId
  inUse : ∀ p, (k'.pcbs p).inUse = (k.pcbs p).inUse
  parent : ∀ p, (k'.pcbs p).parentProcessId = (k.pcbs p).parentProcessId

variable {L : List ℤ}

lemma Chain.congr (hk : k.Chain L) (h : SameView k k') : k'.Chain L where
  active := h.active.trans hk.active
  scheduled := h.scheduled.trans hk.scheduled
  alone := fun t ht => hk.alone t (h.initialized ▸ ht)
  opened := fun hL => h.initialized ▸ hk.opened hL
  reserved := by
    intro hL
    rw [h.inUse, h.inUse]
    exact hk.reserved hL
  nodup := hk.nodup
  own := by
    intro p hp
    rw [h.processId, h.inUse]
    exact hk.own p hp
  linked := by
    simp only [h.parent]
    exact hk.linked
  base := hk.base

lemma Front.congr (hk : k.Front L) (h : SameView k k') : k'.Front L where
  current := h.current.trans hk.current
  foreground := fun p hp => (h.foreground 0).trans (hk.foreground p hp)

lemma Free.congr (hk : k.Free) (h : SameView k k') : k'.Free := by
  unfold Free
  rw [h.initialized, h.inUse]
  exact hk

/-- A tick on the one terminal that runs resumes the context it saves. -/
lemma tick_sameView (hk : k.Chain L) (hfore : (k.terminals 0).activePid = p)
    (hp : k.currentPcb = some p) (h : k.pitHandler r = some k') :
    SameView k k' ∧ (k'.pcbs p).scheduling = r := by
  simp only [pitHandler, hp, Option.isSome_some, if_true] at h
  obtain ⟨q, next, hq, hnext, rfl⟩ := scheduler_cases h
  obtain rfl := Option.some.inj (hp.symm.trans hq)
  obtain rfl := hk.alone next hnext
  have hpcbs : ∀ q, ((k.resetFirstSwap.saveContext r p).switchTo 0).pcbs q =
      { k.pcbs q with scheduling := if q = p then r else (k.pcbs q).scheduling } :=
    fun q => saved_pcbs p q
  have hactive : (k.resetFirstSwap.saveContext r p).activeTerminal = k.activeTerminal := by
    unfold resetFirstSwap
    split <;> rfl
  have hpid : ((k.resetFirstSwap.saveContext r p).terminals 0).activePid = p := by
    rw [saved_activePid, hfore]
  refine ⟨⟨hactive, hk.scheduled.symm, saved_initialized (r := r) p, ?_,
    fun t => saved_activePid (r := r) p t, ?_, ?_, ?_⟩, ?_⟩
  · rw [hp]
    exact congrArg some hpid
  · exact fun q => by rw [hpcbs]
  · exact fun q => by rw [hpcbs]
  · exact fun q => by rw [hpcbs]
  · rw [hpcbs]
    simp

/-! ### The statements of `execute` -/

lemma Chain.effect (hk : k.Chain L) (h : Effect a s k k') (hfresh : a.pid ∉ L)
    (hhigh : L ≠ [] → (maxTerminals : ℤ) ≤ a.pid) : k'.Chain L := by
  have hsame : ∀ q, L ≠ [] → q ≠ a.pid → k'.pcbs q = k.pcbs q := by
    intro q hL hq
    apply h.pcbs_of_ne _ hq
    have hpid : (3 : ℤ) ≤ a.pid := hhigh hL
    omega
  have hmem : ∀ p ∈ L, k'.pcbs p = k.pcbs p := fun p hp =>
    hsame p (List.ne_nil_of_mem hp) fun he => hfresh (he ▸ hp)
  refine ⟨h.activeTerminal hk.active, h.scheduled.trans hk.scheduled, fun t ht => ?_, fun hL => ?_,
    fun hL => ?_, hk.nodup, fun p hp => ?_, ?_, hk.base⟩
  · rcases (h.initialized t).2 ht with ht | rfl
    · exact hk.alone t ht
    · exact hk.active
  · exact (h.initialized 0).1 (hk.opened hL)
  · have hpid : (3 : ℤ) ≤ a.pid := hhigh hL
    rw [hsame 1 hL (by omega), hsame 2 hL (by omega)]
    exact hk.reserved hL
  · rw [hmem p hp]
    exact hk.own p hp
  · apply hk.linked.imp_of_mem_imp
    intro p q hp _ hpq
    rw [hmem p hp]
    exact hpq

/-- `execute` from the choice of the process id on, at some place of its statements. -/
structure Starting (k : Kernel) (L : List ℤ) (a : Activation) (rest : List Stmt) : Prop where
  placed : Placed rest
  fresh : a.pid ∉ L
  bounds : 0 ≤ a.pid ∧ a.pid < numPids
  low : L = [] → a.pid = 0
  high : L ≠ [] → (maxTerminals : ℤ) ≤ a.pid
  used : .markInUse ∉ rest → (k.pcbs a.pid).inUse = 1
  named : .setProcessId ∉ rest → (k.pcbs a.pid).processId = a.pid
  reserved : ∀ t : Fin 3, t ≠ 0 → .reserve t ∉ rest → L = [] → (k.pcbs t.val).inUse = 1
  parent : .setParent ∉ rest → ∀ p ∈ L.head?, (k.pcbs a.pid).parentProcessId = p
  before : .setCurrent ∈ rest → k.currentPcb = L.head?
  after : .setCurrent ∉ rest → k.currentPcb = some a.pid
  behind : .setActivePid ∈ rest → ∀ p ∈ L.head?, (k.terminals 0).activePid = p
  ahead : .setActivePid ∉ rest → (k.terminals 0).activePid = a.pid
  opened : .activate ∉ rest → k.initializedTerminals 0 = true

section Starting

variable {rest : List Stmt} {first : Bool}

lemma Starting.ahead_of (hk : k.Chain L) (hs : k.Starting L a (.setActivePid :: rest))
    (h : a.exec .setActivePid ⟨k, first⟩ = some y) : (y.kernel.terminals 0).activePid = a.pid := by
  have hrest : rest = Activation.installation.drop 14 :=
    hs.placed.rest_eq (n := 13) (by omega) rfl
  have hcur := hs.after (by rw [hrest]; decide)
  have hnamed := hs.named (by rw [hrest]; decide)
  obtain ⟨p, hp, h⟩ := Option.bind_eq_some_iff.mp h
  obtain rfl := Option.some.inj h
  obtain rfl := Option.some.inj (hcur.symm.trans hp)
  have hbounds : 0 ≤ a.pid ∧ a.pid < 6 := hs.bounds
  simp only [setTerminal, hk.active, Function.update_self, hnamed]
  omega

lemma Starting.parent_of (hk : k.Chain L) (hs : k.Starting L a (.setParent :: rest))
    (h : a.exec .setParent ⟨k, first⟩ = some y) (hp : p ∈ L.head?) :
    (y.kernel.pcbs a.pid).parentProcessId = p := by
  have hrest : rest = Activation.installation.drop 8 := hs.placed.rest_eq (n := 7) (by omega) rfl
  have hL : L ≠ [] := by
    rintro rfl
    simp at hp
  have hfore := hs.behind (by rw [hrest]; decide) p hp
  have hhigh : (3 : ℤ) ≤ a.pid := hs.high hL
  obtain rfl := Option.some.inj h
  simp [setPcb, not_lt.mpr hhigh, hk.active, hfore]

lemma Starting.once {n : ℕ} (hs : k.Starting L a (s :: rest)) (hlt : n < 17)
    (hn : Activation.installation[n]? = some s) (hno : s ∉ Activation.installation.drop (n + 1)) :
    s ∉ rest := by
  rw [hs.placed.rest_eq hlt hn]
  exact hno

/-- One statement: it settles what it is for, and leaves the rest as it was. -/
lemma Starting.exec (hk : k.Chain L) (hs : k.Starting L a (s :: rest))
    (h : a.exec s ⟨k, first⟩ = some y) : y.kernel.Starting L a rest := by
  have heffect : Effect a s k y.kernel := exec_effect h
  have hcur : y.kernel.currentPcb = if s = .setCurrent then some a.pid else k.currentPcb :=
    (exec_cases h).2.1
  have hlater : ∀ {t : Stmt}, t ≠ s → t ∉ rest → t ∉ s :: rest := by
    intro t hne hno hmem
    rcases List.mem_cons.mp hmem with he | hmem
    · exact hne he
    · exact hno hmem
  refine ⟨hs.placed.tail, hs.fresh, hs.bounds, hs.low, hs.high, fun hno => ?_, fun hno => ?_,
    fun t ht hno hL => ?_, fun hno p hp => ?_, fun hmem => ?_, fun hno => ?_, fun hmem p hp => ?_,
    fun hno => ?_, fun hno => ?_⟩
  · by_cases he : .markInUse = s
    · subst he
      exact Machine.markInUse_inUse h
    · exact heffect.inUse (hs.used (hlater he hno))
  · by_cases he : .setProcessId = s
    · subst he
      exact Machine.setProcessId_processId h
    · exact Machine.exec_processId h (hs.named (hlater he hno))
  · by_cases he : .reserve t = s
    · subst he
      obtain rfl := Option.some.inj h
      simp [hs.low hL, setPcb]
    · exact heffect.inUse (hs.reserved t ht (hlater he hno) hL)
  · by_cases he : .setParent = s
    · subst he
      exact hs.parent_of hk h hp
    · rw [heffect.parent (Ne.symm he)]
      exact hs.parent (hlater he hno) p hp
  · have hne : s ≠ .setCurrent := by
      rintro rfl
      exact hs.once (n := 12) (by omega) rfl (by decide) hmem
    rw [hcur, if_neg hne]
    exact hs.before (List.mem_cons_of_mem _ hmem)
  · by_cases he : .setCurrent = s
    · rw [hcur, if_pos he.symm]
    · rw [hcur, if_neg (Ne.symm he)]
      exact hs.after (hlater he hno)
  · have hne : s ≠ .setActivePid := by
      rintro rfl
      exact hs.once (n := 13) (by omega) rfl (by decide) hmem
    rw [heffect.activePid hne]
    exact hs.behind (List.mem_cons_of_mem _ hmem) p hp
  · by_cases he : .setActivePid = s
    · subst he
      exact hs.ahead_of hk h
    · rw [heffect.activePid (Ne.symm he)]
      exact hs.ahead (hlater he hno)
  · by_cases he : .activate = s
    · subst he
      obtain ⟨t, ht⟩ := activate_initialized h
      rcases (heffect.initialized t).2 ht with hold | rfl
      · exact (heffect.initialized 0).1 (hk.alone t hold ▸ hold)
      · exact hk.active ▸ ht
    · exact (heffect.initialized 0).1 (hs.opened (hlater he hno))

lemma Starting.joined (hk : k.Chain L) (hs : k.Starting L a []) :
    k.Chain (a.pid :: L) ∧ k.Front (a.pid :: L) := by
  refine ⟨⟨hk.active, hk.scheduled, hk.alone, fun _ => hs.opened (by simp), fun _ => ?_,
    List.nodup_cons.mpr ⟨hs.fresh, hk.nodup⟩, fun p hp => ?_, ?_, ?_⟩,
    ⟨hs.after (by simp), ?_⟩⟩
  · by_cases hL : L = []
    · exact ⟨hs.reserved 1 (by decide) (by simp) hL, hs.reserved 2 (by decide) (by simp) hL⟩
    · exact hk.reserved hL
  · rcases List.mem_cons.mp hp with rfl | hp
    · exact ⟨hs.named (by simp), hs.used (by simp), hs.bounds⟩
    · exact hk.own p hp
  · apply hk.linked.cons
    intro p hp
    exact ⟨hs.parent (by simp) p hp, hs.high (by rintro rfl; simp at hp)⟩
  · cases L with
    | nil => simpa using hs.low rfl
    | cons p L => exact hk.base
  · simpa using hs.ahead (by simp)

end Starting

lemma mem_body {t : Stmt} (h : t ∈ Activation.installation) : t ∈ a.body :=
  List.mem_append_right _ h

lemma Chain.base_mem (hk : k.Chain L) (hL : L ≠ []) : (0 : ℤ) ∈ L := by
  have hlast := hk.base _ (List.getLast?_eq_some_getLast hL)
  exact hlast ▸ List.getLast_mem hL

/-- The process id chosen next is 0 for a base shell, and no reserved one for a program. -/
lemma Chain.choose (hk : k.Chain L) (hfree : L = [] → k.Free) (h : k.choosePid = some p) :
    p ∉ L ∧ (0 ≤ p ∧ p < numPids) ∧ (L = [] → p = 0) ∧ (L ≠ [] → (maxTerminals : ℤ) ≤ p) := by
  unfold choosePid at h
  rw [hk.active] at h
  by_cases hinit : k.initializedTerminals 0 = true
  · rw [if_pos hinit] at h
    obtain ⟨i, hi, rfl⟩ := Option.map_eq_some_iff.mp h
    have hunused : (k.pcbs (i : ℤ)).inUse ≠ 1 := by simpa using List.find?_some hi
    have hlt : i < 6 := List.mem_range.mp (List.mem_of_find?_eq_some hi)
    have hfresh : (i : ℤ) ∉ L := fun hmem => hunused (hk.own _ hmem).2.1
    refine ⟨hfresh, ⟨by omega, by simp [numPids]; omega⟩, fun hL => ?_, fun hL => ?_⟩
    · have h0 : (k.pcbs 0).inUse ≠ 1 := by
        rcases hfree hL with hclosed | h0
        · exact absurd (hinit.symm.trans hclosed) (by simp)
        · exact h0
      have hrange : List.range numPids = 0 :: List.range' 1 5 := rfl
      rw [hrange, List.find?_cons_of_pos (by simpa using h0)] at hi
      obtain rfl := Option.some.inj hi
      rfl
    · have h0 : i ≠ 0 := by
        rintro rfl
        exact hfresh (hk.base_mem hL)
      have h1 : i ≠ 1 := by
        rintro rfl
        exact hunused (hk.reserved hL).1
      have h2 : i ≠ 2 := by
        rintro rfl
        exact hunused (hk.reserved hL).2
      simp only [maxTerminals]
      omega
  · rw [if_neg hinit] at h
    obtain rfl := Option.some.inj h
    have hL : L = [] := by
      by_contra hL
      exact hinit (hk.opened hL)
    subst hL
    simp

lemma Chain.start {program : Program} {regs : Regs} (hk : k.Chain L) (hfront : k.Front L)
    (hfree : L = [] → k.Free) (h : k.choosePid = some p) :
    k.Starting L ⟨program, p, regs⟩ (Activation.mk program p regs).body := by
  obtain ⟨hfresh, hbounds, hlow, hhigh⟩ := hk.choose hfree h
  refine ⟨placed_body, hfresh, hbounds, hlow, hhigh, fun hno => ?_, fun hno => ?_,
    fun t ht hno => ?_, fun hno => ?_, fun _ => hfront.current, fun hno => ?_,
    fun _ => hfront.foreground, fun hno => ?_, fun hno => ?_⟩
  · exact absurd (mem_body (by decide)) hno
  · exact absurd (mem_body (by decide)) hno
  · have hmem : Stmt.reserve t ∈ Activation.installation := by
      clear hno
      revert t
      decide
    exact absurd (mem_body hmem) hno
  · exact absurd (mem_body (by decide)) hno
  · exact absurd (mem_body (by decide)) hno
  · exact absurd (mem_body (by decide)) hno
  · exact absurd (mem_body (by decide)) hno

lemma Starting.congr {rest : List Stmt} (hs : k.Starting L a rest) (h : SameView k k') :
    k'.Starting L a rest where
  placed := hs.placed
  fresh := hs.fresh
  bounds := hs.bounds
  low := hs.low
  high := hs.high
  used := fun hno => (h.inUse _).trans (hs.used hno)
  named := fun hno => (h.processId _).trans (hs.named hno)
  reserved := fun t ht hno hL => (h.inUse _).trans (hs.reserved t ht hno hL)
  parent := fun hno p hp => (h.parent _).trans (hs.parent hno p hp)
  before := fun hmem => h.current.trans (hs.before hmem)
  after := fun hno => h.current.trans (hs.after hno)
  behind := fun hmem p hp => (h.foreground 0).trans (hs.behind hmem p hp)
  ahead := fun hno => (h.foreground 0).trans (hs.ahead hno)
  opened := fun hno => h.initialized ▸ hs.opened hno

end Kernel

/-- The assignment of the current process comes just before that of the foreground process. -/
lemma Placed.assigning {rest : List Stmt} (h : Placed rest) :
    (.setCurrent ∈ rest → .setActivePid ∈ rest) ∧
      (.setCurrent ∉ rest → .setActivePid ∈ rest → rest.head? = some .setActivePid) := by
  rcases h with ⟨cs, -, rfl⟩ | ⟨n, rfl⟩
  · have hmem : ∀ t ∈ Activation.installation, t ∈ cs ++ Activation.installation :=
      fun t ht => List.mem_append_right cs ht
    exact ⟨fun _ => hmem _ (by decide), fun hno => absurd (hmem _ (by decide)) hno⟩
  · by_cases hn : n < 17
    · revert n
      decide
    · have hnil : Activation.installation.drop n = [] := List.drop_eq_nil_of_le (not_lt.mp hn)
      simp [hnil]

/-- A job that has made its process current need not change the foreground process any more. -/
def Job.Assigned (k : Kernel) (j : Job) : Prop := match j.work with
  | .starting a rest _ => rest.head? = some .setActivePid →
      (k.terminals k.activeTerminal).activePid = a.pid
  | .switching _ _ => True
  | .choosing _ _ _ => True
  | .exiting _ => True
  | .loading _ => True

namespace Jobs

open Kernel

variable {img : Image} {m m' : Jobs} {k k' : Kernel} {f : CallFrame} {L : List ℤ} {p : ℤ}
  {js : List Job}

/-- What the one job is at, if there is one. -/
inductive Phase (k : Kernel) (L : List ℤ) : List Job → Prop where
  | idle (front : k.Front L) (free : L = [] → k.Free) : Phase k L []
  | choosing {s : ℤ} {program : Program} {regs : Regs} {relaunch : Bool} (front : k.Front L)
      (free : L = [] → k.Free) :
      Phase k L [⟨k.currentPcb, s, .choosing program regs relaunch⟩]
  | starting {s : ℤ} {a : Activation} {rest : List Stmt} {first : Bool}
      (starting : k.Starting L a rest) : Phase k L [⟨k.currentPcb, s, .starting a rest first⟩]
  | exiting {s : ℤ} {x : Exit} (front : k.Front L) (hx : L.head? = some x.pid) :
      Phase k L [⟨k.currentPcb, s, .exiting x⟩]
  | loading {s : ℤ} {frame : Regs} (front : k.Front L) (hL : L ≠ []) :
      Phase k L [⟨k.currentPcb, s, .loading frame⟩]

lemma Phase.congr (h : Phase k L js) (hview : SameView k k') : Phase k' L js := by
  cases h with
  | idle front free => exact .idle (front.congr hview) fun hL => (free hL).congr hview
  | choosing front free =>
    rw [← hview.current]
    exact .choosing (front.congr hview) fun hL => (free hL).congr hview
  | starting starting =>
    rw [← hview.current]
    exact .starting (starting.congr hview)
  | exiting front hx =>
    rw [← hview.current]
    exact .exiting (front.congr hview) hx
  | loading front hL =>
    rw [← hview.current]
    exact .loading (front.congr hview) hL

/-- One terminal runs, with at most one job. -/
def Solo (m : Jobs) : Prop := ∃ L, m.kernel.Chain L ∧ Phase m.kernel L m.jobs

/-- The current process is in the foreground, unless its job has that still to do. -/
lemma Phase.foreground (hk : k.Chain L) (h : Phase k L js) (hassigned : ∀ j ∈ js, j.Assigned k)
    (hp : k.currentPcb = some p) : (k.terminals 0).activePid = p := by
  have hfront : k.Front L → (k.terminals 0).activePid = p := fun hf =>
    hf.foreground p (hf.current.symm.trans hp)
  cases h with
  | idle front _ => exact hfront front
  | choosing front _ => exact hfront front
  | exiting front _ => exact hfront front
  | loading front _ => exact hfront front
  | @starting s a rest first starting =>
    obtain ⟨hbehind, hhead⟩ := starting.placed.assigning
    by_cases hcur : .setCurrent ∈ rest
    · exact starting.behind (hbehind hcur) p ((starting.before hcur).symm.trans hp)
    · obtain rfl := Option.some.inj ((starting.after hcur).symm.trans hp)
      by_cases hact : .setActivePid ∈ rest
      · have hdone := hassigned _ List.mem_cons_self (hhead hcur hact)
        rwa [hk.active] at hdone
      · exact starting.ahead hact

/-! ### The end of a process -/

lemma toParent_pcbs_of_ne {q : ℤ} (hq : q ≠ p) : ((k.vacate p).toParent p).pcbs q = k.pcbs q := by
  simp [toParent, forgetIds, setPcb, setTerminal, vacate, hq]

lemma toParent_activePid {q : ℤ} (h0 : k.scheduledTerminal = 0) (hq : q ≠ p)
    (hparent : (k.pcbs p).parentProcessId = q) :
    ((k.vacate p).toParent p).currentPcb = some q ∧
      (((k.vacate p).toParent p).terminals 0).activePid = (k.pcbs q).processId % 256 := by
  simp [toParent, forgetIds, setPcb, setTerminal, vacate, hparent, h0, hq]

lemma chain_toParent {q : ℤ} (hk : k.Chain (p :: q :: L)) :
    ((k.vacate p).toParent p).Chain (q :: L) ∧ ((k.vacate p).toParent p).Front (q :: L) := by
  obtain ⟨⟨hparent, hlow⟩, hlinked⟩ := List.isChain_cons_cons.mp hk.linked
  obtain ⟨hnot, hnodup⟩ := List.nodup_cons.mp hk.nodup
  have hne : ∀ r ∈ q :: L, r ≠ p := fun r hr he => hnot (he ▸ hr)
  have hpid : (3 : ℤ) ≤ p := hlow
  obtain ⟨hid, huse, h0, hlt⟩ := hk.own q (by simp)
  have hlt6 : q < 6 := hlt
  obtain ⟨hcur, hact⟩ := toParent_activePid hk.scheduled (hne q (by simp)) hparent
  refine ⟨⟨hk.active, hk.scheduled, hk.alone, fun _ => hk.opened (by simp), fun _ => ?_, hnodup,
    fun r hr => ?_, ?_, fun r hr => hk.base r (by simpa using hr)⟩, ⟨hcur, fun r hr => ?_⟩⟩
  · rw [toParent_pcbs_of_ne (by omega), toParent_pcbs_of_ne (by omega)]
    exact hk.reserved (by simp)
  · rw [toParent_pcbs_of_ne (hne r hr)]
    exact hk.own r (List.mem_cons_of_mem _ hr)
  · apply hlinked.imp_of_mem_imp
    intro r s hr _ hrs
    rw [toParent_pcbs_of_ne (hne r hr)]
    exact hrs
  · obtain rfl := Option.some.inj hr
    rw [hact, hid]
    omega

lemma chain_relaunching (hk : k.Chain [p]) : ((k.vacate p).relaunching p).Chain [] ∧
    ((k.vacate p).relaunching p).Front [] ∧ ((k.vacate p).relaunching p).Free := by
  obtain rfl : p = 0 := hk.base p rfl
  refine ⟨⟨hk.active, hk.scheduled, hk.alone, ?_, ?_, List.nodup_nil, ?_, .nil, ?_⟩, ⟨rfl, ?_⟩,
    Or.inr ?_⟩
  · exact fun h => absurd rfl h
  · exact fun h => absurd rfl h
  · exact fun q hq => absurd hq (by simp)
  · exact fun q hq => absurd hq (by simp)
  · exact fun q hq => absurd hq (by simp)
  · simp [relaunching, forgetIds, setPcb, vacate]

lemma exit_sameView {s t : Kernel × Exit} (h : s.2.exec s.1 = some t) : SameView s.1 t.1 := by
  have hclose : ∀ (k : Kernel) (p : ℤ) (g : FdTable → FdTable),
      SameView k (k.setPcb p fun pcb => { pcb with fdArray := g pcb.fdArray }) := by
    intro k p g
    refine ⟨rfl, rfl, rfl, rfl, fun _ => rfl, fun q => ?_, fun q => ?_, fun q => ?_⟩
    · refine setPcb_keeps ?_ q
      exact fun _ => rfl
    · refine setPcb_keeps ?_ q
      exact fun _ => rfl
    · refine setPcb_keeps ?_ q
      exact fun _ => rfl
  unfold Exit.exec at h
  cases hn : s.2.next with
  | print num =>
    simp only [hn] at h
    obtain ⟨k, hk, rfl⟩ := Option.map_eq_some_iff.mp h
    obtain ⟨mem, x, y, rfl⟩ := onConsole_cases hk
    exact ⟨rfl, rfl, rfl, rfl, fun _ => rfl, fun _ => rfl, fun _ => rfl, fun _ => rfl⟩
  | test =>
    simp only [hn] at h
    split at h <;> obtain rfl := Option.some.inj h <;>
      exact ⟨rfl, rfl, rfl, rfl, fun _ => rfl, fun _ => rfl, fun _ => rfl, fun _ => rfl⟩
  | leave => simp [hn] at h
  | raise | cache | clear =>
    simp only [hn] at h
    obtain rfl := Option.some.inj h
    exact ⟨rfl, rfl, rfl, rfl, fun _ => rfl, fun _ => rfl, fun _ => rfl, fun _ => rfl⟩
  | close i =>
    simp only [hn] at h
    obtain rfl := Option.some.inj h
    exact hclose _ _ fun fds => (sysClose fds i.val).2

/-! ### One step -/

lemma Phase.running {j : Job} (h : Phase m.kernel L m.jobs) (hrun : m.running = some j) :
    m.jobs = [j] ∧ m.waiting = [] := by
  have hone : ∀ s work, m.jobs = [⟨m.kernel.currentPcb, s, work⟩] →
      m.jobs = [j] ∧ m.waiting = [] := by
    intro s work hjobs
    simp only [Jobs.running, hjobs, isRunning, List.find?_cons, decide_true, Option.some.injEq] at hrun
    subst hrun
    simp [hjobs, waiting, isRunning]
  generalize hjs : m.jobs = js at h hone
  cases h with
  | idle => simp [Jobs.running, hjs] at hrun
  | choosing => exact hone _ _ rfl
  | starting => exact hone _ _ rfl
  | exiting => exact hone _ _ rfl
  | loading => exact hone _ _ rfl

lemma Phase.idle_of (h : Phase m.kernel L m.jobs) (hrun : m.running = none) :
    m.jobs = [] ∧ m.kernel.Front L ∧ (L = [] → m.kernel.Free) := by
  have hno : ∀ s work, m.jobs ≠ [⟨m.kernel.currentPcb, s, work⟩] := by
    intro s work hjobs
    simp [Jobs.running, hjobs, isRunning] at hrun
  generalize hjs : m.jobs = js at h hno
  cases h with
  | idle front free => exact ⟨rfl, front, free⟩
  | choosing => exact absurd rfl (hno _ _)
  | starting => exact absurd rfl (hno _ _)
  | exiting => exact absurd rfl (hno _ _)
  | loading => exact absurd rfl (hno _ _)

lemma choose_solo {s : ℤ} {program : Program} {regs : Regs} {relaunch : Bool}
    (hk : m.kernel.Chain L) (front : m.kernel.Front L) (free : L = [] → m.kernel.Free)
    (hwait : m.waiting = [])
    (h : m.choose ⟨m.kernel.currentPcb, s, .choosing program regs relaunch⟩ program regs relaunch =
      some m') : m'.Solo := by
  unfold choose at h
  cases hpid : m.kernel.choosePid with
  | none =>
    simp only [hpid] at h
    split at h
    · exact absurd h (by simp)
    · obtain rfl := Option.some.inj h
      refine ⟨L, hk, ?_⟩
      simp only [finish, hwait]
      exact .idle front free
  | some pid =>
    simp only [hpid, Option.some.injEq] at h
    subst h
    refine ⟨L, hk, ?_⟩
    simp only [goOn, hwait]
    exact .starting (hk.start front free hpid)

lemma advance_solo {s : ℤ} {a : Activation} {rest : List Stmt} {first : Bool}
    (hk : m.kernel.Chain L) (hs : m.kernel.Starting L a rest) (hwait : m.waiting = [])
    (h : m.advance ⟨m.kernel.currentPcb, s, .starting a rest first⟩ a rest first = some m') :
    m'.Solo := by
  unfold advance at h
  cases rest with
  | nil => exact absurd h (by simp)
  | cons t rest =>
    obtain ⟨x, hx, rfl⟩ := Option.map_eq_some_iff.mp h
    have hk' : x.kernel.Chain L := hk.effect (exec_effect hx) hs.fresh hs.high
    have hs' : x.kernel.Starting L a rest := hs.exec hk hx
    split
    · rename_i hnil
      subst hnil
      obtain ⟨hchain, hfront⟩ := hs'.joined hk'
      refine ⟨a.pid :: L, hchain, ?_⟩
      simp only [finish, hwait]
      exact .idle hfront fun h => absurd h (by simp)
    · refine ⟨L, hk', ?_⟩
      simp only [goOn, hwait]
      exact .starting hs'

lemma leave_solo {s : ℤ} {x : Exit} (hk : m.kernel.Chain L) (hx : L.head? = some x.pid)
    (hwait : m.waiting = [])
    (h : m.leave img f ⟨m.kernel.currentPcb, s, .exiting x⟩ x = some m') : m'.Solo := by
  have hkept : ((m.kernel.vacate x.pid).pcbs x.pid).processId =
      (m.kernel.pcbs x.pid).processId := by
    simp [vacate, setPcb]
  cases L with
  | nil => simp at hx
  | cons p L =>
    obtain rfl := Option.some.inj hx
    have hid := (hk.own x.pid (by simp)).1
    have hwait' : waiting { m with live := m.live.erase x.pid } = [] := hwait
    unfold leave at h
    simp only [hkept, hid] at h
    cases L with
    | nil =>
      have hlow : x.pid < (maxTerminals : ℤ) := by
        rw [hk.base x.pid rfl]
        decide
      rw [if_pos hlow] at h
      obtain ⟨accepted, -, h⟩ := Option.bind_eq_some_iff.mp h
      obtain ⟨program, -, rfl⟩ := Option.map_eq_some_iff.mp h
      obtain ⟨hchain, hfront, hfree⟩ := chain_relaunching hk
      refine ⟨[], hchain, ?_⟩
      simp only [goOn, hwait']
      exact .choosing hfront fun _ => hfree
    | cons q L =>
      have hhigh : ¬x.pid < (maxTerminals : ℤ) := not_lt.mpr (List.isChain_cons_cons.mp hk.linked).1.2
      rw [if_neg hhigh] at h
      obtain rfl := Option.some.inj h
      obtain ⟨hchain, hfront⟩ := chain_toParent hk
      refine ⟨q :: L, hchain, ?_⟩
      simp only [goOn, hwait']
      exact .loading hfront (by simp)

lemma runJob_solo {j : Job} (hk : m.kernel.Chain L) (h : Phase m.kernel L m.jobs)
    (hrun : m.running = some j) (hstep : m.runJob img f j = some m') : m'.Solo := by
  obtain ⟨hjobs, hwait⟩ := h.running hrun
  rw [hjobs] at h
  unfold runJob at hstep
  cases h with
  | choosing front free => exact choose_solo hk front free hwait hstep
  | starting starting => exact advance_solo hk starting hwait hstep
  | @exiting s x front hx =>
    dsimp only at hstep
    split at hstep
    · exact leave_solo hk hx hwait hstep
    · obtain ⟨r, hr, rfl⟩ := Option.map_eq_some_iff.mp hstep
      have hview : SameView m.kernel r.1 := exit_sameView (s := (m.kernel, x)) hr
      have hpid : r.2.pid = x.pid := (Exit.exec_keeps (s := (m.kernel, x)) hr).2.1
      refine ⟨L, hk.congr hview, ?_⟩
      simp only [goOn, hwait]
      exact .exiting (front.congr hview) (hpid.symm ▸ hx)
  | loading front hL =>
    obtain rfl := Option.some.inj hstep
    refine ⟨L, hk, ?_⟩
    simp only [finish, hwait]
    exact .idle front fun h => absurd h hL

lemma call_solo {command : List UInt8} (hm : m.Solo) (hrun : m.running = none)
    (h : m.call img f command = some m') : m'.Solo := by
  obtain ⟨L, hk, hphase⟩ := hm
  obtain ⟨accepted, -, rfl⟩ := Option.map_eq_some_iff.mp h
  cases accepted with
  | none => exact ⟨L, hk, hphase⟩
  | some program =>
    obtain ⟨hjobs, front, free⟩ := hphase.idle_of hrun
    refine ⟨L, hk, ?_⟩
    simp only [begin, hjobs]
    exact .choosing front free

lemma exit_solo {ending : Ending} (hm : m.Solo)
    (h : (m.kernel.currentPcb.bind fun p =>
      if m.InUser p then some (m.begin (.exiting (.start p ending))) else none) = some m') :
    m'.Solo := by
  obtain ⟨L, hk, hphase⟩ := hm
  obtain ⟨p, hp, h⟩ := Option.bind_eq_some_iff.mp h
  split at h
  · rename_i huser
    obtain rfl := Option.some.inj h
    obtain ⟨hjobs, front, free⟩ := hphase.idle_of (Option.isNone_iff_eq_none.mp huser.2.2)
    refine ⟨L, hk, ?_⟩
    simp only [begin, hjobs]
    exact .exiting front (front.current.symm.trans hp)
  · exact absurd h (by simp)

/-- No key starts a shell, and a tick finds the process that its job has made current in the
foreground. -/
def Undisturbed (m : Jobs) : JobEvent → Prop
  | .switch target =>
    target = m.kernel.activeTerminal ∨ m.kernel.initializedTerminals target = true
  | .tick _ => ∀ j ∈ m.jobs, j.Assigned m.kernel
  | _ => True

/-- A tick on a single terminal resumes the context it has saved. -/
lemma tick_solo {r : Regs} (hm : m.Solo) (hg : m.Undisturbed (.tick r))
    (h : m.step img (.tick r) = some m') : m'.Solo ∧ ∀ p, m.kernel.currentPcb = some p →
      m'.kernel.currentPcb = some p ∧ (m'.kernel.pcbs p).scheduling = r := by
  obtain ⟨L, hk, hphase⟩ := hm
  obtain ⟨k', hk', rfl⟩ := Option.map_eq_some_iff.mp h
  cases hp : m.kernel.currentPcb with
  | none =>
    simp only [pitHandler, hp, Option.isSome_none, Bool.false_eq_true, if_false,
      Option.some.injEq] at hk'
    subst hk'
    exact ⟨⟨L, hk, hphase⟩, fun p hq => absurd hq (by simp)⟩
  | some p =>
    obtain ⟨hview, hsched⟩ := tick_sameView hk (hphase.foreground hk hg hp) hp hk'
    refine ⟨⟨L, hk.congr hview, hphase.congr hview⟩, fun q hq => ?_⟩
    obtain rfl := Option.some.inj hq
    exact ⟨hview.current.trans hp, hsched⟩

lemma step_solo {e : JobEvent} (hm : m.Solo) (hg : m.Undisturbed e)
    (h : m.step img e = some m') : m'.Solo := by
  cases e with
  | tick r => exact (tick_solo hm hg h).1
  | switch target =>
    have hactive : m.kernel.activeTerminal = target := by
      obtain ⟨L, hk, -⟩ := hm
      rcases hg with hg | hg
      · exact hg.symm
      · exact hk.active.trans (hk.alone target hg).symm
    simp only [step, if_pos hactive, Option.some.injEq] at h
    exact h ▸ hm
  | entry f =>
    simp only [step] at h
    split at h
    · rename_i hentry
      exact call_solo (m := { m with booting := false }) hm hentry.2.2 h
    · exact absurd h (by simp)
  | execute f command =>
    simp only [step] at h
    split at h
    · rename_i huser
      obtain ⟨p, -, hp⟩ := huser
      exact call_solo hm (Option.isNone_iff_eq_none.mp hp.2.2) h
    · exact absurd h (by simp)
  | halt status => exact exit_solo hm h
  | fault num status => exact exit_solo hm h
  | run f =>
    obtain ⟨L, hk, hphase⟩ := hm
    obtain ⟨j, hrun, h⟩ := Option.bind_eq_some_iff.mp h
    exact runJob_solo hk hphase hrun h

lemma start_solo (frames : TableFrames) (mem : Memory) (x y : ℕ) :
    (start (boot frames mem x y)).Solo := by
  refine ⟨[], ⟨rfl, rfl, ?_, ?_, ?_, List.nodup_nil, ?_, .nil, ?_⟩, .idle ⟨rfl, ?_⟩ ?_⟩
  · exact fun t ht => absurd ht (by simp [start, boot])
  · exact fun h => absurd rfl h
  · exact fun h => absurd rfl h
  · exact fun p hp => absurd hp (by simp)
  · exact fun p hp => absurd hp (by simp)
  · exact fun p hp => absurd hp (by simp)
  · exact fun _ => Or.inl rfl

end Jobs

namespace Traced

open Kernel

variable {img : Image} {t t' : Traced} {frames : TableFrames} {mem : Memory} {x y : ℕ}
  {es : List JobEvent} {p : ℤ}

def Undisturbed (t : Traced) (e : JobEvent) : Prop := t.jobs.Undisturbed e

/-- In every undisturbed run from the boot, a tick that calls `scheduler` resumes a context that
was saved last and that nothing has touched since. -/
theorem resumed_run (h : Runs.Path (step img) Undisturbed (start (boot frames mem x y)) es t)
    {r : Regs} (hg : t.Undisturbed (.tick r)) (hcalls : t.jobs.kernel.currentPcb.isSome = true)
    (hstep : t.step img (.tick r) = some t') (hp : t'.jobs.kernel.currentPcb = some p) :
    t'.Intact p := by
  have hsolo : t.jobs.Solo := by
    apply h.invariant (I := fun t => t.jobs.Solo)
    · intro s e u hs hg hstep
      obtain ⟨jobs, hjobs, rfl⟩ := Option.map_eq_some_iff.mp hstep
      exact Jobs.step_solo hs hg hjobs
    · exact Jobs.start_solo frames mem x y
  obtain ⟨q, hq⟩ := Option.isSome_iff_exists.mp hcalls
  obtain ⟨jobs, hjobs, rfl⟩ := Option.map_eq_some_iff.mp hstep
  obtain ⟨hcur, hpair⟩ := (Jobs.tick_solo hsolo hg hjobs).2 q hq
  obtain rfl := Option.some.inj (hcur.symm.trans hp)
  refine ⟨⟨t.clock + 1, t.jobs.stack, r⟩, ?_, hpair, ?_⟩
  · simp [storedBy, hq]
  · simp

instance (k : Kernel) : ∀ j : Job, Decidable (j.Assigned k)
  | ⟨_, _, .starting a rest _⟩ => inferInstanceAs (Decidable (rest.head? = some .setActivePid →
      (k.terminals k.activeTerminal).activePid = a.pid))
  | ⟨_, _, .switching _ _⟩ => inferInstanceAs (Decidable True)
  | ⟨_, _, .choosing _ _ _⟩ => inferInstanceAs (Decidable True)
  | ⟨_, _, .exiting _⟩ => inferInstanceAs (Decidable True)
  | ⟨_, _, .loading _⟩ => inferInstanceAs (Decidable True)

instance (t : Traced) : ∀ e : JobEvent, Decidable (t.Undisturbed e)
  | .switch target => inferInstanceAs (Decidable (target = t.jobs.kernel.activeTerminal ∨
      t.jobs.kernel.initializedTerminals target = true))
  | .tick _ => inferInstanceAs (Decidable (∀ j ∈ t.jobs.jobs, j.Assigned t.jobs.kernel))
  | .entry _ => inferInstanceAs (Decidable True)
  | .execute _ _ => inferInstanceAs (Decidable True)
  | .halt _ => inferInstanceAs (Decidable True)
  | .fault _ _ => inferInstanceAs (Decidable True)
  | .run _ => inferInstanceAs (Decidable True)

/-- The first shell runs, and after a tick it starts a shell, up to the mark of its terminal. -/
def childStarted : List JobEvent :=
  Jobs.entryRun 47 ++ [.tick ⟨1, 1⟩, .execute bareFrame shellCommand] ++
    List.replicate 44 (.run bareFrame)

/-- A tick in the kernel stack of the first shell, where the call of the second one goes on. -/
theorem resumed_run_child : ∃ t t' : Traced,
    step shellImage t (.tick ⟨2, 2⟩) = some t' ∧ t'.jobs.kernel.currentPcb = some 3 ∧
      t'.Intact 3 := by
  have hend : (Runs.run (step shellImage) Undisturbed (start (boot ⟨0, 0⟩ (fun _ => 0) 0 0))
      childStarted).bind (fun t => (step shellImage t (.tick ⟨2, 2⟩)).map fun t' =>
        (decide (t.Undisturbed (.tick ⟨2, 2⟩)), t.jobs.kernel.currentPcb.isSome,
          t'.jobs.kernel.currentPcb)) = some (true, true, some 3) := by
    decide +kernel
  obtain ⟨t, hrun, hend⟩ := Option.bind_eq_some_iff.mp hend
  obtain ⟨t', hstep, hend⟩ := Option.map_eq_some_iff.mp hend
  simp only [Prod.mk.injEq] at hend
  obtain ⟨hg, hcalls, hp⟩ := hend
  exact ⟨t, t', hstep, hp,
    resumed_run (Runs.path_of_run hrun) (of_decide_eq_true hg) hcalls hstep hp⟩

/-- The user opens the second terminal while the first shell runs. A tick ends the wait of the
new shell; it reaches user mode. -/
def secondOpened : List JobEvent :=
  Jobs.entryRun 47 ++ [.tick ⟨1, 1⟩, .switch 1] ++ List.replicate 53 (.run bareFrame) ++
    [.tick ⟨2, 2⟩] ++ List.replicate 2 (.run bareFrame)

/-- The next tick resumes the first shell from the pair of its last tick, although the switch
has run on its kernel stack since. -/
theorem first_switch_stale : ¬∀ (img : Image) (frames : TableFrames) (mem : Memory) (x y : ℕ)
    (es : List JobEvent) (t t' : Traced) (r : Regs) (p : ℤ),
    Runs.Path (step img) (fun _ _ => True) (start (boot frames mem x y)) es t →
      t.jobs.kernel.currentPcb.isSome = true → step img t (.tick r) = some t' →
      t'.jobs.kernel.currentPcb = some p → t'.Intact p := by
  intro h
  have hend : (Runs.run (step shellImage) (fun _ _ => True)
      (start (boot ⟨0, 0⟩ (fun _ => 0) 0 0)) secondOpened).bind (fun t =>
        (step shellImage t (.tick ⟨3, 3⟩)).map fun t' => (t.jobs.kernel.currentPcb.isSome,
          t'.jobs.kernel.currentPcb, t'.saved 0, t'.lastRun 0)) =
      some (true, some 0, some ⟨49, 0, ⟨1, 1⟩⟩, 106) := by
    decide +kernel
  obtain ⟨t, hrun, hend⟩ := Option.bind_eq_some_iff.mp hend
  obtain ⟨t', hstep, hend⟩ := Option.map_eq_some_iff.mp hend
  simp only [Prod.mk.injEq] at hend
  obtain ⟨hcalls, hp, hsaved, hlast⟩ := hend
  obtain ⟨s, hs, -, hlater⟩ := h _ _ _ _ _ _ t t' _ _ (Runs.path_of_run hrun) hcalls hstep hp
  obtain rfl := Option.some.inj (hsaved.symm.trans hs)
  exact absurd (hlast.symm.trans hlater) (by decide)

end Traced

end HalOs
