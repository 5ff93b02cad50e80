import HalOs.Model.Jobs
import HalOs.Proofs.ExitRace
import HalOs.Proofs.PidRace

/-!
# The first ticks

`pit_handler` calls `scheduler` as soon as there is a current process, and `scheduler` looks
for an initialised terminal until it finds one. `execute` makes its process current two
statements before it marks the terminal, so a tick between them never returns.
-/

namespace HalOs

/-! ### The place of a call -/

/-- What a call still has to run: a part of the copying and all of the installation, or a part
of the installation. -/
def Placed (rest : List Stmt) : Prop :=
  (∃ cs, (∀ s ∈ cs, s = .setPage ∨ ∃ i, s = .copy i) ∧ rest = cs ++ Activation.installation) ∨
    ∃ n, rest = Activation.installation.drop n

section Placed

variable {a : Activation} {s : Stmt} {rest : List Stmt}

lemma placed_body : Placed a.body := by
  refine Or.inl ⟨.setPage :: (List.range a.program.bytes.length).map Stmt.copy, ?_, rfl⟩
  intro s hs
  rcases List.mem_cons.mp hs with rfl | hs
  · exact Or.inl rfl
  · obtain ⟨i, -, rfl⟩ := List.mem_map.mp hs
    exact Or.inr ⟨i, rfl⟩

/-- The next statement belongs to the copying, or is the one its place in the installation
names. -/
lemma Placed.next (h : Placed (s :: rest)) :
    ((s = .setPage ∨ ∃ i, s = .copy i) ∧ Placed rest) ∨
      ∃ n, Activation.installation[n]? = some s ∧ rest = Activation.installation.drop (n + 1) := by
  rcases h with ⟨cs, hcs, h⟩ | ⟨n, h⟩
  · cases cs with
    | nil =>
      obtain ⟨rfl, rfl⟩ := List.cons.inj h
      exact Or.inr ⟨0, rfl, rfl⟩
    | cons c cs =>
      obtain ⟨rfl, rfl⟩ := List.cons.inj h
      exact Or.inl ⟨hcs s (by simp), Or.inl ⟨cs, fun t ht => hcs t (by simp [ht]), rfl⟩⟩
  · have hs : Activation.installation[n]? = some s := by
      rw [← List.head?_drop, ← h, List.head?_cons]
    have hrest : rest = Activation.installation.drop (n + 1) := by
      rw [← List.tail_drop, ← h, List.tail_cons]
    exact Or.inr ⟨n, hs, hrest⟩

lemma Placed.tail (h : Placed (s :: rest)) : Placed rest := by
  rcases h.next with ⟨-, h⟩ | ⟨n, -, h⟩
  · exact h
  · exact Or.inr ⟨n + 1, h⟩

lemma Placed.after_setCurrent (h : Placed (.setCurrent :: rest)) :
    rest.head? = some .setActivePid := by
  rcases h.next with ⟨hs, -⟩ | ⟨n, hs, rfl⟩
  · simp at hs
  · obtain ⟨hn, hs⟩ := List.getElem?_eq_some_iff.mp hs
    have h17 : n < 17 := hn
    interval_cases n <;> simp_all [Activation.installation]

lemma Placed.after_setActivePid (h : Placed (.setActivePid :: rest)) :
    rest.head? = some .activate := by
  rcases h.next with ⟨hs, -⟩ | ⟨n, hs, rfl⟩
  · simp at hs
  · obtain ⟨hn, hs⟩ := List.getElem?_eq_some_iff.mp hs
    have h17 : n < 17 := hn
    interval_cases n <;> simp_all [Activation.installation]

end Placed

/-- A job that has chosen its process id has a part of its statements left, and a process that
exits is held by a PCB. -/
def Job.InPlace (j : Job) : Prop := match j.work with
  | .starting _ rest _ => Placed rest
  | .switching _ _ => True
  | .choosing _ _ _ => True
  | .exiting _ => j.holder ≠ none
  | .loading _ => True

/-- The job has made its process current and not yet marked a terminal. -/
def Job.Between (j : Job) : Prop := match j.work with
  | .starting _ rest _ => rest.head? = some .setActivePid ∨ rest.head? = some .activate
  | .switching _ _ => False
  | .choosing _ _ _ => False
  | .exiting _ => False
  | .loading _ => False

instance (j : Job) : Decidable j.Between := by
  unfold Job.Between
  split <;> infer_instance

namespace Kernel

variable {k k' : Kernel} {a : Activation} {s : Stmt} {x y : ExecState} {r : Regs} {t : Fin 3}

/-! ### Initialised terminals stay so -/

lemma exec_initialized (h : a.exec s x = some y) (ht : x.kernel.initializedTerminals t = true) :
    y.kernel.initializedTerminals t = true :=
  ((exec_effect h).initialized t).1 ht

lemma activate_initialized (h : a.exec .activate x = some y) :
    ∃ t, y.kernel.initializedTerminals t = true := by
  refine ⟨x.kernel.activeTerminal, ?_⟩
  simp only [Activation.exec] at h
  split at h
  · rename_i ht
    exact Option.some.inj h ▸ ht
  · obtain rfl := Option.some.inj h
    simp

lemma pitHandler_initialized (h : k.pitHandler r = some k') :
    k' = k ∨ ∃ t, k'.initializedTerminals t = true := by
  unfold pitHandler at h
  split at h
  · obtain ⟨p, next, -, hnext, rfl⟩ := scheduler_cases h
    exact Or.inr ⟨next, (congrFun (saved_initialized (r := r) p) next).trans hnext⟩
  · exact Or.inl (Option.some.inj h).symm

end Kernel

namespace Jobs

open Kernel

variable {img : Image} {m m' : Jobs} {j d : Job} {f : CallFrame} {k : Kernel} {work : Work}

lemma mem_jobs (h : m.running = some j) (d : Job) : d ∈ m.jobs ↔ d = j ∨ d ∈ m.waiting :=
  Machine.find_mem_iff h d

/-- A current process is behind an initialised terminal, or behind a job that is about to
initialise one. -/
structure Covered (m : Jobs) : Prop where
  placed : ∀ j ∈ m.jobs, j.InPlace
  covered : m.kernel.currentPcb ≠ none →
    (∃ t, m.kernel.initializedTerminals t = true) ∨ ∃ j ∈ m.jobs, j.Between

lemma tick_covered {r : Regs} (hm : m.Covered) (h : m.step img (.tick r) = some m') :
    m'.Covered := by
  obtain ⟨k, hk, rfl⟩ := Option.map_eq_some_iff.mp h
  refine ⟨hm.placed, fun hp => ?_⟩
  rcases pitHandler_initialized hk with rfl | ht
  · exact hm.covered hp
  · exact Or.inl ht

lemma begin_covered (hm : m.Covered) (hwork : (Job.mk m.kernel.currentPcb m.stack work).InPlace) :
    (m.begin work).Covered := by
  refine ⟨fun d hd => ?_, fun hp => ?_⟩
  · rcases List.mem_cons.mp hd with rfl | hd
    · exact hwork
    · exact hm.placed d hd
  · rcases hm.covered hp with ht | ⟨d, hd, hb⟩
    · exact Or.inl ht
    · exact Or.inr ⟨d, List.mem_cons_of_mem _ hd, hb⟩

lemma call_covered {command : List UInt8} (hm : m.Covered)
    (h : m.call img f command = some m') : m'.Covered := by
  obtain ⟨accepted, -, rfl⟩ := Option.map_eq_some_iff.mp h
  cases accepted with
  | none => exact hm
  | some program => exact begin_covered hm trivial

/-- What a statement of the running job keeps: the other jobs that are about to mark a terminal,
and the terminals that are marked. -/
structure Keeps (m : Jobs) (k : Kernel) : Prop where
  current : k.currentPcb ≠ none → m.kernel.currentPcb ≠ none
  initialized : ∀ t, m.kernel.initializedTerminals t = true → k.initializedTerminals t = true

lemma finish_covered (hm : m.Covered) (hrun : m.running = some j) (hk : m.Keeps k)
    (hj : j.Between → ∃ t, k.initializedTerminals t = true) : (m.finish k).Covered := by
  refine ⟨fun d hd => hm.placed d ((mem_jobs hrun d).mpr (Or.inr hd)), fun hp => ?_⟩
  rcases hm.covered (hk.current hp) with ⟨t, ht⟩ | ⟨d, hd, hb⟩
  · exact Or.inl ⟨t, hk.initialized t ht⟩
  · rcases (mem_jobs hrun d).mp hd with rfl | hd
    · exact Or.inl (hj hb)
    · exact Or.inr ⟨d, hd, hb⟩

lemma goOn_covered (work : Work) (hm : m.Covered) (hrun : m.running = some j) (hk : m.Keeps k)
    (hplaced : (Job.mk k.currentPcb j.stack work).InPlace)
    (hj : j.Between → (∃ t, k.initializedTerminals t = true) ∨
      (Job.mk k.currentPcb j.stack work).Between) : (m.goOn j work k).Covered := by
  refine ⟨fun d hd => ?_, fun hp => ?_⟩
  · rcases List.mem_cons.mp hd with rfl | hd
    · exact hplaced
    · exact hm.placed d ((mem_jobs hrun d).mpr (Or.inr hd))
  · rcases hm.covered (hk.current hp) with ⟨t, ht⟩ | ⟨d, hd, hb⟩
    · exact Or.inl ⟨t, hk.initialized t ht⟩
    · rcases (mem_jobs hrun d).mp hd with rfl | hd
      · rcases hj hb with ht | hb
        · exact Or.inl ht
        · exact Or.inr ⟨_, List.mem_cons_self, hb⟩
      · exact Or.inr ⟨d, List.mem_cons_of_mem _ hd, hb⟩

/-- A statement makes the process current, is between that and the mark, sets the mark, or
leaves both alone. -/
lemma advance_covered {a : Activation} {rest : List Stmt} {first : Bool} (hm : m.Covered)
    (hrun : m.running = some j) (hj : j.work = .starting a rest first)
    (h : m.advance j a rest first = some m') : m'.Covered := by
  have hplace : j.InPlace := hm.placed j ((mem_jobs hrun j).mpr (Or.inl rfl))
  simp only [Job.InPlace, hj] at hplace
  unfold advance at h
  cases rest with
  | nil => exact absurd h (by simp)
  | cons s rest =>
    obtain ⟨x, hx, rfl⟩ := Option.map_eq_some_iff.mp h
    have hkeeps : s ≠ .setCurrent → m.Keeps x.kernel := by
      intro hs
      refine ⟨?_, fun t ht => exec_initialized hx ht⟩
      rw [(exec_cases hx).2.1, if_neg hs]
      exact id
    by_cases hcur : s = .setCurrent
    · subst hcur
      have hnext := hplace.after_setCurrent
      have hne : rest ≠ [] := by
        rintro rfl
        simp at hnext
      rw [if_neg hne]
      refine ⟨fun d hd => ?_, fun _ => Or.inr ⟨_, List.mem_cons_self, Or.inl hnext⟩⟩
      rcases List.mem_cons.mp hd with rfl | hd
      · exact hplace.tail
      · exact hm.placed d ((mem_jobs hrun d).mpr (Or.inr hd))
    have hmark : j.Between → (∃ t, x.kernel.initializedTerminals t = true) ∨
        rest.head? = some .activate := by
      intro hb
      simp only [Job.Between, hj, List.head?_cons, Option.some.injEq] at hb
      rcases hb with rfl | rfl
      · exact Or.inr hplace.after_setActivePid
      · exact Or.inl (activate_initialized hx)
    split
    · rename_i hnil
      apply finish_covered hm hrun (hkeeps hcur)
      intro hb
      rcases hmark hb with ht | hact
      · exact ht
      · simp [hnil] at hact
    · apply goOn_covered (.starting a rest x.first) hm hrun (hkeeps hcur) hplace.tail
      intro hb
      rcases hmark hb with ht | hact
      · exact Or.inl ht
      · exact Or.inr (Or.inr hact)

lemma choose_covered {program : Program} {regs : Regs} {relaunch : Bool} (hm : m.Covered)
    (hrun : m.running = some j) (hj : j.work = .choosing program regs relaunch)
    (h : m.choose j program regs relaunch = some m') : m'.Covered := by
  have hkeeps : m.Keeps m.kernel := ⟨id, fun t ht => ht⟩
  have hno : ¬j.Between := by simp [Job.Between, hj]
  unfold choose at h
  cases hpid : m.kernel.choosePid with
  | none =>
    simp only [hpid] at h
    split at h
    · exact absurd h (by simp)
    · exact Option.some.inj h ▸ finish_covered hm hrun hkeeps (fun hb => absurd hb hno)
  | some pid =>
    simp only [hpid, Option.some.injEq] at h
    subst h
    have hgo := goOn_covered (.starting ⟨program, pid, regs⟩
      (Activation.mk program pid regs).body false) hm hrun hkeeps placed_body
      (fun hb => absurd hb hno)
    exact ⟨hgo.placed, hgo.covered⟩

lemma switchOn_covered {target : Fin 3} {s : SwitchStmt} (hm : m.Covered)
    (hrun : m.running = some j) (hj : j.work = .switching target s)
    (h : m.switchOn img f j target s = some m') : m'.Covered := by
  have hno : ¬j.Between := by simp [Job.Between, hj]
  have hkeeps : m.Keeps (s.exec target m.kernel).1 := by
    constructor <;> cases s <;> simp [SwitchStmt.exec, memcpyPage]
  unfold switchOn at h
  generalize s.exec target m.kernel = r at h hkeeps
  obtain ⟨k, _ | next⟩ := r
  · dsimp only at h
    split at h
    · exact Option.some.inj h ▸ finish_covered hm hrun hkeeps (fun hb => absurd hb hno)
    · obtain ⟨accepted, -, rfl⟩ := Option.map_eq_some_iff.mp h
      cases accepted with
      | none => exact finish_covered hm hrun hkeeps (fun hb => absurd hb hno)
      | some program => exact goOn_covered _ hm hrun hkeeps trivial (fun hb => absurd hb hno)
  · exact Option.some.inj h ▸ goOn_covered _ hm hrun hkeeps trivial (fun hb => absurd hb hno)

lemma running_holder (h : m.running = some j) : j.holder = m.kernel.currentPcb := by
  simpa [isRunning] using List.find?_some h

lemma exiting_current {x : Exit} (hm : m.Covered) (hrun : m.running = some j)
    (hj : j.work = .exiting x) : m.kernel.currentPcb ≠ none := by
  have hplace : j.InPlace := hm.placed j ((mem_jobs hrun j).mpr (Or.inl rfl))
  simp only [Job.InPlace, hj] at hplace
  exact running_holder hrun ▸ hplace

lemma leave_covered {x : Exit} (hm : m.Covered) (hrun : m.running = some j)
    (hj : j.work = .exiting x) (h : m.leave img f j x = some m') : m'.Covered := by
  have hno : ¬j.Between := by simp [Job.Between, hj]
  have hcur := exiting_current hm hrun hj
  have hlive : Covered { m with live := m.live.erase x.pid } := ⟨hm.placed, hm.covered⟩
  unfold leave at h
  dsimp only at h
  split at h
  · obtain ⟨accepted, -, h⟩ := Option.bind_eq_some_iff.mp h
    obtain ⟨program, -, rfl⟩ := Option.map_eq_some_iff.mp h
    apply goOn_covered (.choosing program f.regs true) hlive hrun _ trivial
      (fun hb => absurd hb hno)
    exact ⟨fun _ => hcur, fun t ht => ht⟩
  · obtain rfl := Option.some.inj h
    apply goOn_covered (.loading x.frame) hlive hrun _ trivial (fun hb => absurd hb hno)
    exact ⟨fun _ => hcur, fun t ht => ht⟩

lemma exit_keeps {s t : Kernel × Exit} (h : s.2.exec s.1 = some t) :
    t.1.initializedTerminals = s.1.initializedTerminals := by
  unfold Exit.exec at h
  cases hn : s.2.next with
  | print num =>
    simp only [hn] at h
    obtain ⟨k, hk, rfl⟩ := Option.map_eq_some_iff.mp h
    obtain ⟨mem, x, y, rfl⟩ := onConsole_cases hk
    rfl
  | test =>
    simp only [hn] at h
    split at h <;> simp [← Option.some.inj h]
  | leave => simp [hn] at h
  | raise | cache | clear | close i =>
    simp only [hn] at h
    simp [← Option.some.inj h, setPcb]

lemma runJob_covered (hm : m.Covered) (hrun : m.running = some j)
    (h : m.runJob img f j = some m') : m'.Covered := by
  unfold runJob at h
  cases hj : j.work with
  | switching target s =>
    simp only [hj] at h
    exact switchOn_covered hm hrun hj h
  | choosing program regs relaunch =>
    simp only [hj] at h
    exact choose_covered hm hrun hj h
  | starting a rest first =>
    simp only [hj] at h
    exact advance_covered hm hrun hj h
  | exiting x =>
    simp only [hj] at h
    split at h
    · exact leave_covered hm hrun hj h
    · obtain ⟨r, hr, rfl⟩ := Option.map_eq_some_iff.mp h
      have hcur : r.1.currentPcb = m.kernel.currentPcb :=
        (Exit.exec_keeps (s := (m.kernel, x)) hr).1
      apply goOn_covered (.exiting r.2) hm hrun
      · exact ⟨fun hp => hcur ▸ hp, fun t ht => (exit_keeps (s := (m.kernel, x)) hr).symm ▸ ht⟩
      · exact hcur.symm ▸ exiting_current hm hrun hj
      · exact fun hb => absurd hb (by simp [Job.Between, hj])
  | loading frame =>
    simp only [hj] at h
    obtain rfl := Option.some.inj h
    apply finish_covered hm hrun ⟨id, fun t ht => ht⟩
    exact fun hb => absurd hb (by simp [Job.Between, hj])

lemma exit_covered {ending : Ending} (hm : m.Covered)
    (h : (m.kernel.currentPcb.bind fun p =>
      if m.InUser p then some (m.begin (.exiting (.start p ending))) else none) = some m') :
    m'.Covered := by
  obtain ⟨p, hp, h⟩ := Option.bind_eq_some_iff.mp h
  split at h
  · obtain rfl := Option.some.inj h
    apply begin_covered hm
    simp [Job.InPlace, hp]
  · exact absurd h (by simp)

lemma step_covered {e : JobEvent} (hm : m.Covered) (h : m.step img e = some m') :
    m'.Covered := by
  cases e with
  | tick r => exact tick_covered hm h
  | switch target =>
    simp only [step] at h
    split at h
    · exact Option.some.inj h ▸ hm
    · exact Option.some.inj h ▸ begin_covered hm trivial
  | entry f =>
    simp only [step] at h
    split at h
    · exact call_covered (m := { m with booting := false }) ⟨hm.placed, hm.covered⟩ h
    · exact absurd h (by simp)
  | execute f command =>
    simp only [step] at h
    split at h
    · exact call_covered hm h
    · exact absurd h (by simp)
  | halt status => exact exit_covered hm h
  | fault num status => exact exit_covered hm h
  | run f =>
    obtain ⟨j, hrun, h⟩ := Option.bind_eq_some_iff.mp h
    exact runJob_covered hm hrun h

section Runs

variable {frames : TableFrames} {mem : Memory} {x y : ℕ} {es : List JobEvent}

/-- While no terminal is initialised, no tick comes between the statement that makes a process
current and the one that marks its terminal. -/
def Clear (m : Jobs) : JobEvent → Prop
  | .tick _ => (∀ t, m.kernel.initializedTerminals t = false) → ∀ j ∈ m.jobs, ¬j.Between
  | _ => True

/-- In every run from the boot whose ticks keep clear, a tick that calls `scheduler` finds an
initialised terminal, and returns. -/
theorem firstTick_run (h : Runs.Path (step img) Clear (start (boot frames mem x y)) es m)
    (r : Regs) (hclear : m.Clear (.tick r)) (hcalls : m.kernel.currentPcb.isSome = true) :
    ∃ t k, m.kernel.initializedTerminals t = true ∧ m.kernel.pitHandler r = some k := by
  have hm : m.Covered := by
    apply h.invariant (fun _ _ _ hm _ hs => step_covered hm hs)
    exact ⟨fun j hj => absurd hj (by simp [start]), fun hno => absurd rfl hno⟩
  obtain ⟨p, hp⟩ := Option.isSome_iff_exists.mp hcalls
  have hready : ∃ t, m.kernel.initializedTerminals t = true := by
    by_contra hno
    have hnone : ∀ t, m.kernel.initializedTerminals t = false :=
      fun t => Bool.eq_false_of_not_eq_true fun ht => hno ⟨t, ht⟩
    rcases hm.covered (by simp [hp]) with hinit | ⟨j, hj, hbetween⟩
    · exact hno hinit
    · exact hclear hnone j hj hbetween
  obtain ⟨t, ht⟩ := hready
  obtain ⟨k, hk⟩ := pitHandler_completes (r := r) hp ht
  exact ⟨t, k, ht, hk⟩

instance (m : Jobs) (e : JobEvent) : Decidable (m.Clear e) := by
  unfold Clear
  split <;> infer_instance

/-- `entry` calls `execute`, which runs through `n` of its statements. -/
def entryRun (n : ℕ) : List JobEvent := .entry bareFrame :: List.replicate n (.run bareFrame)

/-- The call of `entry` runs to its end before the first tick. -/
theorem firstTick_run_entry : ∃ m : Jobs, m.kernel.currentPcb.isSome = true ∧
    ∃ t k, m.kernel.initializedTerminals t = true ∧ m.kernel.pitHandler ⟨0, 0⟩ = some k := by
  have hend : (Runs.run (step shellImage) Clear (start (boot ⟨0, 0⟩ (fun _ => 0) 0 0))
      (entryRun 47)).map (fun m => (m.kernel.currentPcb.isSome,
        decide (m.Clear (.tick ⟨0, 0⟩)))) = some (true, true) := by
    decide +kernel
  obtain ⟨m, hrun, hm⟩ := Option.map_eq_some_iff.mp hend
  obtain ⟨hcalls, hclear⟩ := Prod.mk.injEq .. ▸ hm
  exact ⟨m, hcalls, firstTick_run (Runs.path_of_run hrun) ⟨0, 0⟩ (of_decide_eq_true hclear) hcalls⟩

/-- A tick right after the process has been made current never returns. -/
theorem first_tick_loops : ¬∀ (img : Image) (frames : TableFrames) (mem : Memory) (x y : ℕ)
    (es : List JobEvent) (m : Jobs) (r : Regs),
    Runs.Path (step img) (fun _ _ => True) (start (boot frames mem x y)) es m →
      m.kernel.currentPcb.isSome = true →
      ∃ t k, m.kernel.initializedTerminals t = true ∧ m.kernel.pitHandler r = some k := by
  intro h
  have hend : (Runs.run (step shellImage) (fun _ _ => True)
      (start (boot ⟨0, 0⟩ (fun _ => 0) 0 0)) (entryRun 43)).map (fun m =>
        (m.kernel.currentPcb, (List.finRange 3).map m.kernel.initializedTerminals)) =
      some (some 0, [false, false, false]) := by
    decide +kernel
  obtain ⟨m, hrun, hm⟩ := Option.map_eq_some_iff.mp hend
  obtain ⟨hcur, hinit⟩ := Prod.mk.injEq .. ▸ hm
  obtain ⟨t, k, ht, -⟩ := h _ _ _ _ _ _ m ⟨0, 0⟩ (Runs.path_of_run hrun) (by simp [hcur])
  have hmem : true ∈ (List.finRange 3).map m.kernel.initializedTerminals :=
    List.mem_map.mpr ⟨t, List.mem_finRange t, ht⟩
  rw [hinit] at hmem
  simp at hmem

end Runs

end Jobs

end HalOs
