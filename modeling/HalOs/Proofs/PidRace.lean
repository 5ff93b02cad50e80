import HalOs.Model.Calls
import HalOs.Proofs.LoadRace

/-!
# Process ids of concurrent calls

`execute` chooses a process id long before it marks it in use, and takes the number of the
active terminal for an id whoever calls it. Ids stay apart as long as no call chooses between
another's choice and its mark, and only the first shell of a terminal takes the number.
-/

namespace HalOs

namespace Machine

open Kernel

/-- The call has been given the id and not yet come to the statement. -/
def Pending (s : Stmt) (p : ℤ) (c : Call) : Prop := c.chosen = some p ∧ s ∈ c.rest

/-- `done` holds of the id, or will when a call in progress comes to the statement. -/
def Due (m : Machine) (s : Stmt) (p : ℤ) (done : Prop) : Prop :=
  done ∨ ∃ c ∈ m.calls, Pending s p c

structure Sound (m : Machine) : Prop where
  nodup : m.live.Nodup
  bounds : ∀ p ∈ m.live, 0 ≤ p ∧ p < numPids
  logged : ∀ p ∈ m.live, ∃ caller, (p, caller) ∈ m.given
  bases : ∀ e ∈ m.given, e.1 < maxTerminals → ∃ t, e = (baseShell t, .shell t)
  used : ∀ p ∈ m.live, m.Due .markInUse p ((m.kernel.pcbs p).inUse = 1)
  reserved : ∀ t, m.Due .markInUse (baseShell t) ((m.kernel.pcbs (baseShell t)).inUse = 1)
  ids : ∀ p ∈ m.live, m.Due .setProcessId p ((m.kernel.pcbs p).processId = p)

/-- No call in progress holds an id that is not marked in use. -/
def Marked (m : Machine) : Prop := ∀ c ∈ m.calls, ∀ p ∈ c.chosen, (m.kernel.pcbs p).inUse = 1

/-- The call may choose now: every id given out is marked; or, when the active terminal has no
shell, the call is for the shell of that terminal and is the first to choose its id. -/
def MayChoose (m : Machine) (caller : Caller) : Prop :=
  if m.kernel.initializedTerminals m.kernel.activeTerminal then m.Marked
  else caller = .shell m.kernel.activeTerminal ∧
    ∀ e ∈ m.given, e.1 ≠ baseShell m.kernel.activeTerminal

/-- Whoever chooses an id may do so. A base shell halts only where its successor may. -/
def Ordered (m : Machine) : Move → Prop
  | .run => ∀ c ∈ m.running, c.chosen = none → m.MayChoose c.caller
  | .halt _ => ∀ p ∈ m.kernel.currentPcb, (m.kernel.pcbs p).processId < maxTerminals →
      m.kernel.initializedTerminals m.kernel.activeTerminal = true ∧ m.Marked
  | _ => True

/-- Two processes that share neither a PCB, nor a kernel stack, nor an address of their
frames. -/
def Apart (p q : ℤ) : Prop :=
  p ≠ q ∧ kernelStack p ≠ kernelStack q ∧ ∀ addr, InFrame p addr → ¬InFrame q addr

section Calls

variable {img : Image} {m m' : Machine} {k : Kernel} {c : Call} {caller : Caller} {f : CallFrame}
  {a : Activation} {s : Stmt} {p pid : ℤ} {done done' : Prop}

lemma find_mem_iff {α : Type*} {l : List α} {q : α → Bool} {x : α} (h : l.find? q = some x)
    (y : α) : y ∈ l ↔ y = x ∨ y ∈ l.eraseP q := by
  obtain ⟨hx, before, after, rfl, hbefore⟩ := List.find?_eq_some_iff_append.mp h
  have herase : (before ++ x :: after).eraseP q = before ++ after := by
    rw [List.eraseP_append_right _ (by simpa using hbefore), List.eraseP_cons_of_pos hx]
  rw [herase]
  simp only [List.mem_append, List.mem_cons]
  tauto

lemma mem_calls (h : m.running = some c) (d : Call) : d ∈ m.calls ↔ d = c ∨ d ∈ m.waiting :=
  find_mem_iff h d

/-! ### What a statement does to the ids -/

lemma exec_inUse {x y : ExecState} (h : a.exec s x = some y) {q : ℤ}
    (hq : (x.kernel.pcbs q).inUse = 1) : (y.kernel.pcbs q).inUse = 1 :=
  (exec_effect h).inUse hq

lemma markInUse_inUse {x y : ExecState} (h : a.exec .markInUse x = some y) :
    (y.kernel.pcbs a.pid).inUse = 1 := by
  obtain rfl := Option.some.inj h
  simp [setPcb]

lemma setProcessId_processId {x y : ExecState} (h : a.exec .setProcessId x = some y) :
    (y.kernel.pcbs a.pid).processId = a.pid := by
  rw [(exec_cases h).2.2, if_pos ⟨rfl, rfl⟩]

lemma exec_processId {x y : ExecState} (h : a.exec s x = some y) {q : ℤ}
    (hq : (x.kernel.pcbs q).processId = q) : (y.kernel.pcbs q).processId = q := by
  rw [(exec_cases h).2.2]
  split
  · rename_i hc
    exact hc.2.symm
  · exact hq

/-! ### What is due stays due -/

lemma Due.mono (h : m.Due s p done) (hdone : done → done') (hcalls : ∀ c ∈ m.calls, c ∈ m'.calls) :
    m'.Due s p done' := by
  rcases h with hd | ⟨c, hc, hp⟩
  · exact Or.inl (hdone hd)
  · exact Or.inr ⟨c, hcalls c hc, hp⟩

/-- The running call takes the statement off what is due and does it. -/
lemma Due.advance {t : Stmt} (h : m.Due s p done) (hrun : m.running = some c)
    (hchosen : c.chosen = some pid) {rest : List Stmt} (hrest : c.rest = t :: rest)
    (c' : Call) (hchosen' : c'.chosen = some pid) (hrest' : c'.rest = rest)
    (hcalls : m'.calls = if rest = [] then m.waiting else c' :: m.waiting)
    (hkeep : done → done') (hdo : t = s → p = pid → done') : m'.Due s p done' := by
  rcases h with hd | ⟨d, hd, hp, hs⟩
  · exact Or.inl (hkeep hd)
  · rcases (mem_calls hrun d).mp hd with rfl | hwait
    · have hpid : p = pid := Option.some.inj (hp.symm.trans hchosen)
      rw [hrest] at hs
      rcases List.mem_cons.mp hs with rfl | hs
      · exact Or.inl (hdo rfl hpid)
      · have hne : rest ≠ [] := List.ne_nil_of_mem hs
        refine Or.inr ⟨c', ?_, hchosen'.trans (hpid ▸ rfl), hrest' ▸ hs⟩
        rw [hcalls, if_neg hne]
        exact List.mem_cons_self
    · refine Or.inr ⟨d, ?_, hp, hs⟩
      rw [hcalls]
      split
      · exact hwait
      · exact List.mem_cons_of_mem _ hwait

/-! ### The choice of an id -/

lemma Due.of_marked (h : m.Due s p ((m.kernel.pcbs p).inUse = 1)) (hm : m.Marked) :
    (m.kernel.pcbs p).inUse = 1 := by
  rcases h with hd | ⟨c, hc, hp, -⟩
  · exact hd
  · exact hm c hc p hp

/-- An id chosen when it may be is new, and a small one is that of a base shell. -/
lemma choosePid_new (hm : m.Sound) (hmay : m.MayChoose caller)
    (h : m.kernel.choosePid = some pid) : pid ∉ m.live ∧ (0 ≤ pid ∧ pid < numPids) ∧
      (pid < maxTerminals → ∃ t, pid = baseShell t ∧ caller = .shell t) := by
  refine ⟨?_, (choosePid_fresh h).1, ?_⟩ <;> unfold MayChoose at hmay
  · intro hlive
    split at hmay
    · rename_i hi
      have hchosen := choosePid_chosen (fun t => (hm.reserved t).of_marked hmay) h
      rcases hchosen with ⟨hno, -⟩ | ⟨-, hlow, -, hfree⟩
      · exact absurd (hno.symm.trans hi) (by simp)
      · apply hfree
        refine ⟨(hm.used pid hlive).of_marked hmay, fun t ht => ?_⟩
        have hlt : pid < maxTerminals := by
          rw [ht]
          exact baseShell_lt t
        exact absurd hlow (not_le.mpr hlt)
    · rename_i hi
      have hpid : pid = baseShell m.kernel.activeTerminal := by
        simp only [choosePid, if_neg hi] at h
        exact (Option.some.inj h).symm
      obtain ⟨caller', hgiven⟩ := hm.logged pid hlive
      exact hmay.2 _ hgiven hpid
  · intro hlt
    split at hmay
    · rename_i hi
      have hchosen := choosePid_chosen (fun t => (hm.reserved t).of_marked hmay) h
      rcases hchosen with ⟨hno, -⟩ | ⟨-, hlow, -, -⟩
      · exact absurd (hno.symm.trans hi) (by simp)
      · exact absurd hlt (not_lt.mpr hlow)
    · rename_i hi
      simp only [choosePid, if_neg hi] at h
      exact ⟨m.kernel.activeTerminal, (Option.some.inj h).symm, hmay.1⟩

lemma give_sound (hm : m.Sound) (hfresh : pid ∉ m.live) (hbounds : 0 ≤ pid ∧ pid < numPids)
    (hbase : pid < maxTerminals → ∃ t, pid = baseShell t ∧ c.caller = .shell t) :
    (m.give c pid).Sound := by
  have hmono : ∀ {s p done}, m.Due s p done → (m.give c pid).Due s p done :=
    fun h => h.mono id fun _ hc => List.mem_cons_of_mem _ hc
  have hnew : ∀ {s done}, s ∈ (c.activation pid).body → (m.give c pid).Due s pid done :=
    fun hs => Or.inr ⟨_, List.mem_cons_self, rfl, hs⟩
  refine ⟨List.nodup_cons.mpr ⟨hfresh, hm.nodup⟩, fun p hp => ?_, fun p hp => ?_, fun e he => ?_,
    fun p hp => ?_, fun t => hmono (hm.reserved t), fun p hp => ?_⟩
  · rcases List.mem_cons.mp hp with rfl | hp
    · exact hbounds
    · exact hm.bounds p hp
  · rcases List.mem_cons.mp hp with rfl | hp
    · exact ⟨c.caller, List.mem_cons_self⟩
    · obtain ⟨caller, hc⟩ := hm.logged p hp
      exact ⟨caller, List.mem_cons_of_mem _ hc⟩
  · intro hlt
    rcases List.mem_cons.mp he with rfl | he
    · obtain ⟨t, ht, hc⟩ := hbase hlt
      exact ⟨t, Prod.ext ht hc⟩
    · exact hm.bases e he hlt
  · rcases List.mem_cons.mp hp with rfl | hp
    · exact hnew (by simp [Activation.body, Activation.installation])
    · exact hmono (hm.used p hp)
  · rcases List.mem_cons.mp hp with rfl | hp
    · exact hnew (by simp [Activation.body, Activation.installation])
    · exact hmono (hm.ids p hp)

/-! ### One step -/

/-- A change that no PCB sees, and that no call holding an id is lost by. -/
lemma Sound.congr (hm : m.Sound) (hlive : m'.live = m.live) (hgiven : m'.given = m.given)
    (huse : ∀ p, (m'.kernel.pcbs p).inUse = (m.kernel.pcbs p).inUse)
    (hid : ∀ p, (m'.kernel.pcbs p).processId = (m.kernel.pcbs p).processId)
    (hcalls : ∀ s p done, m.Due s p done → m'.Due s p done) : m'.Sound := by
  refine ⟨?_, fun p hp => ?_, fun p hp => ?_, fun e he => ?_, fun p hp => ?_, fun t => ?_,
    fun p hp => ?_⟩
  · rw [hlive]
    exact hm.nodup
  · rw [hlive] at hp
    exact hm.bounds p hp
  · rw [hlive] at hp
    rw [hgiven]
    exact hm.logged p hp
  · rw [hgiven] at he
    exact hm.bases e he
  · rw [hlive] at hp
    rw [huse]
    exact hcalls _ _ _ (hm.used p hp)
  · rw [huse]
    exact hcalls _ _ _ (hm.reserved t)
  · rw [hlive] at hp
    rw [hid]
    exact hcalls _ _ _ (hm.ids p hp)

lemma tick_sound {r : Regs} (hm : m.Sound) (h : m.kernel.pitHandler r = some k) :
    ({ m with kernel := k } : Machine).Sound := by
  unfold pitHandler at h
  split at h
  · obtain ⟨p, next, -, -, rfl⟩ := scheduler_cases h
    refine hm.congr rfl rfl (fun q => ?_) (fun q => ?_) fun _ _ _ hd => hd
    · exact congrArg (fun pcb => pcb.inUse) (saved_pcbs p q)
    · exact congrArg (fun pcb => pcb.processId) (saved_pcbs p q)
  · obtain rfl := Option.some.inj h
    exact hm

lemma call_sound {command : List UInt8} (hm : m.Sound) (h : m.call img caller f command = some m') :
    m'.Sound := by
  obtain ⟨accepted, -, rfl⟩ := Option.map_eq_some_iff.mp h
  cases accepted with
  | none => exact hm
  | some program =>
    refine hm.congr rfl rfl (fun _ => rfl) (fun _ => rfl) fun _ _ _ hd => hd.mono id ?_
    exact fun _ hc => List.mem_cons_of_mem _ hc

lemma switch_sound {target : Fin 3} (hm : m.Sound) (h : m.switch img f target = some m') :
    m'.Sound := by
  unfold switch at h
  split at h
  · exact Option.some.inj h ▸ hm
  · have hmoved : ({ m with kernel := m.kernel.switchScreens target } : Machine).Sound := by
      refine hm.congr rfl rfl (fun q => ?_) (fun q => ?_) fun _ _ _ hd => hd
      · rw [switchScreens_eq]
      · rw [switchScreens_eq]
    dsimp only at h
    split at h
    · exact Option.some.inj h ▸ hmoved
    · exact call_sound hmoved h

lemma Due.of_waiting (h : m.Due s p done) (hrun : m.running = some c) (hno : c.chosen = none) :
    ({ m with calls := m.waiting } : Machine).Due s p done := by
  rcases h with hd | ⟨d, hd, hp, hs⟩
  · exact Or.inl hd
  · rcases (mem_calls hrun d).mp hd with rfl | hwait
    · exact absurd (hno.symm.trans hp) (by simp)
    · exact Or.inr ⟨d, hwait, hp, hs⟩

lemma choose_sound (hm : m.Sound) (hrun : m.running = some c) (hno : c.chosen = none)
    (hmay : m.MayChoose c.caller) : (m.choose c).Sound := by
  have hdropped : ({ m with calls := m.waiting } : Machine).Sound :=
    hm.congr rfl rfl (fun _ => rfl) (fun _ => rfl) fun _ _ _ hd => hd.of_waiting hrun hno
  unfold choose
  dsimp only
  cases hpid : m.kernel.choosePid with
  | none => exact hdropped
  | some pid =>
    obtain ⟨hfresh, hbounds, hbase⟩ := choosePid_new hm hmay hpid
    exact give_sound hdropped hfresh hbounds hbase

lemma advance_sound (hm : m.Sound) (hrun : m.running = some c) (hchosen : c.chosen = some pid)
    (h : m.advance c pid = some m') : m'.Sound := by
  unfold advance at h
  cases hrest : c.rest with
  | nil =>
    rw [hrest] at h
    exact absurd h (by simp)
  | cons s rest =>
    rw [hrest] at h
    obtain ⟨x, hx, rfl⟩ := Option.map_eq_some_iff.mp h
    let c' : Call := { c with holder := x.kernel.currentPcb, rest := rest, first := x.first }
    refine ⟨hm.nodup, hm.bounds, hm.logged, hm.bases, fun p hp => ?_, fun t => ?_, fun p hp => ?_⟩
    · apply (hm.used p hp).advance hrun hchosen hrest c' hchosen rfl rfl (exec_inUse hx)
      rintro rfl rfl
      exact markInUse_inUse hx
    · apply (hm.reserved t).advance hrun hchosen hrest c' hchosen rfl rfl (exec_inUse hx)
      rintro rfl ht
      rw [ht]
      exact markInUse_inUse hx
    · apply (hm.ids p hp).advance hrun hchosen hrest c' hchosen rfl rfl (exec_processId hx)
      rintro rfl rfl
      exact setProcessId_processId hx

lemma run_sound (hm : m.Sound) (hg : m.Ordered .run) (h : m.run = some m') : m'.Sound := by
  obtain ⟨c, hrun, h⟩ := Option.bind_eq_some_iff.mp h
  cases hc : c.chosen with
  | none =>
    simp only [hc] at h
    exact Option.some.inj h ▸ choose_sound hm hrun hc (hg c hrun hc)
  | some pid =>
    simp only [hc] at h
    exact advance_sound hm hrun hc h

/-! ### The end of a process -/

lemma InUser.processId (hm : m.Sound) (hp : m.InUser p) : (m.kernel.pcbs p).processId = p := by
  rcases hm.ids p hp.2.1 with hid | ⟨c, hc, hchosen, -⟩
  · exact hid
  · exact absurd hchosen (hp.2.2 c hc).2

lemma spared (hm : m.Sound) (hother : ∀ q, q ≠ p → k.pcbs q = m.kernel.pcbs q) :
    ∀ q ∈ m.live.erase p, q ∈ m.live ∧ k.pcbs q = m.kernel.pcbs q := by
  intro q hq
  obtain ⟨hne, hq⟩ := (List.Nodup.mem_erase_iff hm.nodup).mp hq
  exact ⟨hq, hother q hne⟩

lemma ended_sound (hm : m.Sound) (hlow : (maxTerminals : ℤ) ≤ p)
    (hother : ∀ q, q ≠ p → k.pcbs q = m.kernel.pcbs q) :
    ({ m with kernel := k, live := m.live.erase p } : Machine).Sound := by
  have hold := spared hm hother
  refine ⟨hm.nodup.erase p, fun q hq => hm.bounds q (hold q hq).1,
    fun q hq => hm.logged q (hold q hq).1, hm.bases, fun q hq => ?_, fun t => ?_, fun q hq => ?_⟩
  · have hd := hm.used q (hold q hq).1
    rwa [← (hold q hq).2] at hd
  · have hne : baseShell t ≠ p := by
      have hlt := baseShell_lt t
      omega
    have hd := hm.reserved t
    rwa [← hother _ hne] at hd
  · have hd := hm.ids q (hold q hq).1
    rwa [← (hold q hq).2] at hd

lemma relaunched_sound {t : Fin 3} (hm : m.Sound) (hp : baseShell t ∈ m.live)
    (hother : ∀ q, q ≠ baseShell t → k.pcbs q = m.kernel.pcbs q) (hc : c.caller = .shell t) :
    (({ m with kernel := k, live := m.live.erase (baseShell t) } : Machine).give c
      (baseShell t)).Sound := by
  have hold := spared hm hother
  have hnew : ∀ {s : Stmt} {done : Prop}, s ∈ (c.activation (baseShell t)).body →
      (({ m with kernel := k, live := m.live.erase (baseShell t) } : Machine).give c
        (baseShell t)).Due s (baseShell t) done :=
    fun hs => Or.inr ⟨_, List.mem_cons_self, rfl, hs⟩
  refine ⟨List.nodup_cons.mpr ⟨hm.nodup.not_mem_erase, hm.nodup.erase _⟩, fun q hq => ?_,
    fun q hq => ?_, fun e he => ?_, fun q hq => ?_, fun u => ?_, fun q hq => ?_⟩
  · rcases List.mem_cons.mp hq with rfl | hq
    · exact hm.bounds _ hp
    · exact hm.bounds q (hold q hq).1
  · rcases List.mem_cons.mp hq with rfl | hq
    · exact ⟨c.caller, List.mem_cons_self⟩
    · obtain ⟨caller, hlog⟩ := hm.logged q (hold q hq).1
      exact ⟨caller, List.mem_cons_of_mem _ hlog⟩
  · intro hlt
    rcases List.mem_cons.mp he with rfl | he
    · exact ⟨t, Prod.ext rfl hc⟩
    · exact hm.bases e he hlt
  · rcases List.mem_cons.mp hq with rfl | hq
    · exact hnew (by simp [Activation.body, Activation.installation])
    · apply (hm.used q (hold q hq).1).mono _ fun _ hd => List.mem_cons_of_mem _ hd
      intro huse
      exact (congrArg Pcb.inUse (hold q hq).2).trans huse
  · by_cases hu : baseShell u = baseShell t
    · rw [hu]
      exact hnew (by simp [Activation.body, Activation.installation])
    · apply (hm.reserved u).mono _ fun _ hd => List.mem_cons_of_mem _ hd
      intro huse
      exact (congrArg Pcb.inUse (hother _ hu)).trans huse
  · rcases List.mem_cons.mp hq with rfl | hq
    · exact hnew (by simp [Activation.body, Activation.installation])
    · apply (hm.ids q (hold q hq).1).mono _ fun _ hd => List.mem_cons_of_mem _ hd
      intro hid
      exact (congrArg Pcb.processId (hold q hq).2).trans hid

lemma toParent_pcbs_of_ne {q : ℤ} (hq : q ≠ p) : ((k.release p).toParent p).pcbs q = k.pcbs q := by
  simp [toParent, forgetIds, setPcb, setTerminal, release, hq]

lemma halt_sound (hm : m.Sound) (hg : m.Ordered (.halt f)) (h : m.halt img f = some m') :
    m'.Sound := by
  obtain ⟨p, hp, h⟩ := Option.bind_eq_some_iff.mp h
  by_cases huser : m.InUser p
  · rw [if_pos huser] at h
    have hid := huser.processId hm
    simp only [release_processId, hid] at h
    by_cases hlt : p < maxTerminals
    · rw [if_pos hlt] at h
      obtain ⟨accepted, -, h⟩ := Option.bind_eq_some_iff.mp h
      obtain ⟨program, -, h⟩ := Option.bind_eq_some_iff.mp h
      obtain ⟨pid, hpid, rfl⟩ := Option.map_eq_some_iff.mp h
      obtain ⟨hactive, hmarked⟩ := hg p hp (by rwa [hid])
      have hbase : p = baseShell (Fin.ofNat 3 p.toNat) := by
        obtain ⟨hlow, -⟩ := hm.bounds p huser.2.1
        simp only [maxTerminals, Nat.cast_ofNat] at hlt
        simp only [baseShell, Fin.val_ofNat]
        omega
      have hself := relaunching_choosePid_self (s := Fin.ofNat 3 p.toNat)
        (fun t => (hm.reserved t).of_marked hmarked) hactive
      rw [← hbase] at hself
      obtain rfl : p = pid := Option.some.inj (hself.symm.trans hpid)
      have hother : ∀ q, q ≠ p →
          ((m.kernel.release p).relaunching p).pcbs q = m.kernel.pcbs q :=
        fun q hq => relaunching_pcbs_of_ne hq
      have hlive := huser.2.1
      generalize Fin.ofNat 3 p.toNat = t at *
      subst hbase
      exact relaunched_sound hm hlive hother rfl
    · rw [if_neg hlt] at h
      obtain rfl := Option.some.inj h
      exact ended_sound hm (not_lt.mp hlt) fun q hq => toParent_pcbs_of_ne hq
  · rw [if_neg huser] at h
    exact absurd h (by simp)

lemma step_sound {e : Move} (hm : m.Sound) (hg : m.Ordered e) (h : m.step img e = some m') :
    m'.Sound := by
  cases e with
  | tick r =>
    obtain ⟨k, hk, rfl⟩ := Option.map_eq_some_iff.mp h
    exact tick_sound hm hk
  | switch target f => exact switch_sound hm h
  | call f command =>
    simp only [step] at h
    split at h
    · exact call_sound hm h
    · exact absurd h (by simp)
  | run => exact run_sound hm hg h
  | halt f => exact halt_sound hm hg h

lemma start_sound {frames : TableFrames} {mem : Memory} {x y : ℕ} {command : List UInt8}
    (h : (boot frames mem x y).execute img f command = some (k, some pid)) : (start k).Sound := by
  rcases execute_cases h with ⟨hno, -⟩ | ⟨a, mem', hpid, -, -, -, hdone⟩
  · exact absurd hno (by simp)
  have ha : a.pid = 0 := (Option.some.inj hpid).symm
  have hactive : ((boot frames mem x y).installed a mem').activeTerminal = 0 := if_pos ha
  rcases hdone with ⟨rfl, -⟩ | ⟨-, hwait, -⟩
  · have huse : ∀ t, (((boot frames mem x y).installed a mem').pcbs (baseShell t)).inUse = 1 := by
      intro t
      simp only [installed, installedPcbs, ha, true_and]
      split
      · rfl
      · rename_i h0
        have hlt := t.isLt
        have hnext : baseShell t = 1 ∨ baseShell t = 2 := by
          unfold baseShell at h0 ⊢
          omega
        rw [if_pos hnext]
    refine ⟨by simp [start], ?_, ?_, ?_, ?_, fun t => Or.inl (huse t), ?_⟩ <;>
      simp only [start, List.mem_singleton, forall_eq]
    · decide
    · exact ⟨_, rfl⟩
    · exact fun _ => ⟨0, rfl⟩
    · exact Or.inl (huse 0)
    · refine Or.inl ?_
      simp only [installed]
      rw [← ha, installedPcbs_processId]
  · exact absurd hactive hwait

end Calls

/-! ### Two shells start a program each -/

section Races

open Kernel

instance (m : Machine) : Decidable m.Marked := by
  unfold Marked
  infer_instance

instance (m : Machine) (caller : Caller) : Decidable (m.MayChoose caller) := by
  unfold MayChoose
  infer_instance

instance (m : Machine) (e : Move) : Decidable (m.Ordered e) := by
  cases e <;> unfold Ordered <;> infer_instance

end Races

end Machine

end HalOs
