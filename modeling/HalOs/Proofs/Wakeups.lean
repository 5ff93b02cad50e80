import HalOs.General.Runs
import HalOs.Model.RtcReads

/-!
# Interrupts and the readers of the RTC

A call of `rtc_read` never returns before its interrupt. That it sees the interrupt at its next
test depends on the others: a reset by another call in between takes the wake-up away, and
nothing else does.
-/

namespace HalOs

namespace RtcReaders

variable {m m' : RtcReaders} {e : RtcEvent} {p q : ℤ} {c : RtcCall}

/-- Process `q` waits, and its interrupt has been handled. -/
def Woken (m : RtcReaders) (q : ℤ) : Prop := m.calls q = some ⟨.test, true⟩

/-- The next test of every call whose interrupt has been handled finds the flag set. -/
def AllSeen (m : RtcReaders) : Prop := ∀ q, m.Woken q → m.rtcInterruptFlag ≠ 0

/-- The event is no reset of the flag while a call has still to see its interrupt. -/
def KeepsWakeups (m : RtcReaders) : RtcEvent → Prop
  | .run => ∀ p c, m.kernel.currentPcb = some p → m.calls p = some c → c.next = .reset →
      ∀ q, ¬m.Woken q
  | _ => True

/-- Only calls that have got their interrupt find the flag set, or have returned. -/
structure AfterInterrupts (m : RtcReaders) : Prop where
  waiting : m.rtcInterruptFlag ≠ 0 → ∀ q c, m.calls q = some c → c.next = .test → c.handled = true
  returned : ∀ r ∈ m.returned, r.2 = true

/-! ### Single events -/

lemma rtcHandler_ne_zero (flag : UInt32) : rtcHandler flag ≠ 0 := by
  unfold rtcHandler
  split_ifs with h
  · decide
  · exact h

/-- What an event does: the flag, the calls and the calls returned. -/
lemma step_cases (h : m.step e = some m') :
    (m'.rtcInterruptFlag = m.rtcInterruptFlag ∧ m'.calls = m.calls ∧ m'.returned = m.returned ∧
      m.KeepsWakeups e) ∨
    (e = .interrupt ∧ m'.rtcInterruptFlag ≠ 0 ∧
      m'.calls = (fun p => (m.calls p).map RtcCall.notice) ∧ m'.returned = m.returned) ∨
    (∃ p, e = .call ∧ m.calls p = none ∧ m'.rtcInterruptFlag = m.rtcInterruptFlag ∧
      m'.calls = Function.update m.calls p (some ⟨.reset, false⟩) ∧ m'.returned = m.returned) ∨
    (∃ p c, e = .run ∧ m.kernel.currentPcb = some p ∧ m.calls p = some c ∧ c.next = .reset ∧
      m'.rtcInterruptFlag = 0 ∧ m'.calls = Function.update m.calls p (some ⟨.test, false⟩) ∧
      m'.returned = m.returned) ∨
    (∃ p c, e = .run ∧ m.kernel.currentPcb = some p ∧ m.calls p = some c ∧ c.next = .test ∧
      m.rtcInterruptFlag ≠ 0 ∧ m'.rtcInterruptFlag = m.rtcInterruptFlag ∧
      m'.calls = Function.update m.calls p none ∧
      m'.returned = (p, c.handled) :: m.returned) := by
  cases e with
  | tick r =>
    obtain ⟨k, -, rfl⟩ := Option.map_eq_some_iff.mp h
    exact Or.inl ⟨rfl, rfl, rfl, trivial⟩
  | interrupt =>
    obtain rfl := Option.some.inj h
    exact Or.inr (Or.inl ⟨rfl, rtcHandler_ne_zero _, rfl, rfl⟩)
  | call =>
    obtain ⟨p, -, h⟩ := Option.bind_eq_some_iff.mp h
    split_ifs at h with hfree
    obtain rfl := Option.some.inj h
    exact Or.inr (Or.inr (Or.inl ⟨p, rfl, hfree, rfl, rfl, rfl⟩))
  | run =>
    obtain ⟨p, hp, h⟩ := Option.bind_eq_some_iff.mp h
    obtain ⟨c, hc, rfl⟩ := Option.map_eq_some_iff.mp h
    cases hnext : c.next with
    | reset =>
      refine Or.inr (Or.inr (Or.inr (Or.inl ⟨p, c, rfl, hp, hc, hnext, ?_, ?_, ?_⟩)))
      · simp only [exec, hnext]
      · simp only [exec, hnext, setCall]
      · simp only [exec, hnext, setCall]
    | test =>
      by_cases hflag : m.rtcInterruptFlag = 0
      · have hsame : m.exec p c = m := by simp only [exec, hnext, if_pos hflag]
        rw [hsame]
        refine Or.inl ⟨rfl, rfl, rfl, fun p' c' hp' hc' hreset => ?_⟩
        obtain rfl := Option.some.inj (hp.symm.trans hp')
        obtain rfl := Option.some.inj (hc.symm.trans hc')
        exact absurd (hnext.symm.trans hreset) (by decide)
      · refine Or.inr (Or.inr (Or.inr (Or.inr ⟨p, c, rfl, hp, hc, hnext, hflag, ?_, ?_, ?_⟩)))
        · simp only [exec, hnext, if_neg hflag, setCall]
        · simp only [exec, hnext, if_neg hflag, setCall]
        · simp only [exec, hnext, if_neg hflag]

lemma woken_congr (h : m'.calls = m.calls) : m'.Woken q ↔ m.Woken q := by
  unfold Woken
  rw [h]

/-- A call that has not reached its test with an interrupt handled may be replaced. -/
lemma woken_update {c' : Option RtcCall} (hcalls : m'.calls = Function.update m.calls p c')
    (hnew : c' ≠ some ⟨.test, true⟩) (hold : ¬m.Woken p) : m'.Woken q ↔ m.Woken q := by
  unfold Woken at hold ⊢
  rw [hcalls]
  by_cases hq : q = p
  · rw [hq, Function.update_self]
    exact iff_of_false hnew hold
  · rw [Function.update_of_ne hq]

/-- An event leaves all wake-ups to be seen exactly when it is no reset that takes one away. -/
lemma allSeen_step (hs : m.AllSeen) (h : m.step e = some m') : m'.AllSeen ↔ m.KeepsWakeups e := by
  rcases step_cases h with ⟨hflag, hcalls, -, hkeeps⟩ | ⟨rfl, hflag, -, -⟩ |
    ⟨p, rfl, hfree, hflag, hcalls, -⟩ | ⟨p, c, rfl, hp, hc, hnext, hflag, hcalls, -⟩ |
    ⟨p, c, rfl, hp, hc, hnext, hset, hflag, -, -⟩
  · refine iff_of_true (fun q hq => ?_) hkeeps
    rw [hflag]
    exact hs q ((woken_congr hcalls).mp hq)
  · exact iff_of_true (fun _ _ => hflag) trivial
  · have hold : ¬m.Woken p := fun hw => absurd (hfree.symm.trans hw) (by simp)
    refine iff_of_true (fun q hq => ?_) trivial
    rw [hflag]
    exact hs q ((woken_update hcalls (by simp) hold).mp hq)
  · have hold : ¬m.Woken p := by
      intro hw
      obtain rfl := Option.some.inj (hc.symm.trans hw)
      exact absurd hnext (by decide)
    have hsame : ∀ q, m'.Woken q ↔ m.Woken q := fun q => woken_update hcalls (by simp) hold
    constructor
    · intro hall p' c' hp' hc' hreset q hq
      exact hall q ((hsame q).mpr hq) hflag
    · intro hkeeps q hq
      exact absurd ((hsame q).mp hq) (hkeeps p c hp hc hnext q)
  · refine iff_of_true (fun _ _ => hflag ▸ hset) fun p' c' hp' hc' hreset => ?_
    obtain rfl := Option.some.inj (hp.symm.trans hp')
    obtain rfl := Option.some.inj (hc.symm.trans hc')
    exact absurd (hnext.symm.trans hreset) (by decide)

/-- No event lets a call through before its interrupt. -/
lemma afterInterrupts_step (hs : m.AfterInterrupts) (h : m.step e = some m') :
    m'.AfterInterrupts := by
  rcases step_cases h with ⟨hflag, hcalls, hreturned, -⟩ | ⟨-, -, hcalls, hreturned⟩ |
    ⟨p, -, -, hflag, hcalls, hreturned⟩ | ⟨p, c, -, -, -, -, hflag, -, hreturned⟩ |
    ⟨p, c, -, -, hc, hnext, hset, hflag, hcalls, hreturned⟩
  · constructor
    · rw [hflag, hcalls]
      exact hs.waiting
    · rw [hreturned]
      exact hs.returned
  · constructor
    · intro _ q c' hc' htest
      rw [hcalls] at hc'
      obtain ⟨c, -, rfl⟩ := Option.map_eq_some_iff.mp hc'
      cases hnext : c.next with
      | reset =>
        simp only [RtcCall.notice, hnext] at htest
        exact absurd htest (by decide)
      | test => simp only [RtcCall.notice, hnext]
    · rw [hreturned]
      exact hs.returned
  · constructor
    · intro hset q c' hc' htest
      rw [hflag] at hset
      rw [hcalls] at hc'
      by_cases hq : q = p
      · rw [hq, Function.update_self, Option.some.injEq] at hc'
        rw [← hc'] at htest
        exact absurd htest (by decide)
      · rw [Function.update_of_ne hq] at hc'
        exact hs.waiting hset q c' hc' htest
    · rw [hreturned]
      exact hs.returned
  · refine ⟨fun hset => absurd hflag hset, ?_⟩
    rw [hreturned]
    exact hs.returned
  · constructor
    · intro _ q c' hc' htest
      rw [hcalls] at hc'
      by_cases hq : q = p
      · rw [hq, Function.update_self] at hc'
        exact absurd hc' (by simp)
      · rw [Function.update_of_ne hq] at hc'
        exact hs.waiting hset q c' hc' htest
    · intro r hr
      rw [hreturned] at hr
      rcases List.mem_cons.mp hr with rfl | hr
      · exact hs.waiting hset p c hc hnext
      · exact hs.returned r hr

/-! ### Runs -/

lemma start_allSeen (k : Kernel) : (start k).AllSeen := fun _ hq => absurd hq (by simp [Woken, start])

lemma start_afterInterrupts (k : Kernel) : (start k).AfterInterrupts :=
  ⟨fun h => absurd rfl h, fun _ hr => absurd hr List.not_mem_nil⟩

/-- In every run each call that returned had its interrupt; and every call whose interrupt has
been handled finds the flag set at its next test, all along the run, exactly when no call resets
the flag while another has still to see its interrupt. -/
theorem wakeups_run {k : Kernel} {es : List RtcEvent}
    (hrun : Runs.Path step (fun _ _ => True) (start k) es m) :
    (∀ r ∈ m.returned, r.2 = true) ∧
      (Runs.Always step AllSeen (start k) es m ↔ Runs.Path step KeepsWakeups (start k) es m) := by
  have hafter : m.AfterInterrupts :=
    hrun.invariant (fun _ _ _ hs _ hstep => afterInterrupts_step hs hstep)
      (start_afterInterrupts k)
  exact ⟨hafter.returned,
    Runs.always_iff hrun (fun _ _ _ hs hstep => allSeen_step hs hstep) (start_allSeen k)⟩

/-- A call whose interrupt has been handled and is still to be seen returns at its next test. -/
lemma Woken.returns (h : m.Woken p) (hp : m.kernel.currentPcb = some p)
    (hset : m.rtcInterruptFlag ≠ 0) : ∃ m', m.step .run = some m' ∧ m'.calls p = none ∧
      (p, true) ∈ m'.returned := by
  have hcall : m.calls p = some ⟨.test, true⟩ := h
  refine ⟨m.exec p ⟨.test, true⟩, ?_, ?_, ?_⟩
  · simp only [step, hp, hcall, Option.bind_some, Option.map_some]
  · simp only [exec, if_neg hset, setCall, Function.update_self]
  · simp only [exec, if_neg hset, List.mem_cons_self]

/-- The shell of terminal 1 reads the RTC, and that of terminal 0 after it. -/
def readsInTurn : List RtcEvent :=
  [.call, .run, .interrupt, .run, .tick ⟨0, 0⟩, .call, .run, .interrupt, .run]

/-- The shell of terminal 1 waits and gets its interrupt; before it runs again, the shell of
terminal 0 begins a read. -/
def crossedReads : List RtcEvent := [.call, .run, .interrupt, .tick ⟨0, 0⟩, .call, .run]

/-- Reads in turn return with their interrupts; reads that cross do not keep the wake-ups. -/
theorem wakeups_run_one : ∃ k m m', Runs.Path step (fun _ _ => True) (start k) readsInTurn m ∧
    m.returned.length = 2 ∧ (∀ r ∈ m.returned, r.2 = true) ∧
    Runs.Path step (fun _ _ => True) (start k) crossedReads m' ∧
    ¬Runs.Path step KeepsWakeups (start k) crossedReads m' := by
  have hend : ((Kernel.boot ⟨0, 0⟩ (fun _ => 0) 0 0).execute shellImage bareFrame
      shellCommand).bind (fun r => (r.1.pitHandler ⟨0, 0⟩).bind fun u =>
        (u.terminalSwitch shellImage bareFrame 1).bind fun k =>
        (Runs.run step (fun _ _ => True) (start k) readsInTurn).bind fun m =>
        (Runs.run step (fun _ _ => True) (start k) crossedReads).map fun m' =>
          (m.returned.length, decide (m'.calls 1 = some ⟨.test, true⟩ ∧
            m'.rtcInterruptFlag = 0))) = some (2, true) := by
    decide +kernel
  obtain ⟨_, -, hend⟩ := Option.bind_eq_some_iff.mp hend
  obtain ⟨_, -, hend⟩ := Option.bind_eq_some_iff.mp hend
  obtain ⟨k, -, hend⟩ := Option.bind_eq_some_iff.mp hend
  obtain ⟨m, hturn, hend⟩ := Option.bind_eq_some_iff.mp hend
  obtain ⟨m', hcrossed, hend⟩ := Option.map_eq_some_iff.mp hend
  obtain ⟨hlength, hlost⟩ := Prod.mk.inj hend
  obtain ⟨hwoken, hflag⟩ := of_decide_eq_true hlost
  have hturn := Runs.path_of_run hturn
  have hcrossed := Runs.path_of_run hcrossed
  refine ⟨k, m, m', hturn, hlength, (wakeups_run hturn).1, hcrossed, fun hkeeps => ?_⟩
  obtain ⟨-, hseen⟩ := (wakeups_run hcrossed).2.mpr hkeeps
  exact hseen 1 hwoken hflag

/-- The wake-up of the first reader is taken away by the reset of the second. -/
theorem reset_loses_wakeup : ¬∀ (img : Image) (frames : TableFrames) (mem : Memory) (x y : ℕ)
    (f : CallFrame) (r : Regs) (command : List UInt8) (k u k' : Kernel) (pid : ℤ)
    (es : List RtcEvent) (m : RtcReaders),
    (Kernel.boot frames mem x y).execute img f command = some (k, some pid) →
      k.pitHandler r = some u → u.terminalSwitch img f 1 = some k' →
      Runs.Path step (fun _ _ => True) (start k') es m → m.AllSeen := by
  intro h
  have hend : ((Kernel.boot ⟨0, 0⟩ (fun _ => 0) 0 0).execute shellImage bareFrame
      shellCommand).bind (fun r => (r.1.pitHandler ⟨0, 0⟩).bind fun u =>
        (u.terminalSwitch shellImage bareFrame 1).bind fun k =>
        (Runs.run step (fun _ _ => True) (start k) crossedReads).map fun m =>
          (r.2, decide (m.calls 1 = some ⟨.test, true⟩ ∧ m.rtcInterruptFlag = 0))) =
      some (some 0, true) := by
    decide +kernel
  obtain ⟨⟨k, pid⟩, hstart, hend⟩ := Option.bind_eq_some_iff.mp hend
  obtain ⟨u, htick, hend⟩ := Option.bind_eq_some_iff.mp hend
  obtain ⟨k', hswitch, hend⟩ := Option.bind_eq_some_iff.mp hend
  obtain ⟨m, hrun, hend⟩ := Option.map_eq_some_iff.mp hend
  obtain ⟨rfl, hlost⟩ := Prod.mk.injEq .. ▸ hend
  obtain ⟨hwoken, hflag⟩ := of_decide_eq_true hlost
  exact h _ _ _ _ _ _ ⟨0, 0⟩ _ k u k' 0 _ m hstart htick hswitch (Runs.path_of_run hrun) 1 hwoken
    hflag

end RtcReaders

end HalOs
