import HalOs.Model.Readers
import HalOs.Proofs.LineEditor

/-!
# What `terminal_read` delivers

A call of `terminal_read` looks up the active terminal at each statement, so that it may clear
the flag and take the line of a terminal other than its own. It gets its own line if its
terminal is the active one from the test that finds the flag set up to the return, and nothing
touches the end of the line while the newline is added and the bytes are copied.
-/

namespace HalOs

/-- The statements that follow a test that has found the enter flag set. -/
def ReadStmt.late : ReadStmt → Bool
  | .clearEnter | .testWrapped | .lineDown | .home | .addNewline | .countNewline | .testMore
  | .copyByte | .finish => true
  | _ => false

/-- `update_kb_buffer` changes the line. -/
def Kernel.takesKey (k : Kernel) (c : UInt8) : Prop :=
  c ≠ newlineAscii ∧ (k.terminals k.activeTerminal).enterFlag = false ∧
    (c = backspaceAscii ∨ (k.terminals k.activeTerminal).currentChar < maxBufferLength - 1)

instance (k : Kernel) (c : UInt8) : Decidable (k.takesKey c) := by
  unfold Kernel.takesKey
  infer_instance

namespace Readers

/-- A call of terminal `t`, whose line has `n` bytes with the given origins, has taken and will
take bytes typed there only. -/
structure Own (t : Fin 3) (n : ℕ) (cells : ℕ → Option (Fin 3)) (r : Reader) : Prop where
  copied : ∀ j < r.i, r.source j = some t
  entered : r.next.late = true → r.entered = some t
  counted : r.next = .countNewline → cells n = some t
  copying : r.next = .copyByte → r.i < n
  done : r.next = .finish → n ≤ r.i

/-- The length of a terminal's line. -/
def count (m : Readers) (t : Fin 3) : ℕ := (m.kernel.terminals t).currentChar

structure Sound (m : Readers) : Prop where
  cells : ∀ t, ∀ i < m.count t, m.origin t i = some t
  calls : ∀ t, ∀ r ∈ m.calls t, Own t (m.count t) (m.origin t) r
  cleared : ∀ e ∈ m.cleared, e.2 = e.1
  returned : ∀ e ∈ m.returned, ∀ b ∈ e.2, b.2 = some e.1

/-- A call that has found the flag set, or is about to, has its terminal active. While it adds
the newline no key changes its line and no other call ends the line there; between the test for
more bytes and what follows it, no key takes the byte away or adds another. -/
def Attended (m : Readers) : ReadEvent → Prop
  | .run => ∀ r ∈ m.calls m.kernel.scheduledTerminal,
      (r.next.late = true ∨ (r.next = .testEnter ∧
          (m.kernel.terminals m.kernel.activeTerminal).enterFlag = true) →
        m.kernel.activeTerminal = m.kernel.scheduledTerminal) ∧
      (r.next = .terminate → ∀ q ∈ m.calls m.kernel.activeTerminal, q.next ≠ .countNewline)
  | .key c => m.kernel.takesKey c → ∀ r ∈ m.calls m.kernel.activeTerminal,
      r.next ≠ .countNewline ∧
      (r.next = .copyByte → c = backspaceAscii → r.i + 1 < m.count m.kernel.activeTerminal) ∧
      (r.next = .finish → c = backspaceAscii)
  | _ => True

instance (m : Readers) (e : ReadEvent) : Decidable (m.Attended e) := by
  cases e <;> unfold Attended <;> infer_instance

section Reads

variable {img : Image} {m m' : Readers} {k k' : Kernel} {r q : Reader} {t u : Fin 3} {n n' : ℕ}
  {cells cells' : ℕ → Option (Fin 3)} {f : CallFrame} {target : Fin 3}

/-! ### Handlers that leave the lines alone -/

lemma pitHandler_currentChar {rs : Regs} (h : k.pitHandler rs = some k') (t : Fin 3) :
    (k'.terminals t).currentChar = (k.terminals t).currentChar := by
  unfold Kernel.pitHandler at h
  split at h
  · exact congrArg Line.currentChar (Line.scheduler_line h t)
  · exact congrArg (fun k => (Kernel.terminals k t).currentChar) (Option.some.inj h).symm

lemma execute_currentChar {command : List UInt8} {res : Option ℤ}
    (h : k.execute img f command = some (k', res)) (t : Fin 3) :
    (k'.terminals t).currentChar = (k.terminals t).currentChar :=
  congrArg Line.currentChar (Line.execute_line h t)

lemma terminalSwitch_currentChar (h : k.terminalSwitch img f target = some k') (t : Fin 3) :
    (k'.terminals t).currentChar = (k.terminals t).currentChar :=
  congrArg Line.currentChar (Line.terminalSwitch_line h t)

lemma onConsole_terminals {g : Console → Console} (h : k.onConsole g = some k') :
    k'.terminals = k.terminals := by
  obtain ⟨mem, x, y, rfl⟩ := Kernel.onConsole_cases h
  rfl

lemma setTerminal_currentChar {g : TerminalInfo → TerminalInfo}
    (hg : ∀ ti, (g ti).currentChar = ti.currentChar) (t : Fin 3) :
    ((k.setTerminal u g).terminals t).currentChar = (k.terminals t).currentChar := by
  by_cases ht : t = u
  · subst ht
    simp [Kernel.setTerminal, hg]
  · simp [Kernel.setTerminal, ht]

lemma clearTerminal_currentChar (h : k.clearTerminal = some k') (t : Fin 3) :
    (k'.terminals t).currentChar = (k.terminals t).currentChar := by
  obtain ⟨k₁, h₁, rfl⟩ := Option.map_eq_some_iff.mp h
  have hterm := onConsole_terminals h₁
  refine (setTerminal_currentChar ?_ t).trans ?_
  · exact fun _ => rfl
  · exact congrArg (fun ts => (ts t).currentChar) hterm

/-! ### Changes that keep the machine sound -/

lemma Sound.kernel (hm : m.Sound)
    (h : ∀ t, (k.terminals t).currentChar = (m.kernel.terminals t).currentChar) :
    ({ m with kernel := k } : Readers).Sound := by
  refine ⟨fun t i hi => ?_, fun t r hr => ?_, hm.cleared, hm.returned⟩
  · unfold count at hi
    rw [h] at hi
    exact hm.cells t i hi
  · unfold count
    rw [h]
    exact hm.calls t r hr

lemma Own.early (h : Own t n cells r) (hi : q.i = r.i) (hs : q.source = r.source)
    (hq : q.next.late = false) : Own t n' cells' q := by
  refine ⟨fun j hj => ?_, fun hl => ?_, fun hn => ?_, fun hn => ?_, fun hn => ?_⟩
  · rw [hs]
    exact h.copied j (hi ▸ hj)
  · exact absurd (hq.symm.trans hl) (by simp)
  all_goals
    rw [hn] at hq
    exact absurd hq (by simp [ReadStmt.late])

lemma setCall_self (q : Option Reader) :
    (m.setCall q).calls m.kernel.scheduledTerminal = q := Function.update_self _ _ _

lemma setCall_of_ne (q : Option Reader) (hu : u ≠ m.kernel.scheduledTerminal) :
    (m.setCall q).calls u = m.calls u := Function.update_of_ne hu _ _

lemma Sound.setCall (hm : m.Sound)
    (hq : Own m.kernel.scheduledTerminal (m.count m.kernel.scheduledTerminal)
      (m.origin m.kernel.scheduledTerminal) q) : (m.setCall (some q)).Sound := by
  refine ⟨hm.cells, fun t p hp => ?_, hm.cleared, hm.returned⟩
  by_cases ht : t = m.kernel.scheduledTerminal
  · subst ht
    rw [setCall_self] at hp
    exact Option.some.inj hp ▸ hq
  · rw [setCall_of_ne _ ht] at hp
    exact hm.calls t p hp

lemma assign_count {g : TerminalInfo → TerminalInfo}
    (hg : ∀ ti, (g ti).currentChar = ti.currentChar) (t : Fin 3) :
    (m.assign g).count t = m.count t := setTerminal_currentChar hg t

lemma Sound.assign {g : TerminalInfo → TerminalInfo} (hm : m.Sound)
    (hg : ∀ ti, (g ti).currentChar = ti.currentChar) : (m.assign g).Sound :=
  hm.kernel fun t => setTerminal_currentChar hg t

lemma Sound.onConsole {g : Console → Console} (hm : m.Sound) (h : m.onConsole g = some m') :
    m'.Sound := by
  obtain ⟨k, hk, rfl⟩ := Option.map_eq_some_iff.mp h
  exact hm.kernel fun t => by rw [onConsole_terminals hk]

lemma Sound.line (hm : m.Sound) (hother : ∀ t, t ≠ u →
      m'.count t = m.count t ∧ m'.origin t = m.origin t ∧ m'.calls t = m.calls t)
    (hcells : ∀ i < m'.count u, m'.origin u i = some u)
    (hcalls : ∀ r ∈ m'.calls u, Own u (m'.count u) (m'.origin u) r)
    (hcleared : ∀ e ∈ m'.cleared, e.2 = e.1)
    (hreturned : ∀ e ∈ m'.returned, ∀ b ∈ e.2, b.2 = some e.1) : m'.Sound := by
  refine ⟨fun t i hi => ?_, fun t r hr => ?_, hcleared, hreturned⟩
  · by_cases ht : t = u
    · subst ht
      exact hcells i hi
    · obtain ⟨hcount, horigin, -⟩ := hother t ht
      rw [horigin]
      exact hm.cells t i (hcount ▸ hi)
  · by_cases ht : t = u
    · subst ht
      exact hcalls r hr
    · obtain ⟨hcount, horigin, hcall⟩ := hother t ht
      rw [hcount, horigin]
      exact hm.calls t r (hcall ▸ hr)

/-! ### Keys -/

/-- A key that changes the active terminal's line to one of `n` bytes. -/
lemma Sound.edit (hm : m.Sound) (n : ℕ)
    (hactive : (k.terminals m.kernel.activeTerminal).currentChar = n)
    (hother : ∀ t, t ≠ m.kernel.activeTerminal →
      (k.terminals t).currentChar = (m.kernel.terminals t).currentChar)
    (hcells : ∀ i < n, cells' i = some m.kernel.activeTerminal)
    (hcalls : ∀ r ∈ m.calls m.kernel.activeTerminal, r.next ≠ .countNewline ∧
      (r.next = .copyByte → r.i < n) ∧ (r.next = .finish → n ≤ r.i)) :
    ({ m with
        kernel := k
        origin := Function.update m.origin m.kernel.activeTerminal cells' } : Readers).Sound := by
  refine hm.line (u := m.kernel.activeTerminal) (fun t ht => ⟨hother t ht, ?_, rfl⟩) (fun i hi => ?_)
    (fun r hr => ?_) hm.cleared hm.returned
  · exact Function.update_of_ne ht _ _
  · simp only [count, hactive] at hi
    simp only [Function.update_self]
    exact hcells i hi
  · have hown := hm.calls _ r hr
    obtain ⟨hcount, hcopy, hdone⟩ := hcalls r hr
    simp only [count, hactive, Function.update_self]
    exact ⟨hown.copied, hown.entered, fun hn => absurd hn hcount, hcopy, hdone⟩

lemma updateKbBuffer_sound {c : UInt8} (hm : m.Sound) (hg : m.Attended (.key c))
    (h : m.kernel.updateKbBuffer c = some k) :
    ({ m with kernel := k, origin := m.typed c } : Readers).Sound := by
  unfold Kernel.updateKbBuffer at h
  unfold typed
  dsimp only at h ⊢
  by_cases hn : c = newlineAscii ∨ (m.kernel.terminals m.kernel.activeTerminal).enterFlag = true
  · rw [if_pos hn] at h ⊢
    obtain rfl := Option.some.inj h
    refine hm.kernel fun t => setTerminal_currentChar ?_ t
    exact fun _ => rfl
  · rw [if_neg hn] at h ⊢
    obtain ⟨hline, hflag⟩ := not_or.mp hn
    have hflag' : (m.kernel.terminals m.kernel.activeTerminal).enterFlag = false := by
      simpa using hflag
    by_cases hb : c = backspaceAscii
    · rw [if_pos hb] at h ⊢
      obtain ⟨k₁, h₁, h⟩ := Option.bind_eq_some_iff.mp h
      have hfirst := onConsole_terminals h₁
      have hterm := (onConsole_terminals h).trans hfirst
      apply hm.edit (m.count m.kernel.activeTerminal - 1)
      · rw [hterm]
        simp [Kernel.mapVideo, Kernel.setTerminal, count]
      · intro t ht
        rw [hterm]
        simp [Kernel.mapVideo, Kernel.setTerminal, ht]
      · intro i hi
        have hne : i ≠ m.count m.kernel.activeTerminal - 1 := by omega
        exact (Function.update_of_ne hne _ _).trans (hm.cells _ i (by omega))
      · intro r hr
        obtain ⟨hcount, hcopy, -⟩ := hg ⟨hline, hflag', Or.inl hb⟩ r hr
        refine ⟨hcount, fun hnext => ?_, fun hnext => ?_⟩
        · have hlt := hcopy hnext hb
          omega
        · have hdone := (hm.calls _ r hr).done hnext
          omega
    · rw [if_neg hb] at h ⊢
      by_cases hfull : maxBufferLength - 1 ≤ (m.kernel.terminals m.kernel.activeTerminal).currentChar
      · rw [if_pos hfull] at h ⊢
        obtain rfl := Option.some.inj h
        exact hm
      · rw [if_neg hfull] at h ⊢
        obtain rfl := Option.some.inj h
        apply hm.edit (m.count m.kernel.activeTerminal + 1)
        · simp [Kernel.setTerminal, count]
        · intro t ht
          simp [Kernel.setTerminal, ht]
        · intro i hi
          by_cases hi' : i = m.count m.kernel.activeTerminal
          · rw [hi']
            exact Function.update_self _ _ _
          · exact (Function.update_of_ne hi' _ _).trans (hm.cells _ i (by omega))
        · intro r hr
          obtain ⟨hcount, -, hdone⟩ := hg ⟨hline, hflag', Or.inr (not_le.mp hfull)⟩ r hr
          refine ⟨hcount, fun hnext => ?_, fun hnext => absurd (hdone hnext) hb⟩
          have hlt := (hm.calls _ r hr).copying hnext
          omega

/-! ### The statements before the flag is found set -/

lemma Sound.early (hm : m'.Sound) (ht : m'.kernel.scheduledTerminal = t) (h : Own t n cells r)
    (hi : q.i = r.i) (hs : q.source = r.source) (hq : q.next.late = false) :
    (m'.setCall (some q)).Sound := by
  subst ht
  exact hm.setCall (h.early hi hs hq)

lemma onConsole_scheduled {g : Console → Console} (h : m.onConsole g = some m') :
    m'.kernel.scheduledTerminal = m.kernel.scheduledTerminal := by
  obtain ⟨k, hk, rfl⟩ := Option.map_eq_some_iff.mp h
  obtain ⟨mem, x, y, rfl⟩ := Kernel.onConsole_cases hk
  rfl

lemma onConsole_calls {g : Console → Console} (h : m.onConsole g = some m') :
    m'.calls = m.calls := by
  obtain ⟨k, -, rfl⟩ := Option.map_eq_some_iff.mp h
  rfl

/-- What a store in the active terminal's buffer leaves. -/
structure Stored (m m' : Readers) (i : ℕ) (o : Option (Fin 3)) : Prop where
  active : m'.kernel.activeTerminal = m.kernel.activeTerminal
  scheduled : m'.kernel.scheduledTerminal = m.kernel.scheduledTerminal
  count : ∀ t, m'.count t = m.count t
  here : m'.origin m.kernel.activeTerminal = Function.update (m.origin m.kernel.activeTerminal) i o
  elsewhere : ∀ t, t ≠ m.kernel.activeTerminal → m'.origin t = m.origin t
  calls : m'.calls = m.calls
  cleared : m'.cleared = m.cleared
  returned : m'.returned = m.returned

lemma storeKey_stored {i : ℕ} {b : UInt8} {o : Option (Fin 3)} (h : m.storeKey i b o = some m') :
    Stored m m' i o := by
  unfold storeKey at h
  split at h
  · obtain rfl := Option.some.inj h
    refine ⟨rfl, rfl, fun t => ?_, Function.update_self _ _ _,
      fun t ht => Function.update_of_ne ht _ _, rfl, rfl, rfl⟩
    change (m.assign fun ti =>
      { ti with keyboardBuffer := Function.update ti.keyboardBuffer i b }).count t = m.count t
    refine assign_count ?_ t
    exact fun _ => rfl
  · exact absurd h (by simp)

/-- A line is ended by a NUL while no call is about to count its newline. -/
lemma terminate_sound (hm : m.Sound)
    (hno : ∀ q ∈ m.calls m.kernel.activeTerminal, q.next ≠ .countNewline)
    (h : Stored m m' (m.count m.kernel.activeTerminal) none) : m'.Sound := by
  refine hm.line (u := m.kernel.activeTerminal) (fun t ht => ?_) (fun i hi => ?_) (fun r hr => ?_)
    ?_ ?_
  · exact ⟨h.count t, h.elsewhere t ht, by rw [h.calls]⟩
  · rw [h.count] at hi
    rw [h.here, Function.update_of_ne hi.ne]
    exact hm.cells _ i hi
  · rw [h.calls] at hr
    have hown := hm.calls _ r hr
    rw [h.count]
    exact ⟨hown.copied, hown.entered, fun hn => absurd hn (hno r hr), hown.copying, hown.done⟩
  · rw [h.cleared]
    exact hm.cleared
  · rw [h.returned]
    exact hm.returned

lemma exec_early (hm : m.Sound) (hr : r ∈ m.calls m.kernel.scheduledTerminal)
    (hlate : r.next.late = false)
    (henter : r.next = .testEnter →
      (m.kernel.terminals m.kernel.activeTerminal).enterFlag = true →
        m.kernel.activeTerminal = m.kernel.scheduledTerminal)
    (hno : r.next = .terminate → ∀ q ∈ m.calls m.kernel.activeTerminal, q.next ≠ .countNewline)
    (h : m.exec r = some m') : m'.Sound := by
  have hown := hm.calls _ r hr
  cases hnext : r.next with
  | savePrevChar =>
    simp only [exec, hnext] at h
    obtain rfl := Option.some.inj h
    exact hm.early rfl hown rfl rfl rfl
  | testEnter =>
    simp only [exec, hnext] at h
    split at h
    · rename_i hflag
      obtain rfl := Option.some.inj h
      refine hm.setCall ⟨hown.copied, fun _ => ?_, by simp, by simp, by simp⟩
      exact congrArg some (henter hnext hflag)
    · obtain rfl := Option.some.inj h
      exact hm.early rfl hown rfl rfl rfl
  | testChanged =>
    simp only [exec, hnext] at h
    split at h <;> obtain rfl := Option.some.inj h <;> exact hm.early rfl hown rfl rfl rfl
  | clearReset =>
    simp only [exec, hnext] at h
    obtain rfl := Option.some.inj h
    have hset : (m.assign fun ti => { ti with resetFlag := false }).Sound :=
      hm.assign fun _ => rfl
    exact hset.early rfl hown rfl rfl rfl
  | testFull =>
    simp only [exec, hnext] at h
    obtain rfl := Option.some.inj h
    exact hm.early rfl hown rfl rfl (by dsimp only; split <;> rfl)
  | testLastRow =>
    simp only [exec, hnext] at h
    obtain rfl := Option.some.inj h
    exact hm.early rfl hown rfl rfl (by dsimp only; split <;> rfl)
  | testScheduled =>
    simp only [exec, hnext] at h
    obtain rfl := Option.some.inj h
    exact hm.early rfl hown rfl rfl (by dsimp only; split <;> rfl)
  | shiftUp =>
    simp only [exec, hnext] at h
    obtain ⟨m₁, h₁, rfl⟩ := Option.map_eq_some_iff.mp h
    exact (hm.onConsole h₁).early (onConsole_scheduled h₁) hown rfl rfl rfl
  | lineUp =>
    simp only [exec, hnext] at h
    obtain rfl := Option.some.inj h
    have hset : (m.assign fun ti => { ti with currentLine := (ti.currentLine + 255) % 256 }).Sound :=
      hm.assign fun _ => rfl
    exact hset.early rfl hown rfl rfl rfl
  | saveChar =>
    simp only [exec, hnext] at h
    obtain rfl := Option.some.inj h
    have hset : (m.assign fun ti => { ti with lastCurrentChar := ti.currentChar }).Sound :=
      hm.assign fun _ => rfl
    exact hset.early rfl hown rfl rfl rfl
  | saveTerminal =>
    simp only [exec, hnext] at h
    obtain rfl := Option.some.inj h
    exact hm.early rfl hown rfl rfl rfl
  | terminate =>
    simp only [exec, hnext] at h
    obtain ⟨m₁, h₁, rfl⟩ := Option.map_eq_some_iff.mp h
    have hstored := storeKey_stored h₁
    exact (terminate_sound hm (hno hnext) hstored).early hstored.scheduled hown rfl rfl rfl
  | waitScheduled =>
    simp only [exec, hnext] at h
    obtain rfl := Option.some.inj h
    exact hm.early rfl hown rfl rfl (by dsimp only; split <;> rfl)
  | echo =>
    simp only [exec, hnext] at h
    obtain ⟨m₁, h₁, rfl⟩ := Option.map_eq_some_iff.mp h
    exact (hm.onConsole h₁).early (onConsole_scheduled h₁) hown rfl rfl rfl
  | _ =>
    rw [hnext] at hlate
    exact absurd hlate (by simp [ReadStmt.late])

/-! ### The statements after it -/

lemma Own.onward (h : Own t n cells r) (hl : r.next.late = true) {s : ReadStmt}
    (hs : s ≠ .countNewline ∧ s ≠ .copyByte ∧ s ≠ .finish) :
    Own t n cells { r with next := s } :=
  ⟨h.copied, fun _ => h.entered hl, fun hn => absurd hn hs.1, fun hn => absurd hn hs.2.1,
    fun hn => absurd hn hs.2.2⟩

lemma addNewline_sound (hm : m.Sound) (hr : r ∈ m.calls t) (hl : r.next.late = true)
    (hactive : m.kernel.activeTerminal = t) (hsched : m.kernel.scheduledTerminal = t)
    (h : Stored m m' (m.count t) r.entered) :
    (m'.setCall (some { r with next := .countNewline })).Sound := by
  have hown := hm.calls t r hr
  obtain rfl : m'.kernel.scheduledTerminal = t := h.scheduled.trans hsched
  refine hm.line (u := m'.kernel.scheduledTerminal) (fun u hu => ⟨h.count u, ?_, ?_⟩)
    (fun i hi => ?_) (fun q hq => ?_) ?_ ?_
  · exact h.elsewhere u (by rw [hactive]; exact hu)
  · rw [setCall_of_ne _ hu, h.calls]
  · have hlt : i < m.count m'.kernel.scheduledTerminal := by
      rw [← h.count]
      exact hi
    have hhere := congrFun h.here i
    rw [hactive, Function.update_of_ne hlt.ne] at hhere
    exact hhere.trans (hm.cells _ i hlt)
  · rw [setCall_self] at hq
    obtain rfl := Option.some.inj hq
    have hlast := congrFun h.here (m.count m'.kernel.scheduledTerminal)
    rw [hactive, Function.update_self, hown.entered hl, ← h.count] at hlast
    exact ⟨hown.copied, fun _ => hown.entered hl, fun _ => hlast, by simp, by simp⟩
  · exact h.cleared ▸ hm.cleared
  · exact h.returned ▸ hm.returned

lemma countNewline_sound (hm : m.Sound) (hr : r ∈ m.calls m.kernel.scheduledTerminal)
    (hnext : r.next = .countNewline)
    (hactive : m.kernel.activeTerminal = m.kernel.scheduledTerminal) :
    ((m.assign fun ti => { ti with currentChar := ti.currentChar + 1 }).setCall
      (some { r with next := .testMore })).Sound := by
  have hown := hm.calls _ r hr
  let m₁ := m.assign fun ti => { ti with currentChar := ti.currentChar + 1 }
  have hcount : m₁.count m.kernel.scheduledTerminal = m.count m.kernel.scheduledTerminal + 1 := by
    simp [m₁, Readers.assign, Readers.count, Kernel.setTerminal, hactive]
  refine hm.line (u := m₁.kernel.scheduledTerminal) (fun u hu => ⟨?_, rfl, setCall_of_ne _ hu⟩)
    (fun i hi => ?_) (fun q hq => ?_) hm.cleared hm.returned
  · have hu' : u ≠ m.kernel.scheduledTerminal := hu
    simp [Readers.setCall, Readers.assign, Readers.count, Kernel.setTerminal, hactive, hu']
  · have hle : i < m₁.count m.kernel.scheduledTerminal := hi
    rw [hcount] at hle
    by_cases hi' : i = m.count m.kernel.scheduledTerminal
    · rw [hi']
      exact hown.counted hnext
    · exact hm.cells m.kernel.scheduledTerminal i (by omega)
  · rw [setCall_self] at hq
    obtain rfl := Option.some.inj hq
    refine ⟨hown.copied, fun _ => ?_, by simp, by simp, by simp⟩
    exact hown.entered (by rw [hnext]; rfl)

lemma finish_sound (hm : m.Sound) (hr : r ∈ m.calls m.kernel.scheduledTerminal)
    (hnext : r.next = .finish) :
    ({ m.setCall none with
        returned := (m.kernel.scheduledTerminal, (List.range
          (m.count m.kernel.scheduledTerminal)).map fun j => (r.buf j, r.source j)) ::
            m.returned } : Readers).Sound := by
  have hown := hm.calls _ r hr
  refine hm.line (u := m.kernel.scheduledTerminal) (fun u hu => ⟨rfl, rfl, setCall_of_ne _ hu⟩)
    (hm.cells _) (fun q hq => ?_) hm.cleared (fun e he => ?_)
  · have hnone := setCall_self (m := m) none
    exact absurd (hnone.symm.trans hq) (by simp)
  · rcases List.mem_cons.mp he with rfl | he
    · intro b hb
      obtain ⟨j, hj, rfl⟩ := List.mem_map.mp hb
      have hlt := List.mem_range.mp hj
      exact hown.copied j (hlt.trans_le (hown.done hnext))
    · exact hm.returned e he

lemma exec_late (hm : m.Sound) (hr : r ∈ m.calls m.kernel.scheduledTerminal)
    (hlate : r.next.late = true) (hactive : m.kernel.activeTerminal = m.kernel.scheduledTerminal)
    (h : m.exec r = some m') : m'.Sound := by
  have hown := hm.calls _ r hr
  cases hnext : r.next with
  | clearEnter =>
    simp only [exec, hnext] at h
    obtain rfl := Option.some.inj h
    let m₁ := m.assign fun ti => { ti with enterFlag := false }
    have hflag : m₁.Sound := hm.assign fun _ => rfl
    have hcleared : ({ m₁ with
        cleared := (m.kernel.scheduledTerminal, m.kernel.activeTerminal) :: m.cleared } :
          Readers).Sound := by
      refine ⟨hflag.cells, hflag.calls, fun e he => ?_, hflag.returned⟩
      rcases List.mem_cons.mp he with rfl | he
      · exact hactive
      · exact hm.cleared e he
    exact hcleared.setCall ((hflag.calls _ r hr).onward hlate ⟨by simp, by simp, by simp⟩)
  | testWrapped =>
    simp only [exec, hnext] at h
    obtain rfl := Option.some.inj h
    apply hm.setCall
    split
    · exact hown.onward hlate ⟨by simp, by simp, by simp⟩
    · exact hown.onward hlate ⟨by simp, by simp, by simp⟩
  | lineDown =>
    simp only [exec, hnext] at h
    obtain rfl := Option.some.inj h
    have hset : (m.assign fun ti => { ti with currentLine := (ti.currentLine + 1) % 256 }).Sound :=
      hm.assign fun _ => rfl
    exact hset.setCall ((hset.calls _ r hr).onward hlate ⟨by simp, by simp, by simp⟩)
  | home =>
    simp only [exec, hnext] at h
    obtain ⟨m₁, h₁, rfl⟩ := Option.map_eq_some_iff.mp h
    have hmoved := hm.onConsole h₁
    have hr₁ : r ∈ m₁.calls m₁.kernel.scheduledTerminal := by
      rw [onConsole_scheduled h₁, onConsole_calls h₁]
      exact hr
    exact hmoved.setCall ((hmoved.calls _ r hr₁).onward hlate ⟨by simp, by simp, by simp⟩)
  | addNewline =>
    simp only [exec, hnext] at h
    obtain ⟨m₁, h₁, rfl⟩ := Option.map_eq_some_iff.mp h
    have hstored := storeKey_stored h₁
    rw [hactive] at hstored
    exact addNewline_sound hm hr hlate hactive rfl hstored
  | countNewline =>
    simp only [exec, hnext] at h
    obtain rfl := Option.some.inj h
    exact countNewline_sound hm hr hnext hactive
  | testMore =>
    simp only [exec, hnext, hactive] at h
    obtain rfl := Option.some.inj h
    apply hm.setCall
    split
    · rename_i hmore
      exact ⟨hown.copied, fun _ => hown.entered hlate, by simp, fun _ => hmore, by simp⟩
    · rename_i hmore
      exact ⟨hown.copied, fun _ => hown.entered hlate, by simp, by simp, fun _ => not_lt.mp hmore⟩
  | copyByte =>
    simp only [exec, hnext, hactive] at h
    obtain rfl := Option.some.inj h
    apply hm.setCall
    refine ⟨fun j hj => ?_, fun _ => hown.entered hlate, by simp, by simp, by simp⟩
    by_cases hji : j = r.i
    · rw [hji]
      exact (Function.update_self _ _ _).trans (hm.cells _ _ (hown.copying hnext))
    · have hlt : j < r.i := by
        have hle : j < r.i + 1 := hj
        omega
      exact (Function.update_of_ne hji _ _).trans (hown.copied j hlt)
  | finish =>
    simp only [exec, hnext] at h
    obtain rfl := Option.some.inj h
    rw [hactive]
    exact finish_sound hm hr hnext
  | _ =>
    rw [hnext] at hlate
    exact absurd hlate (by simp [ReadStmt.late])

/-! ### Runs -/

lemma call_sound {buf : ℕ → UInt8} (hm : m.Sound) : (m.setCall (some (m.newReader buf))).Sound := by
  apply hm.setCall
  refine ⟨fun j hj => absurd hj (Nat.not_lt_zero j), ?_, ?_, ?_, ?_⟩ <;>
    simp [newReader, ReadStmt.late]

lemma step_sound {e : ReadEvent} (hm : m.Sound) (hg : m.Attended e) (h : m.step img e = some m') :
    m'.Sound := by
  cases e with
  | tick r =>
    obtain ⟨k, hk, rfl⟩ := Option.map_eq_some_iff.mp h
    exact hm.kernel (pitHandler_currentChar hk)
  | switch target f =>
    obtain ⟨k, hk, rfl⟩ := Option.map_eq_some_iff.mp h
    exact hm.kernel (terminalSwitch_currentChar hk)
  | key c =>
    obtain ⟨k, hk, rfl⟩ := Option.map_eq_some_iff.mp h
    exact updateKbBuffer_sound hm hg hk
  | clear =>
    simp only [step] at h
    obtain ⟨k, hk, rfl⟩ := Option.map_eq_some_iff.mp h
    exact hm.kernel (clearTerminal_currentChar hk)
  | call buf =>
    simp only [step] at h
    split at h
    · obtain rfl := Option.some.inj h
      exact call_sound hm
    · exact absurd h (by simp)
  | run =>
    obtain ⟨r, hr, h⟩ := Option.bind_eq_some_iff.mp h
    obtain ⟨hactive, hno⟩ := hg r hr
    cases hlate : r.next.late with
    | false => exact exec_early hm hr hlate (fun hn hf => hactive (Or.inr ⟨hn, hf⟩)) hno h
    | true => exact exec_late hm hr hlate (hactive (Or.inl hlate)) h

lemma start_sound (h : ∀ t, (k.terminals t).currentChar = 0) : (start k).Sound := by
  refine ⟨fun t i hi => ?_, fun _ r hr => absurd hr (Option.not_mem_none r),
    fun _ he => absurd he List.not_mem_nil, fun _ he => absurd he List.not_mem_nil⟩
  have hlt : i < (k.terminals t).currentChar := hi
  rw [h t] at hlt
  exact absurd hlt (Nat.not_lt_zero i)

/-- In every run from empty lines in which the calls are attended, each byte a call returns was
typed in its own terminal, and it clears the flag of no other. -/
theorem ownBytes_run {es : List ReadEvent} (hk : ∀ t, (k.terminals t).currentChar = 0)
    (h : Runs.Path (step img) Attended (start k) es m) :
    (∀ e ∈ m.returned, ∀ b ∈ e.2, b.2 = some e.1) ∧ ∀ e ∈ m.cleared, e.2 = e.1 := by
  have hm : m.Sound :=
    h.invariant (fun _ _ _ hm hg hs => step_sound hm hg hs) (start_sound hk)
  exact ⟨hm.returned, hm.cleared⟩

end Reads

/-! ### Lines typed in one terminal and in another -/

section Lines

open Kernel

/-- The first shell waits for a line; a letter and Enter are typed, and the call goes on to its
return. -/
def typedRun : List ReadEvent :=
  [.call fun _ => 0] ++ List.replicate 4 .run ++ [.key 97, .tick ⟨0, 0⟩, .key newlineAscii] ++
    List.replicate 19 .run

theorem ownBytes_run_typed : ∃ m : Readers, m.returned = [(0, [(97, some 0), (10, some 0)])] ∧
    (∀ e ∈ m.returned, ∀ b ∈ e.2, b.2 = some e.1) ∧ ∀ e ∈ m.cleared, e.2 = e.1 := by
  have hend : ((boot ⟨0, 0⟩ (fun _ => 0) 0 0).execute shellImage bareFrame shellCommand).bind
      (fun r => (Runs.run (step shellImage) Attended (start r.1) typedRun).map fun m =>
        m.returned) = some [(0, [(97, some 0), (10, some 0)])] := by
    decide +kernel
  obtain ⟨⟨k, pid⟩, hstart, hend⟩ := Option.bind_eq_some_iff.mp hend
  obtain ⟨m, hrun, hreturned⟩ := Option.map_eq_some_iff.mp hend
  exact ⟨m, hreturned, ownBytes_run (execute_currentChar hstart) (Runs.path_of_run hrun)⟩

/-- A tick comes, and the first shell waits for a line; the second terminal is opened and a line
typed there; then the first shell runs. -/
def straysRun : List ReadEvent :=
  [.tick ⟨0, 0⟩, .call fun _ => 0] ++ List.replicate 3 .run ++
    [.switch 1 bareFrame, .key 97, .key newlineAscii, .tick ⟨0, 0⟩] ++ List.replicate 11 .run

/-- The first shell clears the flag of the second terminal and takes its line. -/
theorem line_strays : ¬∀ (img : Image) (frames : TableFrames) (mem : Memory) (x y : ℕ)
    (f : CallFrame) (command : List UInt8) (k : Kernel) (pid : ℤ) (es : List ReadEvent)
    (m : Readers), (boot frames mem x y).execute img f command = some (k, some pid) →
      Runs.Path (step img) (fun _ _ => True) (start k) es m →
      (∀ e ∈ m.returned, ∀ b ∈ e.2, b.2 = some e.1) ∧ ∀ e ∈ m.cleared, e.2 = e.1 := by
  intro h
  have hend : ((boot ⟨0, 0⟩ (fun _ => 0) 0 0).execute shellImage bareFrame shellCommand).bind
      (fun r => (Runs.run (step shellImage) (fun _ _ => True) (start r.1) straysRun).map fun m =>
        (r.2, decide (m.returned = [(0, [(97, some 1), (10, some 1)])]))) = some (some 0, true) := by
    decide +kernel
  obtain ⟨⟨k, res⟩, hstart, hend⟩ := Option.bind_eq_some_iff.mp hend
  obtain ⟨m, hrun, hend⟩ := Option.map_eq_some_iff.mp hend
  obtain ⟨rfl, hreturned⟩ := Prod.mk.injEq .. ▸ hend
  obtain ⟨hown, -⟩ := h _ _ _ _ _ _ _ k 0 _ m hstart (Runs.path_of_run hrun)
  rw [of_decide_eq_true hreturned] at hown
  have hletter := hown _ List.mem_cons_self (97, some 1) List.mem_cons_self
  exact absurd hletter (by simp)

end Lines

end Readers

end HalOs
