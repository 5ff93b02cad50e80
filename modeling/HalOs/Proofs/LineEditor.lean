import HalOs.Model.Line
import HalOs.Proofs.Handlers

/-!
# Lines typed and lines read

`terminal_read` leaves the line it has delivered in the keyboard buffer, and only a write
empties the buffer. Between a read and the next write the buffer grows by the newline of every
read and hands the old line out again; a write drops what has been typed since the last read.
Apart from this the terminal is a line editor, and its buffer is never overrun.
-/

namespace HalOs

namespace Line

variable {l l' : Line} {e : LineEvent} {es : List LineEvent}

/-! ### The fields in the kernel -/

/-- `update_kb_buffer` in the kernel changes the line of the active terminal by `typeKey`. -/
lemma updateKbBuffer_line {k k' : Kernel} {c : UInt8} (h : k.updateKbBuffer c = some k') :
    (k'.terminals k.activeTerminal).line = (k.terminals k.activeTerminal).line.typeKey c := by
  unfold Kernel.updateKbBuffer at h
  dsimp only at h
  unfold typeKey
  by_cases hn : c = newlineAscii ∨ (k.terminals k.activeTerminal).enterFlag
  · rw [if_pos hn] at h
    rw [if_pos (show c = newlineAscii ∨ (k.terminals k.activeTerminal).line.enterFlag from hn)]
    obtain rfl := Option.some.inj h
    simp [Kernel.setTerminal, TerminalInfo.line]
  · rw [if_neg hn] at h
    rw [if_neg (show ¬(c = newlineAscii ∨ (k.terminals k.activeTerminal).line.enterFlag) from hn)]
    by_cases hb : c = backspaceAscii
    · rw [if_pos hb] at h ⊢
      obtain ⟨k₁, h₁, h⟩ := Option.bind_eq_some_iff.mp h
      obtain ⟨mem, x, y, rfl⟩ := Kernel.onConsole_cases h₁
      obtain ⟨mem, x, y, rfl⟩ := Kernel.onConsole_cases h
      simp [Kernel.setTerminal, Kernel.mapVideo, TerminalInfo.line]
    · rw [if_neg hb] at h ⊢
      by_cases hfull : maxBufferLength - 1 ≤ (k.terminals k.activeTerminal).currentChar
      · rw [if_pos hfull] at h
        obtain rfl := Option.some.inj h
        exact (if_pos hfull).symm
      · rw [if_neg hfull] at h
        obtain rfl := Option.some.inj h
        refine Eq.trans ?_ (if_neg hfull).symm
        simp [Kernel.setTerminal, TerminalInfo.line]

/-! The handlers that leave every line as it is. -/

section Handlers

variable {img : Image} {k k' : Kernel} {f : CallFrame} {rs : Regs} {target t u : Fin 3}

lemma scheduler_line (h : k.scheduler rs = some k') (t : Fin 3) :
    (k'.terminals t).line = (k.terminals t).line := by
  obtain ⟨p, next, -, -, rfl⟩ := Kernel.scheduler_cases h
  obtain ⟨x, y, hsaved⟩ := Kernel.saved_terminals (k := k) (r := rs) p t
  have hline := congrArg TerminalInfo.line hsaved
  exact hline

lemma installed_line {a : Activation} {mem : Memory} (t : Fin 3) :
    ((k.installed a mem).terminals t).line = (k.terminals t).line := by
  simp only [Kernel.installed]
  by_cases ht : t = if a.pid = 0 then 0 else k.activeTerminal
  · rw [← ht, Function.update_self]
    rfl
  · rw [Function.update_of_ne ht]

lemma execute_line {command : List UInt8} {res : Option ℤ}
    (h : k.execute img f command = some (k', res)) (t : Fin 3) :
    (k'.terminals t).line = (k.terminals t).line := by
  rcases Kernel.execute_cases h with ⟨-, rfl⟩ | ⟨a, mem, -, -, -, -, ⟨rfl, -⟩ | ⟨-, -, hpre, -⟩⟩
  · rfl
  · exact installed_line t
  · exact Kernel.preempt_invariant
      (P := fun k' => (k'.terminals t).line = (k.terminals t).line)
      (fun _ _ _ hk hs => (scheduler_line hs t).trans hk) (installed_line t) hpre

lemma terminalSwitch_line (h : k.terminalSwitch img f target = some k') (t : Fin 3) :
    (k'.terminals t).line = (k.terminals t).line := by
  have hmoved : ((k.switchScreens target).terminals t) = k.terminals t := by
    rw [Kernel.switchScreens_eq]
  rcases Kernel.terminalSwitch_cases h with ⟨-, rfl⟩ | ⟨-, -, rfl⟩ | ⟨-, -, res, hex⟩
  · rfl
  · rw [hmoved]
  · rw [execute_line hex t, hmoved]

lemma setTerminal_line {g : TerminalInfo → TerminalInfo} (g' : Line → Line)
    (hg : ∀ ti, (g ti).line = g' ti.line) (t : Fin 3) :
    ((k.setTerminal u g).terminals t).line =
      if t = u then g' (k.terminals u).line else (k.terminals t).line := by
  by_cases ht : t = u
  · subst ht
    rw [if_pos rfl, ← hg]
    simp only [Kernel.setTerminal, Function.update_self]
  · rw [if_neg ht]
    simp only [Kernel.setTerminal, Function.update_of_ne ht]

lemma clearTerminal_line (h : k.clearTerminal = some k') (t : Fin 3) :
    (k'.terminals t).line =
      if t = k.activeTerminal then { (k.terminals k.activeTerminal).line with resetFlag := true }
      else (k.terminals t).line := by
  obtain ⟨k₁, h₁, rfl⟩ := Option.map_eq_some_iff.mp h
  obtain ⟨mem, x, y, rfl⟩ := Kernel.onConsole_cases h₁
  exact setTerminal_line (fun l => { l with resetFlag := true }) (fun _ => rfl) t

end Handlers

/-! `terminal_write` scrolls and prints without touching the line it has emptied. -/

lemma scrollWhile_line {cond : Writer → Prop} [DecidablePred cond] {fuel : ℕ} {w w' : Writer}
    (h : Loops.whileLoop cond Writer.scrollLine fuel w = some w') :
    w'.info.line = w.info.line := by
  have hbody : ∀ u : Writer, u.info.line = w.info.line → cond u →
      u.scrollLine.info.line = w.info.line := fun _ hu _ => hu
  exact (Loops.whileLoop_invariant hbody h rfl).1

lemma advance_line (w : Writer) (buf : List UInt8) (n : ℕ) :
    (w.advance buf n).1.info.line = w.info.line := by
  unfold Writer.advance
  split_ifs <;> rfl

lemma wrapRoom_line (w : Writer) (n : ℕ) : (w.wrapRoom n).info.line = w.info.line := by
  unfold Writer.wrapRoom
  split_ifs <;> rfl

lemma nextLine_line {w w' : Writer} {newlines n fuel : ℕ}
    (h : w.nextLine newlines n fuel = some w') : w'.info.line = w.info.line := by
  obtain ⟨w₁, h₁, rfl⟩ := Option.map_eq_some_iff.mp h
  exact (scrollWhile_line h₁).trans rfl

lemma dropInput_line (w : Writer) {n : ℕ} (hn : n ≤ maxInputBufLen) :
    w.dropInput.info.line = w.info.line.writeOver n := by
  have hle : ¬(maxInputBufLen : ℤ) < n := by exact_mod_cast not_lt.mpr hn
  unfold Writer.dropInput writeOver
  rw [if_neg hle]
  by_cases hc : 0 < w.info.currentChar
  · simp [TerminalInfo.line, hc]
  · have h0 : w.info.currentChar = 0 := by omega
    simp [TerminalInfo.line, h0]

/-- `terminal_write` changes the line of its terminal by `writeOver`. -/
theorem terminalWrite_line {fuel n v : ℕ} {buf : List UInt8} {w w' : Writer}
    (h : w.terminalWrite fuel buf n = some (v, w')) : w'.info.line = w.info.line.writeOver n := by
  unfold Writer.terminalWrite at h
  by_cases hn : maxInputBufLen < n
  · rw [if_pos hn, Option.some.injEq, Prod.mk.injEq] at h
    have hlt : (maxInputBufLen : ℤ) < n := by exact_mod_cast hn
    rw [← h.2, writeOver, if_pos hlt]
  · rw [if_neg hn] at h
    obtain ⟨w₁, h₁, h⟩ := Option.bind_eq_some_iff.mp h
    obtain ⟨w₂, h₂, h⟩ := Option.bind_eq_some_iff.mp h
    have hadvance := advance_line (w₂.print buf) buf n
    cases hprinted : (w₂.print buf).advance buf n with
    | mk w₀ m =>
    rw [hprinted] at h hadvance
    obtain ⟨w₃, h₃, heq⟩ := Option.map_eq_some_iff.mp h
    have hprint : w₃.info.line = w₂.info.line := by
      by_cases h0 : Writer.newlineCount buf n = 0
      · rw [if_pos h0, Option.some.injEq] at h₃
        exact h₃ ▸ hadvance
      · rw [if_neg h0] at h₃
        exact (nextLine_line h₃).trans hadvance
    rw [Prod.mk.injEq] at heq
    calc w'.info.line = w₃.info.line := by rw [← heq.2]
      _ = w₂.info.line := hprint
      _ = (w₁.wrapRoom n).info.line := scrollWhile_line h₂
      _ = w.dropInput.info.line := (wrapRoom_line w₁ n).trans (scrollWhile_line h₁)
      _ = w.info.line.writeOver n := dropInput_line w (not_lt.mp hn)

/-! ### The buffer's bounds -/

/-- No read ends while the buffer is full up to its last byte. -/
def RoomForNewline (l : Line) : LineEvent → Prop
  | .read => l.currentChar ≠ maxBufferLength
  | _ => True

instance (l : Line) (e : LineEvent) : Decidable (RoomForNewline l e) := by
  unfold RoomForNewline
  split <;> infer_instance

lemma typeKey_le (c : UInt8) (hl : l.currentChar ≤ maxBufferLength) :
    (l.typeKey c).currentChar ≤ maxBufferLength := by
  unfold typeKey
  split_ifs with hn hb hfull
  · exact hl
  · exact (Nat.sub_le _ _).trans hl
  · exact hl
  · simp only [maxBufferLength] at hfull ⊢
    omega

lemma step_le (hl : l.currentChar ≤ maxBufferLength) (hg : RoomForNewline l e)
    (h : l.step e = some l') : l'.currentChar ≤ maxBufferLength := by
  cases e with
  | key c =>
    obtain rfl := Option.some.inj h
    exact typeKey_le c hl
  | clear =>
    obtain rfl := Option.some.inj h
    exact hl
  | pass =>
    simp only [step] at h
    split_ifs at h
    obtain rfl := Option.some.inj h
    unfold waitPass
    split_ifs <;> exact hl
  | read =>
    simp only [step] at h
    split_ifs at h
    obtain rfl := Option.some.inj h
    exact Nat.lt_of_le_of_ne hl hg
  | write nbytes =>
    obtain rfl := Option.some.inj h
    unfold writeOver
    split_ifs
    · exact hl
    · exact Nat.zero_le _

lemma stores_lt (hl : l.currentChar ≤ maxBufferLength) (e : LineEvent) :
    ∀ i ∈ l.stores e, i < maxBufferLength + 1 := by
  intro i hi
  have hle : i ≤ l.currentChar := by
    cases e with
    | key c =>
      simp only [stores] at hi
      split_ifs at hi
      · exact absurd hi (List.not_mem_nil)
      · exact (List.mem_singleton.mp hi).le.trans (Nat.sub_le _ _)
      · exact absurd hi (List.not_mem_nil)
      · exact (List.mem_singleton.mp hi).le
    | pass =>
      simp only [stores] at hi
      split_ifs at hi
      · exact (List.mem_singleton.mp hi).le
      · exact absurd hi (List.not_mem_nil)
    | read => exact (List.mem_singleton.mp hi).le
    | _ => exact absurd hi (List.not_mem_nil)
  exact Nat.lt_succ_of_le (hle.trans hl)

/-- As long as no read ends in a buffer that is full up to its last byte, `current_char` stays
within 128 and every store within the 129 bytes of the buffer. -/
theorem currentChar_run (h : Runs.Path step RoomForNewline blank es l) :
    l.currentChar ≤ maxBufferLength ∧ ∀ e, ∀ i ∈ l.stores e, i < maxBufferLength + 1 := by
  have hl : l.currentChar ≤ maxBufferLength :=
    h.invariant (fun _ _ _ hl hg hs => step_le hl hg hs) (Nat.zero_le _)
  exact ⟨hl, stores_lt hl⟩

/-- A full line, read, and Enter pressed again for another read. -/
def fullLineTwice : List LineEvent :=
  List.replicate 127 (.key 97) ++ [.key newlineAscii, .read, .key newlineAscii, .read]

theorem currentChar_run_full : ∃ l, Runs.Path step RoomForNewline blank
      (fullLineTwice.take 129) l ∧ l.currentChar ≤ maxBufferLength := by
  have hrun : (Runs.run step RoomForNewline blank (fullLineTwice.take 129)).isSome := by
    decide +kernel
  obtain ⟨l, hl⟩ := Option.isSome_iff_exists.mp hrun
  exact ⟨l, Runs.path_of_run hl, (currentChar_run (Runs.path_of_run hl)).1⟩

theorem currentChar_overruns : ¬∀ (es : List LineEvent) (l : Line),
    Runs.Path step (fun _ _ => True) blank es l → l.currentChar ≤ maxBufferLength := by
  intro h
  have hrun : (Runs.run step (fun _ _ => True) blank fullLineTwice).map Line.currentChar =
      some 129 := by
    decide +kernel
  obtain ⟨l, hl, hchar⟩ := Option.map_eq_some_iff.mp hrun
  have hle := h _ l (Runs.path_of_run hl)
  rw [hchar] at hle
  exact absurd hle (by decide)

end Line

namespace Session

variable {s s' : Session} {e : LineEvent} {es : List LineEvent}

/-! ### Lines in order -/

/-- The buffer holds `old` bytes handed out before, and then the draft. -/
structure InSync (s : Session) (old : ℕ) : Prop where
  length : s.line.currentChar = old + s.draft.length
  bytes : ∀ j (hj : j < s.draft.length), s.line.keyboardBuffer (old + j) = s.draft[j]
  flag : s.line.enterFlag = s.entered

/-- The lines read are the lines ended, each with its newline, but for one that waits. -/
def InOrder (s : Session) : Prop :=
  s.committed.map (· ++ [newlineAscii]) =
    s.delivered ++ if s.entered then [s.draft ++ [newlineAscii]] else []

/-- The events that leave the editor's line and the buffer's line the same: no character is
refused because of bytes handed out before, no read ends while such bytes are left, and no
write finds characters that are still unread. -/
def KeepsLine (s : Session) : LineEvent → Prop
  | .key c => c ≠ newlineAscii → c ≠ backspaceAscii → s.entered = false →
      s.line.currentChar = s.draft.length ∨ s.line.currentChar < maxBufferLength - 1
  | .read => s.line.currentChar = s.draft.length
  | .write nbytes => nbytes ≤ maxInputBufLen → s.draft = []
  | .clear => True
  | .pass => True

instance (s : Session) (e : LineEvent) : Decidable (KeepsLine s e) := by
  unfold KeepsLine
  split <;> infer_instance

lemma InSync.store {old i : ℕ} {b : UInt8} (hs : s.InSync old) (hi : s.line.currentChar ≤ i)
    (j : ℕ) (hj : j < s.draft.length) :
    Function.update s.line.keyboardBuffer i b (old + j) = s.draft[j] := by
  have hlen := hs.length
  rw [Function.update_of_ne (by omega), hs.bytes j hj]

lemma InSync.type {old : ℕ} {c : UInt8} (hs : s.InSync old) (hn : c ≠ newlineAscii)
    (hb : c ≠ backspaceAscii) (he : s.entered = false)
    (hg : s.line.currentChar = s.draft.length ∨ s.line.currentChar < maxBufferLength - 1) :
    ({ s.edit c with line := s.line.typeKey c } : Session).InSync old := by
  have hlen := hs.length
  have hflag : ¬(c = newlineAscii ∨ s.line.enterFlag = true) := by
    rw [hs.flag, he]
    simp [hn]
  unfold Line.typeKey edit
  rw [if_neg hflag, if_neg hb, he, if_neg Bool.false_ne_true, if_neg hn, if_neg hb]
  by_cases hfull : maxBufferLength - 1 ≤ s.line.currentChar
  · have hdraft : maxBufferLength - 1 ≤ s.draft.length := by omega
    rw [if_pos hfull, if_pos hdraft]
    exact ⟨hs.length, hs.bytes, hs.flag⟩
  · have hdraft : ¬maxBufferLength - 1 ≤ s.draft.length := by omega
    rw [if_neg hfull, if_neg hdraft]
    refine ⟨?_, ?_, hs.flag.trans he⟩
    · simp only [List.length_append, List.length_singleton]
      omega
    · intro j hj
      by_cases hlast : j < s.draft.length
      · simp only [List.getElem_append_left hlast]
        exact hs.store le_rfl j hlast
      · have heq : j = s.draft.length := by
          simp only [List.length_append, List.length_singleton] at hj
          omega
        subst heq
        simp [← hlen]

/-- Backspace before Enter: the last character of the draft goes, or else the last byte handed
out before. -/
lemma InSync.erase {old : ℕ} (hs : s.InSync old) (he : s.entered = false) :
    ∃ old' ≤ old, ({ s.edit backspaceAscii with line := s.line.typeKey backspaceAscii } :
      Session).InSync old' := by
  have hlen := hs.length
  have hne : ¬backspaceAscii = newlineAscii := by decide
  have hflag : ¬(backspaceAscii = newlineAscii ∨ s.line.enterFlag = true) := by
    rw [hs.flag, he]
    decide
  unfold Line.typeKey edit
  rw [if_neg hflag, if_pos rfl, he, if_neg Bool.false_ne_true, if_neg hne, if_pos rfl]
  by_cases hempty : s.draft = []
  · refine ⟨old - 1, Nat.sub_le .., ?_, ?_, hs.flag.trans he⟩
    · simp only [hempty, List.dropLast_nil, List.length_nil] at hlen ⊢
      omega
    · intro j hj
      simp [hempty] at hj
  · have hpos := List.length_pos_iff.mpr hempty
    refine ⟨old, le_rfl, ?_, ?_, hs.flag.trans he⟩
    · simp only [List.length_dropLast]
      omega
    · intro j hj
      simp only [List.length_dropLast] at hj
      have hne : old + j ≠ s.line.currentChar - 1 := by omega
      simp only [List.getElem_dropLast, Function.update_of_ne hne]
      exact hs.bytes j (by omega)

lemma InSync.taken (hs : s.InSync 0) : s.line.bytesTaken = s.draft ++ [newlineAscii] := by
  have hlen := hs.length
  rw [Nat.zero_add] at hlen
  unfold Line.bytesTaken Line.takeLine
  simp only [hlen]
  rw [List.range_succ, List.map_append]
  congr 1
  · apply List.ext_getElem
    · simp
    · intro j hj hj'
      have hstore := hs.store (b := newlineAscii) hlen.le j hj'
      simpa using hstore
  · simp

lemma key_inSync {old : ℕ} {c : UInt8} (hs : s.InSync old) (hg : s.KeepsLine (.key c)) :
    ∃ old' ≤ old, ({ s.edit c with line := s.line.typeKey c } : Session).InSync old' := by
  cases he : s.entered with
  | true =>
    refine ⟨old, le_rfl, ?_⟩
    have hflag : s.line.enterFlag = true := hs.flag.trans he
    unfold Line.typeKey edit
    rw [if_pos (Or.inr hflag), if_pos he]
    exact ⟨hs.length, hs.bytes, he.symm⟩
  | false =>
    by_cases hn : c = newlineAscii
    · refine ⟨old, le_rfl, ?_⟩
      unfold Line.typeKey edit
      rw [if_pos (Or.inl hn), he, if_neg Bool.false_ne_true, if_pos hn]
      exact ⟨hs.length, hs.bytes, rfl⟩
    · by_cases hb : c = backspaceAscii
      · subst hb
        exact hs.erase he
      · exact ⟨old, le_rfl, hs.type hn hb he (hg hn hb he)⟩

lemma key_inOrder (c : UInt8) (h : s.InOrder) : (s.edit c).InOrder := by
  unfold edit
  cases he : s.entered with
  | true => exact h
  | false =>
    have hlog : s.committed.map (· ++ [newlineAscii]) = s.delivered := by
      simpa [InOrder, he] using h
    rw [if_neg Bool.false_ne_true]
    split_ifs
    · simp [InOrder, hlog]
    · simp [InOrder, hlog]
    · simp [InOrder, hlog, he]
    · simp [InOrder, hlog]

lemma step_inOrder {old : ℕ} (hs : s.InSync old) (ho : s.InOrder) (hg : s.KeepsLine e)
    (h : s.step e = some s') : (∃ old', s'.InSync old') ∧ s'.InOrder := by
  cases e with
  | key c =>
    obtain rfl := Option.some.inj h
    obtain ⟨old', -, hold⟩ := key_inSync hs hg
    exact ⟨⟨old', hold⟩, key_inOrder c ho⟩
  | clear =>
    obtain rfl := Option.some.inj h
    exact ⟨⟨old, hs.length, hs.bytes, hs.flag⟩, ho⟩
  | pass =>
    simp only [step, Line.step] at h
    by_cases hf : s.line.enterFlag
    · rw [if_pos hf] at h
      exact absurd h (by simp)
    rw [if_neg hf] at h
    obtain rfl := Option.some.inj h
    refine ⟨⟨old, ?_⟩, ho⟩
    unfold Line.waitPass
    split_ifs
    · exact ⟨hs.length, hs.store le_rfl, hs.flag⟩
    · exact ⟨hs.length, hs.bytes, hs.flag⟩
  | read =>
    have hold : old = 0 := by
      have hlen := hs.length
      have hread : s.line.currentChar = s.draft.length := hg
      omega
    subst hold
    simp only [step, Line.step] at h
    by_cases hf : s.line.enterFlag
    swap
    · rw [if_neg hf] at h
      exact absurd h (by simp)
    rw [if_pos hf] at h
    obtain rfl := Option.some.inj h
    have hentered : s.entered = true := hs.flag.symm.trans hf
    refine ⟨⟨s.line.currentChar + 1, rfl, fun j hj => absurd hj (Nat.not_lt_zero j), rfl⟩, ?_⟩
    have hlog : s.committed.map (· ++ [newlineAscii]) =
        s.delivered ++ [s.draft ++ [newlineAscii]] := by
      simpa [InOrder, hentered] using ho
    simp [InOrder, hlog, hs.taken]
  | write nbytes =>
    obtain rfl := Option.some.inj h
    by_cases hlong : maxInputBufLen < nbytes
    · have hsame : s.line.writeOver nbytes = s.line := if_pos hlong
      simp only [hsame]
      exact ⟨⟨old, hs.length, hs.bytes, hs.flag⟩, ho⟩
    · have hdraft : s.draft = [] := hg (not_lt.mp hlong)
      refine ⟨⟨0, ?_, fun j hj => ?_, ?_⟩, ho⟩
      · have hzero : (s.line.writeOver nbytes).currentChar = 0 := by
          rw [Line.writeOver, if_neg hlong]
        simp only [hzero, hdraft, List.length_nil]
      · simp [hdraft] at hj
      · simp only [Line.writeOver, if_neg hlong]
        exact hs.flag

/-- In every run in which each read ends with nothing left in the buffer from an earlier one,
no character is refused for such a rest, and no write finds unread characters, the reads
return exactly the lines ended by Enter, in order, each with its newline. -/
theorem delivered_run (h : Runs.Path step KeepsLine start es s) :
    s.committed.map (· ++ [newlineAscii]) =
      s.delivered ++ if s.entered then [s.draft ++ [newlineAscii]] else [] := by
  have hinv : (∃ old, s.InSync old) ∧ s.InOrder := by
    refine h.invariant (I := fun s => (∃ old, s.InSync old) ∧ s.InOrder) ?_ ?_
    · intro s e u hs hg hstep
      obtain ⟨⟨old, hsync⟩, ho⟩ := hs
      exact step_inOrder hsync ho hg hstep
    · exact ⟨⟨0, rfl, fun j hj => absurd hj (Nat.not_lt_zero j), rfl⟩, rfl⟩
  exact hinv.2

/-- Two lines, with a write between them. -/
def twoLines : List LineEvent :=
  [.key 97, .key 98, .key backspaceAscii, .pass, .key newlineAscii, .read, .write 1,
    .key 99, .key newlineAscii, .read]

theorem delivered_run_twice : ∃ s, Runs.Path step KeepsLine start twoLines s ∧
    s.committed.map (· ++ [newlineAscii]) =
      s.delivered ++ if s.entered then [s.draft ++ [newlineAscii]] else [] := by
  have hrun : (Runs.run step KeepsLine start twoLines).isSome := by decide +kernel
  obtain ⟨s, hs⟩ := Option.isSome_iff_exists.mp hrun
  exact ⟨s, Runs.path_of_run hs, delivered_run (Runs.path_of_run hs)⟩

/-- A second read without a write in between hands the first line out again. -/
theorem second_read_repeats : ¬∀ (es : List LineEvent) (s : Session),
    Runs.Path step (fun _ _ => True) start es s →
    s.committed.map (· ++ [newlineAscii]) =
      s.delivered ++ if s.entered then [s.draft ++ [newlineAscii]] else [] := by
  intro h
  have hrun : (Runs.run step (fun _ _ => True) start
      [.key 97, .key newlineAscii, .read, .key newlineAscii, .read]).map
        (fun s => (s.committed, s.delivered, s.entered)) =
      some ([[97], []], [[97, newlineAscii], [97, newlineAscii, newlineAscii]], false) := by
    decide +kernel
  obtain ⟨s, hs, hlog⟩ := Option.map_eq_some_iff.mp hrun
  obtain ⟨hc, hd, he⟩ : s.committed = _ ∧ s.delivered = _ ∧ s.entered = _ := by
    simpa only [Prod.mk.injEq] using hlog
  have horder := h _ s (Runs.path_of_run hs)
  rw [hc, hd, he, if_neg Bool.false_ne_true] at horder
  exact absurd horder (by decide)

end Session

end HalOs
