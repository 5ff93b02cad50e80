import HalOs.Model.Events

/-!
# The rows of `terminal_write`

`terminal_write` scrolls until the newlines of its text fit below the current line. Up to 25
newlines can be made to fit; with more the 8-bit line counter goes around and the loop never
ends. A line break on the last row moves the cursor below the screen, and whatever is
printed after it is stored past the last cell.
-/

namespace HalOs

/-! ### Stores inside the screen -/

namespace Console

/-- Every store has gone to one of the 2000 cells of the screen. -/
def Inside (v : Console) : Prop := ∀ off ∈ v.stores, off / 2 < numRows * numCols

variable {v : Console} {c : UInt8} {row : ℕ}

lemma inside_store (off : ℕ) (b : UInt8) :
    (v.store off b).Inside ↔ off / 2 < numRows * numCols ∧ v.Inside := by
  simp [Inside, store]

lemma inside_setCursor (x y : ℕ) : (v.setCursor x y).Inside ↔ v.Inside := Iff.rfl

lemma inside_foldl {ι : Type*} {f : Console → ι → Console} {is : List ι}
    (hf : ∀ v, ∀ i ∈ is, (f v i).Inside ↔ v.Inside) : (is.foldl f v).Inside ↔ v.Inside := by
  induction is generalizing v with
  | nil => rfl
  | cons i is ih =>
    rw [List.foldl_cons, ih fun v j hj => hf v j (by simp [hj])]
    exact hf v i (by simp)

lemma inside_copyRowUp (hrow : row < numRows) : (v.copyRowUp row).Inside ↔ v.Inside := by
  apply inside_foldl
  intro v i hi
  have hlt := List.mem_range.mp hi
  rw [inside_store]
  simp only [numRows, numCols] at hrow hlt ⊢
  have hcell : (80 * row * 2 + i) / 2 < 25 * 80 := by omega
  exact and_iff_right hcell

lemma inside_blankRow (hrow : row < numRows) : (v.blankRow row).Inside ↔ v.Inside := by
  apply inside_foldl
  intro v i hi
  have hlt := List.mem_range.mp hi
  rw [inside_store]
  simp only [numRows, numCols] at hrow hlt ⊢
  have hcell : (80 * row * 2 + i) / 2 < 25 * 80 := by omega
  exact and_iff_right hcell

lemma inside_shiftVideoMemUp : (v.shiftVideoMemUp 0 numRows).Inside ↔ v.Inside := by
  have hlast : numRows - 1 < numRows := by decide
  unfold shiftVideoMemUp
  rw [if_neg (by decide)]
  dsimp only
  rw [Nat.min_eq_right (Nat.sub_le numRows 1), inside_blankRow hlast]
  apply inside_foldl
  intro v i hi
  apply inside_copyRowUp
  obtain ⟨hlow, hhigh⟩ := List.mem_range'_1.mp hi
  omega

/-! ### Where a text goes -/

/-- The line and column after a character, on an endless screen of 80 columns. -/
def layout (pos : ℕ × ℕ) (c : UInt8) : ℕ × ℕ :=
  if isBreak c then (pos.1 + 1, 0)
  else if pos.2 + 1 = numCols then (pos.1 + 1, 0)
  else (pos.1, pos.2 + 1)

/-- No line break that falls on the last row has more text after it. -/
def StaysOnScreen (pos : ℕ × ℕ) (text : List UInt8) : Prop :=
  ∀ pre c post, text = pre ++ c :: post → isBreak c = true →
    (pre.foldl layout pos).1 % numRows = numRows - 1 → ∀ d ∈ post, isBreak d = true

lemma staysOnScreen_nil (pos : ℕ × ℕ) : StaysOnScreen pos [] := by
  intro pre c post h
  exact absurd h (by simp)

lemma staysOnScreen_cons {pos : ℕ × ℕ} {text : List UInt8} : StaysOnScreen pos (c :: text) ↔
    (isBreak c = true → pos.1 % numRows = numRows - 1 → ∀ d ∈ text, isBreak d = true) ∧
      StaysOnScreen (layout pos c) text := by
  constructor
  · intro h
    refine ⟨fun hb hrow => h [] c text rfl hb hrow, fun pre d post heq hd hrow => ?_⟩
    exact h (c :: pre) d post (by rw [heq]; rfl) hd hrow
  · rintro ⟨hfirst, hrest⟩ pre d post heq hd hrow
    cases pre with
    | nil =>
      simp only [List.nil_append, List.cons.injEq] at heq
      obtain ⟨rfl, rfl⟩ := heq
      exact hfirst hd hrow
    | cons p pre =>
      simp only [List.cons_append, List.cons.injEq] at heq
      obtain ⟨rfl, rfl⟩ := heq
      exact hrest pre d post rfl hd hrow

lemma staysOnScreen_of_breaks {pos : ℕ × ℕ} {text : List UInt8}
    (h : ∀ d ∈ text, isBreak d = true) : StaysOnScreen pos text := by
  intro pre c post heq _ _ d hd
  apply h d
  rw [heq]
  simp [hd]

lemma putc_break (h : isBreak c = true) :
    v.putc c = { v with screenY := v.screenY + 1, screenX := 0 } := if_pos h

lemma putc_char_inside (h : isBreak c = false) :
    (v.putc c).Inside ↔ numCols * v.screenY + v.screenX < numRows * numCols ∧ v.Inside := by
  have hc : ¬isBreak c = true := by simp [h]
  have hstep : (v.putc c).Inside ↔ ((v.store ((numCols * v.screenY + v.screenX) * 2) c).store
      ((numCols * v.screenY + v.screenX) * 2 + 1) attrib).Inside := by
    unfold putc
    rw [if_neg hc]
    rfl
  have hodd : ((numCols * v.screenY + v.screenX) * 2 + 1) / 2 = numCols * v.screenY + v.screenX := by
    omega
  have heven : ((numCols * v.screenY + v.screenX) * 2) / 2 = numCols * v.screenY + v.screenX := by
    omega
  rw [hstep, inside_store, inside_store, hodd, heven]
  tauto

lemma putc_char_cursor (h : isBreak c = false) :
    (v.putc c).screenX = (v.screenX + 1) % numCols ∧
      (v.putc c).screenY = (v.screenY + (v.screenX + 1) / numCols) % numRows := by
  have hc : ¬isBreak c = true := by simp [h]
  unfold putc
  rw [if_neg hc]
  exact ⟨rfl, rfl⟩

/-- Stores are never taken back. -/
lemma inside_of_putc (h : (v.putc c).Inside) : v.Inside := by
  cases hc : isBreak c with
  | true =>
    rw [putc_break hc] at h
    exact h
  | false => exact ((putc_char_inside hc).mp h).2

lemma inside_of_foldl_putc {text : List UInt8} (h : (text.foldl (fun v c => v.putc c) v).Inside) :
    v.Inside := by
  induction text generalizing v with
  | nil => exact h
  | cons c text ih => exact inside_of_putc (ih h)

/-- Below the last row only line breaks are harmless. -/
lemma inside_below {text : List UInt8} (hy : numRows ≤ v.screenY) (hv : v.Inside) :
    (text.foldl (fun v c => v.putc c) v).Inside ↔ ∀ d ∈ text, isBreak d = true := by
  induction text generalizing v with
  | nil => simp [hv]
  | cons c text ih =>
    rw [List.foldl_cons, List.forall_mem_cons]
    cases hc : isBreak c with
    | true =>
      rw [putc_break hc, ih (v := { v with screenY := v.screenY + 1, screenX := 0 })
        (Nat.le_succ_of_le hy) hv]
      simp
    | false =>
      simp only [Bool.false_eq_true, false_and, iff_false]
      intro h
      have hcell := ((putc_char_inside hc).mp (inside_of_foldl_putc h)).1
      simp only [numRows, numCols] at hy hcell
      omega

/-- Text printed from a row of the screen stays inside if and only if no line break on the
last row has more text after it. -/
theorem inside_puts_iff (text : List UInt8) {line : ℕ} (hx : v.screenX < numCols)
    (hy : v.screenY = line % numRows) (hv : v.Inside) :
    (text.foldl (fun v c => v.putc c) v).Inside ↔ StaysOnScreen (line, v.screenX) text := by
  induction text generalizing v line with
  | nil => simp [hv, staysOnScreen_nil]
  | cons c text ih =>
    have hrow : v.screenY < numRows := by
      rw [hy]
      exact Nat.mod_lt _ (by decide)
    rw [List.foldl_cons, staysOnScreen_cons]
    cases hc : isBreak c with
    | true =>
      have hlayout : layout (line, v.screenX) c = (line + 1, 0) := if_pos hc
      rw [putc_break hc, hlayout]
      by_cases hlast : line % numRows = numRows - 1
      · have hbelow : numRows ≤ v.screenY + 1 := by
          rw [hy, hlast]
          decide
        rw [inside_below (v := { v with screenY := v.screenY + 1, screenX := 0 }) hbelow hv]
        constructor
        · intro h
          exact ⟨fun _ _ => h, staysOnScreen_of_breaks h⟩
        · intro h
          exact h.1 rfl hlast
      · have hnext : v.screenY + 1 = (line + 1) % numRows := by
          simp only [numRows] at hy hlast hrow ⊢
          omega
        rw [ih (v := { v with screenY := v.screenY + 1, screenX := 0 }) (Nat.zero_lt_succ 79) hnext
          hv]
        constructor
        · intro h
          exact ⟨fun _ hl => absurd hl hlast, h⟩
        · intro h
          exact h.2
    | false =>
      obtain ⟨hx', hy'⟩ := putc_char_cursor (v := v) hc
      have hcell : numCols * v.screenY + v.screenX < numRows * numCols := by
        simp only [numRows, numCols] at hx hrow ⊢
        omega
      have hinside : (v.putc c).Inside := (putc_char_inside hc).mpr ⟨hcell, hv⟩
      have hcol : (v.putc c).screenX < numCols := by
        rw [hx']
        exact Nat.mod_lt _ (by decide)
      have hpos : (v.putc c).screenY = (layout (line, v.screenX) c).1 % numRows ∧
          (v.putc c).screenX = (layout (line, v.screenX) c).2 := by
        rw [hx', hy']
        unfold layout
        rw [if_neg (by simp [hc])]
        simp only [numRows, numCols] at hx hy ⊢
        split_ifs with hwrap
        · dsimp only
          constructor
          · rw [hwrap, hy]
            omega
          · omega
        · dsimp only
          constructor
          · rw [hy]
            omega
          · omega
      rw [ih hcol hpos.1 hinside, hpos.2]
      simp

end Console

namespace Writer

variable {w w' : Writer} {buf : List UInt8} {nbytes fuel n : ℕ}

/-! ### The scrolling loops -/

/-- What scrolling changes: the line counter, and the console inside the screen. -/
structure Scrolled (w w' : Writer) (line : ℕ) : Prop where
  info : w'.info = { w.info with currentLine := line }
  console : w'.console.Inside ↔ w.console.Inside

lemma Scrolled.refl (w : Writer) : Scrolled w w w.info.currentLine := ⟨rfl, Iff.rfl⟩

lemma Scrolled.line {line : ℕ} (h : Scrolled w w' line) : w'.info.currentLine = line := by
  rw [h.info]

lemma Scrolled.trans {w₁ : Writer} {line line' : ℕ} (h : Scrolled w w₁ line)
    (h' : Scrolled w₁ w' line') : Scrolled w w' line' := by
  refine ⟨?_, h'.console.trans h.console⟩
  rw [h'.info, h.info]

lemma scrollLine_scrolled (hpos : 0 < w.info.currentLine) (hbyte : w.info.currentLine < 256) :
    Scrolled w w.scrollLine (w.info.currentLine - 1) := by
  have hline : (w.info.currentLine + 255) % 256 = w.info.currentLine - 1 := by omega
  have hinfo : w.scrollLine.info = { w.info with currentLine := w.info.currentLine - 1 } :=
    congrArg (fun line => { w.info with currentLine := line }) hline
  have hconsole : w.scrollLine.console = w.console.shiftVideoMemUp 0 numRows := rfl
  refine ⟨hinfo, ?_⟩
  rw [hconsole]
  exact Console.inside_shiftVideoMemUp

/-- A loop that scrolls a line at a time until the counter is at most `n` stops there. -/
lemma scrollWhile_spec {cond : Writer → Prop} [DecidablePred cond]
    (hcond : ∀ w : Writer, cond w ↔ n < w.info.currentLine) (hbyte : w.info.currentLine < 256) :
    (∃ m w', ∀ fuel, m ≤ fuel → Loops.whileLoop cond scrollLine fuel w = some w') ∧
      ∀ fuel w', Loops.whileLoop cond scrollLine fuel w = some w' →
        Scrolled w w' (min w.info.currentLine n) := by
  have hstep : ∀ s : Writer, s.info.currentLine < 256 → cond s →
      s.scrollLine.info.currentLine < 256 ∧
        s.scrollLine.info.currentLine < s.info.currentLine := by
    intro s hs hc
    have hpos := (hcond s).mp hc
    have hline := (scrollLine_scrolled (by omega) hs).line
    omega
  constructor
  · obtain ⟨w', hw'⟩ := Loops.whileLoop_terminates (I := fun s : Writer => s.info.currentLine < 256)
      (fun s => s.info.currentLine) hstep hbyte
    exact ⟨w.info.currentLine, w', fun fuel hf => Loops.whileLoop_mono hw' hf⟩
  · intro fuel w' h
    have hkeep : ∀ s : Writer, s.info.currentLine ≤ w.info.currentLine ∧
        min w.info.currentLine n ≤ s.info.currentLine ∧ Scrolled w s s.info.currentLine →
        cond s → s.scrollLine.info.currentLine ≤ w.info.currentLine ∧
        min w.info.currentLine n ≤ s.scrollLine.info.currentLine ∧
        Scrolled w s.scrollLine s.scrollLine.info.currentLine := by
      rintro s ⟨hle, -, hs⟩ hc
      have hpos := (hcond s).mp hc
      have hs' := scrollLine_scrolled (w := s) (by omega) (by omega)
      rw [hs'.line]
      exact ⟨by omega, by omega, hs.trans hs'⟩
    obtain ⟨⟨hle, hlow, hs⟩, hdone⟩ :=
      Loops.whileLoop_invariant hkeep h ⟨le_refl _, Nat.min_le_left _ _, Scrolled.refl w⟩
    have hhigh : ¬n < w'.info.currentLine := fun hlt => hdone ((hcond w').mpr hlt)
    have heq : w'.info.currentLine = min w.info.currentLine n := by omega
    rwa [heq] at hs

lemma scrollDown_spec (hbyte : w.info.currentLine < 256) :
    (∃ m w', ∀ fuel, m ≤ fuel → w.scrollDown fuel = some w') ∧ ∀ fuel w', w.scrollDown fuel = some w' →
      Scrolled w w' (min w.info.currentLine (numRows - 1)) :=
  scrollWhile_spec (fun _ => Iff.rfl) hbyte

lemma makeRoom_spec (hbyte : w.info.currentLine < 256) (hn : n ≤ numRows) :
    (∃ m w', ∀ fuel, m ≤ fuel → w.makeRoom n fuel = some w') ∧ ∀ fuel w', w.makeRoom n fuel = some w' →
      Scrolled w w' (min w.info.currentLine (numRows - n)) := by
  apply scrollWhile_spec _ hbyte
  intro s
  simp only [numRows] at hn ⊢
  omega

/-- With more newlines than rows the loop that makes room never ends. -/
lemma makeRoom_diverges (hn : numRows < n) : w.makeRoom n fuel = none := by
  refine Loops.whileLoop_diverges (I := fun _ => True) (fun s _ => ⟨?_, trivial⟩) trivial
  simp only [numRows] at hn ⊢
  omega

/-! ### The line a text starts on -/

/-- The line after the input still in the keyboard buffer and the scrolling it needs. -/
def lineBelowInput (info : TerminalInfo) : ℕ :=
  min (info.currentLine + if 0 < info.currentChar then 1 else 0) (numRows - 1)

/-- The line `terminal_write` starts to print on, when its text has at most 25 newlines. -/
def startLine (info : TerminalInfo) (newlines nbytes : ℕ) : ℕ :=
  let line := lineBelowInput info
  min (if line = numRows - 1 ∧ (numCols : ℤ) - info.charInLine ≤ nbytes then line - 1 else line)
    (numRows - newlines)

lemma dropInput_info (hline : w.info.currentLine ≤ numRows) :
    w.dropInput.info.currentLine = w.info.currentLine + (if 0 < w.info.currentChar then 1 else 0) ∧
      w.dropInput.info.charInLine = w.info.charInLine ∧ w.dropInput.console = w.console := by
  unfold dropInput
  simp only [numRows] at hline
  by_cases hc : 0 < w.info.currentChar
  · simp only [if_pos hc, and_self, and_true]
    omega
  · simp only [if_neg hc, Nat.add_zero, and_self]

lemma wrapRoom_scrolled (w : Writer) (nbytes : ℕ) :
    Scrolled w (w.wrapRoom nbytes)
      (if w.info.currentLine = numRows - 1 ∧ (numCols : ℤ) - w.info.charInLine ≤ nbytes then
        w.info.currentLine - 1 else w.info.currentLine) := by
  unfold wrapRoom
  split_ifs with hc
  · have hlast : w.info.currentLine = 24 := hc.1
    exact scrollLine_scrolled (by omega) (by omega)
  · exact Scrolled.refl w

lemma lineBelowInput_lt (info : TerminalInfo) : lineBelowInput info < numRows := by
  unfold lineBelowInput
  simp only [numRows]
  omega

lemma startLine_lt (info : TerminalInfo) (newlines nbytes : ℕ) :
    startLine info newlines nbytes < numRows := by
  have hlow := lineBelowInput_lt info
  unfold startLine
  dsimp only
  split_ifs <;> omega

/-- The two scrolling blocks before the text is printed. -/
def prepare (newlines nbytes fuel : ℕ) (w : Writer) : Option Writer :=
  (w.dropInput.scrollDown fuel).bind fun w => (w.wrapRoom nbytes).makeRoom newlines fuel

lemma belowInput_scrolled (hline : w.info.currentLine ≤ numRows)
    (h : w.dropInput.scrollDown fuel = some w') :
    Scrolled w.dropInput w' (lineBelowInput w.info) := by
  obtain ⟨hdrop, -, -⟩ := dropInput_info hline
  have hbyte : w.dropInput.info.currentLine < 256 := by
    rw [hdrop]
    simp only [numRows] at hline
    split_ifs <;> omega
  have hs := (scrollDown_spec hbyte).2 fuel w' h
  rw [hdrop] at hs
  exact hs

lemma prepare_scrolled (hline : w.info.currentLine ≤ numRows) (hn : n ≤ numRows)
    (h : w.prepare n nbytes fuel = some w') :
    Scrolled w.dropInput w' (startLine w.info n nbytes) := by
  obtain ⟨w₁, h₁, h⟩ := Option.bind_eq_some_iff.mp h
  have hs₁ := belowInput_scrolled hline h₁
  have hlt := lineBelowInput_lt w.info
  have hs₂ := wrapRoom_scrolled w₁ nbytes
  have hchar : w₁.info.charInLine = w.info.charInLine := by
    rw [hs₁.info]
    exact (dropInput_info hline).2.1
  rw [hs₁.line, hchar] at hs₂
  have hbyte : (w₁.wrapRoom nbytes).info.currentLine < 256 := by
    rw [hs₂.line]
    simp only [numRows] at hlt ⊢
    split_ifs <;> omega
  have hs₃ := (makeRoom_spec hbyte hn).2 fuel w' h
  rw [hs₂.line] at hs₃
  exact (hs₁.trans hs₂).trans hs₃

lemma prepare_completes (nbytes : ℕ) (hline : w.info.currentLine ≤ numRows) (hn : n ≤ numRows) :
    ∃ m w', ∀ fuel, m ≤ fuel → w.prepare n nbytes fuel = some w' := by
  obtain ⟨hdrop, -, -⟩ := dropInput_info hline
  have hbyte : w.dropInput.info.currentLine < 256 := by
    rw [hdrop]
    simp only [numRows] at hline
    split_ifs <;> omega
  obtain ⟨m, w₁, hw₁⟩ := (scrollDown_spec hbyte).1
  have hs₁ := belowInput_scrolled hline (hw₁ m le_rfl)
  have hs₂ := wrapRoom_scrolled w₁ nbytes
  have hlt := lineBelowInput_lt w.info
  have hbyte₂ : (w₁.wrapRoom nbytes).info.currentLine < 256 := by
    rw [hs₂.line, hs₁.line]
    simp only [numRows] at hlt ⊢
    split_ifs <;> omega
  obtain ⟨m', w₂, hw₂⟩ := (makeRoom_spec hbyte₂ hn).1
  refine ⟨max m m', w₂, fun fuel hf => ?_⟩
  have h₁ := hw₁ fuel (le_trans (Nat.le_max_left m m') hf)
  have h₂ := hw₂ fuel (le_trans (Nat.le_max_right m m') hf)
  simp only [prepare, h₁, Option.bind_some, h₂]

/-! ### After the text -/

lemma advance_console (w : Writer) (buf : List UInt8) (nbytes : ℕ) :
    (w.advance buf nbytes).1.console = w.console := by
  unfold advance
  split_ifs <;> rfl

/-- The line counter, in 8 bits, always comes back to the screen. -/
lemma nextLine_spec (w : Writer) (n nbytes : ℕ) :
    (∃ m w', ∀ fuel, m ≤ fuel → w.nextLine n nbytes fuel = some w') ∧
      ∀ fuel w', w.nextLine n nbytes fuel = some w' →
        (w'.console.Inside ↔ w.console.Inside) := by
  let line := (w.info.currentLine + n) % 256
  let line := if (numCols : ℤ) - w.info.charInLine ≤ nbytes then (line + 1) % 256 else line
  have hbyte : line < 256 := by
    simp only [line]
    split_ifs <;> omega
  obtain ⟨⟨m, w₁, hw₁⟩, hspec⟩ :=
    scrollDown_spec (w := { w with info := { w.info with currentLine := line } }) hbyte
  constructor
  · exact ⟨m, _, fun fuel hf => Option.map_eq_some_iff.mpr ⟨w₁, hw₁ fuel hf, rfl⟩⟩
  · intro fuel w' h
    obtain ⟨w₂, hw₂, rfl⟩ := Option.map_eq_some_iff.mp h
    exact (hspec fuel w₂ hw₂).console

/-! ### The whole call -/

/-- What follows the scrolling. -/
def finish (buf : List UInt8) (nbytes fuel : ℕ) (w : Writer) : Option Writer :=
  let last := (w.print buf).advance buf nbytes
  if newlineCount buf nbytes = 0 then some last.1
  else last.1.nextLine (newlineCount buf nbytes) last.2 fuel

lemma terminalWrite_eq (hle : nbytes ≤ maxInputBufLen) : terminalWrite fuel buf nbytes w =
    (w.prepare (newlineCount buf nbytes) nbytes fuel).bind fun w =>
      (w.finish buf nbytes fuel).map fun w =>
        (min nbytes ((measured buf nbytes).length + 1), { w with
          console := w.console.setCursor w.info.charInLine w.info.currentLine }) := by
  unfold terminalWrite prepare
  rw [if_neg (not_lt.mpr hle), Option.bind_assoc]
  rfl

lemma finish_spec (w : Writer) (buf : List UInt8) (nbytes : ℕ) :
    (∃ m w', ∀ fuel, m ≤ fuel → w.finish buf nbytes fuel = some w') ∧
      ∀ fuel w', w.finish buf nbytes fuel = some w' →
        (w'.console.Inside ↔ (w.print buf).console.Inside) := by
  have hconsole := advance_console (w.print buf) buf nbytes
  obtain ⟨⟨m, w₁, hw₁⟩, hspec⟩ := nextLine_spec ((w.print buf).advance buf nbytes).1
    (newlineCount buf nbytes) ((w.print buf).advance buf nbytes).2
  by_cases h0 : newlineCount buf nbytes = 0
  · refine ⟨⟨0, _, fun fuel _ => if_pos h0⟩, fun fuel w' h => ?_⟩
    obtain rfl := Option.some.inj ((if_pos h0).symm.trans h)
    rw [hconsole]
  · constructor
    · exact ⟨m, w₁, fun fuel hf => (if_neg h0).trans (hw₁ fuel hf)⟩
    · intro fuel w' h
      rw [hspec fuel w' ((if_neg h0).symm.trans h), hconsole]

lemma newlines_of_returns (hle : nbytes ≤ maxInputBufLen)
    (h : (terminalWrite fuel buf nbytes w).isSome = true) : newlineCount buf nbytes ≤ numRows := by
  by_contra hmany
  have hnone : w.prepare (newlineCount buf nbytes) nbytes fuel = none := by
    unfold prepare
    cases w.dropInput.scrollDown fuel with
    | none => rfl
    | some w₁ => exact makeRoom_diverges (not_le.mp hmany)
  rw [terminalWrite_eq hle, hnone] at h
  exact absurd h (by simp)

/-- From a line of the screen or the one below it, `terminal_write` returns if and only if
its text has at most 25 newlines. -/
theorem terminalWrite_returns_iff (hle : nbytes ≤ maxInputBufLen)
    (hline : w.info.currentLine ≤ numRows) :
    (∃ fuel, (terminalWrite fuel buf nbytes w).isSome = true) ↔
      newlineCount buf nbytes ≤ numRows := by
  constructor
  · rintro ⟨fuel, h⟩
    exact newlines_of_returns hle h
  · intro hn
    obtain ⟨m, w₁, hw₁⟩ := prepare_completes nbytes hline hn
    obtain ⟨m', w₂, hw₂⟩ := (finish_spec w₁ buf nbytes).1
    refine ⟨max m m', ?_⟩
    rw [terminalWrite_eq hle, hw₁ _ (Nat.le_max_left m m'), Option.bind_some,
      hw₂ _ (Nat.le_max_right m m')]
    rfl

/-- The writer of a blank screen, on a given line. -/
def blankWriter (line : ℕ) : Writer :=
  ⟨{ Kernel.blankTerminal with currentLine := line }, ⟨0, 0, fun _ => 0, []⟩⟩

theorem terminalWrite_returns_one_line :
    ∃ fuel, (terminalWrite fuel [104, 105, 10] 3 (blankWriter 0)).isSome = true :=
  (terminalWrite_returns_iff (by decide) (by decide)).mpr (by decide)

/-- 26 newlines cannot be made to fit, and the loop that tries goes on for ever. -/
theorem terminalWrite_hangs : ¬∀ (buf : List UInt8) (nbytes : ℕ) (w : Writer), 1 ≤ nbytes →
    nbytes ≤ maxInputBufLen → w.info.currentLine ≤ numRows →
    ∃ fuel, (terminalWrite fuel buf nbytes w).isSome = true := by
  intro h
  obtain ⟨fuel, hf⟩ := h (List.replicate 26 newlineAscii) 26 (blankWriter 0) (by decide)
    (by decide) (by decide)
  exact absurd (newlines_of_returns (by decide) hf) (by decide)

/-! ### Stores of a whole call -/

/-- A call of `terminal_write` that returns keeps to the screen if and only if no line break
that falls on the last row has more text after it. -/
theorem terminalWrite_inside_iff {r : ℕ} (hline : w.info.currentLine < numRows)
    (hchar : w.info.charInLine < numCols) (hle : nbytes ≤ maxInputBufLen)
    (hempty : w.console.stores = []) (h : terminalWrite fuel buf nbytes w = some (r, w')) :
    w'.console.Inside ↔
      Console.StaysOnScreen (startLine w.info (newlineCount buf nbytes) nbytes, w.info.charInLine)
        (cString buf) := by
  have hn : newlineCount buf nbytes ≤ numRows :=
    newlines_of_returns hle (by rw [h, Option.isSome_some])
  rw [terminalWrite_eq hle] at h
  obtain ⟨w₁, hw₁, h⟩ := Option.bind_eq_some_iff.mp h
  obtain ⟨w₂, hw₂, h⟩ := Option.map_eq_some_iff.mp h
  simp only [Prod.mk.injEq] at h
  obtain ⟨-, rfl⟩ := h
  obtain ⟨-, hdchar, hdconsole⟩ := dropInput_info (w := w) hline.le
  have hs := prepare_scrolled hline.le hn hw₁
  have hcol : w₁.info.charInLine = w.info.charInLine := by rw [hs.info, hdchar]
  have hinside : w₁.console.Inside := by
    rw [hs.console, hdconsole, Console.Inside, hempty]
    simp
  have hx : w₁.info.charInLine % 256 = w.info.charInLine := by
    simp only [numCols] at hchar
    omega
  have hlt := startLine_lt w.info (newlineCount buf nbytes) nbytes
  have hy : w₁.info.currentLine % 256 = startLine w.info (newlineCount buf nbytes) nbytes := by
    rw [hs.line]
    simp only [numRows] at hlt
    omega
  have hxc : (w₁.console.setCursor w₁.info.charInLine w₁.info.currentLine).screenX =
      w.info.charInLine := hx
  have hyc : (w₁.console.setCursor w₁.info.charInLine w₁.info.currentLine).screenY =
      startLine w.info (newlineCount buf nbytes) nbytes % numRows :=
    hy.trans (Nat.mod_eq_of_lt hlt).symm
  have hputs := Console.inside_puts_iff (cString buf) (hxc.trans_lt hchar) hyc hinside
  rw [hxc] at hputs
  have hfinish := (finish_spec w₁ buf nbytes).2 fuel w₂ hw₂
  exact (Console.inside_setCursor _ _).trans (hfinish.trans hputs)

theorem terminalWrite_inside_one_line : ∃ w' : Writer,
    terminalWrite 0 [104, 105, 10] 3 (blankWriter 23) = some (3, w') ∧
      (w'.console.Inside ↔ Console.StaysOnScreen (23, 0) [104, 105, 10]) := by
  have hret : (terminalWrite 0 [104, 105, 10] 3 (blankWriter 23)).map Prod.fst = some 3 := by
    decide +kernel
  obtain ⟨⟨r, w'⟩, hw', hr⟩ := Option.map_eq_some_iff.mp hret
  obtain rfl : r = 3 := hr
  have hiff := terminalWrite_inside_iff (by decide) (by decide) (by decide) rfl hw'
  exact ⟨w', hw', hiff⟩

/-- A newline on the last row, followed by a letter. -/
theorem terminalWrite_below_screen : ¬∀ (fuel : ℕ) (buf : List UInt8) (nbytes r : ℕ)
    (w w' : Writer), w.info.currentLine < numRows → w.info.charInLine < numCols →
    nbytes = strlen buf → 1 ≤ nbytes → nbytes ≤ maxInputBufLen → w.console.stores = [] →
    terminalWrite fuel buf nbytes w = some (r, w') → w'.console.Inside := by
  intro h
  have hrun : (terminalWrite 1 [10, 97] 2 (blankWriter 24)).map
      (fun p => p.2.console.stores.any fun off => numRows * numCols ≤ off / 2) = some true := by
    decide +kernel
  obtain ⟨⟨r, w'⟩, hw', hout⟩ := Option.map_eq_some_iff.mp hrun
  have hin := h 1 [10, 97] 2 r (blankWriter 24) w' (by decide) (by decide) (by decide) (by decide)
    (by decide) rfl hw'
  obtain ⟨off, hmem, hoff⟩ := List.any_eq_true.mp hout
  exact absurd (hin off hmem) (not_lt.mpr (of_decide_eq_true hoff))

end Writer

end HalOs
