import HalOs.Proofs.ConsolePages
import HalOs.Proofs.PrintedText

/-!
# The screen after a sequence of writes

`terminal_write` prints with `putc` and then computes its stored cursor from byte counts
alone. Against a screen that wraps at column 80 and scrolls by itself, the two agree on a run
of writes as long as each text opens exactly the rows that the byte counts make for it.
-/

namespace HalOs

open Displays Console

/-! ### Counting rows and cells -/

namespace Console

variable {text : List UInt8} {pos : ℕ × ℕ}

/-- A carriage return before the last column. -/
def earlyReturn (pos : ℕ × ℕ) (c : UInt8) : Bool :=
  decide (c = returnAscii) && decide (pos.2 + 1 ≠ numCols)

/-- A character that starts a new row without being a newline. -/
def opensRow (pos : ℕ × ℕ) (c : UInt8) : Bool :=
  decide (c = returnAscii) || (!isBreak c && decide (pos.2 + 1 = numCols))

lemma isBreak_eq (c : UInt8) :
    isBreak c = (decide (c = newlineAscii) || decide (c = returnAscii)) := Bool.decide_or _ _

lemma layout_row (c : UInt8) : (layout pos c).1 =
    pos.1 + (if c = newlineAscii then 1 else 0) + if opensRow pos c then 1 else 0 := by
  have hne : newlineAscii ≠ returnAscii := by decide
  by_cases hnl : c = newlineAscii
  · simp [layout, opensRow, isBreak_eq, hnl, hne]
  · by_cases hcr : c = returnAscii
    · simp [layout, opensRow, isBreak_eq, hcr, hne.symm]
    · by_cases hfull : pos.2 + 1 = numCols
      · simp [layout, opensRow, isBreak_eq, hnl, hcr, hfull]
      · simp [layout, opensRow, isBreak_eq, hnl, hcr, hfull]

lemma foldl_layout_row : (text.foldl layout pos).1 =
    pos.1 + text.count newlineAscii + textScreen.countAt opensRow pos text := by
  induction text generalizing pos with
  | nil => rfl
  | cons c text ih =>
    have hcount : textScreen.countAt opensRow pos (c :: text) =
        textScreen.countAt opensRow (layout pos c) text + if opensRow pos c then 1 else 0 := rfl
    have hnl : (c :: text).count newlineAscii =
        text.count newlineAscii + if c = newlineAscii then 1 else 0 := by
      simp [List.count_cons]
    rw [List.foldl_cons, ih, layout_row, hcount, hnl]
    omega

/-- A text without line breaks, apart from carriage returns in the last column, ends as many
cells on as it has characters. -/
lemma foldl_layout_cell (hnl : newlineAscii ∉ text)
    (hcr : textScreen.countAt earlyReturn pos text = 0) :
    numCols * (text.foldl layout pos).1 + (text.foldl layout pos).2 =
      numCols * pos.1 + pos.2 + text.length := by
  induction text generalizing pos with
  | nil => rfl
  | cons c text ih =>
    obtain ⟨hrest, hfirst⟩ := Nat.add_eq_zero_iff.mp hcr
    have hne : c ≠ newlineAscii := fun h => hnl (by simp [h])
    have hcell : numCols * (layout pos c).1 + (layout pos c).2 = numCols * pos.1 + pos.2 + 1 := by
      by_cases hc : c = returnAscii
      · have hfull : pos.2 + 1 = numCols := by
          by_contra hfull
          rw [if_pos (by simp [earlyReturn, hc, hfull])] at hfirst
          exact absurd hfirst (by decide)
        have hnext : layout pos c = (pos.1 + 1, 0) := if_pos (by simp [isBreak_eq, hc])
        rw [hnext]
        simp only [numCols] at hfull ⊢
        omega
      · exact layout_char (by simp [isBreak_eq, hne, hc])
    have hnext := @ih (layout pos c) (fun h => hnl (by simp [h])) hrest
    rw [List.foldl_cons, hnext, hcell, List.length_cons]
    omega

end Console

namespace Writer

variable {w w' : Writer} {d : Display Glyph} {buf : List UInt8} {fuel row n nbytes : ℕ}

/-! ### Scrolling along the page -/

/-- The screen shows the page, and the current line is row `row` of it. -/
def OnPage (d : Display Glyph) (row : ℕ) (w : Writer) : Prop :=
  ∃ s, s + w.info.currentLine = row ∧ w.console.Shows s d ∧ textScreen.BlankFrom (s + numRows) d

lemma scrollLine_onPage (hpos : 0 < w.info.currentLine) (hbyte : w.info.currentLine < 256)
    (h : w.OnPage d row) : w.scrollLine.OnPage d row := by
  obtain ⟨s, hs, hshown, hblank⟩ := h
  have hline := (scrollLine_scrolled hpos hbyte).line
  have hconsole : w.scrollLine.console = w.console.shiftVideoMemUp 0 numRows := rfl
  refine ⟨s + 1, ?_, ?_, fun r hr => hblank r (by omega)⟩
  · rw [hline]
    omega
  · rw [hconsole]
    exact shows_shiftVideoMemUp hshown hblank

/-- A loop that scrolls only below the first line keeps the current line on its row. -/
lemma scrollWhile_onPage {cond : Writer → Prop} [DecidablePred cond]
    (hcond : ∀ w, cond w → 0 < w.info.currentLine) (hbyte : w.info.currentLine < 256)
    (h : Loops.whileLoop cond scrollLine fuel w = some w') (hw : w.OnPage d row) :
    w'.OnPage d row := by
  have hkeep : ∀ s : Writer, s.info.currentLine < 256 ∧ s.OnPage d row → cond s →
      s.scrollLine.info.currentLine < 256 ∧ s.scrollLine.OnPage d row := by
    rintro s ⟨hs, hpage⟩ hc
    have hline := (scrollLine_scrolled (hcond s hc) hs).line
    exact ⟨by omega, scrollLine_onPage (hcond s hc) hs hpage⟩
  exact (Loops.whileLoop_invariant hkeep h ⟨hbyte, hw⟩).1.2

lemma scrollDown_onPage (hbyte : w.info.currentLine < 256) (h : w.scrollDown fuel = some w')
    (hw : w.OnPage d row) : w'.OnPage d row :=
  scrollWhile_onPage (fun _ hc => Nat.zero_lt_of_lt hc) hbyte h hw

lemma makeRoom_onPage (hbyte : w.info.currentLine < 256) (hn : n ≤ numRows)
    (h : w.makeRoom n fuel = some w') (hw : w.OnPage d row) : w'.OnPage d row := by
  apply scrollWhile_onPage _ hbyte h hw
  intro s hc
  simp only [numRows] at hn hc
  omega

lemma wrapRoom_onPage (hw : w.OnPage d row) : (w.wrapRoom nbytes).OnPage d row := by
  unfold wrapRoom
  split_ifs with hc
  · have hlast : w.info.currentLine = 24 := hc.1
    exact scrollLine_onPage (by omega) (by omega) hw
  · exact hw

/-- Making room for a text keeps the line it starts on at its row. -/
lemma prepare_onPage (hline : w.info.currentLine < numRows) (hinput : w.info.currentChar = 0)
    (hn : n ≤ numRows) (h : w.prepare n nbytes fuel = some w') (hw : w.OnPage d row) :
    w'.OnPage d row := by
  obtain ⟨w₁, h₁, h⟩ := Option.bind_eq_some_iff.mp h
  obtain ⟨hdline, -, hdconsole⟩ := dropInput_info (w := w) hline.le
  rw [if_neg (by omega), Nat.add_zero] at hdline
  have hdrop : w.dropInput.OnPage d row := by
    unfold OnPage
    rw [hdline, hdconsole]
    exact hw
  have hs₁ := belowInput_scrolled hline.le h₁
  have hlt := lineBelowInput_lt w.info
  have hs₂ := wrapRoom_scrolled w₁ nbytes
  have hbyte : (w₁.wrapRoom nbytes).info.currentLine < 256 := by
    rw [hs₂.line, hs₁.line]
    simp only [numRows] at hlt ⊢
    split_ifs <;> omega
  have hbyte₁ : w.dropInput.info.currentLine < 256 := by
    simp only [numRows] at hline
    omega
  exact makeRoom_onPage hbyte hn h (wrapRoom_onPage (scrollDown_onPage hbyte₁ h₁ hdrop))

/-! ### Where the byte counts are right -/

/-- The row and column of the cell a text starts in. -/
def startCell (info : TerminalInfo) : ℕ × ℕ :=
  (info.currentLine + info.charInLine / numCols, info.charInLine % numCols)

/-- The rows made before the text: one for a text that wraps on the last row, or those its
newlines need. -/
def rowsMade (info : TerminalInfo) (buf : List UInt8) : ℕ :=
  max (if info.currentLine = numRows - 1 ∧ numCols ≤ info.charInLine + strlen buf then 1 else 0)
    (info.currentLine + (cString buf).count newlineAscii - numRows)

/-- Whether the byte counts make a row for the text beside those of its newlines. -/
def rowCounted (info : TerminalInfo) (buf : List UInt8) : Bool :=
  if strlen buf ≠ numCols ∧ byteAt buf (strlen buf - 1) ≠ newlineAscii then
    decide (numCols ≤ strlen buf + (info.charInLine + strlen buf) % 256)
  else decide (numCols ≤ strlen buf - 1 + info.charInLine)

/-- A text without newlines that the byte counts follow: it is not of 80 bytes, which are not
counted, and it ends as many cells on as it has bytes, on a row that has been made. -/
structure StaysInLine (info : TerminalInfo) (buf : List UInt8) : Prop where
  counted : strlen buf ≠ numCols
  column : info.charInLine + strlen buf < 256
  returns : textScreen.countAt earlyReturn (startCell info) (cString buf) = 0
  row : numCols * info.currentLine + info.charInLine + strlen buf <
    numCols * (numRows + rowsMade info buf)

/-- A text with newlines that the byte counts follow: it ends at the start of a row, and the
rows it opens without a newline are those counted. -/
structure EndsRow (info : TerminalInfo) (buf : List UInt8) : Prop where
  column : ((cString buf).foldl layout (startCell info)).2 = 0
  rows : info.charInLine / numCols + textScreen.countAt opensRow (startCell info) (cString buf) =
    (rowCounted info buf).toNat

/-- A text that is printed within the rows made for it and that the byte counts follow. -/
structure Lands (info : TerminalInfo) (buf : List UInt8) : Prop where
  first : FirstInRow info.charInLine (cString buf)
  inside : textScreen.countAt (below (numRows + rowsMade info buf)) (startCell info)
    (cString buf) = 0
  counted : if newlineAscii ∈ cString buf then EndsRow info buf else StaysInLine info buf

instance (info : TerminalInfo) (buf : List UInt8) : Decidable (StaysInLine info buf) :=
  decidable_of_iff (strlen buf ≠ numCols ∧ info.charInLine + strlen buf < 256 ∧
      textScreen.countAt earlyReturn (startCell info) (cString buf) = 0 ∧
      numCols * info.currentLine + info.charInLine + strlen buf <
        numCols * (numRows + rowsMade info buf))
    ⟨fun ⟨hn, hc, hr, hrow⟩ => ⟨hn, hc, hr, hrow⟩, fun ⟨hn, hc, hr, hrow⟩ => ⟨hn, hc, hr, hrow⟩⟩

instance (info : TerminalInfo) (buf : List UInt8) : Decidable (EndsRow info buf) :=
  decidable_of_iff (((cString buf).foldl layout (startCell info)).2 = 0 ∧
      info.charInLine / numCols + textScreen.countAt opensRow (startCell info) (cString buf) =
        (rowCounted info buf).toNat)
    ⟨fun ⟨hc, hr⟩ => ⟨hc, hr⟩, fun ⟨hc, hr⟩ => ⟨hc, hr⟩⟩

instance (info : TerminalInfo) (buf : List UInt8) : Decidable (Lands info buf) :=
  decidable_of_iff (FirstInRow info.charInLine (cString buf) ∧
      textScreen.countAt (below (numRows + rowsMade info buf)) (startCell info)
        (cString buf) = 0 ∧
      if newlineAscii ∈ cString buf then EndsRow info buf else StaysInLine info buf)
    ⟨fun ⟨hf, hi, hc⟩ => ⟨hf, hi, hc⟩, fun ⟨hf, hi, hc⟩ => ⟨hf, hi, hc⟩⟩

/-! ### One call -/

/-- The screen and the stored cursor are those of the reference. -/
structure SameScreen (w : Writer) (d : Display Glyph) : Prop where
  shown : ∀ r < numRows, ∀ c < numCols, w.console.cell r c = d.cells r c
  cursor : numCols * w.info.currentLine + w.info.charInLine = numCols * d.row + d.col

/-- A terminal without input that has the screen and the cursor of the reference. -/
structure Mirrors (w : Writer) (d : Display Glyph) : Prop where
  same : SameScreen w d
  input : w.info.currentChar = 0
  line : w.info.currentLine < numRows
  column : w.info.charInLine < 256
  row : d.row < numRows
  col : d.col < numCols
  blank : textScreen.BlankFrom numRows d

lemma Mirrors.startCell_eq (h : Mirrors w d) : d.pos = startCell w.info := by
  have hcursor := h.same.cursor
  have hcol := h.col
  apply Prod.ext
  · simp only [Display.pos, startCell, numCols] at hcursor hcol ⊢
    omega
  · simp only [Display.pos, startCell, numCols] at hcursor hcol ⊢
    omega

lemma newlineCount_strlen (buf : List UInt8) :
    newlineCount buf (strlen buf) = (cString buf).count newlineAscii := by
  rw [newlineCount, measured, ← cString_eq_map, cString_cString]

lemma startLine_rowsMade (hinput : w.info.currentChar = 0) (hline : w.info.currentLine < numRows)
    (hn : (cString buf).count newlineAscii ≤ numRows) :
    rowsMade w.info buf +
      startLine w.info ((cString buf).count newlineAscii) (strlen buf) = w.info.currentLine := by
  have hbelow : lineBelowInput w.info = w.info.currentLine := by
    unfold lineBelowInput
    rw [if_neg (by omega)]
    simp only [numRows] at hline ⊢
    omega
  have hwrap : ((numCols : ℤ) - w.info.charInLine ≤ strlen buf) ↔
      numCols ≤ w.info.charInLine + strlen buf := by omega
  unfold rowsMade startLine
  dsimp only
  rw [hbelow]
  simp only [hwrap]
  by_cases hc : w.info.currentLine = numRows - 1 ∧ numCols ≤ w.info.charInLine + strlen buf
  · rw [if_pos hc, if_pos hc]
    simp only [numRows] at hline hn hc ⊢
    omega
  · rw [if_neg hc, if_neg hc]
    simp only [numRows] at hline hn ⊢
    omega

/-- The text on the console, printed from the row prepared for it. -/
lemma print_shown (buf : List UInt8) {s : ℕ} (hline : w.info.currentLine < numRows) (hchar : w.info.charInLine < 256)
    (hshown : w.console.Shows s d) (hblank : textScreen.BlankFrom (s + numRows) d)
    (hcol : d.col < numCols)
    (hcursor : numCols * (s + w.info.currentLine) + w.info.charInLine = numCols * d.row + d.col)
    (hfirst : FirstInRow w.info.charInLine (cString buf))
    (hinside : textScreen.countAt (below (s + numRows)) d.pos (cString buf) = 0) :
    (w.print buf).console.Shows s (textScreen.unroll d (cString buf)) ∧
      textScreen.BlankFrom (s + numRows) (textScreen.unroll d (cString buf)) := by
  have hx : w.info.charInLine % 256 = w.info.charInLine := Nat.mod_eq_of_lt hchar
  have hy : w.info.currentLine % 256 = w.info.currentLine := by
    simp only [numRows] at hline
    omega
  have hset : w.console.setCursor w.info.charInLine w.info.currentLine =
      { w.console with screenX := w.info.charInLine, screenY := w.info.currentLine } := by
    rw [setCursor, hx, hy]
  have hfollows : Follows s (w.console.setCursor w.info.charInLine w.info.currentLine) d := by
    rw [hset]
    refine ⟨hshown, hblank, hcol, fun _ => ?_⟩
    rw [← hcursor, Nat.add_comm s]
  exact puts_shown hfollows (by rwa [hset]) hinside

/-- The last block, which moves the cursor to the start of the line below the text. -/
lemma nextLine_onPage {e : Bool} (hline : w.info.currentLine < numRows) (hn : n ≤ numRows)
    (he : ((numCols : ℤ) - w.info.charInLine ≤ nbytes) ↔ e = true)
    (h : w.nextLine n nbytes fuel = some w') (hw : w.OnPage d row) :
    w'.info = { w.info with
        currentLine := min (w.info.currentLine + n + e.toNat) (numRows - 1), charInLine := 0 } ∧
      w'.OnPage d (row + n + e.toNat) := by
  obtain ⟨s, hs, hshown, hblank⟩ := hw
  have hcount : (if (numCols : ℤ) - w.info.charInLine ≤ nbytes then
      ((w.info.currentLine + n) % 256 + 1) % 256 else (w.info.currentLine + n) % 256) =
        w.info.currentLine + n + e.toNat := by
    simp only [numRows] at hline hn
    rw [if_congr he rfl rfl]
    cases e with
    | true =>
      rw [if_pos rfl, Bool.toNat_true]
      omega
    | false =>
      rw [if_neg (by decide), Bool.toNat_false]
      omega
  unfold nextLine at h
  dsimp only at h
  rw [hcount] at h
  obtain ⟨w₁, hw₁, rfl⟩ := Option.map_eq_some_iff.mp h
  have hbyte : w.info.currentLine + n + e.toNat < 256 := by
    have hle := Bool.toNat_le e
    simp only [numRows] at hline hn
    omega
  have hpage : OnPage d (row + n + e.toNat)
      { w with info := { w.info with currentLine := w.info.currentLine + n + e.toNat } } := by
    refine ⟨s, ?_, hshown, hblank⟩
    dsimp only
    omega
  have hspec := (scrollDown_spec hbyte).2 _ _ hw₁
  obtain ⟨s', hs', hshown', hblank'⟩ := scrollDown_onPage hbyte hw₁ hpage
  refine ⟨?_, s', hs', hshown', hblank'⟩
  rw [hspec.info]

/-- A screen that shows the page from where the page's cursor fits mirrors the reference. -/
lemma mirrors_window {s : ℕ} (hshown : w.console.Shows s d)
    (hblank : textScreen.BlankFrom (s + numRows) d) (hscrolls : textScreen.scrolls d = s)
    (hinput : w.info.currentChar = 0) (hline : w.info.currentLine < numRows)
    (hchar : w.info.charInLine < 256) (hcol : d.col < numCols)
    (hcursor : numCols * (s + w.info.currentLine) + w.info.charInLine =
      numCols * d.row + d.col) : Mirrors w (TextMode.window s d) := by
  have hlow : s ≤ d.row := by
    rw [← hscrolls]
    exact TextMode.scrolls_le_row
  have hhigh : d.row + 1 - 25 = s := hscrolls
  refine ⟨⟨hshown, ?_⟩, hinput, hline, hchar, ?_, hcol, fun r hr => hblank _ (by omega)⟩
  · simp only [TextMode.window, numCols] at hcursor ⊢
    omega
  · simp only [TextMode.window, numRows]
    omega

/-- After a text without newlines the column count alone has moved. -/
lemma finish_line (hnl : newlineAscii ∉ cString buf) (hpos : 1 ≤ strlen buf)
    (hne : strlen buf ≠ numCols) : w.finish buf (strlen buf) fuel = some
      ⟨{ w.info with charInLine := (w.info.charInLine + strlen buf) % 256 },
        (w.print buf).console⟩ := by
  have hlast : byteAt buf (strlen buf - 1) ≠ newlineAscii := by
    intro h
    apply hnl
    rw [← h, cString_eq_map]
    exact List.mem_map_of_mem (List.mem_range.mpr (by omega))
  have hcount : newlineCount buf (strlen buf) = 0 := by
    rw [newlineCount_strlen]
    exact List.count_eq_zero_of_not_mem hnl
  unfold finish
  dsimp only
  rw [if_pos hcount, advance, if_pos ⟨hne, hlast⟩]
  rfl

/-- After a text with newlines the cursor is at the start of the line that was counted. -/
lemma finish_row (hnl : newlineAscii ∈ cString buf) (hline : w.info.currentLine < numRows)
    (hn : (cString buf).count newlineAscii ≤ numRows)
    (hprinted : OnPage d row { w with console := (w.print buf).console })
    (h : w.finish buf (strlen buf) fuel = some w') :
    w'.info.currentLine = min (w.info.currentLine + (cString buf).count newlineAscii +
        (rowCounted w.info buf).toNat) (numRows - 1) ∧
      w'.info.charInLine = 0 ∧ w'.info.currentChar = w.info.currentChar ∧
      w'.OnPage d (row + (cString buf).count newlineAscii + (rowCounted w.info buf).toNat) := by
  have hcount : newlineCount buf (strlen buf) ≠ 0 := by
    rw [newlineCount_strlen]
    exact fun h0 => List.count_eq_zero.mp h0 hnl
  unfold finish at h
  dsimp only at h
  rw [if_neg hcount, newlineCount_strlen] at h
  have hkeep : ((w.print buf).advance buf (strlen buf)).1.info.currentLine = w.info.currentLine ∧
      ((w.print buf).advance buf (strlen buf)).1.info.currentChar = w.info.currentChar := by
    unfold advance
    split_ifs
    · exact ⟨rfl, rfl⟩
    · exact ⟨rfl, rfl⟩
  have he : ((numCols : ℤ) - ((w.print buf).advance buf (strlen buf)).1.info.charInLine ≤
      ((w.print buf).advance buf (strlen buf)).2) ↔ rowCounted w.info buf = true := by
    unfold advance rowCounted
    split_ifs with hadv
    · rw [decide_eq_true_eq]
      dsimp only [print]
      omega
    · rw [decide_eq_true_eq]
      dsimp only [print]
      omega
  have hpage : ((w.print buf).advance buf (strlen buf)).1.OnPage d row := by
    unfold OnPage
    rw [hkeep.1, advance_console]
    exact hprinted
  obtain ⟨hinfo, hpage'⟩ := nextLine_onPage (by rwa [hkeep.1]) hn he h hpage
  rw [hinfo]
  dsimp only
  rw [hkeep.1, hkeep.2]
  exact ⟨rfl, rfl, rfl, hpage'⟩

/-- The text on the screen after the scrolling for it, `page` being the page it gives. -/
structure Printed (w w₁ : Writer) (page : Display Glyph) (buf : List UInt8) : Prop where
  input : w₁.info.currentChar = 0
  char : w₁.info.charInLine = w.info.charInLine
  line : w₁.info.currentLine < numRows
  rows : rowsMade w.info buf + w₁.info.currentLine = w.info.currentLine
  shown : (w₁.print buf).console.Shows (rowsMade w.info buf) page
  blank : textScreen.BlankFrom (rowsMade w.info buf + numRows) page
  pos : page.pos = (cString buf).foldl layout (startCell w.info)
  col : page.col < numCols

lemma prepare_printed {w₁ : Writer} (hw : Mirrors w d) (hlands : Lands w.info buf)
    (hn : (cString buf).count newlineAscii ≤ numRows)
    (h : w.prepare ((cString buf).count newlineAscii) (strlen buf) fuel = some w₁) :
    Printed w w₁ (textScreen.unroll d (cString buf)) buf := by
  have hprep := prepare_scrolled hw.line.le hn h
  obtain ⟨-, hdchar, -⟩ := dropInput_info (w := w) hw.line.le
  have hchar : w₁.info.charInLine = w.info.charInLine := by rw [hprep.info, hdchar]
  have hinput : w₁.info.currentChar = 0 := by
    rw [hprep.info]
    unfold dropInput
    dsimp only
    rw [if_neg (by rw [hw.input]; decide)]
    exact hw.input
  have hline : w₁.info.currentLine < numRows := by
    rw [hprep.line]
    exact startLine_lt _ _ _
  have hrows := startLine_rowsMade hw.input hw.line hn
  rw [← hprep.line] at hrows
  obtain ⟨s, hs, hshown, hblank⟩ := prepare_onPage hw.line hw.input hn h
    ⟨0, Nat.zero_add _, hw.same.shown, by simpa using hw.blank⟩
  obtain rfl : s = rowsMade w.info buf := by omega
  have hcursor : numCols * (rowsMade w.info buf + w₁.info.currentLine) + w₁.info.charInLine =
      numCols * d.row + d.col := by
    rw [hs, hchar]
    exact hw.same.cursor
  have hprinted := print_shown buf hline (by rw [hchar]; exact hw.column) hshown hblank
    hw.col hcursor (by rw [hchar]; exact hlands.first)
    (by rw [hw.startCell_eq, Nat.add_comm]; exact hlands.inside)
  have hcol : ((cString buf).foldl textScreen.layout d.pos).2 < numCols :=
    TextMode.foldl_layout_col_lt (by decide) hw.col
  have hpos : (textScreen.unroll d (cString buf)).pos =
      (cString buf).foldl layout (startCell w.info) := by
    rw [TextMode.unroll_pos, hw.startCell_eq]
    rfl
  rw [← TextMode.unroll_pos] at hcol
  exact ⟨hinput, hchar, hline, hrows, hprinted.1, hprinted.2, hpos, hcol⟩

/-- A text without newlines, whose page is shown from where its cursor fits. -/
lemma Printed.line_mirrors {w₁ : Writer} {page : Display Glyph} (hp : Printed w w₁ page buf)
    (hw : w.info.currentLine < numRows) (hnl : newlineAscii ∉ cString buf)
    (hpos : 1 ≤ strlen buf) (hstays : StaysInLine w.info buf)
    (h : w₁.finish buf (strlen buf) fuel = some w') :
    Mirrors w' (TextMode.window (textScreen.scrolls page) page) := by
  rw [finish_line hnl hpos hstays.counted] at h
  obtain rfl := Option.some.inj h
  have hcell : numCols * page.row + page.col =
      numCols * w.info.currentLine + w.info.charInLine + strlen buf := by
    have hfold := foldl_layout_cell hnl hstays.returns
    rw [← hp.pos] at hfold
    have hstart : numCols * (startCell w.info).1 + (startCell w.info).2 =
        numCols * w.info.currentLine + w.info.charInLine := by
      simp only [startCell, numCols]
      omega
    rwa [hstart] at hfold
  have hlast := hstays.row
  have hrows := hp.rows
  have hcol := hp.col
  have hscrolls : textScreen.scrolls page = rowsMade w.info buf := by
    change page.row + 1 - numRows = rowsMade w.info buf
    have hnone : (cString buf).count newlineAscii = 0 := List.count_eq_zero_of_not_mem hnl
    unfold rowsMade at hlast ⊢
    rw [hnone] at hlast ⊢
    simp only [numRows, numCols] at hlast hcell hcol hw ⊢
    split_ifs at hlast ⊢ with hwrap
    · omega
    · omega
  rw [hscrolls]
  refine mirrors_window hp.shown hp.blank hscrolls hp.input hp.line ?_ hcol ?_
  · exact Nat.mod_lt _ (by decide)
  · dsimp only
    rw [hp.char, Nat.mod_eq_of_lt hstays.column, hrows, hcell, Nat.add_assoc]

/-- A text with newlines: the scrolling after it takes the screen down to its cursor. -/
lemma Printed.row_mirrors {w₁ : Writer} {page : Display Glyph} (hp : Printed w w₁ page buf)
    (hn : (cString buf).count newlineAscii ≤ numRows) (hnl : newlineAscii ∈ cString buf)
    (hends : EndsRow w.info buf) (h : w₁.finish buf (strlen buf) fuel = some w') :
    Mirrors w' (TextMode.window (textScreen.scrolls page) page) := by
  obtain ⟨hline, hchar, hinput, s, hs, hshown, hblank⟩ :=
    finish_row hnl hp.line hn ⟨_, hp.rows, hp.shown, hp.blank⟩ h
  have hsame : rowCounted w₁.info buf = rowCounted w.info buf := by
    unfold rowCounted
    rw [hp.char]
  rw [hsame] at hline hs
  have hrow : page.row = w.info.currentLine + (cString buf).count newlineAscii +
      (rowCounted w.info buf).toNat := by
    rw [← hends.rows, ← Nat.add_assoc, Nat.add_right_comm w.info.currentLine]
    exact (congrArg Prod.fst hp.pos).trans foldl_layout_row
  have hcol : page.col = 0 := (congrArg Prod.snd hp.pos).trans hends.column
  have hscrolls : textScreen.scrolls page = s := by
    change page.row + 1 - numRows = s
    -- rows were made only for a text whose newlines reach the last row
    have hreach : rowsMade w.info buf ≠ 0 →
        numRows - 1 ≤ w₁.info.currentLine + (cString buf).count newlineAscii := by
      have hsome : 0 < (cString buf).count newlineAscii := List.count_pos_iff.mpr hnl
      have hrows := hp.rows
      unfold rowsMade at hrows ⊢
      intro hmade
      simp only [numRows] at hrows hmade ⊢
      split_ifs at hrows hmade with hwrap
      · omega
      · omega
    have hrows := hp.rows
    simp only [numRows] at hline hreach ⊢
    omega
  rw [hscrolls]
  refine mirrors_window hshown hblank hscrolls (hinput.trans hp.input) ?_ ?_ hp.col ?_
  · rw [hline]
    simp only [numRows]
    omega
  · exact hchar.trans_lt (by decide)
  · rw [hs, hchar, hrow, hcol]

lemma Mirrors.setCursor (h : Mirrors w d) (x y : ℕ) :
    Mirrors { w with console := w.console.setCursor x y } d :=
  ⟨⟨h.same.shown, h.same.cursor⟩, h.input, h.line, h.column, h.row, h.col, h.blank⟩

/-- A call whose text lands does to the screen and the stored cursor what the reference does. -/
theorem terminalWrite_mirrors {r : ℕ} (hw : Mirrors w d) (hlands : Lands w.info buf)
    (hpos : 1 ≤ strlen buf) (hle : strlen buf ≤ maxInputBufLen)
    (h : terminalWrite fuel buf (strlen buf) w = some (r, w')) :
    Mirrors w' (textScreen.write d (cString buf)) := by
  have hn : (cString buf).count newlineAscii ≤ numRows := by
    rw [← newlineCount_strlen]
    exact newlines_of_returns hle (by rw [h, Option.isSome_some])
  rw [terminalWrite_eq hle, newlineCount_strlen] at h
  obtain ⟨w₁, hw₁, h⟩ := Option.bind_eq_some_iff.mp h
  obtain ⟨w₂, hw₂, h⟩ := Option.map_eq_some_iff.mp h
  obtain ⟨-, rfl⟩ := Prod.mk.inj h
  have hp := prepare_printed hw hlands hn hw₁
  have hcounted := hlands.counted
  rw [TextMode.write_eq_window hw.row hw.blank]
  apply Mirrors.setCursor
  by_cases hnl : newlineAscii ∈ cString buf
  · rw [if_pos hnl] at hcounted
    exact hp.row_mirrors hn hnl hcounted hw₂
  · rw [if_neg hnl] at hcounted
    exact hp.line_mirrors hw.line hnl hpos hcounted hw₂

/-! ### Sequences of calls -/

/-- A call of `terminal_write` with the length of its text, which is from 1 to 1024 bytes. -/
structure WriteCall where
  buf : List UInt8
  fuel : ℕ
  nonempty : 1 ≤ strlen buf
  fits : strlen buf ≤ maxInputBufLen

def writeStep (w : Writer) (e : WriteCall) : Option Writer :=
  (terminalWrite e.fuel e.buf (strlen e.buf) w).map Prod.snd

/-- What `clear_terminal` leaves of a terminal that is on the screen and scheduled. -/
def cleared (w : Writer) : Writer where
  info := { w.info with resetFlag := true, currentLine := 0, charInLine := 0 }
  console := w.console.clear.setCursor 0 0

lemma cleared_mirrors (hinput : w.info.currentChar = 0) : Mirrors w.cleared clearedScreen := by
  have hshown : w.cleared.console.Shows 0 clearedScreen :=
    (shows_setCursor 0 0).mpr (shows_clear w.console)
  exact ⟨⟨hshown, rfl⟩, hinput, Nat.zero_lt_succ 24, Nat.zero_lt_succ 255, by decide, by decide,
    fun r hr _ => if_neg (not_lt.mpr hr)⟩

/-- After every sequence of writes whose texts land, the screen and the stored cursor are
those of the reference. -/
theorem terminalWrite_screen_run {es : List WriteCall} (hinput : w.info.currentChar = 0)
    (h : Runs.Path writeStep (fun w e => Lands w.info e.buf) w.cleared es w') :
    SameScreen w' (es.foldl (fun d e => textScreen.write d (cString e.buf)) clearedScreen) := by
  have hstep : ∀ w e w' d, Mirrors w d → Lands w.info e.buf → writeStep w e = some w' →
      Mirrors w' (textScreen.write d (cString e.buf)) := by
    intro w e w' d hw hlands he
    obtain ⟨⟨r, w₁⟩, hw₁, rfl⟩ := Option.map_eq_some_iff.mp he
    exact terminalWrite_mirrors hw hlands e.nonempty e.fits hw₁
  exact (h.tracks hstep (cleared_mirrors hinput)).same

/-- A prompt, the end of its line and the start of the next one. -/
def threeWrites : List WriteCall :=
  [⟨[104, 105], 0, by decide, by decide⟩, ⟨[33, 10], 0, by decide, by decide⟩,
    ⟨[111, 107], 0, by decide, by decide⟩]

theorem terminalWrite_screen_run_lines : ∃ w' : Writer,
    Runs.Path writeStep (fun w e => Lands w.info e.buf) (blankWriter 0).cleared threeWrites w' ∧
    SameScreen w'
      (threeWrites.foldl (fun d e => textScreen.write d (cString e.buf)) clearedScreen) := by
  have hrun : (Runs.run writeStep (fun w e => Lands w.info e.buf) (blankWriter 0).cleared
      threeWrites).isSome = true := by
    decide +kernel
  obtain ⟨w', hw'⟩ := Option.isSome_iff_exists.mp hrun
  have hpath := Runs.path_of_run hw'
  exact ⟨w', hpath, terminalWrite_screen_run rfl hpath⟩

/-- A letter on each of two lines: the column count goes back to zero, not behind the second
letter. -/
theorem terminalWrite_loses_column : ¬∀ (w w' : Writer) (es : List WriteCall),
    w.info.currentChar = 0 → Runs.Path writeStep (fun _ _ => True) w.cleared es w' →
    SameScreen w'
      (es.foldl (fun d e => textScreen.write d (cString e.buf)) clearedScreen) := by
  intro h
  have hrun : (Runs.run writeStep (fun _ _ => True) (blankWriter 0).cleared
      [⟨[97, 10, 98], 0, by decide, by decide⟩]).map
        (fun w => numCols * w.info.currentLine + w.info.charInLine) = some 80 := by
    decide +kernel
  obtain ⟨w', hw', hstored⟩ := Option.map_eq_some_iff.mp hrun
  have hsame := (h (blankWriter 0) w' _ rfl (Runs.path_of_run hw')).cursor
  rw [hstored] at hsame
  exact absurd hsame (by decide +kernel)

end Writer

end HalOs
