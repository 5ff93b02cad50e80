import HalOs.General.Displays
import HalOs.Proofs.WriteRows

/-!
# The console as a window on a page

`shift_video_mem_up` moves the screen one row down the page, and `putc` prints where the page
does as long as the page's cursor is on the screen. Below the last row `putc` goes wrong in
two ways, so only line breaks may come there.
-/

namespace HalOs

open Displays

/-- A character and its attribute. -/
abbrev Glyph : Type := UInt8 × UInt8

namespace Console

variable {v : Console} {d : Display Glyph} {text : List UInt8} {c : UInt8} {s n off : ℕ}

/-- A text screen of 25 rows and 80 columns: a newline or a carriage return starts a new row,
and a row scrolled in is empty as `shift_video_mem_up` leaves it. -/
def textScreen : TextMode UInt8 Glyph where
  rows := numRows
  cols := numCols
  blank := (0, attrib)
  isBreak := isBreak
  glyph c := (c, attrib)
  rows_pos := by decide

/-- A screen of spaces with the cursor in the first cell; the page below it is empty. -/
def clearedScreen : Display Glyph where
  cells r _ := if r < numRows then (spaceAscii, attrib) else (0, attrib)
  row := 0
  col := 0

/-- The character and the attribute in a cell of the video memory. -/
def cell (v : Console) (r c : ℕ) : Glyph :=
  (v.videoMem ((numCols * r + c) * 2), v.videoMem ((numCols * r + c) * 2 + 1))

/-- The screen shows the page from row `s` on. -/
def Shows (s : ℕ) (d : Display Glyph) (v : Console) : Prop :=
  ∀ r < numRows, ∀ c < numCols, v.cell r c = d.cells (r + s) c

/-! ### What the screen routines store -/

lemma videoMem_store (off : ℕ) (b : UInt8) (i : ℕ) :
    (v.store off b).videoMem i = if i = off then b else v.videoMem i := by
  rw [← Function.update_apply]
  rfl

lemma videoMem_storeLoop (f : Console → ℕ → UInt8) (base off : ℕ) {top : ℕ} (hn : n ≤ top)
    (hf : ∀ v' i, (∀ off, base + top ≤ off → v'.videoMem off = v.videoMem off) → f v' i = f v i) :
    ((List.range n).foldl (fun v i => v.store (base + i) (f v i)) v).videoMem off =
      if base ≤ off ∧ off < base + n then f v (off - base) else v.videoMem off := by
  induction n generalizing off with
  | zero => rw [if_neg (by omega)]; rfl
  | succ n ih =>
    have hread : f ((List.range n).foldl (fun v i => v.store (base + i) (f v i)) v) n = f v n := by
      apply hf
      intro off hoff
      rw [ih _ (by omega), if_neg (by omega)]
    rw [List.range_succ, List.foldl_append, List.foldl_cons, List.foldl_nil, videoMem_store, hread,
      ih _ (by omega)]
    by_cases hlast : off = base + n
    · rw [if_pos hlast, if_pos (by omega), hlast, Nat.add_sub_cancel_left]
    · rw [if_neg hlast]
      by_cases hlow : base ≤ off ∧ off < base + n
      · rw [if_pos hlow, if_pos (by omega)]
      · rw [if_neg hlow, if_neg (by omega)]

lemma videoMem_copyRowUp (v : Console) (row off : ℕ) : (v.copyRowUp row).videoMem off =
    if 160 * row ≤ off ∧ off < 160 * row + 160 then v.videoMem (off + 160)
    else v.videoMem off := by
  have hread : ∀ (v' : Console) (i : ℕ), (∀ off, numCols * row * 2 + numCols * 2 ≤ off →
      v'.videoMem off = v.videoMem off) →
      v'.videoMem (numCols * (row + 1) * 2 + i) = v.videoMem (numCols * (row + 1) * 2 + i) := by
    intro v' i hv'
    apply hv'
    simp only [numCols]
    omega
  rw [copyRowUp, videoMem_storeLoop _ _ _ le_rfl hread]
  simp only [numCols]
  by_cases hin : 160 * row ≤ off ∧ off < 160 * row + 160
  · rw [if_pos hin, if_pos (by omega)]
    congr 1
    omega
  · rw [if_neg hin, if_neg (by omega)]

lemma videoMem_blankRow (v : Console) (row off : ℕ) : (v.blankRow row).videoMem off =
    if 160 * row ≤ off ∧ off < 160 * row + 160 then (if off % 2 = 0 then 0 else attrib)
    else v.videoMem off := by
  rw [blankRow, videoMem_storeLoop _ _ _ le_rfl fun _ _ _ => rfl]
  simp only [numCols]
  by_cases hin : 160 * row ≤ off ∧ off < 160 * row + 160
  · have hparity : (off - 80 * row * 2) % 2 = off % 2 := by omega
    rw [if_pos hin, if_pos (by omega), hparity]
  · rw [if_neg hin, if_neg (by omega)]

/-- The rows are copied upwards one after the other, each from a row not yet written. -/
lemma videoMem_copyRows (v : Console) (s n off : ℕ) :
    ((List.range' s n).foldl (fun v row => v.copyRowUp row) v).videoMem off =
      if 160 * s ≤ off ∧ off < 160 * (s + n) then v.videoMem (off + 160) else v.videoMem off := by
  induction n generalizing off with
  | zero => rw [if_neg (by omega)]; rfl
  | succ n ih =>
    rw [List.range'_1_concat, List.foldl_append, List.foldl_cons, List.foldl_nil,
      videoMem_copyRowUp, ih, ih]
    by_cases hrow : 160 * (s + n) ≤ off ∧ off < 160 * (s + n) + 160
    · rw [if_pos hrow, if_neg (by omega), if_pos (by omega)]
    · rw [if_neg hrow]
      by_cases hlow : 160 * s ≤ off ∧ off < 160 * (s + n)
      · rw [if_pos hlow, if_pos (by omega)]
      · rw [if_neg hlow, if_neg (by omega)]

/-- The bytes after the rows from `startRow` to `endRow`, cut off at the last row, have moved up. -/
lemma videoMem_shiftRows (v : Console) {startRow endRow : ℕ} (hle : startRow ≤ endRow)
    (hs : startRow ≤ 24) (off : ℕ) : (v.shiftVideoMemUp startRow endRow).videoMem off =
      if 160 * startRow ≤ off ∧ off < 160 * min endRow 24 then v.videoMem (off + 160)
      else if 160 * min endRow 24 ≤ off ∧ off < 160 * min endRow 24 + 160 then
        (if off % 2 = 0 then 0 else attrib)
      else v.videoMem off := by
  have hshift : v.shiftVideoMemUp startRow endRow =
      ((List.range' startRow (min endRow 24 - startRow)).foldl (fun v row => v.copyRowUp row)
        v).blankRow (min endRow 24) := if_neg (not_lt.mpr hle)
  have hend : startRow + (min endRow 24 - startRow) = min endRow 24 := by omega
  rw [hshift, videoMem_blankRow, videoMem_copyRows, hend]
  by_cases hmoved : 160 * startRow ≤ off ∧ off < 160 * min endRow 24
  · rw [if_neg (by omega), if_pos hmoved, if_pos hmoved]
  · rw [if_neg hmoved, if_neg hmoved]

lemma videoMem_shiftVideoMemUp (v : Console) (hoff : off < 4000) :
    (v.shiftVideoMemUp 0 numRows).videoMem off =
      if off < 3840 then v.videoMem (off + 160) else if off % 2 = 0 then 0 else attrib := by
  rw [videoMem_shiftRows v (Nat.zero_le _) (Nat.zero_le _)]
  simp only [numRows]
  by_cases hlow : off < 3840
  · rw [if_pos (by omega), if_pos hlow]
  · rw [if_neg (by omega), if_pos (by omega), if_neg hlow]

lemma videoMem_clear (v : Console) (hoff : off < 4000) :
    v.clear.videoMem off = if off % 2 = 0 then spaceAscii else attrib := by
  have hloop : ∀ n, off < 2 * n → ((List.range n).foldl
      (fun v i => (v.store (i * 2) spaceAscii).store (i * 2 + 1) attrib) v).videoMem off =
        if off % 2 = 0 then spaceAscii else attrib := by
    intro n
    induction n with
    | zero => intro h; omega
    | succ n ih =>
      intro h
      rw [List.range_succ, List.foldl_append, List.foldl_cons, List.foldl_nil, videoMem_store,
        videoMem_store]
      by_cases hodd : off = n * 2 + 1
      · rw [if_pos hodd, if_neg (by omega)]
      · rw [if_neg hodd]
        by_cases heven : off = n * 2
        · rw [if_pos heven, if_pos (by omega)]
        · rw [if_neg heven, ih (by omega)]
  rw [clear, hloop]
  simp only [numRows, numCols]
  exact hoff

/-! ### The screen and the page -/

lemma shows_setCursor (x y : ℕ) : (v.setCursor x y).Shows s d ↔ v.Shows s d := Iff.rfl

lemma shows_clear (v : Console) : v.clear.Shows 0 clearedScreen := by
  intro r hr c hc
  simp only [numRows, numCols] at hr hc
  have heven : (80 * r + c) * 2 % 2 = 0 := by omega
  have hodd : ((80 * r + c) * 2 + 1) % 2 ≠ 0 := by omega
  simp only [cell, numCols, clearedScreen, Nat.add_zero]
  rw [videoMem_clear v (by omega), videoMem_clear v (by omega), if_pos heven, if_neg hodd,
    if_pos hr]

lemma shows_shiftVideoMemUp (h : v.Shows s d) (hblank : textScreen.BlankFrom (s + numRows) d) :
    (v.shiftVideoMemUp 0 numRows).Shows (s + 1) d := by
  intro r hr c hc
  simp only [numRows, numCols] at hr hc
  simp only [cell, numCols]
  rw [videoMem_shiftVideoMemUp v (by omega), videoMem_shiftVideoMemUp v (by omega)]
  by_cases hlast : r = 24
  · have heven : (80 * r + c) * 2 % 2 = 0 := by omega
    have hodd : ((80 * r + c) * 2 + 1) % 2 ≠ 0 := by omega
    have hchar : ¬(80 * r + c) * 2 < 3840 := by omega
    have hattr : ¬(80 * r + c) * 2 + 1 < 3840 := by omega
    rw [if_neg hchar, if_neg hattr, if_pos heven, if_neg hodd]
    exact (hblank _ (by simp only [numRows]; omega) c).symm
  · have hchar : (80 * r + c) * 2 + 160 = (80 * (r + 1) + c) * 2 := by omega
    have hattr : (80 * r + c) * 2 + 1 + 160 = (80 * (r + 1) + c) * 2 + 1 := by omega
    have hrow : r + (s + 1) = r + 1 + s := by omega
    rw [if_pos (by omega), if_pos (by omega), hchar, hattr, hrow]
    exact h (r + 1) (by simp only [numRows]; omega) c hc

/-! ### Printing -/

/-- The screen shows the page, which is empty below it, and the live cursor is at the page's
cursor as long as that is on the screen. -/
structure Follows (s : ℕ) (v : Console) (d : Display Glyph) : Prop where
  shown : v.Shows s d
  blank : textScreen.BlankFrom (s + numRows) d
  col : d.col < numCols
  cursor : d.row < s + numRows → numCols * (v.screenY + s) + v.screenX = numCols * d.row + d.col

lemma cell_putc (h : isBreak c = false) (r col : ℕ) : (v.putc c).cell r col =
    if numCols * r + col = numCols * v.screenY + v.screenX then (c, attrib) else v.cell r col := by
  have hputc : (v.putc c).videoMem = ((v.store ((numCols * v.screenY + v.screenX) * 2) c).store
      ((numCols * v.screenY + v.screenX) * 2 + 1) attrib).videoMem := by
    unfold putc
    rw [if_neg (by simp [h])]
  unfold cell
  rw [hputc]
  simp only [videoMem_store]
  by_cases heq : numCols * r + col = numCols * v.screenY + v.screenX
  · rw [if_pos heq, if_neg (by omega), if_pos (by omega), if_pos (by omega)]
  · rw [if_neg heq, if_neg (by omega), if_neg (by omega), if_neg (by omega), if_neg (by omega)]

/-- A character other than a line break moves the cursor to the next cell. -/
lemma layout_char {pos : ℕ × ℕ} (h : isBreak c = false) :
    numCols * (layout pos c).1 + (layout pos c).2 = numCols * pos.1 + pos.2 + 1 := by
  unfold layout
  rw [if_neg (by simp [h])]
  by_cases hfull : pos.2 + 1 = numCols
  · rw [if_pos hfull]
    simp only [numCols] at hfull ⊢
    omega
  · rw [if_neg hfull]
    rfl

lemma place_char (h : isBreak c = false) : textScreen.place d c =
    ⟨Function.update d.cells d.row (Function.update (d.cells d.row) d.col (c, attrib)),
      (layout d.pos c).1, (layout d.pos c).2⟩ := by
  have hbreak : ¬textScreen.isBreak c = true := by
    rw [show textScreen.isBreak c = isBreak c from rfl, h]
    decide
  unfold TextMode.place
  rw [if_neg hbreak]
  rfl

lemma shows_putc_char (h : isBreak c = false) (hf : Follows s v d) (hrow : d.row < s + numRows) :
    (v.putc c).Shows s (textScreen.place d c) := by
  have hcursor := hf.cursor hrow
  have hcol := hf.col
  intro r hr col hc
  rw [cell_putc h, place_char h]
  dsimp only
  simp only [numRows, numCols] at hcursor hcol hr hc ⊢
  by_cases heq : 80 * r + col = 80 * v.screenY + v.screenX
  · have hr' : r + s = d.row := by omega
    have hc' : col = d.col := by omega
    rw [if_pos heq, hr', hc', Function.update_self, Function.update_self]
  · rw [if_neg heq]
    by_cases hr' : r + s = d.row
    · have hc' : col ≠ d.col := by omega
      rw [hr', Function.update_self, Function.update_of_ne hc', ← hr']
      exact hf.shown r hr col hc
    · rw [Function.update_of_ne hr']
      exact hf.shown r hr col hc

/-- One character keeps the console at the page, unless it is printed below the last row. A
line break needs the column count to be that of its own row. -/
lemma putc_follows (hf : Follows s v d) (hcol : v.screenX < numCols ∨ isBreak c = false)
    (hrow : isBreak c = true ∨ d.row < s + numRows) :
    Follows s (v.putc c) (textScreen.place d c) ∧ (v.putc c).screenX < numCols := by
  have hblank : textScreen.BlankFrom (s + numRows) (textScreen.place d c) :=
    TextMode.place_blankFrom hf.blank hrow
  have hnext : (textScreen.place d c).col < numCols :=
    @TextMode.layout_col_lt _ _ textScreen c d.pos (by decide) hf.col
  have hfcol := hf.col
  have hcursor := hf.cursor
  cases hc : isBreak c with
  | true =>
    have hplace : textScreen.place d c = ⟨d.cells, d.row + 1, 0⟩ := TextMode.place_break hc
    have hx : v.screenX < numCols := by simpa [hc] using hcol
    rw [hplace] at hblank hnext ⊢
    rw [putc_break hc]
    refine ⟨⟨hf.shown, hblank, hnext, fun h => ?_⟩, Nat.zero_lt_succ 79⟩
    simp only [numRows, numCols] at h hcursor hfcol hx ⊢
    omega
  | false =>
    have hon : d.row < s + numRows := by simpa [hc] using hrow
    obtain ⟨hx, hy⟩ := putc_char_cursor (v := v) hc
    refine ⟨⟨shows_putc_char hc hf hon, hblank, hnext, ?_⟩, ?_⟩
    · intro h
      have hat := hcursor hon
      have hcell : numCols * (textScreen.place d c).row + (textScreen.place d c).col =
          numCols * d.row + d.col + 1 := layout_char hc
      rw [hx, hy]
      simp only [numRows, numCols] at h hat hfcol hcell hnext ⊢
      omega
    · rw [hx]
      exact Nat.mod_lt _ (by decide)

/-- A character other than a line break that comes on row `n` or below it. -/
def below (n : ℕ) (pos : ℕ × ℕ) (c : UInt8) : Bool := !isBreak c && decide (n ≤ pos.1)

lemma below_eq_false {pos : ℕ × ℕ} :
    below n pos c = false ↔ isBreak c = true ∨ pos.1 < n := by
  cases h : isBreak c <;> simp [below, h]

/-- The first line break finds the column count of its own row, or nothing but line breaks
comes with it. -/
def FirstInRow (charInLine : ℕ) (text : List UInt8) : Prop :=
  charInLine < numCols ∨ (∀ c ∈ text.head?, isBreak c = false) ∨ ∀ c ∈ text, isBreak c = true

instance (charInLine : ℕ) (text : List UInt8) : Decidable (FirstInRow charInLine text) :=
  inferInstanceAs (Decidable (_ ∨ _ ∨ _))

lemma breaks_shown (hbreaks : ∀ c ∈ text, isBreak c = true) (h : v.Shows s d) :
    (text.foldl (fun v c => v.putc c) v).Shows s (textScreen.unroll d text) ∧
      (textScreen.unroll d text).cells = d.cells := by
  induction text generalizing v d with
  | nil => exact ⟨h, rfl⟩
  | cons c text ih =>
    have hc := hbreaks c (by simp)
    have hplace : textScreen.place d c = ⟨d.cells, d.row + 1, 0⟩ := TextMode.place_break hc
    obtain ⟨hshown, hcells⟩ := ih (v := v.putc c) (d := textScreen.place d c)
      (fun c' hc' => hbreaks c' (by simp [hc'])) (by
        rw [putc_break hc, hplace]
        exact h)
    refine ⟨hshown, hcells.trans ?_⟩
    rw [hplace]

/-- A text that prints nothing below the last row appears on the screen as on the page. -/
theorem puts_shown (hf : Follows s v d) (hfirst : FirstInRow v.screenX text)
    (hbelow : textScreen.countAt (below (s + numRows)) d.pos text = 0) :
    (text.foldl (fun v c => v.putc c) v).Shows s (textScreen.unroll d text) ∧
      textScreen.BlankFrom (s + numRows) (textScreen.unroll d text) := by
  have hstep : ∀ v d c, (Follows s v d ∧ v.screenX < numCols) →
      below (s + numRows) d.pos c = false →
      Follows s (v.putc c) (textScreen.place d c) ∧ (v.putc c).screenX < numCols := by
    rintro v d c ⟨hf, hx⟩ hc
    exact putc_follows hf (Or.inl hx) (below_eq_false.mp hc)
  have hrest : ∀ (text : List UInt8) (v : Console) (d : Display Glyph), Follows s v d →
      v.screenX < numCols → textScreen.countAt (below (s + numRows)) d.pos text = 0 →
      (text.foldl (fun v c => v.putc c) v).Shows s (textScreen.unroll d text) ∧
        textScreen.BlankFrom (s + numRows) (textScreen.unroll d text) := by
    intro text v d hf hx hb
    have h := TextMode.unroll_relates hstep hb ⟨hf, hx⟩
    exact ⟨h.1.shown, h.1.blank⟩
  rcases hfirst with hx | hfirst | hbreaks
  · exact hrest text v d hf hx hbelow
  · cases text with
    | nil => exact ⟨hf.shown, hf.blank⟩
    | cons c text =>
      have hc : isBreak c = false := hfirst c (by simp)
      obtain ⟨hbrest, hbfirst⟩ := Nat.add_eq_zero_iff.mp hbelow
      have hon : below (s + numRows) d.pos c = false := by
        by_contra hb
        rw [if_pos (by simpa using hb)] at hbfirst
        exact absurd hbfirst (by decide)
      obtain ⟨hf', hx'⟩ := putc_follows hf (Or.inr hc) (below_eq_false.mp hon)
      exact hrest text _ _ hf' hx' hbrest
  · obtain ⟨hshown, hcells⟩ := breaks_shown hbreaks hf.shown
    refine ⟨hshown, ?_⟩
    unfold TextMode.BlankFrom
    rw [hcells]
    exact hf.blank

end Console

end HalOs
