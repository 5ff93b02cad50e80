import Mathlib

/-!
# Screens that scroll

A screen of a fixed size scrolls up as soon as its cursor passes the last row. What it shows
after a text is a window on the page the same text gives without scrolling, moved down just
far enough to hold the cursor.
-/

namespace Displays

variable {α γ σ : Type*}

/-- A kind of screen: its size, its empty cell, which characters start a new row and what the
others look like. -/
structure TextMode (α γ : Type*) where
  rows : ℕ
  cols : ℕ
  blank : γ
  isBreak : α → Bool
  glyph : α → γ
  rows_pos : 0 < rows

/-- The cells by row and column, and the place of the cursor. -/
@[ext]
structure Display (γ : Type*) where
  cells : ℕ → ℕ → γ
  row : ℕ
  col : ℕ

/-- The row and column of the cursor. -/
def Display.pos (d : Display γ) : ℕ × ℕ := (d.row, d.col)

namespace TextMode

variable (mode : TextMode α γ)

/-- The row and column after a character, on a page without end. -/
def layout (pos : ℕ × ℕ) (a : α) : ℕ × ℕ :=
  if mode.isBreak a then (pos.1 + 1, 0)
  else if pos.2 + 1 = mode.cols then (pos.1 + 1, 0)
  else (pos.1, pos.2 + 1)

/-- One character on a page without end. -/
def place (d : Display γ) (a : α) : Display γ where
  cells :=
    if mode.isBreak a then d.cells
    else Function.update d.cells d.row (Function.update (d.cells d.row) d.col (mode.glyph a))
  row := (mode.layout d.pos a).1
  col := (mode.layout d.pos a).2

/-- Every row goes up by one; the first is lost and the last becomes empty. -/
def scroll (d : Display γ) : Display γ where
  cells r := if r + 1 < mode.rows then d.cells (r + 1) else fun _ => mode.blank
  row := d.row - 1
  col := d.col

/-- One character on the screen, which scrolls when the cursor passes the last row. -/
def put (d : Display γ) (a : α) : Display γ :=
  if mode.rows ≤ (mode.place d a).row then mode.scroll (mode.place d a) else mode.place d a

/-- A text on the screen. -/
def write (d : Display γ) (text : List α) : Display γ := text.foldl mode.put d

/-- A text on a page without end. -/
def unroll (d : Display γ) (text : List α) : Display γ := text.foldl mode.place d

/-- How many characters of a text satisfy `P` at the place they are printed. -/
def countAt (P : ℕ × ℕ → α → Bool) : ℕ × ℕ → List α → ℕ
  | _, [] => 0
  | pos, a :: text => countAt P (mode.layout pos a) text + if P pos a then 1 else 0

/-- Every row from row `n` on is empty. -/
def BlankFrom (n : ℕ) (d : Display γ) : Prop := ∀ r, n ≤ r → ∀ c, d.cells r c = mode.blank

/-- The page seen from row `s` on. -/
def window (s : ℕ) (d : Display γ) : Display γ := ⟨fun r => d.cells (r + s), d.row - s, d.col⟩

/-- How far a screen has to move down the page to hold the cursor. -/
def scrolls (d : Display γ) : ℕ := d.row + 1 - mode.rows

variable {mode} {d : Display γ} {a : α} {text : List α} {pos : ℕ × ℕ} {n : ℕ}

/-! ### Where a text goes -/

lemma unroll_pos : (mode.unroll d text).pos = text.foldl mode.layout d.pos := by
  induction text generalizing d with
  | nil => rfl
  | cons a text ih => exact ih

lemma layout_row_le : pos.1 ≤ (mode.layout pos a).1 := by
  unfold layout
  split_ifs
  · exact Nat.le_succ _
  · exact Nat.le_succ _
  · exact le_rfl

lemma layout_row_le_succ : (mode.layout pos a).1 ≤ pos.1 + 1 := by
  unfold layout
  split_ifs
  · exact le_rfl
  · exact le_rfl
  · exact Nat.le_succ _

lemma layout_col_lt (hcols : 0 < mode.cols) (h : pos.2 < mode.cols) :
    (mode.layout pos a).2 < mode.cols := by
  unfold layout
  split_ifs with hbreak hfull
  · exact hcols
  · exact hcols
  · exact lt_of_le_of_ne h hfull

lemma foldl_layout_col_lt (hcols : 0 < mode.cols) (h : pos.2 < mode.cols) :
    (text.foldl mode.layout pos).2 < mode.cols := by
  induction text generalizing pos with
  | nil => exact h
  | cons a text ih => exact ih (layout_col_lt hcols h)

lemma place_break (h : mode.isBreak a = true) : mode.place d a = ⟨d.cells, d.row + 1, 0⟩ := by
  simp only [place, layout, if_pos h, Display.pos]

lemma place_blankFrom (h : mode.BlankFrom n d) (hrow : mode.isBreak a = true ∨ d.row < n) :
    mode.BlankFrom n (mode.place d a) := by
  intro r hr c
  rcases hrow with hbreak | hrow
  · rw [place_break hbreak]
    exact h r hr c
  · have hne : r ≠ d.row := by omega
    unfold place
    dsimp only
    split_ifs
    · exact h r hr c
    · rw [Function.update_of_ne hne]
      exact h r hr c

/-! ### Relations to the page -/

/-- A relation to the page that every character keeps unless `P` holds where it is printed
holds after a text that has no such character. -/
theorem unroll_relates {R : σ → Display γ → Prop} {f : σ → α → σ} {P : ℕ × ℕ → α → Bool} {s : σ}
    (hstep : ∀ s d a, R s d → P d.pos a = false → R (f s a) (mode.place d a))
    (hnone : mode.countAt P d.pos text = 0) (hs : R s d) :
    R (text.foldl f s) (mode.unroll d text) := by
  induction text generalizing s d with
  | nil => exact hs
  | cons a text ih =>
    obtain ⟨hrest, hfirst⟩ := Nat.add_eq_zero_iff.mp hnone
    have hP : P d.pos a = false := by
      by_contra hP
      rw [if_pos (by simpa using hP)] at hfirst
      exact absurd hfirst (by decide)
    exact ih hrest (hstep s d a hs hP)

/-! ### The screen as a window -/

lemma window_zero (d : Display γ) : window 0 d = d := rfl

lemma scrolls_le_row : mode.scrolls d ≤ d.row := by
  have hpos := mode.rows_pos
  unfold scrolls
  omega

lemma layout_sub {s : ℕ} (hs : s ≤ pos.1) :
    mode.layout (pos.1 - s, pos.2) a = ((mode.layout pos a).1 - s, (mode.layout pos a).2) := by
  have hsucc : pos.1 - s + 1 = pos.1 + 1 - s := by omega
  unfold layout
  dsimp only
  split_ifs
  · rw [hsucc]
  · rw [hsucc]
  · rfl

lemma place_window {s : ℕ} (hs : s ≤ d.row) :
    mode.place (window s d) a = window s (mode.place d a) := by
  have hpos := @layout_sub _ _ mode a d.pos s hs
  apply Display.ext
  · funext r
    unfold place window
    dsimp only
    split_ifs
    · rfl
    · by_cases hr : r = d.row - s
      · have hrow : r + s = d.row := by omega
        have hback : d.row - s + s = d.row := Nat.sub_add_cancel hs
        rw [hrow, hr, Function.update_self, Function.update_self, hback]
      · have hrow : r + s ≠ d.row := by omega
        rw [Function.update_of_ne hr, Function.update_of_ne hrow]
  · exact congrArg (fun pos => pos.1) hpos
  · exact congrArg (fun pos => pos.2) hpos

lemma scroll_window {s : ℕ} (hblank : mode.BlankFrom (s + mode.rows) d) :
    mode.scroll (window s d) = window (s + 1) d := by
  apply Display.ext
  · funext r
    simp only [scroll, window]
    split_ifs with hr
    · rw [Nat.add_right_comm]
      rfl
    · funext c
      exact (hblank _ (by omega) c).symm
  · exact Nat.sub_sub _ _ _
  · rfl

lemma put_window (hblank : mode.BlankFrom (mode.scrolls d + mode.rows) d) :
    mode.put (window (mode.scrolls d) d) a =
        window (mode.scrolls (mode.place d a)) (mode.place d a) ∧
      mode.BlankFrom (mode.scrolls (mode.place d a) + mode.rows) (mode.place d a) := by
  have hpos := mode.rows_pos
  have hlow : d.row ≤ (mode.place d a).row := @layout_row_le _ _ mode a d.pos
  have hhigh : (mode.place d a).row ≤ d.row + 1 := @layout_row_le_succ _ _ mode a d.pos
  have hkeep : mode.BlankFrom (mode.scrolls d + mode.rows) (mode.place d a) := by
    apply place_blankFrom hblank
    right
    unfold scrolls
    omega
  have hplace : mode.place (window (mode.scrolls d) d) a =
      window (mode.scrolls d) (mode.place d a) := place_window scrolls_le_row
  have hwrow : (window (mode.scrolls d) (mode.place d a)).row =
      (mode.place d a).row - mode.scrolls d := rfl
  unfold put
  rw [hplace, hwrow]
  split_ifs with hpast
  · have hnext : mode.scrolls (mode.place d a) = mode.scrolls d + 1 := by
      unfold scrolls at hpast ⊢
      omega
    rw [hnext, scroll_window hkeep]
    exact ⟨rfl, fun r hr => hkeep r (by omega)⟩
  · have hsame : mode.scrolls (mode.place d a) = mode.scrolls d := by
      unfold scrolls at hpast ⊢
      omega
    rw [hsame]
    exact ⟨rfl, hkeep⟩

/-- What a screen shows after a text is a window on the page the text gives without
scrolling, moved down just far enough to hold the cursor. -/
theorem write_eq_window (hrow : d.row < mode.rows) (hblank : mode.BlankFrom mode.rows d) :
    mode.write d text = window (mode.scrolls (mode.unroll d text)) (mode.unroll d text) := by
  have hstart : mode.scrolls d = 0 := by
    unfold scrolls
    omega
  have hwindow : ∀ (text : List α) (d : Display γ),
      mode.BlankFrom (mode.scrolls d + mode.rows) d →
      text.foldl mode.put (window (mode.scrolls d) d) =
        window (mode.scrolls (text.foldl mode.place d)) (text.foldl mode.place d) := by
    intro text
    induction text with
    | nil => exact fun _ _ => rfl
    | cons a text ih =>
      intro d hd
      obtain ⟨hput, hnext⟩ := put_window (a := a) hd
      rw [List.foldl_cons, List.foldl_cons, hput]
      exact ih _ hnext
  have hall := hwindow text d (by rwa [hstart, Nat.zero_add])
  rwa [hstart, window_zero] at hall

end TextMode

end Displays
