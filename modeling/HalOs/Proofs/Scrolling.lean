import HalOs.Proofs.ConsolePages

/-!
# Scrolling

`shift_video_mem_up` moves the rows of a range up by one and blanks the last of them. Called on
the whole screen again and again it drops one row after the other.
-/

namespace HalOs

open Displays

namespace Console

variable {v : Console} {startRow endRow k : ℕ}

/-- Row `s` to row `e` moved up by one, with row `e` blank and nothing else changed. -/
structure RowsMoved (s e : ℕ) (v v' : Console) : Prop where
  moved : ∀ r c, s ≤ r → r < e → c < numCols → v'.cell r c = v.cell (r + 1) c
  blanked : ∀ c < numCols, v'.cell e c = (0, attrib)
  kept : ∀ off, off < numCols * s * 2 ∨ numCols * (e + 1) * 2 ≤ off →
    v'.videoMem off = v.videoMem off
  cursor : (v'.screenX, v'.screenY) = (v.screenX, v.screenY)

/-- The rows of the screen from the top. -/
def screenRows (v : Console) : List (List Glyph) :=
  (List.range numRows).map fun r => (List.range numCols).map fun c => v.cell r c

def blankedRow : List Glyph := List.replicate numCols (0, attrib)

/-- The screen as the top of a page that is empty below it. -/
def toPage (v : Console) : Display Glyph where
  cells r c := if r < numRows then v.cell r c else (0, attrib)
  row := 0
  col := 0

/-! ### One call -/

lemma storeLoop_cursor {f : Console → ℕ → Console}
    (hf : ∀ v i, ((f v i).screenX, (f v i).screenY) = (v.screenX, v.screenY)) (l : List ℕ)
    (v : Console) : ((l.foldl f v).screenX, (l.foldl f v).screenY) = (v.screenX, v.screenY) := by
  induction l generalizing v with
  | nil => rfl
  | cons i l ih => exact (ih (f v i)).trans (hf v i)

lemma shiftVideoMemUp_cursor (v : Console) (startRow endRow : ℕ) :
    ((v.shiftVideoMemUp startRow endRow).screenX, (v.shiftVideoMemUp startRow endRow).screenY) =
      (v.screenX, v.screenY) := by
  have hcopy : ∀ (v : Console) (row : ℕ),
      ((v.copyRowUp row).screenX, (v.copyRowUp row).screenY) = (v.screenX, v.screenY) := by
    intro v row
    unfold copyRowUp
    apply storeLoop_cursor
    exact fun _ _ => rfl
  have hblank : ∀ (v : Console) (row : ℕ),
      ((v.blankRow row).screenX, (v.blankRow row).screenY) = (v.screenX, v.screenY) := by
    intro v row
    unfold blankRow
    apply storeLoop_cursor
    exact fun _ _ => rfl
  unfold shiftVideoMemUp
  by_cases h : endRow < startRow
  · rw [if_pos h]
  · rw [if_neg h, hblank, storeLoop_cursor hcopy]

lemma shiftVideoMemUp_moved (hs : startRow ≤ 24) (hle : startRow ≤ endRow) :
    RowsMoved startRow (min endRow 24) v (v.shiftVideoMemUp startRow endRow) := by
  have hbytes := videoMem_shiftRows v hle hs
  refine ⟨fun r c hr hre hc => ?_, fun c hc => ?_, fun off hoff => ?_,
    shiftVideoMemUp_cursor v startRow endRow⟩
  · simp only [numCols] at hc
    have hchar : (80 * r + c) * 2 + 160 = (80 * (r + 1) + c) * 2 := by omega
    have hattr : (80 * r + c) * 2 + 1 + 160 = (80 * (r + 1) + c) * 2 + 1 := by omega
    simp only [cell, numCols]
    rw [hbytes, hbytes, if_pos (by omega), if_pos (by omega), hchar, hattr]
  · simp only [numCols] at hc
    have hblank : ∀ off, 160 * min endRow 24 ≤ off → off < 160 * min endRow 24 + 160 →
        (v.shiftVideoMemUp startRow endRow).videoMem off = if off % 2 = 0 then 0 else attrib :=
      fun off hlow hhigh => by rw [hbytes, if_neg (by omega), if_pos ⟨hlow, hhigh⟩]
    simp only [cell, numCols]
    rw [hblank _ (by omega) (by omega), hblank _ (by omega) (by omega), if_pos (by omega),
      if_neg (by omega)]
  · simp only [numCols] at hoff
    rw [hbytes, if_neg (by omega), if_neg (by omega)]

/-! ### Many calls -/

lemma toPage_shown (v : Console) : v.Shows 0 v.toPage := by
  intro r hr c _
  exact (if_pos hr).symm

lemma toPage_blankFrom (v : Console) (k : ℕ) : textScreen.BlankFrom (k + numRows) v.toPage := by
  intro r hr c
  exact if_neg (by omega)

/-- After `k` calls the screen shows its own page from row `k` on. -/
lemma iterate_shows (v : Console) (k : ℕ) :
    ((fun v => v.shiftVideoMemUp 0 numRows)^[k] v).Shows k v.toPage := by
  induction k with
  | zero => exact toPage_shown v
  | succ k ih =>
    rw [Function.iterate_succ_apply']
    exact shows_shiftVideoMemUp ih (toPage_blankFrom v k)

lemma iterate_rows (v : Console) (k : ℕ) :
    ((fun v => v.shiftVideoMemUp 0 numRows)^[k] v).screenRows =
      v.screenRows.drop (min k numRows) ++ List.replicate (min k numRows) blankedRow := by
  have hshows := iterate_shows v k
  apply List.ext_getElem
  · simp [screenRows]
  · intro r hr _
    have hr25 : r < numRows := by simpa [screenRows] using hr
    have hrow : ((fun v => v.shiftVideoMemUp 0 numRows)^[k] v).screenRows[r] =
        (List.range numCols).map fun c => v.toPage.cells (r + k) c := by
      simp only [screenRows, List.getElem_map, List.getElem_range]
      exact List.map_congr_left fun c hc => hshows r hr25 c (List.mem_range.mp hc)
    refine hrow.trans ?_
    by_cases hk : r + k < numRows
    · have hmin : min k numRows = k := by omega
      rw [List.getElem_append_left (by simp [screenRows]; omega)]
      simp only [List.getElem_drop, screenRows, List.getElem_map, List.getElem_range, hmin,
        toPage, Nat.add_comm k r, if_pos hk]
    · rw [List.getElem_append_right (by simp [screenRows]; omega)]
      simp only [List.getElem_replicate, toPage, if_neg hk, List.map_const', List.length_range,
        blankedRow]

/-- A call on rows `startRow` to `endRow`, cut off at the last row, moves them up by one, and any
number of calls on the whole screen drops as many rows from the top. -/
theorem scroll_rows (v : Console) :
    (∀ startRow endRow, startRow ≤ 24 → startRow ≤ endRow →
      RowsMoved startRow (min endRow 24) v (v.shiftVideoMemUp startRow endRow)) ∧
    ∀ k, ((fun v => v.shiftVideoMemUp 0 numRows)^[k] v).screenRows =
      v.screenRows.drop (min k numRows) ++ List.replicate (min k numRows) blankedRow :=
  ⟨fun _ _ hs hle => shiftVideoMemUp_moved hs hle, iterate_rows v⟩

/-- A range that ends below the screen, on a screen with no two equal rows. -/
theorem scroll_rows_cut : let v : Console := ⟨3, 4, fun i => UInt8.ofNat (i / 160), []⟩
    RowsMoved 5 24 v (v.shiftVideoMemUp 5 200) :=
  (scroll_rows _).1 5 200 (by decide) (by decide)

end Console

end HalOs
