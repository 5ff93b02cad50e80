import HalOs.Model.Fish
import HalOs.Proofs.BlinkList

/-!
# The frames of the fish

`add_frames` adds exactly the places where one of the two pictures has a visible character, in
reading order, each with the two characters of that place. With this and the list of blinkers,
the whole fish program is served to its end.
-/

namespace HalOs.Fish

open Blink

/-! ### The pictures -/

/-- The rows of a file. -/
def rows (frame : List UInt8) : List (List UInt8) := frame.splitOn newline

/-- The blinker for one place of the two pictures, unless both are blank there. -/
def cell (blink : BlinkStruct) (row col : ℕ) (x y : UInt8) : List Action :=
  if x ≠ space ∨ y ≠ space then
    [.add { blink with
      onLength := 15
      offLength := 15
      onChar := x
      offChar := y
      location := UInt16.ofNat (row * 80 + col + offset) }]
  else []

/-- One row of the two pictures from a column on; a short row goes on in blanks. -/
def rowActions (blink : BlinkStruct) (row col : ℕ) (l0 l1 : List UInt8) : List Action :=
  (List.range (max l0.length l1.length)).flatMap fun j =>
    cell blink row (col + j) (l0.getD j space) (l1.getD j space)

/-- The rows from a number on; the shorter file is closed again after each further row. -/
def picture (blink : BlinkStruct) (row : ℕ) (ls0 ls1 : List (List UInt8)) : List Action :=
  (List.range (max ls0.length ls1.length)).flatMap fun r =>
    rowActions blink (row + r) 0 (ls0.getD r []) (ls1.getD r []) ++
      closes (decide (ls0.length ≤ r + 1)) (decide (ls1.length ≤ r + 1))

/-! ### Reading a row -/

/-- The reader has `l` left of its row and `ls` below it. -/
def Reading (l : List UInt8) (ls : List (List UInt8)) (f : Reader) : Prop :=
  f.c ≠ newline ∧ f.eof = false ∧ rows f.rest = l :: ls

/-- The reader is at the end of a row, with `ls` below it. -/
def Done (ls : List (List UInt8)) (f : Reader) : Prop :=
  f.c = newline ∧ f.eof = decide (ls = []) ∧ (ls ≠ [] → rows f.rest = ls)

/-- The reader is in a row or at its end. -/
def InRow (l : List UInt8) (ls : List (List UInt8)) (f : Reader) : Prop :=
  Reading l ls f ∨ l = [] ∧ Done ls f

section Readers

variable {l : List UInt8} {ls : List (List UInt8)} {f : Reader} {x : UInt8}

lemma rows_ne_nil (frame : List UInt8) : rows frame ≠ [] := List.splitOnP_ne_nil _ frame

lemma rows_cons (x : UInt8) (frame : List UInt8) : rows (x :: frame) =
    if x = newline then [] :: rows frame else (rows frame).modifyHead (List.cons x) := by
  unfold rows List.splitOn
  rw [List.splitOnP_cons_eq_if_modifyHead]
  simp only [beq_iff_eq]

lemma Reading.step_nil (h : Reading [] ls f) : Done ls f.step := by
  obtain ⟨hc, heof, hrows⟩ := h
  unfold Reader.step
  rw [if_pos hc]
  cases hrest : f.rest with
  | nil =>
    rw [hrest] at hrows
    have hls : ls = [] := (List.cons.inj hrows).2.symm
    exact ⟨rfl, by simp [hls], fun hne => absurd hls hne⟩
  | cons y rest =>
    rw [hrest, rows_cons] at hrows
    split_ifs at hrows with hy
    · obtain ⟨-, rfl⟩ := List.cons.inj hrows
      exact ⟨hy, by simp [heof, rows_ne_nil], fun _ => rfl⟩
    · cases hlater : rows rest with
      | nil => exact absurd hlater (rows_ne_nil rest)
      | cons l ls' => simp [hlater] at hrows

lemma Reading.step_cons (h : Reading (x :: l) ls f) : f.step.c = x ∧ Reading l ls f.step := by
  obtain ⟨hc, heof, hrows⟩ := h
  unfold Reader.step
  rw [if_pos hc]
  cases hrest : f.rest with
  | nil =>
    rw [hrest] at hrows
    exact absurd (List.cons.inj hrows).1 (by simp)
  | cons y rest =>
    rw [hrest, rows_cons] at hrows
    split_ifs at hrows with hy
    · exact absurd (List.cons.inj hrows).1 (by simp)
    · cases hlater : rows rest with
      | nil => exact absurd hlater (rows_ne_nil rest)
      | cons l' ls' =>
        rw [hlater, List.modifyHead_cons] at hrows
        obtain ⟨hhead, rfl⟩ := List.cons.inj hrows
        obtain ⟨rfl, rfl⟩ := List.cons.inj hhead
        exact ⟨rfl, hy, heof, hlater⟩

lemma Done.step (h : Done ls f) : f.step = f := by
  rw [Reader.step, if_neg (not_not.mpr h.1)]

/-- After a step the reader holds the next character of its row, a newline at its end. -/
lemma InRow.step (h : InRow l ls f) : f.step.c = l.headD newline ∧ InRow l.tail ls f.step ∧
    (l = [] → Done ls f.step) ∧ (l ≠ [] → f.step.c ≠ newline) := by
  cases l with
  | nil =>
    have hdone : Done ls f.step := by
      rcases h with hreading | ⟨-, hdone⟩
      · exact hreading.step_nil
      · rw [hdone.step]
        exact hdone
    exact ⟨hdone.1, Or.inr ⟨rfl, hdone⟩, fun _ => hdone, fun hne => absurd rfl hne⟩
  | cons x l =>
    obtain ⟨hc, hnext⟩ := (h.resolve_right (by simp)).step_cons
    exact ⟨hc, Or.inl hnext, by simp, fun _ => hnext.1⟩

end Readers

/-! ### One row -/

section Rows

variable {blink : BlinkStruct} {l0 l1 : List UInt8} {ls0 ls1 : List (List UInt8)}

lemma rowActions_cons {n : ℕ} (row col : ℕ) (h : max l0.length l1.length = n + 1) :
    rowActions blink row col l0 l1 =
      cell blink row col (l0.getD 0 space) (l1.getD 0 space) ++
        rowActions blink row (col + 1) l0.tail l1.tail := by
  have htail : max l0.tail.length l1.tail.length = n := by
    simp only [List.length_tail]
    omega
  unfold rowActions
  rw [h, htail, List.range_succ_eq_map, List.flatMap_cons, List.flatMap_map]
  simp only [Nat.add_zero, Nat.succ_eq_add_one, List.getD_eq_getElem?_getD, List.getElem?_tail,
    Nat.add_assoc, Nat.add_comm 1]

/-- The branch that adds a cell sees the characters of the two rows. -/
lemma addCell_eq (s : Frames) (h0 : s.file0.c = l0.headD newline)
    (h1 : s.file1.c = l1.headD newline) (hn0 : l0 ≠ [] → s.file0.c ≠ newline)
    (hn1 : l1 ≠ [] → s.file1.c ≠ newline) :
    addCell blink s = cell blink s.row s.col (l0.getD 0 space) (l1.getD 0 space) := by
  have hshown : ∀ (l : List UInt8) (c : UInt8), c = l.headD newline → (l ≠ [] → c ≠ newline) →
      (if c = newline then space else c) = l.getD 0 space ∧
        (c ≠ space ∧ c ≠ newline ↔ l.getD 0 space ≠ space) := by
    intro l c hc hn
    cases l with
    | nil =>
      subst hc
      simp
    | cons x l =>
      have hne := hn (by simp)
      subst hc
      simpa using ⟨fun heq => absurd heq hne, fun _ => hne⟩
  obtain ⟨hface0, hvisible0⟩ := hshown l0 _ h0 hn0
  obtain ⟨hface1, hvisible1⟩ := hshown l1 _ h1 hn1
  unfold addCell cell
  dsimp only
  simp only [hface0, hface1, hvisible0, hvisible1]

/-- The inner loop adds the cells of a row and leaves both readers at its end. -/
lemma addRow_eq (blink : BlinkStruct) (fuel : ℕ) (s : Frames) (h0 : InRow l0 ls0 s.file0) (h1 : InRow l1 ls1 s.file1)
    (hfuel : max l0.length l1.length < fuel) :
    ∃ f0 f1 col, addRow blink fuel s =
        some (rowActions blink s.row s.col l0 l1, ⟨f0, f1, s.row, col⟩) ∧
      Done ls0 f0 ∧ Done ls1 f1 := by
  obtain ⟨n, hn⟩ : ∃ n, max l0.length l1.length = n := ⟨_, rfl⟩
  rw [hn] at hfuel
  induction n generalizing fuel s l0 l1 with
  | zero =>
    obtain ⟨fuel, rfl⟩ := Nat.exists_eq_add_of_lt hfuel
    have hl0 : l0 = [] := List.length_eq_zero_iff.mp (by omega)
    have hl1 : l1 = [] := List.length_eq_zero_iff.mp (by omega)
    have hdone0 := h0.step.2.2.1 hl0
    have hdone1 := h1.step.2.2.1 hl1
    refine ⟨s.file0.step, s.file1.step, s.col, ?_, hdone0, hdone1⟩
    rw [Nat.zero_add, addRow, if_pos ⟨hdone0.1, hdone1.1⟩, hl0, hl1]
    rfl
  | succ n ih =>
    obtain ⟨fuel, rfl⟩ := Nat.exists_eq_add_of_lt (Nat.zero_lt_of_lt hfuel)
    obtain ⟨hc0, hnext0, -, hn0⟩ := h0.step
    obtain ⟨hc1, hnext1, -, hn1⟩ := h1.step
    have hmore : ¬(s.file0.step.c = newline ∧ s.file1.step.c = newline) := by
      rintro ⟨heq0, heq1⟩
      have hl0 : l0 = [] := not_ne_iff.mp fun hne => hn0 hne heq0
      have hl1 : l1 = [] := not_ne_iff.mp fun hne => hn1 hne heq1
      simp [hl0, hl1] at hn
    have htail : max l0.tail.length l1.tail.length = n := by
      simp only [List.length_tail]
      omega
    obtain ⟨f0, f1, col, hrow, hdone0, hdone1⟩ := ih fuel
      ⟨s.file0.step, s.file1.step, s.row, s.col + 1⟩ hnext0 hnext1 (by omega) htail
    refine ⟨f0, f1, col, ?_, hdone0, hdone1⟩
    rw [Nat.zero_add, addRow, if_neg hmore]
    dsimp only
    rw [hrow, Option.map_some, rowActions_cons s.row s.col hn]
    dsimp only
    rw [addCell_eq ⟨s.file0.step, s.file1.step, s.row, s.col⟩ hc0 hc1 hn0 hn1]

end Rows

/-! ### All rows -/

section Pictures

variable {blink : BlinkStruct} {ls0 ls1 : List (List UInt8)} {f : Reader}

/-- At the start of a row the reader has the given rows before it. -/
def AtRow (ls : List (List UInt8)) (f : Reader) : Prop :=
  InRow (ls.headD []) ls.tail f ∧ f.eof = decide (ls = [])

lemma digit_ne_newline : (48 : UInt8) ≠ newline := by decide

lemma AtRow.of_done {ls : List (List UInt8)} (h : Done ls f) : AtRow ls f.nextRow := by
  obtain ⟨hc, heof, hrows⟩ := h
  refine ⟨?_, heof⟩
  cases ls with
  | nil =>
    have hend : f.eof = true := heof.trans (by simp)
    refine Or.inr ⟨rfl, ?_, ?_, fun hne => absurd rfl hne⟩
    · rw [Reader.nextRow, hend]
      rfl
    · exact hend
  | cons l ls =>
    have hmore : f.eof = false := heof.trans (by simp)
    refine Or.inl ⟨?_, hmore, hrows (by simp)⟩
    rw [Reader.nextRow, hmore]
    exact digit_ne_newline

lemma atRow_start (frame : List UInt8) : AtRow (rows frame) ⟨frame, 48, false⟩ := by
  have hne := rows_ne_nil frame
  refine ⟨Or.inl ⟨digit_ne_newline, rfl, ?_⟩, by simp [hne]⟩
  exact (List.cons_head?_tail (by simp [List.headD_eq_head?_getD, List.head?_eq_some_head hne])).symm

lemma picture_cons (row : ℕ) {n : ℕ} (h : max ls0.length ls1.length = n + 1) :
    picture blink row ls0 ls1 =
      rowActions blink row 0 (ls0.headD []) (ls1.headD []) ++
        closes (decide (ls0.tail = [])) (decide (ls1.tail = [])) ++
        picture blink (row + 1) ls0.tail ls1.tail := by
  have htail : max ls0.tail.length ls1.tail.length = n := by
    simp only [List.length_tail]
    omega
  have hlast : ∀ (ls : List (List UInt8)), decide (ls.length ≤ 0 + 1) = decide (ls.tail = []) := by
    intro ls
    rw [decide_eq_decide, ← List.length_eq_zero_iff, List.length_tail]
    omega
  have hshift : ∀ (ls : List (List UInt8)) r,
      decide (ls.length ≤ r.succ + 1) = decide (ls.tail.length ≤ r + 1) := by
    intro ls r
    rw [decide_eq_decide, List.length_tail]
    omega
  unfold picture
  rw [h, htail, List.range_succ_eq_map, List.flatMap_cons, List.flatMap_map, hlast, hlast]
  simp only [hshift, Nat.add_zero, Nat.succ_eq_add_one, List.getD_eq_getElem?_getD,
    List.getElem?_tail, Nat.add_assoc, Nat.add_comm 1, List.headD_eq_head?_getD,
    List.head?_eq_getElem?]

/-- The outer loop adds the picture of the rows that are left. -/
lemma addRows_eq (blink : BlinkStruct) (fuel row : ℕ) (s : Frames) (hrow : s.row = row) (h0 : AtRow ls0 s.file0)
    (h1 : AtRow ls1 s.file1) (hwide : ∀ l ∈ ls0 ++ ls1, l.length < fuel)
    {limit : ℕ} (hlimit : max ls0.length ls1.length ≤ limit) :
    addRows blink fuel limit s = some (picture blink row ls0 ls1) := by
  induction limit generalizing row s ls0 ls1 with
  | zero =>
    have hls0 : ls0 = [] := List.length_eq_zero_iff.mp (by omega)
    have hls1 : ls1 = [] := List.length_eq_zero_iff.mp (by omega)
    subst hls0 hls1
    rw [addRows, h0.2, h1.2]
    rfl
  | succ limit ih =>
    by_cases hmore : s.file0.eof = false ∨ s.file1.eof = false
    · obtain ⟨n, hn⟩ : ∃ n, max ls0.length ls1.length = n + 1 := by
        refine Nat.exists_eq_succ_of_ne_zero fun hzero => ?_
        have hls0 : ls0 = [] := List.length_eq_zero_iff.mp (by omega)
        have hls1 : ls1 = [] := List.length_eq_zero_iff.mp (by omega)
        rw [h0.2, h1.2, hls0, hls1] at hmore
        simp at hmore
      have hfits : max (ls0.headD []).length (ls1.headD []).length < fuel := by
        have hhead : ∀ ls : List (List UInt8), (∀ l ∈ ls, l ∈ ls0 ++ ls1) →
            (ls.headD []).length < fuel := by
          intro ls hls
          cases ls with
          | nil =>
            obtain ⟨l, hl⟩ := List.exists_mem_of_length_pos
              (show 0 < (ls0 ++ ls1).length by rw [List.length_append]; omega)
            exact Nat.zero_lt_of_lt (hwide l hl)
          | cons l ls => exact hwide l (hls l List.mem_cons_self)
        exact max_lt (hhead ls0 fun l hl => List.mem_append_left ls1 hl)
          (hhead ls1 fun l hl => List.mem_append_right ls0 hl)
      obtain ⟨f0, f1, col, hcells, hdone0, hdone1⟩ :=
        addRow_eq blink fuel { s with col := 0 } h0.1 h1.1 hfits
      have hlater := ih (row + 1) ⟨f0.nextRow, f1.nextRow, row + 1, col⟩ rfl
        (AtRow.of_done hdone0) (AtRow.of_done hdone1)
        (fun l hl => hwide l ?_) (by simp only [List.length_tail]; omega)
      · subst hrow
        rw [addRows, if_pos hmore, hcells, Option.bind_some]
        dsimp only
        rw [hlater, Option.map_some, picture_cons s.row hn, hdone0.2.1, hdone1.2.1]
      · rcases List.mem_append.mp hl with hl | hl
        · exact List.mem_append_left ls1 (List.mem_of_mem_tail hl)
        · exact List.mem_append_right ls0 (List.mem_of_mem_tail hl)
    · obtain ⟨heof0, heof1⟩ := not_or.mp hmore
      have hls0 : ls0 = [] := by simpa [h0.2] using heof0
      have hls1 : ls1 = [] := by simpa [h1.2] using heof1
      rw [addRows, if_neg hmore, hls0, hls1]
      rfl

end Pictures

section Sizes

lemma length_rows_le (frame : List UInt8) : (rows frame).length ≤ frame.length + 1 := by
  induction frame with
  | nil => simp [rows]
  | cons x frame ih =>
    rw [rows_cons]
    split_ifs
    · simpa using ih
    · simp only [List.length_modifyHead, List.length_cons]
      omega

lemma length_le_of_mem_rows {frame l : List UInt8} (h : l ∈ rows frame) :
    l.length ≤ frame.length := by
  induction frame generalizing l with
  | nil =>
    have hl : l = [] := by simpa [rows] using h
    simp [hl]
  | cons x frame ih =>
    rw [rows_cons] at h
    split_ifs at h
    · rcases List.mem_cons.mp h with rfl | h
      · simp
      · exact (ih h).trans (by simp)
    · cases hrows : rows frame with
      | nil => exact absurd hrows (rows_ne_nil frame)
      | cons first ls =>
        rw [hrows, List.modifyHead_cons] at h
        rcases List.mem_cons.mp h with rfl | h
        · have hfirst := ih (hrows ▸ List.mem_cons_self)
          simpa using hfirst
        · have hl := ih (hrows ▸ List.mem_cons_of_mem first h)
          exact hl.trans (by simp)

end Sizes

/-- `add_frames` comes to its end and does what the two pictures say. -/
theorem addFrames_eq (blink : BlinkStruct) {frame0 frame1 : List UInt8} {fuel : ℕ}
    (h0 : frame0.length < fuel) (h1 : frame1.length < fuel) :
    addFrames blink fuel frame0 frame1 =
      some (picture blink 0 (rows frame0) (rows frame1)) := by
  have hrows0 := length_rows_le frame0
  have hrows1 := length_rows_le frame1
  refine addRows_eq blink fuel 0 _ rfl (atRow_start frame0) (atRow_start frame1) (fun l hl => ?_)
    (by omega)
  rcases List.mem_append.mp hl with hl | hl
  · exact (length_le_of_mem_rows hl).trans_lt h0
  · exact (length_le_of_mem_rows hl).trans_lt h1

theorem addFrames_eq_letters : addFrames zeroStruct 5 [65, 10, 32, 67] [66] =
    some (picture zeroStruct 0 (rows [65, 10, 32, 67]) (rows [66])) :=
  addFrames_eq zeroStruct (by decide) (by decide)

end HalOs.Fish
