import Mathlib

/-!
# Lines and pieces of a text

A text is split at a separator into lines, and a line that is too long for a buffer into pieces
of the buffer's size. `blocks` is what a reader with such a buffer sees of a text.
-/

namespace Texts

variable {α : Type*} {n : ℕ} {l t : List α}

/-- A list cut into pieces of length `n`, the last one shorter. -/
def pieces (n : ℕ) (l : List α) : List (List α) :=
  if _h : l = [] ∨ n = 0 then [] else l.take n :: pieces n (l.drop n)
termination_by l.length
decreasing_by
  have := List.length_pos_iff.mpr (not_or.mp _h).1
  have := Nat.pos_of_ne_zero (not_or.mp _h).2
  rw [List.length_drop]
  omega

section Blocks

variable [BEq α] [LawfulBEq α] {sep : α}

/-- The lines of a text, those longer than `n` in pieces. -/
def blocks (n : ℕ) (sep : α) (t : List α) : List (List α) := (t.splitOn sep).flatMap (pieces n)

end Blocks

end Texts
