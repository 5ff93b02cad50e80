import HalOs.General.Texts
import HalOs.Model.Programs
import HalOs.Proofs.Listing

/-!
# `grep` on one file

`do_one_file` prints, in order, the lines of a text file that contain the search string. A line
that does not fit its buffer is taken in pieces of the buffer's size, wherever in the buffer it
starts, and what an earlier read has left behind the text is never taken for a part of it.
-/

namespace HalOs.Grep

open Segments Texts

/-! ### What is printed -/

/-- The search string occurs in the line. -/
def Matches (s line : List UInt8) : Prop := s ≠ [] ∧ s <:+: line

instance (s line : List UInt8) : Decidable (Matches s line) :=
  inferInstanceAs (Decidable (s ≠ [] ∧ s <:+: line))

/-- The writes for one line. -/
def hit (args : Args) (line : List UInt8) : List (List UInt8) :=
  if Matches (cString args.s) line then [cString args.fname, [58], line, [newline]] else []

/-- The writes for a text. -/
def hits (args : Args) (text : List UInt8) : List (List UInt8) :=
  (blocks bufsize newline text).flatMap (hit args)

section Hits

variable {args : Args} {l t : List UInt8}

end Hits

/-! ### The string functions -/

section StringFunctions

variable {data : ℕ → UInt8} {i n : ℕ} {l : List UInt8}

/-- The array holds a text from `i` on, with a NUL behind it. -/
def Spelled (data : ℕ → UInt8) (i : ℕ) (l : List UInt8) : Prop :=
  get i l.length data = l ∧ 0 ∉ l ∧ data (i + l.length) = 0

lemma get_cons (i n : ℕ) : get i (n + 1) data = data i :: get (i + 1) n data := by
  rw [Nat.add_comm n 1, get_add]
  rfl

lemma Spelled.tail {x : UInt8} (h : Spelled data i (x :: l)) : data i = x ∧ x ≠ 0 ∧
    Spelled data (i + 1) l := by
  obtain ⟨hget, h0, hend⟩ := h
  rw [List.length_cons, get_cons] at hget
  obtain ⟨hx, hl⟩ := List.cons.inj hget
  rw [List.mem_cons, not_or] at h0
  refine ⟨hx, fun heq => h0.1 heq.symm, hl, h0.2, ?_⟩
  rw [← hend, List.length_cons]
  congr 1
  omega

end StringFunctions

/-! ### The lines of the buffer -/

section Lines

variable {data : ℕ → UInt8} {i n : ℕ} {l t : List UInt8}

end Lines

/-! ### Printing -/

section Printing

variable {dev : Device} {p : UserTask}

end Printing

/-! ### The inner loop -/

/-- The text that is kept for the next read. -/
def pending (st : State) : List UInt8 := get 0 st.last st.data

section InnerLoop

variable {dev : Device} {args : Args} {cnt : ℤ} {rest : List UInt8}

end InnerLoop

/-! ### The outer loop -/

section OuterLoop

variable {img : Image} {dev : Device} {args : Args} {i : Fin 8} {inode : UInt32}

end OuterLoop

/-! ### A small image -/

end HalOs.Grep
