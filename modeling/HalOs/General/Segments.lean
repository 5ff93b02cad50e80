import Mathlib

/-!
# Segments of a memory

Stretches of consecutive cells of a memory with natural addresses: a segment read as a list, a
list stored as a segment, and a segment turned around in place.
-/

namespace Segments

variable {α : Type*} {base base' n i j : ℕ} {s t : List α} {m : ℕ → α}

/-- The cells from `base` on hold `s`; the others are those of `m`. -/
def put (base : ℕ) (s : List α) (m : ℕ → α) : ℕ → α :=
  fun i => if base ≤ i then (s[i - base]?).getD (m i) else m i

/-- The `n` cells from `base` on. -/
def get (base n : ℕ) (m : ℕ → α) : List α := (List.range n).map fun i => m (base + i)

/-- The `n` cells from `base` on in the opposite order. -/
def turn (base n : ℕ) (m : ℕ → α) : ℕ → α :=
  fun i => if base ≤ i ∧ i < base + n then m (base + (n - 1 - (i - base))) else m i

lemma put_inside (hj : j < s.length) : put base s m (base + j) = s[j] := by
  rw [put, if_pos (Nat.le_add_right base j), Nat.add_sub_cancel_left, List.getElem?_eq_getElem hj,
    Option.getD_some]

lemma put_outside (h : i < base ∨ base + s.length ≤ i) : put base s m i = m i := by
  unfold put
  split_ifs with hbase
  · rw [List.getElem?_eq_none (by omega), Option.getD_none]
  · rfl

/-- A memory is a segment stored in another one if it holds it and agrees elsewhere. -/
theorem eq_put {m' : ℕ → α} (hin : ∀ j (hj : j < s.length), m' (base + j) = s[j])
    (hout : ∀ i, i < base ∨ base + s.length ≤ i → m' i = m i) : m' = put base s m := by
  funext i
  by_cases h : i < base ∨ base + s.length ≤ i
  · rw [hout i h, put_outside h]
  · obtain ⟨j, rfl⟩ := Nat.exists_eq_add_of_le (show base ≤ i by omega)
    rw [hin j (by omega), put_inside (by omega)]

lemma put_nil : put base [] m = m := by
  refine (eq_put (fun j hj => ?_) fun _ _ => rfl).symm
  exact absurd hj (Nat.not_lt_zero j)

lemma put_append : put base (s ++ t) m = put (base + s.length) t (put base s m) := by
  refine (eq_put (fun j hj => ?_) fun i hi => ?_).symm
  · rw [List.length_append] at hj
    by_cases hs : j < s.length
    · rw [put_outside (Or.inl (by omega)), put_inside hs, List.getElem_append_left hs]
    · obtain ⟨k, rfl⟩ := Nat.exists_eq_add_of_le (not_lt.mp hs)
      rw [← Nat.add_assoc, put_inside (by omega), List.getElem_append_right (by omega)]
      simp only [Nat.add_sub_cancel_left]
  · rw [List.length_append] at hi
    rw [put_outside (by omega), put_outside (by omega)]

lemma put_singleton [DecidableEq ℕ] (a : α) : put base [a] m = Function.update m base a := by
  refine (eq_put (fun j hj => ?_) fun i hi => ?_).symm
  · obtain rfl : j = 0 := by simpa using hj
    exact Function.update_self ..
  · exact Function.update_of_ne (by simp at hi; omega) ..

lemma put_cons [DecidableEq ℕ] (a : α) :
    put base (a :: s) m = put (base + 1) s (Function.update m base a) := by
  rw [← List.singleton_append, put_append, put_singleton, List.length_singleton]

lemma update_put [DecidableEq ℕ] (a : α) :
    Function.update (put base s m) (base + s.length) a = put base (s ++ [a]) m := by
  rw [put_append, put_singleton]

lemma length_get : (get base n m).length = n := by
  rw [get, List.length_map, List.length_range]

lemma getElem_get (hj : j < (get base n m).length) : (get base n m)[j] = m (base + j) := by
  simp only [get, List.getElem_map, List.getElem_range]

lemma get_put : get base s.length (put base s m) = s := by
  refine List.ext_getElem length_get fun j _ hj => ?_
  rw [getElem_get, put_inside hj]

lemma get_put_of_disjoint (h : base + n ≤ base' ∨ base' + s.length ≤ base) :
    get base n (put base' s m) = get base n m := by
  refine List.ext_getElem (length_get.trans length_get.symm) fun j hj _ => ?_
  rw [length_get] at hj
  rw [getElem_get, getElem_get, put_outside (by omega)]

lemma get_add (k : ℕ) : get base (n + k) m = get base n m ++ get (base + n) k m := by
  unfold get
  rw [List.range_add, List.map_append, List.map_map]
  simp only [Function.comp_def, Nat.add_assoc]

lemma get_succ : get base (n + 1) m = get base n m ++ [m (base + n)] := by
  rw [get_add]
  rfl

lemma get_put_add (n : ℕ) :
    get base (s.length + n) (put base s m) = s ++ get (base + s.length) n m := by
  rw [get_add, get_put, get_put_of_disjoint (Or.inr le_rfl)]

/-! ### Copying -/

lemma put_get_succ [DecidableEq ℕ] : Function.update (put base (get base' n m) m) (base + n)
    (m (base' + n)) = put base (get base' (n + 1) m) m := by
  have hupdate := @update_put _ base (get base' n m) m _ (m (base' + n))
  rw [length_get] at hupdate
  rw [hupdate, get_succ]

lemma put_get_add (k : ℕ) : put (base + n) (get (base' + n) k m) (put base (get base' n m) m) =
    put base (get base' (n + k) m) m := by
  rw [get_add, put_append, length_get]

/-! ### Turning around in place -/

lemma turn_put : turn base s.length (put base s m) = put base s.reverse m := by
  refine eq_put (fun j hj => ?_) fun i hi => ?_
  · rw [List.length_reverse] at hj
    rw [turn, if_pos (by omega), Nat.add_sub_cancel_left, put_inside (by omega),
      List.getElem_reverse]
  · rw [List.length_reverse] at hi
    rw [turn, if_neg (by omega), put_outside hi]

lemma turn_short (h : n ≤ 1) : turn base n m = m := by
  funext i
  unfold turn
  split_ifs with hi
  · congr 1
    omega
  · rfl

/-- Two ends swapped, and what lies between them turned around. -/
lemma turn_swap [DecidableEq ℕ] (base n : ℕ) (m : ℕ → α) :
    turn (base + 1) n (Function.update (Function.update m (base + (n + 1)) (m base)) base
      (m (base + (n + 1)))) = turn base (n + 2) m := by
  funext i
  unfold turn
  by_cases hinner : base + 1 ≤ i ∧ i < base + 1 + n
  · have hother : base + 1 + (n - 1 - (i - (base + 1))) = base + (n + 2 - 1 - (i - base)) := by omega
    rw [if_pos hinner, if_pos (by omega), hother, Function.update_of_ne (by omega),
      Function.update_of_ne (by omega)]
  · rw [if_neg hinner]
    by_cases hfirst : i = base
    · have hother : base + (n + 2 - 1 - (i - base)) = base + (n + 1) := by omega
      rw [if_pos (by omega), hother, hfirst, Function.update_self]
    · rw [Function.update_of_ne hfirst]
      by_cases hlast : i = base + (n + 1)
      · have hother : base + (n + 2 - 1 - (i - base)) = base := by omega
        rw [if_pos (by omega), hother, hlast, Function.update_self]
      · rw [Function.update_of_ne hlast, if_neg (by omega)]

lemma turn_put_behind (h : base + n ≤ base') :
    turn base n (put base' s m) = put base' s (turn base n m) := by
  refine eq_put (fun j hj => ?_) fun i hi => ?_
  · rw [turn, if_neg (by omega), put_inside hj]
  · unfold turn
    split_ifs with hin
    · exact put_outside (Or.inl (by omega))
    · exact put_outside hi

end Segments
