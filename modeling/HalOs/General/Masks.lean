import Mathlib

/-!
# Single bits of a mask

A mask of `w` bits whose bits are set and cleared in a wider type, as the promotions of C have
it: the mask is widened, combined with a shifted one and cut off again.
-/

namespace Masks

variable {v w n j : ℕ}

/-- Bit `n` of a mask set to `b`, by way of `v` bits. -/
def assign (v : ℕ) (b : Bool) (n : ℕ) (m : BitVec w) : BitVec w :=
  if b then (m.setWidth v ||| 1#v <<< n).setWidth w else (m.setWidth v &&& ~~~(1#v <<< n)).setWidth w

lemma getLsbD_shifted (hj : j < v) : (1#v <<< n).getLsbD j = decide (j = n) := by
  rw [← BitVec.twoPow_eq, BitVec.getLsbD_twoPow]
  by_cases h : j = n
  · subst h
    simp [hj]
  · simp [h, Ne.symm h]

/-- Each bit is independent of the others, and a bit past the mask is lost. -/
theorem getLsbD_assign (hwv : w ≤ v) (hj : j < w) (b : Bool) (m : BitVec w) :
    (assign v b n m).getLsbD j = if j = n then b else m.getLsbD j := by
  have hv : j < v := hj.trans_le hwv
  unfold assign
  cases b with
  | true =>
    simp only [if_true, BitVec.getLsbD_setWidth, BitVec.getLsbD_or, getLsbD_shifted hv, hj, hv,
      decide_true, Bool.true_and]
    by_cases h : j = n
    · simp [h]
    · simp [h]
  | false =>
    simp only [Bool.false_eq_true, if_false, BitVec.getLsbD_setWidth, BitVec.getLsbD_and,
      BitVec.getLsbD_not, getLsbD_shifted hv, hj, hv, decide_true, Bool.true_and]
    by_cases h : j = n
    · simp [h]
    · simp [h]

/-- Two masks put side by side. -/
theorem getLsbD_beside (hwv : w + w ≤ v) (high low : BitVec w) (hj : j < w + w) :
    (high.setWidth v <<< w ||| low.setWidth v).getLsbD j =
      if j < w then low.getLsbD j else high.getLsbD (j - w) := by
  have hv : j < v := hj.trans_le hwv
  rw [BitVec.getLsbD_or, BitVec.getLsbD_shiftLeft, BitVec.getLsbD_setWidth, BitVec.getLsbD_setWidth]
  by_cases h : j < w
  · simp [h, hv]
  · have hlow : low.getLsbD j = false := BitVec.getLsbD_of_ge _ _ (by omega)
    have hsub : j - w < v := by omega
    simp [h, hv, hlow, hsub]

/-! ### Fields -/

/-- A field replaced under a mask: what is outside the field stays. -/
theorem replace_and_mask {a b m : BitVec w} (hb : b &&& m = 0#w) : (a &&& m ||| b) &&& m = a &&& m := by
  refine BitVec.eq_of_getLsbD_eq fun i hi => ?_
  have hbit := congrArg (fun x => x.getLsbD i) hb
  simp only [BitVec.getLsbD_and, BitVec.getLsbD_zero] at hbit
  simp only [BitVec.getLsbD_and, BitVec.getLsbD_or]
  cases hm : m.getLsbD i with
  | false => simp
  | true =>
    rw [hm, Bool.and_true] at hbit
    simp [hbit]

/-- The field is the new one. -/
theorem replace_and_not_mask {a b m : BitVec w} (hb : b &&& m = 0#w) :
    (a &&& m ||| b) &&& ~~~m = b := by
  refine BitVec.eq_of_getLsbD_eq fun i hi => ?_
  have hbit := congrArg (fun x => x.getLsbD i) hb
  simp only [BitVec.getLsbD_and, BitVec.getLsbD_zero] at hbit
  simp only [BitVec.getLsbD_and, BitVec.getLsbD_or, BitVec.getLsbD_not, hi, decide_true,
    Bool.true_and]
  cases hm : m.getLsbD i with
  | false => simp
  | true =>
    rw [hm, Bool.and_true] at hbit
    simp [hbit]

end Masks
