import HalOs.Model.Printing
import HalOs.Proofs.Strings

/-!
# `itoa`

The digits come lowest first and are turned around in place. The result is the one numeral
without leading zeros, and nothing behind its NUL is touched.
-/

namespace HalOs

open Segments

variable {bytes : ℕ → UInt8} {text rest : List UInt8} {fuel s k : ℕ} {radix : UInt32}

/-! ### Strings -/

lemma strlenAt_put (h : 0 ∉ text) (hf : text.length ≤ fuel) :
    strlenAt fuel (put s (text ++ [0]) bytes) s = some text.length := by
  have hlen : (text ++ [0]).length = text.length + 1 := List.length_append
  have hloop : ∀ n k, k + n = text.length → Loops.whileLoop
      (fun len => put s (text ++ [0]) bytes (s + len) ≠ 0) (fun len => len + 1) n k =
        some text.length := by
    intro n
    induction n with
    | zero =>
      intro k hk
      obtain rfl : k = text.length := hk
      rw [Loops.whileLoop_done]
      rw [put_inside (by omega), List.getElem_append_right le_rfl]
      simp
    | succ n ih =>
      intro k hk
      rw [Loops.whileLoop_next]
      · exact ih (k + 1) (by omega)
      · rw [put_inside (by omega), List.getElem_append_left (by omega)]
        exact fun h0 => h (h0 ▸ List.getElem_mem _)
  exact Loops.whileLoop_mono (hloop text.length 0 (Nat.zero_add _)) hf

/-- The loop of `strrev` turns the bytes between its indices around. -/
lemma reversal_loop (s : ℕ) (x : Reversal) (hf : x.last - x.beg ≤ fuel) :
    (Loops.whileLoop Reversal.Open (Reversal.swap s) fuel x).map Reversal.bytes =
      some (turn (s + x.beg) (x.last + 1 - x.beg) x.bytes) := by
  induction fuel generalizing x with
  | zero =>
    have hdone : ¬x.Open := fun hlt : x.beg < x.last => by omega
    rw [Loops.whileLoop_done hdone, turn_short (by omega)]
    rfl
  | succ fuel ih =>
    by_cases hlt : x.Open
    · have hlt' : x.beg < x.last := hlt
      rw [Loops.whileLoop_next hlt, ih _ (by simp only [Reversal.swap]; omega)]
      obtain ⟨n, hn⟩ := Nat.exists_eq_add_of_lt hlt'
      have hinner : x.last - 1 + 1 - (x.beg + 1) = n := by omega
      have houter : x.last + 1 - x.beg = n + 2 := by omega
      have hlast : s + x.last = s + x.beg + (n + 1) := by omega
      simp only [Reversal.swap, hinner, houter, hlast, ← Nat.add_assoc s x.beg 1, turn_swap]
    · have hge : ¬x.beg < x.last := hlt
      rw [Loops.whileLoop_done hlt, turn_short (by omega)]
      rfl

lemma strrev_put (h : 0 ∉ text) (hf : text.length ≤ fuel) :
    strrev fuel s (put s (text ++ [0]) bytes) = some (put s (text.reverse ++ [0]) bytes) := by
  rw [strrev, strlenAt_put h hf, Option.bind_some, reversal_loop _ _ (by dsimp only; omega)]
  simp only [Nat.add_zero, Nat.sub_zero]
  rw [put_append, put_append, List.length_reverse]
  by_cases h0 : text.length = 0
  · have hnil : text = [] := List.length_eq_zero_iff.mp h0
    have hone : text.length - 1 + 1 = 1 := by omega
    rw [hone, turn_short le_rfl, hnil]
    rfl
  · have hlen : text.length - 1 + 1 = text.length := by omega
    rw [hlen, turn_put_behind le_rfl, turn_put]

/-! ### Digits -/

/-- The characters of a number without leading zeros. -/
def numeralText (radix value : ℕ) : List UInt8 :=
  (Numerals.numeral radix value).map (byteAt lookup)

lemma lookup_ne_zero : ∀ d < 36, byteAt lookup d ≠ 0 := by decide

lemma lookup_injOn : Set.InjOn (byteAt lookup) (Set.Iio 36) := by
  have hall : ∀ d < 36, ∀ e < 36, byteAt lookup d = byteAt lookup e → d = e := by decide +kernel
  exact fun d hd e he => hall d hd e he

lemma not_mem_numeralText {b : ℕ} (hb : 1 < b) (hb36 : b ≤ 36) (n : ℕ) : 0 ∉ numeralText b n := by
  intro h0
  obtain ⟨d, hd, hzero⟩ := List.mem_map.mp h0
  have hlt := (Numerals.numeral_canonical hb n).digits d hd
  exact lookup_ne_zero d (by omega) hzero

/-- Different numbers have different texts. -/
theorem numeralText_inj {b n n' : ℕ} (hb : 1 < b) (hb36 : b ≤ 36)
    (h : numeralText b n = numeralText b n') : n = n' := by
  have hspells : Numerals.Spells (byteAt lookup) b n (numeralText b n') :=
    (Numerals.spells_iff hb).mpr h.symm
  have hdistinct : Set.InjOn (byteAt lookup) (Set.Iio b) :=
    lookup_injOn.mono (Set.Iio_subset_Iio hb36)
  exact hspells.unique hdistinct ((Numerals.spells_iff hb).mpr rfl)

/-- The bytes, `newbuf` and `newval` when all digits of `x` are stored, lowest first. -/
def Conversion.finished (radix : UInt32) (x : Conversion) : Conversion where
  bytes := put x.newbuf ((Nat.digits radix.toNat x.newval.toNat).map (byteAt lookup)) x.bytes
  newbuf := x.newbuf + (Nat.digits radix.toNat x.newval.toNat).length
  newval := 0

lemma finished_zero {x : Conversion} (h : x.newval = 0) : x.finished radix = x := by
  cases x with
  | mk bytes newbuf newval =>
  subst h
  simp [Conversion.finished, put_nil]

lemma finished_place (hb : 1 < radix.toNat) {x : Conversion} (h : x.Open) :
    (x.place radix).finished radix = x.finished radix := by
  have hdigits := Nat.digits_def' hb (show 0 < x.newval.toNat from h)
  unfold Conversion.finished Conversion.place
  simp only [hdigits, UInt32.toNat_div, UInt32.toNat_mod, List.map_cons, List.length_cons,
    Conversion.mk.injEq, and_true]
  constructor
  · rw [put_cons]
  · omega

lemma conversion_loop (hb : 1 < radix.toNat) (x : Conversion)
    (hf : (Nat.digits radix.toNat x.newval.toNat).length ≤ fuel) :
    Loops.whileLoop Conversion.Open (Conversion.place radix) fuel x = some (x.finished radix) := by
  induction fuel generalizing x with
  | zero =>
    have hnil := List.length_eq_zero_iff.mp (Nat.le_zero.mp hf)
    have hzero : x.newval.toNat = 0 := Nat.digits_eq_nil_iff_eq_zero.mp hnil
    rw [finished_zero (UInt32.toNat_inj.mp hzero)]
    exact Loops.whileLoop_done fun hopen => absurd hzero (Nat.ne_of_gt hopen)
  | succ fuel ih =>
    by_cases hopen : x.Open
    · have hdigits := Nat.digits_def' hb (show 0 < x.newval.toNat from hopen)
      rw [hdigits, List.length_cons] at hf
      have hrest : (Nat.digits radix.toNat (x.place radix).newval.toNat).length ≤ fuel := by
        simp only [Conversion.place, UInt32.toNat_div]
        omega
      rw [Loops.whileLoop_next hopen, ih _ hrest, finished_place hb hopen]
    · have hzero : x.newval.toNat = 0 := Nat.le_zero.mp (not_lt.mp hopen)
      rw [finished_zero (UInt32.toNat_inj.mp hzero)]
      exact Loops.whileLoop_done hopen

/-- `itoa` stores the numeral and its NUL, and nothing else. -/
theorem itoa_put (value radix : UInt32) (hb : 1 < radix.toNat) (hb36 : radix.toNat ≤ 36)
    (hf : 32 ≤ fuel) (buf : ℕ) (bytes : ℕ → UInt8) :
    itoa fuel value buf radix bytes =
      some (put buf (numeralText radix.toNat value.toNat ++ [0]) bytes) := by
  unfold itoa
  by_cases h0 : value = 0
  · have htext : numeralText radix.toNat value.toNat = [48] := by rw [h0]; rfl
    rw [if_pos h0, htext, put_append, put_singleton, put_singleton]
    rfl
  · have hne : value.toNat ≠ 0 := fun hzero => h0 (UInt32.toNat_inj.mp hzero)
    have hfit : (Nat.digits radix.toNat value.toNat).length ≤ fuel := by
      refine le_trans ((Nat.digits_length_le_iff hb value.toNat).mpr ?_) hf
      exact value.toNat_lt.trans_le (Nat.pow_le_pow_left hb 32)
    have hreverse : (numeralText radix.toNat value.toNat).reverse =
        (Nat.digits radix.toNat value.toNat).map (byteAt lookup) := by
      rw [numeralText, Numerals.numeral, if_neg hne, ← List.map_reverse, List.reverse_reverse]
    have hmem := not_mem_numeralText hb hb36 value.toNat
    rw [if_neg h0, conversion_loop hb _ hfit, Option.bind_some]
    simp only [Conversion.finished]
    rw [← List.length_map (f := byteAt lookup), update_put, ← hreverse, strrev_put,
      List.reverse_reverse]
    · rwa [List.mem_reverse]
    · rwa [hreverse, List.length_map]

end HalOs
