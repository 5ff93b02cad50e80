import Mathlib

/-!
# Numerals

Digit lists with the most significant digit first: the one without leading zeros, and the one of
a fixed width, that denote a number.
-/

namespace Numerals

variable {α : Type*} {b n n' w : ℕ} {ds : List ℕ}

/-- The number a list of digits denotes. -/
def value (b : ℕ) (ds : List ℕ) : ℕ := Nat.ofDigits b ds.reverse

/-- Digits without leading zeros; zero itself has one digit. -/
structure Canonical (b : ℕ) (ds : List ℕ) : Prop where
  digits : ∀ d ∈ ds, d < b
  nonempty : ds ≠ []
  leading : ∀ tail, ds = 0 :: tail → tail = []

def numeral (b n : ℕ) : List ℕ := if n = 0 then [0] else (Nat.digits b n).reverse

/-- A numeral filled up with zeros. -/
def padded (b w n : ℕ) : List ℕ := List.replicate (w - (numeral b n).length) 0 ++ numeral b n

lemma value_cons (b d : ℕ) (ds : List ℕ) : value b (d :: ds) = d * b ^ ds.length + value b ds := by
  rw [value, List.reverse_cons, Nat.ofDigits_append, List.length_reverse, Nat.ofDigits_singleton,
    value]
  ring

lemma value_zeros (b k : ℕ) (ds : List ℕ) : value b (List.replicate k 0 ++ ds) = value b ds := by
  induction k with
  | zero => rfl
  | succ k ih => rw [List.replicate_succ, List.cons_append, value_cons, ih, zero_mul, zero_add]

lemma value_numeral (b n : ℕ) : value b (numeral b n) = n := by
  unfold value numeral
  split_ifs with h
  · rw [h]
    rfl
  · rw [List.reverse_reverse, Nat.ofDigits_digits]

lemma numeral_canonical (hb : 1 < b) (n : ℕ) : Canonical b (numeral b n) := by
  unfold numeral
  split_ifs with h
  · refine ⟨fun d hd => ?_, List.cons_ne_nil 0 [], fun tail ht => (List.cons.inj ht).2.symm⟩
    rw [List.mem_singleton.mp hd]
    omega
  · have hne : Nat.digits b n ≠ [] := Nat.digits_ne_nil_iff_ne_zero.mpr h
    refine ⟨fun d hd => Nat.digits_lt_base hb (List.mem_reverse.mp hd),
      fun hnil => hne (List.reverse_eq_nil_iff.mp hnil), fun tail ht => ?_⟩
    have hlast : (Nat.digits b n).getLast hne = 0 := by
      have hdigits : Nat.digits b n = tail.reverse ++ [0] := by
        rw [← List.reverse_reverse (Nat.digits b n), ht, List.reverse_cons]
      simp only [hdigits, List.getLast_append_singleton]
    exact absurd hlast (Nat.getLast_digit_ne_zero b h)

/-- Every number has exactly one numeral without leading zeros. -/
theorem canonical_iff (hb : 1 < b) : Canonical b ds ∧ value b ds = n ↔ ds = numeral b n := by
  constructor
  · rintro ⟨hds, rfl⟩
    unfold numeral
    split_ifs with h0
    · obtain ⟨d, tail, rfl⟩ := List.exists_cons_of_ne_nil hds.nonempty
      have hd : d = 0 := by
        rw [value_cons] at h0
        have hterm : d * b ^ tail.length = 0 := Nat.eq_zero_of_add_eq_zero_right h0
        have hpow : 0 < b ^ tail.length := Nat.pow_pos (by omega)
        exact (Nat.mul_eq_zero.mp hterm).resolve_right hpow.ne'
      subst hd
      rw [hds.leading tail rfl]
    · have hlast : ∀ hne : ds.reverse ≠ [], ds.reverse.getLast hne ≠ 0 := by
        intro hne hzero
        obtain ⟨d, tail, rfl⟩ := List.exists_cons_of_ne_nil hds.nonempty
        rw [List.getLast_reverse, List.head_cons] at hzero
        subst hzero
        rw [hds.leading tail rfl] at h0
        exact h0 rfl
      have hdigits : ∀ d ∈ ds.reverse, d < b := fun d hd => hds.digits d (List.mem_reverse.mp hd)
      rw [value, Nat.digits_ofDigits b hb _ hdigits hlast, List.reverse_reverse]
  · rintro rfl
    exact ⟨numeral_canonical hb n, value_numeral b n⟩

lemma length_numeral_le (hb : 1 < b) (hw : 0 < w) (hn : n < b ^ w) : (numeral b n).length ≤ w := by
  unfold numeral
  split_ifs
  · exact hw
  · rw [List.length_reverse]
    exact (Nat.digits_length_le_iff hb n).mpr hn

/-- Every number that fits has exactly one numeral of the width. -/
theorem padded_iff (hb : 1 < b) (hw : 0 < w) (hn : n < b ^ w) :
    ds.length = w ∧ (∀ d ∈ ds, d < b) ∧ value b ds = n ↔ ds = padded b w n := by
  have hlen : (padded b w n).length = w := by
    have hle := length_numeral_le hb hw hn
    rw [padded, List.length_append, List.length_replicate]
    omega
  have hdigits : ∀ d ∈ padded b w n, d < b := by
    intro d hd
    rcases List.mem_append.mp hd with hzero | hd
    · rw [List.eq_of_mem_replicate hzero]
      omega
    · exact (numeral_canonical hb n).digits d hd
  have hvalue : value b (padded b w n) = n := by rw [padded, value_zeros, value_numeral]
  constructor
  · rintro ⟨hl, hd, hv⟩
    refine List.reverse_injective (Nat.ofDigits_inj_of_len_eq hb ?_ ?_ ?_ ?_)
    · rw [List.length_reverse, List.length_reverse, hl, hlen]
    · exact fun d hmem => hd d (List.mem_reverse.mp hmem)
    · exact fun d hmem => hdigits d (List.mem_reverse.mp hmem)
    · exact hv.trans hvalue.symm
  · rintro rfl
    exact ⟨hlen, hdigits, hvalue⟩

/-! ### Spelling -/

variable {glyph : ℕ → α} {s : List α}

/-- The characters spell a number without leading zeros. -/
def Spells (glyph : ℕ → α) (b n : ℕ) (s : List α) : Prop :=
  ∃ ds, Canonical b ds ∧ value b ds = n ∧ s = ds.map glyph

/-- The characters are the `w` digits of a number. -/
def SpellsWide (glyph : ℕ → α) (b w n : ℕ) (s : List α) : Prop :=
  ∃ ds, ds.length = w ∧ (∀ d ∈ ds, d < b) ∧ value b ds = n ∧ s = ds.map glyph

theorem spells_iff (hb : 1 < b) : Spells glyph b n s ↔ s = (numeral b n).map glyph := by
  constructor
  · rintro ⟨ds, hds, hv, rfl⟩
    rw [(canonical_iff hb).mp ⟨hds, hv⟩]
  · rintro rfl
    exact ⟨_, numeral_canonical hb n, value_numeral b n, rfl⟩

theorem spellsWide_iff (hb : 1 < b) (hw : 0 < w) (hn : n < b ^ w) :
    SpellsWide glyph b w n s ↔ s = (padded b w n).map glyph := by
  constructor
  · rintro ⟨ds, hlen, hd, hv, rfl⟩
    rw [(padded_iff hb hw hn).mp ⟨hlen, hd, hv⟩]
  · rintro rfl
    obtain ⟨hlen, hd, hv⟩ := (padded_iff hb hw hn).mpr rfl
    exact ⟨_, hlen, hd, hv, rfl⟩

/-- With different characters for different digits a string spells one number only. -/
theorem Spells.unique (hglyph : Set.InjOn glyph (Set.Iio b)) (h : Spells glyph b n s)
    (h' : Spells glyph b n' s) : n = n' := by
  obtain ⟨ds, hds, rfl, rfl⟩ := h
  obtain ⟨ds', hds', rfl, hmap⟩ := h'
  suffices hsame : ds = ds' by rw [hsame]
  have hlen : ds.length = ds'.length := by
    rw [← List.length_map (f := glyph), hmap, List.length_map]
  refine List.ext_getElem hlen fun i hi hi' => ?_
  apply hglyph (hds.digits _ (List.getElem_mem hi)) (hds'.digits _ (List.getElem_mem hi'))
  have hget := List.getElem_of_eq hmap (by rwa [List.length_map])
  rwa [List.getElem_map, List.getElem_map] at hget

end Numerals
