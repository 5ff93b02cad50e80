import HalOs.General.Loops

/-!
# Searches by a counter

A search goes through the indices below a bound and stops at the first hit. Its counter has a
width of its own, so that a bound the counter cannot reach leaves the search without an exit.
-/

namespace Loops

/-- The counter, the hit that ended the search, and the indices looked at, most recent first. -/
structure Cursor (β : Type*) where
  i : ℕ
  found : Option β
  visited : List ℕ

variable {β : Type*}

def Cursor.Going (bound : ℕ) (c : Cursor β) : Prop := c.found.isNone = true ∧ c.i < bound

instance (bound : ℕ) : DecidablePred (Cursor.Going (β := β) bound) := fun c =>
  inferInstanceAs (Decidable (c.found.isNone = true ∧ c.i < bound))

/-- Looks at the current index, and counts on unless it is a hit. -/
def Cursor.look (modulus : ℕ) (hit : ℕ → Option β) (c : Cursor β) : Cursor β where
  i := if (hit c.i).isSome then c.i else (c.i + 1) % modulus
  found := hit c.i
  visited := c.i :: c.visited

/-- The search from index 0 with a counter that wraps at `modulus`. -/
def scan (modulus bound : ℕ) (hit : ℕ → Option β) (fuel : ℕ) : Option (Cursor β) :=
  whileLoop (Cursor.Going bound) (Cursor.look modulus hit) fuel ⟨0, none, []⟩

section Unique

variable {σ : Type*} {cond : σ → Prop} [DecidablePred cond] {body : σ → σ} {s t t' : σ}
  {fuel fuel' : ℕ}

/-- A loop has one outcome, whatever the fuel. -/
lemma whileLoop_unique (h : whileLoop cond body fuel s = some t)
    (h' : whileLoop cond body fuel' s = some t') : t = t' := by
  have hmax := whileLoop_mono h (le_max_left fuel fuel')
  have hmax' := whileLoop_mono h' (le_max_right fuel fuel')
  exact Option.some.inj (hmax.symm.trans hmax')

end Unique

section Scan

variable {modulus bound fuel i d m : ℕ} {hit : ℕ → Option β} {b : β}

lemma scan_skip (fuel : ℕ) (visited : List ℕ) (hnone : ∀ l, i ≤ l → l < i + d → hit l = none)
    (hmod : i + d < modulus) (hbound : i + d ≤ bound) :
    whileLoop (Cursor.Going bound) (Cursor.look modulus hit) (fuel + d) ⟨i, none, visited⟩ =
      whileLoop (Cursor.Going bound) (Cursor.look modulus hit) fuel
        ⟨i + d, none, (List.range' i d).reverse ++ visited⟩ := by
  induction d generalizing i visited with
  | zero => rfl
  | succ d ih =>
    have hgoing : Cursor.Going bound ⟨i, (none : Option β), visited⟩ := by
      refine ⟨rfl, ?_⟩
      change i < bound
      omega
    have hmiss : hit i = none := hnone i le_rfl (by omega)
    have hlook : Cursor.look modulus hit ⟨i, none, visited⟩ = ⟨i + 1, none, i :: visited⟩ := by
      unfold Cursor.look
      simp only [hmiss, Option.isSome_none, Bool.false_eq_true, if_false,
        Nat.mod_eq_of_lt (show i + 1 < modulus by omega)]
    have hrest := ih (i := i + 1) (i :: visited)
      (fun l hl hl' => hnone l (by omega) (by omega)) (by omega) (by omega)
    rw [← Nat.add_assoc, whileLoop_next hgoing, hlook, hrest, List.range'_succ, List.reverse_cons,
      List.append_assoc, List.singleton_append, Nat.add_assoc, Nat.add_comm 1 d]

/-- The search stops at the first hit. -/
theorem scan_found (hb : hit m = some b) (hnone : ∀ l < m, hit l = none) (hmod : m < modulus)
    (hbound : m < bound) :
    scan modulus bound hit (m + 2) = some ⟨m, some b, m :: (List.range m).reverse⟩ := by
  have hgoing : Cursor.Going bound ⟨m, (none : Option β), (List.range m).reverse⟩ :=
    ⟨rfl, hbound⟩
  have hlook : Cursor.look modulus hit ⟨m, none, (List.range m).reverse⟩ =
      ⟨m, some b, m :: (List.range m).reverse⟩ := by
    simp only [Cursor.look, hb, Option.isSome_some, if_true]
  have hstop : ¬Cursor.Going bound ⟨m, some b, m :: (List.range m).reverse⟩ :=
    fun h => absurd h.1 (by simp)
  have hbefore : ∀ l, 0 ≤ l → l < 0 + m → hit l = none := fun l _ hl => hnone l (by omega)
  have hmod' : 0 + m < modulus := by omega
  have hbound' : 0 + m ≤ bound := by omega
  have hskip := scan_skip 2 [] hbefore hmod' hbound'
  rw [← List.range_eq_range', List.append_nil, Nat.zero_add] at hskip
  rw [scan, Nat.add_comm, hskip, whileLoop_next hgoing, hlook, whileLoop_done hstop]

/-- Without a hit it ends at the bound, when the counter reaches it. -/
theorem scan_exhausted (hnone : ∀ l < bound, hit l = none) (hmod : bound < modulus) :
    scan modulus bound hit bound = some ⟨bound, none, (List.range bound).reverse⟩ := by
  have hstop : ¬Cursor.Going bound ⟨bound, (none : Option β), (List.range bound).reverse⟩ :=
    fun h => absurd h.2 (lt_irrefl _)
  have hbefore : ∀ l, 0 ≤ l → l < 0 + bound → hit l = none := fun l _ hl => hnone l (by omega)
  have hmod' : 0 + bound < modulus := by omega
  have hskip := scan_skip 0 [] hbefore hmod' (Nat.zero_add bound).le
  rw [← List.range_eq_range', List.append_nil, Nat.zero_add] at hskip
  rw [scan, hskip, whileLoop_done hstop]

/-- A counter too narrow for the bound goes round for ever. -/
theorem scan_diverges (hpos : 0 < modulus) (hnone : ∀ l < modulus, hit l = none)
    (hbound : modulus ≤ bound) : scan modulus bound hit fuel = none := by
  apply whileLoop_diverges (I := fun c : Cursor β => c.found = none ∧ c.i < modulus)
  · intro c hc
    have hmiss := hnone c.i hc.2
    refine ⟨⟨by rw [hc.1]; rfl, lt_of_lt_of_le hc.2 hbound⟩, hmiss, ?_⟩
    simp only [Cursor.look, hmiss, Option.isSome_none, Bool.false_eq_true, if_false]
    exact Nat.mod_lt _ hpos
  · exact ⟨rfl, hpos⟩

/-- How a search ends: at the first hit, at the bound, or not at all. -/
theorem scan_cases (modulus bound : ℕ) (hit : ℕ → Option β) (hpos : 0 < modulus) :
    (∃ m b, m < bound ∧ m < modulus ∧ hit m = some b ∧ (∀ l < m, hit l = none) ∧
      scan modulus bound hit (m + 2) = some ⟨m, some b, m :: (List.range m).reverse⟩) ∨
    (bound < modulus ∧ (∀ l < bound, hit l = none) ∧
      scan modulus bound hit bound = some ⟨bound, none, (List.range bound).reverse⟩) ∨
    (modulus ≤ bound ∧ (∀ l < modulus, hit l = none) ∧
      ∀ fuel, scan modulus bound hit fuel = none) := by
  classical
  by_cases hex : ∃ m, m < min bound modulus ∧ (hit m).isSome = true
  · obtain ⟨hm, hsome⟩ := Nat.find_spec hex
    obtain ⟨b, hb⟩ := Option.isSome_iff_exists.mp hsome
    have hbefore : ∀ l < Nat.find hex, hit l = none := by
      intro l hl
      have hno := Nat.find_min hex hl
      by_contra hne
      exact hno ⟨by omega, Option.isSome_iff_ne_none.mpr hne⟩
    exact Or.inl ⟨_, b, by omega, by omega, hb, hbefore,
      scan_found hb hbefore (by omega) (by omega)⟩
  · have hnone : ∀ l < min bound modulus, hit l = none := by
      intro l hl
      by_contra hne
      exact hex ⟨l, hl, Option.isSome_iff_ne_none.mpr hne⟩
    rcases Nat.lt_or_ge bound modulus with hlt | hge
    · have hbelow : ∀ l < bound, hit l = none := fun l hl => hnone l (by omega)
      exact Or.inr (Or.inl ⟨hlt, hbelow, scan_exhausted hbelow hlt⟩)
    · have hbelow : ∀ l < modulus, hit l = none := fun l hl => hnone l (by omega)
      exact Or.inr (Or.inr ⟨hge, hbelow, fun _ => scan_diverges hpos hbelow hge⟩)

/-- A search ends with only indices below `limit` visited when its bound is no higher or there
is a hit below. -/
theorem scan_below_iff {limit : ℕ} (hlimit : limit < modulus) :
    (∃ fuel c, scan modulus bound hit fuel = some c ∧ ∀ i ∈ c.visited, i < limit) ↔
      bound ≤ limit ∨ ∃ m < limit, (hit m).isSome = true := by
  rcases scan_cases modulus bound hit (by omega) with
    ⟨m, b, hm, -, hb, hbefore, hscan⟩ | ⟨-, hnone, hscan⟩ | ⟨hge, hnone, hscan⟩
  · have hhit : (hit m).isSome = true := by
      rw [hb]
      rfl
    constructor
    · rintro ⟨fuel, c, hc, hvisited⟩
      obtain rfl := whileLoop_unique hscan hc
      exact Or.inr ⟨m, hvisited m List.mem_cons_self, hhit⟩
    · intro h
      have hlt : m < limit := by
        rcases h with hle | ⟨l, hl, hsome⟩
        · omega
        · by_contra hge
          rw [hbefore l (by omega)] at hsome
          exact absurd hsome (by simp)
      refine ⟨_, _, hscan, fun i hi => ?_⟩
      rcases List.mem_cons.mp hi with rfl | hi
      · exact hlt
      · have hrange := List.mem_range.mp (List.mem_reverse.mp hi)
        omega
  · constructor
    · rintro ⟨fuel, c, hc, hvisited⟩
      obtain rfl := whileLoop_unique hscan hc
      left
      by_contra hlt
      have hmem : limit ∈ (List.range bound).reverse :=
        List.mem_reverse.mpr (List.mem_range.mpr (by omega))
      exact absurd (hvisited limit hmem) (lt_irrefl _)
    · intro h
      have hle : bound ≤ limit := by
        rcases h with hle | ⟨l, hl, hsome⟩
        · exact hle
        · by_contra hgt
          rw [hnone l (by omega)] at hsome
          exact absurd hsome (by simp)
      refine ⟨_, _, hscan, fun i hi => ?_⟩
      have hrange := List.mem_range.mp (List.mem_reverse.mp hi)
      omega
  · constructor
    · rintro ⟨fuel, c, hc, -⟩
      rw [hscan fuel] at hc
      exact absurd hc (by simp)
    · rintro (hle | ⟨l, hl, hsome⟩)
      · omega
      · rw [hnone l (by omega)] at hsome
        exact absurd hsome (by simp)

end Scan

end Loops
