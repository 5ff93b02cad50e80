import HalOs.General.Runs

/-!
# Loops and straight-line code

`whileLoop` unrolls a while loop a bounded number of times, so that a loop that never exits
has no result at any bound. `runUnder` runs a list of statements with interference before
each of them. `search` looks for the next ready index around a cycle.
-/

namespace Loops

variable {σ τ ι : Type*}

/-! ### While loops -/

/-- `while (cond s) s = body s`, unrolled at most `fuel` times. -/
def whileLoop (cond : σ → Prop) [DecidablePred cond] (body : σ → σ) : ℕ → σ → Option σ
  | 0, s => if cond s then none else some s
  | fuel + 1, s => if cond s then whileLoop cond body fuel (body s) else some s

section While

variable {cond : σ → Prop} [DecidablePred cond] {body : σ → σ} {s t : σ} {fuel fuel' : ℕ}

lemma whileLoop_done (h : ¬cond s) : whileLoop cond body fuel s = some s := by
  cases fuel <;> simp [whileLoop, h]

lemma whileLoop_next (h : cond s) :
    whileLoop cond body (fuel + 1) s = whileLoop cond body fuel (body s) := by
  simp [whileLoop, h]

lemma whileLoop_mono (h : whileLoop cond body fuel s = some t) (hf : fuel ≤ fuel') :
    whileLoop cond body fuel' s = some t := by
  induction fuel generalizing s fuel' with
  | zero =>
    unfold whileLoop at h
    split at h
    · exact absurd h (by simp)
    · rename_i hc
      rw [whileLoop_done hc, h]
  | succ fuel ih =>
    obtain ⟨fuel', rfl⟩ := Nat.exists_eq_add_of_le' (Nat.one_le_of_lt hf)
    by_cases hc : cond s
    · rw [whileLoop_next hc] at h ⊢
      exact ih h (by omega)
    · rw [whileLoop_done hc] at h ⊢
      exact h

/-- An invariant of the body holds when the loop exits, and the loop test fails there. -/
theorem whileLoop_invariant {I : σ → Prop} (hbody : ∀ s, I s → cond s → I (body s))
    (h : whileLoop cond body fuel s = some t) (hs : I s) : I t ∧ ¬cond t := by
  induction fuel generalizing s with
  | zero =>
    unfold whileLoop at h
    split at h
    · exact absurd h (by simp)
    · rename_i hc
      obtain rfl := Option.some.inj h
      exact ⟨hs, hc⟩
  | succ fuel ih =>
    by_cases hc : cond s
    · rw [whileLoop_next hc] at h
      exact ih h (hbody s hs hc)
    · rw [whileLoop_done hc] at h
      obtain rfl := Option.some.inj h
      exact ⟨hs, hc⟩

/-- A loop whose body lowers a measure exits within that many rounds. -/
theorem whileLoop_terminates {I : σ → Prop} (μ : σ → ℕ)
    (hbody : ∀ s, I s → cond s → I (body s) ∧ μ (body s) < μ s) (hs : I s) :
    ∃ t, whileLoop cond body (μ s) s = some t := by
  generalize hm : μ s = m
  induction m using Nat.strong_induction_on generalizing s with
  | _ m ih =>
    by_cases hc : cond s
    · obtain ⟨hb, hlt⟩ := hbody s hs hc
      obtain ⟨t, ht⟩ := ih (μ (body s)) (by omega) hb rfl
      have hpos : m = (m - 1) + 1 := by omega
      rw [hpos, whileLoop_next hc]
      exact ⟨t, whileLoop_mono ht (by omega)⟩
    · exact ⟨s, whileLoop_done hc⟩

/-- A loop with an invariant that keeps the test true never exits. -/
theorem whileLoop_diverges {I : σ → Prop} (hbody : ∀ s, I s → cond s ∧ I (body s)) (hs : I s) :
    whileLoop cond body fuel s = none := by
  induction fuel generalizing s with
  | zero => simp [whileLoop, (hbody s hs).1]
  | succ fuel ih =>
    rw [whileLoop_next (hbody s hs).1]
    exact ih (hbody s hs).2

end While

/-! ### Straight-line code under interference -/

/-- Runs the statements in order; `pre` acts before each of them. -/
def runUnder (pre exec : ι → σ → Option σ) : List ι → σ → Option σ
  | [], s => some s
  | i :: is, s => (pre i s).bind fun u => (exec i u).bind (runUnder pre exec is)

section Straight

variable {pre exec : ι → σ → Option σ} {s t : σ} {is js : List ι}

lemma runUnder_cons {i : ι} :
    runUnder pre exec (i :: is) s = some t ↔
      ∃ u v, pre i s = some u ∧ exec i u = some v ∧ runUnder pre exec is v = some t := by
  simp only [runUnder, Option.bind_eq_some_iff]
  constructor
  · rintro ⟨u, hu, v, hv, h⟩
    exact ⟨u, v, hu, hv, h⟩
  · rintro ⟨u, v, hu, hv, h⟩
    exact ⟨u, hu, v, hv, h⟩

lemma runUnder_append :
    runUnder pre exec (is ++ js) s = (runUnder pre exec is s).bind (runUnder pre exec js) := by
  induction is generalizing s with
  | nil => rfl
  | cons i is ih =>
    simp only [List.cons_append, runUnder, Option.bind_assoc]
    simp only [ih]

/-- What the interference and each listed statement preserve holds at the end. -/
theorem runUnder_invariant {I : σ → Prop} (hpre : ∀ i ∈ is, ∀ s u, I s → pre i s = some u → I u)
    (hexec : ∀ i ∈ is, ∀ s u, I s → exec i s = some u → I u)
    (h : runUnder pre exec is s = some t) (hs : I s) : I t := by
  induction is generalizing s with
  | nil =>
    obtain rfl := Option.some.inj h
    exact hs
  | cons i is ih =>
    obtain ⟨u, v, hu, hv, h⟩ := runUnder_cons.mp h
    have hi : I v := hexec i (by simp) u v (hpre i (by simp) s u hs hu) hv
    exact ih (fun j hj => hpre j (by simp [hj])) (fun j hj => hexec j (by simp [hj])) h hi

/-- Code whose interference and statements a view carries along runs as its view does. -/
theorem runUnder_map {f : σ → τ} {pre' exec' : ι → τ → Option τ}
    (hpre : ∀ i s, (pre i s).map f = pre' i (f s))
    (hexec : ∀ i s, (exec i s).map f = exec' i (f s)) (is : List ι) (s : σ) :
    (runUnder pre exec is s).map f = runUnder pre' exec' is (f s) := by
  induction is generalizing s with
  | nil => rfl
  | cons i is ih =>
    simp only [runUnder, ← hpre]
    cases hu : pre i s with
    | none => rfl
    | some u =>
      simp only [Option.bind_some, Option.map_some, ← hexec]
      cases hv : exec i u with
      | none => rfl
      | some v => exact ih v

/-- An interference that every listed statement commutes with can come before or after them. -/
lemma runUnder_commute {g : σ → Option σ}
    (h : ∀ i ∈ is, ∀ s, (exec i s).bind g = (g s).bind (exec i)) :
    (runUnder (fun _ u => some u) exec is s).bind g =
      (g s).bind (runUnder (fun _ u => some u) exec is) := by
  induction is generalizing s with
  | nil => simp [runUnder]
  | cons i is ih =>
    have hrest : ∀ s, (runUnder (fun _ u => some u) exec is s).bind g =
        (g s).bind (runUnder (fun _ u => some u) exec is) :=
      fun s => ih fun j hj => h j (by simp [hj])
    simp only [runUnder, Option.bind_some, Option.bind_assoc, hrest]
    rw [← Option.bind_assoc, h i (by simp), Option.bind_assoc]

/-- So can one between two pieces of code when it commutes with the code between them. -/
lemma runUnder_between {g : σ → Option σ} {mid : List ι}
    (h : ∀ i ∈ mid, ∀ s, (exec i s).bind g = (g s).bind (exec i)) :
    ((runUnder (fun _ u => some u) exec (is ++ mid) s).bind g).bind
        (runUnder (fun _ u => some u) exec js) =
      ((runUnder (fun _ u => some u) exec is s).bind g).bind
        (runUnder (fun _ u => some u) exec (mid ++ js)) := by
  rw [runUnder_append, Option.bind_assoc, Option.bind_assoc, Option.bind_assoc]
  congr 1
  funext t
  rw [← Option.bind_assoc, runUnder_commute h, Option.bind_assoc]
  congr 1
  funext t
  rw [runUnder_append]

end Straight

/-! ### The next ready index of a cycle -/

/-- The first ready index at or after `i`, looking at `fuel` indices of the cycle. -/
def search {n : ℕ} (ready : Fin (n + 1) → Bool) : ℕ → Fin (n + 1) → Option (Fin (n + 1))
  | 0, _ => none
  | fuel + 1, i => if ready i then some i else search ready fuel (i + 1)

section Search

variable {n : ℕ} {ready : Fin (n + 1) → Bool} {i j : Fin (n + 1)} {fuel : ℕ}

lemma search_ready (h : search ready fuel i = some j) : ready j = true := by
  induction fuel generalizing i with
  | zero => exact absurd h (by simp [search])
  | succ fuel ih =>
    unfold search at h
    split at h
    · rename_i hi
      obtain rfl := Option.some.inj h
      exact hi
    · exact ih h

lemma add_ofNat_succ (k : ℕ) :
    i + Fin.ofNat (n + 1) (k + 1) = i + 1 + Fin.ofNat (n + 1) k := by
  rw [add_assoc]
  congr 1
  apply Fin.ext
  simp [Fin.val_add, Nat.add_comm]

lemma search_eq_none (h : search ready fuel i = none) (k : ℕ) (hk : k < fuel) :
    ready (i + Fin.ofNat (n + 1) k) = false := by
  induction fuel generalizing i k with
  | zero => omega
  | succ fuel ih =>
    unfold search at h
    split at h
    · exact absurd h (by simp)
    · rename_i hi
      cases k with
      | zero =>
        have h0 : i + Fin.ofNat (n + 1) 0 = i := by simp
        rw [h0]
        simpa using hi
      | succ k =>
        rw [add_ofNat_succ]
        exact ih h k (by omega)

lemma search_eq_some : search ready fuel i = some j ↔
    ∃ k < fuel, i + Fin.ofNat (n + 1) k = j ∧ ready j = true ∧
      ∀ l < k, ready (i + Fin.ofNat (n + 1) l) = false := by
  induction fuel generalizing i with
  | zero => simp [search]
  | succ fuel ih =>
    have h0 : i + Fin.ofNat (n + 1) 0 = i := by simp
    unfold search
    by_cases hi : ready i = true
    · rw [if_pos hi]
      constructor
      · intro h
        obtain rfl := Option.some.inj h
        exact ⟨0, by omega, h0, hi, fun l hl => absurd hl (by omega)⟩
      · rintro ⟨k, -, hk, -, hl⟩
        cases k with
        | zero => rw [← hk, h0]
        | succ k =>
          have hf := hl 0 (by omega)
          rw [h0, hi] at hf
          exact absurd hf (by simp)
    · rw [if_neg hi, ih]
      constructor
      · rintro ⟨k, hk, hj, hr, hl⟩
        refine ⟨k + 1, by omega, (add_ofNat_succ k).trans hj, hr, fun l hlt => ?_⟩
        cases l with
        | zero => rw [h0, Bool.eq_false_iff.mpr hi]
        | succ l => rw [add_ofNat_succ, hl l (by omega)]
      · rintro ⟨k, hk, hj, hr, hl⟩
        cases k with
        | zero =>
          rw [h0] at hj
          exact absurd (hj ▸ hr) hi
        | succ k =>
          refine ⟨k, by omega, (add_ofNat_succ k).symm.trans hj, hr, fun l hlt => ?_⟩
          rw [← add_ofNat_succ, hl (l + 1) (by omega)]

/-- A full round of the cycle finds a ready index whenever there is one. -/
theorem search_full (hj : ready j = true) : ∃ m, search ready (n + 1) i = some m := by
  cases h : search ready (n + 1) i with
  | some m => exact ⟨m, rfl⟩
  | none =>
    have hr := search_eq_none h (j - i).val (j - i).isLt
    have hij : i + Fin.ofNat (n + 1) (j - i).val = j := by
      have hv : Fin.ofNat (n + 1) (j - i).val = j - i := by
        apply Fin.ext
        simp
      rw [hv]
      exact add_sub_cancel i j
    rw [hij, hj] at hr
    exact absurd hr (by simp)

end Search

end Loops
