import HalOs.Model.Emulation
import HalOs.Proofs.Arguments

/-!
# The argument string in the caller's buffer

`getargs` copies as much of the argument string as there is room for and reports success.
The emulated call refuses a buffer without room for the string and its NUL; the two agree
exactly when there is room, or no buffer at all.
-/

namespace HalOs

/-- Memory that holds a string and the NUL behind it. -/
structure HoldsString (mem : ℕ → UInt8) (s : List UInt8) : Prop where
  text : ∀ j (hj : j < s.length), mem j = s[j]
  noNul : 0 ∉ s
  nul : mem s.length = 0

variable {mem : ℕ → UInt8} {s : List UInt8} {nbytes : ℤ} {argv args : List (List UInt8)}

/-- What the interface asks of a call: success only with the string and its NUL in the buffer,
a refusal when they do not fit, and the same as the emulated call. -/
structure DeliversArgument (s : List UInt8) (nbytes : ℤ) (r : ℤ × List UInt8) : Prop where
  complete : r.1 = 0 → s.length < nbytes ∧ s ++ [0] <+: r.2
  refused : nbytes ≤ s.length → r.1 = -1
  emulated : ∀ argv, argumentString argv = s →
    (ece391Getargs argv nbytes).1 = r.1 ∧ (r.1 = 0 → (ece391Getargs argv nbytes).2 <+: r.2)

/-! ### The emulated call -/

lemma getargsLoop_fits (args : List (List UInt8))
    (h : (([spaceAscii].intercalate (args.map cString)).length : ℤ) < nbytes) :
    getargsLoop args nbytes = (0, [spaceAscii].intercalate (args.map cString) ++ [0]) := by
  induction args generalizing nbytes with
  | nil =>
    have hpos : ¬nbytes < 1 := by
      simp at h
      omega
    exact if_neg hpos
  | cons arg args ih =>
    cases args with
    | nil =>
      simp only [List.map_cons, List.map_nil, List.intercalate_singleton] at h ⊢
      have hlen : (strlen arg : ℤ) < nbytes := h
      simp only [getargsLoop, if_neg (show ¬nbytes < strlen arg by omega),
        if_neg (show ¬nbytes - strlen arg < 1 by omega)]
    | cons next args =>
      simp only [List.map_cons, List.intercalate_cons_cons] at h ih ⊢
      have hlen : (strlen arg : ℤ) + 1 + ([spaceAscii].intercalate
          (cString next :: args.map cString)).length < nbytes := by
        simp only [List.length_append, List.length_singleton, strlen] at h ⊢
        omega
      have hrest := @ih (nbytes - strlen arg - 1) (by omega)
      simp only [getargsLoop, if_neg (show ¬nbytes < strlen arg by omega),
        if_neg (show ¬nbytes - strlen arg < 1 by omega), hrest]
      simp

lemma getargsLoop_refuses (args : List (List UInt8))
    (h : nbytes ≤ (([spaceAscii].intercalate (args.map cString)).length : ℤ)) :
    (getargsLoop args nbytes).1 = -1 := by
  induction args generalizing nbytes with
  | nil =>
    have hneg : nbytes < 1 := by
      simp at h
      omega
    exact congrArg Prod.fst (if_pos hneg)
  | cons arg args ih =>
    by_cases hlong : nbytes < strlen arg
    · cases args <;> simp only [getargsLoop, if_pos hlong]
    by_cases hfull : nbytes - strlen arg < 1
    · cases args <;> simp only [getargsLoop, if_neg hlong, if_pos hfull]
    cases args with
    | nil =>
      simp only [List.map_cons, List.map_nil, List.intercalate_singleton] at h
      have hlen : nbytes ≤ strlen arg := h
      omega
    | cons next args =>
      simp only [List.map_cons, List.intercalate_cons_cons] at h ih
      have hlen : nbytes ≤ (strlen arg : ℤ) + 1 + ([spaceAscii].intercalate
          (cString next :: args.map cString)).length := by
        simp only [List.length_append, List.length_singleton, strlen] at h ⊢
        omega
      have hrest := @ih (nbytes - strlen arg - 1) (by omega)
      simp only [getargsLoop, if_neg hlong, if_neg hfull, hrest]

/-- The emulated call meets its interface with every buffer. -/
theorem ece391Getargs_delivers (argv : List (List UInt8)) (nbytes : ℤ) :
    let s := argumentString argv
    let r := ece391Getargs argv nbytes
    (r.1 = 0 → s.length < nbytes ∧ s ++ [0] <+: r.2) ∧ (nbytes ≤ s.length → r.1 = -1) := by
  dsimp only
  refine ⟨fun hzero => ?_, getargsLoop_refuses argv.tail⟩
  by_cases hfits : ((argumentString argv).length : ℤ) < nbytes
  · have heq := getargsLoop_fits argv.tail hfits
    refine ⟨hfits, ?_⟩
    rw [ece391Getargs, heq]
    exact List.prefix_refl _
  · have hrefused : (ece391Getargs argv nbytes).1 = -1 :=
      getargsLoop_refuses argv.tail (not_lt.mp hfits)
    rw [hrefused] at hzero
    exact absurd hzero (by decide)

/-! ### The call of the kernel -/

lemma HoldsString.cString_eq (h : HoldsString mem s) {n : ℕ} (hn : s.length < n) :
    cString ((List.range n).map mem) = s := by
  have hat : stringAt mem n 0 = s := by
    apply stringAt_of_spelled h.noNul _ _ hn
    · intro j hj
      rw [Nat.zero_add]
      exact h.text j hj
    · rw [Nat.zero_add]
      exact h.nul
  rw [List.range_eq_range']
  exact hat

/-- With room for the NUL the copy is the whole string, filled up with NULs. -/
lemma HoldsString.strncpy_eq (h : HoldsString mem s) {n : ℕ} (hn : s.length < n) :
    strncpy mem n = s ++ List.replicate (n - s.length) 0 := by
  unfold strncpy
  dsimp only
  rw [h.cString_eq hn]

namespace Kernel

variable {k : Kernel} {buf : UInt32} {p : ℤ} {r : ℤ × List UInt8}

/-- `getargs` meets its interface if and only if the buffer is empty or has room for the
string and its NUL. -/
theorem getargs_delivers_iff (hbuf : buf ≠ 0) (hcur : k.currentPcb = some p)
    (hs : HoldsString (k.pcbs p).arg s) (h : k.getargs buf nbytes = some r) :
    DeliversArgument s nbytes r ↔ nbytes ≤ 0 ∨ s.length < nbytes := by
  unfold getargs at h
  by_cases hn : nbytes ≤ 0
  · rw [if_pos (Or.inr hn)] at h
    obtain rfl := Option.some.inj h
    refine iff_of_true ⟨fun hzero => absurd hzero (by decide), fun _ => rfl, ?_⟩ (Or.inl hn)
    intro argv _
    exact ⟨getargsLoop_refuses argv.tail (by omega), fun hzero => absurd hzero (by decide)⟩
  rw [if_neg (not_or.mpr ⟨hbuf, hn⟩), hcur, Option.map_some] at h
  obtain rfl := Option.some.inj h
  rw [or_iff_right hn]
  constructor
  · intro hdelivers
    exact (hdelivers.complete rfl).1
  · intro hfits
    have hcopy := hs.strncpy_eq (n := nbytes.toNat) (by omega)
    have hprefix : s ++ [0] <+: strncpy (k.pcbs p).arg nbytes.toNat := by
      obtain ⟨m, hm⟩ : ∃ m, nbytes.toNat - s.length = m + 1 :=
        ⟨nbytes.toNat - s.length - 1, by omega⟩
      rw [hcopy, hm]
      exact ⟨List.replicate m 0, List.append_assoc _ _ _⟩
    refine ⟨fun _ => ⟨hfits, hprefix⟩, fun hle => by omega, fun argv hargv => ?_⟩
    have heq : ece391Getargs argv nbytes = (0, argumentString argv ++ [0]) := by
      subst hargv
      exact getargsLoop_fits argv.tail hfits
    rw [heq, hargv]
    exact ⟨rfl, fun _ => hprefix⟩

/-- A process with the argument `abc`. -/
def abcKernel : Kernel :=
  { boot ⟨0, 0⟩ (fun _ => 0) 0 0 with
    pcbs := fun _ => { blankPcb with arg := byteAt [97, 98, 99] }
    currentPcb := some 0 }

lemma abcKernel_holds : HoldsString (abcKernel.pcbs 0).arg [97, 98, 99] :=
  ⟨by decide, by decide, by decide⟩

theorem getargs_delivers_abc : ∃ r, abcKernel.getargs 0x8100000 4 = some r ∧
    DeliversArgument [97, 98, 99] 4 r := by
  have hbuf : (0x8100000 : UInt32) ≠ 0 := by decide
  have hiff := getargs_delivers_iff hbuf rfl abcKernel_holds (rfl : abcKernel.getargs 0x8100000 4 = _)
  exact ⟨_, rfl, hiff.mpr (Or.inr (by decide))⟩

/-- Three bytes of room for three letters: the NUL is missing. -/
theorem getargs_truncates : ¬∀ (k : Kernel) (buf : UInt32) (nbytes p : ℤ) (s : List UInt8)
    (r : ℤ × List UInt8), buf ≠ 0 → k.currentPcb = some p → HoldsString (k.pcbs p).arg s →
    k.getargs buf nbytes = some r → DeliversArgument s nbytes r := by
  intro h
  have hdelivers := h abcKernel 0x8100000 3 0 [97, 98, 99] _ (by decide) rfl abcKernel_holds rfl
  exact absurd (hdelivers.complete rfl).1 (by decide)

end Kernel

end HalOs
