import HalOs.General.Ia32

/-!
# The flags

What arithmetic, a gate and `popfl` do to single flags, and the comparisons that the conditional
jumps make of them.
-/

namespace Ia32

variable {f f' mask bit : UInt32} {a b : UInt32}

lemma or_and (a b c : UInt32) : (a ||| b) &&& c = a &&& c ||| b &&& c :=
  UInt32.toBitVec_inj.mp (BitVec.and_or_distrib_right ..)

/-- A flag outside the mask is kept. -/
lemma setFlags_and (hbit : mask &&& bit = 0) (hkept : ~~~mask &&& bit = bit) (f' f : UInt32) :
    setFlags mask f' f &&& bit = f &&& bit := by
  rw [setFlags, or_and, UInt32.and_assoc, hkept, UInt32.and_assoc, hbit, UInt32.and_zero,
    UInt32.or_zero]

/-- A flag inside the mask is the new one. -/
lemma setFlags_and_self (hbit : mask &&& bit = bit) (hkept : ~~~mask &&& bit = 0) (f' f : UInt32) :
    setFlags mask f' f &&& bit = f' &&& bit := by
  rw [setFlags, or_and, UInt32.and_assoc, hkept, UInt32.and_assoc, hbit, UInt32.and_zero,
    UInt32.zero_or]

/-! ### Gates and `popfl` -/

lemma gate_direction (g : Gate) (f : UInt32) :
    g.flags f &&& directionFlag = f &&& directionFlag := by
  have hbit : ∀ t : Bool, ~~~(if t then 0x34100 else 0x34300 : UInt32) &&& directionFlag =
      directionFlag := by decide
  rw [Gate.flags, UInt32.and_assoc, hbit]

lemma gate_nested (g : Gate) (f : UInt32) : g.flags f &&& nestedTask = 0 := by
  have hbit : ∀ t : Bool, ~~~(if t then 0x34100 else 0x34300 : UInt32) &&& nestedTask = 0 := by
    decide
  rw [Gate.flags, UInt32.and_assoc, hbit, UInt32.and_zero]

/-- In ring 0 `popfl` takes the nested task flag from the word. -/
lemma flagsPopped_nested {c : Cpu} (hcpl : c.cpl = 0) (word : UInt32) :
    c.flagsPopped (pushedFlags word) &&& nestedTask = word &&& nestedTask := by
  have hmask : poppedFlags &&& nestedTask = nestedTask := rfl
  have hkept : keptFlags &&& nestedTask = 0 := rfl
  have hpushed : 0xFCFFFF &&& nestedTask = nestedTask := rfl
  simp only [Cpu.flagsPopped, hcpl, if_true, or_and, UInt32.and_assoc, hmask, hkept, pushedFlags,
    hpushed, UInt32.and_zero, UInt32.or_zero]

/-! ### Comparisons -/

lemma flag_ne (b : Bool) {bit : UInt32} (h : bit ≠ 0) : (flag b bit != 0) = b := by
  cases b
  · rfl
  · exact bne_iff_ne.mpr h

/-- The flags of a result that the comparisons look at. -/
lemma status_bits (v : UInt32) (c d o : Bool) :
    status v c d o &&& signFlag = flag (signed v < 0) signFlag ∧
      status v c d o &&& zeroFlag = flag (v = 0) zeroFlag ∧
      status v c d o &&& overflowFlag = flag o overflowFlag := by
  unfold status
  generalize evenParity v.toUInt8 = p, decide (v = 0) = z, decide (signed v < 0) = s
  revert c p d z s o
  decide

/-- The sign of a difference and its overflow tell which operand is less. -/
lemma signed_sub (a b : UInt32) :
    (signed (a - b) < 0 ↔ ¬signed a - signed b ≠ signed (a - b)) ↔ signed a < signed b := by
  have ha := a.toNat_lt
  have hb := b.toNat_lt
  simp only [signed, UInt32.toNat_sub]
  split_ifs <;> omega

lemma signed_inj {a b : UInt32} (h : signed a = signed b) : a = b := by
  have ha := a.toNat_lt
  have hb := b.toNat_lt
  refine UInt32.toNat_inj.mp ?_
  unfold signed at h
  split_ifs at h <;> omega

lemma eq_of_sub_eq_zero {a b : UInt32} (h : a - b = 0) : a = b := by
  rw [← UInt32.sub_add_cancel a b, h, UInt32.zero_add]

lemma less_cmp (a b f : UInt32) :
    less (setFlags statusMask (subFlags a b) f) = decide (signed a < signed b) := by
  obtain ⟨hsign, -, hoverflow⟩ := status_bits (a - b) (a.toNat < b.toNat)
    (a.toNat % 16 < b.toNat % 16) (signed a - signed b ≠ signed (a - b))
  rw [less, setFlags_and_self rfl rfl, setFlags_and_self rfl rfl, subFlags, hsign, hoverflow,
    flag_ne _ (by decide), flag_ne _ (by decide)]
  rw [Bool.eq_iff_iff, bne_iff_ne, ne_eq, decide_eq_decide, decide_eq_true_iff, ← signed_sub]
  tauto

lemma greater_cmp (a b f : UInt32) :
    greater (setFlags statusMask (subFlags a b) f) = decide (signed b < signed a) := by
  have hzero : setFlags statusMask (subFlags a b) f &&& zeroFlag = 0 ↔ a ≠ b := by
    rw [setFlags_and_self rfl rfl, subFlags, (status_bits ..).2.1]
    have hbit : zeroFlag ≠ 0 := by decide
    by_cases hab : a = b
    · subst hab
      simp [flag, hbit]
    · have hsub : a - b ≠ 0 := fun h => hab (eq_of_sub_eq_zero h)
      simp [flag, hsub, hab]
  rw [greater, less_cmp, Bool.eq_iff_iff, Bool.and_eq_true, decide_eq_true_iff, decide_eq_true_iff,
    Bool.not_eq_true', decide_eq_false_iff_not, hzero, not_lt]
  constructor
  · rintro ⟨hne, hle⟩
    refine lt_of_le_of_ne hle fun heq => hne (signed_inj heq.symm)
  · intro hlt
    exact ⟨fun heq => absurd (heq ▸ hlt) (lt_irrefl _), hlt.le⟩

end Ia32
