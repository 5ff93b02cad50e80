import HalOs.Model.Memcpy

/-!
# `memcpy`

The copy goes through a byte loop until the destination is aligned, a string copy of four bytes
a round and a byte loop for the rest. All three move the same three registers, and what is
copied so far is one stretch at every point between them.
-/

namespace HalOs

open X86 Segments

/-- The bytes to copy lie in two stretches that neither wrap nor overlap. -/
structure Apart (dest src n : ℕ) : Prop where
  dest_fits : dest + n ≤ 2 ^ 32
  src_fits : src + n ≤ 2 ^ 32
  disjoint : dest + n ≤ src ∨ src + n ≤ dest

/-- The first `k` of `n` bytes are copied and the pointers stand behind them. -/
structure Copied (base : UInt16 → UInt32) (mem : Memory) (dest src : UInt32) (n k : ℕ) (s : State) :
    Prop where
  le : k ≤ n
  memory : s.memory = put dest.toNat (get src.toNat k mem) mem
  esi : s.reg .esi = src + UInt32.ofNat k
  edi : s.reg .edi = dest + UInt32.ofNat k
  flat : base s.ds = 0

variable {base : UInt16 → UInt32} {mem : Memory} {dest src : UInt32} {n k : ℕ} {s t : State}
  {r : Reg}

lemma Apart.source (h : Apart dest.toNat src.toNat n) (hk : k ≤ n) {j : ℕ} (hj : j < n) :
    put dest.toNat (get src.toNat k mem) mem (src.toNat + j) = mem (src.toNat + j) := by
  have hdisjoint := h.disjoint
  refine put_outside ?_
  rw [length_get]
  omega

lemma byteCopy_eq (h : Apart dest.toNat src.toNat n) (hk : k ≤ n) :
    byteCopy dest.toNat src.toNat k mem = put dest.toNat (get src.toNat k mem) mem := by
  induction k with
  | zero => exact put_nil.symm
  | succ k ih =>
    have hle : k ≤ n := Nat.le_of_succ_le hk
    rw [byteCopy, ih hle, h.source hle hk, put_get_succ]

/-! ### The pieces of the code -/

lemma Copied.congr (h : Copied base mem dest src n k s) (hmem : t.memory = s.memory)
    (hesi : t.reg .esi = s.reg .esi) (hedi : t.reg .edi = s.reg .edi) (hds : t.ds = s.ds) :
    Copied base mem dest src n k t :=
  ⟨h.le, hmem.trans h.memory, hesi.trans h.esi, hedi.trans h.edi, hds ▸ h.flat⟩

/-- The five instructions that move a byte and count it in `r`. -/
def moveByte (r : Reg) : List (Instr MemcpyLabel) :=
  [.loadAl .esi, .storeAl .edi, .addl (.imm 1) .edi, .addl (.imm 1) .esi, .subl (.imm 1) r]

lemma moveByte_copied (h : Copied base mem dest src n k s) (hapart : Apart dest.toNat src.toNat n)
    (hk : k < n) (hr : r = .ecx ∨ r = .edx) :
    Copied base mem dest src n (k + 1) ((moveByte r).foldl (exec base memcpy) s) ∧
      ((moveByte r).foldl (exec base memcpy) s).reg r = s.reg r - 1 ∧
      ((moveByte r).foldl (exec base memcpy) s).pc = s.pc + 5 := by
  have hfields : ∀ u, u = (moveByte r).foldl (exec base memcpy) s →
      u.memory = Function.update s.memory (base s.ds + s.reg .edi).toNat
        (s.memory (base s.ds + s.reg .esi).toNat) ∧
      u.reg .esi = s.reg .esi + 1 ∧ u.reg .edi = s.reg .edi + 1 ∧ u.reg r = s.reg r - 1 ∧
      u.ds = s.ds ∧ u.pc = s.pc + 5 := by
    rintro u rfl
    rcases hr with rfl | rfl
    · exact ⟨rfl, rfl, rfl, rfl, rfl, rfl⟩
    · exact ⟨rfl, rfl, rfl, rfl, rfl, rfl⟩
  obtain ⟨hmem, hesi, hedi, hcount, hds, hpc⟩ := hfields _ rfl
  have hone : (1 : UInt32) = UInt32.ofNat 1 := rfl
  refine ⟨⟨hk, ?_, ?_, ?_, hds ▸ h.flat⟩, hcount, hpc⟩
  · have hto := hapart.dest_fits
    have hfrom := hapart.src_fits
    rw [hmem, h.flat, UInt32.zero_add, UInt32.zero_add, h.esi, h.edi, address_toNat (by omega),
      address_toNat (by omega), h.memory, hapart.source h.le hk, put_get_succ]
  · rw [hesi, h.esi, hone, address_add]
  · rw [hedi, h.edi, hone, address_add]

lemma byte_round {p : ℕ} {l : MemcpyLabel} (h : Copied base mem dest src n k s)
    (hapart : Apart dest.toNat src.toNat n) (hr : r = .ecx ∨ r = .edx) (hpc : s.pc = p)
    (hblock : (memcpy.drop p).take 5 = moveByte r) (hjmp : memcpy[p + 5]? = some (.jmp l))
    (hcount : (s.reg r).toNat = n - k) (hne : s.reg r ≠ 0) :
    Eventually (step base memcpy) (fun t => t.pc = target memcpy l ∧
      Copied base mem dest src n (k + 1) t ∧ (t.reg r).toNat = n - (k + 1) ∧
      (t.reg r).toNat < (s.reg r).toNat) s := by
  have hpos : (s.reg r).toNat ≠ 0 := fun h0 => hne (UInt32.toNat_inj.mp h0)
  obtain ⟨hcopied, hreg, hplace⟩ := moveByte_copied h hapart (by omega) hr
  have hplain : ∀ i ∈ moveByte r, i.Plain := by
    intro i hi
    simp only [moveByte, List.mem_cons, List.not_mem_nil, or_false] at hi
    rcases hi with rfl | rfl | rfl | rfl | rfl <;> trivial
  have hreach := @reaches_block _ _ base _ _ _ _ hplain hpc hblock
  generalize (moveByte r).foldl (exec base memcpy) s = u at hcopied hreg hplace hreach
  rw [hpc] at hplace
  have hstep : step base memcpy u = some { u with pc := target memcpy l } := step_at hplace hjmp
  have hle : (1 : UInt32) ≤ s.reg r := UInt32.le_iff_toNat_le.mpr (Nat.one_le_iff_ne_zero.mpr hpos)
  have hsub : (u.reg r).toNat = (s.reg r).toNat - 1 := by
    rw [hreg, UInt32.toNat_sub_of_le _ _ hle]
    rfl
  refine ⟨{ u with pc := target memcpy l }, hreach.trans (Reaches.head hstep (Reaches.refl _)), rfl,
    hcopied.congr rfl rfl rfl rfl, ?_, ?_⟩
  · change (u.reg r).toNat = n - (k + 1)
    omega
  · change (u.reg r).toNat < (s.reg r).toNat
    omega

lemma count_test {p : ℕ} {l : MemcpyLabel} (h : Copied base mem dest src n k s) (hpc : s.pc = p)
    (hblock : (memcpy.drop p).take 2 = [.label l, .testl (.reg r) r])
    (hjz : memcpy[p + 2]? = some (.jz .done)) :
    Eventually (step base memcpy) (fun t => Copied base mem dest src n k t ∧ t.reg = s.reg ∧
      t.pc = if s.reg r = 0 then 28 else p + 3) s := by
  have hplain : ∀ i ∈ [Instr.label l, .testl (.reg r) r], i.Plain := by
    intro i hi
    simp only [List.mem_cons, List.not_mem_nil, or_false] at hi
    rcases hi with rfl | rfl <;> trivial
  have hreach := @reaches_block _ _ base _ _ _ _ hplain hpc hblock
  have hfields : ∀ u, u = [Instr.label l, .testl (.reg r) r].foldl (exec base memcpy) s →
      u.memory = s.memory ∧ u.reg = s.reg ∧ u.ds = s.ds ∧ u.pc = s.pc + 2 ∧
        u.zf = decide (s.reg r &&& s.reg r = 0) := by
    rintro u rfl
    exact ⟨rfl, rfl, rfl, rfl, rfl⟩
  generalize [Instr.label l, .testl (.reg r) r].foldl (exec base memcpy) s = u at hreach hfields
  obtain ⟨hmem, hreg, hds, hplace, hzf⟩ := hfields u rfl
  have hcopied : Copied base mem dest src n k u :=
    h.congr hmem (congrFun hreg _) (congrFun hreg _) hds
  rw [hpc] at hplace
  have hstep : step base memcpy u = some (exec base memcpy u (.jz .done)) := step_at hplace hjz
  rw [UInt32.and_self] at hzf
  refine ⟨_, hreach.trans (Reaches.head hstep (Reaches.refl _)), ?_⟩
  by_cases h0 : s.reg r = 0
  · have hjump : exec base memcpy u (.jz .done) = { u with pc := 28 } := by
      rw [decide_eq_true h0] at hzf
      exact if_pos hzf
    rw [hjump, if_pos h0]
    exact ⟨hcopied.congr rfl rfl rfl rfl, hreg, rfl⟩
  · have hstay : exec base memcpy u (.jz .done) = u.next := by
      rw [decide_eq_false h0] at hzf
      exact if_neg (by rw [hzf]; exact Bool.false_ne_true)
    rw [hstay, if_neg h0]
    refine ⟨hcopied.congr rfl rfl rfl rfl, hreg, ?_⟩
    change u.pc + 1 = p + 3
    rw [hplace]

/-! ### The loops -/

/-- The code has come to its end with everything copied. -/
def Finished (base : UInt16 → UInt32) (mem : Memory) (dest src : UInt32) (n : ℕ) (t : State) :
    Prop :=
  Copied base mem dest src n n t ∧ t.pc = memcpy.length

lemma finish (h : Copied base mem dest src n n s) (hpc : s.pc = 28) :
    Eventually (step base memcpy) (Finished base mem dest src n) s := by
  have hstep : step base memcpy s = some s.next := step_at (i := .label .done) hpc rfl
  refine Eventually.next hstep (Eventually.here ⟨h.congr rfl rfl rfl rfl, ?_⟩)
  change s.pc + 1 = 29
  rw [hpc]

/-- The head of a byte loop: the end of the code, or another byte to go. -/
lemma loop_head {p : ℕ} {l : MemcpyLabel} (h : Copied base mem dest src n k s) (hpc : s.pc = p)
    (hblock : (memcpy.drop p).take 2 = [.label l, .testl (.reg r) r])
    (hjz : memcpy[p + 2]? = some (.jz .done)) (hcount : (s.reg r).toNat = n - k) :
    Eventually (step base memcpy) (fun t => Finished base mem dest src n t ∨
      Copied base mem dest src n k t ∧ t.reg = s.reg ∧ s.reg r ≠ 0 ∧ t.pc = p + 3) s := by
  refine (count_test h hpc hblock hjz).trans fun t ht => ?_
  obtain ⟨hcopied, hreg, hplace⟩ := ht
  by_cases h0 : s.reg r = 0
  · rw [if_pos h0] at hplace
    have hkn : k = n := by
      have hzero : (s.reg r).toNat = 0 := congrArg UInt32.toNat h0
      have hle := h.le
      omega
    subst hkn
    exact (finish hcopied hplace).imp fun u hu => Or.inl hu
  · rw [if_neg h0] at hplace
    exact Eventually.here (Or.inr ⟨hcopied, hreg, h0, hplace⟩)

lemma bottom_loop (hapart : Apart dest.toNat src.toNat n) (h : Copied base mem dest src n k s)
    (hpc : s.pc = 19) (hcount : (s.reg .edx).toNat = n - k) :
    Eventually (step base memcpy) (Finished base mem dest src n) s := by
  refine Eventually.loop (fun s => (s.reg .edx).toNat)
    (I := fun s => ∃ k, s.pc = 19 ∧ Copied base mem dest src n k s ∧ (s.reg .edx).toNat = n - k)
    ?_ ⟨k, hpc, h, hcount⟩
  rintro s ⟨k, hpc, h, hcount⟩
  refine (loop_head h hpc rfl rfl hcount).trans fun t ht => ?_
  rcases ht with hdone | ⟨hcopied, hreg, hne, hplace⟩
  · exact Eventually.here (Or.inl hdone)
  rw [← hreg] at hne hcount ⊢
  refine (byte_round hcopied hapart (Or.inr rfl) hplace rfl rfl hcount hne).imp fun u hu => ?_
  obtain ⟨hp, hc, hrest, hless⟩ := hu
  exact Or.inr ⟨⟨k + 1, hp, hc, hrest⟩, hless⟩

lemma Copied.moveLong (h : Copied base mem dest src n k s)
    (hapart : Apart dest.toNat src.toNat n) (hes : base s.es = 0) (hk : k + 4 ≤ n) :
    moveLong base s = put dest.toNat (get src.toNat (k + 4) mem) mem := by
  obtain ⟨hto, hfrom, hdisjoint⟩ := hapart
  have hedi : (s.reg .edi).toNat = dest.toNat + k := by rw [h.edi, address_toNat (by omega)]
  have hesi : (s.reg .esi).toNat = src.toNat + k := by rw [h.esi, address_toNat (by omega)]
  rw [moveLong_eq h.flat hes (by omega) (by omega), hedi, hesi, h.memory,
    get_put_of_disjoint (by rw [length_get]; omega), put_get_add]

/-- `rep movsl`: four bytes a round, until `ecx` is zero. -/
lemma string_loop (hapart : Apart dest.toNat src.toNat n) (h : Copied base mem dest src n k s)
    (hpc : s.pc = 18) (hes : base s.es = 0) (hdf : s.df = false)
    (hcount : (s.reg .edx).toNat + 4 * (s.reg .ecx).toNat = n - k) :
    Eventually (step base memcpy) (fun t => ∃ k, Copied base mem dest src n k t ∧ t.pc = 19 ∧
      (t.reg .edx).toNat = n - k) s := by
  refine Eventually.loop (fun s => (s.reg .ecx).toNat)
    (I := fun s => ∃ k, Copied base mem dest src n k s ∧ s.pc = 18 ∧ base s.es = 0 ∧
      s.df = false ∧ (s.reg .edx).toNat + 4 * (s.reg .ecx).toNat = n - k)
    ?_ ⟨k, h, hpc, hes, hdf, hcount⟩
  rintro s ⟨k, h, hpc, hes, hdf, hcount⟩
  have hstep : step base memcpy s = some (repRound base s) := step_at (i := .repMovsl) hpc rfl
  refine Eventually.next hstep (Eventually.here ?_)
  by_cases h0 : s.reg .ecx = 0
  · have hzero : (s.reg .ecx).toNat = 0 := congrArg UInt32.toNat h0
    rw [repRound, if_pos h0]
    refine Or.inl ⟨k, h.congr rfl rfl rfl rfl, ?_, ?_⟩
    · change s.pc + 1 = 19
      rw [hpc]
    · change (s.reg .edx).toNat = n - k
      omega
  · have hpos : (s.reg .ecx).toNat ≠ 0 := fun hz => h0 (UInt32.toNat_inj.mp hz)
    have hfour : (4 : UInt32) = UInt32.ofNat 4 := rfl
    have hsub : (s.reg .ecx - 1).toNat = (s.reg .ecx).toNat - 1 :=
      UInt32.toNat_sub_of_le _ _ (UInt32.le_iff_toNat_le.mpr (Nat.one_le_iff_ne_zero.mpr hpos))
    obtain ⟨hround, hesi, hedi, hecx, hedx⟩ := @repRound_up base s h0 hdf
    generalize (repRound base s).reg = regs at hround hesi hedi hecx hedx
    rw [hround]
    refine Or.inr ⟨⟨k + 4, ⟨by omega, ?_, ?_, ?_, h.flat⟩, hpc, hes, hdf, ?_⟩, ?_⟩
    · exact h.moveLong hapart hes (by omega)
    · change regs .esi = _
      rw [hesi, h.esi, hfour, address_add]
    · change regs .edi = _
      rw [hedi, h.edi, hfour, address_add]
    · rw [hedx, hecx]
      omega
    · rw [hecx]
      omega

lemma align_test (h : Copied base mem dest src n k s) (hpc : s.pc = 3) :
    Eventually (step base memcpy) (fun t => Copied base mem dest src n k t ∧ t.reg = s.reg ∧
      (t.pc = 11 ∨ t.pc = 5)) s := by
  have htest : step base memcpy s = some (exec base memcpy s (.testl (.imm 0x3) .edi)) :=
    step_at hpc rfl
  have hfields : ∀ u, u = exec base memcpy s (.testl (.imm 0x3) .edi) →
      u.memory = s.memory ∧ u.reg = s.reg ∧ u.ds = s.ds ∧ u.pc = 4 := by
    rintro u rfl
    refine ⟨rfl, rfl, rfl, ?_⟩
    change s.pc + 1 = 4
    rw [hpc]
  generalize exec base memcpy s (.testl (.imm 0x3) .edi) = u at htest hfields
  obtain ⟨hmem, hreg, hds, hplace⟩ := hfields u rfl
  have hcopied := h.congr hmem (congrFun hreg _) (congrFun hreg _) hds
  have hjz : step base memcpy u = some (exec base memcpy u (.jz .aligned)) := step_at hplace rfl
  refine Eventually.next htest (Eventually.next hjz (Eventually.here ?_))
  by_cases hzf : u.zf = true
  · have hjump : exec base memcpy u (.jz .aligned) = { u with pc := 11 } := if_pos hzf
    rw [hjump]
    exact ⟨hcopied.congr rfl rfl rfl rfl, hreg, Or.inl rfl⟩
  · have hstay : exec base memcpy u (.jz .aligned) = u.next := if_neg hzf
    rw [hstay]
    refine ⟨hcopied.congr rfl rfl rfl rfl, hreg, Or.inr ?_⟩
    change u.pc + 1 = 5
    rw [hplace]

lemma top_loop (hapart : Apart dest.toNat src.toNat n) (h : Copied base mem dest src n k s)
    (hpc : s.pc = 0) (hcount : (s.reg .ecx).toNat = n - k) :
    Eventually (step base memcpy) (fun t => Finished base mem dest src n t ∨
      ∃ k, Copied base mem dest src n k t ∧ t.pc = 11 ∧ (t.reg .ecx).toNat = n - k) s := by
  refine Eventually.loop (fun s => (s.reg .ecx).toNat)
    (I := fun s => ∃ k, s.pc = 0 ∧ Copied base mem dest src n k s ∧ (s.reg .ecx).toNat = n - k)
    ?_ ⟨k, hpc, h, hcount⟩
  rintro s ⟨k, hpc, h, hcount⟩
  refine (loop_head h hpc rfl rfl hcount).trans fun t ht => ?_
  rcases ht with hdone | ⟨hcopied, hreg, hne, hplace⟩
  · exact Eventually.here (Or.inl (Or.inl hdone))
  refine (align_test hcopied hplace).trans fun u hu => ?_
  obtain ⟨hcopied, hreg', hp⟩ := hu
  rw [← hreg, ← hreg'] at hne hcount ⊢
  rcases hp with haligned | hbyte
  · exact Eventually.here (Or.inl (Or.inr ⟨k, hcopied, haligned, hcount⟩))
  · refine (byte_round hcopied hapart (Or.inl rfl) hbyte rfl rfl hcount hne).imp fun v hv => ?_
    obtain ⟨hp, hc, hrest, hless⟩ := hv
    exact Or.inr ⟨⟨k + 1, hp, hc, hrest⟩, hless⟩

lemma selector_moved (edx : UInt32) (ds : UInt16) :
    (edx &&& 0xFFFF0000 ||| ds.toUInt32).toUInt16 = ds := by
  have hhigh : ∀ i < 16, (0xFFFF0000 : UInt32).toBitVec.getLsbD i = false := by decide
  apply UInt16.toBitVec_inj.mp
  refine BitVec.eq_of_getLsbD_eq fun i hi => ?_
  have hi32 : i < 32 := by omega
  rw [UInt32.toBitVec_toUInt16, BitVec.getLsbD_setWidth, UInt32.toBitVec_or, UInt32.toBitVec_and,
    BitVec.getLsbD_or, BitVec.getLsbD_and, hhigh i hi, UInt16.toBitVec_toUInt32,
    BitVec.getLsbD_setWidth]
  simp [hi, hi32]

/-- The rounds of the string copy and the bytes left for the last loop. -/
lemma rounds_and_rest (a : UInt32) : (a &&& 0x3).toNat + 4 * (a >>> 2).toNat = a.toNat := by
  have hrest : a.toNat &&& 3 = a.toNat % 4 := Nat.and_two_pow_sub_one_eq_mod a.toNat 2
  have hand : (a &&& 0x3).toNat = a.toNat &&& 3 := UInt32.toNat_and ..
  have hshift : (a >>> 2).toNat = a.toNat >>> 2 := UInt32.toNat_shiftRight ..
  rw [hand, hrest, hshift, Nat.shiftRight_eq_div_pow]
  omega

/-- The instructions between `.memcpy_aligned` and the string copy. -/
def stringSetup : List (Instr MemcpyLabel) :=
  [.label .aligned, .movwDsDx, .movwDxEs, .movl (.reg .ecx) .edx, .shrl 2 .ecx,
    .andl (.imm 0x3) .edx, .cld]

lemma string_setup (h : Copied base mem dest src n k s) (hpc : s.pc = 11)
    (hcount : (s.reg .ecx).toNat = n - k) :
    Eventually (step base memcpy) (fun t => Copied base mem dest src n k t ∧ t.pc = 18 ∧
      base t.es = 0 ∧ t.df = false ∧ (t.reg .edx).toNat + 4 * (t.reg .ecx).toNat = n - k) s := by
  have hplain : ∀ i ∈ stringSetup, i.Plain := by
    intro i hi
    simp only [stringSetup, List.mem_cons, List.not_mem_nil, or_false] at hi
    rcases hi with rfl | rfl | rfl | rfl | rfl | rfl | rfl <;> trivial
  have hreach := @reaches_block _ _ base memcpy _ _ _ hplain hpc rfl
  have hfields : ∀ u, u = stringSetup.foldl (exec base memcpy) s →
      u.memory = s.memory ∧ u.reg .esi = s.reg .esi ∧ u.reg .edi = s.reg .edi ∧ u.ds = s.ds ∧
      u.pc = s.pc + 7 ∧ u.df = false ∧ u.reg .ecx = s.reg .ecx >>> 2 ∧
      u.reg .edx = s.reg .ecx &&& 0x3 ∧
      u.es = (s.reg .edx &&& 0xFFFF0000 ||| s.ds.toUInt32).toUInt16 := by
    rintro u rfl
    exact ⟨rfl, rfl, rfl, rfl, rfl, rfl, rfl, rfl, rfl⟩
  generalize stringSetup.foldl (exec base memcpy) s = u at hreach hfields
  obtain ⟨hmem, hesi, hedi, hds, hplace, hdf, hecx, hedx, hes⟩ := hfields u rfl
  rw [selector_moved] at hes
  refine ⟨u, hreach, h.congr hmem hesi hedi hds, ?_, ?_, hdf, ?_⟩
  · rw [hplace, hpc]
  · rw [hes]
    exact h.flat
  · rw [hecx, hedx, rounds_and_rest, hcount]

lemma memcpy_finishes (hflat : base s.ds = 0) (hpc : s.pc = 0)
    (hapart : Apart (s.reg .edi).toNat (s.reg .esi).toNat (s.reg .ecx).toNat) :
    Eventually (step base memcpy)
      (Finished base s.memory (s.reg .edi) (s.reg .esi) (s.reg .ecx).toNat) s := by
  have hstart : Copied base s.memory (s.reg .edi) (s.reg .esi) (s.reg .ecx).toNat 0 s :=
    ⟨Nat.zero_le _, put_nil.symm, (UInt32.add_zero _).symm, (UInt32.add_zero _).symm, hflat⟩
  refine (top_loop hapart hstart hpc rfl).trans fun t ht => ?_
  rcases ht with hdone | ⟨k, hk, hp, hcount⟩
  · exact Eventually.here hdone
  refine (string_setup hk hp hcount).trans fun u hu => ?_
  obtain ⟨hk, hp, hes, hdf, hcount⟩ := hu
  refine (string_loop hapart hk hp hes hdf hcount).trans fun v hv => ?_
  obtain ⟨k, hk, hp, hcount⟩ := hv
  exact bottom_loop hapart hk hp hcount

lemma Finished.halted (h : Finished base mem dest src n t) : step base memcpy t = none := by
  rw [step, h.2, List.getElem?_eq_none le_rfl, Option.map_none]

/-- For every destination, source and number of bytes whose stretches neither wrap nor overlap,
and whatever the other registers hold, the code ends with the source copied and no other byte
changed, as a copy byte by byte leaves it. -/
theorem memcpy_copies (hflat : base s.ds = 0) (hpc : s.pc = 0)
    (hapart : Apart (s.reg .edi).toNat (s.reg .esi).toNat (s.reg .ecx).toNat) :
    ∃ t, Reaches (step base memcpy) s t ∧ step base memcpy t = none ∧
      get (s.reg .edi).toNat (s.reg .ecx).toNat t.memory =
        get (s.reg .esi).toNat (s.reg .ecx).toNat s.memory ∧
      (∀ a, a < (s.reg .edi).toNat ∨ (s.reg .edi).toNat + (s.reg .ecx).toNat ≤ a →
        t.memory a = s.memory a) ∧
      t.memory = byteCopy (s.reg .edi).toNat (s.reg .esi).toNat (s.reg .ecx).toNat s.memory := by
  obtain ⟨t, hreach, hdone⟩ := memcpy_finishes hflat hpc hapart
  have hmemory := hdone.1.memory
  have hlen : (get (s.reg .esi).toNat (s.reg .ecx).toNat s.memory).length = (s.reg .ecx).toNat :=
    length_get
  refine ⟨t, hreach, hdone.halted, ?_, fun a ha => ?_, ?_⟩
  · have hget := @get_put _ (s.reg .edi).toNat
      (get (s.reg .esi).toNat (s.reg .ecx).toNat s.memory) s.memory
    rwa [hlen, ← hmemory] at hget
  · rw [hmemory]
    exact put_outside (by rwa [hlen])
  · rw [hmemory, byteCopy_eq hapart le_rfl]

/-- Seven bytes to an odd address, with the direction flag set and a strange selector in `es`. -/
def oddCopy : State where
  al := 0
  reg r := match r with
    | .ecx => 7
    | .edx => 0xFFFFFFFF
    | .esi => 100
    | .edi => 3
  ds := 0x18
  es := 0x77
  zf := false
  df := true
  memory a := UInt8.ofNat a
  pc := 0

theorem memcpy_copies_odd : let base : UInt16 → UInt32 := fun sel => if sel = 0x18 then 0 else 500
    ∃ t, Reaches (step base memcpy) oddCopy t ∧ step base memcpy t = none ∧
      get 3 7 t.memory = get 100 7 oddCopy.memory ∧
      (∀ a, a < 3 ∨ 3 + 7 ≤ a → t.memory a = oddCopy.memory a) ∧
      t.memory = byteCopy 3 100 7 oddCopy.memory := by
  intro base
  exact @memcpy_copies base oddCopy rfl rfl
    ⟨by decide, by decide, Or.inl (by decide)⟩

lemma Memory.copyPage_eq_put (mem : Memory) (d f : ℕ) :
    mem.copyPage d f = put (d * align4kb) (get (f * align4kb) align4kb mem) mem := by
  refine eq_put (fun j hj => ?_) fun a ha => ?_
  · rw [length_get] at hj
    have hframe : (d * align4kb + j) / align4kb = d := by
      simp only [align4kb] at hj ⊢
      omega
    have hoffset : (d * align4kb + j) % align4kb = j := by
      simp only [align4kb] at hj ⊢
      omega
    rw [getElem_get, Memory.copyPage, if_pos hframe, hoffset]
  · rw [length_get] at ha
    have hframe : a / align4kb ≠ d := by
      simp only [align4kb] at ha ⊢
      omega
    rw [Memory.copyPage, if_neg hframe]

/-- On whole pages the code does what the kernel's model takes for a copied page. -/
theorem memcpy_copyPage {d f : ℕ} (hflat : base s.ds = 0) (hpc : s.pc = 0) (hne : d ≠ f)
    (hdest : (s.reg .edi).toNat = d * align4kb) (hsrc : (s.reg .esi).toNat = f * align4kb)
    (hcount : (s.reg .ecx).toNat = align4kb) (hdest_fits : (d + 1) * align4kb ≤ 2 ^ 32)
    (hsrc_fits : (f + 1) * align4kb ≤ 2 ^ 32) :
    ∃ t, Reaches (step base memcpy) s t ∧ step base memcpy t = none ∧
      t.memory = Memory.copyPage s.memory d f := by
  have hapart : Apart (s.reg .edi).toNat (s.reg .esi).toNat (s.reg .ecx).toNat := by
    rw [hdest, hsrc, hcount]
    simp only [align4kb] at hdest_fits hsrc_fits ⊢
    exact ⟨by omega, by omega, by omega⟩
  obtain ⟨t, hreach, hdone⟩ := memcpy_finishes hflat hpc hapart
  refine ⟨t, hreach, hdone.halted, ?_⟩
  rw [hdone.1.memory, Memory.copyPage_eq_put, hdest, hsrc, hcount]

end HalOs
