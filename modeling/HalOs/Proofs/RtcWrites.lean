import HalOs.General.Masks
import HalOs.Model.Rtc

/-!
# Writes to the real-time clock

`set_rtc_frequency` has no way to report a frequency it does not know, so that `rtc_write`
succeeds for every frequency in a buffer of four bytes.
-/

namespace HalOs

variable {f : UInt32} {r : UInt8} {nbytes : ℤ} {p : Ports}

/-! ### The rates -/

/-- The cases are the powers of two from 2 to 1024, each with its rate. -/
lemma rates_all : rates.all (fun x => (List.range' 1 10).any (fun i => x.1.toNat = 2 ^ i) ∧
    x.2 &&& 0xF0 = 0 ∧ 1 ≤ x.2 ∧ 32768 >>> (x.2.toNat - 1) = x.1.toNat) = true := by
  decide +kernel

lemma lookup_power : ∀ i < 11, 1 ≤ i → (rates.lookup (UInt32.ofNat (2 ^ i))).isSome = true := by
  decide +kernel

lemma lookup_some (h : rates.lookup f = some r) :
    RtcFrequency f ∧ r &&& 0xF0 = 0 ∧ 1 ≤ r ∧ 32768 >>> (r.toNat - 1) = f.toNat := by
  obtain ⟨l₁, l₂, hrates, -⟩ := List.lookup_eq_some_iff.mp h
  have hmem : (f, r) ∈ rates := by
    rw [hrates]
    exact List.mem_append_right _ List.mem_cons_self
  obtain ⟨hpower, hfield, hpos, hshift⟩ :=
    of_decide_eq_true (List.all_eq_true.mp rates_all (f, r) hmem)
  obtain ⟨i, hi, hf⟩ := List.any_eq_true.mp hpower
  obtain ⟨h1, h10⟩ := List.mem_range'_1.mp hi
  exact ⟨⟨i, h1, by omega, of_decide_eq_true hf⟩, hfield, hpos, hshift⟩

lemma lookup_frequency (h : RtcFrequency f) : ∃ r, rates.lookup f = some r := by
  obtain ⟨i, h1, h10, hf⟩ := h
  have hsome := lookup_power i (by omega) h1
  rw [← hf, UInt32.ofNat_toNat] at hsome
  exact Option.isSome_iff_exists.mp hsome

namespace Ports

/-! ### The registers -/

lemma outb_data (b : UInt8) (p : Ports) :
    (p.outb b rtcDataPort).register = Function.update p.register p.index b := rfl

lemma inbData_selected (p : Ports) : (p.outb rtcRegANmiBit rtcIndexPort).inbData =
    (p.register rtcRegA, p.outb rtcRegANmiBit rtcIndexPort) := rfl

lemma outb_register {port : UInt16} (h : port ≠ rtcDataPort) (b : UInt8) (p : Ports) :
    (p.outb b port).register = p.register := by
  unfold outb
  split_ifs <;> rfl

lemma sendEoi_register (n : UInt32) (p : Ports) : (p.sendEoi n).register = p.register := by
  unfold sendEoi
  split_ifs
  · rfl
  · rw [outb_register (by decide), outb_register (by decide)]
  · rw [outb_register (by decide)]

lemma setRtcFrequency_some (h : rates.lookup f = some r) (p : Ports) :
    (p.setRtcFrequency f).register =
      Function.update p.register rtcRegA (p.register rtcRegA &&& 0xF0 ||| r) := by
  unfold setRtcFrequency
  simp only [h, inbData_selected]
  exact outb_data _ _

lemma setRtcFrequency_none (h : rates.lookup f = none) (p : Ports) : p.setRtcFrequency f = p := by
  unfold setRtcFrequency
  rw [h]

/-- With four bytes the result does not depend on the frequency, and register A is as
`set_rtc_frequency` leaves it. -/
lemma rtcWrite_four (f : UInt32) (p : Ports) : (p.rtcWrite (some f) 4).1 = 4 ∧
    (p.rtcWrite (some f) 4).2.register rtcRegA = (p.setRtcFrequency f).register rtcRegA := by
  refine ⟨rfl, ?_⟩
  have hafter : ∀ q : Ports, (q.outb rtcRegC rtcIndexPort).inbData.2.register =
      Function.update q.register rtcRegC 0 := fun _ => rfl
  have hwrite : (p.rtcWrite (some f) 4).2 =
      (((p.setRtcFrequency f).outb rtcRegC rtcIndexPort).inbData.2).sendEoi rtcIrq := rfl
  rw [hwrite, sendEoi_register, hafter, Function.update_of_ne (by decide)]

lemma rtcWrite_other (h : nbytes ≠ 4) (buf : Option UInt32) (p : Ports) :
    p.rtcWrite buf nbytes = (-1, p) :=
  if_pos h

end Ports

/-- A frequency the clock does not take is lost without an error. -/
theorem rtcWrite_unknown (h : ¬RtcFrequency f) (p : Ports) : (p.rtcWrite (some f) 4).1 = 4 ∧
    (p.rtcWrite (some f) 4).2.register rtcRegA = p.register rtcRegA := by
  obtain ⟨hresult, hreg⟩ := p.rtcWrite_four f
  have hnone : rates.lookup f = none := by
    cases hr : rates.lookup f with
    | none => rfl
    | some r => exact absurd (lookup_some hr).1 h
  rw [Ports.setRtcFrequency_none hnone] at hreg
  exact ⟨hresult, hreg⟩

/-- A write does what is expected of it if and only if it does not give four bytes with a
frequency that the clock does not take. -/
theorem rtcWrite_exact_iff (f : UInt32) (nbytes : ℤ) (p : Ports) :
    RtcWriteExact f nbytes p ↔ (nbytes = 4 → RtcFrequency f) := by
  constructor
  · rintro h rfl
    exact (h.accepts.mp (p.rtcWrite_four f).1).2
  · intro h
    by_cases hn : nbytes = 4
    · subst hn
      have hf := h rfl
      obtain ⟨r, hr⟩ := lookup_frequency hf
      obtain ⟨-, hfield, hpos, hshift⟩ := lookup_some hr
      obtain ⟨hresult, hreg⟩ := p.rtcWrite_four f
      rw [Ports.setRtcFrequency_some hr, Function.update_self] at hreg
      have hbits : r.toBitVec &&& (0xF0 : UInt8).toBitVec = 0#8 := congrArg UInt8.toBitVec hfield
      refine ⟨iff_of_true hresult ⟨rfl, hf⟩, fun _ => ?_, fun _ => ⟨r, ?_, hpos, hshift⟩,
        fun hno => absurd ⟨rfl, hf⟩ hno⟩
      · rw [hreg]
        exact UInt8.toBitVec_inj.mp (Masks.replace_and_mask hbits)
      · rw [hreg]
        exact UInt8.toBitVec_inj.mp (Masks.replace_and_not_mask hbits)
    · have hw := Ports.rtcWrite_other hn (some f) p
      have hno : ¬(nbytes = 4 ∧ RtcFrequency f) := fun hyes => hn hyes.1
      refine ⟨iff_of_false ?_ hno, fun hyes => absurd hyes hno, fun hyes => absurd hyes hno,
        fun _ => ?_⟩
      · rw [hw]
        exact fun h4 : (-1 : ℤ) = 4 => absurd h4 (by decide)
      · rw [hw]
        exact ⟨rfl, rfl⟩

/-- Three is no frequency of the clock, but the write of it succeeds and changes nothing. -/
theorem rtcWrite_three : let p : Ports := ⟨0, fun _ => 0x26, []⟩
    ¬RtcWriteExact 3 4 p ∧ (p.rtcWrite (some 3) 4).1 = 4 ∧
      (p.rtcWrite (some 3) 4).2.register rtcRegA = 0x26 := by
  intro p
  have hresult : (p.rtcWrite (some 3) 4).1 = 4 := by decide +kernel
  refine ⟨fun h => ?_, hresult, by decide +kernel⟩
  obtain ⟨-, i, h1, -, hpower⟩ := h.accepts.mp hresult
  have heven : 2 ∣ 3 := by
    have hdvd : 2 ∣ 2 ^ i := dvd_pow_self 2 (by omega)
    rw [← hpower] at hdvd
    exact hdvd
  exact absurd heven (by decide)

end HalOs
