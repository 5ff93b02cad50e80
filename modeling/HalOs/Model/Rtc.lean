import HalOs.Model.I8259

/-!
# The rate of the real-time clock

`rtc_write` takes a frequency from a buffer and has `set_rtc_frequency` put the rate of it into
register A, through the index and data ports of the clock.
-/

namespace HalOs

abbrev rtcIrq : UInt32 := 8
abbrev rtcRegA : UInt8 := 0x0A
abbrev rtcRegC : UInt8 := 0x0C
abbrev rtcRegANmiBit : UInt8 := 0x8A
abbrev rtcRateBits : UInt8 := 0xF0
abbrev nbytesSize : ℤ := 4

/-- The cases of the switch in `set_rtc_frequency`. -/
def rates : List (UInt32 × UInt8) :=
  [(2, 0x0F), (4, 0x0E), (8, 0x0D), (16, 0x0C), (32, 0x0B), (64, 0x0A), (128, 0x09), (256, 0x08),
    (512, 0x07), (1024, 0x06)]

namespace Ports

/-- `set_rtc_frequency`. It has no result; a frequency without a case changes nothing. -/
def setRtcFrequency (frequency : UInt32) (p : Ports) : Ports :=
  match rates.lookup frequency with
  | none => p
  | some rate =>
    let (prev, p) := (p.outb rtcRegANmiBit rtcIndexPort).inbData
    -- `prev` is a signed `char`; the mask keeps four of its eight bits
    (p.outb rtcRegANmiBit rtcIndexPort).outb (prev &&& rtcRateBits ||| rate) rtcDataPort

/-- `rtc_write`; `none` is a null buffer, otherwise the buffer holds the frequency. -/
def rtcWrite (buf : Option UInt32) (nbytes : ℤ) (p : Ports) : ℤ × Ports :=
  if nbytes ≠ nbytesSize then (-1, p)
  else
    match buf with
    | none => (-1, p)
    | some frequency =>
      let p := p.setRtcFrequency frequency
      let p := (p.outb rtcRegC rtcIndexPort).inbData.2
      (nbytes, p.sendEoi rtcIrq)

end Ports

/-- The frequencies the clock is meant to take. -/
def RtcFrequency (f : UInt32) : Prop := ∃ i, 1 ≤ i ∧ i ≤ 10 ∧ f.toNat = 2 ^ i

/-- What a write of `f` is expected to do: it succeeds for the frequencies of the clock and sets
their rate in the low half of register A, and otherwise fails without an effect on it. -/
structure RtcWriteExact (f : UInt32) (nbytes : ℤ) (p : Ports) : Prop where
  accepts : (p.rtcWrite (some f) nbytes).1 = 4 ↔ nbytes = 4 ∧ RtcFrequency f
  high : nbytes = 4 ∧ RtcFrequency f →
    (p.rtcWrite (some f) nbytes).2.register rtcRegA &&& 0xF0 = p.register rtcRegA &&& 0xF0
  rate : nbytes = 4 ∧ RtcFrequency f →
    ∃ r, (p.rtcWrite (some f) nbytes).2.register rtcRegA &&& 0x0F = r ∧ 1 ≤ r ∧
      32768 >>> (r.toNat - 1) = f.toNat
  rejects : ¬(nbytes = 4 ∧ RtcFrequency f) → (p.rtcWrite (some f) nbytes).1 = -1 ∧
    (p.rtcWrite (some f) nbytes).2.register rtcRegA = p.register rtcRegA

end HalOs
