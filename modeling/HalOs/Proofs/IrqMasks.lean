import HalOs.General.Masks
import HalOs.General.Runs
import HalOs.Model.I8259

/-!
# The masks of the interrupt controllers

`enable_irq` and `disable_irq` change one bit of two 8-bit masks. They take any number from 8 on
for one of the second controller, whose shift count the processor takes modulo 32, so that a
number past the last IRQ can hit the bit of another one.
-/

namespace HalOs

namespace PicCall

/-- What the call writes to its bit. -/
def masks : PicCall → Bool
  | .enableIrq _ => false
  | .disableIrq _ => true

/-- The bit of the two masks that the call writes; from 16 on there is none. -/
def bit (c : PicCall) : ℕ :=
  if c.irqNum < portCount then c.irqNum.toNat else 8 + (c.irqNum - portCount).toNat % 32

variable {c : PicCall}

lemma bit_low (h : c.irqNum.toNat < 16) : c.bit = c.irqNum.toNat := by
  unfold bit
  split_ifs with hm
  · rfl
  · have hge : 8 ≤ c.irqNum.toNat := UInt32.not_lt.mp hm
    have hle : portCount ≤ c.irqNum := UInt32.not_lt.mp hm
    rw [UInt32.toNat_sub_of_le _ _ hle]
    change 8 + (c.irqNum.toNat - 8) % 32 = c.irqNum.toNat
    omega

/-- A number past the last IRQ hits a bit exactly when its rest modulo 32 is that of one of the
second controller. -/
lemma bit_high (h : 16 ≤ c.irqNum.toNat) {k : ℕ} (hk : k < 16) :
    k = c.bit ↔ 8 ≤ k ∧ c.irqNum.toNat % 32 = k := by
  have hm : ¬c.irqNum < portCount := UInt32.not_lt.mpr (le_trans (by decide : 8 ≤ 16) h)
  have hle : portCount ≤ c.irqNum := UInt32.not_lt.mp hm
  rw [bit, if_neg hm, UInt32.toNat_sub_of_le _ _ hle]
  change k = 8 + (c.irqNum.toNat - 8) % 32 ↔ _
  omega

end PicCall

namespace Pics

variable {p q : Pics} {c : PicCall} {k : ℕ} {m : UInt8} {n : UInt32}

/-! ### One call -/

lemma cleared_toBitVec (m : UInt8) (n : UInt32) :
    ((m.toUInt32 &&& ~~~(1 <<< n)).toUInt8).toBitVec =
      Masks.assign 32 false (n.toNat % 32) m.toBitVec := by
  simp [Masks.assign]

lemma set_toBitVec (m : UInt8) (n : UInt32) :
    ((m.toUInt32 ||| 1 <<< n).toUInt8).toBitVec =
      Masks.assign 32 true (n.toNat % 32) m.toBitVec := by
  simp [Masks.assign]

lemma call_master (p : Pics) (h : c.irqNum < portCount) :
    (p.call c).masterMask.toBitVec = Masks.assign 32 c.masks c.bit p.masterMask.toBitVec ∧
      (p.call c).slaveMask = p.slaveMask ∧
      (p.call c).ports = p.ports.outb (p.call c).masterMask pic1Data := by
  have hbit : c.irqNum.toNat % 32 = c.bit := by
    have hlt : c.irqNum.toNat < 8 := UInt32.lt_iff_toNat_lt.mp h
    rw [PicCall.bit, if_pos h]
    omega
  rw [← hbit]
  cases c with
  | enableIrq n =>
    simp only [call, enableIrq, if_pos (show n < portCount from h)]
    exact ⟨cleared_toBitVec p.masterMask n, trivial, trivial⟩
  | disableIrq n =>
    simp only [call, disableIrq, if_pos (show n < portCount from h)]
    exact ⟨set_toBitVec p.masterMask n, trivial, trivial⟩

lemma call_slave (p : Pics) (h : ¬c.irqNum < portCount) :
    (p.call c).slaveMask.toBitVec = Masks.assign 32 c.masks (c.bit - 8) p.slaveMask.toBitVec ∧
      (p.call c).masterMask = p.masterMask ∧
      (p.call c).ports = p.ports.outb (p.call c).slaveMask pic2Data := by
  have hbit : c.bit - 8 = (c.irqNum - portCount).toNat % 32 := by
    rw [PicCall.bit, if_neg h, Nat.add_sub_cancel_left]
  rw [hbit]
  cases c with
  | enableIrq n =>
    simp only [call, enableIrq, if_neg (show ¬n < portCount from h)]
    exact ⟨cleared_toBitVec p.slaveMask (n - portCount), trivial, trivial⟩
  | disableIrq n =>
    simp only [call, disableIrq, if_neg (show ¬n < portCount from h)]
    exact ⟨set_toBitVec p.slaveMask (n - portCount), trivial, trivial⟩

lemma masked_eq (hk : k < 16) : p.mask.toBitVec.getLsbD k =
    if k < 8 then p.masterMask.toBitVec.getLsbD k else p.slaveMask.toBitVec.getLsbD (k - 8) := by
  have hmask : p.mask.toBitVec =
      p.slaveMask.toBitVec.setWidth 16 <<< 8 ||| p.masterMask.toBitVec.setWidth 16 := by
    simp [mask]
  rw [hmask]
  exact Masks.getLsbD_beside (by decide) _ _ hk

/-- A call writes its own bit and no other. -/
theorem call_masked (p : Pics) (c : PicCall) (hk : k < 16) :
    (p.call c).Masked k ↔ if k = c.bit then c.masks = true else p.Masked k := by
  unfold Masked
  rw [masked_eq hk, masked_eq hk]
  by_cases hm : c.irqNum < portCount
  · obtain ⟨hmaster, hslave, -⟩ := call_master p hm
    have hlt : c.bit < 8 := by
      rw [PicCall.bit, if_pos hm]
      exact UInt32.lt_iff_toNat_lt.mp hm
    rw [hslave]
    by_cases hk8 : k < 8
    · rw [if_pos hk8, if_pos hk8, hmaster, Masks.getLsbD_assign (by decide) hk8]
      split_ifs <;> rfl
    · have hne : k ≠ c.bit := by omega
      rw [if_neg hk8, if_neg hk8, if_neg hne]
  · obtain ⟨hslave, hmaster, -⟩ := call_slave p hm
    have hge : 8 ≤ c.bit := by
      rw [PicCall.bit, if_neg hm]
      exact Nat.le_add_right _ _
    rw [hmaster]
    by_cases hk8 : k < 8
    · have hne : k ≠ c.bit := by omega
      rw [if_pos hk8, if_pos hk8, if_neg hne]
    · rw [if_neg hk8, if_neg hk8, hslave, Masks.getLsbD_assign (by decide) (by omega)]
      have hiff : k - 8 = c.bit - 8 ↔ k = c.bit := by omega
      simp only [hiff]
      split_ifs <;> rfl

lemma masks_eq_iff : (q.masterMask = p.masterMask ∧ q.slaveMask = p.slaveMask) ↔
    ∀ k < 16, (q.Masked k ↔ p.Masked k) := by
  unfold Masked
  constructor
  · rintro ⟨hmaster, hslave⟩ k hk
    rw [masked_eq hk, masked_eq hk, hmaster, hslave]
  · intro h
    have hbits : ∀ k < 16, q.mask.toBitVec.getLsbD k = p.mask.toBitVec.getLsbD k :=
      fun k hk => Bool.eq_iff_iff.mpr (h k hk)
    constructor
    · apply UInt8.toBitVec_inj.mp
      refine BitVec.eq_of_getLsbD_eq fun i hi => ?_
      have hbit := hbits i (by omega)
      rwa [masked_eq (by omega), masked_eq (by omega), if_pos hi, if_pos hi] at hbit
    · apply UInt8.toBitVec_inj.mp
      refine BitVec.eq_of_getLsbD_eq fun i hi => ?_
      have hbit := hbits (i + 8) (by omega)
      rwa [masked_eq (by omega), masked_eq (by omega), if_neg (by omega), if_neg (by omega),
        Nat.add_sub_cancel] at hbit

/-! ### The ports -/

lemma lastWritten_outb (port port' : UInt16) (b : UInt8) (p : Ports) :
    (p.outb b port).lastWritten port' = if port = port' then some b else p.lastWritten port' := by
  have hwritten : (p.outb b port).written = (port, b) :: p.written := by
    unfold Ports.outb
    split_ifs <;> rfl
  unfold Ports.lastWritten
  rw [hwritten, List.find?_cons]
  by_cases h : port = port'
  · simp [h]
  · simp [h]

end Pics

namespace PicSession

variable {s s' s₀ : PicSession} {c : PicCall} {cs : List PicCall} {k : ℕ}

/-- A number past the last IRQ whose rest is that of an IRQ of the second controller leaves that
IRQ as it is. -/
def HighHarmless (s : PicSession) (c : PicCall) : Prop :=
  16 ≤ c.irqNum.toNat → 8 ≤ c.irqNum.toNat % 32 → c.irqNum.toNat % 32 < 16 →
    (s.pics.Masked (c.irqNum.toNat % 32) ↔ c.masks = true)

instance (s : PicSession) (c : PicCall) : Decidable (HighHarmless s c) := by
  unfold HighHarmless
  infer_instance

theorem highIgnored_iff : HighIgnored s c ↔ HighHarmless s c := by
  unfold HighIgnored HighHarmless
  refine forall_congr' fun hhigh => ?_
  rw [Pics.masks_eq_iff]
  constructor
  · intro h hk8 hk
    have hbit := (PicCall.bit_high hhigh hk).mpr ⟨hk8, rfl⟩
    have hsame := h _ hk
    rw [Pics.call_masked _ _ hk, if_pos hbit] at hsame
    exact hsame.symm
  · intro h k hk
    rw [Pics.call_masked _ _ hk]
    split_ifs with hbit
    · obtain ⟨hk8, rfl⟩ := (PicCall.bit_high hhigh hk).mp hbit
      exact (h hk8 hk).symm
    · exact Iff.rfl

lemma lastNaming_step (hstep : s.step c = some s') :
    s'.lastNaming k = if c.irqNum.toNat = k then some c else s.lastNaming k := by
  obtain rfl := Option.some.inj hstep
  unfold lastNaming
  rw [List.find?_cons]
  by_cases h : c.irqNum.toNat = k
  · simp [h]
  · simp [h]

lemma step_unmasked (h : InForce s) (hstep : s.step c = some s') :
    (∀ k < 16, ¬s'.pics.Masked k ↔ ∃ n, s'.lastNaming k = some (.enableIrq n)) ↔
      HighIgnored s c := by
  have hpics : s'.pics = s.pics.call c := by
    obtain rfl := Option.some.inj hstep
    rfl
  rw [hpics]
  rcases Nat.lt_or_ge c.irqNum.toNat 16 with hlow | hhigh
  · refine iff_of_true (fun k hk => ?_) fun hhigh => absurd hlow (not_lt.mpr hhigh)
    rw [lastNaming_step hstep, Pics.call_masked _ _ hk, PicCall.bit_low hlow]
    by_cases hname : c.irqNum.toNat = k
    · rw [if_pos hname, if_pos hname.symm]
      cases c with
      | enableIrq n => exact iff_of_true Bool.false_ne_true ⟨n, rfl⟩
      | disableIrq n =>
        refine iff_of_false (not_not.mpr rfl) ?_
        rintro ⟨m, hm⟩
        exact absurd (Option.some.inj hm) (by simp)
    · rw [if_neg hname, if_neg (Ne.symm hname)]
      exact h.unmasked k hk
  · have hname : ∀ k < 16, s'.lastNaming k = s.lastNaming k := fun k hk => by
      rw [lastNaming_step hstep, if_neg (by omega)]
    have hsame : HighIgnored s c ↔ ∀ k < 16, ((s.pics.call c).Masked k ↔ s.pics.Masked k) := by
      unfold HighIgnored
      rw [Pics.masks_eq_iff]
      exact ⟨fun h => h hhigh, fun h _ => h⟩
    rw [hsame]
    refine forall₂_congr fun k hk => ?_
    rw [hname k hk, ← h.unmasked k hk, not_iff_not]

lemma step_ports (h : InForce s) (hstep : s.step c = some s') :
    s'.pics.ports.lastWritten pic1Data =
        (if s'.calls.any (·.irqNum < portCount) then some s'.pics.masterMask else none) ∧
      s'.pics.ports.lastWritten pic2Data =
        (if s'.calls.any (portCount ≤ ·.irqNum) then some s'.pics.slaveMask else none) := by
  obtain rfl := Option.some.inj hstep
  dsimp only
  have hdata : pic1Data ≠ pic2Data := by decide
  simp only [List.any_cons]
  by_cases hm : c.irqNum < portCount
  · obtain ⟨-, hslave, hports⟩ := Pics.call_master s.pics hm
    have hle : ¬portCount ≤ c.irqNum := UInt32.not_le.mpr hm
    rw [hports, Pics.lastWritten_outb, Pics.lastWritten_outb, if_pos rfl, if_neg hdata, h.slave,
      hslave]
    simp only [hm, hle, decide_true, decide_false, Bool.true_or, Bool.false_or, if_true, true_and]
  · obtain ⟨-, hmaster, hports⟩ := Pics.call_slave s.pics hm
    have hle : portCount ≤ c.irqNum := UInt32.not_lt.mp hm
    rw [hports, Pics.lastWritten_outb, Pics.lastWritten_outb, if_pos rfl, if_neg hdata.symm,
      h.master, hmaster]
    simp only [hm, hle, decide_true, decide_false, Bool.true_or, Bool.false_or, if_true, and_true]

lemma step_inForce (h : InForce s) (hstep : s.step c = some s') :
    InForce s' ↔ HighHarmless s c := by
  rw [← highIgnored_iff, ← step_unmasked h hstep]
  obtain ⟨hmaster, hslave⟩ := step_ports h hstep
  exact ⟨InForce.unmasked, fun hbits => ⟨hbits, hmaster, hslave⟩⟩

lemma start_inForce (register : UInt8 → UInt8) : InForce ⟨Pics.start register, []⟩ := by
  refine ⟨fun k hk => ?_, rfl, rfl⟩
  have hmasked : (Pics.start register).Masked k := by
    have hmask : (Pics.start register).mask = 0xFFFF := by
      have hall : (0xFF : UInt8).toUInt16 <<< 8 ||| (0xFF : UInt8).toUInt16 = 0xFFFF := by decide
      exact hall
    have hall : ∀ k < 16, (0xFFFF : UInt16).toBitVec.getLsbD k = true := by decide
    rw [Pics.Masked, hmask]
    exact hall k hk
  refine iff_of_false (not_not.mpr hmasked) ?_
  rintro ⟨n, hn⟩
  exact absurd hn (by simp [lastNaming])

/-- Along every sequence of calls the masks say of each IRQ what the last call naming it did,
and the calls with other numbers change nothing, exactly as long as each of these hits no bit
that it would change. -/
theorem irq_run_iff {register : UInt8 → UInt8} (h₀ : s₀ = ⟨Pics.start register, []⟩)
    (h : Runs.Path step (fun _ _ => True) s₀ cs s) :
    (Runs.Always step InForce s₀ cs s ∧ Runs.Path step HighIgnored s₀ cs s) ↔
      Runs.Path step HighHarmless s₀ cs s := by
  have hstart : InForce s₀ := h₀ ▸ start_inForce register
  rw [Runs.always_iff h (fun _ _ _ hs hstep => step_inForce hs hstep) hstart]
  refine ⟨And.left, fun hpath => ⟨hpath, ?_⟩⟩
  exact hpath.mono fun _ _ hc => highIgnored_iff.mpr hc

/-- `enable_irq(40)` unmasks IRQ 8, which no call has named. -/
theorem irq_forty :
    let s₀ : PicSession := ⟨Pics.start fun _ => 0, []⟩
    ∃ s, Runs.Path step (fun _ _ => True) s₀ [.enableIrq 40] s ∧ s₀.pics.slaveMask = 0xFF ∧
      s.pics.slaveMask = 0xFE ∧ ¬s.pics.Masked 8 ∧ s.lastNaming 8 = none ∧
      ¬(Runs.Always step InForce s₀ [.enableIrq 40] s ∧
        Runs.Path step HighIgnored s₀ [.enableIrq 40] s) := by
  intro s₀
  have hmasked : ¬(s₀.pics.call (.enableIrq 40)).Masked 8 := by decide +kernel
  refine ⟨⟨s₀.pics.call (.enableIrq 40), [.enableIrq 40]⟩, ?_, rfl, by decide +kernel, hmasked,
    rfl, ?_⟩
  · exact Runs.Path.cons trivial rfl (Runs.Path.nil _)
  · rintro ⟨⟨-, hend⟩, -⟩
    obtain ⟨n, hn⟩ := (hend.unmasked 8 (by decide)).mp hmasked
    exact Option.some_ne_none _ hn.symm

/-- The calls of a boot, one with a number that hits nothing, and one that hits a bit it leaves. -/
def bootCalls : List PicCall :=
  [.enableIrq 2, .enableIrq 1, .enableIrq 8, .enableIrq 16, .disableIrq 1, .enableIrq 40]

theorem irq_run_boot :
    let s₀ : PicSession := ⟨Pics.start fun _ => 0, []⟩
    ∃ s, Runs.Path step (fun _ _ => True) s₀ bootCalls s ∧
      Runs.Always step InForce s₀ bootCalls s ∧ Runs.Path step HighIgnored s₀ bootCalls s := by
  intro s₀
  have hrun : (Runs.run step HighHarmless s₀ bootCalls).isSome = true := by decide +kernel
  obtain ⟨s, hs⟩ := Option.isSome_iff_exists.mp hrun
  have hpath := Runs.path_of_run hs
  have hdefined := hpath.mono fun _ _ _ => trivial
  exact ⟨s, hdefined, (irq_run_iff rfl hdefined).mpr hpath⟩

end PicSession

end HalOs
