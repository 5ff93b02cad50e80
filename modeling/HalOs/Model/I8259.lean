import Mathlib

/-!
# Ports and the interrupt controllers

What `outb` and `inb` do at the ports of the real-time clock, with every byte written to any
port, and the shadow masks of the two interrupt controllers.
-/

namespace HalOs

abbrev rtcIndexPort : UInt16 := 0x70
abbrev rtcDataPort : UInt16 := 0x71
abbrev pic1Command : UInt16 := 0x20
abbrev pic1Data : UInt16 := 0x21
abbrev pic2Command : UInt16 := 0xA0
abbrev pic2Data : UInt16 := 0xA1
abbrev slavePort : UInt32 := 2
abbrev portCount : UInt32 := 8
abbrev totalPortCount : UInt32 := portCount * 2
abbrev eoi : UInt8 := 0x60

/-- The registers of the clock, the one its data port shows, and the bytes written so far, most
recent first. -/
structure Ports where
  index : UInt8
  register : UInt8 → UInt8
  written : List (UInt16 × UInt8)

namespace Ports

/-- `outb`. The top bit of an index masks the NMI. -/
def outb (data : UInt8) (port : UInt16) (p : Ports) : Ports :=
  let p := { p with written := (port, data) :: p.written }
  if port = rtcIndexPort then { p with index := data &&& 0x7F }
  else if port = rtcDataPort then { p with register := Function.update p.register p.index data }
  else p

/-- `inb(RTC_DATA_PORT)`. Reading register C clears it. -/
def inbData (p : Ports) : UInt8 × Ports :=
  (p.register p.index,
    if p.index = 0x0C then { p with register := Function.update p.register 0x0C 0 } else p)

/-- The byte last written to a port. -/
def lastWritten (port : UInt16) (p : Ports) : Option UInt8 :=
  (p.written.find? fun w => w.1 = port).map Prod.snd

/-- `send_eoi`. -/
def sendEoi (irqNum : UInt32) (p : Ports) : Ports :=
  if totalPortCount ≤ irqNum then p
  else if portCount ≤ irqNum then
    (p.outb (eoi ||| (irqNum - portCount).toUInt8) pic2Command).outb (eoi ||| slavePort.toUInt8)
      pic1Command
  else p.outb (eoi ||| irqNum.toUInt8) pic1Command

end Ports

/-- The masks of IRQs 0 to 7 and 8 to 15, and the ports. -/
structure Pics where
  masterMask : UInt8
  slaveMask : UInt8
  ports : Ports

inductive PicCall where
  | enableIrq (irqNum : UInt32)
  | disableIrq (irqNum : UInt32)
  deriving DecidableEq, Repr

def PicCall.irqNum : PicCall → UInt32
  | .enableIrq irqNum => irqNum
  | .disableIrq irqNum => irqNum

namespace Pics

/-- `enable_irq`. The shift is of an `int`, its count taken modulo 32. -/
def enableIrq (irqNum : UInt32) (p : Pics) : Pics :=
  if irqNum < portCount then
    let value := (p.masterMask.toUInt32 &&& ~~~(1 <<< irqNum)).toUInt8
    { p with masterMask := value, ports := p.ports.outb value pic1Data }
  else
    let value := (p.slaveMask.toUInt32 &&& ~~~(1 <<< (irqNum - portCount))).toUInt8
    { p with slaveMask := value, ports := p.ports.outb value pic2Data }

/-- `disable_irq`. -/
def disableIrq (irqNum : UInt32) (p : Pics) : Pics :=
  if irqNum < portCount then
    let value := (p.masterMask.toUInt32 ||| 1 <<< irqNum).toUInt8
    { p with masterMask := value, ports := p.ports.outb value pic1Data }
  else
    let value := (p.slaveMask.toUInt32 ||| 1 <<< (irqNum - portCount)).toUInt8
    { p with slaveMask := value, ports := p.ports.outb value pic2Data }

def call (p : Pics) : PicCall → Pics
  | .enableIrq irqNum => p.enableIrq irqNum
  | .disableIrq irqNum => p.disableIrq irqNum

/-- `slave_mask << 8 | master_mask`. -/
def mask (p : Pics) : UInt16 := p.slaveMask.toUInt16 <<< 8 ||| p.masterMask.toUInt16

/-- Whether IRQ `k` is masked. -/
def Masked (p : Pics) (k : ℕ) : Prop := p.mask.toBitVec.getLsbD k = true

instance (p : Pics) (k : ℕ) : Decidable (p.Masked k) := by
  unfold Masked
  infer_instance

/-- The masks before the first call, with nothing written yet. -/
def start (register : UInt8 → UInt8) : Pics := ⟨0xFF, 0xFF, ⟨0, register, []⟩⟩

end Pics

/-- The controllers and the calls so far, most recent first. -/
structure PicSession where
  pics : Pics
  calls : List PicCall

namespace PicSession

def step (s : PicSession) (c : PicCall) : Option PicSession :=
  some ⟨s.pics.call c, c :: s.calls⟩

/-- The last call naming `k`. -/
def lastNaming (k : ℕ) (s : PicSession) : Option PicCall :=
  s.calls.find? fun c => c.irqNum.toNat = k

/-- An IRQ is unmasked if and only if the last call naming it was `enable_irq`, and the byte last
written to a data port, from the first call for its controller on, is the mask. -/
structure InForce (s : PicSession) : Prop where
  unmasked : ∀ k < 16, ¬s.pics.Masked k ↔ ∃ irqNum, s.lastNaming k = some (.enableIrq irqNum)
  master : s.pics.ports.lastWritten pic1Data =
    if s.calls.any (·.irqNum < portCount) then some s.pics.masterMask else none
  slave : s.pics.ports.lastWritten pic2Data =
    if s.calls.any (portCount ≤ ·.irqNum) then some s.pics.slaveMask else none

/-- A call with a number past the last IRQ changes neither mask. -/
def HighIgnored (s : PicSession) (c : PicCall) : Prop :=
  16 ≤ c.irqNum.toNat → (s.pics.call c).masterMask = s.pics.masterMask ∧
    (s.pics.call c).slaveMask = s.pics.slaveMask

end PicSession

end HalOs
