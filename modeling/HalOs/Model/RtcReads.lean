import HalOs.Model.Events

/-!
# Processes in `rtc_read`

The kernel, the one flag that all calls of `rtc_read` share with the handler of the RTC, and the
calls that have not returned. A call runs statement by statement while its process is current:
the reset of the flag, then tests of it until one finds it set. The handler runs with interrupts
disabled.

Beside what the code stores, each call carries whether an RTC interrupt has been handled since
its own reset, and a list records it for the calls that returned.
-/

namespace HalOs

/-- The statements of `rtc_read`. -/
inductive RtcStmt where
  | reset
  | test
  deriving DecidableEq, Repr

/-- A call before its next statement. -/
structure RtcCall where
  next : RtcStmt
  handled : Bool
  deriving DecidableEq, Repr

structure RtcReaders where
  kernel : Kernel
  rtcInterruptFlag : UInt32
  /-- The call of each process, by its PID. -/
  calls : ℤ → Option RtcCall
  /-- The process that returned, and whether an interrupt came after its reset. -/
  returned : List (ℤ × Bool)

inductive RtcEvent where
  /-- An interrupt of the interval timer. -/
  | tick (r : Regs)
  /-- An interrupt of the RTC. -/
  | interrupt
  /-- The current process calls `rtc_read`. -/
  | call
  /-- The call of the current process goes on to its next statement. -/
  | run

/-- The store of `rtc_handler`. -/
def rtcHandler (flag : UInt32) : UInt32 := if flag = 0 then 1 else flag

/-- A call that has reset the flag gets its interrupt. -/
def RtcCall.notice (c : RtcCall) : RtcCall :=
  match c.next with
  | .reset => c
  | .test => { c with handled := true }

namespace RtcReaders

def start (k : Kernel) : RtcReaders where
  kernel := k
  rtcInterruptFlag := 0
  calls := fun _ => none
  returned := []

def setCall (p : ℤ) (c : Option RtcCall) (m : RtcReaders) : RtcReaders :=
  { m with calls := Function.update m.calls p c }

/-- One statement of the call `c` of process `p`. -/
def exec (p : ℤ) (c : RtcCall) (m : RtcReaders) : RtcReaders :=
  match c.next with
  | .reset => { m.setCall p (some ⟨.test, false⟩) with rtcInterruptFlag := 0 }
  | .test =>
    if m.rtcInterruptFlag = 0 then m
    else { m.setCall p none with returned := (p, c.handled) :: m.returned }

def step (m : RtcReaders) : RtcEvent → Option RtcReaders
  | .tick r => (m.kernel.pitHandler r).map fun k => { m with kernel := k }
  | .interrupt =>
    some { m with
      rtcInterruptFlag := rtcHandler m.rtcInterruptFlag
      calls := fun p => (m.calls p).map RtcCall.notice }
  | .call => m.kernel.currentPcb.bind fun p =>
    if m.calls p = none then some (m.setCall p (some ⟨.reset, false⟩)) else none
  | .run => m.kernel.currentPcb.bind fun p => (m.calls p).map fun c => m.exec p c

end RtcReaders

end HalOs
