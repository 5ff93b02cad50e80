import HalOs.General.Ia32Calls
import HalOs.General.Ia32Flags
import HalOs.Proofs.InterruptTable

/-!
# Device interrupts

The wrappers of the device interrupts give the interrupted code its registers, flags, stack and
place back, wherever it was interrupted, in a program or in the kernel.
-/

namespace HalOs.Interrupts

open Ia32
open X86 (Eventually)

/-! ### The wrapper on the list -/

/-- What `pushal` leaves on the stack. -/
def savedRegs (f : Reg → UInt32) : List UInt32 := (pushalOrder.map f).reverse

/-- The wrapper's first two instructions. -/
lemma run_save (v : View) : ∃ v', v.run ([.pushfl, .pushal] : List (Instr Symbol)) = some v' ∧
    v'.toCpu = v.set .esp (v.reg .esp - 4 - 32) ∧
    v'.stack = savedRegs (v.set .esp (v.reg .esp - 4)).reg ++ pushedFlags v.eflags :: v.stack := by
  have hpushes := pushes_view (v.push (pushedFlags v.eflags))
    (pushalOrder.map (v.push (pushedFlags v.eflags)).reg)
  refine ⟨_, congrArg some hpushes, ?_, rfl⟩
  simp only [View.push, Cpu.set, Function.update_self, Function.update_idem]
  rfl

/-- `t` is `s` again: its registers, flags, stack pointer and place, and its memory but for
`writes` and the `room` bytes below `base`. -/
structure Undisturbed (writes : Set UInt32) (base : UInt32) (room : ℕ) (s t : State) : Prop where
  cpu : t.toCpu = s.toCpu
  memory : ∀ x, x ∉ writes → ¬Within x (base - UInt32.ofNat room) room → t.memory x = s.memory x

lemma kernelCs_ring : kernelCs &&& 3 = 0 := by decide

section Device

variable {M : Ia32.Machine} {address : Symbol → UInt32} {d : Device} {room depth : ℕ}
  {writes : List UInt32 → Set UInt32}
  {R : List UInt32 → Ia32.Memory → UInt32 → Ia32.Memory → Prop} {s : State}

end Device

/-! ### A small machine -/

end HalOs.Interrupts
