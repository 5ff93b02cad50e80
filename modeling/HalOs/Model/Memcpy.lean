import HalOs.General.X86
import HalOs.Model.Paging

/-!
# The assembly of `memcpy`

It begins with `src` in `esi`, `dest` in `edi` and `n` in `ecx`.
-/

namespace HalOs

inductive MemcpyLabel where
  | top
  | aligned
  | bottom
  | done
  deriving DecidableEq, Repr

open X86 in
/-- `memcpy`. -/
def memcpy : List (Instr MemcpyLabel) :=
  [.label .top,
    .testl (.reg .ecx) .ecx,
    .jz .done,
    .testl (.imm 0x3) .edi,
    .jz .aligned,
    .loadAl .esi,
    .storeAl .edi,
    .addl (.imm 1) .edi,
    .addl (.imm 1) .esi,
    .subl (.imm 1) .ecx,
    .jmp .top,
    .label .aligned,
    .movwDsDx,
    .movwDxEs,
    .movl (.reg .ecx) .edx,
    .shrl 2 .ecx,
    .andl (.imm 0x3) .edx,
    .cld,
    .repMovsl,
    .label .bottom,
    .testl (.reg .edx) .edx,
    .jz .done,
    .loadAl .esi,
    .storeAl .edi,
    .addl (.imm 1) .edi,
    .addl (.imm 1) .esi,
    .subl (.imm 1) .edx,
    .jmp .bottom,
    .label .done]

/-- A copy byte by byte, from the first one on. -/
def byteCopy (dest src : ℕ) : ℕ → Memory → Memory
  | 0, mem => mem
  | n + 1, mem =>
    let mem := byteCopy dest src n mem
    Function.update mem (dest + n) (mem (src + n))

end HalOs
