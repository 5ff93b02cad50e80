import HalOs.General.Segments
import HalOs.Model.UserCalls

/-!
# User programs

The program `grep` of `syscalls/`, over the system calls as the kernel serves them. A program's
local array is a memory of bytes; a string that runs past the end of its array has no result.
What a program writes to the terminal is kept as the list of its `write` calls.
-/

namespace HalOs

/-- A running program as the kernel sees it: its descriptors, and the buffers it has given to
the terminal. -/
structure UserTask where
  fds : FdTable
  written : List (List UInt8)

namespace UserTask

def opens (img : Image) (filename : List UInt8) (p : UserTask) : Option (ℤ × UserTask) :=
  (sysOpen img p.fds filename).map fun (fd, fds) => (fd, { p with fds := fds })

/-- `ece391_read`: value returned, bytes stored from the start of the buffer, program after it. -/
def read (img : Image) (dev : Device) (fd nbytes : ℤ) (p : UserTask) :
    Option (ℤ × List UInt8 × UserTask) :=
  (sysRead img dev p.fds fd nbytes).map fun (value, bytes, fds) => (value, bytes, { p with fds := fds })

/-- `ece391_write` of the bytes of a buffer. -/
def write (dev : Device) (fd : ℤ) (buf : List UInt8) (p : UserTask) : ℤ × UserTask :=
  (sysWrite dev p.fds fd,
    if fd = 1 ∧ (p.fds 1).flags = 1 then { p with written := p.written ++ [buf] } else p)

def close (fd : ℤ) (p : UserTask) : ℤ × UserTask :=
  ((sysClose p.fds fd).1, { p with fds := (sysClose p.fds fd).2 })

end UserTask

/-! ### `ece391support.c` -/

/-- `ece391_strncmp` from index `i` on, with `n` characters left to compare. -/
def ece391Strncmp (s1 s2 : ℕ → UInt8) : ℕ → ℕ → ℤ
  | 0, _ => 0
  | n + 1, i =>
    if s1 i = s2 i then
      if s1 i = 0 ∨ n = 0 then 0 else ece391Strncmp s1 s2 n (i + 1)
    else (s1 i).toNat - (s2 i).toNat

/-! ### `ece391grep.c` -/

namespace Grep

abbrev bufsize : ℕ := 1024

abbrev newline : UInt8 := 10

/-- The arguments of `do_one_file`. -/
structure Args where
  s : List UInt8
  fname : List UInt8

/-- The loop that looks for the end of a line, `n` bytes before `last`. -/
def lineEnd (data : ℕ → UInt8) : ℕ → ℕ → ℕ
  | 0, i => i
  | n + 1, i => if data i ≠ newline then lineEnd data n (i + 1) else i

/-- The search loop: whether it prints the line. -/
def found (s : List UInt8) (data : ℕ → UInt8) (lineStart lineEnd : ℕ) : Bool :=
  (List.range' lineStart (lineEnd - lineStart)).any fun check =>
    byteAt s 0 = data check ∧
      ece391Strncmp (fun j => data (check + j)) (byteAt s) (strlen s) 0 = 0

/-- `data` and `last` of `do_one_file`, and the program. -/
structure State where
  data : ℕ → UInt8
  last : ℕ
  program : UserTask

end Grep

end HalOs
