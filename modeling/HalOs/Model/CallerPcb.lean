import HalOs.Model.Pointers

/-!
# The caller's PCB

The system calls on descriptors and `getargs` with all they can change of the PCB of their
caller: the fields they assign, and the bytes a handler stores through the caller's pointer,
which may point into the PCB itself.
-/

namespace HalOs

/-- The descriptor table of a process, and the bytes from the end of the table on. -/
structure CallerPcb where
  fds : FdTable
  rest : ℕ → UInt8

/-- `arg` comes after the table and five words. -/
def CallerPcb.arg (p : CallerPcb) (i : ℕ) : UInt8 := p.rest (20 + i)

/-- The PCB after the stores of a transfer. -/
def TableLayout.pcbAfter (lay : TableLayout) (t : Transfer) (p : CallerPcb) : CallerPcb where
  fds := lay.after t p.fds
  rest j := (t.byteStored (lay.base + 128 + j)).getD (p.rest j)

/-- The calls with their arguments. A read comes with the line of the terminal once it ends and
the memory at its buffer. -/
inductive PcbCall where
  | read (c : ReadCall) (l : Line) (old : ℕ → UInt8)
  | write (fd : ℤ) (dev : Device)
  | opens (filename : List UInt8)
  | close (fd : ℤ)
  | getargs (buf : UInt32) (nbytes : ℤ)

/-- `getargs` of a process with the argument bytes `arg`. -/
def getargsStores (arg : ℕ → UInt8) (buf : UInt32) (nbytes : ℤ) : ℤ × List UInt8 :=
  if buf = 0 ∨ nbytes ≤ 0 then (-1, []) else (0, strncpy arg nbytes.toNat)

/-- `read`: the stores with the value returned, and the PCB after the call. -/
def ReadCall.runPcb (img : Image) (lay : TableLayout) (l : Line) (old : ℕ → UInt8)
    (p : CallerPcb) (c : ReadCall) : Option (Transfer × CallerPcb) :=
  match c.entry p.fds with
  | none => some (⟨-1, c.buf.toNat, []⟩, p)
  | some i => (p.fds i).fileOpTablePtr.map fun table =>
    match readDispatch img p.fds i with
    | none => (⟨-1, c.buf.toNat, []⟩, p)
    | some (args, advance) =>
      let t := c.handlerTransfer img l old table args
      let p := lay.pcbAfter t p
      (t, { p with
        fds := Function.update p.fds i
          { p.fds i with filePosition := (p.fds i).filePosition + advance t.value } })

/-- One call: its stores with the value returned, and the PCB after it. -/
def PcbCall.run (img : Image) (lay : TableLayout) (p : CallerPcb) :
    PcbCall → Option (Transfer × CallerPcb)
  | .read c l old => c.runPcb img lay l old p
  | .write fd dev => some (⟨sysWrite dev p.fds fd, 0, []⟩, p)
  | .opens filename => (sysOpen img p.fds filename).map fun r => (⟨r.1, 0, []⟩, { p with fds := r.2 })
  | .close fd => some (⟨(sysClose p.fds fd).1, 0, []⟩, { p with fds := (sysClose p.fds fd).2 })
  | .getargs buf nbytes =>
    let r := getargsStores p.arg buf nbytes
    let t := ⟨r.1, buf.toNat, r.2⟩
    some (t, lay.pcbAfter t p)

end HalOs
