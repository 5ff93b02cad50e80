import HalOs.Model.Line
import HalOs.Model.Paging

/-!
# Stores through the caller's pointers

`read`, `getargs` and `vidmap` store through a pointer of their caller. Of these only `vidmap`
looks at the pointer first. A store to an address that is not mapped counts as a store here; it
ends in a page fault.
-/

namespace HalOs

abbrev addr128mb : ℕ := 0x8000000

/-- The first address past the user page. -/
abbrev userPageEnd : ℕ := addr128mb + fourMb.toNat

/-! ### `vidmap` -/

/-- Where user programs find the video memory. -/
def vidmapPointer : UInt32 :=
  UInt32.ofNat (vidmapVmemLoc * fourMb.toNat + vidmapVmemLocPage * align4kb)

/-- `vidmap`. -/
def vidmap (screenStart : UInt32) : Transfer :=
  if screenStart = 0 then ⟨-1, screenStart.toNat, []⟩
  else if screenStart.toNat < addr128mb ∨ userPageEnd < screenStart.toNat then
    ⟨-1, screenStart.toNat, []⟩
  else
    ⟨0, screenStart.toNat,
      (List.range 4).map fun i => UInt8.ofNat (vidmapPointer.toNat >>> (i * 8))⟩

/-! ### `read` by any parameter list -/

/-- The first parameter of a handler. -/
def ReadArgs.first : ReadArgs → ℕ
  | .device fd => (fd % 2 ^ 32).toNat
  | .directory position => position.toNat
  | .file inode _ => inode.toNat

namespace ReadCall

/-- What a handler takes for its buffer: the handler for files the third of four parameters,
the others the second of three. -/
def bufferTaken (c : ReadCall) : OpTable → ReadArgs → ℕ
  | .file, .file _ _ => c.buf.toNat
  | .file, _ => (c.nbytes % 2 ^ 32).toNat
  | _, .file _ position => position.toNat
  | _, _ => c.buf.toNat

/-- The value a handler returns and the bytes it stores, with a terminal whose line is `l` and
memory that held `old` at the buffer. -/
def delivers (img : Image) (l : Line) (old : ℕ → UInt8) (c : ReadCall) :
    OpTable → ReadArgs → ℤ × List UInt8
  | .terminal, _ => (l.bytesTaken.length, l.bytesTaken)
  | .rtc, _ => (0, [])
  | .directory, args => directoryStores img args.first old
  | .file, .file inode position =>
    readData img inode.toNat position.toNat (c.nbytes % 2 ^ 32).toNat
  | .file, .device fd => readData img (ReadArgs.device fd).first c.buf.toNat c.stack.toNat
  | .file, .directory position =>
    readData img (ReadArgs.directory position).first c.buf.toNat c.stack.toNat

def handlerTransfer (img : Image) (l : Line) (old : ℕ → UInt8) (c : ReadCall) (table : OpTable)
    (args : ReadArgs) : Transfer :=
  let r := c.delivers img l old table args
  ⟨r.1, c.bufferTaken table args, r.2⟩

end ReadCall

/-! ### The three calls -/

/-- What a call that stores works on: the mounted image, the kernel, the caller's descriptors,
the line of its terminal once a read of it ends, and the memory at the buffer. -/
structure CallContext where
  img : Image
  kernel : Kernel
  fds : FdTable
  line : Line
  old : ℕ → UInt8

inductive PointerCall where
  | read (c : ReadCall)
  | getargs (buf : UInt32) (nbytes : ℤ)
  | vidmap (screenStart : UInt32)

/-- The value returned and the bytes stored. -/
def PointerCall.outcome (s : CallContext) : PointerCall → Option Transfer
  | .read c =>
    match c.entry s.fds with
    | none => some ⟨-1, c.buf.toNat, []⟩
    | some i => (s.fds i).fileOpTablePtr.map fun table =>
      match readDispatch s.img s.fds i with
      | none => ⟨-1, c.buf.toNat, []⟩
      | some (args, _) => c.handlerTransfer s.img s.line s.old table args
  | .getargs buf nbytes =>
    (s.kernel.getargs buf nbytes).map fun r => ⟨r.1, buf.toNat, r.2⟩
  | .vidmap screenStart => some (HalOs.vidmap screenStart)

end HalOs
