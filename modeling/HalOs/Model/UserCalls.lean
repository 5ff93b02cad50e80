import HalOs.Model.Process

/-!
# System calls with their pointers

`read` stores through a pointer it does not check, so its bytes can land anywhere that is
mapped, the descriptor table of the caller included. It also casts the handler of a regular
file to the parameter list of a device or a directory when the inode number is shared; the
handler then takes the buffer for an offset, the byte count for a buffer and a word of the
stack for a count.
-/

namespace HalOs

/-- Where a read handler's bytes go, and the value it returns. -/
structure Transfer where
  value : ℤ
  address : ℕ
  bytes : List UInt8

/-- The byte a transfer leaves at an address, if it stores one there. -/
def Transfer.byteStored (t : Transfer) (a : ℕ) : Option UInt8 :=
  t.bytes[(a + 2 ^ 32 - t.address) % 2 ^ 32]?

/-- Where the descriptor table of a process lies, and where the op tables do. -/
structure TableLayout where
  pid : Fin 6
  opTable : OpTable → UInt32

namespace TableLayout

/-- `get_pcb_ptr`: the descriptor table comes first in the PCB. -/
def base (lay : TableLayout) : ℕ := 0x800000 - 0x2000 * (lay.pid.val + 1)

/-- The four words of a table entry. -/
def word (lay : TableLayout) (e : FdElement) : ℕ → UInt32
  | 0 => (e.fileOpTablePtr.map lay.opTable).getD 0
  | 1 => e.inodeNum
  | 2 => e.filePosition
  | _ => e.flags

/-- Byte `j` of a descriptor table. -/
def tableByte (lay : TableLayout) (fds : FdTable) (j : ℕ) : UInt8 :=
  UInt8.ofNat ((lay.word (fds (Fin.ofNat 8 (j / 16))) (j / 4 % 4)).toNat >>> (j % 4 * 8))

/-- The word at offset `j` of a descriptor table. -/
def loadWord (byte : ℕ → UInt8) (j : ℕ) : UInt32 :=
  (List.range 4).foldl (fun w i => w ||| (byte (j + i)).toUInt32 <<< (i * 8).toUInt32) 0

/-- The table its bytes represent; a pointer to none of the op tables counts as null. -/
def decode (lay : TableLayout) (byte : ℕ → UInt8) : FdTable := fun i =>
  let j := i.val * 16
  { fileOpTablePtr := [OpTable.terminal, .rtc, .directory, .file].find? fun table =>
      lay.opTable table = loadWord byte j
    inodeNum := loadWord byte (j + 4)
    filePosition := loadWord byte (j + 8)
    flags := loadWord byte (j + 12) }

/-- Whether a transfer stores a byte in the table. -/
def hits (lay : TableLayout) (t : Transfer) : Bool :=
  (List.range 128).any fun j => (t.byteStored (lay.base + j)).isSome

/-- The table after a transfer. -/
def after (lay : TableLayout) (t : Transfer) (fds : FdTable) : FdTable :=
  if lay.hits t then
    lay.decode fun j => (t.byteStored (lay.base + j)).getD (lay.tableByte fds j)
  else fds

end TableLayout

/-- The arguments of `read`, and what the call gets from outside: the devices, and the word
the stack holds above the arguments of a handler. -/
structure ReadCall where
  fd : ℤ
  buf : UInt32
  nbytes : ℤ
  dev : Device
  stack : UInt32

/-- `file_read` called with three parameters, the first of them `first`. -/
def ReadCall.miscast (img : Image) (c : ReadCall) (first : ℕ) : Transfer :=
  let r := readData img first c.buf.toNat c.stack.toNat
  ⟨r.1, (c.nbytes % 2 ^ 32).toNat, r.2⟩

/-- A call of the read entry of an op table. -/
def ReadCall.transfer (img : Image) (c : ReadCall) : OpTable → ReadArgs → Option Transfer
  | .file, .device fd => some (c.miscast img (fd % 2 ^ 32).toNat)
  | .file, .directory position => some (c.miscast img position.toNat)
  | table, args => (callRead img c.dev c.nbytes table args).map fun r => ⟨r.1, c.buf.toNat, r.2⟩

/-- The parameter list `read` calls the handler of entry `i` with, and what the position of the
entry grows by for a value returned; `none` when no dentry has the inode. -/
def readDispatch (img : Image) (fds : FdTable) (i : Fin 8) : Option (ReadArgs × (ℤ → UInt32)) :=
  if i = 0 then some (.device i.val, fun _ => 0)
  else
    ((findDentryByInodeNum img (fds i).inodeNum).bind (readDentryByIndex img)).map fun d =>
      if d.fileType = rtcFileType then (.device i.val, fun _ => 0)
      else if d.fileType = directoryFileType then
        (.directory (fds i).filePosition, fun _ => 1)
      else (.file (fds i).inodeNum (fds i).filePosition, UInt32.ofInt)

/-- The entry `read` works on, once the descriptor has passed its checks. -/
def ReadCall.entry (c : ReadCall) (fds : FdTable) : Option (Fin 8) :=
  (fdIndex c.fd).filter fun i => (fds i).flags = 1 ∧ i ≠ 1

/-- `read`: value returned and descriptor table after the call. -/
def ReadCall.run (img : Image) (lay : TableLayout) (c : ReadCall) (fds : FdTable) :
    Option (ℤ × FdTable) :=
  match c.entry fds with
  | none => some (-1, fds)
  | some i =>
    (fds i).fileOpTablePtr.bind fun table =>
      match readDispatch img fds i with
      | none => some (-1, fds)
      | some (args, advance) => (c.transfer img table args).map fun t =>
        let fds := lay.after t fds
        (t.value, Function.update fds i
          { fds i with filePosition := (fds i).filePosition + advance t.value })

/-- The transfer the call makes, if it makes one. -/
def ReadCall.stored (img : Image) (c : ReadCall) (fds : FdTable) : Option Transfer :=
  (c.entry fds).bind fun i =>
    (fds i).fileOpTablePtr.bind fun table =>
      (readDispatch img fds i).bind fun d => c.transfer img table d.1

inductive UserCall where
  | read (c : ReadCall)
  | write (fd : ℤ) (dev : Device)
  | opens (filename : List UInt8)
  | close (fd : ℤ)

/-- One call: value returned and table after it. -/
def userCall (img : Image) (lay : TableLayout) (fds : FdTable) : UserCall → Option (ℤ × FdTable)
  | .read c => c.run img lay fds
  | .write fd dev => some (sysWrite dev fds fd, fds)
  | .opens filename => sysOpen img fds filename
  | .close fd => some (sysClose fds fd)

def userStep (img : Image) (lay : TableLayout) (fds : FdTable) (call : UserCall) :
    Option FdTable :=
  (userCall img lay fds call).map Prod.snd

/-- The descriptor table of a new process. -/
def newTable : FdTable := Activation.stdioTable fun _ => emptyFd

/-- The bytes `strncpy` stores from the start of its destination. -/
def strncpy (src : ℕ → UInt8) (n : ℕ) : List UInt8 :=
  let s := cString ((List.range n).map src)
  s ++ List.replicate (n - s.length) 0

/-- `directory_read`: value returned and bytes stored from the start of the buffer, which held
`old`. A name that fills its field ends at the NUL found there, or at one stored behind it. -/
def directoryStores (img : Image) (fileIndex : ℕ) (old : ℕ → UInt8) : ℤ × List UInt8 :=
  if img.numDentries.toNat ≤ fileIndex then (0, [])
  else
    match readDentryByIndex img fileIndex with
    | none => (-1, [])
    | some d =>
      let bytes := strncpy d.nameByte maxFilenameSize
      if d.name.length = maxFilenameSize ∧ old maxFilenameSize ≠ 0 then
        (maxFilenameSize, bytes ++ [0])
      else (d.name.length, bytes)

/-- `getargs`: value returned and bytes stored from the start of the buffer, which does not overlap
the argument it is copied from. -/
def Kernel.getargs (buf : UInt32) (nbytes : ℤ) (k : Kernel) : Option (ℤ × List UInt8) :=
  if buf = 0 ∨ nbytes ≤ 0 then some (-1, [])
  else k.currentPcb.map fun p => (0, strncpy (k.pcbs p).arg nbytes.toNat)

end HalOs
