import HalOs.Model.Kernel

/-!
# File descriptors

The system calls `open`, `close`, `read` and `write` as they act on the descriptor table of
the running process. What a device handler gives back comes from outside, as `Device`. The
code casts the entry of an op table to the parameter list it expects from the file type, so
a handler can be called with another handler's arguments; such a call has a result here
when the handler ignores or tolerates them, and none otherwise.
-/

namespace HalOs

/-- What the terminal and RTC handlers do in one call: the value returned and, for a read,
the bytes stored from the start of the buffer. -/
structure Device where
  terminalRead : ℤ × List UInt8
  terminalWrite : ℤ
  rtcWrite : ℤ

/-- The parameter lists `read` casts a handler to. -/
inductive ReadArgs where
  | device (fd : ℤ)
  | directory (position : UInt32)
  | file (inode position : UInt32)

/-- A call of the read entry of an op table with the given parameter list. The RTC handler
looks at none of its arguments; the directory handler called for a file takes the inode as
its index and the position as its buffer, which is harmless only past the last entry. -/
def callRead (img : Image) (dev : Device) (nbytes : ℤ) : OpTable → ReadArgs → Option (ℤ × List UInt8)
  | .rtc, _ => some (0, [])
  | .terminal, .device _ => some dev.terminalRead
  | .directory, .device fd => some (directoryRead img (fd % 2 ^ 32).toNat)
  | .directory, .directory position => some (directoryRead img position.toNat)
  | .directory, .file inode _ => if img.numDentries ≤ inode then some (0, []) else none
  | .file, .file inode position =>
    some (readData img inode.toNat position.toNat (nbytes % 2 ^ 32).toNat)
  | _, _ => none

/-- The table entry a descriptor number names, if it is one. -/
def fdIndex (fd : ℤ) : Option (Fin 8) :=
  if h : 0 ≤ fd ∧ fd < 8 then some ⟨fd.toNat, by omega⟩ else none

lemma fdIndex_self (i : Fin 8) : fdIndex i.val = some i := by
  have hlt := i.isLt
  unfold fdIndex
  rw [dif_pos (by omega)]
  congr 1

lemma fdIndex_eq {fd : ℤ} {i : Fin 8} (h : fdIndex fd = some i) : fd = i.val := by
  unfold fdIndex at h
  split at h
  · rename_i hr
    obtain rfl := Option.some.inj h
    exact (Int.toNat_of_nonneg hr.1).symm
  · exact absurd h (by simp)

/-- `read`: value returned, bytes stored and descriptor table after the call. -/
def sysRead (img : Image) (dev : Device) (fds : FdTable) (fd nbytes : ℤ) :
    Option (ℤ × List UInt8 × FdTable) :=
  match fdIndex fd with
  | none => some (-1, [], fds)
  | some i =>
    if (fds i).flags ≠ 1 then some (-1, [], fds)
    else if i = 1 then some (-1, [], fds)
    else
      (fds i).fileOpTablePtr.bind fun table =>
      if i = 0 then
        (callRead img dev nbytes table (.device fd)).map fun r => (r.1, r.2, fds)
      else
        match (findDentryByInodeNum img (fds i).inodeNum).bind (readDentryByIndex img) with
        | none => some (-1, [], fds)
        | some d =>
          if d.fileType = rtcFileType then
            (callRead img dev nbytes table (.device fd)).map fun r => (r.1, r.2, fds)
          else if d.fileType = directoryFileType then
            (callRead img dev nbytes table (.directory (fds i).filePosition)).map fun r =>
              (r.1, r.2, Function.update fds i
                { fds i with filePosition := (fds i).filePosition + 1 })
          else
            (callRead img dev nbytes table (.file (fds i).inodeNum (fds i).filePosition)).map
              fun r => (r.1, r.2, Function.update fds i
                { fds i with filePosition := (fds i).filePosition + UInt32.ofInt r.1 })

/-- `write`. -/
def sysWrite (dev : Device) (fds : FdTable) (fd : ℤ) : ℤ :=
  match fdIndex fd with
  | none => -1
  | some i =>
    if (fds i).flags ≠ 1 then -1
    else if i = 0 then -1
    else if i = 1 then dev.terminalWrite
    else if (fds i).fileOpTablePtr = some .rtc then dev.rtcWrite
    else -1

/-- The op table `open` gives to a file type. -/
def openTable (fileType : UInt32) : OpTable :=
  if fileType = rtcFileType then .rtc
  else if fileType = directoryFileType then .directory
  else .file

/-- `open`; no result when the name lookup does not return. -/
def sysOpen (img : Image) (fds : FdTable) (filename : List UInt8) : Option (ℤ × FdTable) :=
  match (List.finRange 8).find? fun i => (fds i).flags ≠ 1 with
  | none => some (-1, fds)
  | some i => (readDentryByName img filename).map fun found =>
    match found with
    | none => (-1, fds)
    | some d => (i.val, Function.update fds i
        { fileOpTablePtr := some (openTable d.fileType)
          inodeNum := d.inodeNumber
          filePosition := 0
          flags := 1 })

/-- `close`. -/
def sysClose (fds : FdTable) (fd : ℤ) : ℤ × FdTable :=
  match fdIndex fd with
  | none => (-1, fds)
  | some i =>
    if i ≤ 1 then (-1, fds)
    else if (fds i).flags ≠ 1 then (-1, fds)
    else (0, Function.update fds i emptyFd)

end HalOs
