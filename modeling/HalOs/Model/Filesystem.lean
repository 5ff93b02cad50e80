import HalOs.Model.Console

/-!
# The read-only file system

The boot block, inodes and data blocks of a mounted image, and the routines that look
directory entries up and read file data. Array accesses past the end of an array of the
image read whatever the total functions here give; nothing below relies on such a read.
-/

namespace HalOs

abbrev maxFilenameSize : ℕ := 32
abbrev blockBytes : ℕ := 4096
abbrev maxNumDentries : ℕ := 63
abbrev maxDataBlocks : ℕ := 1023
abbrev rtcFileType : UInt32 := 0
abbrev directoryFileType : UInt32 := 1

structure Dentry where
  fileName : Fin 32 → UInt8
  fileType : UInt32
  inodeNumber : UInt32

structure Inode where
  numBytes : UInt32
  dataBlockNumber : ℕ → UInt32

/-- A mounted image: `bootblock`, `inode_start` and `datablock_start`. -/
structure Image where
  numDentries : UInt32
  numInodes : UInt32
  numDataBlocks : UInt32
  bootDentries : ℕ → Dentry
  inodes : ℕ → Inode
  dataBlocks : ℕ → ℕ → UInt8

/-- The byte `i` places into the name field. -/
def Dentry.nameByte (d : Dentry) (i : ℕ) : UInt8 := if h : i < 32 then d.fileName ⟨i, h⟩ else 0

/-- The value an `int32_t` holds after it is assigned an unsigned number. -/
def asInt32 (n : ℕ) : ℤ := ((n : ℤ) + 2 ^ 31) % 2 ^ 32 - 2 ^ 31

lemma asInt32_of_lt {n : ℕ} (h : n < 2 ^ 31) : asInt32 n = n := by
  unfold asInt32
  omega

/-- `strncmp`, comparing signed characters. -/
def strncmp (s1 s2 : ℕ → UInt8) : ℕ → ℕ → ℤ
  | 0, _ => 0
  | n + 1, i =>
    if s1 i ≠ s2 i ∨ s1 i = 0 then (s1 i).toInt8.toInt - (s2 i).toInt8.toInt
    else strncmp s1 s2 n (i + 1)

/-- The test `read_dentry_by_name` makes of one entry. -/
def nameMatches (fname : List UInt8) (d : Dentry) : Bool :=
  strncmp (byteAt fname) d.nameByte maxFilenameSize 0 = 0

/-- `read_dentry_by_name`: `some none` for a return of -1. There is no result when the
8-bit index can never reach `numDentries` and no entry it can name matches. -/
def readDentryByName (img : Image) (fname : List UInt8) : Option (Option Dentry) :=
  if maxFilenameSize < strlen fname then some none
  else
    match (List.range (min img.numDentries.toNat 256)).find?
        fun i => nameMatches fname (img.bootDentries i) with
    | some i => some (some (img.bootDentries i))
    | none => if img.numDentries.toNat < 256 then some none else none

/-- `read_dentry_by_index`; `none` for a return of -1. -/
def readDentryByIndex (img : Image) (index : ℕ) : Option Dentry :=
  if img.numDentries.toNat < index then none else some (img.bootDentries index)

/-- `find_dentry_by_inode_num`; `none` for a return of -1. -/
def findDentryByInodeNum (img : Image) (inodeNum : UInt32) : Option ℕ :=
  (List.range img.numDentries.toNat).find? fun i => (img.bootDentries i).inodeNumber = inodeNum

/-- Byte `j` of the data of an inode. -/
def Image.fileByte (img : Image) (inode j : ℕ) : UInt8 :=
  img.dataBlocks ((img.inodes inode).dataBlockNumber (j / blockBytes)).toNat (j % blockBytes)

/-- The loop of `read_data`, with `n` bytes of the request left and the next at `cur`. -/
def readDataLoop (img : Image) (inode : ℕ) : ℕ → ℕ → List UInt8
  | 0, _ => []
  | n + 1, cur =>
    if cur = (img.inodes inode).numBytes.toNat then []
    else img.fileByte inode cur :: readDataLoop img inode n (cur + 1)

/-- `read_data`: the value returned and the bytes stored from the start of the buffer, which does
not overlap the image. The inode bound and the end of the request are computed in 32 bits. -/
def readData (img : Image) (inode offset length : ℕ) : ℤ × List UInt8 :=
  if (img.numInodes.toNat + (2 ^ 32 - 1)) % 2 ^ 32 < inode then (-1, [])
  else if (img.inodes inode).numBytes.toNat ≤ offset then (0, [])
  else
    let bytes := readDataLoop img inode ((offset + length) % 2 ^ 32 - offset) offset
    (asInt32 bytes.length, bytes)

/-- The name in a directory entry, up to its first NUL or all of the field. -/
def Dentry.name (d : Dentry) : List UInt8 := cString ((List.range 32).map d.nameByte)

/-- `directory_read`: the value returned and the bytes the buffer then starts with. A name
that fills its field is followed by a NUL, stored or found there. -/
def directoryRead (img : Image) (fileIndex : ℕ) : ℤ × List UInt8 :=
  if img.numDentries.toNat ≤ fileIndex then (0, [])
  else
    match readDentryByIndex img fileIndex with
    | none => (-1, [])
    | some d =>
      (d.name.length, d.name ++ List.replicate (max 1 (maxFilenameSize - d.name.length)) 0)

end HalOs
