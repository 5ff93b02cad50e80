import HalOs.General.Scans
import HalOs.Model.Filesystem

/-!
# The file system routines, cell by cell

The loops of the routines with their counters at the widths the code gives them, their
out-parameters, and a record of every cell of the image they read. None of the image's own
numbers is checked when it is mounted.
-/

namespace HalOs

/-- A cell of the mounted image. -/
inductive Cell where
  | dentry (i : ℕ)
  | inode (i : ℕ)
  | blockNumber (inode j : ℕ)
  | dataBlock (i : ℕ)
  deriving DecidableEq, Repr

/-- The arrays as they are declared, and the two whose lengths the boot block gives. -/
def Image.Has (img : Image) : Cell → Prop
  | .dentry i => i < maxNumDentries
  | .inode i => i < img.numInodes.toNat
  | .blockNumber i j => i < img.numInodes.toNat ∧ j < maxDataBlocks
  | .dataBlock i => i < img.numDataBlocks.toNat

instance (img : Image) : DecidablePred img.Has
  | .dentry i => inferInstanceAs (Decidable (i < maxNumDentries))
  | .inode i => inferInstanceAs (Decidable (i < img.numInodes.toNat))
  | .blockNumber i j => inferInstanceAs (Decidable (i < img.numInodes.toNat ∧ j < maxDataBlocks))
  | .dataBlock i => inferInstanceAs (Decidable (i < img.numDataBlocks.toNat))

/-- The value returned, what the out-parameter then holds, and the cells read. -/
structure Outcome (α : Type) where
  value : ℤ
  out : α
  cells : List Cell

namespace Cells

/-- The entry an 8-bit counter looks at, if it has the name. -/
def named (img : Image) (fname : List UInt8) (i : ℕ) : Option Dentry :=
  if nameMatches fname (img.bootDentries i) then some (img.bootDentries i) else none

/-- `read_dentry_by_name`. -/
def readDentryByName (img : Image) (fname : List UInt8) (dentry : Dentry) (fuel : ℕ) :
    Option (Outcome Dentry) :=
  if maxFilenameSize < strlen fname then some ⟨-1, dentry, []⟩
  else (Loops.scan 256 img.numDentries.toNat (named img fname) fuel).map fun c =>
    ⟨if c.found.isSome then 0 else -1, c.found.getD dentry, c.visited.map Cell.dentry⟩

/-- `read_dentry_by_index`. -/
def readDentryByIndex (img : Image) (index : UInt32) (dentry : Dentry) : Outcome Dentry :=
  if img.numDentries < index then ⟨-1, dentry, []⟩
  else ⟨0, img.bootDentries index.toNat, [.dentry index.toNat]⟩

/-- The entry a 32-bit counter looks at, if it has the inode. -/
def withInode (img : Image) (inodeNum : UInt32) (i : ℕ) : Option ℕ :=
  if (img.bootDentries i).inodeNumber = inodeNum then some i else none

/-- `find_dentry_by_inode_num`. -/
def findDentryByInodeNum (img : Image) (inodeNum : UInt32) (fuel : ℕ) : Option (Outcome Unit) :=
  (Loops.scan (2 ^ 32) img.numDentries.toNat (withInode img inodeNum) fuel).map fun c =>
    ⟨(c.found.map asInt32).getD (-1), (), c.visited.map Cell.dentry⟩

/-- `read_data` between two rounds of its loop. -/
structure Reading where
  currentByteIndex : ℕ
  i : ℕ
  numBytesCopied : ℕ
  buf : ℕ → UInt8
  ret : Option ℤ
  cells : List Cell

def Reading.Going (bound : ℕ) (s : Reading) : Prop :=
  s.ret.isNone = true ∧ s.currentByteIndex < bound

instance (bound : ℕ) : DecidablePred (Reading.Going bound) := fun s =>
  inferInstanceAs (Decidable (s.ret.isNone = true ∧ s.currentByteIndex < bound))

/-- One round: the end of the file is tested for before a byte is copied. -/
def Reading.round (img : Image) (inode offset : ℕ) (s : Reading) : Reading :=
  let cur := s.currentByteIndex
  if cur = (img.inodes inode).numBytes.toNat then
    { s with ret := some (asInt32 (cur - offset)), cells := .inode inode :: s.cells }
  else
    let j := cur / blockBytes
    let block := ((img.inodes inode).dataBlockNumber j).toNat
    { s with
      currentByteIndex := cur + 1
      i := s.i + 1
      numBytesCopied := s.numBytesCopied + 1
      buf := Function.update s.buf s.i (img.dataBlocks block (cur % blockBytes))
      cells := .dataBlock block :: .blockNumber inode j :: .inode inode :: s.cells }

/-- `read_data` into a buffer apart from the image. -/
def readData (img : Image) (inode offset : UInt32) (buf : ℕ → UInt8) (length : UInt32)
    (fuel : ℕ) : Option (Outcome (ℕ → UInt8)) :=
  if img.numInodes - 1 < inode then some ⟨-1, buf, []⟩
  else if (img.inodes inode.toNat).numBytes ≤ offset then some ⟨0, buf, [.inode inode.toNat]⟩
  else
    (Loops.whileLoop (Reading.Going (offset + length).toNat)
      (Reading.round img inode.toNat offset.toNat) fuel
      ⟨offset.toNat, 0, 0, buf, none, [.inode inode.toNat]⟩).map fun s =>
        ⟨s.ret.getD (asInt32 s.numBytesCopied), s.buf, s.cells⟩

end Cells

end HalOs
