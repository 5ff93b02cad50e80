import HalOs.General.Loops

/-!
# Page tables and physical memory

The page directory, the two page tables and `init_paging`, with every bit field of the
entries, and the physical memory they map. Loads of CR3 have no counterpart: translation
always follows the entries as they stand.
-/

namespace HalOs

/-! ### Constants of the paging header -/

abbrev video : ℕ := 0xB8000
abbrev terminalVideo : ℕ := 0xBA000
abbrev align4kb : ℕ := 4096
abbrev videoMemoryPage : ℕ := 184
abbrev terminalVidPage : ℕ := 186
abbrev userSpaceDirNum : ℕ := 32
abbrev vidmapVmemLoc : ℕ := 35
abbrev vidmapVmemLocPage : ℕ := 10
abbrev dir1Page : ℕ := 0x400
abbrev eightMb : ℤ := 0x800000
abbrev fourMb : ℤ := 0x400000
abbrev eightKb : ℤ := 0x2000

/-! ### Entries -/

structure PdirEntry where
  present : Bool
  readWrite : Bool
  userSupervisor : Bool
  writeThrough : Bool
  cacheDisable : Bool
  accessed : Bool
  avl : Bool
  pageSize : Bool
  available : ℕ
  offset_31_12 : ℕ
  deriving DecidableEq, Repr

structure PtbleEntry where
  present : Bool
  readWrite : Bool
  userSupervisor : Bool
  writeThrough : Bool
  cacheDisable : Bool
  accessed : Bool
  dirty : Bool
  pageAttributeTable : Bool
  global : Bool
  available : ℕ
  offset_31_12 : ℕ
  deriving DecidableEq, Repr

structure Paging where
  directoryArray : ℕ → PdirEntry
  tableArray : ℕ → PtbleEntry
  vmemTableArray : ℕ → PtbleEntry

/-- The value a 20-bit `offset_31_12` field holds after an assignment. -/
def offsetField (frame : ℕ) : ℕ := frame % 2 ^ 20

lemma offsetField_of_lt {frame : ℕ} (h : frame < 2 ^ 20) : offsetField frame = frame :=
  Nat.mod_eq_of_lt h

/-- `get_phys_addr`: the frame number of a process's 4 MB page. -/
def getPhysAddr (pid : ℤ) : ℕ := ((eightMb + fourMb * pid) / align4kb % 2 ^ 32).toNat

/-- The frames the linker gives to `tableArray` and `vmemTableArray`. -/
structure TableFrames where
  tableArray : ℕ
  vmemTableArray : ℕ

def emptyPdir : PdirEntry where
  present := false
  readWrite := true
  userSupervisor := false
  writeThrough := false
  cacheDisable := false
  accessed := false
  avl := false
  pageSize := false
  available := 0
  offset_31_12 := 0

def emptyPtble : PtbleEntry where
  present := false
  readWrite := true
  userSupervisor := false
  writeThrough := false
  cacheDisable := false
  accessed := false
  dirty := false
  pageAttributeTable := false
  global := false
  available := 0
  offset_31_12 := 0

def initPaging (frames : TableFrames) : Paging where
  directoryArray :=
    Function.update (Function.update (Function.update (Function.update (fun _ => emptyPdir)
      0 { emptyPdir with present := true, offset_31_12 := offsetField frames.tableArray })
      1 { emptyPdir with
            present := true, avl := true, pageSize := true, offset_31_12 := offsetField dir1Page })
      userSpaceDirNum { emptyPdir with
            present := true, userSupervisor := true, pageSize := true,
            offset_31_12 := offsetField (getPhysAddr 0) })
      vidmapVmemLoc { emptyPdir with
            present := true, userSupervisor := true,
            offset_31_12 := offsetField frames.vmemTableArray }
  tableArray := fun i =>
    if terminalVidPage ≤ i ∧ i < terminalVidPage + 3 then
      { emptyPtble with
          present := true
          offset_31_12 :=
            offsetField ((terminalVideo + (i - terminalVidPage) * align4kb) / align4kb) }
    else if i = videoMemoryPage then
      { emptyPtble with present := true, offset_31_12 := offsetField (video / align4kb) }
    else emptyPtble
  vmemTableArray :=
    Function.update (fun _ => emptyPtble) vidmapVmemLocPage
      { emptyPtble with
          present := true, userSupervisor := true,
          offset_31_12 := offsetField (video / align4kb) }

namespace Paging

/-- Points the kernel's video page at the page that starts at `addr`. -/
def mapTable (addr : ℕ) (p : Paging) : Paging :=
  { p with
    tableArray := Function.update p.tableArray videoMemoryPage
      { p.tableArray videoMemoryPage with offset_31_12 := offsetField (addr / align4kb) } }

/-- Points the `vidmap` page at the page that starts at `addr`. -/
def mapVmem (addr : ℕ) (p : Paging) : Paging :=
  { p with
    vmemTableArray := Function.update p.vmemTableArray vidmapVmemLocPage
      { p.vmemTableArray vidmapVmemLocPage with offset_31_12 := offsetField (addr / align4kb) } }

/-- Points the kernel's video page and the `vidmap` page at the page that starts at `addr`. -/
def mapVideo (addr : ℕ) (p : Paging) : Paging where
  directoryArray := p.directoryArray
  tableArray := Function.update p.tableArray videoMemoryPage
    { p.tableArray videoMemoryPage with offset_31_12 := offsetField (addr / align4kb) }
  vmemTableArray := Function.update p.vmemTableArray vidmapVmemLocPage
    { p.vmemTableArray vidmapVmemLocPage with offset_31_12 := offsetField (addr / align4kb) }

lemma mapVideo_eq (addr : ℕ) (p : Paging) : p.mapVideo addr = (p.mapTable addr).mapVmem addr := rfl

/-- Points the user program page at the frame of a process. -/
def mapUser (pid : ℤ) (p : Paging) : Paging :=
  { p with
    directoryArray := Function.update p.directoryArray userSpaceDirNum
      { p.directoryArray userSpaceDirNum with offset_31_12 := offsetField (getPhysAddr pid) } }

def videoFrame (p : Paging) : ℕ := (p.tableArray videoMemoryPage).offset_31_12

def vidmapFrame (p : Paging) : ℕ := (p.vmemTableArray vidmapVmemLocPage).offset_31_12

def backingFrame (p : Paging) (t : Fin 3) : ℕ :=
  (p.tableArray (terminalVidPage + t.val)).offset_31_12

def userFrame (p : Paging) : ℕ := (p.directoryArray userSpaceDirNum).offset_31_12

section Frames

variable (p : Paging) (addr : ℕ) (pid : ℤ) (t : Fin 3)

@[simp] lemma videoFrame_mapVideo :
    (p.mapVideo addr).videoFrame = offsetField (addr / align4kb) := by
  simp [videoFrame, mapVideo]

@[simp] lemma vidmapFrame_mapVideo :
    (p.mapVideo addr).vidmapFrame = offsetField (addr / align4kb) := by
  simp [vidmapFrame, mapVideo]

@[simp] lemma videoFrame_mapTable :
    (p.mapTable addr).videoFrame = offsetField (addr / align4kb) := by
  simp [videoFrame, mapTable]

@[simp] lemma vidmapFrame_mapVmem :
    (p.mapVmem addr).vidmapFrame = offsetField (addr / align4kb) := by
  simp [vidmapFrame, mapVmem]

@[simp] lemma userFrame_mapVideo : (p.mapVideo addr).userFrame = p.userFrame := rfl

@[simp] lemma backingFrame_mapTable : (p.mapTable addr).backingFrame t = p.backingFrame t := by
  have h : terminalVidPage + t.val ≠ videoMemoryPage := by
    simp only [terminalVidPage, videoMemoryPage]
    omega
  simp only [backingFrame, mapTable, Function.update_of_ne h]

@[simp] lemma backingFrame_mapVideo : (p.mapVideo addr).backingFrame t = p.backingFrame t :=
  backingFrame_mapTable p addr t

@[simp] lemma videoFrame_mapUser : (p.mapUser pid).videoFrame = p.videoFrame := rfl

@[simp] lemma vidmapFrame_mapUser : (p.mapUser pid).vidmapFrame = p.vidmapFrame := rfl

@[simp] lemma backingFrame_mapUser : (p.mapUser pid).backingFrame t = p.backingFrame t := rfl

@[simp] lemma userFrame_mapUser :
    (p.mapUser pid).userFrame = offsetField (getPhysAddr pid) := by
  simp [userFrame, mapUser]

end Frames

end Paging

/-! ### Physical memory -/

abbrev Memory := ℕ → UInt8

/-- Copies one page of physical memory onto another, as `memcpy` does with page-aligned
arguments and `ALIGN_4KB` bytes. -/
def Memory.copyPage (mem : Memory) (dest src : ℕ) : Memory := fun a =>
  if a / align4kb = dest then mem (src * align4kb + a % align4kb) else mem a

def Memory.page (mem : Memory) (frame : ℕ) : ℕ → UInt8 := fun off =>
  mem (frame * align4kb + off % align4kb)

def Memory.setPage (mem : Memory) (frame : ℕ) (bytes : ℕ → UInt8) : Memory := fun a =>
  if a / align4kb = frame then bytes (a % align4kb) else mem a

section Pages

variable (mem : Memory) (dest src frame : ℕ) (bytes : ℕ → UInt8)

lemma page_frame (off : ℕ) : (frame * align4kb + off % align4kb) / align4kb = frame := by
  simp only [align4kb]
  omega

lemma page_offset (off : ℕ) :
    (frame * align4kb + off % align4kb) % align4kb = off % align4kb := by
  simp only [align4kb]
  omega

@[simp] lemma Memory.page_copyPage_self : (mem.copyPage dest src).page dest = mem.page src := by
  funext off
  simp only [Memory.page, Memory.copyPage, page_frame, page_offset, if_true]

lemma Memory.page_copyPage_of_ne (h : frame ≠ dest) :
    (mem.copyPage dest src).page frame = mem.page frame := by
  funext off
  simp only [Memory.page, Memory.copyPage, page_frame, if_neg h]

lemma Memory.page_setPage_self :
    (mem.setPage frame bytes).page frame = fun off => bytes (off % align4kb) := by
  funext off
  simp only [Memory.page, Memory.setPage, page_frame, page_offset, if_true]

lemma Memory.page_setPage_of_ne (h : frame ≠ dest) :
    (mem.setPage dest bytes).page frame = mem.page frame := by
  funext off
  simp only [Memory.page, Memory.setPage, page_frame, if_neg h]

end Pages

end HalOs
