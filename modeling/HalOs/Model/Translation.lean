import HalOs.Model.Paging

/-!
# Address translation

The walk the processor makes from `directoryArray` to a physical address, with 4 MB pages
enabled, and the assignments to page entries that follow `init_paging`. The translation
lookaside buffer is not modelled.
-/

namespace HalOs

abbrev pageVec : ℕ := 1024
abbrev largePage : ℕ := 0x400000

inductive Mode where
  | supervisor
  | user
  deriving DecidableEq, Repr

/-- Whether an entry with the given user bit can be used. -/
def Mode.allows (mode : Mode) (userSupervisor : Bool) : Prop :=
  mode = .supervisor ∨ userSupervisor = true

instance (mode : Mode) (b : Bool) : Decidable (mode.allows b) := by
  unfold Mode.allows
  infer_instance

/-- The linker puts the two tables into different frames of the kernel's 4 MB. -/
structure TableFrames.Linked (frames : TableFrames) : Prop where
  table : dir1Page ≤ frames.tableArray ∧ frames.tableArray < 2 * dir1Page
  vmemTable : dir1Page ≤ frames.vmemTableArray ∧ frames.vmemTableArray < 2 * dir1Page
  distinct : frames.tableArray ≠ frames.vmemTableArray

namespace Paging

/-- The page table found at a frame; frames other than those of the two arrays hold `other`. -/
def tableAt (frames : TableFrames) (other : ℕ → ℕ → PtbleEntry) (p : Paging) (frame : ℕ) :
    ℕ → PtbleEntry :=
  if frame = frames.tableArray then p.tableArray
  else if frame = frames.vmemTableArray then p.vmemTableArray
  else other frame

/-- The physical address of a virtual one, or `none` for a page fault. The low ten bits of the
frame of a 4 MB page are reserved. -/
def translate (frames : TableFrames) (other : ℕ → ℕ → PtbleEntry) (p : Paging) (mode : Mode)
    (va : UInt32) : Option ℕ :=
  let pde := p.directoryArray (va.toNat / largePage)
  if pde.present ∧ mode.allows pde.userSupervisor then
    if pde.pageSize then
      if pde.offset_31_12 % pageVec = 0 then
        some (pde.offset_31_12 * align4kb + va.toNat % largePage)
      else none
    else
      let pte := p.tableAt frames other pde.offset_31_12 (va.toNat / align4kb % pageVec)
      if pte.present ∧ mode.allows pte.userSupervisor then
        some (pte.offset_31_12 * align4kb + va.toNat % align4kb)
      else none
  else none

end Paging

/-! ### Later assignments -/

/-- The pages the two video entries are pointed at. -/
inductive ScreenPage where
  | screen
  | backing (t : Fin 3)
  deriving DecidableEq, Repr

def ScreenPage.address : ScreenPage → ℕ
  | .screen => video
  | .backing t => terminalVideo + align4kb * t.val

/-- One assignment to a page entry: the program page of a process, by `execute`, `halt` and
`scheduler`, or one of the video entries, by `scheduler`, `terminal_switch`, Backspace and
Ctrl-L. -/
inductive PageUpdate where
  | program (pid : Fin 6)
  | console (s : ScreenPage)
  | vidmap (s : ScreenPage)
  deriving DecidableEq, Repr

def PageUpdate.apply (p : Paging) : PageUpdate → Paging
  | .program pid => p.mapUser pid.val
  | .console s => { p with
      tableArray := Function.update p.tableArray videoMemoryPage
        { p.tableArray videoMemoryPage with offset_31_12 := offsetField (s.address / align4kb) } }
  | .vidmap s => { p with
      vmemTableArray := Function.update p.vmemTableArray vidmapVmemLocPage
        { p.vmemTableArray vidmapVmemLocPage with
            offset_31_12 := offsetField (s.address / align4kb) } }

lemma PageUpdate.apply_video (p : Paging) (s : ScreenPage) :
    [PageUpdate.console s, .vidmap s].foldl PageUpdate.apply p = p.mapVideo s.address := rfl

end HalOs
