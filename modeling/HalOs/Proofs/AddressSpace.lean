import HalOs.Model.Translation
import HalOs.Proofs.ProcessTree

/-!
# Address spaces

`init_paging` maps the kernel, the screen, the backing pages of the terminals, one program
page and the `vidmap` page. Later assignments only choose the process whose program page is
mapped and the two screen pages, so the walk gives the same partition of the 32-bit addresses
in every state, and user mode reaches the program page and the `vidmap` page alone.
-/

namespace HalOs

/-! ### The parts of an address space -/

def inProgram (va : UInt32) : Prop := 0x8000000 ≤ va.toNat ∧ va.toNat < 0x8400000

def inVidmap (va : UInt32) : Prop :=
  vidmapVmemLoc * largePage + vidmapVmemLocPage * align4kb ≤ va.toNat ∧
    va.toNat < vidmapVmemLoc * largePage + vidmapVmemLocPage * align4kb + align4kb

def inScreen (va : UInt32) : Prop := video ≤ va.toNat ∧ va.toNat < video + align4kb

def inBacking (va : UInt32) : Prop :=
  terminalVideo ≤ va.toNat ∧ va.toNat < terminalVideo + 3 * align4kb

def inKernel (va : UInt32) : Prop := largePage ≤ va.toNat ∧ va.toNat < 2 * largePage

/-- The address space of process `pid`, with the kernel's screen page and the `vidmap` page
pointed at `console` and `vidmap`. -/
structure AddressSpace (pid : Fin 6) (console vidmap : ScreenPage)
    (translate : Mode → UInt32 → Option ℕ) : Prop where
  user : ∀ va, (translate .user va).isSome ↔ inProgram va ∨ inVidmap va
  supervisor : ∀ va, (translate .supervisor va).isSome ↔
    inProgram va ∨ inVidmap va ∨ inScreen va ∨ inBacking va ∨ inKernel va
  programPage : ∀ mode va, inProgram va →
    translate mode va = some (0x800000 + 0x400000 * pid.val + (va.toNat - 0x8000000))
  vidmapPage : ∀ mode va, inVidmap va →
    translate mode va = some (vidmap.address + va.toNat % align4kb)
  screenPage : ∀ va, inScreen va →
    translate .supervisor va = some (console.address + va.toNat % align4kb)
  identity : ∀ va, inBacking va ∨ inKernel va → translate .supervisor va = some va.toNat

namespace Paging

variable {frames : TableFrames} {other : ℕ → ℕ → PtbleEntry} {pid : Fin 6}
  {console vidmap : ScreenPage} {mode : Mode} {va : UInt32}

/-- The entries after one assignment to each of the three that change. -/
def assigned (frames : TableFrames) (pid : Fin 6) (console vidmap : ScreenPage) : Paging :=
  [.program pid, .console console, .vidmap vidmap].foldl PageUpdate.apply (initPaging frames)

lemma initPaging_eq (frames : TableFrames) :
    initPaging frames = assigned frames 0 .screen .screen := by
  have hd := Function.update_eq_self userSpaceDirNum (initPaging frames).directoryArray
  have ht := Function.update_eq_self videoMemoryPage (initPaging frames).tableArray
  have hv := Function.update_eq_self vidmapVmemLocPage (initPaging frames).vmemTableArray
  calc initPaging frames
      = ⟨Function.update (initPaging frames).directoryArray userSpaceDirNum
            ((initPaging frames).directoryArray userSpaceDirNum),
          Function.update (initPaging frames).tableArray videoMemoryPage
            ((initPaging frames).tableArray videoMemoryPage),
          Function.update (initPaging frames).vmemTableArray vidmapVmemLocPage
            ((initPaging frames).vmemTableArray vidmapVmemLocPage)⟩ := by rw [hd, ht, hv]
    _ = assigned frames 0 .screen .screen := rfl

/-- The last assignment to an entry decides. -/
lemma apply_assigned (u : PageUpdate) : ∃ pid' console' vidmap',
    u.apply (assigned frames pid console vidmap) = assigned frames pid' console' vidmap' := by
  cases u with
  | program pid' =>
    refine ⟨pid', console, vidmap, ?_⟩
    simp [assigned, PageUpdate.apply, mapUser]
  | console s =>
    refine ⟨pid, s, vidmap, ?_⟩
    simp [assigned, PageUpdate.apply, mapUser]
  | vidmap s =>
    refine ⟨pid, console, s, ?_⟩
    simp [assigned, PageUpdate.apply, mapUser]

lemma updates_assigned (frames : TableFrames) (us : List PageUpdate) : ∃ pid console vidmap,
    us.foldl PageUpdate.apply (initPaging frames) = assigned frames pid console vidmap := by
  have h : ∀ pid console vidmap, ∃ pid' console' vidmap',
      us.foldl PageUpdate.apply (assigned frames pid console vidmap) =
        assigned frames pid' console' vidmap' := by
    induction us with
    | nil => exact fun pid console vidmap => ⟨pid, console, vidmap, rfl⟩
    | cons u us ih =>
      intro pid console vidmap
      obtain ⟨pid', console', vidmap', hu⟩ := apply_assigned u
      rw [List.foldl_cons, hu]
      exact ih pid' console' vidmap'
  rw [initPaging_eq]
  exact h 0 .screen .screen

lemma programFrame (pid : Fin 6) :
    offsetField (getPhysAddr pid.val) = 2048 + 1024 * pid.val := by
  have hp := pid.isLt
  simp only [getPhysAddr, offsetField, eightMb, fourMb, align4kb]
  omega

lemma screenFrame_address (s : ScreenPage) :
    offsetField (s.address / align4kb) * align4kb = s.address := by
  cases s with
  | screen => rfl
  | backing t =>
    have ht := t.isLt
    simp only [ScreenPage.address, offsetField, terminalVideo, align4kb]
    omega

/-! ### The walk, by directory entry -/

lemma directory_assigned (i : ℕ) : (assigned frames pid console vidmap).directoryArray i =
    if i = userSpaceDirNum then { (initPaging frames).directoryArray userSpaceDirNum with
      offset_31_12 := 2048 + 1024 * pid.val }
    else (initPaging frames).directoryArray i := by
  rw [← programFrame pid]
  by_cases hi : i = userSpaceDirNum
  · subst hi
    simp [assigned, PageUpdate.apply, mapUser]
  · simp [assigned, PageUpdate.apply, mapUser, hi]

/-- The entry of the first page table for a page that is mapped. -/
def supervisorEntry (frame : ℕ) : PtbleEntry :=
  { emptyPtble with present := true, offset_31_12 := frame }

lemma table_assigned (i : ℕ) : (assigned frames pid console vidmap).tableArray i =
    if i = videoMemoryPage then supervisorEntry (offsetField (console.address / align4kb))
    else if terminalVidPage ≤ i ∧ i < terminalVidPage + 3 then supervisorEntry i
    else emptyPtble := by
  by_cases hi : i = videoMemoryPage
  · subst hi
    have hinit : (initPaging frames).tableArray videoMemoryPage = supervisorEntry 184 := rfl
    simp [assigned, PageUpdate.apply, mapUser, hinit, supervisorEntry]
  · by_cases hb : terminalVidPage ≤ i ∧ i < terminalVidPage + 3
    · have hoff : offsetField ((terminalVideo + (i - terminalVidPage) * align4kb) / align4kb) =
          i := by
        simp only [terminalVidPage] at hb
        simp only [offsetField, terminalVideo, terminalVidPage, align4kb]
        omega
      simp [assigned, PageUpdate.apply, mapUser, initPaging, supervisorEntry, hi, hb, hoff]
    · simp [assigned, PageUpdate.apply, mapUser, initPaging, hi, hb]

lemma vmemTable_assigned (i : ℕ) : (assigned frames pid console vidmap).vmemTableArray i =
    if i = vidmapVmemLocPage then { emptyPtble with
      present := true, userSupervisor := true,
      offset_31_12 := offsetField (vidmap.address / align4kb) }
    else emptyPtble := by
  by_cases hi : i = vidmapVmemLocPage
  · subst hi
    simp [assigned, PageUpdate.apply, mapUser, initPaging]
  · simp [assigned, PageUpdate.apply, mapUser, initPaging, hi]

lemma translate_program (h : va.toNat / largePage = userSpaceDirNum) :
    (assigned frames pid console vidmap).translate frames other mode va =
      some (0x800000 + 0x400000 * pid.val + va.toNat % largePage) := by
  have hdir : (assigned frames pid console vidmap).directoryArray (va.toNat / largePage) =
      { emptyPdir with
        present := true, userSupervisor := true, pageSize := true,
        offset_31_12 := 2048 + 1024 * pid.val } := by
    rw [directory_assigned, h]
    simp [initPaging]
  have hr : (2048 + 1024 * pid.val) % 1024 = 0 := by omega
  simp only [translate, hdir, Mode.allows, or_true, and_self, if_true, hr, Option.some.injEq,
    align4kb]
  omega

/-- The second directory entry maps the kernel's 4 MB to themselves. -/
lemma translate_kernel (h : va.toNat / largePage = 1) :
    (assigned frames pid console vidmap).translate frames other mode va =
      if mode = .supervisor then some va.toNat else none := by
  have hdir : (assigned frames pid console vidmap).directoryArray (va.toNat / largePage) =
      { emptyPdir with present := true, avl := true, pageSize := true, offset_31_12 := 1024 } := by
    rw [directory_assigned, h]
    rfl
  have hmod := Nat.div_add_mod va.toNat largePage
  cases mode with
  | supervisor =>
    simp only [translate, hdir, Mode.allows, true_or, and_self, if_true, Nat.mod_self,
      Option.some.injEq]
    rw [h] at hmod
    exact hmod
  | user => simp [translate, hdir, Mode.allows, emptyPdir]

/-- Below 4 MB only the screen page and the backing pages are mapped. -/
lemma translate_low (hlinked : frames.Linked) (h : va.toNat / largePage = 0) :
    (assigned frames pid console vidmap).translate frames other mode va =
      if mode = .supervisor then
        if va.toNat / align4kb = videoMemoryPage then
          some (console.address + va.toNat % align4kb)
        else if terminalVidPage ≤ va.toNat / align4kb ∧
            va.toNat / align4kb < terminalVidPage + 3 then some va.toNat
        else none
      else none := by
  have htable : offsetField frames.tableArray = frames.tableArray := by
    have ht := hlinked.table.2
    exact offsetField_of_lt (by simp only [dir1Page] at ht; omega)
  have hdir : (assigned frames pid console vidmap).directoryArray (va.toNat / largePage) =
      { emptyPdir with present := true, offset_31_12 := frames.tableArray } := by
    rw [directory_assigned, h, ← htable]
    rfl
  have hpage : va.toNat / align4kb % pageVec = va.toNat / align4kb := by
    simp only [largePage] at h
    exact Nat.mod_eq_of_lt (by simp only [align4kb, pageVec]; omega)
  have hmod := Nat.div_add_mod va.toNat align4kb
  cases mode with
  | user => simp [translate, hdir, Mode.allows, emptyPdir]
  | supervisor =>
    simp only [translate, hdir, Mode.allows, emptyPdir, true_or, and_self, if_true,
      Bool.false_eq_true, if_false, tableAt, hpage, table_assigned]
    by_cases hv : va.toNat / align4kb = videoMemoryPage
    · simp only [if_pos hv, supervisorEntry, screenFrame_address, and_self, if_true]
    · by_cases hb : terminalVidPage ≤ va.toNat / align4kb ∧
          va.toNat / align4kb < terminalVidPage + 3
      · rw [if_neg hv, if_pos hb, if_neg hv, if_pos hb]
        rw [Nat.mul_comm] at hmod
        exact (if_pos ⟨rfl, trivial⟩).trans (congrArg some hmod)
      · rw [if_neg hv, if_neg hb, if_neg hv, if_neg hb]
        simp [emptyPtble]

/-- Of the addresses behind the directory entry for `vidmap` one page is mapped. -/
lemma translate_vidmap (hlinked : frames.Linked) (h : va.toNat / largePage = vidmapVmemLoc) :
    (assigned frames pid console vidmap).translate frames other mode va =
      if va.toNat / align4kb % pageVec = vidmapVmemLocPage then
        some (vidmap.address + va.toNat % align4kb)
      else none := by
  have htable : offsetField frames.vmemTableArray = frames.vmemTableArray := by
    have ht := hlinked.vmemTable.2
    exact offsetField_of_lt (by simp only [dir1Page] at ht; omega)
  have hdir : (assigned frames pid console vidmap).directoryArray (va.toNat / largePage) =
      { emptyPdir with
        present := true, userSupervisor := true, offset_31_12 := frames.vmemTableArray } := by
    rw [directory_assigned, h, ← htable]
    simp [initPaging]
  simp only [translate, hdir, Mode.allows, emptyPdir, or_true, and_self, if_true,
    Bool.false_eq_true, if_false, tableAt, hlinked.distinct.symm, vmemTable_assigned]
  by_cases hp : va.toNat / align4kb % pageVec = vidmapVmemLocPage
  · simp only [if_pos hp, screenFrame_address, or_true, and_self, if_true]
  · rw [if_neg hp, if_neg hp]
    simp [emptyPtble]

lemma translate_absent (h : ∀ i ∈ [0, 1, userSpaceDirNum, vidmapVmemLoc],
      va.toNat / largePage ≠ i) :
    (assigned frames pid console vidmap).translate frames other mode va = none := by
  obtain ⟨h0, h1, hu, hv⟩ : va.toNat / largePage ≠ 0 ∧ va.toNat / largePage ≠ 1 ∧
      va.toNat / largePage ≠ userSpaceDirNum ∧ va.toNat / largePage ≠ vidmapVmemLoc := by
    simpa using h
  have hdir : (assigned frames pid console vidmap).directoryArray (va.toNat / largePage) =
      emptyPdir := by
    rw [directory_assigned, if_neg hu]
    simp only [initPaging, Function.update_of_ne hv, Function.update_of_ne hu,
      Function.update_of_ne h1, Function.update_of_ne h0]
  simp only [translate, hdir]
  simp [emptyPdir]

/-! ### The walk, by address -/

lemma inProgram_iff : inProgram va ↔ va.toNat / largePage = userSpaceDirNum := by
  simp only [inProgram, largePage, userSpaceDirNum]
  omega

lemma inVidmap_iff : inVidmap va ↔ va.toNat / largePage = vidmapVmemLoc ∧
    va.toNat / align4kb % pageVec = vidmapVmemLocPage := by
  simp only [inVidmap, largePage, vidmapVmemLoc, vidmapVmemLocPage, align4kb, pageVec]
  omega

lemma inScreen_iff : inScreen va ↔ va.toNat / align4kb = videoMemoryPage := by
  simp only [inScreen, video, align4kb, videoMemoryPage]
  omega

lemma inBacking_iff : inBacking va ↔
    terminalVidPage ≤ va.toNat / align4kb ∧ va.toNat / align4kb < terminalVidPage + 3 := by
  simp only [inBacking, terminalVideo, align4kb, terminalVidPage]
  omega

lemma inKernel_iff : inKernel va ↔ va.toNat / largePage = 1 := by
  simp only [inKernel, largePage]
  omega

/-- The parts of the address space do not overlap. -/
lemma low_pages (h : inScreen va ∨ inBacking va) : va.toNat / largePage = 0 := by
  simp only [inScreen, inBacking, video, terminalVideo, align4kb] at h
  simp only [largePage]
  omega

lemma translate_user (hlinked : frames.Linked) :
    (assigned frames pid console vidmap).translate frames other .user va =
      if va.toNat / largePage = userSpaceDirNum then
        some (0x800000 + 0x400000 * pid.val + va.toNat % largePage)
      else if va.toNat / largePage = vidmapVmemLoc ∧
          va.toNat / align4kb % pageVec = vidmapVmemLocPage then
        some (vidmap.address + va.toNat % align4kb)
      else none := by
  by_cases hu : va.toNat / largePage = userSpaceDirNum
  · rw [if_pos hu, translate_program hu]
  · rw [if_neg hu]
    by_cases hv : va.toNat / largePage = vidmapVmemLoc
    · simp only [translate_vidmap hlinked hv, hv, true_and]
    · rw [if_neg fun h => hv h.1]
      by_cases h0 : va.toNat / largePage = 0
      · rw [translate_low hlinked h0, if_neg (by decide)]
      · by_cases h1 : va.toNat / largePage = 1
        · rw [translate_kernel h1, if_neg (by decide)]
        · apply translate_absent
          simp [h0, h1, hu, hv]

lemma translate_user_isSome (hlinked : frames.Linked) :
    ((assigned frames pid console vidmap).translate frames other .user va).isSome ↔
      inProgram va ∨ inVidmap va := by
  rw [translate_user hlinked, inProgram_iff, inVidmap_iff]
  by_cases hu : va.toNat / largePage = userSpaceDirNum
  · rw [if_pos hu]
    simp only [hu, true_or, Option.isSome_some]
  · rw [if_neg hu]
    simp only [hu, false_or]
    split_ifs with hv
    · simp only [hv, and_self, Option.isSome_some]
    · simp only [hv, Option.isSome_none, Bool.false_eq_true]

lemma translate_supervisor_isSome (hlinked : frames.Linked) :
    ((assigned frames pid console vidmap).translate frames other .supervisor va).isSome ↔
      inProgram va ∨ inVidmap va ∨ inScreen va ∨ inBacking va ∨ inKernel va := by
  by_cases h0 : va.toNat / largePage = 0
  · have hlow : ¬inProgram va ∧ ¬inVidmap va ∧ ¬inKernel va := by
      rw [inProgram_iff, inVidmap_iff, inKernel_iff, h0]
      exact ⟨by decide, fun h => absurd h.1 (by decide), by decide⟩
    rw [translate_low hlinked h0, if_pos rfl, inScreen_iff, inBacking_iff]
    split_ifs with hs hb
    · simp only [hs, true_or, or_true, Option.isSome_some]
    · simp only [hb, and_self, true_or, or_true, Option.isSome_some]
    · simp only [hlow, hs, hb, or_self, Option.isSome_none, Bool.false_eq_true]
  · have hhigh : ¬inScreen va ∧ ¬inBacking va :=
      ⟨fun h => h0 (low_pages (Or.inl h)), fun h => h0 (low_pages (Or.inr h))⟩
    by_cases h1 : va.toNat / largePage = 1
    · rw [translate_kernel h1, if_pos rfl]
      simp only [inKernel_iff.mpr h1, or_true, Option.isSome_some]
    · have huser : (assigned frames pid console vidmap).translate frames other .supervisor va =
          (assigned frames pid console vidmap).translate frames other .user va := by
        by_cases hu : va.toNat / largePage = userSpaceDirNum
        · rw [translate_program hu, translate_program hu]
        · by_cases hv : va.toNat / largePage = vidmapVmemLoc
          · rw [translate_vidmap hlinked hv, translate_vidmap hlinked hv]
          · have habsent : ∀ i ∈ [0, 1, userSpaceDirNum, vidmapVmemLoc],
                va.toNat / largePage ≠ i := by
              simp [h0, h1, hu, hv]
            rw [translate_absent habsent, translate_absent habsent]
      rw [huser, translate_user_isSome hlinked]
      simp only [hhigh, inKernel_iff, h1, or_self, or_false]

/-- The entries give an address space whatever the three assignments chose. -/
lemma assigned_addressSpace (hlinked : frames.Linked) : AddressSpace pid console vidmap
    ((assigned frames pid console vidmap).translate frames other) where
  user va := translate_user_isSome hlinked
  supervisor va := translate_supervisor_isSome hlinked
  programPage mode va h := by
    rw [translate_program (inProgram_iff.mp h)]
    simp only [inProgram] at h
    simp only [largePage, Option.some.injEq]
    omega
  vidmapPage mode va h := by
    obtain ⟨hd, hp⟩ := inVidmap_iff.mp h
    rw [translate_vidmap hlinked hd, if_pos hp]
  screenPage va h := by
    rw [translate_low hlinked (low_pages (Or.inl h)), if_pos rfl, if_pos (inScreen_iff.mp h)]
  identity va h := by
    rcases h with hb | hk
    · have hs : ¬va.toNat / align4kb = videoMemoryPage := by
        have hb' := inBacking_iff.mp hb
        simp only [terminalVidPage, videoMemoryPage] at hb' ⊢
        omega
      rw [translate_low hlinked (low_pages (Or.inr hb)), if_pos rfl, if_neg hs,
        if_pos (inBacking_iff.mp hb)]
    · rw [translate_kernel (inKernel_iff.mp hk), if_pos rfl]

/-- However often and in whatever order the page entries are assigned after `init_paging`, the
walk gives an address space: user mode reaches the program page of one process and the
`vidmap` page, supervisor mode also the screen page, the backing pages and the kernel. -/
theorem addressSpace_updates (hlinked : frames.Linked) (us : List PageUpdate)
    (other : ℕ → ℕ → PtbleEntry) : ∃ pid console vidmap, AddressSpace pid console vidmap
      ((us.foldl PageUpdate.apply (initPaging frames)).translate frames other) := by
  obtain ⟨pid, console, vidmap, h⟩ := updates_assigned frames us
  rw [h]
  exact ⟨pid, console, vidmap, assigned_addressSpace hlinked⟩

lemma linked_example : TableFrames.Linked ⟨1025, 1026⟩ := ⟨by decide, by decide, by decide⟩

theorem addressSpace_updates_switch : TableFrames.Linked ⟨1025, 1026⟩ ∧
    ∃ pid console vidmap, AddressSpace pid console vidmap
      (([.program 3, .console (.backing 1), .vidmap (.backing 1), .program 0].foldl
        PageUpdate.apply (initPaging ⟨1025, 1026⟩)).translate ⟨1025, 1026⟩
          fun _ _ => emptyPtble) :=
  ⟨linked_example, addressSpace_updates linked_example _ _⟩

end Paging

/-! ### Page updates of the kernel -/

namespace Kernel

variable {img : Image} {frames : TableFrames} {k k' : Kernel} {f : CallFrame}

/-- The entries come from `init_paging` by page updates, and each id a PCB can bring to the
program page is one of the six. -/
structure Paged (frames : TableFrames) (k : Kernel) : Prop where
  updates : ∃ us : List PageUpdate, k.paging = us.foldl PageUpdate.apply (initPaging frames)
  pids : ∀ q, ∃ pid : Fin 6, (k.pcbs q).processId = pid.val

lemma Paged.congr (hk : k.Paged frames) (hp : k'.paging = k.paging)
    (hpid : ∀ q, (k'.pcbs q).processId = (k.pcbs q).processId) : k'.Paged frames where
  updates := hp ▸ hk.updates
  pids q := hpid q ▸ hk.pids q

lemma Paged.update (hk : k.Paged frames) (us : List PageUpdate)
    (hp : k'.paging = us.foldl PageUpdate.apply k.paging)
    (hpid : ∀ q, (k'.pcbs q).processId = (k.pcbs q).processId) : k'.Paged frames := by
  obtain ⟨vs, hvs⟩ := hk.updates
  exact ⟨⟨vs ++ us, by rw [List.foldl_append, ← hvs, hp]⟩, fun q => hpid q ▸ hk.pids q⟩

lemma mapVideo_updates (p : Paging) (s : ScreenPage) {addr : ℕ} (h : addr = s.address) :
    p.mapVideo addr = [PageUpdate.console s, .vidmap s].foldl PageUpdate.apply p := by
  rw [h, PageUpdate.apply_video]

lemma choosePid_slot {pid : ℤ} (h : k.choosePid = some pid) : ∃ i : Fin 6, pid = i.val := by
  obtain ⟨h0, h6⟩ := (choosePid_fresh h).1
  simp only [numPids, Nat.cast_ofNat] at h6
  exact ⟨⟨pid.toNat, by omega⟩, (Int.toNat_of_nonneg h0).symm⟩

lemma videoAddress_page (active scheduled : Fin 3) :
    ∃ s : ScreenPage, videoAddress active scheduled = s.address := by
  unfold videoAddress
  split_ifs
  · exact ⟨.screen, rfl⟩
  · exact ⟨.backing scheduled, rfl⟩

lemma boot_paged (frames : TableFrames) (mem : Memory) (x y : ℕ) :
    (boot frames mem x y).Paged frames :=
  ⟨⟨[], rfl⟩, fun _ => ⟨0, rfl⟩⟩

lemma scheduler_paged {r : Regs} (hk : k.Paged frames) (h : k.scheduler r = some k') :
    k'.Paged frames := by
  obtain ⟨p, next, -, -, rfl⟩ := scheduler_cases h
  have hsaved : (k.resetFirstSwap.saveContext r p).Paged frames := by
    refine hk.congr ?_ fun q => by rw [saved_pcbs]
    unfold resetFirstSwap
    split <;> rfl
  obtain ⟨s, hs⟩ := videoAddress_page (k.resetFirstSwap.saveContext r p).activeTerminal next
  obtain ⟨pid, hpid⟩ := hsaved.pids
    ((k.resetFirstSwap.saveContext r p).terminals next).activePid
  refine hsaved.update [.program pid, .console s, .vidmap s] ?_ fun q => rfl
  rw [List.foldl_cons, ← mapVideo_updates _ s hs, PageUpdate.apply, ← hpid]
  rfl

lemma installed_paged {a : Activation} {mem : Memory} (hk : k.Paged frames)
    (hpid : k.choosePid = some a.pid) : (k.installed a mem).Paged frames := by
  obtain ⟨pid, hslot⟩ := choosePid_slot hpid
  obtain ⟨us, hus⟩ := hk.updates
  refine ⟨⟨us ++ [.program pid], ?_⟩, fun q => ?_⟩
  · rw [List.foldl_append, ← hus]
    exact congrArg (fun i => k.paging.mapUser i) hslot
  · by_cases hq : q = a.pid
    · refine ⟨pid, ?_⟩
      rw [← hslot, hq]
      exact installedPcbs_processId
    · simp only [installed, installedPcbs, if_neg hq]
      split_ifs
      · exact hk.pids q
      · exact hk.pids q

lemma execute_paged {command : List UInt8} {res : Option ℤ} (hk : k.Paged frames)
    (h : k.execute img f command = some (k', res)) : k'.Paged frames := by
  rcases execute_cases h with ⟨-, rfl⟩ | ⟨a, mem, hpid, -, -, -, ⟨rfl, -⟩ | ⟨-, -, hpre, -⟩⟩
  · exact hk
  · exact installed_paged hk hpid
  · exact preempt_invariant (fun _ _ _ hk hs => scheduler_paged hk hs)
      (installed_paged hk hpid) hpre

lemma switchScreens_paged {target : Fin 3} (hk : k.Paged frames) :
    (k.switchScreens target).Paged frames := by
  rw [switchScreens_eq]
  have hcopy : ∃ us : List PageUpdate, k.copyPaging = us.foldl PageUpdate.apply k.paging := by
    unfold copyPaging
    split_ifs
    · exact ⟨_, mapVideo_updates _ .screen rfl⟩
    · exact ⟨[], rfl⟩
  obtain ⟨us, hus⟩ := hcopy
  by_cases ht : target ≠ k.scheduledTerminal
  · refine hk.update (us ++ [.console (.backing k.scheduledTerminal),
      .vidmap (.backing k.scheduledTerminal)]) ?_ fun q => rfl
    rw [List.foldl_append, ← hus, ← mapVideo_updates _ (.backing k.scheduledTerminal) rfl]
    exact if_pos ht
  · exact hk.update us ((if_neg ht).trans hus) fun q => rfl

lemma release_paged (p : ℤ) (hk : k.Paged frames) : (k.release p).Paged frames :=
  hk.congr rfl fun q => release_processId p q

lemma forgetIds_paged (p : ℤ) (hk : k.Paged frames) : (k.forgetIds p).Paged frames := by
  refine ⟨hk.updates, fun q => ?_⟩
  by_cases hq : q = p
  · refine ⟨0, ?_⟩
    simp [forgetIds, setPcb, hq]
  · have hkeep : ((k.forgetIds p).pcbs q).processId = (k.pcbs q).processId := by
      simp [forgetIds, setPcb, hq]
    rw [hkeep]
    exact hk.pids q

lemma relaunching_paged (p : ℤ) (hk : k.Paged frames) : (k.relaunching p).Paged frames :=
  ⟨(forgetIds_paged p hk).updates, (forgetIds_paged p hk).pids⟩

lemma toParent_paged (p : ℤ) (hk : k.Paged frames) : (k.toParent p).Paged frames := by
  obtain ⟨pid, hpid⟩ := (forgetIds_paged p hk).pids (k.pcbs p).parentProcessId
  refine (forgetIds_paged p hk).update [.program pid] ?_ fun q => rfl
  rw [List.foldl_cons, List.foldl_nil, PageUpdate.apply, ← hpid]
  rfl

lemma halt_paged {status : UInt8} {res : Halted} (hk : k.Paged frames)
    (h : k.halt img f status = some res) : res.kernel.Paged frames := by
  obtain ⟨p, hp, ⟨hlt, k', pid, hex, rfl⟩ | ⟨-, rfl⟩⟩ := halt_cases h
  · exact execute_paged (relaunching_paged p (release_paged p hk)) hex
  · exact toParent_paged p (release_paged p hk)

lemma step_paged {e : Event} (hk : k.Paged frames) (h : step img k e = some k') :
    k'.Paged frames := by
  cases e with
  | tick r =>
    simp only [step, pitHandler] at h
    split at h
    · exact scheduler_paged hk h
    · exact Option.some.inj h ▸ hk
  | switch target f =>
    rcases terminalSwitch_cases h with ⟨-, rfl⟩ | ⟨-, -, rfl⟩ | ⟨-, -, res, hex⟩
    · exact hk
    · exact switchScreens_paged hk
    · exact execute_paged (switchScreens_paged hk) hex
  | key c =>
    rcases updateKbBuffer_cases h with ⟨g, rfl, -⟩ | rfl | ⟨-, -, mem, x, y, g, rfl, -⟩
    · exact hk.congr rfl fun q => rfl
    · exact hk
    · exact hk.update [.console .screen, .vidmap .screen, .console (.backing k.scheduledTerminal),
        .vidmap (.backing k.scheduledTerminal)] rfl fun q => rfl
  | clear =>
    obtain ⟨mem, x, y, g, rfl, -⟩ := clearTerminal_cases h
    exact hk.update [.console .screen, .vidmap .screen, .console (.backing k.scheduledTerminal),
      .vidmap (.backing k.scheduledTerminal)] rfl fun q => rfl
  | execute f command =>
    obtain ⟨⟨k', res⟩, hex, rfl⟩ := Option.map_eq_some_iff.mp h
    exact execute_paged hk hex
  | halt f status =>
    obtain ⟨res, hres, rfl⟩ := Option.map_eq_some_iff.mp h
    exact halt_paged hk hres

/-- In every run of the kernel from boot the page entries give an address space. -/
theorem addressSpace_run {mem : Memory} {x y : ℕ} {es : List Event} (hlinked : frames.Linked)
    (other : ℕ → ℕ → PtbleEntry)
    (h : Runs.Path (step img) (fun _ _ => True) (boot frames mem x y) es k) :
    ∃ pid console vidmap, AddressSpace pid console vidmap (k.paging.translate frames other) := by
  have hk : k.Paged frames :=
    h.invariant (fun _ _ _ hk _ hs => step_paged hk hs) (boot_paged frames mem x y)
  obtain ⟨us, hus⟩ := hk.updates
  obtain ⟨pid, console, vidmap, h⟩ := Paging.updates_assigned frames us
  rw [hus, h]
  exact ⟨pid, console, vidmap, Paging.assigned_addressSpace hlinked⟩

end Kernel

end HalOs
