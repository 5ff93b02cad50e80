import HalOs.Model.Pointers
import HalOs.Proofs.Acceptance
import HalOs.Proofs.Handlers

/-!
# What `execute` refuses

A command is refused before anything is stored: for its length, for a name that is in no entry,
for the first bytes of the file, or because no process id is free. The size of the file is not
looked at, and a load that is too large runs past the user page.
-/

namespace HalOs

namespace Kernel

variable {img : Image} {k k' : Kernel} {f : CallFrame} {command : List UInt8} {d : Dentry}
  {old : ℕ → UInt8}

/-! ### The four checks -/

/-- The word a command is looked up by. -/
def wordOf (command : List UInt8) : List UInt8 := commandWord (cString command)

lemma cString_wordOf (command : List UInt8) : cString (wordOf command) = wordOf command := by
  have h0 := not_mem_cString command
  unfold cString
  rw [List.takeWhile_eq_self_iff]
  intro b hb
  have hmem : b ∈ cString command := (List.takeWhile_subset _) hb
  exact decide_eq_true fun h => h0 (h ▸ hmem)

/-- The word is the name of no entry. -/
def NamesNothing (img : Image) (command : List UInt8) : Prop :=
  ∀ i < img.numDentries.toNat, (img.bootDentries i).name ≠ wordOf command

lemma namesNothing_iff : NamesNothing img command ↔ img.firstNamed (wordOf command) = none := by
  unfold NamesNothing Image.firstNamed
  rw [Option.map_eq_none_iff, List.find?_eq_none, cString_wordOf]
  constructor
  · intro h i hi hname
    exact h i (List.mem_range.mp hi) (of_decide_eq_true hname)
  · intro h i hi hname
    exact h i (List.mem_range.mpr hi) (decide_eq_true hname)

/-- The file starts as a program does. -/
def HasMagic (img : Image) (d : Dentry) : Prop :=
  ∀ j < 4, img.fileByte d.inodeNumber.toNat j = byteAt magicNumber j

/-- The inode exists and holds a whole header. -/
structure HeaderHeld (img : Image) (d : Dentry) : Prop where
  stored : d.inodeNumber.toNat < img.numInodes.toNat
  size : 28 ≤ (img.inodes d.inodeNumber.toNat).numBytes.toNat

lemma HeaderHeld.fileSize (h : HeaderHeld img d) :
    img.fileSize d.inodeNumber = (img.inodes d.inodeNumber.toNat).numBytes.toNat := by
  have hstored := h.stored
  unfold Image.fileSize
  rw [if_neg (by omega)]

lemma HeaderHeld.magic_iff (h : HeaderHeld img d) (old : ℕ → UInt8) :
    (List.range magicNumber.length).map (headerByte img d.inodeNumber old) = magicNumber ↔
      HasMagic img d := by
  have hsize := h.size
  have hbyte : ∀ j < 4, headerByte img d.inodeNumber old j =
      img.fileByte d.inodeNumber.toNat j := by
    intro j hj
    rw [headerByte_eq (by omega), h.fileSize, if_pos (by omega)]
  rw [header_magic]
  constructor
  · intro hall j hj
    rw [← hbyte j hj, hall j hj]
  · intro hall j hj
    rw [hbyte j hj, hall j hj]

lemma checkProgram_eq (himg : img.numDentries.toNat ≤ maxNumDentries)
    (hshort : ¬128 < strlen command) (old : ℕ → UInt8) : checkProgram img old command =
      some ((img.firstNamed (wordOf command)).bind fun d =>
        if (List.range magicNumber.length).map (headerByte img d.inodeNumber old) = magicNumber then
          some {
            entryPoint := entryPoint (headerByte img d.inodeNumber old)
            arg := commandArg (cString command)
            copyArg := argStart (cString command) < (cString command).length
            bytes := (readData img d.inodeNumber.toNat 0 userPageSize).2 }
        else none) := by
  have hlen : ¬execArgLen < (cString command).length := hshort
  unfold checkProgram
  dsimp only
  rw [if_neg hlen, ← wordOf, readDentryByName_eq himg, Option.map_some]
  simp only [entryPoint]

lemma checkProgram_long (hlong : 128 < strlen command) : checkProgram img old command = some none :=
  if_pos hlong

/-- The bytes of an accepted program are those of its file, up to the size of the user page. -/
lemma checkProgram_bytes {program : Program} (himg : img.numDentries.toNat ≤ maxNumDentries)
    (hfirst : img.firstNamed (wordOf command) = some d)
    (hacc : checkProgram img old command = some (some program)) :
    program.bytes = (readData img d.inodeNumber.toNat 0 userPageSize).2 := by
  have hshort : ¬128 < strlen command := by
    intro hlong
    rw [checkProgram_long hlong] at hacc
    exact absurd hacc (by simp)
  obtain ⟨entry, arg, copyArg, bytes⟩ := program
  rw [checkProgram_eq himg hshort, hfirst, Option.bind_some, Option.some.injEq] at hacc
  split_ifs at hacc
  simp only [Option.some.injEq, Program.mk.injEq] at hacc
  exact hacc.2.2.2.symm

/-- A file that holds a header and starts as a program does is accepted. -/
lemma checkProgram_accepts (himg : img.numDentries.toNat ≤ maxNumDentries)
    (hshort : ¬128 < strlen command) (hfirst : img.firstNamed (wordOf command) = some d)
    (hheld : HeaderHeld img d) (hmagic : HasMagic img d) (old : ℕ → UInt8) :
    ∃ program : Program, checkProgram img old command = some (some program) := by
  have hacc := checkProgram_eq himg hshort old
  rw [hfirst, Option.bind_some, if_pos ((hheld.magic_iff old).mpr hmagic)] at hacc
  exact ⟨_, hacc⟩

lemma checkProgram_none_iff (old : ℕ → UInt8) (himg : img.numDentries.toNat ≤ maxNumDentries)
    (hheld : ∀ d, img.firstNamed (wordOf command) = some d → HeaderHeld img d) :
    checkProgram img old command = some none ↔ 128 < strlen command ∨ NamesNothing img command ∨
      ∃ d, img.firstNamed (wordOf command) = some d ∧ ¬HasMagic img d := by
  by_cases hlong : 128 < strlen command
  · exact iff_of_true (checkProgram_long hlong) (Or.inl hlong)
  rw [checkProgram_eq himg hlong, or_iff_right hlong, namesNothing_iff]
  cases hfirst : img.firstNamed (wordOf command) with
  | none => exact iff_of_true rfl (Or.inl rfl)
  | some d =>
    have hmagic := (hheld d hfirst).magic_iff old
    rw [Option.bind_some]
    by_cases h : HasMagic img d
    · rw [if_pos (hmagic.mpr h)]
      refine iff_of_false (by simp) ?_
      rintro (hnone | ⟨d', hd', hno⟩)
      · exact absurd hnone (by simp)
      · exact hno (Option.some.inj hd' ▸ h)
    · rw [if_neg fun heq => h (hmagic.mp heq)]
      exact iff_of_true rfl (Or.inr ⟨d, rfl, h⟩)

/-! ### The process ids -/

lemma getPid_none_iff : k.getPid = none ↔ ∀ p : Fin 6, (k.pcbs p.val).inUse = 1 := by
  unfold getPid
  rw [Option.map_eq_none_iff, List.find?_eq_none]
  constructor
  · intro h p
    have hp := h p.val (List.mem_range.mpr p.isLt)
    simpa using hp
  · intro h i hi
    have hp := h ⟨i, List.mem_range.mp hi⟩
    simpa using hp

/-- `execute` returns -1 when a check fails or no id is chosen, before it stores anything. -/
lemma execute_none_iff : k.execute img f command = some (k', none) ↔
    k' = k ∧ (checkProgram img f.header command = some none ∨
      (∃ program, checkProgram img f.header command = some (some program)) ∧
        k.choosePid = none) := by
  unfold execute
  cases hacc : checkProgram img f.header command with
  | none => simp
  | some accepted =>
    rw [Option.bind_some]
    cases accepted with
    | none => simp [eq_comm]
    | some program =>
      cases hpid : k.choosePid with
      | none => simp [eq_comm]
      | some pid =>
        refine iff_of_false (fun h => ?_) (by simp)
        obtain ⟨x, -, hx⟩ := Option.map_eq_some_iff.mp h
        exact absurd (congrArg Prod.snd hx) (by simp)

/-- On an initialised terminal `execute` returns -1 exactly for a command that is too long, a
name in no entry, a file that does not start as a program, or with all process ids in use; it
has changed nothing then. -/
theorem execute_refuses_iff (k : Kernel) (f : CallFrame) (command : List UInt8)
    (hinit : k.initializedTerminals k.activeTerminal = true) (himg : img.WellFormed)
    (hheld : ∀ d, img.firstNamed (wordOf command) = some d → HeaderHeld img d) :
    ((∃ k', k.execute img f command = some (k', none)) ↔
      128 < strlen command ∨ NamesNothing img command ∨
        (∃ d, img.firstNamed (wordOf command) = some d ∧ ¬HasMagic img d) ∨
        ∀ p : Fin 6, (k.pcbs p.val).inUse = 1) ∧
      ∀ k', k.execute img f command = some (k', none) → k'.pcbs = k.pcbs ∧
        k'.paging = k.paging ∧ k'.terminals = k.terminals ∧ k'.currentPcb = k.currentPcb ∧
        k'.tssEsp0 = k.tssEsp0 := by
  have hpid : k.choosePid = none ↔ ∀ p : Fin 6, (k.pcbs p.val).inUse = 1 := by
    rw [choosePid, if_pos hinit, getPid_none_iff]
  have hcheck := checkProgram_none_iff f.header himg.dentries hheld
  constructor
  · constructor
    · rintro ⟨k', h⟩
      rcases (execute_none_iff.mp h).2 with hnone | ⟨-, hfull⟩
      · rcases hcheck.mp hnone with hlong | hname | hmagic
        · exact Or.inl hlong
        · exact Or.inr (Or.inl hname)
        · exact Or.inr (Or.inr (Or.inl hmagic))
      · exact Or.inr (Or.inr (Or.inr (hpid.mp hfull)))
    · intro h
      refine ⟨k, execute_none_iff.mpr ⟨rfl, ?_⟩⟩
      by_cases hnone : checkProgram img f.header command = some none
      · exact Or.inl hnone
      · have hfull : ∀ p : Fin 6, (k.pcbs p.val).inUse = 1 := by
          rcases h with hlong | hname | hmagic | hfull
          · exact absurd (hcheck.mpr (Or.inl hlong)) hnone
          · exact absurd (hcheck.mpr (Or.inr (Or.inl hname))) hnone
          · exact absurd (hcheck.mpr (Or.inr (Or.inr hmagic))) hnone
          · exact hfull
        refine Or.inr ⟨?_, hpid.mpr hfull⟩
        by_cases hlong : 128 < strlen command
        · exact absurd (checkProgram_long hlong) hnone
        · rw [checkProgram_eq himg.dentries hlong] at hnone ⊢
          obtain ⟨program, hprogram⟩ := Option.ne_none_iff_exists'.mp fun hno =>
            hnone (congrArg some hno)
          exact ⟨program, congrArg some hprogram⟩
  · intro k' h
    obtain rfl := (execute_none_iff.mp h).1
    exact ⟨rfl, rfl, rfl, rfl, rfl⟩

lemma shell_firstNamed (hd : shellImage.firstNamed (wordOf shellCommand) = some d) :
    d = shellImage.bootDentries 0 := by
  unfold Image.firstNamed at hd
  obtain ⟨i, -, rfl⟩ := Option.map_eq_some_iff.mp hd
  rfl

/-- A second shell, on the terminal of the first. -/
theorem execute_refuses_iff_shell : ∃ k : Kernel,
    k.initializedTerminals k.activeTerminal = true ∧ shellImage.WellFormed ∧
    ((∃ k', k.execute shellImage bareFrame shellCommand = some (k', none)) ↔
      128 < strlen shellCommand ∨ NamesNothing shellImage shellCommand ∨
        (∃ d, shellImage.firstNamed (wordOf shellCommand) = some d ∧ ¬HasMagic shellImage d) ∨
        ∀ p : Fin 6, (k.pcbs p.val).inUse = 1) := by
  obtain ⟨mem, -⟩ := boot_execute ⟨0, 0⟩ (fun _ => 0) 0 0
  have hheld : ∀ d, shellImage.firstNamed (wordOf shellCommand) = some d →
      HeaderHeld shellImage d := by
    intro d hd
    obtain rfl := shell_firstNamed hd
    exact ⟨by decide, by decide⟩
  exact ⟨_, rfl, shellImage_wellFormed, (execute_refuses_iff
    ((boot ⟨0, 0⟩ (fun _ => 0) 0 0).installed firstShell mem) bareFrame shellCommand rfl
    shellImage_wellFormed hheld).1⟩

/-! ### The load -/

/-- Where a statement of `execute` stores a byte of the program. -/
def loadAddress : Stmt → Option ℕ
  | .copy i => some (addr128mb + progImgOffset + i)
  | _ => none

/-- The addresses a call stores the bytes of its program at; none when it is refused. -/
def loadStores (img : Image) (f : CallFrame) (command : List UInt8) (k : Kernel) : List ℕ :=
  match checkProgram img f.header command, k.choosePid with
  | some (some program), some pid =>
    (Activation.body ⟨program, pid, f.regs⟩).filterMap loadAddress
  | _, _ => []

/-- The bytes of the user page from the load address on. -/
abbrev loadRoom : ℕ := userPageSize - progImgOffset

/-- The load keeps to the user page, and a file that does not fit there is refused. -/
structure LoadsSafely (img : Image) (f : CallFrame) (command : List UInt8) (d : Dentry)
    (k : Kernel) : Prop where
  inside : ∀ a ∈ k.loadStores img f command, addr128mb ≤ a ∧ a < userPageEnd
  refused : loadRoom < img.fileSize d.inodeNumber → k.execute img f command = some (k, none)

lemma body_loads (a : Activation) : a.body.filterMap loadAddress =
    (List.range a.program.bytes.length).map fun i => addr128mb + progImgOffset + i := by
  have hrest : Activation.installation.filterMap loadAddress = [] := rfl
  have hcopies : ∀ l : List ℕ, (l.map Stmt.copy).filterMap loadAddress =
      l.map fun i => addr128mb + progImgOffset + i := by
    intro l
    induction l with
    | nil => rfl
    | cons i l ih =>
      rw [List.map_cons, List.filterMap_cons, ih]
      rfl
  rw [Activation.body, List.filterMap_append, List.filterMap_cons, hrest, hcopies, List.append_nil]
  rfl

/-- A program has as many bytes as its file, up to the size of the user page. -/
lemma program_length {program : Program} (hwf : img.WellFormed)
    (hfirst : img.firstNamed (wordOf command) = some d) (htype : d.fileType = regularFileType)
    (hacc : checkProgram img old command = some (some program)) :
    program.bytes.length = img.fileSize d.inodeNumber := by
  obtain ⟨i, hi, hd⟩ : ∃ i < img.numDentries.toNat, d = img.bootDentries i :=
    readDentryByName_mem (by rw [readDentryByName_eq hwf.dentries, hfirst])
  have hstored := hd ▸ hwf.inode i hi (hd ▸ htype)
  have hsize := hd ▸ hwf.size i hi (hd ▸ htype)
  simp only [maxDataBlocks, blockBytes] at hsize
  have hfile : img.fileSize d.inodeNumber =
      (img.inodes d.inodeNumber.toNat).numBytes.toNat := by
    unfold Image.fileSize
    rw [if_neg (by omega)]
  have hdata := readData_eq userPageSize hstored (Nat.zero_le _) (by omega) (by decide)
  rw [checkProgram_bytes hwf.dentries hfirst hacc, congrArg Prod.snd hdata, List.drop_zero, List.length_take, contents_length, hfile]
  simp only [userPageSize]
  omega

/-- The load of an accepted file is safe exactly when the file fits the user page from the load
address on, or no process id is free. -/
theorem loadsSafely_iff {program : Program} (k : Kernel) (hwf : img.WellFormed)
    (hfirst : img.firstNamed (wordOf command) = some d) (htype : d.fileType = regularFileType)
    (hacc : checkProgram img f.header command = some (some program)) :
    LoadsSafely img f command d k ↔
      img.fileSize d.inodeNumber ≤ loadRoom ∨ k.choosePid = none := by
  have hlen := program_length hwf hfirst htype hacc
  cases hpid : k.choosePid with
  | none =>
    have hstores : k.loadStores img f command = [] := by
      simp only [loadStores, hacc, hpid]
    refine iff_of_true ⟨fun a ha => ?_, fun _ => ?_⟩ (Or.inr rfl)
    · rw [hstores] at ha
      exact absurd ha List.not_mem_nil
    · exact execute_none_iff.mpr ⟨rfl, Or.inr ⟨⟨program, hacc⟩, hpid⟩⟩
  | some pid =>
    have hstores : k.loadStores img f command =
        (List.range program.bytes.length).map fun i => addr128mb + progImgOffset + i := by
      simp only [loadStores, hacc, hpid, body_loads]
    have hend : userPageEnd = addr128mb + userPageSize := rfl
    rw [or_iff_left (by simp)]
    constructor
    · intro h
      by_contra hlarge
      have hrefused := execute_none_iff.mp (h.refused (not_le.mp hlarge))
      rcases hrefused.2 with hnone | ⟨-, hfull⟩
      · exact absurd (hacc.symm.trans hnone) (by simp)
      · exact absurd (hpid.symm.trans hfull) (by simp)
    · intro hfits
      refine ⟨fun a ha => ?_, fun hlarge => absurd hfits (not_le.mpr hlarge)⟩
      rw [hstores] at ha
      obtain ⟨i, hi, rfl⟩ := List.mem_map.mp ha
      have hlt := List.mem_range.mp hi
      rw [hlen] at hlt
      rw [hend]
      simp only [loadRoom, userPageSize, progImgOffset] at hfits ⊢
      omega

/-- The shell is small enough. -/
theorem loadsSafely_iff_shell :
    LoadsSafely shellImage bareFrame shellCommand (shellImage.bootDentries 0)
      (boot ⟨0, 0⟩ (fun _ => 0) 0 0) := by
  have hfirst : shellImage.firstNamed (wordOf shellCommand) =
      some (shellImage.bootDentries 0) := by
    obtain ⟨d, hd⟩ : ∃ d, shellImage.firstNamed (wordOf shellCommand) = some d :=
      Option.isSome_iff_exists.mp (by decide +kernel)
    rw [hd, shell_firstNamed hd]
  have hsize : shellImage.fileSize (shellImage.bootDentries 0).inodeNumber = 28 := by decide
  have hacc : checkProgram shellImage bareFrame.header shellCommand = some (some shellProgram) :=
    checkProgram_shellImage
  refine (loadsSafely_iff _ shellImage_wellFormed hfirst rfl hacc).mpr (Or.inl ?_)
  rw [hsize]
  simp only [loadRoom, userPageSize, progImgOffset]
  omega

/-- The shell, in a file of 1023 blocks. -/
def largeImage : Image := { shellImage with inodes := fun _ => ⟨1023 * 4096, fun _ => 0⟩ }

lemma largeImage_wellFormed : largeImage.WellFormed := by
  have hsize : (1023 * 4096 : UInt32).toNat ≤ maxDataBlocks * blockBytes := by decide
  exact ⟨by decide, fun _ _ _ => Nat.one_pos, fun _ _ _ => hsize, fun _ _ _ _ _ => Nat.one_pos⟩

/-- The file is loaded past the end of the user page. -/
theorem load_leaves_page : ¬∀ (img : Image) (f : CallFrame) (command : List UInt8) (d : Dentry)
    (program : Program) (k : Kernel), img.WellFormed →
    img.firstNamed (wordOf command) = some d → d.fileType = regularFileType →
    checkProgram img f.header command = some (some program) → LoadsSafely img f command d k := by
  intro h
  obtain ⟨d, hd⟩ : ∃ d, largeImage.firstNamed (wordOf shellCommand) = some d :=
    Option.isSome_iff_exists.mp (by decide +kernel)
  have hentry : d = shellImage.bootDentries 0 := by
    obtain ⟨i, -, rfl⟩ := Option.map_eq_some_iff.mp hd
    rfl
  rw [hentry] at hd
  have hheld : HeaderHeld largeImage (shellImage.bootDentries 0) := ⟨by decide, by decide⟩
  have hmagic : ∀ j < 4, largeImage.fileByte 0 j = byteAt magicNumber j := by decide +kernel
  obtain ⟨program, hacc⟩ := checkProgram_accepts largeImage_wellFormed.dentries (by decide) hd hheld
    hmagic bareFrame.header
  have hsafe := h _ bareFrame shellCommand _ _ (boot ⟨0, 0⟩ (fun _ => 0) 0 0)
    largeImage_wellFormed hd rfl hacc
  have hsize : largeImage.fileSize (shellImage.bootDentries 0).inodeNumber = 1023 * 4096 := by
    decide
  have hlarge : loadRoom < largeImage.fileSize (shellImage.bootDentries 0).inodeNumber := by
    rw [hsize]
    simp only [loadRoom, userPageSize, progImgOffset]
    omega
  rcases (execute_none_iff.mp (hsafe.refused hlarge)).2 with hnone | ⟨-, hfull⟩
  · exact absurd (hacc.symm.trans hnone) (by simp)
  · exact absurd hfull (by decide)

end Kernel

end HalOs
