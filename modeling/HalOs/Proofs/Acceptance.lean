import HalOs.Proofs.CommandBuffers
import HalOs.Proofs.FileReads

/-!
# Which files are run as programs

`execute` reads the header of a file into a buffer of its stack and looks at all of it, however
much was read and whatever the type of the file. What it accepts is decided by the file alone
for commands whose file fails the comparison of its first bytes, and for regular files with a
whole header under a name of less than 32 characters.
-/

namespace HalOs

/-- The bytes an inode has; one that does not exist has none. -/
def Image.fileSize (img : Image) (inode : UInt32) : ℕ :=
  if 0 < img.numInodes.toNat ∧ img.numInodes.toNat ≤ inode.toNat then 0
  else (img.inodes inode.toNat).numBytes.toNat

/-! ### The header buffer -/

section Header

variable {img : Image} {inode : UInt32} {old : ℕ → UInt8}

lemma readData_header (img : Image) (inode : UInt32) :
    (readData img inode.toNat 0 (entryPtStart + entryPtLen)).2 =
      (List.range (min 28 (img.fileSize inode))).map (img.fileByte inode.toNat) := by
  have hnum := img.numInodes.toNat_lt
  have hinode := inode.toNat_lt
  have hrefused : (img.numInodes.toNat + (2 ^ 32 - 1)) % 2 ^ 32 < inode.toNat ↔
      0 < img.numInodes.toNat ∧ img.numInodes.toNat ≤ inode.toNat := by omega
  unfold readData Image.fileSize
  simp only [hrefused]
  by_cases h : 0 < img.numInodes.toNat ∧ img.numInodes.toNat ≤ inode.toNat
  · simp only [if_pos h, Nat.min_zero, List.range_zero, List.map_nil]
  · rw [if_neg h, if_neg h]
    by_cases hempty : (img.inodes inode.toNat).numBytes.toNat ≤ 0
    · rw [if_pos hempty, Nat.le_zero.mp hempty, Nat.min_zero]
      rfl
    · have hlen : (0 + (entryPtStart + entryPtLen)) % 2 ^ 32 - 0 = 28 := by decide
      rw [if_neg hempty]
      simp only [hlen, readDataLoop_eq (Nat.zero_le _), List.drop_zero, Image.contents,
        ← List.map_take, List.take_range]

/-- A byte of the header buffer is the file's where the file has it, and the stack's else. -/
lemma headerByte_eq {i : ℕ} (hi : i < 28) : headerByte img inode old i =
    if i < img.fileSize inode then img.fileByte inode.toNat i else old i := by
  unfold headerByte
  rw [readData_header]
  by_cases h : i < img.fileSize inode
  · have hlt : i < ((List.range (min 28 (img.fileSize inode))).map
        (img.fileByte inode.toNat)).length := by
      rw [List.length_map, List.length_range]
      omega
    rw [if_pos h, List.getD_eq_getElem _ _ hlt, List.getElem_map, List.getElem_range]
  · have hle : ((List.range (min 28 (img.fileSize inode))).map
        (img.fileByte inode.toNat)).length ≤ i := by
      rw [List.length_map, List.length_range]
      omega
    rw [if_neg h, List.getD_eq_default _ _ hle]

lemma header_magic (header : ℕ → UInt8) : (List.range magicNumber.length).map header = magicNumber ↔
    ∀ j < 4, header j = byteAt magicNumber j := by
  constructor
  · intro h j hj
    have hlt : j < ((List.range magicNumber.length).map header).length := by
      rw [List.length_map, List.length_range]
      exact hj
    have hget : ((List.range magicNumber.length).map header).getD j 0 = header j := by
      rw [List.getD_eq_getElem _ _ hlt, List.getElem_map, List.getElem_range]
    rw [← hget, h]
    rfl
  · intro h
    apply List.ext_getElem
    · rw [List.length_map, List.length_range]
    · intro j _ hj
      rw [List.getElem_map, List.getElem_range, h j hj, byteAt, List.getD_eq_getElem _ _ hj]

lemma or_shiftLeft {low n : ℕ} (h : low < 2 ^ n) (b : ℕ) : low ||| b <<< n = low + 2 ^ n * b := by
  rw [Nat.lor_comm, ← Nat.shiftLeft_add_eq_or_of_lt h, Nat.shiftLeft_eq, Nat.mul_comm,
    Nat.add_comm]

/-- The entry point is put together as a little-endian number. -/
lemma entryPoint_eq (header : ℕ → UInt8) : entryPoint header =
    (header 24).toNat + 2 ^ 8 * (header 25).toNat + 2 ^ 16 * (header 26).toNat +
      2 ^ 24 * (header 27).toNat := by
  have h24 := (header 24).toNat_lt
  have h25 := (header 25).toNat_lt
  have h26 := (header 26).toNat_lt
  have hfold : entryPoint header = 0 ||| (header 24).toNat <<< 0 ||| (header 25).toNat <<< 8 |||
      (header 26).toNat <<< 16 ||| (header 27).toNat <<< 24 := rfl
  rw [hfold, Nat.zero_or, Nat.shiftLeft_zero, or_shiftLeft (n := 8) (by omega),
    or_shiftLeft (n := 16) (by omega), or_shiftLeft (n := 24) (by omega)]

end Header

/-! ### The name handed over -/

section Names

variable {img : Image} {command : List UInt8} {old : FrameCell → UInt8} {f : Frame} {e : ℕ}
  {d : Dentry}

/-- The NUL behind the word lies in `filename`, or happens to be there behind it. -/
def NameEnds (command : List UInt8) (old : FrameCell → UInt8) : Prop :=
  (commandWord (visible command)).length < 32 ∨
    ((commandWord (visible command)).length = 32 ∧ old (.filename 32) = 0)

lemma not_mem_word (command : List UInt8) : 0 ∉ commandWord (visible command) := fun h0 =>
  not_mem_cString command (List.take_subset _ _ ((List.takeWhile_subset _) h0))

lemma name_of_ends (h : parse command (Frame.fresh old) = some f) (hends : NameEnds command old) :
    f.name = commandWord (visible command) := by
  have hbytes := (parse_bytes h).1
  have hname : f.name = stringAt (fun i => f.byte (.filename i)) 33 0 := by
    unfold Frame.name stringAt
    rw [List.range_eq_range']
  rw [hname]
  apply stringAt_of_spelled (not_mem_word command)
  · intro j hj
    simp only [Nat.zero_add, hbytes, if_pos hj]
    exact List.getD_eq_getElem _ _ hj
  · simp only [Nat.zero_add, hbytes, lt_irrefl, if_false]
    rcases hends with hlt | ⟨heq, hzero⟩
    · rw [if_pos hlt]
    · rw [heq, if_neg (lt_irrefl _), hzero]
  · rcases hends with hlt | ⟨heq, -⟩
    · omega
    · omega

/-- A string that does not end within 33 bytes is too long for a name. -/
lemma name_of_not_ends (h : parse command (Frame.fresh old) = some f)
    (hends : ¬NameEnds command old) : readDentryByName img f.name = some none := by
  have hbytes := (parse_bytes h).1
  have hnonzero : ∀ j < 33, f.byte (.filename j) ≠ 0 := by
    intro j hj
    rw [hbytes]
    by_cases hword : j < (commandWord (visible command)).length
    · rw [if_pos hword, byteAt, List.getD_eq_getElem _ _ hword]
      intro h0
      exact not_mem_word command (h0 ▸ List.getElem_mem hword)
    · have hge : ¬(commandWord (visible command)).length < 32 := fun hlt => hends (Or.inl hlt)
      have heq : (commandWord (visible command)).length = 32 := by omega
      have hj32 : j = 32 := by omega
      rw [if_neg hword, hj32, if_neg (lt_irrefl _)]
      exact fun hzero => hends (Or.inr ⟨heq, hzero⟩)
  have hall : f.name = (List.range 33).map fun i => f.byte (.filename i) := by
    unfold Frame.name cString
    rw [List.takeWhile_eq_self_iff]
    intro b hb
    obtain ⟨j, hj, rfl⟩ := List.mem_map.mp hb
    exact decide_eq_true (hnonzero j (List.mem_range.mp hj))
  have hlen : maxFilenameSize < strlen f.name := by
    rw [strlen, Frame.name, cString_cString, ← Frame.name, hall, List.length_map,
      List.length_range]
    decide
  unfold readDentryByName
  rw [if_pos hlen]

/-! ### Acceptance -/

/-- `execute` takes the command for a program with this entry point, on a stack that held
`old`. -/
def Accepts (img : Image) (command : List UInt8) (old : FrameCell → UInt8) (e : ℕ) : Prop :=
  accept img command (Frame.fresh old) = some (some e)

/-- The header as the checks see it. -/
def headerSeen (img : Image) (d : Dentry) (old : FrameCell → UInt8) : ℕ → UInt8 :=
  headerByte img d.inodeNumber fun i => old (.header i)

lemma accepts_iff : Accepts img command old e ↔ ¬128 < cmdLen command ∧ NameEnds command old ∧
    ∃ d, readDentryByName img (commandWord (visible command)) = some (some d) ∧
      (∀ j < 4, headerSeen img d old j = byteAt magicNumber j) ∧
      e = entryPoint (headerSeen img d old) := by
  unfold Accepts accept
  by_cases hlong : 128 < cmdLen command
  · rw [parse_long hlong]
    simp [hlong]
  · have hparse := parse_short hlong (Frame.fresh old)
    rw [hparse, Option.elim_some]
    generalize (Frame.fresh old).fill (visible command) = f at hparse ⊢
    unfold Frame.check
    by_cases hends : NameEnds command old
    · have hheader : ∀ d : Dentry, headerByte img d.inodeNumber (fun i => f.byte (.header i)) =
          headerSeen img d old := by
        intro d
        unfold headerSeen
        simp only [(parse_bytes hparse).2]
      rw [name_of_ends hparse hends]
      simp only [hheader, header_magic]
      simp only [hlong, hends, not_false_eq_true, true_and]
      constructor
      · intro h
        obtain ⟨found, hfound, hbind⟩ := Option.map_eq_some_iff.mp h
        obtain ⟨d, rfl, hd⟩ := Option.bind_eq_some_iff.mp hbind
        split_ifs at hd with hmagic
        · exact ⟨d, hfound, hmagic, (Option.some.inj hd).symm⟩
      · rintro ⟨d, hfound, hmagic, rfl⟩
        rw [hfound, Option.map_some, Option.bind_some, if_pos hmagic]
    · rw [name_of_not_ends hparse hends]
      simp [hends]

/-! ### The file alone -/

/-- What a program has to be: a regular file with a whole header that starts with the magic
number and holds the entry point. -/
structure ProgramFile (img : Image) (d : Dentry) (e : ℕ) : Prop where
  regular : d.fileType = regularFileType
  size : 28 ≤ img.fileSize d.inodeNumber
  magic : ∀ j < 4, img.fileByte d.inodeNumber.toNat j = byteAt magicNumber j
  entry : e = (img.fileByte d.inodeNumber.toNat 24).toNat +
    2 ^ 8 * (img.fileByte d.inodeNumber.toNat 25).toNat +
    2 ^ 16 * (img.fileByte d.inodeNumber.toNat 26).toNat +
    2 ^ 24 * (img.fileByte d.inodeNumber.toNat 27).toNat

/-- Acceptance is the same on every stack, and only programs are accepted. -/
structure DependsOnFile (img : Image) (command : List UInt8) : Prop where
  same : ∀ old old' e, Accepts img command old e → Accepts img command old' e
  program : ∀ old e, Accepts img command old e → ∃ d,
    readDentryByName img (commandWord (visible command)) = some (some d) ∧ ProgramFile img d e

/-- One of the first four bytes, where the file has it, is not the magic number's. -/
def MagicFails (img : Image) (d : Dentry) : Prop :=
  ∃ j < 4, j < img.fileSize d.inodeNumber ∧
    img.fileByte d.inodeNumber.toNat j ≠ byteAt magicNumber j

lemma headerSeen_of_lt {i : ℕ} (hi : i < 28) (hsize : i < img.fileSize d.inodeNumber) :
    headerSeen img d old i = img.fileByte d.inodeNumber.toNat i := by
  unfold headerSeen
  rw [headerByte_eq hi, if_pos hsize]

/-- Where the magic number is found, the file does not contradict it. -/
lemma not_magicFails (h : ∀ j < 4, headerSeen img d old j = byteAt magicNumber j) :
    ¬MagicFails img d := by
  rintro ⟨j, hj, hsize, hne⟩
  exact hne ((headerSeen_of_lt (by omega) hsize).symm.trans (h j hj))

lemma programFile_of (htype : d.fileType = regularFileType)
    (hsize : 28 ≤ img.fileSize d.inodeNumber)
    (hmagic : ∀ j < 4, headerSeen img d old j = byteAt magicNumber j) :
    ProgramFile img d (entryPoint (headerSeen img d old)) := by
  have hseen : ∀ i < 28, headerSeen img d old i = img.fileByte d.inodeNumber.toNat i :=
    fun i hi => headerSeen_of_lt hi (by omega)
  refine ⟨htype, hsize, fun j hj => ?_, ?_⟩
  · rw [← hseen j (by omega), hmagic j hj]
  · rw [entryPoint_eq, hseen 24 (by decide), hseen 25 (by decide), hseen 26 (by decide),
      hseen 27 (by decide)]

/-- The stack of an earlier call that accepted a program, with a byte of choice behind
`filename`. -/
def staleFrame (behind : UInt8) : FrameCell → UInt8
  | .header i => byteAt magicNumber i
  | .filename _ => behind
  | .arg _ => 0

lemma headerSeen_stale {behind : UInt8} (h : ¬MagicFails img d) :
    ∀ j < 4, headerSeen img d (staleFrame behind) j = byteAt magicNumber j := by
  intro j hj
  unfold headerSeen
  rw [headerByte_eq (by omega)]
  by_cases hsize : j < img.fileSize d.inodeNumber
  · rw [if_pos hsize]
    by_contra hne
    exact h ⟨j, hj, hsize, hne⟩
  · rw [if_neg hsize]
    rfl

lemma found_length {word : List UInt8} (h0 : 0 ∉ word)
    (h : readDentryByName img word = some (some d)) : word.length ≤ 32 := by
  have hself : cString word = word := by
    unfold cString
    rw [List.takeWhile_eq_self_iff]
    intro b hb
    exact decide_eq_true fun h => h0 (h ▸ hb)
  by_contra hlong
  have hlen : maxFilenameSize < strlen word := by
    rw [strlen, hself]
    exact not_le.mp hlong
  unfold readDentryByName at h
  rw [if_pos hlen] at h
  exact absurd h (by simp)

/-- Acceptance depends on the file alone exactly when the command is too long, or the file it
names contradicts the magic number, or is regular and has a whole header while the word leaves
room for its NUL. -/
theorem dependsOnFile_iff (img : Image) (command : List UInt8) : DependsOnFile img command ↔
    128 < cmdLen command ∨
      ∀ d, readDentryByName img (commandWord (visible command)) = some (some d) →
        MagicFails img d ∨ ((commandWord (visible command)).length < 32 ∧
          d.fileType = regularFileType ∧ 28 ≤ img.fileSize d.inodeNumber) := by
  constructor
  · intro h
    by_cases hlong : 128 < cmdLen command
    · exact Or.inl hlong
    refine Or.inr fun d hd => ?_
    by_cases hfails : MagicFails img d
    · exact Or.inl hfails
    right
    have hle := found_length (not_mem_word command) hd
    have hends : NameEnds command (staleFrame 0) := by
      rcases Nat.lt_or_eq_of_le hle with hlt | heq
      · exact Or.inl hlt
      · exact Or.inr ⟨heq, rfl⟩
    have haccepts : Accepts img command (staleFrame 0)
        (entryPoint (headerSeen img d (staleFrame 0))) :=
      accepts_iff.mpr ⟨hlong, hends, d, hd, headerSeen_stale hfails, rfl⟩
    obtain ⟨d', hd', hprogram⟩ := h.program _ _ haccepts
    rw [hd, Option.some.injEq, Option.some.injEq] at hd'
    subst hd'
    refine ⟨?_, hprogram.regular, hprogram.size⟩
    -- with a byte that is not zero behind it, a word of 32 characters has no end
    obtain ⟨-, hends', -⟩ := accepts_iff.mp (h.same _ (staleFrame 1) _ haccepts)
    rcases hends' with hlt | ⟨-, hone⟩
    · exact hlt
    · exact absurd hone (by decide)
  · intro h
    have hwhole : ∀ old e, Accepts img command old e → ∃ d,
        readDentryByName img (commandWord (visible command)) = some (some d) ∧
        (∀ j < 4, headerSeen img d old j = byteAt magicNumber j) ∧
        e = entryPoint (headerSeen img d old) ∧
        (commandWord (visible command)).length < 32 ∧ d.fileType = regularFileType ∧
          28 ≤ img.fileSize d.inodeNumber := by
      intro old e haccepts
      obtain ⟨hshort, -, d, hd, hmagic, he⟩ := accepts_iff.mp haccepts
      have hfile := (h.resolve_left hshort d hd).resolve_left (not_magicFails hmagic)
      exact ⟨d, hd, hmagic, he, hfile⟩
    constructor
    · intro old old' e haccepts
      obtain ⟨d, hd, hmagic, he, hlt, -, hsize⟩ := hwhole old e haccepts
      have hsame : ∀ i < 28, headerSeen img d old' i = headerSeen img d old i := by
        intro i hi
        rw [headerSeen_of_lt hi (by omega), headerSeen_of_lt hi (by omega)]
      refine accepts_iff.mpr ⟨(accepts_iff.mp haccepts).1, Or.inl hlt, d, hd, fun j hj => ?_, ?_⟩
      · rw [hsame j (by omega), hmagic j hj]
      · rw [he, entryPoint_eq, entryPoint_eq, hsame 24 (by decide), hsame 25 (by decide),
          hsame 26 (by decide), hsame 27 (by decide)]
    · intro old e haccepts
      obtain ⟨d, hd, hmagic, rfl, -, htype, hsize⟩ := hwhole old e haccepts
      exact ⟨d, hd, programFile_of htype hsize hmagic⟩

/-- Where the name has its end, the checks are those of the whole command at once. -/
theorem accept_refines (hlen : strlen command < 2 ^ 31) (hends : NameEnds command old) :
    accept img command (Frame.fresh old) =
      (checkProgram img (fun i => old (.header i)) command).map (Option.map Program.entryPoint) := by
  have hcmd := cmdLen_eq hlen
  unfold accept checkProgram
  by_cases hlong : 128 < cmdLen command
  · have hlong' : execArgLen < (cString command).length := by
      rw [hcmd] at hlong
      exact_mod_cast hlong
    rw [parse_long hlong]
    simp only [if_pos hlong', Option.elim_none, Option.map_some, Option.map_none]
  · have hlong' : ¬execArgLen < (cString command).length := by
      rw [hcmd] at hlong
      exact_mod_cast hlong
    have hparse := parse_short hlong (Frame.fresh old)
    rw [hparse, Option.elim_some]
    generalize (Frame.fresh old).fill (visible command) = f at hparse ⊢
    have hname := name_of_ends hparse hends
    rw [visible_eq hlen] at hname
    unfold Frame.check
    simp only [if_neg hlong', hname, (parse_bytes hparse).2, Option.map_map]
    apply Option.map_congr
    intro found _
    cases found with
    | none => rfl
    | some d =>
      rw [Function.comp_apply, Option.bind_some, Option.bind_some]
      generalize (readData img d.inodeNumber.toNat 0 userPageSize).2 = bytes
      generalize headerByte img d.inodeNumber (fun i => old (.header i)) = header
      by_cases hmagic : (List.range magicNumber.length).map header = magicNumber
      · simp only [if_pos hmagic, Option.map_some, entryPoint]
      · simp only [if_neg hmagic, Option.map_none]

/-- The shell's file with nothing in it. -/
def emptyImage : Image := { shellImage with inodes := fun _ => ⟨0, fun _ => 0⟩ }

/-- An empty file is a program where the stack still holds the header of the last one. -/
theorem accepts_stale_header : ¬∀ (img : Image) (command : List UInt8),
    DependsOnFile img command := by
  intro h
  have haccepts : Accepts emptyImage shellCommand (staleFrame 0) 0 := by
    unfold Accepts
    decide +kernel
  obtain ⟨d, -, hprogram⟩ := (h emptyImage shellCommand).program _ _ haccepts
  have hsize : emptyImage.fileSize d.inodeNumber = 0 := by
    unfold Image.fileSize
    split_ifs
    · rfl
    · rfl
  exact absurd (hsize ▸ hprogram.size) (by decide)

end Names

end HalOs
