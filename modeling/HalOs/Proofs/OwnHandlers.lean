import HalOs.Proofs.DescriptorTable
import HalOs.Proofs.FileReads

/-!
# Reads through the descriptor's own handler

`open` takes the type of a file from the entry found by name, and `read` from the first entry
with the same inode number. A read calls the handler of the descriptor with the parameters of
that handler when the two entries are of one kind, and of no other descriptor.
-/

namespace HalOs

/-- The parameter list of the read handler of an op table, for entry `i` of the table, and what
its type adds to the position for a value returned. -/
def ownDispatch (i : Fin 8) (e : FdElement) : OpTable → ReadArgs × (ℤ → UInt32)
  | .file => (.file e.inodeNum e.filePosition, UInt32.ofInt)
  | .directory => (.directory e.filePosition, fun _ => 1)
  | .rtc => (.device i.val, fun _ => 0)
  | .terminal => (.device i.val, fun _ => 0)

/-- `read` passes its checks at entry `i` and calls the handler there with its own
parameters. -/
structure ReadCall.CallsOwn (img : Image) (c : ReadCall) (fds : FdTable) (i : Fin 8)
    (table : OpTable) : Prop where
  entry : c.entry fds = some i
  handler : (fds i).fileOpTablePtr = some table
  dispatch : readDispatch img fds i = some (ownDispatch i (fds i) table)

lemma ReadCall.CallsOwn.run {img : Image} {c : ReadCall} {fds : FdTable} {i : Fin 8}
    {table : OpTable} (h : c.CallsOwn img fds i table) (lay : TableLayout) :
    c.run img lay fds = (c.transfer img table (ownDispatch i (fds i) table).1).map fun t =>
      (t.value, Function.update (lay.after t fds) i { lay.after t fds i with
        filePosition := (lay.after t fds i).filePosition +
          (ownDispatch i (fds i) table).2 t.value }) := by
  unfold ReadCall.run
  simp only [h.entry, h.handler, h.dispatch, Option.bind_some]

/-- The first directory entry that carries the inode number. -/
def Image.firstCarrying (img : Image) (inodeNum : UInt32) : Option Dentry :=
  (findDentryByInodeNum img inodeNum).map img.bootDentries

/-- The entry `open` finds is of the kind of the first entry with its inode number. -/
def SameKind (img : Image) (d : Dentry) : Prop :=
  (img.firstCarrying d.inodeNumber).map (fun d' => openTable d'.fileType) =
    some (openTable d.fileType)

section Dispatch

variable {img : Image} {fds fds' : FdTable} {i : Fin 8} {filename : List UInt8} {d : Dentry}

/-- An entry that carries the inode number found is read by its index. -/
lemma firstCarrying_eq (inodeNum : UInt32) :
    (findDentryByInodeNum img inodeNum).bind (readDentryByIndex img) =
      img.firstCarrying inodeNum := by
  unfold Image.firstCarrying
  cases hfind : findDentryByInodeNum img inodeNum with
  | none => rfl
  | some m =>
    have hm := List.mem_range.mp (List.mem_of_find?_eq_some hfind)
    rw [Option.bind_some, Option.map_some, readDentryByIndex, if_neg (by omega)]

lemma firstCarrying_isSome {m : ℕ} (hm : m < img.numDentries.toNat) :
    ∃ d, img.firstCarrying (img.bootDentries m).inodeNumber = some d := by
  unfold Image.firstCarrying
  cases hfind : findDentryByInodeNum img (img.bootDentries m).inodeNumber with
  | none =>
    have hno := List.find?_eq_none.mp hfind m (List.mem_range.mpr hm)
    exact absurd rfl (of_decide_eq_false (Bool.not_eq_true _ ▸ hno))
  | some j => exact ⟨_, rfl⟩

/-- The parameters `read` passes are those of the handler that the type of the first entry
with the inode number stands for. -/
lemma readDispatch_eq (img : Image) (fds : FdTable) (hi : i ≠ 0) : readDispatch img fds i =
    (img.firstCarrying (fds i).inodeNum).map fun d =>
      ownDispatch i (fds i) (openTable d.fileType) := by
  unfold readDispatch
  rw [if_neg hi, firstCarrying_eq]
  congr 1
  funext d
  unfold openTable
  by_cases hrtc : d.fileType = rtcFileType
  · simp only [if_pos hrtc, ownDispatch]
  · by_cases hdir : d.fileType = directoryFileType
    · simp only [if_neg hrtc, if_pos hdir, ownDispatch]
    · simp only [if_neg hrtc, if_neg hdir, ownDispatch]

lemma ownDispatch_inj {e : FdElement} {t t' : UInt32}
    (h : ownDispatch i e (openTable t) = ownDispatch i e (openTable t')) :
    openTable t = openTable t' := by
  have hkind : ∀ t, openTable t = .rtc ∨ openTable t = .directory ∨ openTable t = .file := by
    intro t
    unfold openTable
    split_ifs
    · exact Or.inl rfl
    · exact Or.inr (Or.inl rfl)
    · exact Or.inr (Or.inr rfl)
  have hargs := congrArg Prod.fst h
  rcases hkind t with ht | ht | ht <;> rcases hkind t' with ht' | ht' | ht' <;>
    simp only [ht, ht', ownDispatch, reduceCtorEq] at hargs ⊢

/-- Descriptor `i` is open on the directory entry. -/
structure OpenOn (d : Dentry) (i : Fin 8) (fds : FdTable) : Prop where
  handler : (fds i).fileOpTablePtr = some (openTable d.fileType)
  inode : (fds i).inodeNum = d.inodeNumber
  flags : (fds i).flags = 1

lemma OpenOn.moved {pos : UInt32} (h : OpenOn d i fds)
    (hpos : fds' i = { fds i with filePosition := pos }) : OpenOn d i fds' := by
  refine ⟨?_, ?_, ?_⟩
  · rw [hpos, h.handler]
  · rw [hpos, h.inode]
  · rw [hpos, h.flags]

/-- The reads of an open descriptor call its own handler when the kinds agree. -/
lemma callsOwn_iff (hi : 2 ≤ i) (hopen : OpenOn d i fds)
    (hmem : ∃ m < img.numDentries.toNat, d = img.bootDentries m) :
    (∀ c : ReadCall, c.fd = i.val → c.CallsOwn img fds i (openTable d.fileType)) ↔
      SameKind img d := by
  have h0 : i ≠ 0 := by
    rintro rfl
    exact absurd hi (by decide)
  have h1 : i ≠ 1 := by
    rintro rfl
    exact absurd hi (by decide)
  have hdispatch := readDispatch_eq img fds h0
  rw [hopen.inode] at hdispatch
  obtain ⟨m, hm, rfl⟩ := hmem
  obtain ⟨d', hd'⟩ := firstCarrying_isSome hm
  rw [hd', Option.map_some] at hdispatch
  unfold SameKind
  rw [hd', Option.map_some, Option.some.injEq]
  constructor
  · intro h
    have hown := (h ⟨i.val, 0, 0, noDevice, 0⟩ rfl).dispatch
    rw [hdispatch, Option.some.injEq] at hown
    exact ownDispatch_inj hown
  · intro hkind c hc
    refine ⟨?_, hopen.handler, ?_⟩
    · unfold ReadCall.entry
      rw [hc, fdIndex_self]
      exact Option.filter_some_pos (decide_eq_true ⟨hopen.flags, h1⟩)
    · rw [hdispatch, hkind]

end Dispatch

/-! ### Runs -/

section Runs

variable {img : Image} {lay : TableLayout} {fds fds₀ fds₁ : FdTable} {i : Fin 8}
  {filename : List UInt8} {d : Dentry} {call : UserCall} {pre post : List UserCall}

/-- The call does not close descriptor `i`. -/
def HoldsOpen (i : Fin 8) : UserCall → Prop
  | .close fd => fd ≠ i.val
  | _ => True

/-- A call that is no read of the descriptor leaves an open entry as it is, unless it closes
it. -/
lemma entry_eq (hflags : (fds₀ i).flags = 1) (hg : AvoidsKernel img fds₀ call)
    (hclose : i ≤ 1 ∨ HoldsOpen i call) (hread : ∀ c, call = .read c → c.fd ≠ i.val)
    (h : userStep img lay fds₀ call = some fds) : fds i = fds₀ i := by
  obtain ⟨r, hr, rfl⟩ := Option.map_eq_some_iff.mp h
  cases call with
  | read c => exact (read_meets hg hr i).resolve_right fun hmoved => hread c rfl hmoved.1
  | write fd dev =>
    obtain rfl := Option.some.inj hr
    rfl
  | opens filename => exact sysOpen_other hflags hr
  | close fd =>
    obtain rfl := Option.some.inj hr
    by_cases hfd : fd = i.val
    · have hle : i ≤ 1 := hclose.resolve_right fun hne => hne hfd
      simp only [sysClose, hfd, fdIndex_self, if_pos hle]
    · exact sysClose_other hfd

/-- A call keeps an open entry but for its position, unless it closes it. -/
lemma entry_kept (hflags : (fds₀ i).flags = 1) (hg : AvoidsKernel img fds₀ call)
    (hclose : i ≤ 1 ∨ HoldsOpen i call) (h : userStep img lay fds₀ call = some fds) :
    ∃ pos, fds i = { fds₀ i with filePosition := pos } := by
  by_cases hread : ∃ c, call = .read c ∧ c.fd = i.val
  · obtain ⟨c, rfl, -⟩ := hread
    obtain ⟨r, hr, rfl⟩ := Option.map_eq_some_iff.mp h
    rcases read_meets hg hr i with heq | ⟨-, pos, heq⟩
    · exact ⟨(fds₀ i).filePosition, heq⟩
    · exact ⟨pos, heq⟩
  · have hother : ∀ c, call = .read c → c.fd ≠ i.val := fun c hc hfd => hread ⟨c, hc, hfd⟩
    exact ⟨(fds₀ i).filePosition, entry_eq hflags hg hclose hother h⟩

lemma stdioOpen_step (hs : StdioOpen fds₀) (hg : AvoidsKernel img fds₀ call)
    (h : userStep img lay fds₀ call = some fds) : StdioOpen fds := by
  intro j hj
  obtain ⟨pos, hpos⟩ := entry_kept (hs j hj).2 hg (Or.inl hj) h
  rw [hpos]
  exact hs j hj

lemma openOn_step (hs : OpenOn d i fds₀) (hg : AvoidsKernel img fds₀ call)
    (hclose : HoldsOpen i call) (h : userStep img lay fds₀ call = some fds) :
    OpenOn d i fds := by
  obtain ⟨pos, hpos⟩ := entry_kept hs.flags hg (Or.inr hclose) h
  exact hs.moved hpos

/-- A descriptor that `open` returns was free, and is bound to the entry with the name. -/
lemma sysOpen_returned (hname : readDentryByName img filename = some (some d))
    (h : sysOpen img fds₀ filename = some ((i.val : ℤ), fds₁)) :
    (fds₀ i).flags ≠ 1 ∧
      fds₁ = Function.update fds₀ i ⟨some (openTable d.fileType), d.inodeNumber, 0, 1⟩ := by
  unfold sysOpen at h
  split at h
  · have hneg := (Prod.mk.inj (Option.some.inj h)).1
    omega
  · rename_i j hfree
    rw [hname, Option.map_some, Option.some.injEq, Prod.mk.injEq] at h
    obtain ⟨hval, rfl⟩ := h
    have hij : i = j := by omega
    subst hij
    exact ⟨by simpa using List.find?_some hfree, rfl⟩

/-- The entry `open` returned is open on the dentry, at position 0. -/
lemma sysOpen_openOn (hname : readDentryByName img filename = some (some d))
    (h : sysOpen img fds₀ filename = some ((i.val : ℤ), fds₁)) :
    OpenOn d i fds₁ ∧ (fds₁ i).filePosition = 0 := by
  obtain ⟨-, rfl⟩ := sysOpen_returned hname h
  rw [Function.update_self]
  refine ⟨⟨?_, ?_, ?_⟩, rfl⟩
  all_goals simp only [Function.update_self]

/-- A new process keeps descriptors 0 and 1 open, so `open` returns another one. -/
lemma two_le_returned
    (hpre : Runs.Path (userStep img lay) (AvoidsKernel img) newTable pre fds₀)
    (hname : readDentryByName img filename = some (some d))
    (hopen : sysOpen img fds₀ filename = some ((i.val : ℤ), fds₁)) : 2 ≤ i := by
  have hstdio : StdioOpen fds₀ :=
    hpre.invariant (fun _ _ _ hs hg hstep => stdioOpen_step hs hg hstep) newTable_stdioOpen
  by_contra hlt
  have hle : i ≤ 1 := by omega
  exact (sysOpen_returned hname hopen).1 (hstdio i hle).2

/-- In every run that does not store into the kernel's memory, the reads on a descriptor from
`open` to `close` call the handler of the descriptor with its own parameters exactly when the
entry opened is of the kind of the first entry with its inode number. -/
theorem callsOwn_run (hpre : Runs.Path (userStep img lay) (AvoidsKernel img) newTable pre fds₀)
    (hname : readDentryByName img filename = some (some d))
    (hopen : sysOpen img fds₀ filename = some ((i.val : ℤ), fds₁))
    (hpost : Runs.Path (userStep img lay)
      (fun s call => AvoidsKernel img s call ∧ HoldsOpen i call) fds₁ post fds) :
    (∀ c : ReadCall, c.fd = i.val → c.CallsOwn img fds i (openTable d.fileType)) ↔
      SameKind img d := by
  have hi := two_le_returned hpre hname hopen
  have hon : OpenOn d i fds :=
    hpost.invariant (fun _ _ _ hs hg hstep => openOn_step hs hg.1 hg.2 hstep)
      (sysOpen_openOn hname hopen).1
  exact callsOwn_iff hi hon (readDentryByName_mem hname)

/-- `open` binds the first free descriptor of a new process to the entry found. -/
lemma sysOpen_newTable (hname : readDentryByName img filename = some (some d)) :
    sysOpen img newTable filename = some (((2 : Fin 8).val : ℤ),
      Function.update newTable 2 ⟨some (openTable d.fileType), d.inodeNumber, 0, 1⟩) := by
  have hfree : (List.finRange 8).find? (fun i => (newTable i).flags ≠ 1) = some 2 := by decide
  unfold sysOpen
  simp only [hfree, hname, Option.map_some]

/-- The shell, opened and read. -/
theorem callsOwn_run_shell : SameKind shellImage (shellImage.bootDentries 0) ∧
    ∃ fds, Runs.Path (userStep shellImage shellLayout)
        (fun s call => AvoidsKernel shellImage s call ∧ HoldsOpen 2 call) openedTable
        [.read ⟨2, 0x8100000, 28, noDevice, 0⟩] fds ∧
      ∀ c : ReadCall, c.fd = 2 → c.CallsOwn shellImage fds 2 .file := by
  have hkind : SameKind shellImage (shellImage.bootDentries 0) := by
    unfold SameKind
    decide +kernel
  have hname : readDentryByName shellImage shellCommand =
      some (some (shellImage.bootDentries 0)) := by
    have hfound : (readDentryByName shellImage shellCommand).map Option.isSome = some true := by
      decide +kernel
    obtain ⟨found, hfound, hsome⟩ := Option.map_eq_some_iff.mp hfound
    obtain ⟨d, rfl⟩ := Option.isSome_iff_exists.mp hsome
    obtain ⟨m, -, rfl⟩ := readDentryByName_mem hfound
    exact hfound
  have hopen : sysOpen shellImage newTable shellCommand =
      some (((2 : Fin 8).val : ℤ), openedTable) := sysOpen_newTable hname
  have hread : (userStep shellImage shellLayout openedTable
      (.read ⟨2, 0x8100000, 28, noDevice, 0⟩)).isSome = true := by decide +kernel
  obtain ⟨fds, hfds⟩ := Option.isSome_iff_exists.mp hread
  have hpath : Runs.Path (userStep shellImage shellLayout)
      (fun s call => AvoidsKernel shellImage s call ∧ HoldsOpen 2 call) openedTable
      [.read ⟨2, 0x8100000, 28, noDevice, 0⟩] fds :=
    Runs.Path.cons ⟨read_avoidsKernel, trivial⟩ hfds (Runs.Path.nil _)
  have hnil : Runs.Path (userStep shellImage shellLayout) (AvoidsKernel shellImage) newTable []
      newTable := Runs.Path.nil _
  exact ⟨hkind, fds, hpath, (callsOwn_run hnil hname hopen hpath).mpr hkind⟩

/-- The shell as a regular file behind a directory entry with the same inode number. -/
def sharedImage : Image :=
  { shellImage with
    numDentries := 2
    bootDentries := fun i =>
      if i = 0 then ⟨fun j => if j = 0 then 46 else 0, 1, 0⟩ else shellImage.bootDentries i }

/-- The file is read as the directory that shares its inode. -/
theorem read_as_directory : ¬∀ (img : Image) (filename : List UInt8) (d : Dentry) (i : Fin 8)
    (fds : FdTable), readDentryByName img filename = some (some d) →
    sysOpen img newTable filename = some ((i.val : ℤ), fds) →
    ∀ c : ReadCall, c.fd = i.val → c.CallsOwn img fds i (openTable d.fileType) := by
  intro h
  have hname : readDentryByName sharedImage shellCommand =
      some (some (shellImage.bootDentries 0)) := by
    have hfirst : (List.range (min sharedImage.numDentries.toNat 256)).find?
        (fun i => nameMatches shellCommand (sharedImage.bootDentries i)) = some 1 := by
      decide +kernel
    have hshort : ¬maxFilenameSize < strlen shellCommand := by decide
    unfold readDentryByName
    simp only [if_neg hshort, hfirst]
    rfl
  have hkind := (callsOwn_iff (by decide) (sysOpen_openOn hname (sysOpen_newTable hname)).1
    (readDentryByName_mem hname)).mp fun c hc =>
      h sharedImage shellCommand _ 2 _ hname (sysOpen_newTable hname) c hc
  have hdifferent : ¬SameKind sharedImage (shellImage.bootDentries 0) := by
    unfold SameKind
    decide +kernel
  exact hdifferent hkind

end Runs

end HalOs
