import HalOs.Proofs.AddressSpace
import HalOs.Proofs.FileReads
import HalOs.Proofs.ReadBounds

/-!
# Calls that fail

A call that returns -1 leaves the PCB of its caller alone, with one exception: `read` moves the
file position also when `read_data` has refused the inode.
-/

namespace HalOs

variable {img : Image} {lay : TableLayout} {p p' : CallerPcb} {t : Transfer} {c : ReadCall}
  {l : Line} {old : ℕ → UInt8} {table : OpTable} {args : ReadArgs}

/-- Every byte of a transfer is stored at a mapped address, so that no store faults. -/
def Transfer.Lands (t : Transfer) : Prop := ∀ j < t.bytes.length,
  let va := UInt32.ofNat (t.address + j)
  inProgram va ∨ inVidmap va ∨ inScreen va ∨ inBacking va ∨ inKernel va

/-- The two lowest addresses are not mapped, so at most 2^32 - 2 bytes land. -/
lemma Transfer.Lands.length_lt (h : t.Lands) : t.bytes.length < 2 ^ 32 - 1 := by
  by_contra hlong
  have hlow : ∀ va : UInt32, va.toNat < 2 →
      ¬(inProgram va ∨ inVidmap va ∨ inScreen va ∨ inBacking va ∨ inKernel va) := by
    intro va hva
    simp only [inProgram, inVidmap, inScreen, inBacking, inKernel, vidmapVmemLoc, largePage,
      vidmapVmemLocPage, align4kb, video, terminalVideo]
    omega
  let j := (2 ^ 32 - t.address % 2 ^ 32) % 2 ^ 32
  by_cases hj : j < t.bytes.length
  · refine hlow _ ?_ (h j hj)
    rw [UInt32.toNat_ofNat']
    simp only [j]
    omega
  · -- only the last byte of the address space is left out, and 1 is not that byte
    refine hlow _ ?_ (h 0 (by omega))
    rw [UInt32.toNat_ofNat']
    simp only [j] at hj
    omega

/-! ### Handlers that fail -/

/-- The test `read_data` refuses an inode by. -/
def Image.refuses (img : Image) (inode : ℕ) : Prop :=
  (img.numInodes.toNat + (2 ^ 32 - 1)) % 2 ^ 32 < inode

lemma readData_refused {inode offset length : ℕ} (h : img.refuses inode) :
    readData img inode offset length = (-1, []) := if_pos h

/-- A read of a known inode can only seem to fail when it stores 2^32 - 1 bytes. -/
lemma readData_succeeds {inode offset length : ℕ} (h : ¬img.refuses inode)
    (hlen : (readData img inode offset length).2.length < 2 ^ 32 - 1) :
    (readData img inode offset length).1 ≠ -1 := by
  unfold readData at hlen ⊢
  rw [Image.refuses] at h
  rw [if_neg h] at hlen ⊢
  by_cases hend : (img.inodes inode).numBytes.toNat ≤ offset
  · rw [if_pos hend]
    decide
  · rw [if_neg hend] at hlen ⊢
    dsimp only at hlen ⊢
    generalize (readDataLoop img inode ((offset + length) % 2 ^ 32 - offset) offset).length = n
      at hlen ⊢
    unfold asInt32
    omega

lemma directoryStores_value (index : ℕ) : (directoryStores img index old).1 ≠ -1 := by
  unfold directoryStores
  by_cases hend : img.numDentries.toNat ≤ index
  · rw [if_pos hend]
    decide
  · have hd : readDentryByIndex img index = some (img.bootDentries index) := if_neg (by omega)
    simp only [if_neg hend, hd, maxFilenameSize]
    split_ifs
    · dsimp only
      decide
    · dsimp only
      omega

lemma delivers_file (img : Image) (l : Line) (old : ℕ → UInt8) (c : ReadCall) (args : ReadArgs) :
    ∃ offset length,
    c.delivers img l old .file args = readData img args.first offset length := by
  cases args with
  | device fd => exact ⟨_, _, rfl⟩
  | directory position => exact ⟨_, _, rfl⟩
  | file inode position => exact ⟨_, _, rfl⟩

/-- Of the handlers only the one for files fails, when its first parameter is no inode; it
stores nothing then. -/
lemma handlerTransfer_fails (h : (c.handlerTransfer img l old table args).Lands) :
    (c.handlerTransfer img l old table args).value = -1 ↔
      table = .file ∧ img.refuses args.first := by
  have hlen := h.length_lt
  unfold ReadCall.handlerTransfer at hlen ⊢
  dsimp only at hlen ⊢
  cases table with
  | terminal =>
    refine iff_of_false ?_ fun hfile => absurd hfile.1 (by decide)
    simp only [ReadCall.delivers]
    omega
  | rtc =>
    refine iff_of_false ?_ fun hfile => absurd hfile.1 (by decide)
    simp only [ReadCall.delivers]
    decide
  | directory =>
    refine iff_of_false ?_ fun hfile => absurd hfile.1 (by decide)
    simp only [ReadCall.delivers]
    exact directoryStores_value _
  | file =>
    obtain ⟨offset, length, heq⟩ := delivers_file img l old c args
    rw [heq] at hlen ⊢
    rw [and_iff_right rfl]
    by_cases hr : img.refuses args.first
    · exact iff_of_true (by rw [readData_refused hr]) hr
    · exact iff_of_false (readData_succeeds hr hlen) hr

lemma handlerTransfer_refused (h : img.refuses args.first) :
    (c.handlerTransfer img l old .file args).bytes = [] := by
  obtain ⟨offset, length, heq⟩ := delivers_file img l old c args
  unfold ReadCall.handlerTransfer
  dsimp only
  rw [heq, readData_refused h]

lemma pcbAfter_nil (h : t.bytes = []) : lay.pcbAfter t p = p := by
  have hnone : ∀ a, t.byteStored a = none := by
    intro a
    rw [Transfer.byteStored, h]
    rfl
  unfold TableLayout.pcbAfter
  rw [after_eq fun a _ _ => hnone a]
  simp only [hnone, Option.getD_none]

/-! ### Calls -/

/-- The directory entry `read` finds for a descriptor is no RTC, the descriptor has the file
operations, and the number it has `read_data` look up (the position for a directory, the inode
for a file) is no inode. -/
def PastInodes (img : Image) (fds : FdTable) (c : ReadCall) : Prop :=
  ∃ i d, c.entry fds = some i ∧ i ≠ 0 ∧ (fds i).fileOpTablePtr = some .file ∧
    (findDentryByInodeNum img (fds i).inodeNum).bind (readDentryByIndex img) = some d ∧
    d.fileType ≠ rtcFileType ∧
    img.refuses
      (if d.fileType = directoryFileType then (fds i).filePosition else (fds i).inodeNum).toNat

/-- The parameters of a handler by the type of the entry found: only for a directory or a file
does the position move. -/
lemma readDispatch_cases {fds : FdTable} {i : Fin 8} {advance : ℤ → UInt32}
    (h : readDispatch img fds i = some (args, advance)) :
    (∀ v, advance v = 0) ∨ ∃ d, i ≠ 0 ∧
      (findDentryByInodeNum img (fds i).inodeNum).bind (readDentryByIndex img) = some d ∧
      d.fileType ≠ rtcFileType ∧ args.first =
        (if d.fileType = directoryFileType then (fds i).filePosition
          else (fds i).inodeNum).toNat := by
  unfold readDispatch at h
  by_cases hi : i = 0
  · rw [if_pos hi] at h
    obtain ⟨-, rfl⟩ := Prod.mk.inj (Option.some.inj h)
    exact Or.inl fun _ => rfl
  rw [if_neg hi] at h
  obtain ⟨d, hd, h⟩ := Option.map_eq_some_iff.mp h
  by_cases hrtc : d.fileType = rtcFileType
  · rw [if_pos hrtc] at h
    obtain ⟨-, rfl⟩ := Prod.mk.inj h
    exact Or.inl fun _ => rfl
  refine Or.inr ⟨d, hi, hd, hrtc, ?_⟩
  rw [if_neg hrtc] at h
  by_cases hdir : d.fileType = directoryFileType
  · rw [if_pos hdir] at h ⊢
    obtain ⟨rfl, -⟩ := Prod.mk.inj h
    rfl
  · rw [if_neg hdir] at h ⊢
    obtain ⟨rfl, -⟩ := Prod.mk.inj h
    rfl

/-- The dispatch of a read that goes past the inodes, and how it moves the position. -/
lemma PastInodes.dispatch {fds : FdTable} {i : Fin 8} (h : PastInodes img fds c)
    (he : c.entry fds = some i) : (fds i).fileOpTablePtr = some .file ∧
      ∃ args advance, readDispatch img fds i = some (args, advance) ∧ img.refuses args.first ∧
        advance (-1) ≠ 0 := by
  obtain ⟨j, d, hj, hne, htable, hd, hrtc, hrefuses⟩ := h
  obtain rfl := Option.some.inj (he.symm.trans hj)
  refine ⟨htable, ?_⟩
  unfold readDispatch
  rw [if_neg hne, hd, Option.map_some, if_neg hrtc]
  by_cases hdir : d.fileType = directoryFileType
  · rw [if_pos hdir] at hrefuses ⊢
    exact ⟨_, _, rfl, hrefuses, by decide⟩
  · rw [if_neg hdir] at hrefuses ⊢
    exact ⟨_, _, rfl, hrefuses, by decide⟩

/-- A read that fails leaves the PCB alone unless it goes past the inodes. -/
lemma read_failed_iff (h : c.runPcb img lay l old p = some (t, p')) (hlands : t.Lands) :
    (t.value = -1 → p' = p) ↔ ¬PastInodes img p.fds c := by
  rcases runPcb_cases h with ⟨hnone, -, rfl⟩ | ⟨i, table, args, advance, he, htable, hd, rfl, rfl⟩
  · refine iff_of_true (fun _ => rfl) fun hpast => ?_
    obtain ⟨i, -, hi, -⟩ := id hpast
    obtain ⟨-, args, advance, hsome, -⟩ := hpast.dispatch hi
    exact absurd ((hnone i hi).symm.trans hsome) (by simp)
  · have hfails := handlerTransfer_fails hlands
    have hafter : img.refuses args.first →
        lay.after (c.handlerTransfer img l old .file args) p.fds = p.fds := fun hrefuses =>
      congrArg CallerPcb.fds (pcbAfter_nil (p := p) (handlerTransfer_refused hrefuses))
    constructor
    · intro hkeep hpast
      obtain ⟨hfile, args', advance', hsome, hrefuses, hmoves⟩ := hpast.dispatch he
      obtain ⟨rfl, rfl⟩ := Prod.mk.inj (Option.some.inj (hd.symm.trans hsome))
      obtain rfl := Option.some.inj (htable.symm.trans hfile)
      have hval := hfails.mpr ⟨rfl, hrefuses⟩
      have hsame := hkeep hval
      rw [hafter hrefuses, pcbAfter_nil (handlerTransfer_refused hrefuses), hval] at hsame
      have hpos := congrArg (fun q : CallerPcb => (q.fds i).filePosition) hsame
      simp only [Function.update_self] at hpos
      exact hmoves (by simpa using hpos)
    · intro hpast hval
      obtain ⟨rfl, hrefuses⟩ := hfails.mp hval
      have hstill : ∀ v, advance v = 0 := by
        rcases readDispatch_cases hd with hzero | ⟨d, hi, hfound, hrtc, hfirst⟩
        · exact hzero
        · rw [hfirst] at hrefuses
          exact absurd ⟨i, d, he, hi, htable, hfound, hrtc, hrefuses⟩ hpast
      rw [hafter hrefuses, pcbAfter_nil (handlerTransfer_refused hrefuses), hstill]
      simp

def PcbCall.PastInodes (img : Image) (p : CallerPcb) : PcbCall → Prop
  | .read c _ _ => HalOs.PastInodes img p.fds c
  | _ => False

/-- A call that returns -1 leaves the PCB of its caller as it was, but for a read that goes
past the inodes. -/
theorem failed_call_iff {call : PcbCall} (h : call.run img lay p = some (t, p'))
    (hlands : t.Lands) : (t.value = -1 → p' = p) ↔ ¬call.PastInodes img p := by
  cases call with
  | read c l old => exact read_failed_iff h hlands
  | write fd dev =>
    obtain ⟨-, rfl⟩ := Prod.mk.inj (Option.some.inj h)
    exact iff_of_true (fun _ => rfl) not_false
  | opens filename =>
    refine iff_of_true (fun hval => ?_) not_false
    obtain ⟨r, hr, h⟩ := Option.map_eq_some_iff.mp h
    obtain ⟨rfl, rfl⟩ := Prod.mk.inj h
    unfold sysOpen at hr
    cases hfree : (List.finRange 8).find? fun i => (p.fds i).flags ≠ 1 with
    | none =>
      simp only [hfree, Option.some.injEq] at hr
      obtain rfl := hr
      rfl
    | some i =>
      simp only [hfree] at hr
      obtain ⟨found, -, rfl⟩ := Option.map_eq_some_iff.mp hr
      cases found with
      | none => rfl
      | some d => exact absurd hval (by simp only; omega)
  | close fd =>
    refine iff_of_true (fun hval => ?_) not_false
    obtain ⟨rfl, rfl⟩ := Prod.mk.inj (Option.some.inj h)
    have hsame : (sysClose p.fds fd).2 = p.fds := by
      unfold sysClose at hval ⊢
      cases hi : fdIndex fd with
      | none => rfl
      | some i =>
        simp only [hi] at hval ⊢
        split_ifs at hval ⊢
        · rfl
        · rfl
    rw [hsame]
  | getargs buf nbytes =>
    refine iff_of_true (fun hval => ?_) not_false
    obtain ⟨rfl, rfl⟩ := Prod.mk.inj (Option.some.inj h)
    unfold getargsStores at hval ⊢
    split_ifs at hval ⊢
    exact pcbAfter_nil rfl

/-- The image of one file, under an inode it does not have. -/
def strayImage : Image := { shellImage with
  bootDentries := fun _ => { shellImage.bootDentries 0 with inodeNumber := 5 } }

/-- A process that has opened the file of `strayImage`. -/
def strayPcb : CallerPcb where
  fds := Function.update newTable 2 ⟨some .file, 5, 0, 1⟩
  rest := fun _ => 0

/-- A read of four bytes from a descriptor. -/
def readFour (fd : ℤ) : PcbCall := .read ⟨fd, 0x8100000, 4, noDevice, 0⟩ Line.blank fun _ => 0

/-- The read of the file is refused, and moves its position. -/
lemma readFour_moves : ((readFour 2).run strayImage shellLayout strayPcb).map
    (fun r => (r.1.value, r.1.bytes.length, (r.2.fds 2).filePosition)) =
      some (-1, 0, 0xFFFFFFFF) := by
  decide +kernel

/-- Calls that are refused: on a standard descriptor, for a name the image does not have, and for
no buffer. -/
def refusedCalls : List PcbCall := [.close 1, .opens [120], readFour 1, .getargs 0 4]

theorem failed_call_closed : (∀ call ∈ refusedCalls, ∃ t,
      call.run strayImage shellLayout strayPcb = some (t, strayPcb) ∧ t.value = -1) ∧
    ∃ t p', (readFour 2).run strayImage shellLayout strayPcb = some (t, p') ∧ t.value = -1 ∧
      p' ≠ strayPcb := by
  constructor
  · have hruns : ∀ call ∈ refusedCalls, (call.run strayImage shellLayout strayPcb).map
        (fun r => (r.1.value, r.1.bytes.length)) = some (-1, 0) := by
      decide +kernel
    intro call hcall
    obtain ⟨⟨t, p'⟩, hrun, heq⟩ := Option.map_eq_some_iff.mp (hruns call hcall)
    obtain ⟨hval, hlen⟩ := Prod.mk.inj heq
    have hnone : t.bytes.length = 0 := hlen
    have hlands : t.Lands := fun j hj => absurd hj (by omega)
    have hpast : ¬call.PastInodes strayImage strayPcb := by
      simp only [refusedCalls, List.mem_cons, List.not_mem_nil, or_false] at hcall
      rcases hcall with rfl | rfl | rfl | rfl
      · exact not_false
      · exact not_false
      · rintro ⟨i, d, hi, -⟩
        have hclosed : ReadCall.entry ⟨1, 0x8100000, 4, noDevice, 0⟩ strayPcb.fds = none := by
          decide +kernel
        exact absurd (hclosed.symm.trans hi) (by simp)
      · exact not_false
    obtain rfl := (failed_call_iff hrun hlands).mpr hpast hval
    exact ⟨t, hrun, hval⟩
  · obtain ⟨⟨t, p'⟩, hrun, heq⟩ := Option.map_eq_some_iff.mp readFour_moves
    simp only [Prod.mk.injEq] at heq
    refine ⟨t, p', hrun, heq.1, ?_⟩
    rintro rfl
    exact absurd heq.2.2 (by decide)

/-- The read of the file is refused, and the position is 2^32 - 1 afterwards. -/
theorem failed_read_moves : ¬∀ (img : Image) (lay : TableLayout) (p p' : CallerPcb)
    (call : PcbCall) (t : Transfer), call.run img lay p = some (t, p') → t.Lands →
    t.value = -1 → p' = p := by
  intro h
  obtain ⟨⟨t, p'⟩, hrun, heq⟩ := Option.map_eq_some_iff.mp readFour_moves
  simp only [Prod.mk.injEq] at heq
  obtain ⟨hval, hlen, hpos⟩ := heq
  have hnone : t.bytes.length = 0 := hlen
  have hlands : t.Lands := fun j hj => absurd hj (by omega)
  rw [h _ _ _ _ _ _ hrun hlands hval] at hpos
  exact absurd hpos (by decide)

end HalOs
