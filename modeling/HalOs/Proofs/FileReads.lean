import HalOs.Model.CallerPcb
import HalOs.Proofs.DescriptorTable

/-!
# Reading files

Reads on a descriptor of a regular file deliver the file from its start, each call as much as
is asked for and left, whatever happens on the other descriptors in between. A buffer inside the
kernel's memory defeats this: the bytes of one file can become the position in another.
-/

namespace HalOs

abbrev regularFileType : UInt32 := 2

/-- The directory fits the boot block, and every regular file has an inode with a size the
block list can hold and blocks that exist. -/
structure Image.WellFormed (img : Image) : Prop where
  dentries : img.numDentries.toNat ≤ maxNumDentries
  inode : ∀ i < img.numDentries.toNat, (img.bootDentries i).fileType = regularFileType →
    (img.bootDentries i).inodeNumber.toNat < img.numInodes.toNat
  size : ∀ i < img.numDentries.toNat, (img.bootDentries i).fileType = regularFileType →
    (img.inodes (img.bootDentries i).inodeNumber.toNat).numBytes.toNat ≤
      maxDataBlocks * blockBytes
  blocks : ∀ i < img.numDentries.toNat, (img.bootDentries i).fileType = regularFileType →
    ∀ j, j * blockBytes < (img.inodes (img.bootDentries i).inodeNumber.toNat).numBytes.toNat →
      ((img.inodes (img.bootDentries i).inodeNumber.toNat).dataBlockNumber j).toNat <
        img.numDataBlocks.toNat

/-- The contents of a file. -/
def Image.contents (img : Image) (inode : ℕ) : List UInt8 :=
  (List.range (img.inodes inode).numBytes.toNat).map (img.fileByte inode)

section ReadData

variable {img : Image} {inode n cur : ℕ}

@[simp] lemma contents_length :
    (img.contents inode).length = (img.inodes inode).numBytes.toNat := by
  simp [Image.contents]

lemma readDataLoop_eq (h : cur ≤ (img.inodes inode).numBytes.toNat) :
    readDataLoop img inode n cur = ((img.contents inode).drop cur).take n := by
  induction n generalizing cur with
  | zero => rfl
  | succ n ih =>
    unfold readDataLoop
    by_cases hend : cur = (img.inodes inode).numBytes.toNat
    · rw [if_pos hend, List.drop_of_length_le (by rw [contents_length, hend]), List.take_nil]
    · have hlt : cur < (img.contents inode).length := by
        rw [contents_length]
        omega
      have hbyte : (img.contents inode)[cur] = img.fileByte inode cur := by
        simp [Image.contents]
      rw [if_neg hend, ih (by omega), List.drop_eq_getElem_cons hlt, List.take_succ_cons, hbyte]

/-- `read_data` of an existing inode, within a file and below 2 GB. -/
lemma readData_eq {pos : ℕ} (len : ℕ) (hinode : inode < img.numInodes.toNat)
    (hpos : pos ≤ (img.inodes inode).numBytes.toNat)
    (hsize : (img.inodes inode).numBytes.toNat < 2 ^ 31) (hlen : len < 2 ^ 31) :
    readData img inode pos len =
      (((min len ((img.inodes inode).numBytes.toNat - pos) : ℕ) : ℤ),
        ((img.contents inode).drop pos).take len) := by
  have hnum := img.numInodes.toNat_lt
  unfold readData
  rw [if_neg (by omega)]
  by_cases hend : (img.inodes inode).numBytes.toNat ≤ pos
  · have hdrop : (img.contents inode).drop pos = [] :=
      List.drop_of_length_le (by rw [contents_length]; exact hend)
    rw [if_pos hend, hdrop, List.take_nil, Nat.sub_eq_zero_of_le hend, Nat.min_zero]
    rfl
  · have hcount : (pos + len) % 2 ^ 32 - pos = len := by omega
    have hlength : (((img.contents inode).drop pos).take len).length =
        min len ((img.inodes inode).numBytes.toNat - pos) := by
      rw [List.length_take, List.length_drop, contents_length]
    rw [if_neg hend]
    simp only [hcount, readDataLoop_eq hpos, hlength]
    rw [asInt32_of_lt (by omega)]

end ReadData

/-! ### One descriptor among others -/

/-- An inode that names a regular file and nothing else. -/
structure RegularFile (img : Image) (inode : UInt32) : Prop where
  dentry : ∃ j < img.numDentries.toNat, (img.bootDentries j).inodeNumber = inode
  type : ∀ j < img.numDentries.toNat, (img.bootDentries j).inodeNumber = inode →
    (img.bootDentries j).fileType = regularFileType
  stored : inode.toNat < img.numInodes.toNat
  size : (img.inodes inode.toNat).numBytes.toNat < 2 ^ 31

/-- Descriptor `i` is open on the file, `pos` bytes from its start. -/
structure OpenAt (img : Image) (inode : UInt32) (i : Fin 8) (pos : ℕ) (fds : FdTable) : Prop where
  entry : fds i = ⟨some .file, inode, UInt32.ofNat pos, 1⟩
  pos : pos ≤ (img.inodes inode.toNat).numBytes.toNat

/-- One call as a step of the caller's PCB. -/
def PcbCall.step (img : Image) (lay : TableLayout) (p : CallerPcb) (call : PcbCall) :
    Option CallerPcb :=
  (call.run img lay p).map Prod.snd

/-- The call stores nothing into the kernel's 4 MB. -/
def PcbCall.SparesKernel (img : Image) (lay : TableLayout) (p : CallerPcb) (call : PcbCall) :
    Prop :=
  ∀ t p', call.run img lay p = some (t, p') → t.MissesKernel

/-- The calls of a run in which descriptor `i` is only read, and never for less than 0 bytes. -/
def OnlyRead (i : Fin 8) : PcbCall → Prop
  | .read c _ _ => c.fd = i.val → 0 ≤ c.nbytes ∧ c.nbytes < 2 ^ 31
  | .write fd _ => fd ≠ i.val
  | .opens _ => True
  | .close fd => fd ≠ i.val
  | .getargs _ _ => True

instance (i : Fin 8) (call : PcbCall) : Decidable (OnlyRead i call) := by
  cases call with
  | read c l old =>
    exact inferInstanceAs (Decidable (c.fd = i.val → 0 ≤ c.nbytes ∧ c.nbytes < 2 ^ 31))
  | write fd dev => exact inferInstanceAs (Decidable (fd ≠ i.val))
  | opens filename => exact isTrue trivial
  | close fd => exact inferInstanceAs (Decidable (fd ≠ i.val))
  | getargs buf nbytes => exact isTrue trivial

structure ReadResult where
  nbytes : ℤ
  value : ℤ
  bytes : List UInt8

/-- What a call gives its caller, if it is a read on descriptor `i`. -/
def readsOf (img : Image) (lay : TableLayout) (i : Fin 8) (p : CallerPcb) :
    PcbCall → List ReadResult
  | .read c l old =>
    if c.fd = i.val then
      ((c.runPcb img lay l old p).map fun r => ⟨c.nbytes, r.1.value, r.1.bytes⟩).toList
    else []
  | _ => []

section Reads

variable {img : Image} {lay : TableLayout} {inode : UInt32} {i : Fin 8} {pos : ℕ} {fds : FdTable}
  {p p' : CallerPcb} {c : ReadCall} {l : Line} {old : ℕ → UInt8} {t : Transfer}

/-- The reverse lookup of the inode finds an entry of a regular file. -/
lemma findDentry_regular (hfile : RegularFile img inode) : ∃ d,
    (findDentryByInodeNum img inode).bind (readDentryByIndex img) = some d ∧
      d.fileType = regularFileType := by
  obtain ⟨j, hj, hino⟩ := hfile.dentry
  cases hfind : findDentryByInodeNum img inode with
  | none =>
    have hno := List.find?_eq_none.mp hfind j (List.mem_range.mpr hj)
    exact absurd (decide_eq_true hino) hno
  | some m =>
    obtain ⟨hm, hmem, -⟩ := List.find?_range_eq_some.mp hfind
    have hlt := List.mem_range.mp hmem
    refine ⟨img.bootDentries m, ?_, hfile.type m hlt (of_decide_eq_true hm)⟩
    rw [Option.bind_some, readDentryByIndex, if_neg (by omega)]

/-- The file handler with the descriptor's own parameters takes what is asked for and left. -/
lemma readData_openAt {nbytes : ℤ} (hfile : RegularFile img inode)
    (hpos : pos ≤ (img.inodes inode.toNat).numBytes.toNat) (h0 : 0 ≤ nbytes)
    (hn : nbytes < 2 ^ 31) :
    readData img inode.toNat (UInt32.ofNat pos).toNat (nbytes % 2 ^ 32).toNat =
      (min nbytes ((img.contents inode.toNat).length - pos : ℕ),
        ((img.contents inode.toNat).drop pos).take nbytes.toNat) := by
  have hsize := hfile.size
  have hlen : (nbytes % 2 ^ 32).toNat = nbytes.toNat := by omega
  have hposnat : (UInt32.ofNat pos).toNat = pos := by
    rw [UInt32.toNat_ofNat']
    omega
  rw [hposnat, hlen, readData_eq nbytes.toNat hfile.stored hpos hsize (by omega), contents_length]
  congr 1
  omega

/-- The entry behind `n` more bytes of the file. -/
lemma OpenAt.moved {n : ℕ} (hopen : OpenAt img inode i pos fds)
    (hsize : (img.inodes inode.toNat).numBytes.toNat < 2 ^ 31)
    (hn : n ≤ (img.inodes inode.toNat).numBytes.toNat - pos) :
    OpenAt img inode i (pos + n) (Function.update fds i
      { fds i with filePosition := (fds i).filePosition + UInt32.ofInt (n : ℤ) }) := by
  have hpos := hopen.pos
  have hcast : ((n : ℤ) % 2 ^ 32).toNat = n := by omega
  have hnext : UInt32.ofNat pos + UInt32.ofInt (n : ℤ) = UInt32.ofNat (pos + n) := by
    apply UInt32.toNat_inj.mp
    rw [UInt32.toNat_add, UInt32.ofInt, hcast]
    simp only [UInt32.toNat_ofNat']
    omega
  refine ⟨?_, by omega⟩
  simp only [Function.update_self, hopen.entry, hnext]

/-- How a read ends: refused before any handler runs, or with the stores of a handler and the
position of its entry moved. -/
lemma runPcb_cases (h : c.runPcb img lay l old p = some (t, p')) :
    ((∀ i, c.entry p.fds = some i → readDispatch img p.fds i = none) ∧
        t = ⟨-1, c.buf.toNat, []⟩ ∧ p' = p) ∨
      ∃ i table args advance, c.entry p.fds = some i ∧ (p.fds i).fileOpTablePtr = some table ∧
        readDispatch img p.fds i = some (args, advance) ∧
        t = c.handlerTransfer img l old table args ∧
        p' = { lay.pcbAfter t p with
          fds := Function.update (lay.after t p.fds) i { lay.after t p.fds i with
            filePosition := (lay.after t p.fds i).filePosition + advance t.value } } := by
  unfold ReadCall.runPcb at h
  cases he : c.entry p.fds with
  | none =>
    simp only [he, Option.some.injEq, Prod.mk.injEq] at h
    exact Or.inl ⟨fun _ hi => absurd hi (by simp), h.1.symm, h.2.symm⟩
  | some i =>
    simp only [he] at h
    obtain ⟨table, htable, h⟩ := Option.map_eq_some_iff.mp h
    cases hd : readDispatch img p.fds i with
    | none =>
      simp only [hd, Prod.mk.injEq] at h
      exact Or.inl ⟨fun _ hi => Option.some.inj hi ▸ hd, h.1.symm, h.2.symm⟩
    | some d =>
      simp only [hd, Prod.mk.injEq] at h
      obtain ⟨rfl, rfl⟩ := h
      exact Or.inr ⟨i, table, d.1, d.2, rfl, htable, hd, rfl, rfl⟩

/-- A read that misses the kernel leaves the entries of the other descriptors. -/
lemma runPcb_other (h : c.runPcb img lay l old p = some (t, p')) (ht : t.MissesKernel)
    (hfd : c.fd ≠ i.val) : p'.fds i = p.fds i := by
  rcases runPcb_cases h with ⟨-, -, rfl⟩ | ⟨j, table, args, advance, he, -, -, -, rfl⟩
  · rfl
  · have hij : i ≠ j := by
      rintro rfl
      exact hfd (fdIndex_eq (Option.filter_eq_some_iff.mp he).1)
    simp only [after_eq ht, Function.update_of_ne hij]

/-- How `read` takes the descriptor. -/
lemma OpenAt.dispatched (hopen : OpenAt img inode i pos fds) (hfile : RegularFile img inode)
    (hi : 2 ≤ i) (hfd : c.fd = i.val) : c.entry fds = some i ∧
      readDispatch img fds i = some (.file inode (UInt32.ofNat pos), UInt32.ofInt) := by
  obtain ⟨d, hd, htype⟩ := findDentry_regular hfile
  have hi0 : i ≠ 0 := by
    rintro rfl
    exact absurd hi (by decide)
  have hi1 : i ≠ 1 := by
    rintro rfl
    exact absurd hi (by decide)
  have hrtc : ¬d.fileType = rtcFileType := by
    rw [htype]
    decide
  have hdir : ¬d.fileType = directoryFileType := by
    rw [htype]
    decide
  constructor
  · rw [ReadCall.entry, hfd, fdIndex_self, Option.filter_some_pos]
    rw [hopen.entry]
    exact decide_eq_true ⟨rfl, hi1⟩
  · simp only [readDispatch, if_neg hi0, hopen.entry, hd, Option.map_some, if_neg hrtc,
      if_neg hdir]

/-- A read on the descriptor takes what is asked for and left, and moves on by as much. -/
lemma read_openAt (hfile : RegularFile img inode) (hopen : OpenAt img inode i pos p.fds)
    (hi : 2 ≤ i) (hfd : c.fd = i.val) (h0 : 0 ≤ c.nbytes) (hn : c.nbytes < 2 ^ 31)
    (h : c.runPcb img lay l old p = some (t, p')) (ht : t.MissesKernel) :
    t.value = min c.nbytes ((img.contents inode.toNat).length - pos : ℕ) ∧
      t.bytes = ((img.contents inode.toNat).drop pos).take c.nbytes.toNat ∧
      OpenAt img inode i (pos + t.bytes.length) p'.fds := by
  obtain ⟨hentry, hdispatch⟩ := hopen.dispatched hfile hi hfd
  rcases runPcb_cases h with ⟨hnone, -⟩ | ⟨j, table, args, advance, he, htable, hd, hdone, rfl⟩
  · exact absurd ((hnone i hentry).symm.trans hdispatch) (by simp)
  obtain rfl := Option.some.inj (hentry.symm.trans he)
  obtain ⟨rfl, rfl⟩ := Prod.mk.inj (Option.some.inj (hdispatch.symm.trans hd))
  rw [hopen.entry, Option.some.injEq] at htable
  subst htable
  simp only [ReadCall.handlerTransfer, ReadCall.delivers,
    readData_openAt hfile hopen.pos h0 hn] at hdone
  have hlength : t.bytes.length =
      min c.nbytes.toNat ((img.inodes inode.toNat).numBytes.toNat - pos) := by
    rw [hdone]
    simp only [List.length_take, List.length_drop, contents_length]
  have hvalue : t.value = (t.bytes.length : ℤ) := by
    rw [hlength, hdone, contents_length]
    dsimp only
    omega
  refine ⟨by rw [hdone], by rw [hdone], ?_⟩
  simp only [after_eq ht, hvalue]
  exact hopen.moved hfile.size (by omega)

lemma sysOpen_other {filename : List UInt8} {r : ℤ × FdTable} (huse : (fds i).flags = 1)
    (h : sysOpen img fds filename = some r) : r.2 i = fds i := by
  unfold sysOpen at h
  split at h
  · obtain rfl := Option.some.inj h
    rfl
  · rename_i j hj
    have hfree : (fds j).flags ≠ 1 := by simpa using List.find?_some hj
    have hij : i ≠ j := by
      rintro rfl
      exact hfree huse
    obtain ⟨found, -, rfl⟩ := Option.map_eq_some_iff.mp h
    cases found with
    | none => rfl
    | some d => exact Function.update_of_ne hij _ _

lemma sysClose_other {fd : ℤ} (hfd : fd ≠ i.val) : (sysClose fds fd).2 i = fds i := by
  unfold sysClose
  cases hj : fdIndex fd with
  | none => rfl
  | some j =>
    have hij : i ≠ j := by
      intro he
      exact hfd (he ▸ fdIndex_eq hj)
    dsimp only
    split_ifs
    · rfl
    · rfl
    · exact Function.update_of_ne hij _ _

/-- What a list of reads from a position gives when each takes what is left. -/
def Delivers (file : List UInt8) : ℕ → List ReadResult → Prop
  | _, [] => True
  | pos, r :: rs => 0 ≤ r.nbytes ∧ r.value = min r.nbytes (file.length - pos : ℕ) ∧
      r.bytes = (file.drop pos).take r.nbytes.toNat ∧ Delivers file (pos + r.bytes.length) rs

/-- A call keeps the descriptor on its file; a read on it moves it on by what it delivers. -/
lemma step_openAt {call : PcbCall} (hfile : RegularFile img inode)
    (hopen : OpenAt img inode i pos p.fds) (hi : 2 ≤ i) (hcall : OnlyRead i call)
    (hspares : call.SparesKernel img lay p) (h : call.step img lay p = some p') :
    (readsOf img lay i p call = [] ∧ OpenAt img inode i pos p'.fds) ∨
      ∃ r, readsOf img lay i p call = [r] ∧ 0 ≤ r.nbytes ∧
        r.value = min r.nbytes ((img.contents inode.toNat).length - pos : ℕ) ∧
        r.bytes = ((img.contents inode.toNat).drop pos).take r.nbytes.toNat ∧
        OpenAt img inode i (pos + r.bytes.length) p'.fds := by
  have hkeep : p'.fds i = p.fds i → OpenAt img inode i pos p'.fds := by
    intro he
    exact ⟨he.trans hopen.entry, hopen.pos⟩
  obtain ⟨⟨t, _⟩, hr, rfl⟩ := Option.map_eq_some_iff.mp h
  have ht := hspares t _ hr
  cases call with
  | read c l old =>
    by_cases hfd : c.fd = i.val
    · obtain ⟨h0, hn⟩ := hcall hfd
      obtain ⟨hvalue, hbytes, hopen'⟩ := read_openAt hfile hopen hi hfd h0 hn hr ht
      have hrun : c.runPcb img lay l old p = some (t, _) := hr
      refine Or.inr ⟨⟨c.nbytes, t.value, t.bytes⟩, ?_, h0, hvalue, hbytes, hopen'⟩
      rw [readsOf, if_pos hfd, hrun]
      rfl
    · exact Or.inl ⟨if_neg hfd, hkeep (runPcb_other hr ht hfd)⟩
  | write fd dev =>
    obtain ⟨-, rfl⟩ := Prod.mk.inj (Option.some.inj hr)
    exact Or.inl ⟨rfl, hopen⟩
  | opens filename =>
    obtain ⟨r', hr', hsame⟩ := Option.map_eq_some_iff.mp hr
    obtain ⟨-, rfl⟩ := Prod.mk.inj hsame
    have huse : (p.fds i).flags = 1 := by rw [hopen.entry]
    exact Or.inl ⟨rfl, hkeep (sysOpen_other huse hr')⟩
  | close fd =>
    obtain ⟨-, rfl⟩ := Prod.mk.inj (Option.some.inj hr)
    exact Or.inl ⟨rfl, hkeep (sysClose_other hcall)⟩
  | getargs buf nbytes =>
    obtain ⟨rfl, rfl⟩ := Prod.mk.inj (Option.some.inj hr)
    exact Or.inl ⟨rfl, hkeep (congrFun (after_eq ht) i)⟩

lemma run_openAt {calls : List PcbCall} (hfile : RegularFile img inode) (hi : 2 ≤ i)
    (hrun : Runs.Path (fun p call => call.step img lay p)
      (fun p call => OnlyRead i call ∧ call.SparesKernel img lay p) p calls p')
    (hopen : OpenAt img inode i pos p.fds) :
    Delivers (img.contents inode.toNat) pos
        (Runs.trace (fun p call => call.step img lay p) (readsOf img lay i) p calls) ∧
      ∃ pos', OpenAt img inode i pos' p'.fds := by
  induction hrun generalizing pos with
  | nil => exact ⟨trivial, pos, hopen⟩
  | cons ok next rest ih =>
    rw [Runs.trace_cons next]
    rcases step_openAt hfile hopen hi ok.1 ok.2 next with
      ⟨hnone, hopen'⟩ | ⟨r, hr, h0, hv, hb, hopen'⟩
    · rw [hnone]
      exact ih hopen'
    · rw [hr]
      obtain ⟨hrest, hend⟩ := ih hopen'
      exact ⟨⟨h0, hv, hb, hrest⟩, hend⟩

end Reads

/-! ### What was delivered -/

section Delivered

variable {file : List UInt8} {pos : ℕ} {rs pre post : List ReadResult} {r : ReadResult}

/-- All that some reads have delivered. -/
def delivered (rs : List ReadResult) : List UInt8 := (rs.map ReadResult.bytes).flatten

lemma delivered_cons : delivered (r :: rs) = r.bytes ++ delivered rs := rfl

lemma Delivers.delivered_eq (h : Delivers file pos rs) :
    delivered rs = (file.drop pos).take (delivered rs).length := by
  induction rs generalizing pos with
  | nil => rfl
  | cons r rs ih =>
    obtain ⟨-, -, hbytes, hrest⟩ := h
    have hfirst : r.bytes = (file.drop pos).take r.bytes.length := by
      conv_lhs => rw [hbytes]
      rw [hbytes, List.length_take, ← List.take_eq_take_min]
    have hnext := ih hrest
    rw [← List.drop_drop] at hnext
    rw [delivered_cons, List.length_append, List.take_add, ← hfirst, ← hnext]

lemma Delivers.after (h : Delivers file pos (pre ++ rs)) :
    Delivers file (pos + (delivered pre).length) rs := by
  induction pre generalizing pos with
  | nil => exact h
  | cons r pre ih =>
    have hrest := ih h.2.2.2
    rw [delivered_cons, List.length_append, ← Nat.add_assoc]
    exact hrest

lemma Delivers.before (h : Delivers file pos (pre ++ rs)) : Delivers file pos pre := by
  induction pre generalizing pos with
  | nil => trivial
  | cons r pre ih => exact ⟨h.1, h.2.1, h.2.2.1, ih h.2.2.2⟩

/-- Each read from the start of a file returns what is asked for and left, and 0 for a
positive count only when everything has been delivered. -/
lemma Delivers.result (h : Delivers file 0 (pre ++ r :: post)) :
    r.value = min r.nbytes (file.length - (delivered pre).length : ℕ) ∧
      (r.bytes.length : ℤ) = r.value ∧ (0 < r.nbytes → r.value = 0 → delivered pre = file) := by
  obtain ⟨h0, hvalue, hbytes, -⟩ := h.after
  rw [Nat.zero_add] at hvalue hbytes
  refine ⟨hvalue, ?_, fun hpos hzero => ?_⟩
  · rw [hvalue, hbytes, List.length_take, List.length_drop]
    omega
  · have hdone := h.before.delivered_eq
    rw [List.drop_zero] at hdone
    rw [hdone]
    apply List.take_of_length_le
    omega

end Delivered

/-! ### From `open` on -/

section Opened

variable {img : Image} {lay : TableLayout} {d : Dentry} {i : Fin 8} {fds₀ fds : FdTable}
  {p p' : CallerPcb} {filename : List UInt8}

lemma readDentryByName_mem (h : readDentryByName img filename = some (some d)) :
    ∃ j < img.numDentries.toNat, d = img.bootDentries j := by
  unfold readDentryByName at h
  split at h
  · exact absurd h (by simp)
  · split at h
    · rename_i j hj
      obtain rfl := Option.some.inj (Option.some.inj h)
      have hmem := List.mem_range.mp (List.mem_of_find?_eq_some hj)
      exact ⟨j, by omega, rfl⟩
    · split at h <;> exact absurd h (by simp)

lemma sysOpen_openAt (hname : readDentryByName img filename = some (some d))
    (htype : d.fileType = regularFileType) (hstdin : (fds₀ 0).flags = 1)
    (hstdout : (fds₀ 1).flags = 1)
    (hopen : sysOpen img fds₀ filename = some ((i.val : ℤ), fds)) :
    2 ≤ i ∧ OpenAt img d.inodeNumber i 0 fds := by
  unfold sysOpen at hopen
  split at hopen
  · simp only [Option.some.injEq, Prod.mk.injEq] at hopen
    omega
  · rename_i j hj
    have hfree : (fds₀ j).flags ≠ 1 := by simpa using List.find?_some hj
    rw [hname] at hopen
    simp only [Option.map_some, Option.some.injEq, Prod.mk.injEq] at hopen
    obtain ⟨hval, rfl⟩ := hopen
    obtain rfl : j = i := by
      apply Fin.ext
      exact_mod_cast hval
    have htable : openTable d.fileType = .file := by
      rw [htype]
      decide
    refine ⟨?_, ?_, Nat.zero_le _⟩
    · by_contra hlt
      have hcases : j = 0 ∨ j = 1 := by omega
      rcases hcases with rfl | rfl
      · exact hfree hstdin
      · exact hfree hstdout
    · rw [Function.update_self, htable]
      rfl

/-- Every sequence of reads on a freshly opened regular file delivers it from its start, with
any calls on other descriptors in between, as long as no call stores into the kernel's memory;
and the next read returns. -/
theorem reads_deliver {calls : List PcbCall} (hwf : img.WellFormed)
    (hname : readDentryByName img filename = some (some d)) (htype : d.fileType = regularFileType)
    (hshared : ∀ j < img.numDentries.toNat, (img.bootDentries j).inodeNumber = d.inodeNumber →
      (img.bootDentries j).fileType = d.fileType)
    (hstdin : (p.fds 0).flags = 1) (hstdout : (p.fds 1).flags = 1)
    (hopen : sysOpen img p.fds filename = some ((i.val : ℤ), fds))
    (hrun : Runs.Path (fun p call => PcbCall.step img lay p call)
      (fun p call => OnlyRead i call ∧ call.SparesKernel img lay p)
      { p with fds := fds } calls p') :
    let file := img.contents d.inodeNumber.toNat
    let reads := Runs.trace (fun p call => PcbCall.step img lay p call) (readsOf img lay i)
      { p with fds := fds } calls
    delivered reads = file.take (delivered reads).length ∧
      (∀ (pre : List ReadResult) (r : ReadResult) (post : List ReadResult),
        reads = pre ++ r :: post →
        r.value = min r.nbytes (file.length - (delivered pre).length : ℕ) ∧
        (r.bytes.length : ℤ) = r.value ∧ (0 < r.nbytes → r.value = 0 → delivered pre = file)) ∧
      ∀ (c : ReadCall) (l : Line) (old : ℕ → UInt8), c.fd = i.val →
        ∃ r, (PcbCall.read c l old).run img lay p' = some r := by
  intro file reads
  obtain ⟨hi, hat⟩ := sysOpen_openAt hname htype hstdin hstdout hopen
  obtain ⟨j, hj, rfl⟩ := readDentryByName_mem hname
  have hsize := hwf.size j hj htype
  have hfile : RegularFile img (img.bootDentries j).inodeNumber := by
    refine ⟨⟨j, hj, rfl⟩, fun m hm hino => ?_, hwf.inode j hj htype, ?_⟩
    · rw [hshared m hm hino, htype]
    · simp only [maxDataBlocks, blockBytes] at hsize
      omega
  obtain ⟨hdelivers, pos, hend⟩ := run_openAt hfile hi hrun hat
  refine ⟨Delivers.delivered_eq hdelivers, fun pre r post hsplit => ?_, fun c l old hfd => ?_⟩
  · have hpart : Delivers file 0 (pre ++ r :: post) := hsplit ▸ hdelivers
    exact hpart.result
  · obtain ⟨hentry, hdispatch⟩ := hend.dispatched (c := c) hfile hi hfd
    simp only [PcbCall.run, ReadCall.runPcb, hentry, hend.entry, Option.map_some]
    exact ⟨_, rfl⟩

end Opened

lemma shellImage_wellFormed : shellImage.WellFormed := by
  have hfirst : (0 : UInt32).toNat < (1 : UInt32).toNat := by decide
  have hsize : (28 : UInt32).toNat ≤ maxDataBlocks * blockBytes := by decide
  exact ⟨by decide, fun _ _ _ => hfirst, fun _ _ _ => hsize, fun _ _ _ _ _ => hfirst⟩

/-- A process that has done nothing yet. -/
def newPcb : CallerPcb := ⟨newTable, fun _ => 0⟩

def readInto (buf : UInt32) (fd nbytes : ℤ) : PcbCall :=
  .read ⟨fd, buf, nbytes, noDevice, 0⟩ Line.blank fun _ => 0

/-- Two reads of the shell with another descriptor opened, read into `buf` and closed in
between. -/
def splitReads (buf : UInt32) : List PcbCall :=
  [readInto 0x8100000 2 10, .opens shellCommand, readInto buf 3 4, .close 3,
    readInto 0x8100000 2 100]

/-- The guard of the theorem in a form that evaluates: the stores lie in the user page. -/
def InPage (img : Image) (lay : TableLayout) (i : Fin 8) (p : CallerPcb) (call : PcbCall) : Prop :=
  OnlyRead i call ∧ ∀ r ∈ call.run img lay p, r.1.InUserPage

instance (img : Image) (lay : TableLayout) (i : Fin 8) (p : CallerPcb) (call : PcbCall) :
    Decidable (InPage img lay i p call) :=
  inferInstanceAs (Decidable (OnlyRead i call ∧ ∀ r ∈ call.run img lay p, r.1.InUserPage))

theorem reads_deliver_shell : ∃ (fds : FdTable) (p : CallerPcb),
    sysOpen shellImage newTable shellCommand = some (2, fds) ∧
    Runs.Path (fun p call => PcbCall.step shellImage shellLayout p call)
      (fun p call => OnlyRead 2 call ∧ call.SparesKernel shellImage shellLayout p)
      { newPcb with fds := fds } (splitReads 0x8100000) p ∧
    delivered (Runs.trace (fun p call => PcbCall.step shellImage shellLayout p call)
      (readsOf shellImage shellLayout 2) { newPcb with fds := fds } (splitReads 0x8100000)) =
        shellImage.contents 0 := by
  have hrun : ((sysOpen shellImage newTable shellCommand).bind fun r =>
      (Runs.run (fun p call => PcbCall.step shellImage shellLayout p call)
        (InPage shellImage shellLayout 2) { newPcb with fds := r.2 } (splitReads 0x8100000)).map
          fun _ => (r.1, (delivered (Runs.trace
            (fun p call => PcbCall.step shellImage shellLayout p call)
            (readsOf shellImage shellLayout 2) { newPcb with fds := r.2 }
            (splitReads 0x8100000))).length)) = some (2, 28) := by
    decide +kernel
  obtain ⟨⟨value, fds⟩, hopen, hrun⟩ := Option.bind_eq_some_iff.mp hrun
  obtain ⟨p, hrun, heq⟩ := Option.map_eq_some_iff.mp hrun
  obtain ⟨rfl, hlength⟩ := Prod.mk.inj heq
  have hspares : ∀ p call, InPage shellImage shellLayout 2 p call →
      OnlyRead 2 call ∧ call.SparesKernel shellImage shellLayout p :=
    fun p call h => ⟨h.1, fun t p' hr => (h.2 (t, p') hr).missesKernel⟩
  have hpath := (Runs.path_of_run hrun).mono hspares
  have hname : readDentryByName shellImage shellCommand =
      some (some (shellImage.bootDentries 0)) := by
    rfl
  obtain ⟨hpart, -⟩ := reads_deliver (p := newPcb) (i := 2) shellImage_wellFormed hname rfl
    (fun _ _ _ => rfl) rfl rfl hopen hpath
  refine ⟨fds, p, hopen, hpath, hpart.trans (List.take_of_length_le ?_)⟩
  rw [hlength, contents_length]
  decide

/-- The file on descriptor 3 is read over the position of descriptor 2, which then seems to be at
its end. -/
theorem read_moves_other : ¬∀ (img : Image) (lay : TableLayout) (d : Dentry) (i : Fin 8)
    (fds : FdTable) (p p' : CallerPcb) (filename : List UInt8) (calls : List PcbCall),
    img.WellFormed → readDentryByName img filename = some (some d) →
    d.fileType = regularFileType →
    (∀ j < img.numDentries.toNat, (img.bootDentries j).inodeNumber = d.inodeNumber →
      (img.bootDentries j).fileType = d.fileType) →
    (p.fds 0).flags = 1 → (p.fds 1).flags = 1 →
    sysOpen img p.fds filename = some ((i.val : ℤ), fds) →
    Runs.Path (fun p call => PcbCall.step img lay p call) (fun _ => OnlyRead i)
      { p with fds := fds } calls p' →
    ∀ (pre : List ReadResult) (r : ReadResult) (post : List ReadResult),
      Runs.trace (fun p call => PcbCall.step img lay p call) (readsOf img lay i)
        { p with fds := fds } calls = pre ++ r :: post →
      0 < r.nbytes → r.value = 0 → delivered pre = img.contents d.inodeNumber.toNat := by
  intro h
  have hrun : ((sysOpen shellImage newTable shellCommand).bind fun r =>
      (Runs.run (fun p call => PcbCall.step shellImage shellLayout p call) (fun _ => OnlyRead 2)
        { newPcb with fds := r.2 } (splitReads 0x7FE028)).map fun _ => (r.1, (Runs.trace
          (fun p call => PcbCall.step shellImage shellLayout p call)
          (readsOf shellImage shellLayout 2) { newPcb with fds := r.2 }
          (splitReads 0x7FE028)).map fun r => (r.nbytes, r.value, r.bytes.length))) =
      some (2, [(10, 10, 10), (100, 0, 0)]) := by
    decide +kernel
  obtain ⟨⟨value, fds⟩, hopen, hrun⟩ := Option.bind_eq_some_iff.mp hrun
  obtain ⟨p, hrun, heq⟩ := Option.map_eq_some_iff.mp hrun
  obtain ⟨rfl, hreads⟩ := Prod.mk.inj heq
  obtain ⟨first, rest, hsplit, hfirst, hrest⟩ := List.map_eq_cons_iff.mp hreads
  obtain ⟨second, post, rfl, hsecond, -⟩ := List.map_eq_cons_iff.mp hrest
  simp only [Prod.mk.injEq] at hfirst hsecond
  have hname : readDentryByName shellImage shellCommand =
      some (some (shellImage.bootDentries 0)) := by
    rfl
  have hall := h shellImage shellLayout _ 2 fds newPcb p shellCommand _ shellImage_wellFormed hname
    rfl (fun _ _ _ => rfl) rfl rfl hopen (Runs.path_of_run hrun) [first] second post hsplit
    (by omega) hsecond.2.1
  have hlength := congrArg List.length hall
  rw [delivered, List.map_singleton, List.flatten_singleton, hfirst.2.2, contents_length] at hlength
  exact absurd hlength (by decide)

end HalOs
