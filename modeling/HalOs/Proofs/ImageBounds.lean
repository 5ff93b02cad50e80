import HalOs.Proofs.Lookups
import HalOs.Proofs.ReadData

/-!
# Images that nobody has checked

The routines take the counts, sizes and block numbers of the image as they find them. This
file says for which images and arguments each of them returns and stays within the arrays of
the image.
-/

namespace HalOs

namespace Cells

/-- Every cell read is one of the image. -/
def Outcome.Inside {α : Type} (img : Image) (r : Outcome α) : Prop := ∀ c ∈ r.cells, img.Has c

/-- The lookup by name returns, within the image. -/
def NameSafe (img : Image) (fname : List UInt8) : Prop := ∀ old, ∃ fuel r,
  readDentryByName img fname old fuel = some r ∧ Outcome.Inside img r

/-- The lookup by index stays within the image, with an error for an index that is in no
directory. -/
def IndexSafe (img : Image) (index : UInt32) : Prop := ∀ old,
  Outcome.Inside img (readDentryByIndex img index old) ∧
    (maxNumDentries ≤ index.toNat → (readDentryByIndex img index old).value = -1)

def InodeNumSafe (img : Image) (inodeNum : UInt32) : Prop := ∃ fuel r,
  findDentryByInodeNum img inodeNum fuel = some r ∧ Outcome.Inside img r

/-- `read_data` returns, within the image, with an error for an inode that does not exist. -/
def DataSafe (img : Image) (inode offset length : UInt32) : Prop := ∀ buf, ∃ fuel r,
  readData img inode offset buf length fuel = some r ∧ Outcome.Inside img r ∧
    (img.numInodes.toNat ≤ inode.toNat → r.value = -1)

variable {img : Image} {fname : List UInt8} {inode offset length : UInt32}

lemma inside_dentries {α : Type} {v : ℤ} {out : α} {l : List ℕ} :
    Outcome.Inside img ⟨v, out, l.map Cell.dentry⟩ ↔ ∀ i ∈ l, i < maxNumDentries := by
  constructor
  · intro h i hi
    exact h (.dentry i) (List.mem_map_of_mem hi)
  · intro h c hc
    obtain ⟨i, hi, rfl⟩ := List.mem_map.mp hc
    exact h i hi

/-- A routine that searches the directory stays within the boot block when its search does. -/
lemma search_inside_iff {β α : Type} {modulus bound : ℕ} {hit : ℕ → Option β}
    (result : Loops.Cursor β → ℤ × α) (hmod : maxNumDentries < modulus) :
    (∃ fuel r, (Loops.scan modulus bound hit fuel).map (fun c =>
      (⟨(result c).1, (result c).2, c.visited.map Cell.dentry⟩ : Outcome α)) = some r ∧
        Outcome.Inside img r) ↔
    bound ≤ maxNumDentries ∨ ∃ m < maxNumDentries, (hit m).isSome = true := by
  rw [← Loops.scan_below_iff hmod]
  constructor
  · rintro ⟨fuel, r, hr, hinside⟩
    obtain ⟨c, hc, rfl⟩ := Option.map_eq_some_iff.mp hr
    exact ⟨fuel, c, hc, inside_dentries.mp hinside⟩
  · rintro ⟨fuel, c, hc, hvisited⟩
    exact ⟨fuel, _, by rw [hc, Option.map_some], inside_dentries.mpr hvisited⟩

/-- The lookup by name is safe when the name is too long, the directory fits the boot block, or
an entry of the boot block has the name. -/
lemma nameSafe_iff : NameSafe img fname ↔ 32 < strlen fname ∨
    img.numDentries.toNat ≤ maxNumDentries ∨ ∃ m < maxNumDentries, img.NamedAt fname m := by
  rcases Nat.lt_or_ge 32 (strlen fname) with hlong | hlen
  · refine ⟨fun _ => Or.inl hlong, fun _ old => ⟨0, _, readDentryByName_long hlong 0, ?_⟩⟩
    intro c hc
    exact absurd hc List.not_mem_nil
  · have hshort : ¬maxFilenameSize < strlen fname := not_lt.mpr hlen
    have hnamed : ∀ m, (named img fname m).isSome = true ↔ img.NamedAt fname m := by
      intro m
      by_cases hn : img.NamedAt fname m
      · simp [named_of hlen hn, hn]
      · simp [named_of_not hlen hn, hn]
    have hsearch : ∀ old : Dentry, (∃ fuel r, readDentryByName img fname old fuel = some r ∧
        Outcome.Inside img r) ↔ img.numDentries.toNat ≤ maxNumDentries ∨
          ∃ m < maxNumDentries, img.NamedAt fname m := by
      intro old
      simp only [readDentryByName, if_neg hshort, ← hnamed]
      exact search_inside_iff (fun c => (if c.found.isSome then 0 else -1, c.found.getD old))
        (by decide)
    have hno : ¬32 < strlen fname := not_lt.mpr hlen
    rw [or_iff_right hno]
    exact ⟨fun h => (hsearch (img.bootDentries 0)).mp (h _), fun h old => (hsearch old).mpr h⟩

lemma indexSafe_iff {index : UInt32} :
    IndexSafe img index ↔ img.numDentries < index ∨ index.toNat < maxNumDentries := by
  by_cases hlt : img.numDentries < index
  · have hrefused : ∀ old, readDentryByIndex img index old = ⟨-1, old, []⟩ := fun _ => if_pos hlt
    refine ⟨fun _ => Or.inl hlt, fun _ old => ?_⟩
    rw [hrefused]
    exact ⟨fun c hc => absurd hc List.not_mem_nil, fun _ => rfl⟩
  · have hread : ∀ old, readDentryByIndex img index old =
        ⟨0, img.bootDentries index.toNat, [.dentry index.toNat]⟩ := fun _ => if_neg hlt
    have hinside : ∀ old, Outcome.Inside img (readDentryByIndex img index old) ↔
        index.toNat < maxNumDentries := by
      intro old
      rw [hread]
      exact (inside_dentries (l := [index.toNat])).trans List.forall_mem_singleton
    rw [or_iff_right hlt]
    constructor
    · intro h
      exact (hinside (img.bootDentries 0)).mp (h _).1
    · intro h old
      exact ⟨(hinside old).mpr h, fun hge => absurd h (not_lt.mpr hge)⟩

lemma inodeNumSafe_iff {inodeNum : UInt32} : InodeNumSafe img inodeNum ↔
    img.numDentries.toNat ≤ maxNumDentries ∨
      ∃ m < maxNumDentries, (img.bootDentries m).inodeNumber = inodeNum := by
  have hfound : ∀ m, (withInode img inodeNum m).isSome = true ↔
      (img.bootDentries m).inodeNumber = inodeNum := by
    intro m
    unfold withInode
    by_cases h : (img.bootDentries m).inodeNumber = inodeNum
    · simp [h]
    · simp [h]
  simp only [← hfound]
  exact search_inside_iff (fun c => ((c.found.map asInt32).getD (-1), ())) (by decide)

/-- A byte of a file that its inode and the block it lies in both hold. -/
def ByteHeld (img : Image) (inode j : ℕ) : Prop :=
  j < maxDataBlocks * blockBytes ∧
    ((img.inodes inode).dataBlockNumber (j / blockBytes)).toNat < img.numDataBlocks.toNat

lemma byteCells_inside {inode j : ℕ} (h : inode < img.numInodes.toNat) :
    (∀ c ∈ byteCells img inode j, img.Has c) ↔ ByteHeld img inode j := by
  have hblock : j / blockBytes < maxDataBlocks ↔ j < maxDataBlocks * blockBytes :=
    Nat.div_lt_iff_lt_mul (by decide)
  simp only [byteCells, List.forall_mem_cons, List.not_mem_nil, false_imp_iff, implies_true,
    and_true, ByteHeld, ← hblock, Image.Has, h, true_and]

/-- The bytes of the request that the file has. -/
def Requested (img : Image) (inode offset length : UInt32) (j : ℕ) : Prop :=
  offset.toNat ≤ j ∧ j < (offset + length).toNat ∧
    j < (img.inodes inode.toNat).numBytes.toNat

lemma requested_iff {j : ℕ} : Requested img inode offset length j ↔
    ∃ k < deliveredCount img inode offset length, offset.toNat + k = j := by
  unfold Requested deliveredCount
  constructor
  · intro h
    exact ⟨j - offset.toNat, by omega, by omega⟩
  · rintro ⟨k, hk, rfl⟩
    omega

lemma readData_unique {buf : ℕ → UInt8} {fuel fuel' : ℕ} {r r' : Outcome (ℕ → UInt8)}
    (h : readData img inode offset buf length fuel = some r)
    (h' : readData img inode offset buf length fuel' = some r') : r = r' := by
  unfold readData at h h'
  split_ifs at h h' with hrefused hend
  · exact Option.some.inj (h.symm.trans h')
  · exact Option.some.inj (h.symm.trans h')
  · obtain ⟨s, hs, rfl⟩ := Option.map_eq_some_iff.mp h
    obtain ⟨s', hs', rfl⟩ := Option.map_eq_some_iff.mp h'
    rw [Loops.whileLoop_unique hs hs']

/-- Reading a file is safe when the image has inodes and, where it has this one, the inode and
its blocks hold what is read. -/
lemma dataSafe_iff : DataSafe img inode offset length ↔ 0 < img.numInodes.toNat ∧
    (inode.toNat < img.numInodes.toNat →
      ∀ j, Requested img inode offset length j → ByteHeld img inode.toNat j) := by
  by_cases hrefused : img.numInodes - 1 < inode
  · obtain ⟨hpos, hge⟩ := refused_iff.mp hrefused
    constructor
    · intro _
      exact ⟨hpos, fun hlt => absurd hge (not_le.mpr hlt)⟩
    · intro _ buf
      exact ⟨0, _, readData_refused hrefused 0, fun c hc => absurd hc List.not_mem_nil,
        fun _ => rfl⟩
  · have hdone := readData_delivered hrefused offset length
    constructor
    · intro h
      obtain ⟨fuel, r, hr, hinside, -⟩ := h fun _ => 0
      obtain ⟨fuel', r', hr', hdel⟩ := hdone fun _ => 0
      obtain rfl := readData_unique hr hr'
      have hinode : inode.toNat < img.numInodes.toNat :=
        hinside (.inode inode.toNat) ((hdel.cells _).mpr (Or.inl rfl))
      refine ⟨by omega, fun _ j hj => (byteCells_inside hinode).mp fun c hc => ?_⟩
      obtain ⟨k, hk, rfl⟩ := requested_iff.mp hj
      exact hinside c ((hdel.cells c).mpr (Or.inr ⟨k, hk, hc⟩))
    · intro h buf
      obtain ⟨fuel, r, hr, hdel⟩ := hdone buf
      have hinode : inode.toNat < img.numInodes.toNat := by
        by_contra hge
        exact hrefused (refused_iff.mpr ⟨h.1, not_lt.mp hge⟩)
      refine ⟨fuel, r, hr, fun c hc => ?_, fun hge => absurd hinode (not_lt.mpr hge)⟩
      rcases (hdel.cells c).mp hc with rfl | ⟨k, hk, hc⟩
      · exact hinode
      · exact (byteCells_inside hinode).mpr (h.2 hinode _ (requested_iff.mpr ⟨k, hk, rfl⟩)) c hc

/-- When the four routines return and stay within the arrays of the image: the directory fits
the boot block or the search ends in it, the index is refused or in the boot block, there are
inodes, and the bytes of the request have their places in the block list and in the blocks. -/
theorem lookups_safe_iff (img : Image) :
    (∀ fname, NameSafe img fname ↔ 32 < strlen fname ∨
      img.numDentries.toNat ≤ maxNumDentries ∨ ∃ m < maxNumDentries, img.NamedAt fname m) ∧
    (∀ index, IndexSafe img index ↔
      img.numDentries < index ∨ index.toNat < maxNumDentries) ∧
    (∀ inodeNum, InodeNumSafe img inodeNum ↔ img.numDentries.toNat ≤ maxNumDentries ∨
      ∃ m < maxNumDentries, (img.bootDentries m).inodeNumber = inodeNum) ∧
    (∀ inode offset length, DataSafe img inode offset length ↔ 0 < img.numInodes.toNat ∧
      (inode.toNat < img.numInodes.toNat →
        ∀ j, Requested img inode offset length j → ByteHeld img inode.toNat j)) :=
  ⟨fun _ => nameSafe_iff, fun _ => indexSafe_iff, fun _ => inodeNumSafe_iff,
    fun _ _ _ => dataSafe_iff⟩

/-- The image with the shell alone, whose one block the boot block does not count. -/
def blocklessImage : Image := { shellImage with numDataBlocks := 0 }

/-- A block number is followed without a look at the number of blocks. -/
theorem readData_outside : ¬∀ img : Image, (∀ fname, NameSafe img fname) ∧
    (∀ index, IndexSafe img index) ∧ (∀ inodeNum, InodeNumSafe img inodeNum) ∧
    ∀ inode offset length, DataSafe img inode offset length := by
  intro h
  have hsafe : DataSafe blocklessImage 0 0 4 := (h blocklessImage).2.2.2 0 0 4
  have hfirst : Requested blocklessImage 0 0 4 0 := ⟨by decide, by decide, by decide⟩
  have hheld := (dataSafe_iff.mp hsafe).2 (by decide) 0 hfirst
  have hblock : (0 : UInt32).toNat < (0 : UInt32).toNat := hheld.2
  exact absurd hblock (lt_irrefl _)

end Cells

end HalOs
