import HalOs.Model.Events
import HalOs.Model.Line
import HalOs.Proofs.FileReads
import HalOs.Proofs.Strings

/-!
# Reads and the caller's buffer

Of the four handlers only the one for files looks at the byte count, and it takes a negative
one for a large unsigned one. The exact condition under which a read keeps to the buffer it
was given, for each handler.
-/

namespace HalOs

/-! ### Ranges of addresses -/

/-- Every byte is stored among the `n` bytes from `buf` on, and the value is at most `n`. -/
def Transfer.Within (t : Transfer) (buf : UInt32) (n : ℕ) : Prop :=
  (∀ j < t.bytes.length, (t.address + j + 2 ^ 32 - buf.toNat) % 2 ^ 32 < n) ∧ t.value ≤ n

section Ranges

variable {buf : UInt32} {n address : ℕ} {v : ℤ} {bytes : List UInt8}

lemma within_iff (haddr : address < 2 ^ 32) (hn : n < 2 ^ 32) :
    (Transfer.mk v address bytes).Within buf n ↔ (bytes.length = 0 ∨
      (address + 2 ^ 32 - buf.toNat) % 2 ^ 32 + bytes.length ≤ n) ∧ v ≤ n := by
  have hbuf := buf.toNat_lt
  change ((∀ j < bytes.length, (address + j + 2 ^ 32 - buf.toNat) % 2 ^ 32 < n) ∧ v ≤ n) ↔ _
  refine and_congr_left fun _ => ?_
  constructor
  · intro h
    by_contra hcon
    obtain ⟨hpos, hover⟩ := not_or.mp hcon
    have hfirst := h 0 (Nat.pos_of_ne_zero hpos)
    have hend := h (n - (address + 2 ^ 32 - buf.toNat) % 2 ^ 32) (by omega)
    omega
  · intro h j hj
    rcases h with h0 | hle
    · omega
    · omega

lemma within_buf_iff (hn : n < 2 ^ 32) :
    (Transfer.mk v buf.toNat bytes).Within buf n ↔ bytes.length ≤ n ∧ v ≤ n := by
  have hbuf := buf.toNat_lt
  have hstart : (buf.toNat + 2 ^ 32 - buf.toNat) % 2 ^ 32 = 0 := by omega
  rw [within_iff hbuf hn]
  refine and_congr_left fun _ => ?_
  simp only [hstart]
  omega

end Ranges

/-! ### `read_data` -/

section Files

variable {img : Image} {inode offset length : ℕ}

/-- The bytes `read_data` stores for a request. -/
def readCount (img : Image) (inode offset length : ℕ) : ℕ :=
  if (img.numInodes.toNat + (2 ^ 32 - 1)) % 2 ^ 32 < inode ∨
      (img.inodes inode).numBytes.toNat ≤ offset then 0
  else min ((offset + length) % 2 ^ 32 - offset) ((img.inodes inode).numBytes.toNat - offset)

lemma readData_length (img : Image) (inode offset length : ℕ) :
    (readData img inode offset length).2.length = readCount img inode offset length := by
  unfold readData readCount
  by_cases hinode : (img.numInodes.toNat + (2 ^ 32 - 1)) % 2 ^ 32 < inode
  · rw [if_pos hinode, if_pos (Or.inl hinode)]
    rfl
  · by_cases hend : (img.inodes inode).numBytes.toNat ≤ offset
    · rw [if_neg hinode, if_pos hend, if_pos (Or.inr hend)]
      rfl
    · rw [if_neg hinode, if_neg hend, if_neg (not_or.mpr ⟨hinode, hend⟩)]
      simp only [readDataLoop_eq (not_le.mp hend).le, List.length_take, List.length_drop,
        contents_length]

lemma readData_value_le {n : ℕ} (hn : n < 2 ^ 31) (h : readCount img inode offset length ≤ n) :
    (readData img inode offset length).1 ≤ n := by
  have hlen := readData_length img inode offset length
  unfold readData at hlen ⊢
  by_cases hinode : (img.numInodes.toNat + (2 ^ 32 - 1)) % 2 ^ 32 < inode
  · rw [if_pos hinode]
    simp only
    omega
  · rw [if_neg hinode] at hlen ⊢
    by_cases hend : (img.inodes inode).numBytes.toNat ≤ offset
    · rw [if_pos hend]
      simp only
      omega
    · rw [if_neg hend] at hlen ⊢
      simp only at hlen ⊢
      rw [hlen, asInt32_of_lt (by omega)]
      exact_mod_cast h

end Files

/-! ### The condition for each handler -/

namespace ReadCall

/-- `directory_read` stores a whole name field, and a NUL behind a name that fills it unless
one is there. -/
def DirectoryFits (img : Image) (old : ℕ → UInt8) (nbytes : ℤ) (index : ℕ) : Prop :=
  img.numDentries.toNat ≤ index ∨
    (32 ≤ nbytes ∧ ((img.bootDentries index).name.length < 32 ∨ old 32 = 0 ∨ 33 ≤ nbytes))

/-- A handler for files that takes the byte count for its buffer. -/
def MiscastFits (img : Image) (c : ReadCall) (first : ℕ) : Prop :=
  readCount img first c.buf.toNat c.stack.toNat = 0 ∨
    ((c.nbytes % 2 ^ 32).toNat + 2 ^ 32 - c.buf.toNat) % 2 ^ 32 +
      readCount img first c.buf.toNat c.stack.toNat ≤ c.nbytes.toNat

/-- A negative count is harmless at the end of a file, and where it does not reach back past the
file's start. -/
def FileFits (img : Image) (nbytes : ℤ) (inode position : UInt32) : Prop :=
  0 ≤ nbytes ∨ (img.numInodes.toNat + (2 ^ 32 - 1)) % 2 ^ 32 < inode.toNat ∨
    (img.inodes inode.toNat).numBytes ≤ position ∨ -nbytes ≤ position.toNat

/-- The condition for each handler; a terminal hands out its whole line. -/
def HandlerFits (img : Image) (l : Line) (old : ℕ → UInt8) (c : ReadCall) :
    OpTable → ReadArgs → Prop
  | .terminal, _ => (l.currentChar : ℤ) + 1 ≤ c.nbytes
  | .rtc, _ => True
  | .directory, .device fd => DirectoryFits img old c.nbytes (fd % 2 ^ 32).toNat
  | .directory, .directory position => DirectoryFits img old c.nbytes position.toNat
  | .directory, .file _ _ => True
  | .file, .device fd => c.MiscastFits img (fd % 2 ^ 32).toNat
  | .file, .directory position => c.MiscastFits img position.toNat
  | .file, .file inode position => FileFits img c.nbytes inode position

/-- The condition for a call, by the descriptor it names; a call that `read` refuses by itself
stores nothing. -/
def FitsBuffer (img : Image) (fds : FdTable) (l : Line) (old : ℕ → UInt8) (c : ReadCall) : Prop :=
  ∀ i table d, c.entry fds = some i → (fds i).fileOpTablePtr = some table →
    readDispatch img fds i = some d → c.HandlerFits img l old table d.1

variable {img : Image} {fds : FdTable} {l : Line} {old : ℕ → UInt8} {c : ReadCall}

lemma terminal_within (hmax : c.nbytes < 2 ^ 31) :
    (Transfer.mk l.bytesTaken.length c.buf.toNat l.bytesTaken).Within c.buf c.nbytes.toNat ↔
      (l.currentChar : ℤ) + 1 ≤ c.nbytes := by
  have hlen : l.bytesTaken.length = l.currentChar + 1 := by simp [Line.bytesTaken, Line.takeLine]
  rw [within_buf_iff (by omega)]
  simp only [hlen]
  omega

lemma strncpy_length (src : ℕ → UInt8) (n : ℕ) : (strncpy src n).length = n := by
  have hle := (List.takeWhile_sublist (· ≠ 0) (l := (List.range n).map src)).length_le
  rw [List.length_map, List.length_range] at hle
  simp only [strncpy, List.length_append, List.length_replicate, cString]
  omega

lemma directory_within (hmax : c.nbytes < 2 ^ 31) (index : ℕ) :
    (Transfer.mk (directoryStores img index old).1 c.buf.toNat
      (directoryStores img index old).2).Within c.buf c.nbytes.toNat ↔
      DirectoryFits img old c.nbytes index := by
  rw [within_buf_iff (by omega)]
  unfold directoryStores DirectoryFits
  by_cases hend : img.numDentries.toNat ≤ index
  · simp only [if_pos hend, List.length_nil]
    omega
  · have hd : readDentryByIndex img index = some (img.bootDentries index) := if_neg (by omega)
    have hname := name_length_le (img.bootDentries index)
    rw [or_iff_right hend]
    simp only [if_neg hend, hd, maxFilenameSize]
    by_cases hlong : (img.bootDentries index).name.length = 32 ∧ old 32 ≠ 0
    · obtain ⟨hfull, hold⟩ := hlong
      rw [if_pos ⟨hfull, hold⟩]
      simp only [List.length_append, List.length_singleton, strncpy_length, hold, false_or]
      omega
    · rw [if_neg hlong]
      simp only [strncpy_length]
      by_cases hold : old 32 = 0
      · simp only [hold, true_or, or_true, and_true]
        omega
      · simp only [hold, ne_eq, not_false_eq_true, and_true] at hlong
        simp only [hold, false_or]
        omega

lemma file_within (hmin : -2 ^ 31 ≤ c.nbytes) (hmax : c.nbytes < 2 ^ 31) (inode position : UInt32) :
    (Transfer.mk (readData img inode.toNat position.toNat (c.nbytes % 2 ^ 32).toNat).1 c.buf.toNat
      (readData img inode.toNat position.toNat (c.nbytes % 2 ^ 32).toNat).2).Within c.buf
        c.nbytes.toNat ↔ FileFits img c.nbytes inode position := by
  have hpos := position.toNat_lt
  have hsize := (img.inodes inode.toNat).numBytes.toNat_lt
  have hcount : (Transfer.mk (readData img inode.toNat position.toNat
        (c.nbytes % 2 ^ 32).toNat).1 c.buf.toNat
      (readData img inode.toNat position.toNat (c.nbytes % 2 ^ 32).toNat).2).Within c.buf
        c.nbytes.toNat ↔
      readCount img inode.toNat position.toNat (c.nbytes % 2 ^ 32).toNat ≤ c.nbytes.toNat := by
    rw [within_buf_iff (by omega)]
    rw [readData_length]
    exact ⟨fun h => h.1, fun h => ⟨h, readData_value_le (by omega) h⟩⟩
  rw [hcount, FileFits, readCount, UInt32.le_iff_toNat_le]
  by_cases hend : (img.numInodes.toNat + (2 ^ 32 - 1)) % 2 ^ 32 < inode.toNat ∨
      (img.inodes inode.toNat).numBytes.toNat ≤ position.toNat
  · rw [if_pos hend]
    exact ⟨fun _ => Or.inr (or_assoc.mp (Or.inl hend)), fun _ => Nat.zero_le _⟩
  · rw [if_neg hend]
    omega

lemma miscast_eq (first : ℕ) : c.miscast img first =
    ⟨(readData img first c.buf.toNat c.stack.toNat).1, (c.nbytes % 2 ^ 32).toNat,
      (readData img first c.buf.toNat c.stack.toNat).2⟩ := rfl

lemma miscast_within (hmax : c.nbytes < 2 ^ 31) (first : ℕ) :
    (c.miscast img first).Within c.buf c.nbytes.toNat ↔ c.MiscastFits img first := by
  have hlen := readData_length img first c.buf.toNat c.stack.toNat
  rw [miscast_eq, within_iff (by omega) (by omega), MiscastFits, ← hlen]
  refine and_iff_left_of_imp fun h => ?_
  refine readData_value_le (by omega) ?_
  rw [← hlen]
  omega

lemma handled_within (hmin : -2 ^ 31 ≤ c.nbytes) (hmax : c.nbytes < 2 ^ 31) {table : OpTable}
    {args : ReadArgs} {t : Transfer} (h : c.handled img l old table args = some t) :
    t.Within c.buf c.nbytes.toNat ↔ c.HandlerFits img l old table args := by
  have hnone : (Transfer.mk 0 c.buf.toNat []).Within c.buf c.nbytes.toNat :=
    (within_buf_iff (by omega)).mpr ⟨Nat.zero_le _, Int.natCast_nonneg _⟩
  cases table with
  | terminal =>
    cases args with
    | device fd =>
      obtain rfl := Option.some.inj h
      exact terminal_within hmax
    | directory position => exact absurd h (by simp [handled, transfer, callRead])
    | file inode position => exact absurd h (by simp [handled, transfer, callRead])
  | rtc =>
    have ht : t = ⟨0, c.buf.toNat, []⟩ := by
      cases args <;> exact (Option.some.inj h).symm
    exact iff_of_true (ht ▸ hnone) trivial
  | directory =>
    cases args with
    | device fd =>
      obtain rfl := Option.some.inj h
      exact directory_within hmax _
    | directory position =>
      obtain rfl := Option.some.inj h
      exact directory_within hmax _
    | file inode position =>
      simp only [handled, transfer, callRead] at h
      split_ifs at h
      · obtain rfl := Option.some.inj h
        exact iff_of_true hnone trivial
      · exact absurd h (by simp)
  | file =>
    cases args with
    | device fd =>
      obtain rfl := Option.some.inj h
      exact miscast_within hmax _
    | directory position =>
      obtain rfl := Option.some.inj h
      exact miscast_within hmax _
    | file inode position =>
      obtain rfl := Option.some.inj h
      exact file_within hmin hmax inode position

/-- A read keeps to the buffer it was given, and to the count, if and only if the condition of
the handler it reaches holds. -/
theorem read_within_iff {t : Transfer} (hmin : -2 ^ 31 ≤ c.nbytes) (hmax : c.nbytes < 2 ^ 31)
    (h : c.outcome img fds l old = some t) :
    t.Within c.buf c.nbytes.toNat ↔ c.FitsBuffer img fds l old := by
  have hrefused : (Transfer.mk (-1) c.buf.toNat []).Within c.buf c.nbytes.toNat :=
    (within_buf_iff (by omega)).mpr ⟨Nat.zero_le _, by omega⟩
  unfold outcome at h
  unfold FitsBuffer
  cases he : c.entry fds with
  | none =>
    simp only [he, Option.some.injEq] at h
    exact iff_of_true (h ▸ hrefused) fun _ _ _ hi => absurd hi (by simp)
  | some i =>
    simp only [he] at h
    obtain ⟨table, htable, h⟩ := Option.bind_eq_some_iff.mp h
    cases hd : readDispatch img fds i with
    | none =>
      simp only [hd, Option.some.injEq] at h
      refine iff_of_true (h ▸ hrefused) fun j _ d hj _ hdj => ?_
      obtain rfl := Option.some.inj hj
      exact absurd (hd.symm.trans hdj) (by simp)
    | some d =>
      simp only [hd] at h
      rw [handled_within hmin hmax h]
      constructor
      · intro hfits j table' d' hj htable' hd'
        obtain rfl := Option.some.inj hj
        obtain rfl := Option.some.inj (htable.symm.trans htable')
        obtain rfl := Option.some.inj (hd.symm.trans hd')
        exact hfits
      · exact fun hfits => hfits i table d rfl htable hd

/-- A read of standard input. -/
def stdinRead (nbytes : ℤ) : ReadCall := ⟨0, 0x8100000, nbytes, ⟨(0, []), 0, 0⟩, 0⟩

/-- Two characters and Enter. -/
def twoTyped : Line := ((Line.blank.typeKey 97).typeKey 98).typeKey newlineAscii

lemma stdinRead_outcome (l : Line) (nbytes : ℤ) :
    (stdinRead nbytes).outcome shellImage newTable l (fun _ => 0) =
      some ⟨l.bytesTaken.length, 0x8100000, l.bytesTaken⟩ := rfl

theorem read_within_iff_line : ∃ t, (stdinRead 128).outcome shellImage newTable twoTyped
      (fun _ => 0) = some t ∧ t.Within 0x8100000 128 := by
  refine ⟨_, stdinRead_outcome twoTyped 128, ?_⟩
  refine (read_within_iff (c := stdinRead 128) (by decide) (by decide)
    (stdinRead_outcome twoTyped 128)).mpr ?_
  intro i table d hi htable hd
  obtain rfl := Option.some.inj hi
  obtain rfl := Option.some.inj htable
  obtain rfl := Option.some.inj hd
  have hfits : (twoTyped.currentChar : ℤ) + 1 ≤ 128 := by decide
  exact hfits

/-- A request for one byte gets the whole line. -/
theorem read_overruns_line : ¬∀ (img : Image) (fds : FdTable) (l : Line) (old : ℕ → UInt8)
    (c : ReadCall) (t : Transfer), -2 ^ 31 ≤ c.nbytes → c.nbytes < 2 ^ 31 →
    c.outcome img fds l old = some t → t.Within c.buf c.nbytes.toNat := by
  intro h
  have hwithin := h shellImage newTable twoTyped _ (stdinRead 1) _ (by decide) (by decide)
    (stdinRead_outcome twoTyped 1)
  have hvalue : (3 : ℤ) ≤ 1 := hwithin.2
  exact absurd hvalue (by decide)

end ReadCall

end HalOs
