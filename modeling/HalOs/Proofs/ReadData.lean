import HalOs.Model.Lookups
import HalOs.Proofs.FileReads

/-!
# Reading file data

The loop of `read_data` keeps three counters in step and has two exits, at the end of the
request and at the end of the file. Whatever the image holds, it returns, copies the bytes
between the offset and the nearer of the two, and reads the cells of the image that these
bytes lie in.
-/

namespace HalOs

namespace Cells

variable {img : Image} {inode offset n d : ℕ} {buf : ℕ → UInt8} {s : Reading}

/-- A byte's number in the block list, and the block it lies in. -/
def byteCells (img : Image) (inode j : ℕ) : List Cell :=
  [.blockNumber inode (j / blockBytes),
    .dataBlock ((img.inodes inode).dataBlockNumber (j / blockBytes)).toNat]

/-- The loop has copied `n` bytes from the offset on. -/
structure Reading.Copied (img : Image) (inode offset : ℕ) (buf : ℕ → UInt8) (n : ℕ)
    (s : Reading) : Prop where
  current : s.currentByteIndex = offset + n
  index : s.i = n
  count : s.numBytesCopied = n
  stored : s.buf = fun k => if k < n then img.fileByte inode (offset + k) else buf k
  cells : ∀ c, c ∈ s.cells ↔ c = .inode inode ∨ ∃ k < n, c ∈ byteCells img inode (offset + k)

lemma round_copied (hs : s.Copied img inode offset buf n)
    (hend : offset + n ≠ (img.inodes inode).numBytes.toNat) :
    (s.round img inode offset).Copied img inode offset buf (n + 1) ∧
      (s.round img inode offset).ret = s.ret := by
  have hcur : ¬s.currentByteIndex = (img.inodes inode).numBytes.toNat := by
    rw [hs.current]
    exact hend
  unfold Reading.round
  simp only [if_neg hcur, and_true]
  refine ⟨?_, ?_, ?_, ?_, fun c => ?_⟩
  · rw [hs.current, Nat.add_assoc]
  · rw [hs.index]
  · rw [hs.count]
  · funext k
    dsimp only
    rw [hs.stored, hs.index, hs.current]
    by_cases hk : k = n
    · rw [hk, Function.update_self, if_pos (Nat.lt_succ_self n)]
      rfl
    · rw [Function.update_of_ne hk]
      have hlt : k < n + 1 ↔ k < n := by omega
      simp only [hlt]
  · dsimp only
    rw [hs.current]
    simp only [List.mem_cons, hs.cells, byteCells, List.not_mem_nil, or_false]
    constructor
    · rintro (h | h | h | h | ⟨k, hk, h⟩)
      · exact Or.inr ⟨n, Nat.lt_succ_self n, Or.inr h⟩
      · exact Or.inr ⟨n, Nat.lt_succ_self n, Or.inl h⟩
      · exact Or.inl h
      · exact Or.inl h
      · exact Or.inr ⟨k, Nat.lt_succ_of_lt hk, h⟩
    · rintro (h | ⟨k, hk, h⟩)
      · exact Or.inr (Or.inr (Or.inl h))
      · rcases Nat.lt_succ_iff_lt_or_eq.mp hk with hlt | rfl
        · exact Or.inr (Or.inr (Or.inr (Or.inr ⟨k, hlt, h⟩)))
        · rcases h with h | h
          · exact Or.inr (Or.inl h)
          · exact Or.inl h

/-- What the loop leaves after the last of `n` bytes. -/
structure Reading.Finished (img : Image) (inode offset : ℕ) (buf : ℕ → UInt8) (n : ℕ)
    (s : Reading) : Prop where
  value : s.ret.getD (asInt32 s.numBytesCopied) = asInt32 n
  stored : s.buf = fun k => if k < n then img.fileByte inode (offset + k) else buf k
  cells : ∀ c, c ∈ s.cells ↔ c = .inode inode ∨ ∃ k < n, c ∈ byteCells img inode (offset + k)

/-- The loop ends at the nearer of the end of the request and the end of the file. -/
lemma loop_finished {bound : ℕ} (hs : s.Copied img inode offset buf n) (hret : s.ret = none)
    (hpos : offset < (img.inodes inode).numBytes.toNat)
    (hd : n + d = min bound (img.inodes inode).numBytes.toNat - offset) :
    ∃ fuel t, Loops.whileLoop (Reading.Going bound) (Reading.round img inode offset) fuel s =
      some t ∧ t.Finished img inode offset buf (n + d) := by
  induction d generalizing s n with
  | zero =>
    by_cases hgoing : s.Going bound
    · have hend : s.currentByteIndex = (img.inodes inode).numBytes.toNat := by
        have hlt : s.currentByteIndex < bound := hgoing.2
        rw [hs.current] at hlt ⊢
        omega
      have hround : s.round img inode offset =
          { s with ret := some (asInt32 (s.currentByteIndex - offset))
                   cells := .inode inode :: s.cells } := by
        unfold Reading.round
        simp only [if_pos hend]
      have hstop : ¬(s.round img inode offset).Going bound := by
        rw [hround]
        exact fun h => absurd h.1 (by simp)
      refine ⟨1, s.round img inode offset, ?_, ?_⟩
      · rw [Loops.whileLoop_next hgoing, Loops.whileLoop_done hstop]
      · rw [hround]
        have hvalue : s.currentByteIndex - offset = n := by
          rw [hs.current]
          omega
        refine ⟨?_, hs.stored, fun c => ?_⟩
        · rw [hvalue, Option.getD_some, Nat.add_zero]
        · rw [List.mem_cons, hs.cells, ← or_assoc, or_self, Nat.add_zero]
    · refine ⟨0, s, Loops.whileLoop_done hgoing, ?_, hs.stored, hs.cells⟩
      rw [hret, hs.count, Option.getD_none, Nat.add_zero]
  | succ d ih =>
    have hgoing : s.Going bound := by
      refine ⟨by rw [hret]; rfl, ?_⟩
      rw [hs.current]
      omega
    obtain ⟨hround, hret'⟩ := round_copied hs (by omega)
    obtain ⟨fuel, t, ht, hfin⟩ := ih hround (hret'.trans hret) (by omega)
    refine ⟨fuel + 1, t, ?_, ?_⟩
    · rw [Loops.whileLoop_next hgoing]
      exact ht
    · rw [show n + (d + 1) = n + 1 + d by omega]
      exact hfin

/-! ### The whole call -/

section Calls

variable {inode offset length : UInt32}

/-- The call returns `n`, has stored the `n` bytes of the file from the offset on, and has read
the cells they lie in. -/
structure Delivered (img : Image) (inode offset : ℕ) (buf : ℕ → UInt8) (n : ℕ)
    (r : Outcome (ℕ → UInt8)) : Prop where
  value : r.value = asInt32 n
  stored : r.out = fun k => if k < n then img.fileByte inode (offset + k) else buf k
  cells : ∀ c, c ∈ r.cells ↔ c = .inode inode ∨ ∃ k < n, c ∈ byteCells img inode (offset + k)

/-- The bytes a call that passes the check of its inode delivers. -/
def deliveredCount (img : Image) (inode offset length : UInt32) : ℕ :=
  min (offset + length).toNat (img.inodes inode.toNat).numBytes.toNat - offset.toNat

lemma refused_iff : img.numInodes - 1 < inode ↔
    0 < img.numInodes.toNat ∧ img.numInodes.toNat ≤ inode.toNat := by
  have hnum := img.numInodes.toNat_lt
  have hinode := inode.toNat_lt
  have hone : (1 : UInt32).toNat = 1 := rfl
  rw [UInt32.lt_iff_toNat_lt, UInt32.toNat_sub, hone]
  omega

lemma readData_refused (h : img.numInodes - 1 < inode) (fuel : ℕ) :
    readData img inode offset buf length fuel = some ⟨-1, buf, []⟩ := if_pos h

/-- A call that passes the check returns, whatever the image holds. -/
theorem readData_delivered (h : ¬img.numInodes - 1 < inode) (offset length : UInt32)
    (buf : ℕ → UInt8) : ∃ fuel r, readData img inode offset buf length fuel = some r ∧
      Delivered img inode.toNat offset.toNat buf (deliveredCount img inode offset length) r := by
  simp only [readData, if_neg h]
  by_cases hend : (img.inodes inode.toNat).numBytes ≤ offset
  · have hcount : deliveredCount img inode offset length = 0 := by
      rw [UInt32.le_iff_toNat_le] at hend
      unfold deliveredCount
      omega
    simp only [if_pos hend, hcount]
    refine ⟨0, _, rfl, rfl, ?_, fun c => ?_⟩
    · simp
    · simp
  · have hpos : offset.toNat < (img.inodes inode.toNat).numBytes.toNat := by
      rw [UInt32.le_iff_toNat_le] at hend
      omega
    have hstart : Reading.Copied img inode.toNat offset.toNat buf 0
        ⟨offset.toNat, 0, 0, buf, none, [.inode inode.toNat]⟩ := by
      refine ⟨rfl, rfl, rfl, ?_, fun c => ?_⟩
      · simp
      · simp
    obtain ⟨fuel, t, ht, hfin⟩ :=
      loop_finished hstart rfl hpos (Nat.zero_add (deliveredCount img inode offset length))
    simp only [if_neg hend]
    rw [Nat.zero_add] at hfin
    refine ⟨fuel, ⟨t.ret.getD (asInt32 t.numBytesCopied), t.buf, t.cells⟩, ?_,
      hfin.value, hfin.stored, hfin.cells⟩
    rw [ht, Option.map_some]

/-- The sizes of the inodes fit their block lists, and the blocks listed exist. -/
structure InodesSound (img : Image) : Prop where
  size : ∀ i < img.numInodes.toNat,
    (img.inodes i).numBytes.toNat ≤ maxDataBlocks * blockBytes
  blocks : ∀ i < img.numInodes.toNat, ∀ j, j * blockBytes < (img.inodes i).numBytes.toNat →
    ((img.inodes i).dataBlockNumber j).toNat < img.numDataBlocks.toNat

/-- A request below 4 GB gets what is left of the file, at most what was asked for, and the
rest of the buffer stays; an inode that does not exist gets -1. Past the end of the file
nothing is left. -/
theorem readData_slice (hwf : InodesSound img) (inode : UInt32)
    (hsum : offset.toNat + length.toNat < 2 ^ 32) (buf : ℕ → UInt8) :
    let left := (img.inodes inode.toNat).numBytes.toNat - offset.toNat
    (inode.toNat < img.numInodes.toNat → ∃ fuel r,
      readData img inode offset buf length fuel = some r ∧
      r.value = (min length.toNat left : ℕ) ∧
      r.out = fun k => if k < min length.toNat left then
        img.fileByte inode.toNat (offset.toNat + k) else buf k) ∧
    (0 < img.numInodes.toNat → img.numInodes.toNat ≤ inode.toNat →
      ∀ fuel, readData img inode offset buf length fuel = some ⟨-1, buf, []⟩) := by
  intro left
  constructor
  · intro hinode
    have hpass : ¬img.numInodes - 1 < inode := fun h =>
      absurd (refused_iff.mp h).2 (not_le.mpr hinode)
    obtain ⟨fuel, r, hr, hdel⟩ := readData_delivered hpass offset length buf
    have hsize := hwf.size inode.toNat hinode
    have hcount : deliveredCount img inode offset length = min length.toNat left := by
      unfold deliveredCount
      rw [UInt32.toNat_add, Nat.mod_eq_of_lt hsum]
      omega
    have hsmall : min length.toNat left < 2 ^ 31 := by
      simp only [maxDataBlocks, blockBytes] at hsize
      omega
    rw [hcount] at hdel
    refine ⟨fuel, r, hr, ?_, hdel.stored⟩
    rw [hdel.value, asInt32_of_lt hsmall]
  · intro hpos hinode fuel
    exact readData_refused (refused_iff.mpr ⟨hpos, hinode⟩) fuel

lemma shellImage_inodesSound : InodesSound shellImage := by
  have hsize : (28 : UInt32).toNat ≤ maxDataBlocks * blockBytes := by decide
  have hblock : (0 : UInt32).toNat < (1 : UInt32).toNat := by decide
  exact ⟨fun _ _ => hsize, fun _ _ _ _ => hblock⟩

/-- The last bytes of the shell, asked for with more than is left. -/
theorem readData_slice_shell : InodesSound shellImage ∧
    ∃ fuel r, readData shellImage 0 24 (fun _ => 1) 100 fuel = some r ∧ r.value = 4 := by
  have hsum : (24 : UInt32).toNat + (100 : UInt32).toNat < 2 ^ 32 := by decide
  obtain ⟨fuel, r, hr, hvalue, -⟩ :=
    (readData_slice shellImage_inodesSound 0 hsum (fun _ => 1)).1 (by decide)
  exact ⟨shellImage_inodesSound, fuel, r, hr, hvalue⟩

/-! ### The closed form -/

/-- The routine stores what the list version of it gives, and returns the same. -/
theorem readData_refines (img : Image) (inode offset length : UInt32) (buf : ℕ → UInt8) :
    let model := HalOs.readData img inode.toNat offset.toNat length.toNat
    ∃ fuel r, readData img inode offset buf length fuel = some r ∧ r.value = model.1 ∧
      r.out = fun k => if k < model.2.length then byteAt model.2 k else buf k := by
  intro model
  have hcheck : (img.numInodes.toNat + (2 ^ 32 - 1)) % 2 ^ 32 < inode.toNat ↔
      img.numInodes - 1 < inode := by
    have hnum := img.numInodes.toNat_lt
    have hinode := inode.toNat_lt
    rw [refused_iff]
    omega
  by_cases h : img.numInodes - 1 < inode
  · have hmodel : model = (-1, []) := if_pos (hcheck.mpr h)
    refine ⟨0, _, readData_refused h 0, ?_, ?_⟩
    · rw [hmodel]
    · simp [hmodel]
  · obtain ⟨fuel, r, hr, hdel⟩ := readData_delivered h offset length buf
    have hpass : ¬(img.numInodes.toNat + (2 ^ 32 - 1)) % 2 ^ 32 < inode.toNat :=
      fun hlt => h (hcheck.mp hlt)
    refine ⟨fuel, r, hr, ?_⟩
    rw [hdel.value, hdel.stored]
    by_cases hend : (img.inodes inode.toNat).numBytes.toNat ≤ offset.toNat
    · have hmodel : model = (0, []) := (if_neg hpass).trans (if_pos hend)
      have hcount : deliveredCount img inode offset length = 0 := by
        unfold deliveredCount
        omega
      rw [hmodel, hcount]
      exact ⟨rfl, rfl⟩
    · let request := (offset.toNat + length.toNat) % 2 ^ 32 - offset.toNat
      let bytes := ((img.contents inode.toNat).drop offset.toNat).take request
      have hloop : readDataLoop img inode.toNat request offset.toNat = bytes :=
        readDataLoop_eq (not_le.mp hend).le
      have hmodel : model = (asInt32 bytes.length, bytes) := by
        have hread : model = (asInt32 (readDataLoop img inode.toNat request offset.toNat).length,
            readDataLoop img inode.toNat request offset.toNat) :=
          (if_neg hpass).trans (if_neg hend)
        rw [hread, hloop]
      have hlength : bytes.length = deliveredCount img inode offset length := by
        simp only [bytes, request, deliveredCount, List.length_take, List.length_drop,
          contents_length, UInt32.toNat_add]
        omega
      have hbyte : ∀ k < bytes.length, byteAt bytes k =
          img.fileByte inode.toNat (offset.toNat + k) := by
        intro k hk
        rw [byteAt, List.getD_eq_getElem _ _ hk]
        simp only [bytes, List.getElem_take, List.getElem_drop]
        simp [Image.contents]
      rw [hmodel, hlength]
      refine ⟨rfl, ?_⟩
      funext k
      by_cases hk : k < deliveredCount img inode offset length
      · rw [if_pos hk, if_pos hk, hbyte k (hlength ▸ hk)]
      · rw [if_neg hk, if_neg hk]

end Calls

end Cells

end HalOs
