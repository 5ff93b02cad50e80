import HalOs.Model.Pointers
import HalOs.Proofs.ReadBounds

/-!
# Pointers outside the user page

Which calls of `read`, `getargs` and `vidmap` keep their stores in the page of the user
program, for every pointer and length.
-/

namespace HalOs

/-- A store of `count` bytes from `address` on lies in the user page. -/
def FitsPage (address count : ℕ) : Prop :=
  count = 0 ∨ (addr128mb ≤ address ∧ address + count ≤ userPageEnd)

/-- Every byte stored lies in the user page, and nothing is stored when the `count` bytes from
`address` on, which the call is about to store, do not. -/
structure Transfer.KeepsPage (t : Transfer) (address count : ℕ) : Prop where
  inside : ∀ j < t.bytes.length, addr128mb ≤ (t.address + j) % 2 ^ 32 ∧
    (t.address + j) % 2 ^ 32 < userPageEnd
  refused : ¬FitsPage address count → t.value = -1 ∧ t.bytes = []

section Ranges

variable {address count : ℕ} {v : ℤ} {bytes : List UInt8}

/-- A call that stores what it is about to keeps to the page when that fits. -/
lemma keepsPage_iff (haddr : address < 2 ^ 32) (hlen : bytes.length = count) :
    (Transfer.mk v address bytes).KeepsPage address count ↔ FitsPage address count := by
  constructor
  · intro h
    by_contra hfits
    have hnone := (h.refused hfits).2
    simp only at hnone
    rw [hnone, List.length_nil] at hlen
    exact hfits (Or.inl hlen.symm)
  · intro h
    refine ⟨fun j hj => ?_, fun hno => absurd h hno⟩
    simp only at hj ⊢
    rcases h with h0 | ⟨hlow, hhigh⟩
    · omega
    · simp only [userPageEnd, addr128mb, fourMb] at hlow hhigh ⊢
      omega

lemma keepsPage_refused {buffer : ℕ} : (Transfer.mk (-1) buffer []).KeepsPage address count :=
  ⟨fun j hj => absurd hj (Nat.not_lt_zero j), fun _ => ⟨rfl, rfl⟩⟩

end Ranges

/-! ### What each call is about to store -/

namespace ReadCall

/-- The number of bytes a handler stores. -/
def count (img : Image) (l : Line) (old : ℕ → UInt8) (c : ReadCall) : OpTable → ReadArgs → ℕ
  | .terminal, _ => l.currentChar + 1
  | .rtc, _ => 0
  | .directory, args =>
    if img.numDentries.toNat ≤ args.first then 0
    else if (img.bootDentries args.first).name.length = 32 ∧ old 32 ≠ 0 then 33 else 32
  | .file, .file inode position =>
    readCount img inode.toNat position.toNat (c.nbytes % 2 ^ 32).toNat
  | .file, .device fd => readCount img (ReadArgs.device fd).first c.buf.toNat c.stack.toNat
  | .file, .directory position =>
    readCount img (ReadArgs.directory position).first c.buf.toNat c.stack.toNat

variable {img : Image} {l : Line} {old : ℕ → UInt8} {c : ReadCall}

lemma delivers_length (table : OpTable) (args : ReadArgs) :
    (c.delivers img l old table args).2.length = c.count img l old table args := by
  cases table with
  | terminal => simp [delivers, count, Line.bytesTaken, Line.takeLine]
  | rtc => rfl
  | directory =>
    unfold delivers count directoryStores
    by_cases hend : img.numDentries.toNat ≤ args.first
    · simp only [if_pos hend, List.length_nil]
    · have hd : readDentryByIndex img args.first = some (img.bootDentries args.first) :=
        if_neg (by omega)
      simp only [if_neg hend, hd, maxFilenameSize]
      by_cases hlong : (img.bootDentries args.first).name.length = 32 ∧ old 32 ≠ 0
      · rw [if_pos hlong, if_pos hlong, List.length_append, strncpy_length]
        rfl
      · rw [if_neg hlong, if_neg hlong, strncpy_length]
  | file =>
    cases args with
    | device fd => simp only [delivers, count, readData_length]
    | directory position => simp only [delivers, count, readData_length]
    | file inode position => simp only [delivers, count, readData_length]

lemma bufferTaken_lt (table : OpTable) (args : ReadArgs) : c.bufferTaken table args < 2 ^ 32 := by
  have hbuf := c.buf.toNat_lt
  have hbytes : (c.nbytes % 2 ^ 32).toNat < 2 ^ 32 := by omega
  cases args with
  | device fd => cases table <;> assumption
  | directory position => cases table <;> assumption
  | file inode position =>
    have hpos := position.toNat_lt
    cases table <;> assumption

lemma agrees_of_eq {x : ℤ × List UInt8} {a : ℕ} {t : Transfer} (h : ⟨x.1, a, x.2⟩ = t) :
    t.value = x.1 ∧ t.bytes = x.2 ∧ (t.bytes ≠ [] → t.address = a) := by
  obtain rfl := h
  exact ⟨rfl, rfl, fun _ => rfl⟩

/-- Where a call has a result on the descriptor table alone, its stores are these. -/
theorem handled_agrees {table : OpTable} {args : ReadArgs} {t : Transfer}
    (h : c.handled img l old table args = some t) :
    t.value = (c.delivers img l old table args).1 ∧
      t.bytes = (c.delivers img l old table args).2 ∧
      (t.bytes ≠ [] → t.address = c.bufferTaken table args) := by
  generalize hr : c.delivers img l old table args = r
  cases table with
  | terminal =>
    cases args with
    | device fd =>
      simp only [handled, Option.some.injEq] at h
      simp only [delivers] at hr
      rw [← hr]
      exact agrees_of_eq (x := (_, _)) h
    | directory position => exact absurd h (by simp [handled, transfer, callRead])
    | file inode position => exact absurd h (by simp [handled, transfer, callRead])
  | rtc =>
    have ht : t = ⟨0, c.buf.toNat, []⟩ := by
      cases args <;> exact (Option.some.inj h).symm
    simp only [delivers] at hr
    simp only [ht, ← hr, ne_eq, not_true_eq_false, false_imp_iff, and_self]
  | directory =>
    cases args with
    | device fd =>
      simp only [handled, Option.some.injEq] at h
      simp only [delivers, ReadArgs.first] at hr
      rw [hr] at h
      exact agrees_of_eq h
    | directory position =>
      simp only [handled, Option.some.injEq] at h
      simp only [delivers, ReadArgs.first] at hr
      rw [hr] at h
      exact agrees_of_eq h
    | file inode position =>
      by_cases hend : img.numDentries ≤ inode
      · simp only [handled, transfer, callRead, if_pos hend, Option.map_some,
          Option.some.injEq] at h
        have hpast : directoryStores img inode.toNat old = (0, []) := by
          rw [UInt32.le_iff_toNat_le] at hend
          unfold directoryStores
          rw [if_pos hend]
        simp only [delivers, ReadArgs.first, hpast] at hr
        simp only [← h, ← hr, ne_eq, not_true_eq_false, false_imp_iff, and_self]
      · simp only [handled, transfer, callRead, if_neg hend, Option.map_none, reduceCtorEq] at h
  | file =>
    cases args with
    | device fd =>
      simp only [handled, transfer, miscast_eq, Option.some.injEq] at h
      simp only [delivers, ReadArgs.first] at hr
      rw [hr] at h
      exact agrees_of_eq h
    | directory position =>
      simp only [handled, transfer, miscast_eq, Option.some.injEq] at h
      simp only [delivers, ReadArgs.first] at hr
      rw [hr] at h
      exact agrees_of_eq h
    | file inode position =>
      simp only [handled, transfer, callRead, Option.map_some, Option.some.injEq] at h
      simp only [delivers] at hr
      rw [hr] at h
      exact agrees_of_eq h

end ReadCall

namespace PointerCall

/-- Where a call stores and how many bytes, unless it refuses the pointer. -/
def request (s : CallContext) : PointerCall → ℕ × ℕ
  | .read c =>
    match c.entry s.fds with
    | none => (c.buf.toNat, 0)
    | some i =>
      match (s.fds i).fileOpTablePtr, readDispatch s.img s.fds i with
      | some table, some (args, _) =>
        (c.bufferTaken table args, c.count s.img s.line s.old table args)
      | _, _ => (c.buf.toNat, 0)
  | .getargs buf nbytes => (buf.toNat, nbytes.toNat)
  | .vidmap screenStart => (screenStart.toNat, 4)

/-- The condition for each call. -/
def Harmless (s : CallContext) : PointerCall → Prop
  | .read c => FitsPage ((PointerCall.read c).request s).1 ((PointerCall.read c).request s).2
  | .getargs buf nbytes => buf = 0 ∨ FitsPage buf.toNat nbytes.toNat
  | .vidmap screenStart =>
    screenStart.toNat + 4 ≤ userPageEnd ∨ userPageEnd < screenStart.toNat

variable {s : CallContext} {t : Transfer}

lemma read_keepsPage {c : ReadCall} (h : (PointerCall.read c).outcome s = some t) :
    t.KeepsPage ((PointerCall.read c).request s).1 ((PointerCall.read c).request s).2 ↔
      (PointerCall.read c).Harmless s := by
  have hnone : FitsPage c.buf.toNat 0 := Or.inl rfl
  unfold Harmless
  simp only [outcome, request] at h ⊢
  cases hentry : c.entry s.fds with
  | none =>
    simp only [hentry, Option.some.injEq] at h
    simp only [← h]
    exact iff_of_true keepsPage_refused hnone
  | some i =>
    simp only [hentry] at h
    obtain ⟨table, htable, h⟩ := Option.map_eq_some_iff.mp h
    simp only [htable]
    cases hdispatch : readDispatch s.img s.fds i with
    | none =>
      simp only [hdispatch] at h
      simp only [← h]
      exact iff_of_true keepsPage_refused hnone
    | some d =>
      simp only [hdispatch] at h
      simp only [← h]
      exact keepsPage_iff (ReadCall.bufferTaken_lt table d.1) (ReadCall.delivers_length table d.1)

lemma getargs_keepsPage {buf : UInt32} {nbytes : ℤ}
    (h : (PointerCall.getargs buf nbytes).outcome s = some t) :
    t.KeepsPage buf.toNat nbytes.toNat ↔ (PointerCall.getargs buf nbytes).Harmless s := by
  obtain ⟨r, hr, rfl⟩ := Option.map_eq_some_iff.mp h
  unfold Kernel.getargs at hr
  by_cases hrefused : buf = 0 ∨ nbytes ≤ 0
  · rw [if_pos hrefused, Option.some.injEq] at hr
    rw [← hr]
    refine iff_of_true keepsPage_refused (hrefused.imp id fun hle => Or.inl ?_)
    omega
  · rw [if_neg hrefused] at hr
    obtain ⟨p, -, rfl⟩ := Option.map_eq_some_iff.mp hr
    have hfits : (PointerCall.getargs buf nbytes).Harmless s ↔ FitsPage buf.toNat nbytes.toNat :=
      or_iff_right fun h0 => hrefused (Or.inl h0)
    rw [hfits]
    exact keepsPage_iff buf.toNat_lt (ReadCall.strncpy_length _ _)

lemma vidmap_keepsPage (screenStart : UInt32) :
    (HalOs.vidmap screenStart).KeepsPage screenStart.toNat 4 ↔
      (PointerCall.vidmap screenStart).Harmless s := by
  have hpage : (PointerCall.vidmap screenStart).Harmless s ↔
      screenStart.toNat + 4 ≤ userPageEnd ∨ userPageEnd < screenStart.toNat := Iff.rfl
  rw [hpage]
  unfold HalOs.vidmap
  by_cases h0 : screenStart = 0
  · rw [if_pos h0, h0]
    exact iff_of_true keepsPage_refused (Or.inl (by decide))
  · by_cases hout : screenStart.toNat < addr128mb ∨ userPageEnd < screenStart.toNat
    · rw [if_neg h0, if_pos hout]
      refine iff_of_true keepsPage_refused (hout.imp (fun hlow => ?_) id)
      simp only [userPageEnd, addr128mb, fourMb] at hlow ⊢
      omega
    · rw [if_neg h0, if_neg hout, keepsPage_iff screenStart.toNat_lt (by simp)]
      obtain ⟨hlow, hhigh⟩ := not_or.mp hout
      unfold FitsPage
      omega

/-- For every pointer and length, a call keeps its stores in the user page, or refuses the
pointer, exactly when the condition of the call holds. -/
theorem keepsPage_iff_harmless {call : PointerCall} (h : call.outcome s = some t) :
    t.KeepsPage (call.request s).1 (call.request s).2 ↔ call.Harmless s := by
  cases call with
  | read c => exact read_keepsPage h
  | getargs buf nbytes => exact getargs_keepsPage h
  | vidmap screenStart =>
    obtain rfl := Option.some.inj h
    exact vidmap_keepsPage screenStart

/-- The shell just started, about to ask for its arguments. -/
def shellContext : CallContext where
  img := shellImage
  kernel := { Kernel.boot ⟨0, 0⟩ (fun _ => 0) 0 0 with currentPcb := some 0 }
  fds := newTable
  line := Line.blank
  old := fun _ => 0

lemma shellContext_getargs (buf : UInt32) (hbuf : buf ≠ 0) :
    (PointerCall.getargs buf 4).outcome shellContext =
      some ⟨0, buf.toNat, strncpy Kernel.blankPcb.arg 4⟩ := by
  have hpass : ¬(buf = 0 ∨ (4 : ℤ) ≤ 0) := by simp [hbuf]
  simp only [outcome, Kernel.getargs, if_neg hpass]
  rfl

theorem keepsPage_iff_harmless_shell : ∃ t,
    (PointerCall.getargs 0x8100000 4).outcome shellContext = some t ∧
      t.KeepsPage 0x8100000 4 := by
  have hcall := shellContext_getargs 0x8100000 (by decide)
  refine ⟨_, hcall, (keepsPage_iff_harmless hcall).mpr (Or.inr (Or.inr ?_))⟩
  decide

/-- The arguments are copied over the caller's own PCB. -/
theorem getargs_into_kernel : ¬∀ (s : CallContext) (call : PointerCall) (t : Transfer),
    call.outcome s = some t → t.KeepsPage (call.request s).1 (call.request s).2 := by
  intro h
  have hkeeps := h shellContext (.getargs 0x7FE000 4) _ (shellContext_getargs 0x7FE000 (by decide))
  have hlow := (hkeeps.inside 0 (by decide)).1
  exact absurd hlow (by decide)

end PointerCall

end HalOs
