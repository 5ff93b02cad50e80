import HalOs.Model.Events
import HalOs.Model.UserCalls
import HalOs.Proofs.Strings

/-!
# The descriptor table of a process

Over any run of `open`, `close`, `read` and `write`, descriptors 0 and 1 stay on the terminal,
`open` takes the first free entry, `close` empties its own, and `read` moves the position of
its own. A buffer inside the kernel's memory defeats this, since `read` does not check where
it stores.
-/

namespace HalOs

/-! ### Single calls -/

/-- The call stores nothing into the kernel's 4 MB. -/
def AvoidsKernel (img : Image) (fds : FdTable) : UserCall → Prop
  | .read c => ∀ t, c.stored img fds = some t →
      ∀ a, 0x400000 ≤ a → a < 0x800000 → t.byteStored a = none
  | _ => True

/-- What each call has to return and to leave in the table. -/
def Meets (img : Image) (fds : FdTable) : UserCall → ℤ × FdTable → Prop
  | .read c, r => ∀ j : Fin 8, r.2 j = fds j ∨
      (c.fd = j.val ∧ ∃ pos, r.2 j = { fds j with filePosition := pos })
  | .write _ _, r => r.2 = fds
  | .opens filename, r =>
      (((∀ j, (fds j).flags = 1) ∨ img.firstNamed filename = none) ∧ r = (-1, fds)) ∨
      ∃ (i : Fin 8) (d : Dentry), 2 ≤ i ∧ (fds i).flags ≠ 1 ∧ (∀ j < i, (fds j).flags = 1) ∧
        img.firstNamed filename = some d ∧
        r = ((i.val : ℤ), Function.update fds i ⟨some (openTable d.fileType), d.inodeNumber, 0, 1⟩)
  | .close fd, r =>
      (∃ i : Fin 8, fd = i.val ∧ 2 ≤ i ∧ (fds i).flags = 1 ∧
        r = (0, Function.update fds i emptyFd)) ∨
      ((∀ i : Fin 8, fd = i.val → 2 ≤ i → (fds i).flags ≠ 1) ∧ r = (-1, fds))

/-- Descriptors 0 and 1 are open on the terminal. -/
def StdioOpen (fds : FdTable) : Prop :=
  ∀ i ≤ 1, (fds i).fileOpTablePtr = some .terminal ∧ (fds i).flags = 1

/-- The transfer stores nothing into the kernel's 4 MB. -/
def Transfer.MissesKernel (t : Transfer) : Prop :=
  ∀ a, 0x400000 ≤ a → a < 0x800000 → t.byteStored a = none

/-- The transfer stores nothing, or in the user page. -/
def Transfer.InUserPage (t : Transfer) : Prop :=
  t.bytes = [] ∨ (0x8000000 ≤ t.address ∧ t.address + t.bytes.length ≤ 0x8400000)

instance : DecidablePred Transfer.InUserPage := fun t =>
  inferInstanceAs (Decidable (t.bytes = [] ∨
    (0x8000000 ≤ t.address ∧ t.address + t.bytes.length ≤ 0x8400000)))

lemma Transfer.InUserPage.missesKernel {t : Transfer} (h : t.InUserPage) : t.MissesKernel := by
  intro a hlow hhigh
  rw [Transfer.byteStored, List.getElem?_eq_none_iff]
  rcases h with hnone | ⟨hstart, hend⟩
  · rw [hnone]
    exact Nat.zero_le _
  · omega

section Calls

variable {img : Image} {lay : TableLayout} {fds fds' : FdTable} {call : UserCall}

lemma newTable_stdioOpen : StdioOpen newTable := fun i hi => by
  simp [newTable, Activation.stdioTable, hi]

lemma base_kernel (lay : TableLayout) : 0x400000 ≤ lay.base ∧ lay.base + 0x2000 ≤ 0x800000 := by
  have hp := lay.pid.isLt
  unfold TableLayout.base
  omega

/-- A transfer that stays out of the kernel's memory misses the table. -/
lemma after_eq {t : Transfer} (h : t.MissesKernel) : lay.after t fds = fds := by
  have hmiss : lay.hits t = false := by
    rw [TableLayout.hits, List.any_eq_false]
    intro j hj
    have hlt := List.mem_range.mp hj
    obtain ⟨hlow, hhigh⟩ := base_kernel lay
    have hnone : t.byteStored (lay.base + j) = none := h _ (by omega) (by omega)
    rw [hnone]
    exact Bool.false_ne_true
  simp only [TableLayout.after, hmiss, Bool.false_eq_true, if_false]

/-- A read out of the kernel's memory moves the position of its own entry and no other. -/
lemma read_meets {c : ReadCall} {r : ℤ × FdTable} (hg : AvoidsKernel img fds (.read c))
    (h : c.run img lay fds = some r) : Meets img fds (.read c) r := by
  unfold ReadCall.run at h
  intro j
  cases he : c.entry fds with
  | none =>
    simp only [he, Option.some.injEq] at h
    exact Or.inl (h ▸ rfl)
  | some i =>
    simp only [he] at h
    obtain ⟨table, htable, h⟩ := Option.bind_eq_some_iff.mp h
    cases hd : readDispatch img fds i with
    | none =>
      simp only [hd, Option.some.injEq] at h
      exact Or.inl (h ▸ rfl)
    | some d =>
      simp only [hd] at h
      obtain ⟨t, ht, rfl⟩ := Option.map_eq_some_iff.mp h
      have hstored : c.stored img fds = some t := by
        simp only [ReadCall.stored, he, htable, hd, ht, Option.bind_some]
      have hafter : lay.after t fds = fds := after_eq (hg t hstored)
      have hfd : c.fd = i.val := fdIndex_eq (Option.filter_eq_some_iff.mp he).1
      by_cases hj : j = i
      · subst hj
        refine Or.inr ⟨hfd, (fds j).filePosition + d.2 t.value, ?_⟩
        rw [hafter]
        exact Function.update_self ..
      · rw [hafter]
        exact Or.inl (Function.update_of_ne hj ..)

lemma sysRead_eq (dev : Device) (c : ReadCall) : sysRead img dev fds c.fd c.nbytes =
    match c.entry fds with
    | none => some (-1, [], fds)
    | some i => (fds i).fileOpTablePtr.bind fun table =>
      match readDispatch img fds i with
      | none => some (-1, [], fds)
      | some (args, advance) => (callRead img dev c.nbytes table args).map fun r =>
        (r.1, r.2, Function.update fds i
          { fds i with filePosition := (fds i).filePosition + advance r.1 }) := by
  have hself : ∀ i, Function.update fds i
      { fds i with filePosition := (fds i).filePosition + 0 } = fds := by
    intro i
    simp
  unfold sysRead ReadCall.entry
  cases hfd : fdIndex c.fd with
  | none => rfl
  | some i =>
    rw [fdIndex_eq hfd]
    by_cases hok : (fds i).flags = 1 ∧ i ≠ 1
    · have hfilter : (some i).filter (fun i => decide ((fds i).flags = 1 ∧ i ≠ 1)) = some i :=
        Option.filter_some_pos (decide_eq_true hok)
      simp only [hfilter]
      rw [if_neg (not_not.mpr hok.1), if_neg hok.2]
      refine congrArg (Option.bind _) (funext fun table => ?_)
      unfold readDispatch
      by_cases h0 : i = 0
      · rw [if_pos h0, if_pos h0]
        simp only [hself]
      · rw [if_neg h0, if_neg h0]
        cases (findDentryByInodeNum img (fds i).inodeNum).bind (readDentryByIndex img) with
        | none => rfl
        | some d =>
          rw [Option.map_some]
          by_cases hr : d.fileType = rtcFileType
          · simp only [if_pos hr, hself]
          · by_cases hdir : d.fileType = directoryFileType
            · simp only [if_neg hr, if_pos hdir]
            · simp only [if_neg hr, if_neg hdir]
    · have hfilter : (some i).filter (fun i => decide ((fds i).flags = 1 ∧ i ≠ 1)) = none :=
        Option.filter_some_neg (by simpa using hok)
      simp only [hfilter]
      by_cases hf : (fds i).flags = 1
      · have h1 : i = 1 := by
          by_contra hne
          exact hok ⟨hf, hne⟩
        rw [if_neg (not_not.mpr hf), if_pos h1]
      · rw [if_pos hf]

lemma transfer_of_callRead {c : ReadCall} {table : OpTable} {args : ReadArgs}
    {r : ℤ × List UInt8} (h : callRead img c.dev c.nbytes table args = some r) :
    c.transfer img table args = some ⟨r.1, c.buf.toNat, r.2⟩ := by
  cases table <;> cases args <;> simp_all [ReadCall.transfer, callRead]

/-- Where the handler gets its own parameters and its bytes miss the kernel, the call with its
pointer is the call on the descriptor table alone. -/
theorem run_eq_sysRead {c : ReadCall} {v : ℤ} {bytes : List UInt8}
    (hg : AvoidsKernel img fds (.read c))
    (h : sysRead img c.dev fds c.fd c.nbytes = some (v, bytes, fds')) :
    c.run img lay fds = some (v, fds') := by
  rw [sysRead_eq] at h
  unfold ReadCall.run
  cases he : c.entry fds with
  | none =>
    simp only [he, Option.some.injEq, Prod.mk.injEq] at h ⊢
    exact ⟨h.1, h.2.2⟩
  | some i =>
    simp only [he] at h ⊢
    obtain ⟨table, htable, h⟩ := Option.bind_eq_some_iff.mp h
    simp only [htable, Option.bind_some]
    cases hd : readDispatch img fds i with
    | none =>
      simp only [hd, Option.some.injEq, Prod.mk.injEq] at h ⊢
      exact ⟨h.1, h.2.2⟩
    | some d =>
      simp only [hd] at h ⊢
      obtain ⟨r, hr, heq⟩ := Option.map_eq_some_iff.mp h
      obtain ⟨rfl, rfl, rfl⟩ : r.1 = v ∧ r.2 = bytes ∧ _ = fds' := by
        simpa only [Prod.mk.injEq] using heq
      have ht := transfer_of_callRead hr
      have hstored : c.stored img fds = some ⟨r.1, c.buf.toNat, r.2⟩ := by
        simp only [ReadCall.stored, he, htable, hd, ht, Option.bind_some]
      have hafter : lay.after ⟨r.1, c.buf.toNat, r.2⟩ fds = fds := after_eq (hg _ hstored)
      rw [ht, Option.map_some, hafter]

/-- `open` fills the first free entry from the first dentry with the name. -/
lemma open_meets (himg : img.numDentries.toNat ≤ maxNumDentries) (hfds : StdioOpen fds)
    (filename : List UInt8) :
    ∃ r, sysOpen img fds filename = some r ∧ Meets img fds (.opens filename) r := by
  unfold sysOpen
  cases hfree : (List.finRange 8).find? fun i => (fds i).flags ≠ 1 with
  | none =>
    refine ⟨(-1, fds), rfl, Or.inl ⟨Or.inl fun j => ?_, rfl⟩⟩
    have hj := List.find?_eq_none.mp hfree j (List.mem_finRange j)
    simpa using hj
  | some i =>
    have hi : (fds i).flags ≠ 1 := by simpa using List.find?_some hfree
    have hleast : ∀ j < i, (fds j).flags = 1 := by
      intro j hj
      obtain ⟨-, pre, post, hsplit, hpre⟩ := List.find?_eq_some_iff_append.mp hfree
      have hmem : j ∈ pre := by
        have hall : j ∈ pre ++ i :: post := hsplit ▸ List.mem_finRange j
        have hsorted := List.pairwise_lt_finRange 8
        rw [hsplit, List.pairwise_append] at hsorted
        rcases List.mem_append.mp hall with h | h
        · exact h
        · rcases List.mem_cons.mp h with rfl | h
          · exact absurd hj (lt_irrefl j)
          · exact absurd ((List.pairwise_cons.mp hsorted.2.1).1 j h) (not_lt.mpr hj.le)
      simpa using hpre j hmem
    have htwo : 2 ≤ i := by
      by_contra hlt
      have hle : i ≤ 1 := by omega
      exact hi (hfds i hle).2
    simp only [readDentryByName_eq himg, Option.map_some]
    refine ⟨_, rfl, ?_⟩
    cases hname : img.firstNamed filename with
    | none => exact Or.inl ⟨Or.inr hname, rfl⟩
    | some d => exact Or.inr ⟨i, d, htwo, hi, hleast, hname, rfl⟩

/-- `close` empties the entry of an open descriptor past 1, and fails on all others. -/
lemma close_meets (fd : ℤ) : Meets img fds (.close fd) (sysClose fds fd) := by
  unfold sysClose
  cases hfd : fdIndex fd with
  | none =>
    refine Or.inr ⟨fun i hi => ?_, rfl⟩
    rw [hi, fdIndex_self] at hfd
    exact absurd hfd (by simp)
  | some i =>
    obtain rfl := fdIndex_eq hfd
    have hinj : ∀ j : Fin 8, (i.val : ℤ) = j.val → j = i := fun j hj => by omega
    simp only
    split_ifs with hle hflags
    · refine Or.inr ⟨fun j hj h2 => ?_, rfl⟩
      rw [hinj j hj] at h2
      omega
    · exact Or.inr ⟨fun j hj _ => hinj j hj ▸ hflags, rfl⟩
    · exact Or.inl ⟨i, rfl, by omega, not_not.mp hflags, rfl⟩

lemma userCall_meets {r : ℤ × FdTable} (himg : img.numDentries.toNat ≤ maxNumDentries)
    (hfds : StdioOpen fds) (hg : AvoidsKernel img fds call)
    (h : userCall img lay fds call = some r) : Meets img fds call r := by
  cases call with
  | read c => exact read_meets hg h
  | write fd dev =>
    obtain rfl := Option.some.inj h
    rfl
  | opens filename =>
    obtain ⟨r', hr', hm⟩ := open_meets himg hfds filename
    have hopen : sysOpen img fds filename = some r := h
    obtain rfl := Option.some.inj (hopen.symm.trans hr')
    exact hm
  | close fd =>
    obtain rfl := Option.some.inj h
    exact close_meets fd

/-- A call that does what it has to keeps the two reserved entries. -/
lemma Meets.stdioOpen {r : ℤ × FdTable} (hfds : StdioOpen fds) (h : Meets img fds call r) :
    StdioOpen r.2 := by
  intro i hi
  cases call with
  | read c =>
    rcases h i with heq | ⟨-, pos, heq⟩
    · exact heq ▸ hfds i hi
    · exact heq ▸ hfds i hi
  | write fd dev => exact congrFun h i ▸ hfds i hi
  | opens filename =>
    rcases h with ⟨-, rfl⟩ | ⟨j, d, hj, -, -, -, rfl⟩
    · exact hfds i hi
    · have hne : i ≠ j := by omega
      simp only [Function.update_of_ne hne]
      exact hfds i hi
  | close fd =>
    rcases h with ⟨j, -, hj, -, rfl⟩ | ⟨-, rfl⟩
    · have hne : i ≠ j := by omega
      simp only [Function.update_of_ne hne]
      exact hfds i hi
    · exact hfds i hi

/-! ### Runs -/

/-- In every run from the table of a new process whose reads keep out of the kernel's memory,
descriptors 0 and 1 are open on the terminal and each further call does what it has to; and
`open` always returns. -/
theorem descriptors_run {calls : List UserCall} (himg : img.numDentries.toNat ≤ maxNumDentries)
    (h : Runs.Path (userStep img lay) (AvoidsKernel img) newTable calls fds) :
    StdioOpen fds ∧
      (∀ call r, AvoidsKernel img fds call → userCall img lay fds call = some r →
        Meets img fds call r) ∧
      ∀ filename, ∃ r, userCall img lay fds (.opens filename) = some r := by
  have hfds : StdioOpen fds := by
    refine h.invariant (fun s call u hs hg hstep => ?_) newTable_stdioOpen
    obtain ⟨r, hr, rfl⟩ := Option.map_eq_some_iff.mp hstep
    exact (userCall_meets himg hs hg hr).stdioOpen hs
  refine ⟨hfds, fun call r hg hr => userCall_meets himg hfds hg hr, fun filename => ?_⟩
  obtain ⟨r, hr, -⟩ := open_meets himg hfds filename
  exact ⟨r, hr⟩

end Calls

/-! ### A buffer over the descriptor table -/

/-- The layout for process 0. -/
def shellLayout : TableLayout where
  pid := 0
  opTable
    | .terminal => 0x400100
    | .rtc => 0x400110
    | .directory => 0x400120
    | .file => 0x400130

def noDevice : Device := ⟨(0, []), 0, 0⟩

/-- The process opens a file and reads it into a buffer. -/
def openAndRead (buf : UInt32) : List UserCall :=
  [.opens shellCommand, .read ⟨2, buf, 28, noDevice, 0⟩]

/-- The table once the file is open. -/
def openedTable : FdTable := Function.update newTable 2 ⟨some .file, 0, 0, 1⟩

lemma open_shell : userStep shellImage shellLayout newTable (.opens shellCommand) =
    some openedTable := by
  have h : (sysOpen shellImage newTable shellCommand).map (fun r => (r.1, (List.finRange 8).map r.2))
      = some (2, (List.finRange 8).map openedTable) := by decide +kernel
  obtain ⟨r, hr, heq⟩ := Option.map_eq_some_iff.mp h
  have htable : r.2 = openedTable := by
    funext i
    exact List.map_inj_left.mp (Prod.ext_iff.mp heq).2 i (List.mem_finRange i)
  simp only [userStep, userCall, hr, Option.map_some, htable]

/-- A store of less than 3 MB at 0x8100000 lands in the user page. -/
lemma user_avoidsKernel {img : Image} {fds : FdTable} {c : ReadCall} {n : ℕ}
    (hshape : (c.stored img fds).map (fun t => (t.address, t.bytes.length)) = some (0x8100000, n))
    (hn : n < 0x300000) : AvoidsKernel img fds (.read c) := by
  intro t ht a hlow hhigh
  rw [ht, Option.map_some, Option.some.injEq, Prod.mk.injEq] at hshape
  rw [Transfer.byteStored, List.getElem?_eq_none_iff]
  omega

lemma read_avoidsKernel :
    AvoidsKernel shellImage openedTable (.read ⟨2, 0x8100000, 28, noDevice, 0⟩) := by
  have hshape : ((ReadCall.mk 2 0x8100000 28 noDevice 0).stored shellImage openedTable).map
      (fun t => (t.address, t.bytes.length)) = some (0x8100000, 28) := by decide +kernel
  exact user_avoidsKernel hshape (by decide)

theorem descriptors_run_read : ∃ fds, Runs.Path (userStep shellImage shellLayout)
      (AvoidsKernel shellImage) newTable (openAndRead 0x8100000) fds ∧ StdioOpen fds := by
  have hread : (userStep shellImage shellLayout openedTable
      (.read ⟨2, 0x8100000, 28, noDevice, 0⟩)).isSome = true := by decide +kernel
  obtain ⟨fds, hfds⟩ := Option.isSome_iff_exists.mp hread
  have hpath : Runs.Path (userStep shellImage shellLayout) (AvoidsKernel shellImage) newTable
      (openAndRead 0x8100000) fds :=
    Runs.Path.cons trivial open_shell
      (Runs.Path.cons read_avoidsKernel hfds (Runs.Path.nil _))
  exact ⟨fds, hpath, (descriptors_run (by decide) hpath).1⟩

/-- A read into the table itself closes standard input. -/
theorem read_closes_stdin : ¬∀ (img : Image) (lay : TableLayout) (calls : List UserCall)
    (fds : FdTable), img.numDentries.toNat ≤ maxNumDentries →
    Runs.Path (userStep img lay) (fun _ _ => True) newTable calls fds → StdioOpen fds := by
  intro h
  have hrun : (Runs.run (userStep shellImage shellLayout) (fun _ _ => True) newTable
      (openAndRead 0x7FE000)).map (fun fds => (fds 0).flags) = some 0 := by
    decide +kernel
  obtain ⟨fds, hfds, hflags⟩ := Option.map_eq_some_iff.mp hrun
  have hopen := h shellImage shellLayout _ fds (by decide) (Runs.path_of_run hfds)
  exact absurd (hflags.symm.trans (hopen 0 (by decide)).2) (by decide)

end HalOs
