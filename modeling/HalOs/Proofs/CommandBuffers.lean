import HalOs.Model.Command
import HalOs.Proofs.Arguments

/-!
# The buffers a command is parsed into

`filename` receives the first word of the command however long it is. Words of up to 31 bytes
are copied whole with their NUL; longer ones fill the buffer or run past it.
-/

namespace HalOs

namespace Frame

variable {l : List UInt8} {i j n : ℕ} {f : Frame} {c : FrameCell} {b : UInt8}
  {buffer : ℕ → FrameCell}

/-! ### Single loops -/

lemma store_self : (f.store c b).byte c = b := Function.update_self ..

lemma store_of_ne {c' : FrameCell} (h : c' ≠ c) : (f.store c b).byte c' = f.byte c' :=
  Function.update_of_ne h ..

lemma reset_stores (h : c ∈ (f.reset buffer n).stores) :
    c ∈ f.stores ∨ ∃ i < n, c = buffer i := by
  induction n with
  | zero => exact Or.inl h
  | succ n ih =>
    rcases List.mem_cons.mp h with rfl | h
    · exact Or.inr ⟨n, Nat.lt_succ_self n, rfl⟩
    · rcases ih h with h | ⟨i, hi, hc⟩
      · exact Or.inl h
      · exact Or.inr ⟨i, Nat.lt_succ_of_lt hi, hc⟩

lemma reset_other (h : ∀ i < n, c ≠ buffer i) : (f.reset buffer n).byte c = f.byte c := by
  induction n with
  | zero => rfl
  | succ n ih =>
    rw [reset, store_of_ne (h n (Nat.lt_succ_self n)),
      ih fun i hi => h i (Nat.lt_succ_of_lt hi)]

lemma reset_self (hinj : Function.Injective buffer) (hi : i < n) :
    (f.reset buffer n).byte (buffer i) = 0 := by
  induction n with
  | zero => exact absurd hi (Nat.not_lt_zero i)
  | succ n ih =>
    rw [reset]
    by_cases hin : i = n
    · rw [hin, store_self]
    · rw [store_of_ne fun h => hin (hinj h), ih (by omega)]

/-- Stores of consecutive bytes of a buffer, from index `i` on. -/
def copyTo (buffer : ℕ → FrameCell) : List UInt8 → ℕ → Frame → Frame
  | [], _, f => f
  | b :: l, i, f => copyTo buffer l (i + 1) (f.store (buffer i) b)

lemma mem_copyTo (buffer : ℕ → FrameCell) (l : List UInt8) (i : ℕ) (f : Frame) :
    c ∈ (copyTo buffer l i f).stores ↔
      c ∈ f.stores ∨ ∃ j, i ≤ j ∧ j < i + l.length ∧ c = buffer j := by
  induction l generalizing i f with
  | nil =>
    have hno : ¬∃ j, i ≤ j ∧ j < i + ([] : List UInt8).length ∧ c = buffer j := by
      rintro ⟨j, hle, hlt, -⟩
      exact absurd hlt (not_lt.mpr hle)
    exact (or_iff_left hno).symm
  | cons b l ih =>
    rw [copyTo, ih, List.length_cons, store, List.mem_cons, or_assoc, or_left_comm]
    refine or_congr_right ?_
    constructor
    · rintro (rfl | ⟨j, hle, hlt, rfl⟩)
      · exact ⟨i, le_rfl, by omega, rfl⟩
      · exact ⟨j, by omega, by omega, rfl⟩
    · rintro ⟨j, hle, hlt, rfl⟩
      by_cases hj : j = i
      · exact Or.inl (hj ▸ rfl)
      · exact Or.inr ⟨j, by omega, by omega, rfl⟩

lemma copyTo_self (hinj : Function.Injective buffer) (l : List UInt8) (i j : ℕ) (f : Frame) :
    (copyTo buffer l i f).byte (buffer j) =
      if i ≤ j ∧ j < i + l.length then byteAt l (j - i) else f.byte (buffer j) := by
  induction l generalizing i f with
  | nil =>
    have hno : ¬(i ≤ j ∧ j < i + ([] : List UInt8).length) :=
      fun h => absurd h.2 (not_lt.mpr h.1)
    rw [if_neg hno]
    rfl
  | cons b l ih =>
    rw [copyTo, ih, List.length_cons]
    by_cases hj : j = i
    · have hno : ¬(i + 1 ≤ j ∧ j < i + 1 + l.length) := by omega
      rw [if_neg hno, if_pos (by omega), hj, store_self, Nat.sub_self]
      rfl
    · have hiff : (i + 1 ≤ j ∧ j < i + 1 + l.length) ↔
          (i ≤ j ∧ j < i + (l.length + 1)) := by omega
      rw [store_of_ne fun h => hj (hinj h)]
      by_cases hin : i ≤ j ∧ j < i + (l.length + 1)
      · have hsucc : j - i = j - (i + 1) + 1 := by omega
        rw [if_pos (hiff.mpr hin), if_pos hin, hsucc]
        rfl
      · rw [if_neg fun h => hin (hiff.mp h), if_neg hin]

lemma copyTo_other (h : ∀ j, c ≠ buffer j) : (copyTo buffer l i f).byte c = f.byte c := by
  induction l generalizing i f with
  | nil => rfl
  | cons b l ih => rw [copyTo, ih, store_of_ne (h i)]

lemma commandWord_cons (hb : b ≠ spaceAscii) : commandWord (b :: l) = b :: commandWord l := by
  simp [commandWord, hb]

lemma commandWord_space : commandWord (spaceAscii :: l) = [] := by simp [commandWord]

/-- The first loop stops at the first space and copies what is before it, and keeps where the
argument starts. -/
lemma fillName_eq (l : List UInt8) (i : ℕ) (f : Frame) : fillName l i f =
    (if (commandWord l).length < l.length then i + (commandWord l).length + 1 else 0,
      copyTo .filename (commandWord l) i f) := by
  induction l generalizing i f with
  | nil => rfl
  | cons b l ih =>
    by_cases hb : b = spaceAscii
    · rw [fillName, if_pos hb, hb, commandWord_space, List.length_nil, List.length_cons,
        if_pos (Nat.succ_pos _)]
      rfl
    · rw [fillName, if_neg hb, ih, commandWord_cons hb, List.length_cons, List.length_cons, copyTo]
      congr 1
      by_cases hlt : (commandWord l).length < l.length
      · rw [if_pos hlt, if_pos (by omega)]
        omega
      · rw [if_neg hlt, if_neg (by omega)]

lemma fillArg_eq (l : List UInt8) (i : ℕ) (f : Frame) : fillArg l i f = copyTo .arg l i f := by
  induction l generalizing i f with
  | nil => rfl
  | cons b l ih => exact ih ..

end Frame

/-! ### The whole parsing -/

section Parse

variable {command : List UInt8} {old : FrameCell → UInt8} {f : Frame} {c : FrameCell}

/-- The frame as the call finds it. -/
def Frame.fresh (old : FrameCell → UInt8) : Frame := ⟨old, []⟩

lemma filename_injective : Function.Injective FrameCell.filename := fun _ _ => FrameCell.filename.inj

lemma arg_injective : Function.Injective FrameCell.arg := fun _ _ => FrameCell.arg.inj

lemma visible_length (command : List UInt8) : (visible command).length ≤ (cmdLen command).toNat := by
  unfold visible
  exact List.length_take_le ..

lemma cmdLen_eq (h : strlen command < 2 ^ 31) : cmdLen command = strlen command := asInt32_of_lt h

lemma visible_eq (h : strlen command < 2 ^ 31) : visible command = cString command := by
  rw [visible, cmdLen_eq h, Int.toNat_natCast, strlen, List.take_length]

/-- The frame when the loop that fills `filename` begins. -/
def Frame.cleared (old : FrameCell → UInt8) : Frame :=
  ((Frame.fresh old).reset .arg execArgLen).reset .filename maxFilenameLen

/-- The first word goes to `filename`, and what follows its space to `arg`. -/
lemma fill_eq (l : List UInt8) (old : FrameCell → UInt8) : (Frame.fresh old).fill l =
    Frame.copyTo .arg (commandArg l) 0
      (Frame.copyTo .filename (commandWord l) 0 (Frame.cleared old)) := by
  have hname : Frame.fillName l 0 (Frame.cleared old) =
      (argStart l, Frame.copyTo .filename (commandWord l) 0 (Frame.cleared old)) := by
    rw [Frame.fillName_eq, argStart, Nat.zero_add]
  have hfill : (Frame.fresh old).fill l =
      if (Frame.fillName l 0 (Frame.cleared old)).1 ≠ 0 then
        Frame.fillArg (l.drop (Frame.fillName l 0 (Frame.cleared old)).1) 0
          (Frame.fillName l 0 (Frame.cleared old)).2
      else (Frame.fillName l 0 (Frame.cleared old)).2 := rfl
  rw [hfill, hname, Frame.fillArg_eq, commandArg]
  by_cases hstart : argStart l = 0
  · rw [if_neg (not_not.mpr hstart), if_pos hstart, Frame.copyTo]
  · rw [if_pos hstart, if_neg hstart]

lemma commandArg_length (l : List UInt8) : (commandArg l).length ≤ l.length - 1 := by
  unfold commandArg
  split_ifs with hstart
  · exact Nat.zero_le _
  · rw [List.length_drop]
    omega

lemma parse_long (hlong : 128 < cmdLen command) (f : Frame) : parse command f = none := by
  have hlen : (execArgLen : ℤ) < cmdLen command := by exact_mod_cast hlong
  unfold parse
  rw [if_pos hlen]

lemma parse_short (hshort : ¬128 < cmdLen command) (f : Frame) :
    parse command f = some (f.fill (visible command)) := by
  have hlen : ¬(execArgLen : ℤ) < cmdLen command := by exact_mod_cast hshort
  unfold parse
  rw [if_neg hlen]

lemma parse_eq_some (h : parse command (Frame.fresh old) = some f) :
    (commandArg (visible command)).length ≤ 127 ∧
      Frame.copyTo .arg (commandArg (visible command)) 0
        (Frame.copyTo .filename (commandWord (visible command)) 0 (Frame.cleared old)) = f := by
  by_cases hlong : 128 < cmdLen command
  · rw [parse_long hlong] at h
    exact absurd h (by simp)
  · have hlen := visible_length command
    have harg := commandArg_length (visible command)
    rw [parse_short hlong, Option.some.injEq, fill_eq] at h
    exact ⟨by omega, h⟩

/-- The frame after the parsing: in `filename` the word that the loop saw, then zeros, then what
was there; the header buffer as it was. -/
lemma parse_bytes (h : parse command (Frame.fresh old) = some f) :
    (∀ j, f.byte (.filename j) = if j < (commandWord (visible command)).length then
      byteAt (commandWord (visible command)) j else if j < 32 then 0 else old (.filename j)) ∧
    ∀ j, f.byte (.header j) = old (.header j) := by
  obtain ⟨-, hf⟩ := parse_eq_some h
  have hcleared : ∀ j, (Frame.cleared old).byte (.filename j) =
      if j < 32 then 0 else old (.filename j) := by
    intro j
    unfold Frame.cleared
    by_cases hj : j < 32
    · rw [if_pos hj, Frame.reset_self filename_injective hj]
    · have hpast : ∀ i < 32, FrameCell.filename j ≠ .filename i := by
        intro i hi heq
        exact hj (FrameCell.filename.inj heq ▸ hi)
      rw [if_neg hj, Frame.reset_other hpast, Frame.reset_other fun _ _ => by simp]
      rfl
  constructor
  · intro j
    rw [← hf, Frame.copyTo_other fun _ => by simp, Frame.copyTo_self filename_injective, hcleared]
    simp only [Nat.zero_le, true_and, Nat.zero_add, Nat.sub_zero]
  · intro j
    rw [← hf, Frame.copyTo_other fun _ => by simp, Frame.copyTo_other fun _ => by simp,
      Frame.cleared, Frame.reset_other fun _ _ => by simp, Frame.reset_other fun _ _ => by simp]
    rfl

/-- `arg` holds what `execute` takes for the argument, and zeros behind it. -/
theorem parse_arg (h : parse command (Frame.fresh old) = some f) {j : ℕ} (hj : j < 128) :
    f.byte (.arg j) = byteAt (commandArg (visible command)) j := by
  obtain ⟨-, hf⟩ := parse_eq_some h
  rw [← hf, Frame.copyTo_self arg_injective, Nat.zero_add, Nat.sub_zero]
  by_cases hin : j < (commandArg (visible command)).length
  · rw [if_pos ⟨Nat.zero_le j, hin⟩]
  · rw [if_neg fun hin' => hin hin'.2, Frame.copyTo_other fun _ => by simp, Frame.cleared,
      Frame.reset_other fun _ _ => by simp, Frame.reset_self arg_injective hj,
      byteAt, List.getD_eq_default _ _ (by omega)]

/-- The stores keep to the buffers when the word that the loop saw fits `filename`. -/
lemma parse_stores (h : parse command (Frame.fresh old) = some f) :
    (∀ c ∈ f.stores, c.Declared) ↔ (commandWord (visible command)).length ≤ 32 := by
  obtain ⟨harg, hf⟩ := parse_eq_some h
  rw [← hf]
  have hcleared : ∀ c ∈ (Frame.cleared old).stores, c.Declared := by
    intro c hc
    rcases Frame.reset_stores hc with hc | ⟨i, hi, rfl⟩
    · rcases Frame.reset_stores hc with hc | ⟨i, hi, rfl⟩
      · exact absurd hc List.not_mem_nil
      · exact hi
    · exact hi
  constructor
  · intro hall
    by_contra hlong
    have hmem : FrameCell.filename 32 ∈ (Frame.copyTo .arg (commandArg (visible command)) 0
        (Frame.copyTo .filename (commandWord (visible command)) 0
          (Frame.cleared old))).stores := by
      rw [Frame.mem_copyTo, Frame.mem_copyTo]
      exact Or.inl (Or.inr ⟨32, Nat.zero_le _, by omega, rfl⟩)
    exact absurd (hall _ hmem) (lt_irrefl 32)
  · intro hlen c hc
    rw [Frame.mem_copyTo, Frame.mem_copyTo] at hc
    rcases hc with (hc | ⟨j, -, hj, rfl⟩) | ⟨j, -, hj, rfl⟩
    · exact hcleared c hc
    · change j < 32
      omega
    · change j < 128
      omega

/-! ### The word handed over -/

/-- What the parsing has to do: its stores keep to the buffers, and the string at `filename` is
the first word of the command, which the name of a file can be. -/
structure WellParsed (command : List UInt8) (f : Frame) : Prop where
  inside : ∀ c ∈ f.stores, c.Declared
  copied : ∀ j < (commandWord (cString command)).length,
    f.byte (.filename j) = byteAt (commandWord (cString command)) j
  ended : f.byte (.filename (commandWord (cString command)).length) = 0
  fits : (commandWord (cString command)).length ≤ maxFilenameSize

/-- The loop sees the first word, and the word leaves room for its NUL, which otherwise is the
byte behind `filename`. -/
def WordFits (command : List UInt8) (old : FrameCell → UInt8) : Prop :=
  commandWord (visible command) = commandWord (cString command) ∧
    ((commandWord (cString command)).length < 32 ∨
      ((commandWord (cString command)).length = 32 ∧ old (.filename 32) = 0))

lemma visible_word (command : List UInt8) : ∃ tail,
    commandWord (cString command) = commandWord (visible command) ++ tail ∧ 0 ∉ tail := by
  have htake : commandWord (visible command) =
      (commandWord (cString command)).take (cmdLen command).toNat := List.take_takeWhile.symm
  refine ⟨(commandWord (cString command)).drop (cmdLen command).toNat, ?_, fun h0 => ?_⟩
  · rw [htake, List.take_append_drop]
  · exact not_mem_cString command ((List.takeWhile_subset _) (List.mem_of_mem_drop h0))

lemma wellParsed_of (h : parse command (Frame.fresh old) = some f) :
    WellParsed command f ↔ WordFits command old := by
  have hstores := parse_stores h
  have hbytes := (parse_bytes h).1
  obtain ⟨tail, hword, h0⟩ := visible_word command
  constructor
  · intro hwell
    have hseen := hstores.mp hwell.inside
    have hfits : (commandWord (cString command)).length ≤ 32 := hwell.fits
    have hnil : tail = [] := by
      cases tail with
      | nil => rfl
      | cons b tail =>
        -- past what the loop saw the buffer holds a zero, and the word does not
        have hlen := congrArg List.length hword
        rw [List.length_append, List.length_cons] at hlen
        have hcopied := hwell.copied (commandWord (visible command)).length (by omega)
        rw [hbytes, if_neg (lt_irrefl _), if_pos (by omega), hword, byteAt,
          List.getD_append_right _ _ _ _ le_rfl, Nat.sub_self] at hcopied
        exact absurd (hcopied ▸ List.mem_cons_self) h0
    rw [hnil, List.append_nil] at hword
    refine ⟨hword.symm, ?_⟩
    rcases Nat.lt_or_eq_of_le hfits with hlt | heq
    · exact Or.inl hlt
    · have hended := hwell.ended
      rw [hbytes, ← hword, heq, if_neg (lt_irrefl _), if_neg (lt_irrefl _)] at hended
      exact Or.inr ⟨heq, hended⟩
  · rintro ⟨hsame, hfits⟩
    rw [hsame] at hstores hbytes
    have hle : (commandWord (cString command)).length ≤ 32 := by omega
    refine ⟨hstores.mpr hle, fun j hj => ?_, ?_, hle⟩
    · rw [hbytes, if_pos hj]
    · rw [hbytes, if_neg (lt_irrefl _)]
      rcases hfits with hlt | ⟨heq, hzero⟩
      · rw [if_pos hlt]
      · rw [heq, if_neg (lt_irrefl _), hzero]

/-- A command is refused for its length, or parsed as it has to be, exactly when it is too long
or its word fits. -/
theorem wellParsed_iff (command : List UInt8) (old : FrameCell → UInt8) :
    (∀ f, parse command (Frame.fresh old) = some f → WellParsed command f) ↔
      128 < cmdLen command ∨ WordFits command old := by
  by_cases hlong : 128 < cmdLen command
  · rw [parse_long hlong]
    exact iff_of_true (fun f hf => absurd hf (by simp)) (Or.inl hlong)
  · have hf := parse_short hlong (Frame.fresh old)
    rw [or_iff_right hlong, ← wellParsed_of hf]
    constructor
    · exact fun hall => hall _ hf
    · intro hwell f' hf'
      obtain rfl := Option.some.inj (hf.symm.trans hf')
      exact hwell

/-- The last of 33 characters is stored behind `filename`. -/
theorem parse_overruns : ¬∀ (command : List UInt8) (old : FrameCell → UInt8) (f : Frame),
    parse command (Frame.fresh old) = some f → WellParsed command f := by
  intro h
  have hstore : (parse (List.replicate 33 97) (Frame.fresh fun _ => 0)).map
      (fun f => decide (.filename 32 ∈ f.stores)) = some true := by decide +kernel
  obtain ⟨f, hf, hmem⟩ := Option.map_eq_some_iff.mp hstore
  exact absurd ((h _ _ f hf).inside _ (of_decide_eq_true hmem)) (by decide)

end Parse

end HalOs
