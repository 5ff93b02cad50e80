import HalOs.Model.Output
import HalOs.Proofs.Strings
import HalOs.Proofs.WriteRows

/-!
# The text `terminal_write` prints

`terminal_write` measures its text up to `nbytes` bytes, but `puts` prints it up to the first
NUL wherever that is. The two agree exactly when the NUL comes before `nbytes`; for a longer
text the bytes behind the caller's buffer are read and printed as well.
-/

namespace HalOs

variable {buf s : List UInt8} {nbytes n i j : ℕ}

/-! ### The first loop -/

lemma checkBuf_newlines (buf : List UInt8) (n i : ℕ) :
    (checkBuf buf n i).newlines = (stringAt (byteAt buf) n i).count newlineAscii := by
  induction n generalizing i with
  | zero => rfl
  | succ n ih =>
    rw [stringAt_succ]
    by_cases hb : byteAt buf i = 0
    · simp [checkBuf, hb]
    · simp [checkBuf, hb, ih, List.count_cons]

lemma checkBuf_strLen (buf : List UInt8) (n i : ℕ) :
    (checkBuf buf n i).strLen = min n ((stringAt (byteAt buf) n i).length + 1) := by
  induction n generalizing i with
  | zero => simp [checkBuf]
  | succ n ih =>
    rw [stringAt_succ]
    by_cases hb : byteAt buf i = 0
    · simp [checkBuf, hb]
    · simp only [checkBuf, if_neg hb, ih, List.length_cons]
      omega

lemma checkBuf_reads (h : j ∈ (checkBuf buf n i).reads) : j < i + n := by
  induction n generalizing i with
  | zero => exact absurd h (by simp [checkBuf])
  | succ n ih =>
    by_cases hb : byteAt buf i = 0
    · simp only [checkBuf, if_pos hb, List.mem_singleton] at h
      omega
    · simp only [checkBuf, if_neg hb, List.mem_cons] at h
      rcases h with rfl | h
      · omega
      · have hrest := ih h
        omega

/-! ### `puts` -/

lemma putsOutput_eq (s : List UInt8) (i : ℕ) :
    putsOutput s i = ⟨cString s, List.range' i (strlen s + 1)⟩ := by
  induction s generalizing i with
  | nil => rfl
  | cons c s ih =>
    by_cases hc : c = 0
    · simp [putsOutput, cString, strlen, hc]
    · rw [putsOutput, if_neg hc, ih, cString_cons hc, strlen_cons hc]
      rfl

lemma byteAt_strlen (s : List UInt8) : byteAt s (strlen s) = 0 := by
  induction s with
  | nil => rfl
  | cons c s ih =>
    by_cases hc : c = 0
    · rw [hc, strlen_nul_cons]
      rfl
    · rw [strlen_cons hc]
      exact ih

lemma strlen_le_of_nul (h : byteAt s i = 0) : strlen s ≤ i := by
  induction s generalizing i with
  | nil => exact Nat.zero_le i
  | cons c s ih =>
    by_cases hc : c = 0
    · rw [hc, strlen_nul_cons]
      exact Nat.zero_le i
    · rw [strlen_cons hc]
      cases i with
      | zero => exact absurd h hc
      | succ i => exact Nat.succ_le_succ (ih h)

lemma strlen_lt_iff : strlen s < n ↔ ∃ i < n, byteAt s i = 0 := by
  constructor
  · intro h
    exact ⟨strlen s, h, byteAt_strlen s⟩
  · rintro ⟨i, hi, hnul⟩
    exact lt_of_le_of_lt (strlen_le_of_nul hnul) hi

lemma cString_eq_map (s : List UInt8) : cString s = (List.range (strlen s)).map (byteAt s) := by
  induction s with
  | nil => rfl
  | cons c s ih =>
    by_cases hc : c = 0
    · simp [cString, strlen, hc]
    · rw [cString_cons hc, strlen_cons hc, List.range_succ_eq_map, List.map_cons, List.map_map, ih]
      rfl

/-! ### The whole call -/

/-- Where the text ends: at its first NUL if one occurs below `nbytes`, else at `nbytes`. -/
def textEnd (buf : List UInt8) (nbytes : ℕ) : ℕ :=
  ((List.range nbytes).find? fun i => byteAt buf i = 0).getD nbytes

/-- The output of a call that prints its text and reads nothing behind it. -/
structure Prints (buf : List UInt8) (nbytes : ℕ) (o : Output) : Prop where
  chars : o.chars = (List.range (textEnd buf nbytes)).map (byteAt buf)
  reads : ∀ i ∈ o.reads, i < nbytes

lemma textEnd_of_lt (h : strlen buf < nbytes) : textEnd buf nbytes = strlen buf := by
  unfold textEnd
  cases hfind : (List.range nbytes).find? fun i => byteAt buf i = 0 with
  | none =>
    have hnone := List.find?_eq_none.mp hfind (strlen buf) (List.mem_range.mpr h)
    exact absurd (byteAt_strlen buf) (by simpa using hnone)
  | some i =>
    have hnul : byteAt buf i = 0 := by simpa using List.find?_some hfind
    have hle := strlen_le_of_nul hnul
    rw [Option.getD_some]
    by_contra hne
    have hlt : strlen buf < i := by omega
    rw [List.find?_range_eq_some] at hfind
    have hbefore := hfind.2.2 (strlen buf) hlt
    exact absurd (byteAt_strlen buf) (by simpa using hbefore)

namespace Writer

variable {w w' : Writer} {fuel r : ℕ} {o : Output}

/-- The output aside, this is `terminal_write`. -/
theorem terminalWriteOutput_snd (fuel : ℕ) (buf : List UInt8) (nbytes : ℕ) (w : Writer) :
    (terminalWriteOutput fuel buf nbytes w).map Prod.snd = terminalWrite fuel buf nbytes w := by
  have hmeasured : measured buf nbytes = stringAt (byteAt buf) nbytes 0 := by
    rw [measured, stringAt, List.range_eq_range']
  have hnew : (checkBuf buf nbytes 0).newlines = newlineCount buf nbytes := by
    rw [checkBuf_newlines, newlineCount, hmeasured]
  have hlen : (checkBuf buf nbytes 0).strLen = min nbytes ((measured buf nbytes).length + 1) := by
    rw [checkBuf_strLen, hmeasured]
  have hchars : (putsOutput buf 0).chars = cString buf := by rw [putsOutput_eq]
  unfold terminalWriteOutput terminalWrite
  split_ifs with hlong
  · rfl
  · dsimp only
    rw [hnew, hlen, hchars, Option.map_bind]
    refine congrArg _ (funext fun w₁ => ?_)
    rw [Function.comp_apply, Option.map_bind]
    refine congrArg _ (funext fun w₂ => ?_)
    rw [Function.comp_apply, Option.map_map]
    rfl

lemma output_eq (hle : nbytes ≤ maxInputBufLen)
    (h : terminalWriteOutput fuel buf nbytes w = some (o, r, w')) :
    o = ⟨cString buf,
      (checkBuf buf nbytes 0).reads ++ List.range' 0 (strlen buf + 1) ++ lastRead nbytes⟩ := by
  rw [terminalWriteOutput, if_neg (not_lt.mpr hle)] at h
  obtain ⟨w₁, -, h⟩ := Option.bind_eq_some_iff.mp h
  obtain ⟨w₂, -, h⟩ := Option.bind_eq_some_iff.mp h
  obtain ⟨w₃, -, h⟩ := Option.map_eq_some_iff.mp h
  have ho := (Prod.mk.inj h).1
  rw [putsOutput_eq] at ho
  exact ho.symm

/-- A call of `terminal_write` that returns prints exactly its text, and reads nothing behind
it, if and only if a NUL comes before `nbytes`. -/
theorem terminalWrite_prints_iff (hpos : 1 ≤ nbytes) (hle : nbytes ≤ maxInputBufLen)
    (h : terminalWriteOutput fuel buf nbytes w = some (o, r, w')) :
    Prints buf nbytes o ↔ ∃ i < nbytes, byteAt buf i = 0 := by
  rw [output_eq hle h, ← strlen_lt_iff]
  constructor
  · intro hprints
    apply hprints.reads
    simp
  · intro hnul
    refine ⟨?_, fun i hi => ?_⟩
    · rw [textEnd_of_lt hnul]
      exact cString_eq_map buf
    · simp only [List.mem_append, List.mem_range'_1] at hi
      rcases hi with (hi | hi) | hi
      · have hcheck := checkBuf_reads hi
        omega
      · omega
      · unfold lastRead at hi
        split_ifs at hi with h80
        · rw [List.mem_singleton] at hi
          omega
        · exact absurd hi (by simp)

theorem terminalWrite_prints_terminated : ∃ (o : Output) (w' : Writer),
    terminalWriteOutput 0 [104, 105, 0, 33] 4 (blankWriter 0) = some (o, 3, w') ∧
      Prints [104, 105, 0, 33] 4 o := by
  have hret : (terminalWriteOutput 0 [104, 105, 0, 33] 4 (blankWriter 0)).map
      (fun p => p.2.1) = some 3 := by
    decide +kernel
  obtain ⟨⟨o, r, w'⟩, hw', hr⟩ := Option.map_eq_some_iff.mp hret
  obtain rfl : r = 3 := hr
  exact ⟨o, w', hw', (terminalWrite_prints_iff (by decide) (by decide) hw').mpr
    ⟨2, by decide, by decide⟩⟩

/-- The two bytes `hi` in a buffer of two bytes: the byte behind them is read. -/
theorem terminalWrite_reads_on : ¬∀ (fuel : ℕ) (buf : List UInt8) (nbytes r : ℕ) (o : Output)
    (w w' : Writer), 1 ≤ nbytes → nbytes ≤ maxInputBufLen →
    terminalWriteOutput fuel buf nbytes w = some (o, r, w') → Prints buf nbytes o := by
  intro h
  have hrun : (terminalWriteOutput 0 [104, 105, 33] 2 (blankWriter 0)).map
      (fun p => p.1.chars) = some [104, 105, 33] := by
    decide +kernel
  obtain ⟨⟨o, r, w'⟩, hw', ho⟩ := Option.map_eq_some_iff.mp hrun
  have hprints := (h 0 [104, 105, 33] 2 r o (blankWriter 0) w' (by decide) (by decide) hw').chars
  rw [show o.chars = [104, 105, 33] from ho] at hprints
  exact absurd hprints (by decide)

end Writer

end HalOs
