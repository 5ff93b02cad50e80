import HalOs.Model.Filesystem

/-!
# NUL-terminated strings in memory

A string starts at an address and ends before its first NUL. What `strncmp` compares, what
`read_dentry_by_name` finds and what a copy holds are stated by the string at an address.
-/

namespace HalOs

lemma cString_cString (s : List UInt8) : cString (cString s) = cString s := List.takeWhile_idem

lemma cString_text {text rest : List UInt8} (h : 0 ∉ text) : cString (text ++ 0 :: rest) = text := by
  have hne : ∀ b ∈ text, (b ≠ 0 : Bool) = true := fun b hb =>
    decide_eq_true fun hb0 : b = 0 => h (hb0 ▸ hb)
  rw [cString, List.takeWhile_append_of_pos hne]
  exact List.append_nil text

lemma cString_cons {c : UInt8} (hc : c ≠ 0) (s : List UInt8) :
    cString (c :: s) = c :: cString s := by
  simp [cString, hc]

lemma strlen_cons {c : UInt8} (hc : c ≠ 0) (s : List UInt8) :
    strlen (c :: s) = strlen s + 1 := by
  rw [strlen, cString_cons hc]
  rfl

lemma strlen_nul_cons (s : List UInt8) : strlen (0 :: s) = 0 := rfl

/-- The string `n` bytes of memory from `i` on hold, up to the first NUL. -/
def stringAt (s : ℕ → UInt8) (n i : ℕ) : List UInt8 := cString ((List.range' i n).map s)

lemma stringAt_succ (s : ℕ → UInt8) (n i : ℕ) :
    stringAt s (n + 1) i = if s i = 0 then [] else s i :: stringAt s n (i + 1) := by
  unfold stringAt cString
  rw [List.range'_succ, List.map_cons, List.takeWhile_cons]
  by_cases h : s i = 0
  · simp [h]
  · simp [h]

/-- `strncmp` finds two strings equal when they are equal up to the first NUL. -/
lemma strncmp_eq_zero (s1 s2 : ℕ → UInt8) (n i : ℕ) :
    strncmp s1 s2 n i = 0 ↔ stringAt s1 n i = stringAt s2 n i := by
  induction n generalizing i with
  | zero => simp [strncmp, stringAt]
  | succ n ih =>
    rw [strncmp, stringAt_succ, stringAt_succ]
    by_cases heq : s1 i = s2 i
    · rw [← heq]
      by_cases h0 : s1 i = 0
      · simp [h0]
      · simp [h0, ih]
    · have hne : (s1 i).toInt8.toInt - (s2 i).toInt8.toInt ≠ 0 := by
        intro h
        have hi : (s1 i).toInt8 = (s2 i).toInt8 := Int8.toInt_inj.mp (by omega)
        exact heq (by simpa using congrArg Int8.toUInt8 hi)
      rw [if_pos (Or.inl heq)]
      refine ⟨fun h => absurd h hne, fun h => ?_⟩
      by_cases h1 : s1 i = 0
      · by_cases h2 : s2 i = 0
        · exact absurd (h1.trans h2.symm) heq
        · simp [h1, h2] at h
      · by_cases h2 : s2 i = 0
        · simp [h1, h2] at h
        · simp [h1, h2, heq] at h

lemma stringAt_of_spelled {s : ℕ → UInt8} {text : List UInt8} {n i : ℕ} (h0 : 0 ∉ text)
    (hs : ∀ j (hj : j < text.length), s (i + j) = text[j]) (hend : s (i + text.length) = 0)
    (hn : text.length < n) : stringAt s n i = text := by
  induction text generalizing n i with
  | nil =>
    obtain ⟨n, rfl⟩ : ∃ m, n = m + 1 := ⟨n - 1, by simp at hn; omega⟩
    rw [stringAt_succ, if_pos (by simpa using hend)]
  | cons b text ih =>
    obtain ⟨n, rfl⟩ : ∃ m, n = m + 1 := ⟨n - 1, by simp at hn; omega⟩
    have hb : s i = b := hs 0 (Nat.succ_pos _)
    have hne : b ≠ 0 := fun h => h0 (h ▸ List.mem_cons_self)
    have hshift : ∀ j, i + 1 + j = i + (j + 1) := fun j => by omega
    rw [stringAt_succ, hb, if_neg hne, ih (fun h => h0 (List.mem_cons_of_mem b h)) _ _ _]
    · intro j hj
      rw [hshift]
      exact hs (j + 1) (Nat.succ_lt_succ hj)
    · rw [hshift]
      simpa using hend
    · simpa using hn

section Names

variable {img : Image} {fname : List UInt8}

/-- The first directory entry that has the name. -/
def Image.firstNamed (img : Image) (filename : List UInt8) : Option Dentry :=
  ((List.range img.numDentries.toNat).find? fun i =>
    (img.bootDentries i).name = cString filename).map img.bootDentries

lemma name_eq_stringAt (d : Dentry) : d.name = stringAt d.nameByte 32 0 := by
  rw [Dentry.name, stringAt, List.range_eq_range']

lemma stringAt_byteAt {n : ℕ} (hn : strlen fname ≤ n) :
    stringAt (byteAt fname) n 0 = cString fname := by
  induction fname generalizing n with
  | nil =>
    cases n with
    | zero => rfl
    | succ n => simp [stringAt_succ, byteAt, cString]
  | cons b l ih =>
    by_cases hb : b = 0
    · cases n with
      | zero => simp [stringAt, cString, hb]
      | succ n => simp [stringAt_succ, byteAt, cString, hb]
    · have hcons := cString_cons hb l
      rw [strlen, hcons, List.length_cons] at hn
      obtain ⟨n, rfl⟩ : ∃ m, n = m + 1 := ⟨n - 1, by omega⟩
      have hshift : stringAt (byteAt (b :: l)) n 1 = stringAt (byteAt l) n 0 := by
        unfold stringAt
        rw [List.range'_eq_map_range, List.range'_eq_map_range, List.map_map, List.map_map]
        refine congrArg cString (List.map_congr_left fun j _ => ?_)
        simp [byteAt, Nat.add_comm 1]
      have hl : strlen l ≤ n := by
        simp only [strlen]
        omega
      rw [stringAt_succ, hcons, if_neg (by simpa [byteAt] using hb), hshift, ih hl]
      rfl

lemma name_length_le (d : Dentry) : d.name.length ≤ 32 := by
  have h := (List.takeWhile_sublist (· ≠ 0) (l := (List.range 32).map d.nameByte)).length_le
  simpa [Dentry.name, cString] using h

lemma nameMatches_iff (h : strlen fname ≤ 32) (d : Dentry) :
    nameMatches fname d = true ↔ d.name = cString fname := by
  rw [nameMatches, decide_eq_true_eq, strncmp_eq_zero, stringAt_byteAt h, name_eq_stringAt]
  exact eq_comm

/-- `read_dentry_by_name` returns the first entry with the name. -/
theorem readDentryByName_eq (himg : img.numDentries.toNat ≤ maxNumDentries) :
    readDentryByName img fname = some (img.firstNamed fname) := by
  unfold readDentryByName
  by_cases hlen : maxFilenameSize < strlen fname
  · have hnone : img.firstNamed fname = none := by
      rw [Image.firstNamed, Option.map_eq_none_iff, List.find?_eq_none]
      intro i _ hname
      have hle := name_length_le (img.bootDentries i)
      rw [of_decide_eq_true hname] at hle
      simp only [maxFilenameSize, strlen] at hlen
      omega
    rw [if_pos hlen, hnone]
  · have hmin : min img.numDentries.toNat 256 = img.numDentries.toNat := by
      simp only [maxNumDentries] at himg
      omega
    have hfind : (List.range img.numDentries.toNat).find?
          (fun i => nameMatches fname (img.bootDentries i)) =
        (List.range img.numDentries.toNat).find?
          fun i => (img.bootDentries i).name = cString fname := by
      congr 1
      funext i
      rw [Bool.eq_iff_iff, nameMatches_iff (not_lt.mp hlen), decide_eq_true_eq]
    rw [if_neg hlen, hmin, hfind, Image.firstNamed]
    cases (List.range img.numDentries.toNat).find?
        fun i => (img.bootDentries i).name = cString fname with
    | none =>
      simp only [maxNumDentries] at himg
      simp only [Option.map_none]
      rw [if_pos (by omega)]
    | some i => rfl

end Names

end HalOs
