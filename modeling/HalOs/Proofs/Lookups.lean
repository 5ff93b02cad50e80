import HalOs.Model.Events
import HalOs.Model.Lookups
import HalOs.Proofs.Strings

/-!
# Directory lookups

`read_dentry_by_name` finds the first entry with the name wherever its 8-bit counter can reach
the number of entries. `read_dentry_by_index` agrees with it at every index but the first one
past the directory, which it takes for an entry.
-/

namespace HalOs

/-- The entry `i` places into the boot block has the name. -/
def Image.NamedAt (img : Image) (fname : List UInt8) (i : ℕ) : Prop :=
  (img.bootDentries i).name = cString fname

namespace Cells

variable {img : Image} {fname : List UInt8} {old d : Dentry} {i m : ℕ}

lemma named_of (hlen : strlen fname ≤ 32) (h : img.NamedAt fname i) :
    named img fname i = some (img.bootDentries i) :=
  if_pos ((nameMatches_iff hlen _).mpr h)

lemma named_of_not (hlen : strlen fname ≤ 32) (h : ¬img.NamedAt fname i) :
    named img fname i = none :=
  if_neg fun hm => h ((nameMatches_iff hlen _).mp hm)

lemma named_eq_none (hlen : strlen fname ≤ 32) (h : named img fname i = none) :
    ¬img.NamedAt fname i := by
  intro hn
  rw [named_of hlen hn] at h
  exact absurd h (by simp)

lemma named_eq_some (hlen : strlen fname ≤ 32) (h : named img fname i = some d) :
    img.NamedAt fname i ∧ d = img.bootDentries i := by
  have hn : img.NamedAt fname i := by
    by_contra hn
    rw [named_of_not hlen hn] at h
    exact absurd h (by simp)
  rw [named_of hlen hn] at h
  exact ⟨hn, (Option.some.inj h).symm⟩

/-- A name longer than the field is refused before the directory is looked at. -/
lemma readDentryByName_long (hlen : 32 < strlen fname) (fuel : ℕ) :
    readDentryByName img fname old fuel = some ⟨-1, old, []⟩ := if_pos hlen

lemma not_namedAt_long (hlen : 32 < strlen fname) (i : ℕ) : ¬img.NamedAt fname i := by
  intro h
  have hle := name_length_le (img.bootDentries i)
  rw [h] at hle
  exact absurd hlen (not_lt.mpr hle)

/-- How the lookup of a name that fits the field ends. -/
theorem readDentryByName_cases (img : Image) (old : Dentry) (hlen : strlen fname ≤ 32) :
    (∃ m, m < img.numDentries.toNat ∧ m < 256 ∧ img.NamedAt fname m ∧
      (∀ l < m, ¬img.NamedAt fname l) ∧
      readDentryByName img fname old (m + 2) = some ⟨0, img.bootDentries m,
        (m :: (List.range m).reverse).map Cell.dentry⟩) ∨
    (img.numDentries.toNat < 256 ∧ (∀ l < img.numDentries.toNat, ¬img.NamedAt fname l) ∧
      readDentryByName img fname old img.numDentries.toNat = some ⟨-1, old,
        (List.range img.numDentries.toNat).reverse.map Cell.dentry⟩) ∨
    (256 ≤ img.numDentries.toNat ∧ (∀ l < 256, ¬img.NamedAt fname l) ∧
      ∀ fuel, readDentryByName img fname old fuel = none) := by
  have hshort : ¬maxFilenameSize < strlen fname := not_lt.mpr hlen
  rcases Loops.scan_cases 256 img.numDentries.toNat (named img fname) (by decide) with
    ⟨m, d, hm, hm', hd, hbefore, hscan⟩ | ⟨hlt, hnone, hscan⟩ | ⟨hge, hnone, hscan⟩
  · obtain ⟨hn, rfl⟩ := named_eq_some hlen hd
    refine Or.inl ⟨m, hm, hm', hn, fun l hl => named_eq_none hlen (hbefore l hl), ?_⟩
    rw [readDentryByName, if_neg hshort, hscan]
    rfl
  · refine Or.inr (Or.inl ⟨hlt, fun l hl => named_eq_none hlen (hnone l hl), ?_⟩)
    rw [readDentryByName, if_neg hshort, hscan]
    rfl
  · refine Or.inr (Or.inr ⟨hge, fun l hl => named_eq_none hlen (hnone l hl), fun fuel => ?_⟩)
    rw [readDentryByName, if_neg hshort, hscan]
    rfl

lemma readDentryByName_found (himg : img.numDentries.toNat ≤ maxNumDentries)
    (hm : m < img.numDentries.toNat) (hn : img.NamedAt fname m) (old : Dentry) :
    ∃ fuel r i, readDentryByName img fname old fuel = some r ∧ r.value = 0 ∧
      img.NamedAt fname i ∧ r.out = img.bootDentries i := by
  have hlen : strlen fname ≤ 32 := not_lt.mp fun hlong => not_namedAt_long hlong m hn
  rcases readDentryByName_cases img old hlen with
    ⟨i, -, -, hi, -, hrun⟩ | ⟨-, hnone, -⟩ | ⟨hge, -, -⟩
  · exact ⟨_, _, i, hrun, rfl, hi, rfl⟩
  · exact absurd hn (hnone m hm)
  · simp only [maxNumDentries] at himg
    omega

/-- The lookup returns 0 exactly for the names of the directory, with the first entry of the
name in its out-parameter, and otherwise -1 with the out-parameter as it was. -/
theorem readDentryByName_spec (himg : img.numDentries.toNat ≤ maxNumDentries)
    (fname : List UInt8) (old : Dentry) :
    ∃ fuel r, readDentryByName img fname old fuel = some r ∧
      (r.value = 0 ↔ ∃ m < img.numDentries.toNat, img.NamedAt fname m) ∧
      (∀ m < img.numDentries.toNat, img.NamedAt fname m → (∀ l < m, ¬img.NamedAt fname l) →
        r.out = img.bootDentries m) ∧
      ((∀ m < img.numDentries.toNat, ¬img.NamedAt fname m) → r.value = -1 ∧ r.out = old) := by
  rcases Nat.lt_or_ge 32 (strlen fname) with hlong | hlen
  · have hnone : ∀ m, ¬img.NamedAt fname m := fun m => not_namedAt_long hlong m
    refine ⟨0, _, readDentryByName_long hlong 0, ?_, fun m _ hm => absurd hm (hnone m),
      fun _ => ⟨rfl, rfl⟩⟩
    exact ⟨fun h => absurd h (by simp), fun ⟨m, _, hm⟩ => absurd hm (hnone m)⟩
  · rcases readDentryByName_cases img old hlen with
      ⟨m, hm, -, hn, hfirst, hrun⟩ | ⟨-, hnone, hrun⟩ | ⟨hge, -, -⟩
    · refine ⟨_, _, hrun, ⟨fun _ => ⟨m, hm, hn⟩, fun _ => rfl⟩, fun m' _ hn' hfirst' => ?_,
        fun hno => absurd hn (hno m hm)⟩
      have hmm : m = m' := by
        rcases Nat.lt_trichotomy m m' with hlt | heq | hgt
        · exact absurd hn (hfirst' m hlt)
        · exact heq
        · exact absurd hn' (hfirst m' hgt)
      rw [hmm]
    · refine ⟨_, _, hrun, ?_, fun m hm hn => absurd hn (hnone m hm), fun _ => ⟨rfl, rfl⟩⟩
      exact ⟨fun h => absurd h (by simp), fun ⟨m, hm, hn⟩ => absurd hn (hnone m hm)⟩
    · simp only [maxNumDentries] at himg
      omega

theorem readDentryByName_spec_shell : shellImage.numDentries.toNat ≤ maxNumDentries ∧
    ∃ fuel r, readDentryByName shellImage shellCommand (shellImage.bootDentries 5) fuel = some r ∧
      r.value = 0 := by
  have himg : shellImage.numDentries.toNat ≤ maxNumDentries := by decide
  obtain ⟨fuel, r, hrun, hvalue, -⟩ :=
    readDentryByName_spec himg shellCommand (shellImage.bootDentries 5)
  have hshell : shellImage.NamedAt shellCommand 0 := by
    unfold Image.NamedAt
    decide
  exact ⟨himg, fuel, r, hrun, hvalue.mpr ⟨0, by decide, hshell⟩⟩

/-! ### The closed form -/

/-- The routine does what the one that reads the whole directory at once does. -/
theorem readDentryByName_refines (img : Image) (fname : List UInt8) (old : Dentry) :
    match HalOs.readDentryByName img fname with
    | none => ∀ fuel, readDentryByName img fname old fuel = none
    | some none => ∃ fuel r, readDentryByName img fname old fuel = some r ∧
        r.value = -1 ∧ r.out = old
    | some (some d) => ∃ fuel r, readDentryByName img fname old fuel = some r ∧
        r.value = 0 ∧ r.out = d := by
  rcases Nat.lt_or_ge 32 (strlen fname) with hlong | hlen
  · have hrefused : HalOs.readDentryByName img fname = some none := if_pos hlong
    rw [hrefused]
    exact ⟨0, _, readDentryByName_long hlong 0, rfl, rfl⟩
  · have hshort : ¬maxFilenameSize < strlen fname := not_lt.mpr hlen
    have hmatch : ∀ i, nameMatches fname (img.bootDentries i) = true ↔ img.NamedAt fname i :=
      fun i => nameMatches_iff hlen _
    have hmiss : ∀ n, (∀ l < n, ¬img.NamedAt fname l) →
        (List.range n).find? (fun i => nameMatches fname (img.bootDentries i)) = none := by
      intro n hnone
      rw [List.find?_eq_none]
      intro l hl hm
      exact hnone l (List.mem_range.mp hl) ((hmatch l).mp hm)
    unfold HalOs.readDentryByName
    rw [if_neg hshort]
    rcases readDentryByName_cases img old hlen with
      ⟨m, hm, hm', hn, hfirst, hrun⟩ | ⟨hlt, hnone, hrun⟩ | ⟨hge, hnone, hrun⟩
    · have hfind : (List.range (min img.numDentries.toNat 256)).find?
          (fun i => nameMatches fname (img.bootDentries i)) = some m := by
        rw [List.find?_range_eq_some]
        refine ⟨(hmatch m).mpr hn, List.mem_range.mpr (by omega), fun l hl => ?_⟩
        rw [Bool.not_eq_true', Bool.eq_false_iff]
        exact fun hm => hfirst l hl ((hmatch l).mp hm)
      rw [hfind]
      exact ⟨m + 2, _, hrun, rfl, rfl⟩
    · rw [min_eq_left hlt.le, hmiss _ hnone]
      simp only [if_pos hlt]
      exact ⟨_, _, hrun, rfl, rfl⟩
    · rw [min_eq_right hge, hmiss _ hnone]
      simp only [if_neg (not_lt.mpr hge)]
      exact hrun

/-! ### Lookups by index -/

/-- What is promised of a lookup by index: it succeeds only for names that the lookup by name
finds, and fails past the directory. -/
def IndexAgrees (img : Image) (index : UInt32) : Prop := ∀ old old' : Dentry,
  let r := readDentryByIndex img index old
  (r.value = 0 → ∃ fuel r', readDentryByName img r.out.name old' fuel = some r' ∧
    r'.value = 0 ∧ r'.out.name = r.out.name) ∧
  (img.numDentries ≤ index → r.value = -1)

lemma cString_name (d : Dentry) : cString d.name = d.name := cString_cString _

lemma readDentryByIndex_of_le {index : UInt32} (h : index.toNat ≤ img.numDentries.toNat) :
    readDentryByIndex img index old =
      ⟨0, img.bootDentries index.toNat, [.dentry index.toNat]⟩ := by
  have hle : ¬img.numDentries < index := by
    rw [UInt32.lt_iff_toNat_lt]
    omega
  exact if_neg hle

lemma readDentryByIndex_of_lt {index : UInt32} (h : img.numDentries.toNat < index.toNat) :
    readDentryByIndex img index old = ⟨-1, old, []⟩ := if_pos (UInt32.lt_iff_toNat_lt.mpr h)

/-- The two lookups agree at every index but the number of entries. -/
theorem indexAgrees_iff (himg : img.numDentries.toNat ≤ 62) (index : UInt32) :
    IndexAgrees img index ↔ index ≠ img.numDentries := by
  constructor
  · intro h heq
    have hself : img.numDentries ≤ index := heq ▸ UInt32.le_refl _
    have herror := (h (img.bootDentries 0) (img.bootDentries 0)).2 hself
    rw [readDentryByIndex_of_le (by rw [heq])] at herror
    exact absurd herror (by simp)
  · intro hne old old'
    have hnat : index.toNat ≠ img.numDentries.toNat := fun he => hne (UInt32.toNat_inj.mp he)
    rcases Nat.lt_or_gt_of_ne hnat with hindex | hgt
    · rw [readDentryByIndex_of_le hindex.le]
      refine ⟨fun _ => ?_, fun hle => absurd (UInt32.le_iff_toNat_le.mp hle) (not_le.mpr hindex)⟩
      have hbound : img.numDentries.toNat ≤ maxNumDentries := himg.trans (by decide)
      have hself : img.NamedAt (img.bootDentries index.toNat).name index.toNat :=
        (cString_name _).symm
      obtain ⟨fuel, r, i, hrun, hvalue, hi, hout⟩ :=
        readDentryByName_found hbound hindex hself old'
      refine ⟨fuel, r, hrun, hvalue, ?_⟩
      rw [hout, hi, cString_name]
    · rw [readDentryByIndex_of_lt hgt]
      exact ⟨fun h => absurd h (by simp), fun _ => rfl⟩

theorem indexAgrees_iff_first : IndexAgrees shellImage 0 :=
  (indexAgrees_iff (by decide) 0).mpr (by decide)

/-- The first index past the directory is taken for an entry. -/
theorem readDentryByIndex_past_end : ¬∀ (img : Image) (index : UInt32),
    img.numDentries.toNat ≤ 62 → IndexAgrees img index := by
  intro h
  have hpast := (h shellImage 1 (by decide) (shellImage.bootDentries 0)
    (shellImage.bootDentries 0)).2 (by decide)
  have hvalue : (0 : ℤ) = -1 := hpast
  exact absurd hvalue (by decide)

end Cells

end HalOs
