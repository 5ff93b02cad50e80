import HalOs.Proofs.BlinkPhase
import HalOs.Proofs.FishFrames

/-!
# The animated fish

Two pictures that fit beside each other's place on the screen blink in step: for fifteen ticks
the screen shows the first one, for the next fifteen the second one, and so on.
-/

namespace HalOs.Blink

/-! ### Many blinkers added at once -/

/-- The blinker an add puts in the list. -/
def added (b : BlinkStruct) : Blinker :=
  { b.toBlinker with status := 1, countdown := b.onLength }

/-- Blinkers at places of their own, each of them shown. -/
structure Shown (a : Blinkers) : Prop where
  apart : (a.entries.map Blinker.location).Nodup
  face : ∀ d ∈ a.entries, a.video (2 * d.location.toNat) = face d

lemma double_ne {d e : Blinker} (h : d.location ≠ e.location) :
    2 * d.location.toNat ≠ 2 * e.location.toNat := fun heq =>
  h (UInt16.toNat_inj.mp (by omega))

lemma session_append_answers (a : Blinkers) (rs rs' : List Request) :
    (a.session (rs ++ rs')).2 = ((a.session rs).2.session rs').2 := by
  induction rs generalizing a with
  | nil => rfl
  | cons r rs ih => exact ih (a.serve r).2

section Adds

variable {a : Blinkers} {bs : List BlinkStruct}

/-- An add at a free place keeps every blinker shown. -/
lemma Shown.add (h : Shown a) {b : BlinkStruct} (hloc : b.location.toNat < 80 * 25)
    (hroom : a.entries.length < blinkSlots) (hfree : b.location ∉ a.entries.map Blinker.location) :
    (a.serve (.add b)).2 =
        ⟨added b :: a.entries, Blinkers.poke a.video b.location b.onChar⟩ ∧
      Shown (a.serve (.add b)).2 := by
  have hserve : (a.serve (.add b)).2 =
      ⟨added b :: a.entries, Blinkers.poke a.video b.location b.onChar⟩ := by
    rw [Blinkers.serve, if_neg (by omega)]
    rfl
  refine ⟨hserve, ?_⟩
  rw [hserve]
  refine ⟨List.nodup_cons.mpr ⟨hfree, h.apart⟩, fun d hd => ?_⟩
  rcases List.mem_cons.mp hd with rfl | hd
  · rw [face_on (by rfl)]
    exact Function.update_self ..
  · have hne : d.location ≠ (added b).location := fun heq =>
      hfree (List.mem_map.mpr ⟨d, hd, heq⟩)
    rw [← h.face d hd]
    exact Function.update_of_ne (double_ne hne) ..

/-- Adds at free places put their blinkers in front and touch the screen there only. -/
lemma session_adds (h : Shown a) (hloc : ∀ b ∈ bs, b.location.toNat < 80 * 25)
    (hroom : a.entries.length + bs.length ≤ blinkSlots)
    (hfree : (bs.map (·.location) ++ a.entries.map Blinker.location).Nodup) :
    (a.session (bs.map .add)).2.entries = (bs.map added).reverse ++ a.entries ∧
      Shown (a.session (bs.map .add)).2 ∧
      ∀ k, (∀ b ∈ bs, 2 * b.location.toNat ≠ k) →
        (a.session (bs.map .add)).2.video k = a.video k := by
  induction bs generalizing a with
  | nil => exact ⟨rfl, h, fun _ _ => rfl⟩
  | cons b bs ih =>
    simp only [List.length_cons] at hroom
    rw [List.map_cons, List.cons_append, List.nodup_cons, List.mem_append, not_or] at hfree
    obtain ⟨⟨hlater, hb⟩, hfree⟩ := hfree
    obtain ⟨hserve, hshown⟩ := h.add (hloc b List.mem_cons_self) (by omega) hb
    rw [List.map_cons, Blinkers.session]
    rw [hserve] at hshown ⊢
    have hfree' : (bs.map (·.location) ++
        (added b :: a.entries).map Blinker.location).Nodup := by
      rw [List.map_cons, List.nodup_middle, List.nodup_cons, List.mem_append, not_or]
      exact ⟨⟨hlater, hb⟩, hfree⟩
    obtain ⟨hentries, hshown', hvideo⟩ := ih hshown
      (fun b' hb' => hloc b' (List.mem_cons_of_mem b hb'))
      (by simp only [List.length_cons]; omega) hfree'
    refine ⟨?_, hshown', fun k hk => ?_⟩
    · rw [hentries]
      simp
    · rw [hvideo k fun b' hb' => hk b' (List.mem_cons_of_mem b hb')]
      exact Function.update_of_ne (hk b List.mem_cons_self).symm ..

/-! ### Many blinkers ticking -/

/-- A tick pokes each blinker's place with the character it changes to. -/
lemma foldl_flash_self {entries : List Blinker} (hapart : (entries.map Blinker.location).Nodup)
    (video : ℕ → UInt8) {d : Blinker} (hd : d ∈ entries)
    (hface : video (2 * d.location.toNat) = face d) (hstatus : d.status = 0 ∨ d.status = 1) :
    entries.foldl Blinkers.flash video (2 * d.location.toNat) = face (tick d) := by
  induction entries generalizing video with
  | nil => exact absurd hd (by simp)
  | cons e entries ih =>
    obtain ⟨he, hapart⟩ := List.nodup_cons.mp hapart
    rw [List.foldl_cons]
    rcases List.mem_cons.mp hd with rfl | hd
    · rw [foldl_flash_of_ne fun e' he' => double_ne fun heq =>
        he (List.mem_map.mpr ⟨e', he', heq⟩)]
      exact flash_self video d hface hstatus
    · have hne : e.location ≠ d.location := fun heq => he (List.mem_map.mpr ⟨d, hd, heq.symm⟩)
      exact ih hapart _ hd ((flash_of_ne video (double_ne hne)).trans hface)

/-- Blinkers that were just added, `n` ticks later. -/
lemma session_ticks_all (h : Shown a) (hfresh : ∀ d ∈ a.entries, d.status = 1 ∧
    d.countdown = d.onLength) (n : ℕ) :
    (a.session (List.replicate n .tick)).2.entries = a.entries.map (phase · n) ∧
      Shown (a.session (List.replicate n .tick)).2 ∧
      ∀ k, (∀ d ∈ a.entries, 2 * d.location.toNat ≠ k) →
        (a.session (List.replicate n .tick)).2.video k = a.video k := by
  induction n with
  | zero =>
    refine ⟨?_, h, fun _ _ => rfl⟩
    have hzero : ∀ d ∈ a.entries, phase d 0 = d := fun d hd =>
      (tick_iterate (hfresh d hd).1 (hfresh d hd).2 0).symm
    rw [List.map_congr_left hzero]
    exact (List.map_id a.entries).symm
  | succ n ih =>
    obtain ⟨hentries, hshown, hvideo⟩ := ih
    rw [List.replicate_succ', session_append_answers]
    generalize (a.session (List.replicate n .tick)).2 = u at *
    have hnext : (u.session [.tick]).2 =
        ⟨a.entries.map (phase · (n + 1)), u.entries.foldl Blinkers.flash u.video⟩ := by
      simp only [Blinkers.session, Blinkers.serve, Blinkers.mk.injEq, and_true]
      rw [hentries, List.map_map]
      exact List.map_congr_left fun d _ => tick_phase d n
    have hlocations : (a.entries.map (phase · (n + 1))).map Blinker.location =
        u.entries.map Blinker.location := by
      rw [hentries, List.map_map, List.map_map]
      exact List.map_congr_left fun d _ => (phase_location d (n + 1)).trans (phase_location d n).symm
    rw [hnext]
    refine ⟨rfl, ⟨hlocations ▸ hshown.apart, fun d hd => ?_⟩, fun k hk => ?_⟩
    · obtain ⟨e, he, rfl⟩ := List.mem_map.mp hd
      have hmem : phase e n ∈ u.entries := by
        rw [hentries]
        exact List.mem_map.mpr ⟨e, he, rfl⟩
      have hself := foldl_flash_self hshown.apart u.video hmem (hshown.face _ hmem)
        (phase_status e n)
      rw [tick_phase, phase_location] at hself
      rw [phase_location]
      exact hself
    · rw [← hvideo k hk]
      refine foldl_flash_of_ne (fun d hd => ?_) _
      rw [hentries] at hd
      obtain ⟨e, he, rfl⟩ := List.mem_map.mp hd
      rw [phase_location]
      exact hk e he

end Adds

end HalOs.Blink

namespace HalOs.Fish

open Blink

/-! ### The two pictures -/

/-- The character of a picture at a row and column, blank outside of it. -/
def pixel (frame : List UInt8) (r c : ℕ) : UInt8 := ((rows frame).getD r []).getD c space

/-- A picture fits on the right half of the screen. -/
def Fits (frame : List UInt8) : Prop :=
  (rows frame).length ≤ 25 ∧ ∀ l ∈ rows frame, l.length ≤ 40

instance (frame : List UInt8) : Decidable (Fits frame) :=
  inferInstanceAs (Decidable (_ ∧ _))

/-- The location of a row and column. -/
def locate (r c : ℕ) : UInt16 := UInt16.ofNat (r * 80 + c + offset)

/-- The structure added for a row and column. -/
def pixelStruct (blink : BlinkStruct) (r c : ℕ) (x y : UInt8) : BlinkStruct :=
  { blink with onLength := 15, offLength := 15, onChar := x, offChar := y, location := locate r c }

/-- The structures of the adds of two pictures, in order. -/
def pictureAdds (blink : BlinkStruct) (ls0 ls1 : List (List UInt8)) : List BlinkStruct :=
  (List.range (max ls0.length ls1.length)).flatMap fun r =>
    (List.range (max (ls0.getD r []).length (ls1.getD r []).length)).flatMap fun c =>
      let x := (ls0.getD r []).getD c space
      let y := (ls1.getD r []).getD c space
      if x ≠ space ∨ y ≠ space then [pixelStruct blink r c x y] else []

section Picture

variable {blink : BlinkStruct} {ls0 ls1 : List (List UInt8)} {frame0 frame1 : List UInt8}
  {r c r' c' : ℕ}

lemma locate_toNat (hr : r < 25) (hc : c < 40) : (locate r c).toNat = r * 80 + c + 40 := by
  rw [locate, offset, UInt16.toNat_ofNat', Nat.mod_eq_of_lt (by omega)]

lemma locate_inj (hr : r < 25) (hc : c < 40) (hr' : r' < 25) (hc' : c' < 40)
    (h : locate r c = locate r' c') : r = r' ∧ c = c' := by
  have hnat := congrArg UInt16.toNat h
  rw [locate_toNat hr hc, locate_toNat hr' hc'] at hnat
  omega

lemma requests_append (xs ys : List Action) : requests (xs ++ ys) = requests xs ++ requests ys :=
  List.filterMap_append

lemma requests_closes (eof0 eof1 : Bool) : requests (closes eof0 eof1) = [] := by
  cases eof0 <;> cases eof1 <;> rfl

/-- The ioctls of a picture are the adds of its structures. -/
lemma requests_picture : requests (picture blink 0 ls0 ls1) =
    (pictureAdds blink ls0 ls1).map .add := by
  unfold picture pictureAdds
  rw [requests, List.filterMap_flatMap, List.map_flatMap]
  refine List.flatMap_congr fun r _ => ?_
  change requests _ = _
  rw [requests_append, requests_closes, List.append_nil, rowActions, requests,
    List.filterMap_flatMap, List.map_flatMap]
  refine List.flatMap_congr fun c _ => ?_
  simp only [cell, Nat.zero_add]
  split_ifs
  · rfl
  · rfl

lemma inside_of_pixel {frame : List UInt8} (hne : pixel frame r c ≠ space) :
    r < (rows frame).length ∧ c < ((rows frame).getD r []).length := by
  have hc : c < ((rows frame).getD r []).length := by
    by_contra hle
    exact hne (List.getD_eq_default _ _ (by omega))
  refine ⟨?_, hc⟩
  by_contra hle
  rw [List.getD_eq_default _ _ (by omega)] at hc
  exact absurd hc (by simp)

/-- The structures added are those of the visible places. -/
lemma mem_pictureAdds {b : BlinkStruct} :
    b ∈ pictureAdds blink (rows frame0) (rows frame1) ↔
      ∃ r c, (pixel frame0 r c ≠ space ∨ pixel frame1 r c ≠ space) ∧
        b = pixelStruct blink r c (pixel frame0 r c) (pixel frame1 r c) := by
  unfold pictureAdds
  simp only [List.mem_flatMap, List.mem_range]
  constructor
  · rintro ⟨r, -, c, -, hb⟩
    split_ifs at hb with hvisible
    · exact ⟨r, c, hvisible, List.mem_singleton.mp hb⟩
    · exact absurd hb (by simp)
  · rintro ⟨r, c, hvisible, rfl⟩
    refine ⟨r, ?_, c, ?_, ?_⟩
    · rcases hvisible with hne | hne
      · exact lt_max_of_lt_left (inside_of_pixel hne).1
      · exact lt_max_of_lt_right (inside_of_pixel hne).1
    · rcases hvisible with hne | hne
      · exact lt_max_of_lt_left (inside_of_pixel hne).2
      · exact lt_max_of_lt_right (inside_of_pixel hne).2
    · unfold pixel at hvisible ⊢
      rw [if_pos hvisible]
      exact List.mem_singleton_self _

lemma Fits.bounds {frame : List UInt8} (h : Fits frame) (hne : pixel frame r c ≠ space) :
    r < 25 ∧ c < 40 := by
  obtain ⟨hr, hc⟩ := inside_of_pixel hne
  rw [List.getD_eq_getElem _ _ hr] at hc
  exact ⟨hr.trans_le h.1, hc.trans_le (h.2 _ (List.getElem_mem hr))⟩

lemma visible_bounds (h0 : Fits frame0) (h1 : Fits frame1)
    (h : pixel frame0 r c ≠ space ∨ pixel frame1 r c ≠ space) : r < 25 ∧ c < 40 :=
  h.elim h0.bounds h1.bounds

/-- No two structures of pictures that fit are at one location. -/
lemma nodup_pictureAdds (h0 : Fits frame0) (h1 : Fits frame1) :
    ((pictureAdds blink (rows frame0) (rows frame1)).map (·.location)).Nodup := by
  unfold pictureAdds
  rw [List.map_flatMap, List.nodup_flatMap]
  have hcell : ∀ r, ∀ w, w ∈ ((List.range (max ((rows frame0).getD r []).length
      ((rows frame1).getD r []).length)).flatMap fun c =>
        let x := ((rows frame0).getD r []).getD c space
        let y := ((rows frame1).getD r []).getD c space
        if x ≠ space ∨ y ≠ space then [pixelStruct blink r c x y] else []).map (·.location) →
      ∃ c, w = locate r c ∧ r < 25 ∧ c < 40 := by
    intro r w hw
    obtain ⟨b, hb, rfl⟩ := List.mem_map.mp hw
    obtain ⟨c, -, hb⟩ := List.mem_flatMap.mp hb
    dsimp only at hb
    split_ifs at hb with hvisible
    · rw [List.mem_singleton.mp hb]
      exact ⟨c, rfl, visible_bounds h0 h1 hvisible⟩
    · exact absurd hb (by simp)
  constructor
  · intro r _
    rw [List.map_flatMap, List.nodup_flatMap]
    constructor
    · intro c _
      dsimp only
      split_ifs
      · exact List.nodup_singleton _
      · exact List.nodup_nil
    · refine List.nodup_range.imp fun {c c'} hne => ?_
      intro w hw hw'
      dsimp only at hw hw'
      split_ifs at hw hw' with hvisible hvisible'
      · obtain ⟨hr, hc⟩ := visible_bounds h0 h1 hvisible
        obtain ⟨-, hc'⟩ := visible_bounds h0 h1 hvisible'
        have heq : w = locate r c := by simpa [pixelStruct] using hw
        have heq' : w = locate r c' := by simpa [pixelStruct] using hw'
        exact hne (locate_inj hr hc hr hc' (heq.symm.trans heq')).2
      all_goals simp at hw hw'
  · refine List.nodup_range.imp fun {r r'} hne => ?_
    intro w hw hw'
    obtain ⟨c, rfl, hr, hc⟩ := hcell r w hw
    obtain ⟨c', heq, hr', hc'⟩ := hcell r' _ hw'
    exact hne (locate_inj hr hc hr' hc' heq).1

lemma pictureAdds_location (h0 : Fits frame0) (h1 : Fits frame1) {b : BlinkStruct}
    (hb : b ∈ pictureAdds blink (rows frame0) (rows frame1)) :
    b.location ≠ 0 ∧ b.location.toNat < 80 * 25 := by
  obtain ⟨r, c, hvisible, rfl⟩ := mem_pictureAdds.mp hb
  obtain ⟨hr, hc⟩ := visible_bounds h0 h1 hvisible
  have hlocation : (pixelStruct blink r c (pixel frame0 r c) (pixel frame1 r c)).location.toNat =
      r * 80 + c + 40 := locate_toNat hr hc
  refine ⟨fun hzero => ?_, by omega⟩
  rw [hzero] at hlocation
  exact absurd hlocation (by simp)

lemma length_pictureAdds (h0 : Fits frame0) (h1 : Fits frame1) :
    (pictureAdds blink (rows frame0) (rows frame1)).length ≤ blinkSlots := by
  have hlocations : ((pictureAdds blink (rows frame0) (rows frame1)).map (·.location)).Nodup :=
    nodup_pictureAdds h0 h1
  have hnodup := hlocations.map fun _ _ heq => UInt16.toNat_inj.mp heq
  have hsubset : ((pictureAdds blink (rows frame0) (rows frame1)).map (·.location)).map
      UInt16.toNat ⊆ List.range blinkSlots := by
    intro n hn
    obtain ⟨w, hw, rfl⟩ := List.mem_map.mp hn
    obtain ⟨b, hb, rfl⟩ := List.mem_map.mp hw
    exact List.mem_range.mpr (pictureAdds_location h0 h1 hb).2
  have hlength := (hnodup.subperm hsubset).length_le
  rwa [List.length_map, List.length_map, List.length_range] at hlength

end Picture

/-- For two pictures that fit, `add_frames` and `n` ticks of the tasklet all return, and the
right half of the screen then shows the first picture during the first fifteen of every thirty
ticks and the second one during the others. Places blank in both keep what they showed. -/
theorem fish_animates (blink : BlinkStruct) (video : ℕ → UInt8) {frame0 frame1 : List UInt8}
    (h0 : Fits frame0) (h1 : Fits frame1) (n : ℕ) {fuel : ℕ} (hfuel0 : frame0.length < fuel)
    (hfuel1 : frame1.length < fuel) :
    ∃ actions answers t, addFrames blink fuel frame0 frame1 = some actions ∧
      (initial video).session blinkSlots (requests actions ++ List.replicate n .tick) =
        some (answers, t) ∧
      ∀ r c, r < 25 → c < 40 → t.video (2 * (r * 80 + c + 40)) =
        if pixel frame0 r c = space ∧ pixel frame1 r c = space then
          video (2 * (r * 80 + c + 40))
        else if n % 30 < 15 then pixel frame0 r c else pixel frame1 r c := by
  have hadds : requests (picture blink 0 (rows frame0) (rows frame1)) =
      (pictureAdds blink (rows frame0) (rows frame1)).map .add := requests_picture
  have hmem : ∀ b, b ∈ pictureAdds blink (rows frame0) (rows frame1) ↔
      ∃ r c, (pixel frame0 r c ≠ space ∨ pixel frame1 r c ≠ space) ∧
        b = pixelStruct blink r c (pixel frame0 r c) (pixel frame1 r c) := fun _ => mem_pictureAdds
  have hlocation : ∀ b ∈ pictureAdds blink (rows frame0) (rows frame1),
      b.location ≠ 0 ∧ b.location.toNat < 80 * 25 := fun _ => pictureAdds_location h0 h1
  have hnodup : ((pictureAdds blink (rows frame0) (rows frame1)).map (·.location)).Nodup :=
    nodup_pictureAdds h0 h1
  have hlength : (pictureAdds blink (rows frame0) (rows frame1)).length ≤ blinkSlots :=
    length_pictureAdds h0 h1
  generalize pictureAdds blink (rows frame0) (rows frame1) = bs at *
  have hrs : ∀ r ∈ bs.map Request.add ++ List.replicate n .tick, r.OffOrigin := by
    intro r hr
    rcases List.mem_append.mp hr with hr | hr
    · obtain ⟨b, hb, rfl⟩ := List.mem_map.mp hr
      exact (hlocation b hb).1
    · rw [List.eq_of_mem_replicate hr]
      trivial
  obtain ⟨answers, t, slots, hsession, -, ht⟩ := (represents_initial video).session le_rfl hrs
  refine ⟨_, answers, t, addFrames_eq blink hfuel0 hfuel1, hadds ▸ hsession, ?_⟩
  -- The list after the adds, and after the ticks that follow them.
  have hempty : Shown ⟨[], video⟩ := ⟨List.nodup_nil, by simp⟩
  obtain ⟨hentries, hshown, hvideo⟩ := session_adds hempty (fun b hb => (hlocation b hb).2)
    (by simpa using hlength) (by simpa using hnodup)
  rw [session_append_answers] at ht
  generalize (Blinkers.session ⟨[], video⟩ (bs.map .add)).2 = u at *
  rw [List.append_nil] at hentries
  have hof : ∀ d ∈ u.entries, ∃ b ∈ bs, d = added b := by
    intro d hd
    rw [hentries, List.mem_reverse] at hd
    obtain ⟨b, hb, rfl⟩ := List.mem_map.mp hd
    exact ⟨b, hb, rfl⟩
  have hfresh : ∀ d ∈ u.entries, d.status = 1 ∧ d.countdown = d.onLength := by
    intro d hd
    obtain ⟨b, -, rfl⟩ := hof d hd
    exact ⟨rfl, rfl⟩
  obtain ⟨hticked, hshown', hkept⟩ := session_ticks_all hshown hfresh n
  intro r c hr hc
  rw [ht.video]
  have hplace := locate_toNat hr hc
  split_ifs with hblank hphase
  · -- A blinker at this place would be that of a visible pixel.
    have hother : ∀ b ∈ bs, 2 * b.location.toNat ≠ 2 * (r * 80 + c + 40) := by
      intro b hb heq
      obtain ⟨r', c', hvisible, rfl⟩ := (hmem b).mp hb
      obtain ⟨hr', hc'⟩ := visible_bounds h0 h1 hvisible
      have hsame : locate r' c' = locate r c := UInt16.toNat_inj.mp (by
        have heq' : 2 * (locate r' c').toNat = 2 * (r * 80 + c + 40) := heq
        omega)
      obtain ⟨rfl, rfl⟩ := locate_inj hr' hc' hr hc hsame
      exact hvisible.elim (fun hne => hne hblank.1) fun hne => hne hblank.2
    rw [hkept _ fun d hd => ?_, hvideo _ hother]
    obtain ⟨b, hb, rfl⟩ := hof d hd
    exact hother b hb
  all_goals
    have hb := (hmem (pixelStruct blink r c (pixel frame0 r c) (pixel frame1 r c))).mpr
      ⟨r, c, by tauto, rfl⟩
    have hd : added (pixelStruct blink r c (pixel frame0 r c) (pixel frame1 r c)) ∈ u.entries := by
      rw [hentries, List.mem_reverse]
      exact List.mem_map.mpr ⟨_, hb, rfl⟩
    have hface := hshown'.face _ (hticked ▸ List.mem_map.mpr ⟨_, hd, rfl⟩)
    rw [phase_location, face_phase] at hface
    change _ = if n % 30 < 15 then pixel frame0 r c else pixel frame1 r c at hface
    rw [← hplace]
  · exact hface.trans (if_pos hphase)
  · exact hface.trans (if_neg hphase)

theorem fish_animates_letters : ∃ actions answers t,
    addFrames zeroStruct 5 [65, 10, 32, 67] [66] = some actions ∧
      (initial fun _ => 7).session blinkSlots (requests actions ++ List.replicate 20 .tick) =
        some (answers, t) ∧
      t.video 80 = 66 ∧ t.video 240 = 7 ∧ t.video 242 = 32 := by
  obtain ⟨actions, answers, t, hactions, hsession, hscreen⟩ := fish_animates zeroStruct (fun _ => 7)
    (show Fits [65, 10, 32, 67] by decide) (show Fits [66] by decide) 20
    (show 4 < 5 by decide) (show 1 < 5 by decide)
  refine ⟨actions, answers, t, hactions, hsession, ?_, ?_, ?_⟩
  · exact (hscreen 0 0 (by decide) (by decide)).trans (by decide)
  · exact (hscreen 1 0 (by decide) (by decide)).trans (by decide)
  · exact (hscreen 1 1 (by decide) (by decide)).trans (by decide)

end HalOs.Fish
