import HalOs.Model.Blink

/-!
# The list of blinking characters

What the blink code is for: a list of blinkers, newest first, with the screen they write on. As
long as nothing is added at location 0, the linked table represents such a list: every request
ends, answers as the list does and leaves the table representing the list after it.
-/

namespace HalOs

/-! ### The list -/

/-- The blinkers in use, newest first, and the bytes of the video page. -/
structure Blinkers where
  entries : List Blinker
  video : ℕ → UInt8

namespace Blinkers

def At (w : UInt16) (d : Blinker) : Bool := d.location = w

def poke (video : ℕ → UInt8) (location : UInt16) (c : UInt8) : ℕ → UInt8 :=
  Function.update video (2 * location.toNat) c

/-- A blinker brought in phase with another one. -/
def follow (d leader : Blinker) : Blinker :=
  { d with onLength := leader.onLength, offLength := leader.offLength,
           countdown := leader.countdown, status := leader.status }

/-- What one tick pokes for a blinker. -/
def flash (video : ℕ → UInt8) (d : Blinker) : ℕ → UInt8 :=
  match (Blink.taskletBody d).2 with
  | none => video
  | some c => poke video d.location c

def serve (a : Blinkers) : Blink.Request → (Option UInt32 × Option Blinker) × Blinkers
  | .add arg =>
    if 80 * 25 ≤ arg.location.toNat ∨ a.entries.length = blinkSlots then
      ((some Blink.ioctlFailed, none), a)
    else
      let entry := { arg.toBlinker with status := 1, countdown := arg.onLength }
      ((some 0, none), ⟨entry :: a.entries, poke a.video arg.location arg.onChar⟩)
  | .remove arg =>
    if (a.entries.find? (At arg.toUInt16)).isNone then ((some Blink.ioctlFailed, none), a)
    else ((some 0, none), { a with entries := a.entries.eraseP (At arg.toUInt16) })
  | .find location =>
    match a.entries.find? (At location) with
    | none => ((some Blink.ioctlFailed, none), a)
    | some d => ((some 0, some d), a)
  | .sync arg =>
    match a.entries.find? (At (arg >>> 16).toUInt16), a.entries.find? (At arg.toUInt16) with
    | some leader, some d =>
      -- the character shown is the off one, whatever the leader's status
      ((some 0, none), ⟨a.entries.modify (a.entries.findIdx (At arg.toUInt16)) (follow · leader),
        poke a.video d.location d.offChar⟩)
    | _, _ => ((some Blink.ioctlFailed, none), a)
  | .tick => ((none, none), ⟨a.entries.map fun d => (Blink.taskletBody d).1,
      a.entries.foldl flash a.video⟩)

def session : Blinkers → List Blink.Request → List (Option UInt32 × Option Blinker) × Blinkers
  | a, [] => ([], a)
  | a, r :: rs => ((a.serve r).1 :: (session (a.serve r).2 rs).1, (session (a.serve r).2 rs).2)

end Blinkers

namespace Blink

open Chains

/-! ### Reading the table after a store -/

section Stores

variable (s : Blink) (i : Slot)

lemma links_store (b : BlinkStruct) :
    (s.store i b).links = Function.update s.links i b.next := by
  funext j
  by_cases hj : j = i
  · subst hj
    simp [links, store]
  · simp [links, store, hj]

lemma data_store (b : BlinkStruct) :
    (s.store i b).data = Function.update s.data i b.toBlinker := by
  funext j
  by_cases hj : j = i
  · subst hj
    simp [data, store]
  · simp [data, store, hj]

@[simp] lemma links_setData (d : Blinker) : (s.setData i d).links = s.links := by
  rw [setData, links_store]
  exact Function.update_eq_self i s.links

@[simp] lemma data_setData (d : Blinker) : (s.setData i d).data = Function.update s.data i d := by
  rw [setData, data_store]

@[simp] lemma links_setNext (p : Option Slot) :
    (s.setNext i p).links = Function.update s.links i p := by
  rw [setNext, links_store]

@[simp] lemma data_setNext (p : Option Slot) : (s.setNext i p).data = s.data := by
  rw [setNext, data_store]
  exact Function.update_eq_self i s.data

@[simp] lemma listHead_setData (d : Blinker) : (s.setData i d).listHead = s.listHead := rfl

@[simp] lemma video_setData (d : Blinker) : (s.setData i d).video = s.video := rfl

@[simp] lemma links_mp1Poke (w : UInt16) (c : UInt8) : (s.mp1Poke w c).links = s.links := rfl

@[simp] lemma data_mp1Poke (w : UInt16) (c : UInt8) : (s.mp1Poke w c).data = s.data := rfl

@[simp] lemma listHead_mp1Poke (w : UInt16) (c : UInt8) :
    (s.mp1Poke w c).listHead = s.listHead := rfl

@[simp] lemma video_mp1Poke (w : UInt16) (c : UInt8) :
    (s.mp1Poke w c).video = Blinkers.poke s.video w c := rfl

end Stores

/-! ### Representation -/

/-- The table represents the list on these slots: they are the chain from the head, hold the
entries and are the only slots in use. -/
structure Represents (slots : List Slot) (s : Blink) (a : Blinkers) : Prop where
  chain : Chain s.links s.listHead slots
  entries : slots.map s.data = a.entries
  used : ∀ i, i ∈ slots ↔ (s.data i).location ≠ 0
  video : s.video = a.video

section Represented

variable {s : Blink} {a : Blinkers} {slots : List Slot} {i : Slot} {fuel : ℕ}

lemma length_le_blinkSlots (h : slots.Nodup) : slots.length ≤ blinkSlots :=
  h.length_le_card.trans_eq (Fintype.card_fin blinkSlots)

lemma Represents.length_eq (h : Represents slots s a) : a.entries.length = slots.length := by
  rw [← h.entries, List.length_map]

lemma Represents.length_le (h : Represents slots s a) : slots.length ≤ blinkSlots :=
  length_le_blinkSlots h.chain.nodup

/-- No slot is free exactly when the list is as long as the table. -/
lemma Represents.mp1Malloc_eq_none (h : Represents slots s a) :
    s.mp1Malloc = none ↔ slots.length = blinkSlots := by
  have hall : s.mp1Malloc = none ↔ ∀ i, i ∈ slots := by
    rw [mp1Malloc, List.find?_eq_none]
    simp only [List.mem_finRange, decide_eq_true_eq, forall_const, h.used, ne_eq]
  rw [hall]
  constructor
  · intro hmem
    have huniv : slots.toFinset = Finset.univ := Finset.eq_univ_of_forall fun i => by
      rw [List.mem_toFinset]
      exact hmem i
    rw [← List.toFinset_card_of_nodup h.chain.nodup, huniv, Finset.card_univ, Fintype.card_fin]
  · intro hlength i
    have huniv : slots.toFinset = Finset.univ := by
      apply Finset.eq_univ_of_card
      rw [List.toFinset_card_of_nodup h.chain.nodup, hlength, Fintype.card_fin]
    rw [← List.mem_toFinset, huniv]
    exact Finset.mem_univ i

/-- A slot handed out is free. -/
lemma location_of_mp1Malloc (h : s.mp1Malloc = some i) : (s.data i).location = 0 := by
  simpa using List.find?_some h

lemma Represents.fresh (h : Represents slots s a) (hi : s.mp1Malloc = some i) : i ∉ slots :=
  fun hmem => (h.used i).mp hmem (location_of_mp1Malloc hi)

/-! ### Finding -/

/-- The helper returns the first slot of the chain at the location. -/
lemma mp1FindHelper_eq (h : Chain s.links s.listHead slots) (hfuel : blinkSlots ≤ fuel)
    (arg : UInt32) : s.mp1FindHelper fuel arg =
      some (slots.find? fun i => Blinkers.At arg.toUInt16 (s.data i)) :=
  h.search_eq ((length_le_blinkSlots h.nodup).trans hfuel)

lemma Represents.find?_entries (h : Represents slots s a) (w : UInt16) :
    a.entries.find? (Blinkers.At w) =
      (slots.find? fun i => Blinkers.At w (s.data i)).map s.data := by
  rw [← h.entries, List.find?_map]
  rfl

/-! ### Adding -/

/-- An add at a location other than 0 puts its blinker in front, or fails as the list does. -/
lemma Represents.add (h : Represents slots s a) {arg : BlinkStruct} (harg : arg.location ≠ 0) :
    (some (s.mp1IoctlAdd arg).1, none) = (a.serve (.add arg)).1 ∧
      ∃ slots', Represents slots' (s.mp1IoctlAdd arg).2 (a.serve (.add arg)).2 := by
  unfold mp1IoctlAdd Blinkers.serve
  dsimp only
  by_cases hloc : 80 * 25 ≤ arg.location.toNat
  · rw [if_pos hloc, if_pos (Or.inl hloc)]
    exact ⟨rfl, slots, h⟩
  · rw [if_neg hloc]
    cases hmalloc : s.mp1Malloc with
    | none =>
      have hfull := h.mp1Malloc_eq_none.mp hmalloc
      rw [if_pos (Or.inr (h.length_eq.trans hfull))]
      exact ⟨rfl, slots, h⟩
    | some i =>
      have hroom : a.entries.length ≠ blinkSlots := fun hfull => by
        rw [h.mp1Malloc_eq_none.mpr (h.length_eq.symm.trans hfull)] at hmalloc
        exact absurd hmalloc (by simp)
      have hfresh := h.fresh hmalloc
      rw [if_neg (not_or.mpr ⟨hloc, hroom⟩)]
      refine ⟨rfl, i :: slots, ?_⟩
      constructor
      · simp only [links_mp1Poke, listHead_mp1Poke]
        change Chain (s.store i _).links (some i) (i :: slots)
        rw [links_store]
        exact h.chain.push hfresh
      · simp only [data_mp1Poke]
        change (i :: slots).map (s.store i _).data = _
        rw [data_store, List.map_cons, Function.update_self, ← h.entries]
        refine congrArg _ (List.map_congr_left fun j hj => ?_)
        have hne : j ≠ i := fun heq => hfresh (heq ▸ hj)
        exact Function.update_of_ne hne ..
      · intro j
        simp only [data_mp1Poke]
        change j ∈ i :: slots ↔ ((s.store i _).data j).location ≠ 0
        rw [data_store]
        by_cases hj : j = i
        · subst hj
          rw [Function.update_self]
          simpa using harg
        · rw [Function.update_of_ne hj, ← h.used, List.mem_cons, or_iff_right hj]
      · rw [video_mp1Poke, ← h.video]
        rfl

/-! ### Removing -/

/-- The word that leads to what follows the nodes of `front`. -/
def lastCell (edx : Option Slot) (front : List Slot) : Option Slot := front.foldl (fun _ i => some i) edx

/-- The loop stops at the word that leads to the slot. -/
lemma removeFindPrev_eq {front back : List Slot} {edx : Option Slot}
    (h : Chain s.links (s.cell edx) (front ++ i :: back)) (hfuel : front.length < fuel) :
    s.removeFindPrev i fuel edx = some (lastCell edx front) := by
  induction front generalizing edx fuel with
  | nil =>
    obtain ⟨fuel, rfl⟩ := Nat.exists_eq_add_of_lt hfuel
    rw [List.length_nil, Nat.zero_add, removeFindPrev, if_pos h.1]
    rfl
  | cons c front ih =>
    obtain ⟨fuel, rfl⟩ := Nat.exists_eq_add_of_lt (Nat.zero_lt_of_lt hfuel)
    have hc : c ≠ i := fun heq => (List.nodup_cons.mp h.nodup).1 (by simp [heq])
    rw [Nat.zero_add, removeFindPrev, h.1, if_neg (fun heq => hc (Option.some.inj heq))]
    rw [List.length_cons] at hfuel
    exact ih h.2 (by omega)

/-- The slot is linked past. -/
lemma chain_setCell {front back : List Slot} (h : Chain s.links s.listHead (front ++ i :: back)) :
    Chain (s.setCell (s.links i) (lastCell none front)).links
      (s.setCell (s.links i) (lastCell none front)).listHead (front ++ back) := by
  rcases List.eq_nil_or_concat front with rfl | ⟨front, c, rfl⟩
  · exact h.2
  · rw [List.concat_eq_append] at h ⊢
    have hcell : lastCell none (front ++ [c]) = some c := by
      simp [lastCell]
    rw [hcell]
    simp only [setCell, links_setNext]
    simp only [List.append_assoc, List.singleton_append] at h ⊢
    exact h.bypass

lemma data_setCell (p edx : Option Slot) : (s.setCell p edx).data = s.data := by
  cases edx with
  | none => rfl
  | some i => exact data_setNext s i p

lemma video_setCell (p edx : Option Slot) : (s.setCell p edx).video = s.video := by
  cases edx <;> rfl

/-- A remove takes out the newest blinker at the location. -/
lemma Represents.remove (h : Represents slots s a) (hfuel : blinkSlots ≤ fuel) (arg : UInt32) :
    ∃ eax t slots', s.mp1IoctlRemove fuel arg = some (eax, t) ∧
      (some eax, none) = (a.serve (.remove arg)).1 ∧
      Represents slots' t (a.serve (.remove arg)).2 := by
  unfold mp1IoctlRemove Blinkers.serve
  rw [mp1FindHelper_eq h.chain hfuel]
  dsimp only
  rw [h.find?_entries]
  cases hfind : slots.find? fun i => Blinkers.At arg.toUInt16 (s.data i) with
  | none => exact ⟨ioctlFailed, s, slots, rfl, rfl, h⟩
  | some i =>
    obtain ⟨hat, front, back, rfl, hfront⟩ := List.find?_eq_some_iff_append.mp hfind
    have hlength := h.length_le
    have hnodup := h.chain.nodup
    have hi : i ∉ front ++ back := (List.nodup_middle.mp hnodup).notMem
    simp only [List.length_append, List.length_cons] at hlength
    have hprev : s.removeFindPrev i fuel none = some (lastCell none front) :=
      removeFindPrev_eq h.chain (by omega)
    rw [Option.bind_some]
    dsimp only
    rw [hprev]
    refine ⟨0, _, front ++ back, rfl, rfl, ?_⟩
    constructor
    · change Chain (Blink.store _ i zeroStruct).links _ _
      rw [links_store]
      exact (chain_setCell h.chain).update_of_notMem hi none
    · change (front ++ back).map (Blink.store _ i zeroStruct).data = a.entries.eraseP _
      have herase : a.entries.eraseP (Blinkers.At arg.toUInt16) = (front ++ back).map s.data := by
        rw [← h.entries, List.map_append, List.map_cons, List.eraseP_append_right _ (by simpa using hfront),
          List.eraseP_cons_of_pos hat, List.map_append]
      rw [herase, data_store, data_setCell]
      refine List.map_congr_left fun j hj => Function.update_of_ne (fun heq => ?_) ..
      exact hi (heq ▸ hj)
    · intro j
      change j ∈ front ++ back ↔ ((Blink.store _ i zeroStruct).data j).location ≠ 0
      rw [data_store, data_setCell]
      by_cases hj : j = i
      · subst hj
        rw [Function.update_self]
        exact ⟨fun hmem => absurd hmem hi, fun hne => absurd rfl hne⟩
      · rw [Function.update_of_ne hj, ← h.used]
        simp [hj]
    · exact (video_setCell _ _).trans h.video

/-! ### Synchronising -/

lemma toUInt16_mask (arg : UInt32) : (arg &&& 0xFFFF).toUInt16 = arg.toUInt16 := by
  apply UInt16.toBitVec_inj.mp
  ext k hk
  simp only [UInt32.toBitVec_toUInt16, UInt32.toBitVec_and, BitVec.getElem_setWidth,
    BitVec.getLsbD_and]
  have hmask : (0xFFFF : UInt32).toBitVec.getLsbD k = true := by
    interval_cases k <;> rfl
  rw [hmask, Bool.and_true]

/-- The result of the test has no sign, so nothing is ever moved. -/
lemma cmovlAfterTest_eq (status : UInt16) (moved kept : UInt8) :
    cmovlAfterTest status moved kept = kept := by
  have hsmall : (status.toUInt8 &&& 1).toNat ≤ 1 := by
    rw [UInt8.toNat_and]
    exact Nat.and_le_right
  have hsign : ¬(0x80 : UInt8) ≤ status.toUInt8 &&& 1 := fun hle =>
    absurd (UInt8.le_iff_toNat_le.mp hle) (by
      have : (0x80 : UInt8).toNat = 128 := rfl
      omega)
  simp [cmovlAfterTest, hsign]

lemma modify_middle {α : Type*} (front back : List α) (d : α) (f : α → α) :
    (front ++ d :: back).modify front.length f = front ++ f d :: back := by
  induction front with
  | nil => rfl
  | cons c front ih => simp [ih]

/-- New data in one slot of the chain that keep its location. -/
lemma Represents.modify {front back : List Slot} (h : Represents (front ++ i :: back) s a)
    {d : Blinker} (hd : d.location = (s.data i).location) :
    Represents (front ++ i :: back) (s.setData i d)
      { a with entries := front.map s.data ++ d :: back.map s.data } := by
  have hnodup := List.nodup_middle.mp h.chain.nodup
  constructor
  · rw [links_setData]
    exact h.chain
  · simp only [data_setData, List.map_append, List.map_cons, Function.update_self]
    have hkept : ∀ js : List Slot, (∀ j ∈ js, j ∈ front ++ back) →
        js.map (Function.update s.data i d) = js.map s.data := by
      intro js hjs
      refine List.map_congr_left fun j hj => ?_
      have hne : j ≠ i := fun heq => hnodup.notMem (heq ▸ hjs j hj)
      exact Function.update_of_ne hne ..
    rw [hkept front fun j hj => List.mem_append_left back hj,
      hkept back fun j hj => List.mem_append_right front hj]
  · intro j
    rw [h.used, data_setData]
    by_cases hj : j = i
    · rw [hj, Function.update_self, hd]
    · rw [Function.update_of_ne hj]
  · exact h.video

lemma Represents.poke (h : Represents slots s a) (w : UInt16) (c : UInt8) :
    Represents slots (s.mp1Poke w c) { a with video := Blinkers.poke a.video w c } := by
  refine ⟨h.chain, h.entries, h.used, ?_⟩
  rw [video_mp1Poke, h.video]

/-- A sync copies the phase of one blinker to another and shows the off character. -/
lemma Represents.sync (h : Represents slots s a) (hfuel : blinkSlots ≤ fuel) (arg : UInt32) :
    ∃ eax t slots', s.mp1IoctlSync fuel arg = some (eax, t) ∧
      (some eax, none) = (a.serve (.sync arg)).1 ∧
      Represents slots' t (a.serve (.sync arg)).2 := by
  unfold mp1IoctlSync Blinkers.serve
  rw [mp1FindHelper_eq h.chain hfuel, mp1FindHelper_eq h.chain hfuel, toUInt16_mask]
  dsimp only
  rw [h.find?_entries, h.find?_entries]
  cases slots.find? fun i => Blinkers.At (arg >>> 16).toUInt16 (s.data i) with
  | none => exact ⟨ioctlFailed, s, slots, rfl, rfl, h⟩
  | some esi =>
    cases hfind : slots.find? fun i => Blinkers.At arg.toUInt16 (s.data i) with
    | none => exact ⟨ioctlFailed, s, slots, rfl, rfl, h⟩
    | some edi =>
      obtain ⟨hat, front, back, rfl, hfront⟩ := List.find?_eq_some_iff_append.mp hfind
      refine ⟨0, _, front ++ edi :: back, rfl, rfl, ?_⟩
      have hentries : a.entries.modify (a.entries.findIdx (Blinkers.At arg.toUInt16))
          (Blinkers.follow · (s.data esi)) = front.map s.data ++
            Blinkers.follow (s.data edi) (s.data esi) :: back.map s.data := by
        have hindex : a.entries.findIdx (Blinkers.At arg.toUInt16) = (front.map s.data).length := by
          rw [← h.entries, List.map_append, List.findIdx_append]
          simp only [List.map_cons, List.findIdx_cons, hat]
          have hmiss : (front.map s.data).findIdx (Blinkers.At arg.toUInt16) =
              (front.map s.data).length := List.findIdx_eq_length.mpr (by simpa using hfront)
          simp [hmiss]
        rw [hindex, ← h.entries, List.map_append, List.map_cons, modify_middle]
      rw [Option.map_some, Option.map_some]
      dsimp only
      rw [hentries, cmovlAfterTest_eq]
      have hsynced : (Blinkers.follow (s.data edi) (s.data esi)).location = (s.data edi).location := rfl
      exact (h.modify hsynced).poke _ _

/-! ### The tick -/

lemma taskletBody_location (d : Blinker) : (taskletBody d).1.location = d.location := by
  unfold taskletBody
  dsimp only
  split_ifs <;> rfl

lemma taskletVisit_eq (s : Blink) (i : Slot) :
    (s.taskletVisit i).links = s.links ∧
      (s.taskletVisit i).listHead = s.listHead ∧
      (s.taskletVisit i).data = Function.update s.data i (taskletBody (s.data i)).1 ∧
      (s.taskletVisit i).video = Blinkers.flash s.video (s.data i) := by
  have hlocation := taskletBody_location (s.data i)
  unfold taskletVisit Blinkers.flash
  generalize taskletBody (s.data i) = visited at hlocation ⊢
  obtain ⟨d, shown⟩ := visited
  cases shown with
  | none => exact ⟨links_setData s i d, rfl, data_setData s i d, rfl⟩
  | some c =>
    refine ⟨links_setData s i d, rfl, data_setData s i d, ?_⟩
    dsimp only at hlocation ⊢
    rw [video_mp1Poke, hlocation]
    rfl

/-- The visits to slots that are all different act on each slot's own data. -/
lemma foldl_taskletVisit (h : slots.Nodup) (s : Blink) :
    (slots.foldl taskletVisit s).links = s.links ∧
      (slots.foldl taskletVisit s).listHead = s.listHead ∧
      (∀ i, (slots.foldl taskletVisit s).data i =
        if i ∈ slots then (taskletBody (s.data i)).1 else s.data i) ∧
      (slots.foldl taskletVisit s).video = (slots.map s.data).foldl Blinkers.flash s.video := by
  induction slots generalizing s with
  | nil => simp
  | cons j slots ih =>
    obtain ⟨hj, hnodup⟩ := List.nodup_cons.mp h
    obtain ⟨hlinks, hhead, hdata, hvideo⟩ := taskletVisit_eq s j
    obtain ⟨ihlinks, ihhead, ihdata, ihvideo⟩ := ih hnodup (s.taskletVisit j)
    rw [List.foldl_cons]
    refine ⟨ihlinks.trans hlinks, ihhead.trans hhead, fun i => ?_, ?_⟩
    · rw [ihdata, hdata]
      by_cases hi : i = j
      · subst hi
        rw [if_neg hj, if_pos List.mem_cons_self, Function.update_self]
      · simp only [Function.update_of_ne hi, List.mem_cons, hi, false_or]
    · rw [ihvideo, hvideo, hdata, List.map_cons, List.foldl_cons]
      congr 1
      refine List.map_congr_left fun i hi => ?_
      have hne : i ≠ j := fun heq => hj (heq ▸ hi)
      exact Function.update_of_ne hne ..

/-- A tick counts every blinker down once. -/
lemma Represents.tick (h : Represents slots s a) (hfuel : blinkSlots ≤ fuel) :
    ∃ t, s.mp1RtcTasklet fuel = some t ∧ Represents slots t (a.serve .tick).2 := by
  have hwalk := h.chain.walk_eq (fun s i => (taskletVisit_eq s i).1) (h.length_le.trans hfuel)
  refine ⟨_, hwalk, ?_⟩
  obtain ⟨hlinks, hhead, hdata, hvideo⟩ := foldl_taskletVisit h.chain.nodup s
  constructor
  · rw [hlinks, hhead]
    exact h.chain
  · rw [Blinkers.serve, ← h.entries, List.map_map]
    refine List.map_congr_left fun i hi => ?_
    rw [hdata, if_pos hi, Function.comp_apply]
  · intro i
    rw [hdata]
    split_ifs with hi
    · rw [taskletBody_location, h.used]
    · exact h.used i
  · rw [hvideo, h.entries, h.video]
    rfl

end Represented

/-! ### Sessions -/

/-- An answer without the link that is handed back with a found structure. -/
def Answer.blinker (answer : Answer) : Option UInt32 × Option Blinker :=
  (answer.1, answer.2.map BlinkStruct.toBlinker)

/-- The request adds nothing at location 0. -/
def Request.OffOrigin : Request → Prop
  | .add arg => arg.location ≠ 0
  | _ => True

/-- Every request that adds nothing at location 0 ends, and does what the list does. -/
theorem Represents.serve {s : Blink} {a : Blinkers} {slots : List Slot} {fuel : ℕ}
    (h : Represents slots s a) (hfuel : blinkSlots ≤ fuel) {r : Request} (hr : r.OffOrigin) :
    ∃ answer t slots', s.serve fuel r = some (answer, t) ∧ answer.blinker = (a.serve r).1 ∧
      Represents slots' t (a.serve r).2 := by
  cases r with
  | add arg =>
    obtain ⟨hanswer, slots', hslots'⟩ := h.add hr
    exact ⟨_, _, slots', rfl, hanswer, hslots'⟩
  | remove arg =>
    obtain ⟨eax, t, slots', hremove, hanswer, hslots'⟩ := h.remove hfuel arg
    refine ⟨(some eax, none), t, slots', ?_, hanswer, hslots'⟩
    rw [Blink.serve, hremove, Option.map_some]
  | find location =>
    have hfind := mp1FindHelper_eq h.chain hfuel location.toUInt32
    rw [UInt16.toUInt16_toUInt32] at hfind
    simp only [Blink.serve, mp1IoctlFind, hfind, Blinkers.serve, h.find?_entries, Option.map_some]
    cases slots.find? fun i => Blinkers.At location (s.data i) with
    | none => exact ⟨_, s, slots, rfl, rfl, h⟩
    | some i => exact ⟨_, s, slots, rfl, rfl, h⟩
  | sync arg =>
    obtain ⟨eax, t, slots', hsync, hanswer, hslots'⟩ := h.sync hfuel arg
    refine ⟨(some eax, none), t, slots', ?_, hanswer, hslots'⟩
    rw [Blink.serve, hsync, Option.map_some]
  | tick =>
    obtain ⟨t, htick, hslots'⟩ := h.tick hfuel
    refine ⟨(none, none), t, slots, ?_, rfl, hslots'⟩
    rw [Blink.serve, htick, Option.map_some]

lemma Represents.session {s : Blink} {a : Blinkers} {slots : List Slot} {fuel : ℕ}
    (h : Represents slots s a) (hfuel : blinkSlots ≤ fuel) {rs : List Request}
    (hrs : ∀ r ∈ rs, r.OffOrigin) :
    ∃ answers t slots', s.session fuel rs = some (answers, t) ∧
      answers.map Answer.blinker = (a.session rs).1 ∧ Represents slots' t (a.session rs).2 := by
  induction rs generalizing s a slots with
  | nil => exact ⟨[], s, slots, rfl, rfl, h⟩
  | cons r rs ih =>
    obtain ⟨answer, t, slots', hserve, hanswer, hslots'⟩ := h.serve hfuel (hrs r (by simp))
    obtain ⟨answers, u, slots'', hsession, hanswers, hslots''⟩ :=
      ih hslots' fun r' hr' => hrs r' (List.mem_cons_of_mem r hr')
    refine ⟨answer :: answers, u, slots'', ?_, ?_, hslots''⟩
    · rw [Blink.session, hserve, Option.bind_some]
      dsimp only
      rw [hsession, Option.map_some]
    · rw [List.map_cons, hanswer, hanswers]
      rfl

lemma represents_initial (video : ℕ → UInt8) : Represents [] (initial video) ⟨[], video⟩ :=
  ⟨rfl, rfl, fun _ => by simp [initial, data, zeroStruct], rfl⟩

/-- Every session from the cleared table that adds nothing at location 0 ends, answers as the
list of blinkers does, and leaves the screen the list leaves. -/
theorem session_refines (video : ℕ → UInt8) {rs : List Request} (hrs : ∀ r ∈ rs, r.OffOrigin)
    {fuel : ℕ} (hfuel : blinkSlots ≤ fuel) :
    ∃ answers t slots, (initial video).session fuel rs = some (answers, t) ∧
      answers.map Answer.blinker = (Blinkers.session ⟨[], video⟩ rs).1 ∧
      Represents slots t (Blinkers.session ⟨[], video⟩ rs).2 :=
  (represents_initial video).session hfuel hrs

theorem session_refines_word :
    ∃ answers t, (initial fun _ => 0).session blinkSlots
        [.add ⟨⟨40, 73, 77, 7, 6, 0, 0⟩, none⟩, .tick, .find 40, .remove 41] = some (answers, t) ∧
      answers.map Answer.blinker =
        [(some 0, none), (none, none), (some 0, some ⟨40, 73, 77, 7, 6, 6, 1⟩),
          (some ioctlFailed, none)] := by
  have hrs : ∀ r ∈ [Request.add ⟨⟨40, 73, 77, 7, 6, 0, 0⟩, none⟩, .tick, .find 40, .remove 41],
      r.OffOrigin := by
    simp [Request.OffOrigin]
  obtain ⟨answers, t, slots, hsession, hanswers, -⟩ := session_refines (fun _ => 0) hrs le_rfl
  exact ⟨answers, t, hsession, hanswers.trans rfl⟩

end Blink

end HalOs
