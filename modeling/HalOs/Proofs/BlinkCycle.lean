import HalOs.General.Runs
import HalOs.Proofs.BlinkList

/-!
# Blinkers at location 0

A slot whose location is 0 counts as free even while it is linked. The list stays finite, and
with it the tasklet ends, exactly as long as no add is handed a linked slot; an add at location
0 followed by another one closes the list into a cycle of one slot.
-/

namespace HalOs.Blink

open Chains

/-- The list comes to an end. -/
def Ends (s : Blink) : Prop := ∃ slots, Chain s.links s.listHead slots

def step (fuel : ℕ) (s : Blink) (r : Request) : Option Blink := (s.serve fuel r).map Prod.snd

/-- An accepted add is handed a slot that is not linked. -/
def Request.Fresh (s : Blink) : Request → Prop
  | .add arg => arg.location.toNat < 80 * 25 → ∀ i, s.mp1Malloc = some i →
      ∀ slots, Chain s.links s.listHead slots → i ∉ slots
  | _ => True

/-- The requests that link and unlink nothing. -/
def Request.Quiet : Request → Prop
  | .add _ => False
  | .remove _ => False
  | _ => True

/-- The request goes along the list past a blinker at `location`. -/
def Request.GoesPast (location : UInt16) : Request → Prop
  | .add _ => False
  | .remove arg => arg.toUInt16 ≠ location
  | .find wanted => wanted ≠ location
  | .sync arg => (arg >>> 16).toUInt16 ≠ location ∨ (arg &&& 0xFFFF).toUInt16 ≠ location
  | .tick => True

section Requests

variable {s t : Blink} {slots : List Slot} {i : Slot} {fuel : ℕ} {r : Request} {answer : Answer}

/-- The tasklet returns exactly when the list ends. -/
theorem tasklet_returns_iff : (∃ fuel t, s.mp1RtcTasklet fuel = some t) ↔ s.Ends := by
  have hlink : ∀ (s : Blink) (i : Slot), (s.taskletVisit i).links = s.links :=
    fun s i => (taskletVisit_eq s i).1
  constructor
  · rintro ⟨fuel, t, h⟩
    exact chain_of_walk hlink h
  · rintro ⟨slots, h⟩
    exact ⟨slots.length, _, h.walk_eq hlink le_rfl⟩

/-- An accepted add links the slot it is handed in front of the list. -/
lemma mp1IoctlAdd_accepted {arg : BlinkStruct} (hloc : arg.location.toNat < 80 * 25)
    (hi : s.mp1Malloc = some i) :
    (s.mp1IoctlAdd arg).2.links = Function.update s.links i s.listHead ∧
      (s.mp1IoctlAdd arg).2.listHead = some i ∧
      (s.mp1IoctlAdd arg).2.data = Function.update s.data i
        { arg.toBlinker with status := 1, countdown := arg.onLength } := by
  unfold mp1IoctlAdd
  rw [if_neg (by omega), hi]
  exact ⟨links_store s i _, rfl, data_store s i _⟩

lemma mp1IoctlAdd_rejected {arg : BlinkStruct}
    (h : 80 * 25 ≤ arg.location.toNat ∨ s.mp1Malloc = none) : (s.mp1IoctlAdd arg).2 = s := by
  unfold mp1IoctlAdd
  dsimp only
  by_cases hloc : 80 * 25 ≤ arg.location.toNat
  · rw [if_pos hloc]
  · rw [if_neg hloc, h.resolve_left hloc]

/-- After an add the list ends exactly if the slot handed out was not linked. -/
lemma ends_add_iff (hs : s.Ends) (arg : BlinkStruct) :
    (s.mp1IoctlAdd arg).2.Ends ↔ (Request.add arg).Fresh s := by
  obtain ⟨slots, hslots⟩ := hs
  by_cases hrejected : 80 * 25 ≤ arg.location.toNat ∨ s.mp1Malloc = none
  · rw [mp1IoctlAdd_rejected hrejected]
    refine iff_of_true ⟨slots, hslots⟩ fun hloc i hi => ?_
    rcases hrejected with hle | hnone
    · omega
    · exact absurd (hnone.symm.trans hi) (by simp)
  · obtain ⟨hloc, hsome⟩ := not_or.mp hrejected
    obtain ⟨i, hi⟩ := Option.ne_none_iff_exists'.mp hsome
    obtain ⟨hlinks, hhead, -⟩ := mp1IoctlAdd_accepted (not_le.mp hloc) hi
    constructor
    · rintro ⟨slots', hslots'⟩ - j hj slots'' hslots''
      obtain rfl := Option.some.inj (hi.symm.trans hj)
      intro hmem
      obtain ⟨S, hiS, -, hendless⟩ := hslots''.endless_push hmem
      rw [hlinks, hhead] at hslots'
      exact hendless.not_chain hiS hslots'
    · intro hfresh
      refine ⟨i :: slots, ?_⟩
      rw [hlinks, hhead]
      exact hslots.push (hfresh (not_le.mp hloc) i hi slots hslots)

lemma ends_remove (hs : s.Ends) (hfuel : blinkSlots ≤ fuel) {arg eax : UInt32}
    (h : s.mp1IoctlRemove fuel arg = some (eax, t)) : t.Ends := by
  obtain ⟨slots, hslots⟩ := hs
  unfold mp1IoctlRemove at h
  rw [mp1FindHelper_eq hslots hfuel, Option.bind_some] at h
  cases hfind : slots.find? fun i => Blinkers.At arg.toUInt16 (s.data i) with
  | none =>
    rw [hfind] at h
    obtain ⟨-, rfl⟩ := Prod.mk.inj (Option.some.inj h)
    exact ⟨slots, hslots⟩
  | some i =>
    obtain ⟨-, front, back, rfl, -⟩ := List.find?_eq_some_iff_append.mp hfind
    have hlength := length_le_blinkSlots hslots.nodup
    simp only [List.length_append, List.length_cons] at hlength
    have hprev : s.removeFindPrev i fuel none = some (lastCell none front) :=
      removeFindPrev_eq hslots (by omega)
    rw [hfind] at h
    dsimp only at h
    rw [hprev] at h
    obtain ⟨-, rfl⟩ := Prod.mk.inj (Option.some.inj h)
    refine ⟨front ++ back, ?_⟩
    change Chain (Blink.store _ i zeroStruct).links _ _
    rw [links_store]
    exact (chain_setCell hslots).update_of_notMem (List.nodup_middle.mp hslots.nodup).notMem none

/-- A quiet request leaves the links, the head and the locations. -/
lemma serve_quiet (hr : r.Quiet) (h : s.serve fuel r = some (answer, t)) :
    t.links = s.links ∧ t.listHead = s.listHead ∧
      ∀ i, (t.data i).location = (s.data i).location := by
  cases r with
  | add arg => exact hr.elim
  | remove arg => exact hr.elim
  | find location =>
    obtain ⟨_, -, hsome⟩ := Option.map_eq_some_iff.mp h
    obtain ⟨-, rfl⟩ := Prod.mk.inj hsome
    exact ⟨rfl, rfl, fun _ => rfl⟩
  | sync arg =>
    obtain ⟨⟨eax, u⟩, hsync, hsome⟩ := Option.map_eq_some_iff.mp h
    obtain ⟨-, rfl⟩ := Prod.mk.inj hsome
    obtain ⟨esi, -, hsync⟩ := Option.bind_eq_some_iff.mp hsync
    cases esi with
    | none =>
      obtain ⟨-, rfl⟩ := Prod.mk.inj (Option.some.inj hsync)
      exact ⟨rfl, rfl, fun _ => rfl⟩
    | some esi =>
      obtain ⟨edi, -, hsync⟩ := Option.map_eq_some_iff.mp hsync
      cases edi with
      | none =>
        obtain ⟨-, rfl⟩ := Prod.mk.inj hsync
        exact ⟨rfl, rfl, fun _ => rfl⟩
      | some edi =>
        obtain ⟨-, rfl⟩ := Prod.mk.inj hsync
        refine ⟨links_setData s edi _, rfl, fun i => ?_⟩
        simp only [data_mp1Poke, data_setData]
        by_cases hi : i = edi
        · rw [hi, Function.update_self]
        · rw [Function.update_of_ne hi]
  | tick =>
    obtain ⟨u, htick, hsome⟩ := Option.map_eq_some_iff.mp h
    obtain ⟨-, rfl⟩ := Prod.mk.inj hsome
    refine walk_invariant (I := fun u => u.links = s.links ∧ u.listHead = s.listHead ∧
      ∀ i, (u.data i).location = (s.data i).location) ?_ htick ⟨rfl, rfl, fun _ => rfl⟩
    rintro u j ⟨hlinks, hhead, hlocation⟩
    obtain ⟨hlinks', hhead', hdata', -⟩ := taskletVisit_eq u j
    refine ⟨hlinks'.trans hlinks, hhead'.trans hhead, fun i => ?_⟩
    rw [hdata', ← hlocation]
    by_cases hi : i = j
    · rw [hi, Function.update_self, taskletBody_location]
    · rw [Function.update_of_ne hi]

lemma ends_of_links (hlinks : t.links = s.links) (hhead : t.listHead = s.listHead)
    (h : s.Ends) : t.Ends := by
  unfold Ends
  rw [hlinks, hhead]
  exact h

/-- One request keeps the list finite exactly if an add it accepts is handed a slot that is not
linked. -/
lemma ends_step_iff (hfuel : blinkSlots ≤ fuel) (hs : s.Ends) (h : step fuel s r = some t) :
    t.Ends ↔ r.Fresh s := by
  obtain ⟨⟨answer, u⟩, hserve, rfl⟩ := Option.map_eq_some_iff.mp h
  cases r with
  | add arg =>
    obtain ⟨-, rfl⟩ := Prod.mk.inj (Option.some.inj hserve)
    exact ends_add_iff hs arg
  | remove arg =>
    obtain ⟨⟨eax, u⟩, hremove, hsome⟩ := Option.map_eq_some_iff.mp hserve
    obtain ⟨-, rfl⟩ := Prod.mk.inj hsome
    exact iff_of_true (ends_remove hs hfuel hremove) trivial
  | find _ | sync _ | tick =>
    obtain ⟨hlinks, hhead, -⟩ := serve_quiet (by exact trivial) hserve
    exact iff_of_true (ends_of_links hlinks hhead hs) trivial

end Requests

/-- All along a run of requests the list is finite, so that the tasklet returns, exactly when
every accepted add of the run is handed a slot that is not linked. -/
theorem list_ends_iff {s t : Blink} {rs : List Request} {fuel : ℕ} (hfuel : blinkSlots ≤ fuel)
    (h : Runs.Path (step fuel) (fun _ _ => True) s rs t) (hs : s.Ends) :
    Runs.Always (step fuel) Ends s rs t ↔
      Runs.Path (step fuel) (fun s r => r.Fresh s) s rs t :=
  Runs.always_iff h (fun _ _ _ hs hstep => ends_step_iff hfuel hs hstep) hs

/-- A blinker at `location`. -/
def blinkerAt (location : UInt16) : BlinkStruct := ⟨⟨location, 73, 77, 7, 6, 0, 0⟩, none⟩

def firstSlot : Slot := ⟨0, by decide⟩

/-- Of two adds with a tick in between, one at location 0 may come last but not first. -/
theorem list_ends_iff_add :
    (∃ t, Runs.Always (step blinkSlots) Ends (initial fun _ => 0)
      [.add (blinkerAt 40), .tick, .add (blinkerAt 0)] t) ∧
    ∃ t, Runs.Path (step blinkSlots) (fun _ _ => True) (initial fun _ => 0)
        [.add (blinkerAt 0), .tick, .add (blinkerAt 40)] t ∧
      ¬Runs.Path (step blinkSlots) (fun s r => r.Fresh s) (initial fun _ => 0)
        [.add (blinkerAt 0), .tick, .add (blinkerAt 40)] t := by
  have hempty : (initial fun _ => 0).Ends := ⟨[], rfl⟩
  constructor
  · have hrun : ((step blinkSlots (initial fun _ => 0) (.add (blinkerAt 40))).bind fun s =>
        (step blinkSlots s .tick).bind fun u => (step blinkSlots u (.add (blinkerAt 0))).map
          fun _ => (u.listHead, u.links firstSlot, decide (u.mp1Malloc = some firstSlot))) =
          some (some firstSlot, none, false) := by
      decide +kernel
    obtain ⟨s, hs, hrun⟩ := Option.bind_eq_some_iff.mp hrun
    obtain ⟨u, hu, hrun⟩ := Option.bind_eq_some_iff.mp hrun
    obtain ⟨t, ht, hrun⟩ := Option.map_eq_some_iff.mp hrun
    simp only [Prod.mk.injEq, decide_eq_false_iff_not] at hrun
    obtain ⟨hhead, hlink, hmalloc⟩ := hrun
    have hfirst : (Request.add (blinkerAt 40)).Fresh (initial fun _ => 0) := by
      intro _ i _ slots hslots
      have hnil : Chain (initial fun _ => 0).links (initial fun _ => 0).listHead [] := rfl
      rw [hslots.unique hnil]
      exact List.not_mem_nil
    have hlast : (Request.add (blinkerAt 0)).Fresh u := by
      intro _ i hi slots hslots
      have hone : Chain u.links u.listHead [firstSlot] := ⟨hhead, hlink⟩
      rw [hslots.unique hone, List.mem_singleton]
      rintro rfl
      exact hmalloc hi
    exact ⟨t, (list_ends_iff le_rfl (.cons trivial hs (.cons trivial hu (.cons trivial ht
      (.nil t)))) hempty).mpr (.cons hfirst hs (.cons trivial hu (.cons hlast ht (.nil t))))⟩
  · have hrun : (Runs.run (step blinkSlots) (fun _ _ => True) (initial fun _ => 0)
        [.add (blinkerAt 0), .tick, .add (blinkerAt 40)]).map (fun t =>
          (t.listHead, t.links firstSlot)) = some (some firstSlot, some firstSlot) := by
      decide +kernel
    obtain ⟨t, hrun, heq⟩ := Option.map_eq_some_iff.mp hrun
    obtain ⟨hhead, hlink⟩ := Prod.mk.inj heq
    have hpath := Runs.path_of_run hrun
    refine ⟨t, hpath, fun hfresh => ?_⟩
    obtain ⟨-, slots, hslots⟩ := (list_ends_iff le_rfl hpath hempty).mpr hfresh
    have hcircle : Endless t.links {firstSlot} := by
      rintro j rfl
      exact ⟨_, rfl, hlink⟩
    rw [hhead] at hslots
    exact hcircle.not_chain rfl hslots

/-! ### Two adds, the first at location 0 -/

section Origin

variable {s t : Blink} {slots : List Slot} {i : Slot} {fuel : ℕ}

lemma mp1Malloc_congr (h : ∀ i, (t.data i).location = (s.data i).location) :
    t.mp1Malloc = s.mp1Malloc := by
  simp only [mp1Malloc, h]

/-- Quiet requests over a finite list all end. -/
lemma session_quiet (hfuel : blinkSlots ≤ fuel) {rs : List Request} (hrs : ∀ r ∈ rs, r.Quiet)
    (hs : s.Ends) : ∃ answers t, s.session fuel rs = some (answers, t) ∧ t.links = s.links ∧
      t.listHead = s.listHead ∧ ∀ i, (t.data i).location = (s.data i).location := by
  induction rs generalizing s with
  | nil => exact ⟨[], s, rfl, rfl, rfl, fun _ => rfl⟩
  | cons r rs ih =>
    have hr : r.Quiet := hrs r List.mem_cons_self
    have hends : ∃ answer t, s.serve fuel r = some (answer, t) := by
      obtain ⟨slots, hslots⟩ := hs
      cases r with
      | add arg => exact hr.elim
      | remove arg => exact hr.elim
      | find location =>
        simp only [Blink.serve, mp1IoctlFind, mp1FindHelper_eq hslots hfuel, Option.map_some]
        exact ⟨_, _, rfl⟩
      | sync arg =>
        simp only [Blink.serve, mp1IoctlSync, mp1FindHelper_eq hslots hfuel, Option.bind_some]
        cases slots.find? fun i => Blinkers.At (arg >>> 16).toUInt16 (s.data i) with
        | none => exact ⟨_, _, rfl⟩
        | some esi => exact ⟨_, _, rfl⟩
      | tick =>
        have hwalk := hslots.walk_eq (fun s i => (taskletVisit_eq s i).1)
          ((length_le_blinkSlots hslots.nodup).trans hfuel)
        refine ⟨(none, none), slots.foldl taskletVisit s, ?_⟩
        rw [Blink.serve, mp1RtcTasklet, hwalk, Option.map_some]
    obtain ⟨answer, t, hserve⟩ := hends
    obtain ⟨hlinks, hhead, hlocation⟩ := serve_quiet hr hserve
    obtain ⟨answers, u, hsession, hlinks', hhead', hlocation'⟩ :=
      ih (fun r' hr' => hrs r' (List.mem_cons_of_mem r hr')) (ends_of_links hlinks hhead hs)
    refine ⟨answer :: answers, u, ?_, hlinks'.trans hlinks, hhead'.trans hhead,
      fun i => (hlocation' i).trans (hlocation i)⟩
    rw [Blink.session, hserve, Option.bind_some]
    dsimp only
    rw [hsession, Option.map_some]

lemma session_append {rs rs' : List Request} {answers : List Answer}
    (h : s.session fuel rs = some (answers, t)) :
    s.session fuel (rs ++ rs') =
      (t.session fuel rs').map fun (answers', u) => (answers ++ answers', u) := by
  induction rs generalizing s answers with
  | nil =>
    obtain ⟨rfl, rfl⟩ := Prod.mk.inj (Option.some.inj h)
    simp
  | cons r rs ih =>
    obtain ⟨⟨answer, u⟩, hserve, h⟩ := Option.bind_eq_some_iff.mp h
    obtain ⟨⟨answers', v⟩, hsession, h⟩ := Option.map_eq_some_iff.mp h
    obtain ⟨rfl, rfl⟩ := Prod.mk.inj h
    rw [List.cons_append, Blink.session, hserve, Option.bind_some]
    dsimp only
    rw [ih hsession, Option.map_map]
    rfl

/-- On a list that is a circle through one slot, no request that goes past it returns. -/
lemma serve_circle (hcircle : Endless s.links {i}) (hhead : s.listHead = some i) {r : Request}
    (hr : r.GoesPast (s.data i).location) : s.serve fuel r = none := by
  have hmiss : ∀ arg : UInt32, arg.toUInt16 ≠ (s.data i).location →
      s.mp1FindHelper fuel arg = none := by
    intro arg harg
    rw [mp1FindHelper, hhead]
    refine hcircle.search_eq_none ?_ rfl fuel
    rintro j rfl
    exact harg.symm
  cases r with
  | add arg => exact hr.elim
  | remove arg => rw [Blink.serve, mp1IoctlRemove, hmiss arg hr, Option.bind_none, Option.map_none]
  | find wanted =>
    have hwanted : wanted.toUInt32.toUInt16 ≠ (s.data i).location := by
      rw [UInt16.toUInt16_toUInt32]
      exact hr
    rw [Blink.serve, mp1IoctlFind, hmiss _ hwanted, Option.map_none, Option.map_none]
  | sync arg =>
    rw [Blink.serve, mp1IoctlSync]
    rcases hr with hfirst | hsecond
    · rw [hmiss _ hfirst, Option.bind_none, Option.map_none]
    · have hfound : s.mp1FindHelper fuel (arg >>> 16) ≠ some none := by
        rw [mp1FindHelper, hhead]
        exact hcircle.search_ne_missing rfl fuel
      cases hfind : s.mp1FindHelper fuel (arg >>> 16) with
      | none => rfl
      | some esi =>
        cases esi with
        | none => exact absurd hfind hfound
        | some esi => simp only [Option.bind_some, hmiss _ hsecond, Option.map_none]
  | tick =>
    rw [Blink.serve, mp1RtcTasklet, hhead,
      hcircle.walk_eq_none (fun s i => (taskletVisit_eq s i).1) rfl fuel, Option.map_none]

/-- An add at location 0 while the table has room, then any ticks, finds and syncs, then
another accepted add: all of these return, but the list now runs in a circle through one slot.
The next request does not return if it is a tick, or a find, remove or sync that looks for a
location other than that of the last add. -/
theorem origin_add_hangs {a : Blinkers} (h : Represents slots s a)
    (hroom : a.entries.length < blinkSlots) (b b' : BlinkStruct) (hb : b.location = 0)
    (hb' : b'.location.toNat < 80 * 25) {rs : List Request} (hrs : ∀ r ∈ rs, r.Quiet)
    (hfuel : blinkSlots ≤ fuel) :
    ∃ answers t, s.session fuel (.add b :: rs ++ [.add b']) = some (answers, t) ∧
      ∀ fuel' r, r.GoesPast b'.location → t.serve fuel' r = none := by
  have hmalloc : s.mp1Malloc ≠ none := fun hnone => by
    have := h.mp1Malloc_eq_none.mp hnone
    have := h.length_eq
    omega
  obtain ⟨i, hi⟩ := Option.ne_none_iff_exists'.mp hmalloc
  have hloc : b.location.toNat < 80 * 25 := by
    rw [hb]
    decide
  obtain ⟨hlinks, hhead, hdata⟩ := mp1IoctlAdd_accepted hloc hi
  -- The slot just linked reads location 0 like the free ones, so it is still the first of them.
  have hagain : (s.mp1IoctlAdd b).2.mp1Malloc = some i := by
    rw [← hi]
    refine mp1Malloc_congr fun j => ?_
    rw [hdata]
    by_cases hj : j = i
    · rw [hj, Function.update_self, location_of_mp1Malloc hi]
      exact hb
    · rw [Function.update_of_ne hj]
  have hends : (s.mp1IoctlAdd b).2.Ends := by
    refine (ends_add_iff ⟨slots, h.chain⟩ b).mpr fun _ j hj slots' hslots' => ?_
    rw [hslots'.unique h.chain]
    exact h.fresh hj
  obtain ⟨answers, t, hsession, -, hhead', hlocation⟩ := session_quiet hfuel hrs hends
  have hlast := (mp1Malloc_congr hlocation).trans hagain
  obtain ⟨hlinks'', hhead'', hdata''⟩ := mp1IoctlAdd_accepted hb' hlast
  have hcircle : Endless (t.mp1IoctlAdd b').2.links {i} := by
    rintro j rfl
    refine ⟨j, rfl, ?_⟩
    rw [hlinks'', Function.update_self, hhead', hhead]
  refine ⟨(some (s.mp1IoctlAdd b).1, none) :: answers ++ [(some (t.mp1IoctlAdd b').1, none)],
    (t.mp1IoctlAdd b').2, ?_, fun fuel' r hr => ?_⟩
  · have hfirst : s.session fuel (.add b :: rs) =
        some ((some (s.mp1IoctlAdd b).1, none) :: answers, t) := by
      rw [Blink.session, Blink.serve, Option.bind_some]
      dsimp only
      rw [hsession, Option.map_some]
    rw [session_append hfirst]
    rfl
  · refine serve_circle hcircle hhead'' ?_
    rw [hdata'', Function.update_self]
    exact hr

end Origin

theorem origin_add_hangs_empty : ∃ answers t,
    (initial fun _ => 0).session blinkSlots
        [.add (blinkerAt 0), .tick, .add (blinkerAt 40)] = some (answers, t) ∧
    ∀ fuel, t.serve fuel .tick = none ∧ t.serve fuel (.sync 0x00280001) = none := by
  have hrs : ∀ r ∈ [Request.tick], r.Quiet := by
    simp [Request.Quiet]
  obtain ⟨answers, t, hsession, hhangs⟩ := origin_add_hangs
    (represents_initial fun _ => 0) (by decide) (blinkerAt 0) (blinkerAt 40) rfl (by decide) hrs
    le_rfl
  exact ⟨answers, t, hsession, fun fuel =>
    ⟨hhangs fuel .tick trivial, hhangs fuel (.sync 0x00280001) (Or.inr (by decide))⟩⟩

end HalOs.Blink
