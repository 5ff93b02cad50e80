import HalOs.Model.Scheduling
import HalOs.Proofs.AddressSpace
import HalOs.Proofs.Screens

/-!
# A switch inside a tick

`scheduler` sets the scheduled terminal several statements before it maps the screen of that
terminal, and chooses the mapping before it writes it. A switch that comes in between reads
the scheduled terminal to decide what is mapped where. This file says which places of
`scheduler` are harmless to it. The screens and the two video entries are all that matters, so
both handlers are first brought down to these.
-/

namespace HalOs

/-- The pages of physical memory, the frames of the two video entries and of the backing pages,
and the two terminals. -/
structure Video where
  page : ℕ → ℕ → UInt8
  table : ℕ
  vmem : ℕ
  backing : Fin 3 → ℕ
  active : Fin 3
  scheduled : Fin 3

namespace Video

def copy (dest src : ℕ) (v : Video) : Video :=
  { v with page := Function.update v.page dest (v.page src) }

/-- Both entries name the frame. -/
def map (frame : ℕ) (v : Video) : Video := { v with table := frame, vmem := frame }

/-- The frame of a terminal's screen. -/
def frame (v : Video) (t : Fin 3) : ℕ := if t = v.active then 184 else 186 + t.val

def screen (v : Video) (t : Fin 3) : ℕ → UInt8 := v.page (v.frame t)

/-- `terminal_switch` to an initialised terminal. -/
def switch (target : Fin 3) (v : Video) : Video :=
  if v.active = target then v
  else
    let v := if v.active ≠ v.scheduled then v.map 184 else v
    let v := (v.copy (v.backing v.active) v.table).copy v.table (v.backing target)
    let v := if target ≠ v.scheduled then v.map (186 + v.scheduled.val) else v
    { v with active := target }

def pick (next : Fin 3) (v : Video) : Video := { v with scheduled := next }

/-- `scheduler`, once the next terminal is known. -/
def tick (next : Fin 3) (v : Video) : Video := (v.map (v.frame next)).pick next

/-- Both entries name the screen of the scheduled terminal. -/
def Matches (v : Video) : Prop := v.table = v.vmem ∧ v.table = v.frame v.scheduled

/-- The backing pages are where `init_paging` puts them. -/
def Backed (v : Video) : Prop := ∀ t, v.backing t = 186 + t.val

/-- The screens show what they showed, and the scheduled one is mapped. -/
structure Kept (v v' : Video) : Prop where
  screens : ∀ t, v'.screen t = v.screen t
  mapping : v'.Matches

section Switches

variable {v v' v'' : Video} {n s t u : Fin 3}

lemma Kept.trans (h : v.Kept v') (h' : v'.Kept v'') : v.Kept v'' :=
  ⟨fun t => (h'.screens t).trans (h.screens t), h'.mapping⟩

lemma switch_self (h : v.active = u) : v.switch u = v := if_pos h

/-- The frame a switch takes for the physical screen. -/
def source (v : Video) : ℕ := if v.active ≠ v.scheduled then 184 else v.table

lemma switch_of_ne (hb : v.Backed) (h : v.active ≠ u) : v.switch u =
    { ((v.copy (186 + v.active.val) v.source).copy v.source (186 + u.val)) with
      table := if u ≠ v.scheduled then 186 + v.scheduled.val else v.source
      vmem := if u ≠ v.scheduled then 186 + v.scheduled.val else
        if v.active ≠ v.scheduled then 184 else v.vmem
      active := u } := by
  unfold switch source
  rw [if_neg h]
  by_cases ha : v.active ≠ v.scheduled
  · simp only [if_pos ha, map, copy, hb _]
    by_cases hu : u ≠ v.scheduled
    · simp only [if_pos hu]
    · simp only [if_neg hu]
  · simp only [if_neg ha, map, copy, hb _]
    by_cases hu : u ≠ v.scheduled
    · simp only [if_pos hu]
    · simp only [if_neg hu]

lemma frame_eq_iff (a : Fin 3) : 186 + t.val = 186 + a.val ↔ t = a := by
  constructor
  · intro h
    apply Fin.ext
    omega
  · intro h
    rw [h]

/-- What the terminals show when a switch takes the right frame for the physical screen. -/
lemma switch_screen (hb : v.Backed) (hsrc : v.source = 184) (t : Fin 3) :
    (v.switch u).screen t = v.screen t := by
  by_cases h : v.active = u
  · rw [switch_self h]
  · rw [switch_of_ne hb h]
    have hu : (186 + u.val : ℕ) ≠ 186 + v.active.val := fun he =>
      h ((frame_eq_iff _).mp he).symm
    simp only [screen, frame, copy, hsrc]
    by_cases ht : t = u
    · have hta : t ≠ v.active := fun he => h (he ▸ ht)
      rw [if_pos ht, if_neg hta, Function.update_self, Function.update_of_ne hu, ht]
    · rw [if_neg ht, Function.update_of_ne (by omega)]
      by_cases hta : t = v.active
      · rw [if_pos hta, hta, Function.update_self]
      · rw [if_neg hta, Function.update_of_ne (fun he => hta ((frame_eq_iff _).mp he))]

/-- What they show when it takes the backing page of the terminal `s` for it: the three screens
go round. -/
lemma switch_screen_stale (hb : v.Backed) (h : v.active ≠ u) (hs : s ≠ v.active)
    (hsrc : v.source = 186 + s.val) (t : Fin 3) : (v.switch u).screen t =
      if t = u then v.screen v.active else if t = v.active then v.screen s
      else if t = s then v.screen u else v.screen t := by
  have hu : u ≠ v.active := fun he => h he.symm
  have hframe : ∀ {a b : Fin 3}, a ≠ b → (186 + a.val : ℕ) ≠ 186 + b.val :=
    fun hab he => hab ((frame_eq_iff _).mp he)
  rw [switch_of_ne hb h]
  simp only [screen, frame, copy, hsrc, if_true, if_neg hs, if_neg hu]
  by_cases ht : t = u
  · rw [if_pos ht, if_pos ht, Function.update_of_ne (by omega), Function.update_of_ne (by omega)]
  · rw [if_neg ht, if_neg ht]
    by_cases hta : t = v.active
    · rw [if_pos hta, hta, Function.update_of_ne (hframe hs.symm), Function.update_self]
    · rw [if_neg hta]
      by_cases hts : t = s
      · rw [if_pos hts, hts, Function.update_self, Function.update_of_ne (hframe hu)]
      · rw [if_neg hts, Function.update_of_ne (hframe hts), Function.update_of_ne (hframe hta),
          if_neg hta]

lemma switch_active : (v.switch u).active = u := by
  unfold switch
  by_cases h : v.active = u
  · rw [if_pos h]
    exact h
  · rw [if_neg h]

lemma switch_scheduled : (v.switch u).scheduled = v.scheduled := by
  unfold switch
  dsimp only [map, copy]
  split_ifs <;> rfl

lemma source_of_matches (hm : v.Matches) : v.source = 184 := by
  unfold source
  by_cases ha : v.active ≠ v.scheduled
  · exact if_pos ha
  · rw [if_neg ha, hm.2, frame, if_pos (not_not.mp ha).symm]

lemma switch_matches (hm : v.Matches) (hb : v.Backed) : (v.switch u).Matches := by
  by_cases h : v.active = u
  · rw [switch_self h]
    exact hm
  · rw [switch_of_ne hb h, source_of_matches hm]
    by_cases hu : v.scheduled = u
    · simp [Matches, frame, copy, hu]
      omega
    · simp [Matches, frame, copy, hu, Ne.symm hu]

/-! ### The places of a switch -/

lemma switch_kept (hm : v.Matches) (hb : v.Backed) : v.Kept (v.switch u) :=
  ⟨switch_screen hb (source_of_matches hm), switch_matches hm hb⟩

lemma tick_kept : v.Kept (v.tick n) := ⟨fun _ => rfl, rfl, rfl⟩

/-- A switch while the old mapping stands, and the mapping of the new terminal afterwards. -/
lemma switch_tick_kept_iff (hm : v.Matches) (hb : v.Backed)
    (hn : v.active = n → v.active ≠ u → n ≠ v.scheduled) :
    v.Kept (((v.pick n).switch u).tick n) ↔ v.active = n → v.active ≠ u →
      v.screen v.active = v.screen u ∧ v.screen v.scheduled = v.screen u := by
  have hb' : (v.pick n).Backed := hb
  by_cases h : v.active = n ∧ v.active ≠ u
  · obtain ⟨ha, hu⟩ := h
    have hs : v.scheduled ≠ v.active := fun he => hn ha hu (he.trans ha).symm
    have hsrc : (v.pick n).source = 186 + v.scheduled.val := by
      have hw : ¬(v.pick n).active ≠ (v.pick n).scheduled := not_not.mpr ha
      exact (if_neg hw).trans (hm.2.trans (if_neg hs))
    have hscreen : ∀ t, ((v.pick n).switch u).screen t =
        if t = u then v.screen v.active else if t = v.active then v.screen v.scheduled
        else if t = v.scheduled then v.screen u else v.screen t :=
      switch_screen_stale hb' hu hs hsrc
    constructor
    · intro hk _ _
      have hu' := (hscreen u).symm.trans (hk.screens u)
      have ha' := (hscreen v.active).symm.trans (hk.screens v.active)
      rw [if_pos rfl] at hu'
      rw [if_neg hu, if_pos rfl] at ha'
      exact ⟨hu', ha'.trans hu'⟩
    · intro he
      obtain ⟨hau, hsu⟩ := he ha hu
      refine ⟨fun t => (hscreen t).trans ?_, tick_kept.mapping⟩
      by_cases ht : t = u
      · rw [if_pos ht, ht]
        exact hau
      · rw [if_neg ht]
        by_cases hta : t = v.active
        · rw [if_pos hta, hta]
          exact hsu.trans hau.symm
        · rw [if_neg hta]
          by_cases hts : t = v.scheduled
          · rw [if_pos hts, hts]
            exact hsu.symm
          · exact if_neg hts
  · have hkept : v.Kept (((v.pick n).switch u).tick n) := by
      refine ⟨fun t => ?_, tick_kept.mapping⟩
      by_cases ha : v.active = n
      · rw [switch_self (v := v.pick n) (not_not.mp fun hu => h ⟨ha, hu⟩)]
        rfl
      · exact switch_screen hb' (if_pos ha) t
    exact ⟨fun _ ha hu => absurd ⟨ha, hu⟩ h, fun _ => hkept⟩

/-- The frame chosen before a switch to another terminal is right after it unless the switch
moves the screen of the chosen terminal. -/
lemma frame_eq_frame_iff {w : Video} (hw : w.active = u) (h : v.active ≠ u) :
    v.frame n = w.frame n ↔ v.active ≠ n ∧ u ≠ n := by
  unfold frame
  rw [hw]
  by_cases ha : n = v.active
  · have hu : n ≠ u := fun he => h (ha.symm.trans he)
    rw [if_pos ha, if_neg hu]
    constructor
    · intro he
      omega
    · intro hne
      exact absurd ha.symm hne.1
  · rw [if_neg ha]
    by_cases hu : n = u
    · rw [if_pos hu]
      constructor
      · intro he
        omega
      · intro hne
        exact absurd hu.symm hne.2
    · rw [if_neg hu]
      exact ⟨fun _ => ⟨Ne.symm ha, Ne.symm hu⟩, fun _ => rfl⟩

/-- A switch after the mapping has been chosen, and before it is written. -/
lemma switch_map_kept_iff (hb : v.Backed) :
    v.Kept (((v.pick n).switch u).map (v.frame n)) ↔
      (v.active ≠ u → v.active ≠ n ∧ u ≠ n) := by
  by_cases h : v.active = u
  · rw [switch_self (v := v.pick n) h]
    exact ⟨fun _ hu => absurd h hu, fun _ => tick_kept⟩
  · have hframe := frame_eq_frame_iff (n := n) (switch_active (v := v.pick n)) h
    have hsched : ((v.pick n).switch u).scheduled = n := switch_scheduled
    constructor
    · intro hk _
      have hm : v.frame n = ((v.pick n).switch u).frame ((v.pick n).switch u).scheduled :=
        hk.mapping.2
      rw [hsched] at hm
      exact hframe.mp hm
    · intro hne
      refine ⟨switch_screen (v := v.pick n) hb (if_pos (hne h).1), rfl, ?_⟩
      have hright : v.frame n =
          ((v.pick n).switch u).frame ((v.pick n).switch u).scheduled := by
        rw [hsched]
        exact hframe.mpr (hne h)
      exact hright

lemma switch_half_kept_iff (hb : v.Backed) :
    v.Kept { (({ v.pick n with table := v.frame n } : Video).switch u) with vmem := v.frame n } ↔
      (v.active ≠ u → v.active ≠ n ∧ u ≠ n) := by
  let w : Video := { v.pick n with table := v.frame n }
  have hw : w.Backed := hb
  by_cases h : v.active = u
  · have hself : w.switch u = w := switch_self h
    rw [hself]
    exact ⟨fun _ hu => absurd h hu, fun _ => tick_kept⟩
  · have hframe := frame_eq_frame_iff (n := n) (switch_active (v := w)) h
    have hsched : (w.switch u).scheduled = n := switch_scheduled
    constructor
    · intro hk _
      have hm : v.frame n = (w.switch u).frame (w.switch u).scheduled :=
        hk.mapping.1.symm.trans hk.mapping.2
      rw [hsched] at hm
      exact hframe.mp hm
    · intro hne
      obtain ⟨ha, hu⟩ := hne h
      have hsrc : w.source = 184 := if_pos ha
      have htable : (w.switch u).table = v.frame n := by
        rw [switch_of_ne hw h]
        exact (if_pos hu).trans (if_neg (Ne.symm ha)).symm
      refine ⟨switch_screen hw hsrc, htable, ?_⟩
      have hright : (w.switch u).table = (w.switch u).frame (w.switch u).scheduled := by
        rw [htable, hsched]
        exact hframe.mpr ⟨ha, hu⟩
      exact hright

end Switches

end Video

/-- `scheduler` between two statements, as far as a switch can tell. -/
structure Tick where
  video : Video
  ready : Fin 3 → Bool
  first : Bool
  running : Bool
  next : Fin 3
  onScreen : Bool

namespace Tick

open Scheduling (body)

/-- The frame both video entries are to name. -/
def chosen (x : Tick) : ℕ := if x.onScreen then 184 else 186 + x.video.scheduled.val

def exec (s : SchedStmt) (x : Tick) : Option Tick :=
  let running : Option Tick := if x.running then some x else none
  match s with
  | .resetScheduled => some (if x.first then { x with video := x.video.pick 0 } else x)
  | .clearFirst => some { x with first := false }
  | .saveEsp => running
  | .saveEbp => running
  | .saveX => some x
  | .saveY => some x
  | .findNext => (Loops.search x.ready 3 (x.video.scheduled + 1 : Fin 3)).map fun next =>
    { x with next := next }
  | .setScheduled => some { x with video := x.video.pick x.next }
  | .setCurrent => some { x with running := true }
  | .setEsp0 => running
  | .setPage => running
  | .testActive => some { x with onScreen := x.video.scheduled = x.video.active }
  | .mapTable => some { x with video := { x.video with table := x.chosen } }
  | .mapVmem => some { x with video := { x.video with vmem := x.chosen } }
  | .setCursor => some x
  | .load => some x

def run : List SchedStmt → Tick → Option Tick := Loops.runUnder (fun _ x => some x) exec

def switch (u : Fin 3) (x : Tick) : Tick := { x with video := x.video.switch u }

def interrupted (i : ℕ) (u : Fin 3) (x : Tick) : Option Tick :=
  ((run (body.take i) x).bind fun x => some (x.switch u)).bind (run (body.drop i))

section Places

variable {x : Tick} {i j : ℕ} {n u : Fin 3} {s : SchedStmt}

/-- The statements that read or write what a switch reads or writes. -/
def Touches (s : SchedStmt) : Prop :=
  s = .resetScheduled ∨ s = .setScheduled ∨ s = .testActive ∨ s = .mapTable ∨ s = .mapVmem

instance : Decidable (Touches s) := inferInstanceAs (Decidable (_ ∨ _))

lemma exec_switch (hs : ¬Touches s) (x : Tick) :
    (exec s x).bind (fun x => some (x.switch u)) = (some (x.switch u)).bind (exec s) := by
  have hsched : (x.video.switch u).scheduled = x.video.scheduled := Video.switch_scheduled
  cases s with
  | resetScheduled | setScheduled | testActive | mapTable | mapVmem =>
    exact absurd hs (by simp [Touches])
  | findNext =>
    simp only [exec, switch, hsched, Option.bind_some]
    cases Loops.search x.ready 3 (x.video.scheduled + 1) with
    | none => rfl
    | some next => rfl
  | saveEsp | saveEbp | setEsp0 | setPage =>
    by_cases hr : x.running = true
    · simp [exec, switch, hr]
    · simp [exec, switch, hr]
  | clearFirst | saveX | saveY | setCurrent | setCursor | load => rfl

/-- A switch can be moved over the statements that it does not touch. -/
lemma interrupted_move (hij : i ≤ j) (hi : i ≤ body.length)
    (hq : ∀ s ∈ (body.take j).drop i, ¬Touches s) :
    x.interrupted j u = x.interrupted i u := by
  have htake : body.take j = body.take i ++ (body.take j).drop i := by
    have h := List.take_append_drop i (body.take j)
    rw [List.take_take, min_eq_left hij] at h
    exact h.symm
  have hdrop : body.drop i = (body.take j).drop i ++ body.drop j := by
    have h : i ≤ (body.take j).length := by
      rw [List.length_take]
      exact le_min hij hi
    rw [← List.drop_append_of_le_length h, List.take_append_drop]
  unfold interrupted run
  rw [htake, hdrop]
  exact Loops.runUnder_between fun s hs x => exec_switch (hq s hs) x

/-- The scheduled terminal is 0 until the first tick, a process runs, and `n` comes next. -/
structure Steady (n : Fin 3) (x : Tick) : Prop where
  first : x.first = true → x.video.scheduled = 0
  running : x.running = true
  next : Loops.search x.ready 3 (x.video.scheduled + 1) = some n

lemma exec_resetScheduled (hx : x.Steady n) : exec .resetScheduled x = some x := by
  unfold exec
  by_cases hf : x.first = true
  · have hpick : x.video.pick 0 = x.video := by
      rw [Video.pick, ← hx.first hf]
    simp only [if_pos hf, hpick]
  · simp only [if_neg hf]

lemma Steady.switch (hx : x.Steady n) : (x.switch u).Steady n := by
  have hsched : (x.video.switch u).scheduled = x.video.scheduled := Video.switch_scheduled
  exact ⟨fun hf => hsched.trans (hx.first hf), hx.running, hsched ▸ hx.next⟩

lemma run_pick (hx : x.Steady n) : ∃ y, run (body.take 11) x = some y ∧
    y.video = x.video.pick n := by
  have hlist : body.take 11 = [.resetScheduled, .clearFirst, .saveEsp, .saveEbp, .saveX, .saveY,
    .findNext, .setScheduled, .setCurrent, .setEsp0, .setPage] := rfl
  refine ⟨{ x with video := x.video.pick n, first := false, running := true, next := n }, ?_, rfl⟩
  rw [hlist, run, Loops.runUnder, Option.bind_some, exec_resetScheduled hx]
  simp [Loops.runUnder, exec, hx.running, hx.next]

lemma run_append {is js : List SchedStmt} : run (is ++ js) x = (run is x).bind (run js) :=
  Loops.runUnder_append

lemma run_nil : run [] x = some x := rfl

lemma run_cons {is : List SchedStmt} : run (s :: is) x = (exec s x).bind (run is) := rfl

lemma run_test (hx : x.Steady n) : ∃ y, run (body.take 12) x = some y ∧
    y.video = x.video.pick n ∧ y.onScreen = decide (n = x.video.active) := by
  have hlist : body.take 12 = body.take 11 ++ [.testActive] := rfl
  obtain ⟨y, hy, hv⟩ := run_pick hx
  refine ⟨{ y with onScreen := y.video.scheduled = y.video.active }, ?_, hv, ?_⟩
  · rw [hlist, run_append, hy]
    rfl
  · rw [hv]
    rfl

lemma chosen_eq (hsched : x.video.scheduled = n) {v : Video}
    (ho : x.onScreen = decide (n = v.active)) : x.chosen = v.frame n := by
  unfold chosen Video.frame
  rw [ho, hsched]
  by_cases hn : n = v.active
  · rw [if_pos (decide_eq_true hn), if_pos hn]
  · rw [if_neg (by simpa using hn), if_neg hn]

lemma run_mapTable (hx : x.Steady n) : ∃ y, run (body.take 13) x = some y ∧
    y.video = { x.video.pick n with table := x.video.frame n } ∧
    y.onScreen = decide (n = x.video.active) := by
  have hlist : body.take 13 = body.take 12 ++ [.mapTable] := rfl
  obtain ⟨y, hy, hv, ho⟩ := run_test hx
  have hsched : y.video.scheduled = n := hv ▸ rfl
  refine ⟨{ y with video := { y.video with table := y.chosen } }, ?_, ?_, ho⟩
  · rw [hlist, run_append, hy]
    rfl
  · dsimp only
    rw [chosen_eq hsched ho, hv]

lemma run_mapVmem (hx : x.Steady n) : ∃ y, run (body.take 14) x = some y ∧
    y.video = x.video.tick n := by
  have hlist : body.take 14 = body.take 13 ++ [.mapVmem] := rfl
  obtain ⟨y, hy, hv, ho⟩ := run_mapTable hx
  have hsched : y.video.scheduled = n := hv ▸ rfl
  refine ⟨{ y with video := { y.video with vmem := y.chosen } }, ?_, ?_⟩
  · rw [hlist, run_append, hy]
    rfl
  · dsimp only
    rw [chosen_eq hsched ho, hv]
    rfl

lemma quiet_early : ∀ s ∈ (body.take 7).drop 1, ¬Touches s := by decide

lemma quiet_picked : ∀ s ∈ (body.take 11).drop 8, ¬Touches s := by decide

lemma quiet_late : ∀ s ∈ body.drop 14, ¬Touches s := by decide

lemma run_body (hx : x.Steady n) : run body x = run (body.drop 1) x := by
  have h : run body x = (exec .resetScheduled x).bind (run (body.drop 1)) := run_cons
  rw [h, exec_resetScheduled hx, Option.bind_some]

/-- A switch before the terminal is set comes before the whole tick. -/
lemma interrupted_before (hx : x.Steady n) (hi : i ≤ 7) :
    ∃ y, x.interrupted i u = some y ∧ y.video = (x.video.switch u).tick n := by
  have hfirst : x.interrupted 1 u = run body (x.switch u) := by
    have htake : run (body.take 1) x = some x := exec_resetScheduled hx ▸ rfl
    rw [interrupted, htake, run_body hx.switch, Option.bind_some, Option.bind_some]
  have hmove : x.interrupted i u = run body (x.switch u) := by
    cases i with
    | zero =>
      rw [interrupted, List.take_zero, List.drop_zero, run_nil, Option.bind_some,
        Option.bind_some]
    | succ i =>
      rw [← hfirst]
      apply interrupted_move (by omega) (by decide)
      intro s hs
      have hle : i + 1 ≤ 7 := hi
      exact quiet_early s ((List.Sublist.drop (List.take_sublist_take_left hle) 1).subset hs)
  obtain ⟨y, hy, hv⟩ := run_mapVmem (hx.switch (u := u))
  refine ⟨y, ?_, hv⟩
  rw [hmove, ← List.take_append_drop 14 body, run_append, hy]
  rfl

lemma run_rest : ∃ y, run (body.drop 11) x = some y ∧
    y.video = x.video.tick x.video.scheduled := by
  have hlist : body.drop 11 = [.testActive, .mapTable, .mapVmem, .setCursor, .load] := rfl
  let y : Tick := { x with onScreen := x.video.scheduled = x.video.active }
  have hy : y.chosen = x.video.frame x.video.scheduled := chosen_eq (x := y) rfl rfl
  refine ⟨{ y with video := x.video.map y.chosen }, ?_, ?_⟩
  · rw [hlist]
    rfl
  · rw [hy]
    rfl

/-- One before the test sees the new terminal under the old mapping. -/
lemma interrupted_between (hx : x.Steady n) (hi : 8 ≤ i) (hi' : i ≤ 11) :
    ∃ y, x.interrupted i u = some y ∧ y.video = ((x.video.pick n).switch u).tick n := by
  have hmove : x.interrupted 11 u = x.interrupted i u :=
    interrupted_move hi' (hi'.trans (by decide)) fun s hs =>
      quiet_picked s (List.drop_subset_drop_left _ hi hs)
  obtain ⟨y, hy, hv⟩ := run_pick hx
  obtain ⟨z, hz, hvz⟩ := run_rest (x := y.switch u)
  have hvy : (y.switch u).video = (x.video.pick n).switch u := congrArg (Video.switch u) hv
  have hsched : (y.switch u).video.scheduled = n := by
    rw [hvy, Video.switch_scheduled]
    rfl
  refine ⟨z, ?_, ?_⟩
  · rw [← hmove, interrupted, hy]
    exact hz
  · rw [hvz, hsched, hvy]

lemma interrupted_chosen (hx : x.Steady n) : ∃ y, x.interrupted 12 u = some y ∧
    y.video = ((x.video.pick n).switch u).map (x.video.frame n) := by
  obtain ⟨y, hy, hv, ho⟩ := run_test hx
  have hlist : body.drop 12 = [.mapTable, .mapVmem, .setCursor, .load] := rfl
  have hvy : (y.switch u).video = (x.video.pick n).switch u := congrArg (Video.switch u) hv
  have hsched : (y.switch u).video.scheduled = n := by
    rw [hvy, Video.switch_scheduled]
    rfl
  have hchosen : (y.switch u).chosen = x.video.frame n := chosen_eq hsched ho
  refine ⟨{ y.switch u with video := (y.switch u).video.map (y.switch u).chosen }, ?_, ?_⟩
  · rw [interrupted, hy, hlist]
    rfl
  · rw [hchosen, hvy]

/-- One between the two writes. -/
lemma interrupted_half (hx : x.Steady n) : ∃ y, x.interrupted 13 u = some y ∧
    y.video = { (({ x.video.pick n with table := x.video.frame n } : Video).switch u) with
      vmem := x.video.frame n } := by
  obtain ⟨y, hy, hv, ho⟩ := run_mapTable hx
  have hlist : body.drop 13 = [.mapVmem, .setCursor, .load] := rfl
  have hvy : (y.switch u).video =
      ({ x.video.pick n with table := x.video.frame n } : Video).switch u :=
    congrArg (Video.switch u) hv
  have hsched : (y.switch u).video.scheduled = n := by
    rw [hvy, Video.switch_scheduled]
    rfl
  have hchosen : (y.switch u).chosen = x.video.frame n := chosen_eq hsched ho
  refine ⟨{ y.switch u with
    video := { (y.switch u).video with vmem := (y.switch u).chosen } }, ?_, ?_⟩
  · rw [interrupted, hy, hlist]
    rfl
  · rw [hchosen, hvy]

lemma exec_ready {y : Tick} (h : exec s x = some y) : y.ready = x.ready := by
  cases s with
  | findNext =>
    obtain ⟨next, -, rfl⟩ := Option.map_eq_some_iff.mp h
    rfl
  | resetScheduled =>
    obtain rfl := Option.some.inj h
    split_ifs <;> rfl
  | saveEsp | saveEbp | setEsp0 | setPage =>
    obtain ⟨-, rfl⟩ : x.running = true ∧ x = y := by simpa [exec] using h
    rfl
  | saveX | saveY | clearFirst | setScheduled | setCurrent | testActive | mapTable | mapVmem
  | setCursor | load =>
    obtain rfl := Option.some.inj h
    rfl

lemma run_ready {is : List SchedStmt} {y : Tick} (h : run is x = some y) : y.ready = x.ready :=
  Loops.runUnder_invariant (I := fun z : Tick => z.ready = x.ready)
    (fun _ _ _ _ hz hu => Option.some.inj hu ▸ hz)
    (fun _ _ _ _ hz he => (exec_ready he).trans hz) h rfl

/-- One after both writes comes after the whole tick. -/
lemma interrupted_after (hx : x.Steady n) (hi : 14 ≤ i) :
    ∃ y, x.interrupted i u = some y ∧ y.video = (x.video.tick n).switch u := by
  have hmove : x.interrupted i u = x.interrupted 14 u :=
    interrupted_move hi (by decide) fun s hs =>
      quiet_late s ((List.Sublist.drop (List.take_sublist i body) 14).subset hs)
  obtain ⟨y, hy, hv⟩ := run_mapVmem hx
  refine ⟨y.switch u, ?_, congrArg (Video.switch u) hv⟩
  rw [hmove, interrupted, hy]
  rfl

end Places

end Tick

namespace Kernel

section Views

variable {k k' : Kernel} {target t : Fin 3}

def view (k : Kernel) : Video where
  page := k.mem.page
  table := k.paging.videoFrame
  vmem := k.paging.vidmapFrame
  backing := k.paging.backingFrame
  active := k.activeTerminal
  scheduled := k.scheduledTerminal

lemma page_copyPage (mem : Memory) (dest src : ℕ) :
    (mem.copyPage dest src).page = Function.update mem.page dest (mem.page src) := by
  funext frame
  by_cases hf : frame = dest
  · rw [hf, Memory.page_copyPage_self, Function.update_self]
  · rw [Memory.page_copyPage_of_ne _ _ _ _ hf, Function.update_of_ne hf]

lemma backing_mapVideo (addr : ℕ) (p : Paging) :
    (p.mapVideo addr).backingFrame = p.backingFrame := by
  funext t
  exact Paging.backingFrame_mapVideo ..

/-- A switch to an initialised terminal completes, and acts on the view alone. -/
lemma terminalSwitch_view (img : Image) (f : CallFrame) (ht : k.initializedTerminals target = true) :
    ∃ k', k.terminalSwitch img f target = some k' ∧ k'.view = k.view.switch target ∧
      k'.initializedTerminals = k.initializedTerminals ∧ k'.firstSwap = k.firstSwap ∧
      k'.currentPcb = k.currentPcb := by
  unfold terminalSwitch
  by_cases ha : k.activeTerminal = target
  · rw [if_pos ha]
    exact ⟨k, rfl, (Video.switch_self (v := k.view) ha).symm, rfl, rfl, rfl⟩
  · rw [if_neg ha]
    have hinit : (k.switchScreens target).initializedTerminals = k.initializedTerminals := by
      rw [switchScreens_eq]
    refine ⟨k.switchScreens target, ?_, ?_, hinit, ?_, ?_⟩
    · simp only [hinit, if_pos ht]
    · have hva : ¬k.view.active = target := ha
      rw [switchScreens_eq, Video.switch, if_neg hva]
      by_cases has : k.activeTerminal ≠ k.scheduledTerminal
      · by_cases hts : target ≠ k.scheduledTerminal
        · simp [view, switchedPaging, copyPaging, has, hts, Video.map, Video.copy, page_copyPage,
            backing_mapVideo, backing_frame, screen_frame]
        · simp [view, switchedPaging, copyPaging, has, hts, Video.map, Video.copy, page_copyPage,
            backing_mapVideo, screen_frame]
      · by_cases hts : target ≠ k.scheduledTerminal
        · simp [view, switchedPaging, copyPaging, has, hts, Video.map, Video.copy, page_copyPage,
            backing_mapVideo, backing_frame]
        · simp [view, switchedPaging, copyPaging, has, hts, Video.copy, page_copyPage]
    · rw [switchScreens_eq]
    · rw [switchScreens_eq]

end Views

end Kernel

namespace Scheduling

variable {img : Image} {f : CallFrame} {r : Regs} {x y : Scheduling} {i : ℕ} {target : Fin 3}
  {k : Kernel}

def view (x : Scheduling) : Tick where
  video := x.kernel.view
  ready := x.kernel.initializedTerminals
  first := x.kernel.firstSwap
  running := x.kernel.currentPcb.isSome
  next := x.next
  onScreen := x.onScreen

lemma chosen_view : offsetField ((if x.onScreen then video else
    terminalVideo + align4kb * x.kernel.scheduledTerminal.val) / align4kb) = x.view.chosen := by
  unfold Tick.chosen
  by_cases ho : x.onScreen = true
  · have hv : x.view.onScreen = true := ho
    rw [if_pos ho, if_pos hv, Kernel.screen_frame]
  · have hv : ¬x.view.onScreen = true := ho
    rw [if_neg ho, if_neg hv, Kernel.backing_frame]
    rfl

lemma exec_view (s : SchedStmt) (x : Scheduling) :
    (exec r s x).map view = Tick.exec s x.view := by
  cases s with
  | resetScheduled =>
    have hv : x.view.first = x.kernel.firstSwap := rfl
    by_cases hf : x.kernel.firstSwap = true
    · simp only [exec, Tick.exec, hv, if_pos hf]
      rfl
    · simp only [exec, Tick.exec, hv, if_neg hf]
      rfl
  | findNext =>
    have hv : Loops.search x.view.ready 3 (x.view.video.scheduled + 1) =
      x.kernel.nextScheduled := rfl
    simp only [exec, Tick.exec, hv, Option.map_map]
    rfl
  | mapTable =>
    have hback : (x.kernel.paging.mapTable (if x.onScreen then video else
        terminalVideo + align4kb * x.kernel.scheduledTerminal.val)).backingFrame =
        x.kernel.paging.backingFrame := by
      funext t
      exact Paging.backingFrame_mapTable ..
    simp only [exec, Tick.exec, Option.map_some, view, Kernel.view, Paging.videoFrame_mapTable,
      chosen_view, hback]
    rfl
  | mapVmem =>
    simp only [exec, Tick.exec, Option.map_some, view, Kernel.view, Paging.vidmapFrame_mapVmem,
      chosen_view]
    rfl
  | saveEsp | saveEbp =>
    have hv : x.view.running = x.kernel.currentPcb.isSome := rfl
    simp only [exec, Tick.exec, hv]
    cases hp : x.kernel.currentPcb with
    | none => rfl
    | some p => rfl
  | setEsp0 | setPage =>
    have hv : x.view.running = x.kernel.currentPcb.isSome := rfl
    simp only [exec, Tick.exec, hv]
    cases hp : x.kernel.currentPcb with
    | none => rfl
    | some p =>
      simp only [Option.bind_some, Option.map_some, Option.isSome_some, if_true, view, hp]
      rfl
  | saveX | saveY | clearFirst | setScheduled | setCurrent | testActive | setCursor | load => rfl

lemma run_append {is js : List SchedStmt} : run r (is ++ js) x = (run r is x).bind (run r js) :=
  Loops.runUnder_append

lemma run_view (is : List SchedStmt) (x : Scheduling) :
    (run r is x).map view = Tick.run is x.view := by
  unfold run Tick.run
  apply Loops.runUnder_map
  · intro s x
    rfl
  · exact exec_view

lemma interrupted_view (img : Image) (f : CallFrame) (r : Regs) (i : ℕ)
    (ht : k.initializedTerminals target = true) :
    (interrupted img f r i target k).map Kernel.view =
      ((view ⟨k, 0, false⟩).interrupted i target).map Tick.video := by
  have hrun := run_view (r := r) (body.take i) ⟨k, 0, false⟩
  unfold interrupted Tick.interrupted
  rw [← hrun]
  cases hx : run r (body.take i) ⟨k, 0, false⟩ with
  | none => rfl
  | some x =>
    rw [hx] at hrun
    have hready : x.view.ready = k.initializedTerminals := Tick.run_ready hrun.symm
    have hxt : x.kernel.initializedTerminals target = true := by
      rw [← ht, ← hready]
      rfl
    obtain ⟨k', hk', hv, hinit, hfirst, hpcb⟩ :=
      Kernel.terminalSwitch_view img f hxt
    have hview : view { x with kernel := k' } = x.view.switch target := by
      simp only [view, hv, hinit, hfirst, hpcb]
      rfl
    simp only [Option.bind_some, Option.map_some, hk', ← hview, ← run_view (r := r),
      Option.map_map]
    rfl

/-! ### The whole handler -/

lemma run_reset (k : Kernel) :
    run r (body.take 2) ⟨k, 0, false⟩ = some ⟨k.resetFirstSwap, 0, false⟩ := by
  have hlist : body.take 2 = [.resetScheduled, .clearFirst] := rfl
  have hclear : k.firstSwap = false → { k with firstSwap := false } = k := by
    intro hf
    rw [← hf]
  rw [hlist, Kernel.resetFirstSwap]
  by_cases hf : k.firstSwap = true
  · simp only [run, Loops.runUnder, exec, Option.bind_some, if_pos hf]
  · simp only [run, Loops.runUnder, exec, Option.bind_some, if_neg hf,
      hclear (Bool.eq_false_iff.mpr hf)]

lemma run_save (k : Kernel) : run r ((body.take 6).drop 2) ⟨k, 0, false⟩ =
    k.currentPcb.map fun p => ⟨k.saveContext r p, 0, false⟩ := by
  have hlist : (body.take 6).drop 2 = [.saveEsp, .saveEbp, .saveX, .saveY] := rfl
  rw [hlist]
  cases hp : k.currentPcb with
  | none =>
    simp only [run, Loops.runUnder, exec, Option.bind_some, hp, Option.bind_none, Option.map_none]
  | some p =>
    simp only [run, Loops.runUnder, exec, Option.bind_some, hp, Option.map_some]
    simp [Kernel.saveContext, Kernel.setPcb, Kernel.setTerminal, hp]

lemma run_switchTo (k : Kernel) : (run r (body.drop 6) ⟨k, 0, false⟩).map kernel =
    k.nextScheduled.map fun next => k.switchTo next := by
  have hlist : body.drop 6 = [.findNext, .setScheduled, .setCurrent, .setEsp0, .setPage,
    .testActive, .mapTable, .mapVmem, .setCursor, .load] := rfl
  rw [hlist]
  cases hn : k.nextScheduled with
  | none =>
    simp only [run, Loops.runUnder, exec, Option.bind_some, hn, Option.map_none, Option.bind_none]
  | some next =>
    simp only [run, Loops.runUnder, exec, Option.bind_some, hn, Option.map_some, Kernel.switchTo,
      Paging.mapVideo_eq, Kernel.videoAddress, decide_eq_true_eq]

/-- Without a switch the statements make up `scheduler`. -/
theorem run_scheduler (k : Kernel) :
    (run r body ⟨k, 0, false⟩).map kernel = k.scheduler r := by
  have hlist : body = body.take 2 ++ ((body.take 6).drop 2 ++ body.drop 6) := rfl
  have hpcb : k.resetFirstSwap.currentPcb = k.currentPcb := by
    unfold Kernel.resetFirstSwap
    split_ifs <;> rfl
  have hrun : run r body ⟨k, 0, false⟩ =
      (k.currentPcb.map fun p => ⟨k.resetFirstSwap.saveContext r p, 0, false⟩).bind
        (run r (body.drop 6)) := by
    conv_lhs => rw [hlist, run_append, run_reset, Option.bind_some, run_append, run_save, hpcb]
  rw [hrun]
  unfold Kernel.scheduler
  cases k.currentPcb with
  | none => simp only [Option.map_none, Option.bind_none]
  | some p => rw [Option.map_some, Option.bind_some, run_switchTo, Option.bind_some]

end Scheduling

namespace Kernel

open Scheduling (body)

section Nested

variable {img : Image} {frames : TableFrames} {k k' : Kernel} {f : CallFrame} {r : Regs}
  {target t n : Fin 3} {i : ℕ} {p : ℤ}

/-- The backing pages are mapped to themselves, and terminal 0 is scheduled until the first
tick. -/
structure Mapped (k : Kernel) : Prop where
  backing : ∀ t : Fin 3, k.paging.backingFrame t = 186 + t.val
  first : k.firstSwap = true → k.scheduledTerminal = 0

/-! ### Reachable states -/

lemma backing_of_paged (hk : k.Paged frames) (t : Fin 3) :
    k.paging.backingFrame t = 186 + t.val := by
  obtain ⟨us, hus⟩ := hk.updates
  obtain ⟨pid, console, vidmap, h⟩ := Paging.updates_assigned frames us
  have ht := t.isLt
  have hvideo : terminalVidPage + t.val ≠ videoMemoryPage := by
    simp only [terminalVidPage, videoMemoryPage]
    omega
  have hrange : terminalVidPage ≤ terminalVidPage + t.val ∧
      terminalVidPage + t.val < terminalVidPage + 3 := by
    omega
  rw [Paging.backingFrame, hus, h, Paging.table_assigned, if_neg hvideo, if_pos hrange]
  rfl

def Unswapped (k : Kernel) : Prop := k.firstSwap = true → k.scheduledTerminal = 0

lemma scheduler_unswapped (h : k.scheduler r = some k') : k'.Unswapped := by
  obtain ⟨p, next, -, -, rfl⟩ := scheduler_cases h
  have hfirst : k.resetFirstSwap.firstSwap = false := by
    unfold resetFirstSwap
    split_ifs with hf
    · rfl
    · exact Bool.eq_false_iff.mpr hf
  intro hf
  have hf' : k.resetFirstSwap.firstSwap = true := hf
  rw [hfirst] at hf'
  exact absurd hf' (by simp)

lemma execute_unswapped {command : List UInt8} {res : Option ℤ} (hk : k.Unswapped)
    (h : k.execute img f command = some (k', res)) : k'.Unswapped := by
  rcases execute_cases h with ⟨-, rfl⟩ | ⟨a, mem, -, -, -, -, ⟨rfl, -⟩ | ⟨-, -, hpre, -⟩⟩
  · exact hk
  · exact hk
  · have hinst : (k.installed a mem).Unswapped := hk
    exact preempt_invariant (fun _ _ _ _ hs => scheduler_unswapped hs) hinst hpre

lemma switchScreens_unswapped (hk : k.Unswapped) : (k.switchScreens target).Unswapped := by
  rw [switchScreens_eq]
  exact hk

lemma step_unswapped {e : Event} (hk : k.Unswapped) (h : step img k e = some k') :
    k'.Unswapped := by
  cases e with
  | tick r =>
    simp only [step, pitHandler] at h
    split at h
    · exact scheduler_unswapped h
    · exact Option.some.inj h ▸ hk
  | switch target f =>
    rcases terminalSwitch_cases h with ⟨-, rfl⟩ | ⟨-, -, rfl⟩ | ⟨-, -, res, hex⟩
    · exact hk
    · exact switchScreens_unswapped hk
    · exact execute_unswapped (switchScreens_unswapped hk) hex
  | key c =>
    rcases updateKbBuffer_cases h with ⟨g, rfl, -⟩ | rfl | ⟨-, -, mem, x, y, g, rfl, -⟩
    · exact hk
    · exact hk
    · exact hk
  | clear =>
    obtain ⟨mem, x, y, g, rfl, -⟩ := clearTerminal_cases h
    exact hk
  | execute f command =>
    obtain ⟨⟨k', res⟩, hex, rfl⟩ := Option.map_eq_some_iff.mp h
    exact execute_unswapped hk hex
  | halt f status =>
    obtain ⟨res, hres, rfl⟩ := Option.map_eq_some_iff.mp h
    obtain ⟨p, -, ⟨-, k', pid, hex, rfl⟩ | ⟨-, rfl⟩⟩ := halt_cases hres
    · have hr : ((k.release p).relaunching p).Unswapped := hk
      exact execute_unswapped hr hex
    · exact hk

/-- Every run of the kernel from boot leaves both as a tick expects them. -/
theorem mapped_run {mem : Memory} {x y : ℕ} {es : List Event}
    (h : Runs.Path (step img) (fun _ _ => True) (boot frames mem x y) es k) : k.Mapped := by
  have hpaged : k.Paged frames :=
    h.invariant (fun _ _ _ hk _ hs => step_paged hk hs) (boot_paged frames mem x y)
  have hfirst : k.Unswapped :=
    h.invariant (fun _ _ _ hk _ hs => step_unswapped hk hs) fun _ => rfl
  exact ⟨backing_of_paged hpaged, hfirst⟩

/-! ### Where a switch is harmless -/

/-- The terminal is the first initialised one after the scheduled terminal, round the cycle. -/
def NextUp (k : Kernel) (t : Fin 3) : Prop :=
  ∃ d < 3, k.scheduledTerminal + 1 + Fin.ofNat 3 d = t ∧ k.initializedTerminals t = true ∧
    ∀ l < d, k.initializedTerminals (k.scheduledTerminal + 1 + Fin.ofNat 3 l) = false

/-- Where a switch does no harm: to another terminal, it is not the active terminal's turn while
the old mapping stands, unless the screens the switch mixes up are the same, and neither its
turn nor the target's while the mapping is being written. -/
structure Harmless (target : Fin 3) (i : ℕ) (k : Kernel) : Prop where
  unmapped : body.idxOf .setScheduled < i → i ≤ body.idxOf .testActive →
    k.NextUp k.activeTerminal → k.activeTerminal ≠ target →
    (k.screen k.activeTerminal).bytes = (k.screen target).bytes ∧
      (k.screen k.scheduledTerminal).bytes = (k.screen target).bytes
  chosen : body.idxOf .testActive < i → i ≤ body.idxOf .mapVmem → k.activeTerminal ≠ target →
    ¬k.NextUp k.activeTerminal ∧ ¬k.NextUp target

lemma view_screen (t : Fin 3) : k.view.screen t = k.mem.page (k.screenFrame t) := by
  rw [screenFrame_eq]
  rfl

lemma view_screen_eq_iff {u : Fin 3} :
    k'.view.screen t = k.view.screen u ↔ (k'.screen t).bytes = (k.screen u).bytes := by
  rw [view_screen, view_screen]
  constructor
  · intro h
    funext j
    exact congrFun h j.val
  · intro h
    funext off
    have hlt : off % 4096 < 4096 := Nat.mod_lt _ (by decide)
    have hbyte := congrFun h ⟨off % 4096, hlt⟩
    have hmod : off % 4096 % 4096 = off % 4096 := Nat.mod_mod _ _
    simpa only [screen, Memory.page, align4kb, hmod] using hbyte

lemma view_kept_iff : k.view.Kept k'.view ↔
    (∀ t, (k'.screen t).bytes = (k.screen t).bytes) ∧ k'.VideoMatches := by
  rw [videoMatches_iff]
  constructor
  · intro h
    exact ⟨fun t => view_screen_eq_iff.mp (h.screens t), h.mapping⟩
  · intro h
    exact ⟨fun t => view_screen_eq_iff.mpr (h.1 t), h.2⟩

lemma nextUp_iff (h : k.nextScheduled = some n) : k.NextUp t ↔ n = t := by
  rw [NextUp, ← Loops.search_eq_some, ← nextScheduled, h, Option.some.injEq]

/-- The scheduled terminal comes next only when it is the only initialised one. -/
lemma nextUp_scheduled (h : k.NextUp k.scheduledTerminal)
    (ht : k.initializedTerminals target = true) : target = k.scheduledTerminal := by
  obtain ⟨d, hd, hround, -, hbefore⟩ := h
  by_contra hne
  have hwrap : ∀ s : Fin 3, ∀ d < 3, s + 1 + Fin.ofNat 3 d = s → d = 2 := by decide
  have hothers : ∀ s t : Fin 3, t ≠ s →
      t = s + 1 + Fin.ofNat 3 0 ∨ t = s + 1 + Fin.ofNat 3 1 := by decide
  obtain rfl := hwrap _ d hd hround
  rcases hothers _ _ hne with h | h
  · have hno := hbefore 0 (by omega)
    rw [← h, ht] at hno
    exact absurd hno (by simp)
  · have hno := hbefore 1 (by omega)
    rw [← h, ht] at hno
    exact absurd hno (by simp)

lemma place_setScheduled : body.idxOf .setScheduled = 7 := by decide

lemma place_testActive : body.idxOf .testActive = 11 := by decide

lemma place_mapVmem : body.idxOf .mapVmem = 13 := by decide

lemma harmless_unmapped (hi : 8 ≤ i) (hi' : i ≤ 11) : k.Harmless target i ↔
    (k.NextUp k.activeTerminal → k.activeTerminal ≠ target →
      (k.screen k.activeTerminal).bytes = (k.screen target).bytes ∧
        (k.screen k.scheduledTerminal).bytes = (k.screen target).bytes) := by
  constructor
  · intro h
    apply h.unmapped
    · rw [place_setScheduled]
      exact hi
    · rw [place_testActive]
      exact hi'
  · intro h
    refine ⟨fun _ _ => h, fun hlate => ?_⟩
    rw [place_testActive] at hlate
    omega

lemma harmless_chosen (hi : 12 ≤ i) (hi' : i ≤ 13) : k.Harmless target i ↔
    (k.activeTerminal ≠ target → ¬k.NextUp k.activeTerminal ∧ ¬k.NextUp target) := by
  constructor
  · intro h
    apply h.chosen
    · rw [place_testActive]
      exact hi
    · rw [place_mapVmem]
      exact hi'
  · intro h
    refine ⟨fun _ hearly => ?_, fun _ _ => h⟩
    rw [place_testActive] at hearly
    omega

lemma harmless_outside (hi : i ≤ 7 ∨ 14 ≤ i) : k.Harmless target i := by
  refine ⟨fun h h' => ?_, fun h h' => ?_⟩
  · rw [place_setScheduled] at h
    rw [place_testActive] at h'
    omega
  · rw [place_testActive] at h
    rw [place_mapVmem] at h'
    omega

lemma harmless_view (hk : k.Mapped) (hm : k.view.Matches) {x : Tick} (hx : x.Steady n)
    (hv : x.video = k.view) (hn : k.nextScheduled = some n)
    (ht : k.initializedTerminals target = true) :
    ∃ y, x.interrupted i target = some y ∧ (k.view.Kept y.video ↔ k.Harmless target i) := by
  have hb : k.view.Backed := hk.backing
  have hup : ∀ t, k.NextUp t ↔ n = t := fun t => nextUp_iff hn
  have hwrites : (k.view.active ≠ target → k.view.active ≠ n ∧ target ≠ n) ↔
      (k.activeTerminal ≠ target → ¬k.NextUp k.activeTerminal ∧ ¬k.NextUp target) := by
    rw [hup, hup, eq_comm, eq_comm (a := n) (b := target)]
    rfl
  rcases (by omega : i ≤ 7 ∨ (8 ≤ i ∧ i ≤ 11) ∨ i = 12 ∨ i = 13 ∨ 14 ≤ i) with
    hi | ⟨hi, hi'⟩ | rfl | rfl | hi
  · obtain ⟨y, hy, hyv⟩ := Tick.interrupted_before (u := target) hx hi
    refine ⟨y, hy, fun _ => harmless_outside (Or.inl hi), fun _ => ?_⟩
    rw [hyv, hv]
    exact (Video.switch_kept hm hb).trans Video.tick_kept
  · obtain ⟨y, hy, hyv⟩ := Tick.interrupted_between (u := target) hx hi hi'
    refine ⟨y, hy, ?_⟩
    have hwrap : k.view.active = n → k.view.active ≠ target → n ≠ k.view.scheduled := by
      intro ha hne he
      have hnext := nextUp_scheduled ((hup _).mpr he) ht
      exact hne (ha.trans (he.trans hnext.symm))
    rw [hyv, hv, Video.switch_tick_kept_iff hm hb hwrap, harmless_unmapped hi hi', hup, eq_comm]
    simp only [view_screen_eq_iff]
    rfl
  · obtain ⟨y, hy, hyv⟩ := Tick.interrupted_chosen (u := target) hx
    refine ⟨y, hy, ?_⟩
    rw [hyv, hv, Video.switch_map_kept_iff hb, hwrites, harmless_chosen le_rfl (by omega)]
  · obtain ⟨y, hy, hyv⟩ := Tick.interrupted_half (u := target) hx
    refine ⟨y, hy, ?_⟩
    rw [hyv, hv, Video.switch_half_kept_iff hb, hwrites, harmless_chosen (by omega) le_rfl]
  · obtain ⟨y, hy, hyv⟩ := Tick.interrupted_after (u := target) hx hi
    refine ⟨y, hy, fun _ => harmless_outside (Or.inr hi), fun _ => ?_⟩
    have hmatch : (k.view.tick n).Matches := Video.tick_kept.mapping
    rw [hyv, hv]
    exact Video.tick_kept.trans (Video.switch_kept hmatch hb)

/-- A switch to an initialised terminal between two statements of `scheduler` completes with it.
The screens then show what they showed, under a matching mapping, if and only if the place was
harmless. -/
theorem nestedSwitch_kept_iff (hk : k.Mapped) (hm : k.VideoMatches) (hp : k.currentPcb = some p)
    (ht : k.initializedTerminals target = true) :
    ∃ k', Scheduling.interrupted img f r i target k = some k' ∧
      (((∀ t, (k'.screen t).bytes = (k.screen t).bytes) ∧ k'.VideoMatches) ↔
        k.Harmless target i) := by
  obtain ⟨n, hn⟩ : ∃ n, k.nextScheduled = some n := Loops.search_full ht
  have hx : (Scheduling.view ⟨k, 0, false⟩).Steady n :=
    ⟨hk.first, congrArg Option.isSome hp, hn⟩
  obtain ⟨y, hy, hkept⟩ :=
    harmless_view (i := i) hk (videoMatches_iff.mp hm) hx rfl hn ht
  have hview := Scheduling.interrupted_view img f r i ht
  rw [hy, Option.map_some] at hview
  obtain ⟨k', hk', hv⟩ := Option.map_eq_some_iff.mp hview
  refine ⟨k', hk', ?_⟩
  rw [← view_kept_iff, hv]
  exact hkept

/-- A screen full of boot messages. -/
def bootScreen : Memory := fun a => if a / align4kb = video / align4kb then 65 else 0

/-- A shell in each of two terminals, and a tick that schedules the one off the screen. -/
def twoShells : List Event :=
  [.execute bareFrame shellCommand, .tick ⟨0, 0⟩, .switch 1 bareFrame, .tick ⟨0, 0⟩]

/-- A tick is about to schedule the terminal on the screen. -/
lemma twoShells_run : ∃ k, Runs.Path (step shellImage) (fun _ _ => True)
    (boot ⟨0, 0⟩ bootScreen 0 0) twoShells k ∧ k.VideoMatches ∧ k.currentPcb = some 0 ∧
    k.initializedTerminals 0 = true ∧
    ∃ k', Scheduling.interrupted shellImage bareFrame ⟨0, 0⟩ 8 0 k = some k' ∧
      (k.screen 1).bytes 0 = 0 ∧ (k'.screen 1).bytes 0 = 65 := by
  have hend : ((Runs.run (step shellImage) (fun _ _ => True)
      (boot ⟨0, 0⟩ bootScreen 0 0) twoShells).bind fun k =>
      (Scheduling.interrupted shellImage bareFrame ⟨0, 0⟩ 8 0 k).map fun k' => decide
        ((k.paging.videoFrame = k.paging.vidmapFrame ∧ k.paging.videoFrame =
            if k.scheduledTerminal = k.activeTerminal then 184 else 186 + k.scheduledTerminal.val) ∧
          k.currentPcb = some 0 ∧ k.initializedTerminals 0 = true ∧
          (k.screen 1).bytes 0 = 0 ∧ (k'.screen 1).bytes 0 = 65)) = some true := by
    decide +kernel
  obtain ⟨k, hk, h⟩ := Option.bind_eq_some_iff.mp hend
  obtain ⟨k', hk', hok⟩ := Option.map_eq_some_iff.mp h
  obtain ⟨hmap, hp, ht, hbefore, hafter⟩ := of_decide_eq_true hok
  exact ⟨k, Runs.path_of_run hk, videoMatches_iff.mpr hmap, hp, ht, k', hk', hbefore, hafter⟩

/-- A switch to the terminal off the screen just after `scheduler` has picked the one on it puts
the wrong screen into the backing page. -/
theorem nestedSwitch_mixes_screens : ∃ k k', Runs.Path (step shellImage) (fun _ _ => True)
    (boot ⟨0, 0⟩ bootScreen 0 0) twoShells k ∧ k.VideoMatches ∧ k.currentPcb.isSome ∧
    k.initializedTerminals 0 = true ∧
    Scheduling.interrupted shellImage bareFrame ⟨0, 0⟩ (body.idxOf .setScheduled + 1) 0 k =
      some k' ∧
    ¬((∀ t, (k'.screen t).bytes = (k.screen t).bytes) ∧ k'.VideoMatches) := by
  obtain ⟨k, hpath, hm, hp, ht, k', hk', hbefore, hafter⟩ := twoShells_run
  refine ⟨k, k', hpath, hm, hp ▸ rfl, ht, hk', fun h => ?_⟩
  have hsame := congrFun (h.1 1) 0
  rw [hbefore, hafter] at hsame
  exact absurd hsame (by decide)

theorem nestedSwitch_kept_iff_before : ∃ k k', Runs.Path (step shellImage) (fun _ _ => True)
    (boot ⟨0, 0⟩ bootScreen 0 0) twoShells k ∧
    Scheduling.interrupted shellImage bareFrame ⟨0, 0⟩ 0 0 k = some k' ∧
    (∀ t, (k'.screen t).bytes = (k.screen t).bytes) ∧ k'.VideoMatches := by
  obtain ⟨k, hpath, hm, hp, ht, -⟩ := twoShells_run
  obtain ⟨k', hk', hiff⟩ := nestedSwitch_kept_iff (mapped_run hpath) hm hp ht
  exact ⟨k, k', hpath, hk', hiff.mpr (harmless_outside (Or.inl (by omega)))⟩

end Nested

end Kernel

end HalOs
