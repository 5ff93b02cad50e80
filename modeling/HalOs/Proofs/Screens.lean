import HalOs.Proofs.VideoMapping

/-!
# One screen for each terminal

A terminal's screen is the physical one while it is active and its backing page otherwise,
and its cursor is the live one while it is scheduled and the saved one otherwise. Ticks and
switches move these around, and only the output of a terminal's own processes changes what
they show.
-/

namespace HalOs

/-- The bytes of one video page and a cursor. -/
@[ext] structure Screen where
  bytes : Fin 4096 → UInt8
  x : ℕ
  y : ℕ

inductive ScreenEvent where
  | tick (r : Regs)
  | switch (target : Fin 3) (f : CallFrame)
  | output (write : Screen → Screen)

namespace Kernel

/-- The frame of a terminal's screen. -/
def screenFrame (k : Kernel) (t : Fin 3) : ℕ :=
  if t = k.activeTerminal then video / align4kb
  else (terminalVideo + align4kb * t.val) / align4kb

def screen (k : Kernel) (t : Fin 3) : Screen where
  bytes i := k.mem.page (k.screenFrame t) i
  x := if t = k.scheduledTerminal then k.screenX else (k.terminals t).terminalScreenX
  y := if t = k.scheduledTerminal then k.screenY else (k.terminals t).terminalScreenY

/-- What the scheduled process sees behind the video page. -/
def mappedScreen (k : Kernel) : Screen where
  bytes i := k.mem.page k.paging.videoFrame i
  x := k.screenX
  y := k.screenY

/-- The scheduled process changes the mapped page and the cursor, which stays on the screen. -/
def output (write : Screen → Screen) (k : Kernel) : Option Kernel :=
  let s := write k.mappedScreen
  if s.x < numCols ∧ s.y < numRows then
    some { k with
      mem := k.mem.setPage k.paging.videoFrame fun off => s.bytes (Fin.ofNat 4096 off)
      screenX := s.x
      screenY := s.y }
  else none

def screenStep (img : Image) (k : Kernel) : ScreenEvent → Option Kernel
  | .tick r => k.pitHandler r
  | .switch target f => k.terminalSwitch img f target
  | .output write => k.output write

/-- The output of a step, under the terminal it belongs to. -/
def outputs (k : Kernel) : ScreenEvent → List (Fin 3 × (Screen → Screen))
  | .output write => [(k.scheduledTerminal, write)]
  | _ => []

/-- All terminals are initialised, the video page is mapped for the scheduled one, the backing
pages are where `init_paging` puts them, and every cursor fits in a byte. -/
structure ScreensReady (k : Kernel) : Prop where
  initialized : ∀ t, k.initializedTerminals t = true
  swapped : k.firstSwap = false
  mapping : k.VideoMatches
  backing : ∀ t : Fin 3,
    k.paging.backingFrame t = (terminalVideo + align4kb * t.val) / align4kb
  saved : ∀ t, (k.terminals t).terminalScreenX < 256 ∧ (k.terminals t).terminalScreenY < 256
  live : k.screenX < 256 ∧ k.screenY < 256

section Screens

variable {img : Image} {k k' : Kernel} {r : Regs} {f : CallFrame} {target t u : Fin 3}
  {write : Screen → Screen}

lemma screenFrame_eq : k.screenFrame t = if t = k.activeTerminal then 184 else 186 + t.val := by
  unfold screenFrame
  split_ifs
  · rfl
  · simp only [terminalVideo, align4kb]
    omega

lemma screenFrame_injective (k : Kernel) : Function.Injective k.screenFrame := by
  intro t u h
  rw [screenFrame_eq, screenFrame_eq] at h
  by_cases ht : t = k.activeTerminal
  · by_cases hu : u = k.activeTerminal
    · rw [ht, hu]
    · rw [if_pos ht, if_neg hu] at h
      omega
  · by_cases hu : u = k.activeTerminal
    · rw [if_neg ht, if_pos hu] at h
      omega
    · rw [if_neg ht, if_neg hu] at h
      apply Fin.ext
      omega

lemma videoFrame_eq (hk : k.VideoMatches) :
    k.paging.videoFrame = k.screenFrame k.scheduledTerminal := by
  rw [(videoMatches_iff.mp hk).2, screenFrame_eq]

lemma mappedScreen_eq (hk : k.VideoMatches) : k.mappedScreen = k.screen k.scheduledTerminal := by
  unfold mappedScreen screen
  rw [videoFrame_eq hk]
  simp only [if_true]

/-! ### Output -/

lemma output_ready (hk : k.ScreensReady) (h : k.output write = some k') : k'.ScreensReady := by
  unfold output at h
  dsimp only at h
  split at h
  · rename_i hc
    obtain rfl := Option.some.inj h
    have hx : (write k.mappedScreen).x < 256 := lt_of_lt_of_le hc.1 (by decide)
    have hy : (write k.mappedScreen).y < 256 := lt_of_lt_of_le hc.2 (by decide)
    exact ⟨hk.initialized, hk.swapped, videoMatches_of_eq hk.mapping rfl rfl rfl rfl, hk.backing,
      hk.saved, hx, hy⟩
  · exact absurd h (by simp)

/-- Output changes the screen of the scheduled terminal and no other. -/
lemma output_screen (hk : k.ScreensReady) (h : k.output write = some k') (t : Fin 3) :
    k'.screen t = if t = k.scheduledTerminal then write (k.screen t) else k.screen t := by
  unfold output at h
  dsimp only at h
  split at h
  · obtain rfl := Option.some.inj h
    rw [mappedScreen_eq hk.mapping, videoFrame_eq hk.mapping]
    by_cases ht : t = k.scheduledTerminal
    · subst ht
      rw [if_pos rfl]
      have hpage := k.mem.page_setPage_self (k.screenFrame k.scheduledTerminal)
        fun off => (write (k.screen k.scheduledTerminal)).bytes (Fin.ofNat 4096 off)
      apply Screen.ext
      · funext i
        have hi : Fin.ofNat 4096 (i.val % align4kb) = i := by
          apply Fin.ext
          have hlt := i.isLt
          simp only [align4kb, Fin.val_ofNat]
          omega
        have hbyte := congrFun hpage i.val
        rw [hi] at hbyte
        exact hbyte
      · simp [screen]
      · simp [screen]
    · rw [if_neg ht]
      have hne : k.screenFrame t ≠ k.screenFrame k.scheduledTerminal :=
        fun he => ht (k.screenFrame_injective he)
      have hpage := k.mem.page_setPage_of_ne (k.screenFrame k.scheduledTerminal)
        (k.screenFrame t)
        (fun off => (write (k.screen k.scheduledTerminal)).bytes (Fin.ofNat 4096 off)) hne
      apply Screen.ext
      · funext i
        exact congrFun hpage i.val
      · simp [screen, ht]
      · simp [screen, ht]
  · exact absurd h (by simp)

/-! ### Ticks -/

lemma screen_cursor_lt (hk : k.ScreensReady) (t : Fin 3) :
    (k.screen t).x < 256 ∧ (k.screen t).y < 256 := by
  unfold screen
  by_cases ht : t = k.scheduledTerminal
  · simp only [if_pos ht]
    exact hk.live
  · simp only [if_neg ht]
    exact hk.saved t

/-- A tick saves the live cursor of the old terminal and loads that of the new one. -/
lemma scheduler_cursors (hk : k.ScreensReady) (h : k.scheduler r = some k') : ∃ next,
    k'.scheduledTerminal = next ∧ k'.firstSwap = false ∧
      (∀ t, (k'.terminals t).terminalScreenX = (k.screen t).x ∧
        (k'.terminals t).terminalScreenY = (k.screen t).y) ∧
      k'.screenX = (k.screen next).x ∧ k'.screenY = (k.screen next).y := by
  obtain ⟨p, next, -, -, rfl⟩ := scheduler_cases h
  have hreset : k.resetFirstSwap = k := if_neg (by simp [hk.swapped])
  rw [hreset]
  have hcursor : ∀ t, ((k.saveContext r p).terminals t).terminalScreenX = (k.screen t).x ∧
      ((k.saveContext r p).terminals t).terminalScreenY = (k.screen t).y := by
    intro t
    by_cases ht : t = k.scheduledTerminal
    · subst ht
      simp [saveContext, setTerminal, setPcb, screen]
    · simp [saveContext, setTerminal, setPcb, screen, ht]
  have hbyte := screen_cursor_lt hk next
  refine ⟨next, rfl, hk.swapped, hcursor, ?_, ?_⟩
  · have hx := (hcursor next).1
    simp only [switchTo, hx]
    exact Nat.mod_eq_of_lt hbyte.1
  · have hy := (hcursor next).2
    simp only [switchTo, hy]
    exact Nat.mod_eq_of_lt hbyte.2

lemma tick_ready (hk : k.ScreensReady) (h : k.pitHandler r = some k') : k'.ScreensReady := by
  unfold pitHandler at h
  split at h
  · obtain ⟨-, -, hinit, hback⟩ := scheduler_memory h
    obtain ⟨next, -, hswap, hsaved, hx, hy⟩ := scheduler_cursors hk h
    have hlt := screen_cursor_lt hk
    refine ⟨?_, hswap, scheduler_videoMatches h, ?_, fun t => ?_, ?_⟩
    · rw [hinit]
      exact hk.initialized
    · intro t
      rw [hback]
      exact hk.backing t
    · rw [(hsaved t).1, (hsaved t).2]
      exact hlt t
    · rw [hx, hy]
      exact hlt next
  · exact Option.some.inj h ▸ hk

lemma tick_screen (hk : k.ScreensReady) (h : k.pitHandler r = some k') (t : Fin 3) :
    k'.screen t = k.screen t := by
  unfold pitHandler at h
  split at h
  · obtain ⟨hmem, hact, -, -⟩ := scheduler_memory h
    obtain ⟨next, hsched, -, hsaved, hx, hy⟩ := scheduler_cursors hk h
    have hframe : k'.screenFrame t = k.screenFrame t := by
      unfold screenFrame
      rw [hact]
    apply Screen.ext
    · unfold screen
      rw [hmem, hframe]
    · by_cases ht : t = next
      · subst ht
        exact (if_pos hsched.symm).trans hx
      · exact (if_neg fun he => ht (he.trans hsched)).trans (hsaved t).1
    · by_cases ht : t = next
      · subst ht
        exact (if_pos hsched.symm).trans hy
      · exact (if_neg fun he => ht (he.trans hsched)).trans (hsaved t).2
  · rw [Option.some.inj h]

/-! ### Switches -/

lemma copyPaging_backing (t : Fin 3) :
    k.copyPaging.backingFrame t = k.paging.backingFrame t := by
  unfold copyPaging
  split_ifs <;> simp

lemma copyPaging_video (hk : k.VideoMatches) : k.copyPaging.videoFrame = 184 := by
  unfold copyPaging
  by_cases ha : k.activeTerminal ≠ k.scheduledTerminal
  · rw [if_pos ha]
    exact Paging.videoFrame_mapVideo _ _
  · rw [if_neg ha, (videoMatches_iff.mp hk).2, if_pos (not_not.mp ha).symm]

lemma switchScreens_ready (hk : k.ScreensReady) (hne : k.activeTerminal ≠ target) :
    (k.switchScreens target).ScreensReady := by
  have hmatch := switchScreens_videoMatches hk.mapping hne
  rw [switchScreens_eq] at hmatch ⊢
  refine ⟨hk.initialized, hk.swapped, hmatch, fun t => ?_, hk.saved, hk.live⟩
  have hback : (k.switchedPaging target).backingFrame t = k.paging.backingFrame t := by
    unfold switchedPaging
    split_ifs <;> simp [copyPaging_backing]
  exact hback.trans (hk.backing t)

/-- The old terminal's screen moves to its backing page and the new one's comes from there. -/
lemma switchScreens_screen (hk : k.ScreensReady) (hne : k.activeTerminal ≠ target) (t : Fin 3) :
    (k.switchScreens target).screen t = k.screen t := by
  have hframe : ∀ u : Fin 3, k.copyPaging.backingFrame u = 186 + u.val := by
    intro u
    rw [copyPaging_backing, hk.backing]
    simp only [terminalVideo, align4kb]
    omega
  have hpage : (k.switchScreens target).mem.page ((k.switchScreens target).screenFrame t) =
      k.mem.page (k.screenFrame t) := by
    rw [switchScreens_eq, screenFrame_eq, screenFrame_eq, copyPaging_video hk.mapping, hframe,
      hframe]
    dsimp only
    by_cases ht : t = target
    · have hta : t ≠ k.activeTerminal := fun he => hne (he.symm.trans ht)
      have hfr : 186 + target.val ≠ 186 + k.activeTerminal.val := by
        intro he
        apply hne
        apply Fin.ext
        omega
      rw [if_pos ht, if_neg hta, Memory.page_copyPage_self, ht]
      exact Memory.page_copyPage_of_ne _ _ _ _ hfr
    · rw [if_neg ht, Memory.page_copyPage_of_ne _ _ _ _ (by omega)]
      by_cases hta : t = k.activeTerminal
      · rw [if_pos hta, hta]
        exact Memory.page_copyPage_self _ _ _
      · have hfr : 186 + t.val ≠ 186 + k.activeTerminal.val := by
          intro he
          apply hta
          apply Fin.ext
          omega
        rw [if_neg hta]
        exact Memory.page_copyPage_of_ne _ _ _ _ hfr
  apply Screen.ext
  · funext i
    exact congrFun hpage i.val
  · rw [switchScreens_eq]
    rfl
  · rw [switchScreens_eq]
    rfl

lemma switch_screens (hk : k.ScreensReady) (h : k.terminalSwitch img f target = some k') :
    k'.ScreensReady ∧ ∀ t, k'.screen t = k.screen t := by
  rcases terminalSwitch_cases h with ⟨-, rfl⟩ | ⟨hne, -, rfl⟩ | ⟨-, hno, -⟩
  · exact ⟨hk, fun _ => rfl⟩
  · exact ⟨switchScreens_ready hk hne, switchScreens_screen hk hne⟩
  · exact absurd (hno.symm.trans (hk.initialized target)) (by simp)

/-! ### Runs -/

lemma screenStep_ready {e : ScreenEvent} (hk : k.ScreensReady)
    (h : screenStep img k e = some k') : k'.ScreensReady := by
  cases e with
  | tick r => exact tick_ready hk h
  | switch target f => exact (switch_screens hk h).1
  | output write => exact output_ready hk h

lemma screenStep_screen {e : ScreenEvent} (hk : k.ScreensReady)
    (h : screenStep img k e = some k') :
    k'.screen = (k.outputs e).foldl (Runs.component fun s write => write s) k.screen := by
  funext t
  cases e with
  | tick r => exact tick_screen hk h t
  | switch target f => exact (switch_screens hk h).2 t
  | output write =>
    rw [output_screen hk h t]
    simp only [outputs, List.foldl_cons, List.foldl_nil, Runs.component]
    by_cases ht : t = k.scheduledTerminal
    · subst ht
      simp
    · simp [ht]

/-- Over any sequence of ticks, switches and output, the screen and cursor of each terminal
end as its own output alone makes them. -/
theorem screens_run {es : List ScreenEvent} (hk : k.ScreensReady)
    (h : Runs.Path (screenStep img) (fun _ _ => True) k es k') (t : Fin 3) :
    k'.screen t = (Runs.outputsOf t (Runs.trace (screenStep img) outputs k es)).foldl
      (fun s write => write s) (k.screen t) := by
  rw [h.simulates screen (fun _ _ _ hk _ hs => screenStep_ready hk hs)
    (fun _ _ _ hk _ hs => screenStep_screen hk hs) hk]
  exact Runs.component_foldl _ _ _ t

/-- The boot shell and the shells of two further terminals. -/
def threeShells : List Event :=
  [.execute bareFrame shellCommand, .switch 1 bareFrame, .switch 2 bareFrame]

/-- A letter is written at the cursor's byte, the terminal is switched away from, and another
process writes. -/
def twoWriters : List ScreenEvent :=
  [.output fun s => { s with bytes := Function.update s.bytes 0 65, x := 1 },
    .switch 0 bareFrame, .tick ⟨0, 0⟩,
    .output fun s => { s with bytes := Function.update s.bytes 0 66, x := 2 }]

theorem screens_run_writers : ∃ k k' : Kernel, k.ScreensReady ∧
    Runs.Path (screenStep shellImage) (fun _ _ => True) k twoWriters k' ∧
    ∀ t, k'.screen t = (Runs.outputsOf t (Runs.trace (screenStep shellImage) outputs k
      twoWriters)).foldl (fun s write => write s) (k.screen t) := by
  let start := boot ⟨0, 0⟩ (fun _ => 0) 0 0
  have hend : ((Runs.run (step shellImage) (fun _ _ => True) start threeShells).bind fun k =>
      (Runs.run (screenStep shellImage) (fun _ _ => True) k twoWriters).map fun _ => decide
        ((∀ t, k.initializedTerminals t = true) ∧ k.firstSwap = false ∧
          (k.paging.videoFrame = k.paging.vidmapFrame ∧ k.paging.videoFrame =
            if k.scheduledTerminal = k.activeTerminal then 184 else 186 + k.scheduledTerminal.val) ∧
          (∀ t : Fin 3, k.paging.backingFrame t = (terminalVideo + align4kb * t.val) / align4kb) ∧
          (∀ t, (k.terminals t).terminalScreenX < 256 ∧ (k.terminals t).terminalScreenY < 256) ∧
          (k.screenX < 256 ∧ k.screenY < 256))) = some true := by
    decide +kernel
  obtain ⟨k, -, hk⟩ := Option.bind_eq_some_iff.mp hend
  obtain ⟨k', hk', hok⟩ := Option.map_eq_some_iff.mp hk
  obtain ⟨hinit, hswap, hmap, hback, hsaved, hlive⟩ := of_decide_eq_true hok
  have hready : k.ScreensReady := ⟨hinit, hswap, videoMatches_iff.mpr hmap, hback, hsaved, hlive⟩
  have hpath := Runs.path_of_run hk'
  exact ⟨k, k', hready, hpath, fun t => screens_run hready hpath t⟩

end Screens

end Kernel

end HalOs
