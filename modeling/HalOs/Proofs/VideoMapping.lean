import HalOs.Proofs.Handlers

/-!
# The video mapping

Output goes to the page that entry 184 of the page table maps, and user programs see it
through entry 10 of the `vidmap` table. The mapping matches when both entries hold the
frame where the output of the scheduled terminal belongs. Ticks and switches keep it
matched. A Backspace or Ctrl-L handled while the scheduled terminal is on the screen leaves
both entries on its backing page, and a process that takes PID 0 moves the screen to
terminal 0 without mapping it.
-/

namespace HalOs

namespace Kernel

/-- Both video entries name the physical screen exactly when the scheduled terminal is the
active one, and the backing page of the scheduled terminal otherwise. -/
structure VideoMatches (k : Kernel) : Prop where
  same : k.paging.videoFrame = k.paging.vidmapFrame
  onScreen : k.paging.videoFrame = video / align4kb ↔ k.scheduledTerminal = k.activeTerminal
  backing : k.scheduledTerminal ≠ k.activeTerminal →
    k.paging.videoFrame = (terminalVideo + align4kb * k.scheduledTerminal.val) / align4kb

section Frames

variable {img : Image} {k k' : Kernel} {r : Regs} {f : CallFrame} {target : Fin 3}

lemma backing_frame (t : Fin 3) :
    offsetField ((terminalVideo + align4kb * t.val) / align4kb) = 186 + t.val := by
  have ht := t.isLt
  simp only [offsetField, terminalVideo, align4kb]
  omega

lemma screen_frame : offsetField (video / align4kb) = 184 := rfl

lemma videoAddress_frame (active scheduled : Fin 3) :
    offsetField (videoAddress active scheduled / align4kb) =
      if scheduled = active then 184 else 186 + scheduled.val := by
  unfold videoAddress
  split_ifs with h
  · exact screen_frame
  · exact backing_frame scheduled

/-- The mapping matches when both entries hold the frame the scheduler would choose. -/
lemma videoMatches_iff : k.VideoMatches ↔
    k.paging.videoFrame = k.paging.vidmapFrame ∧ k.paging.videoFrame =
      if k.scheduledTerminal = k.activeTerminal then 184 else 186 + k.scheduledTerminal.val := by
  have hb := k.scheduledTerminal.isLt
  have hframe : (terminalVideo + align4kb * k.scheduledTerminal.val) / align4kb =
      186 + k.scheduledTerminal.val := by
    simp only [terminalVideo, align4kb]
    omega
  have hscreen : video / align4kb = 184 := rfl
  constructor
  · intro h
    refine ⟨h.same, ?_⟩
    split_ifs with ha
    · exact h.onScreen.mpr ha
    · rw [h.backing ha, hframe]
  · rintro ⟨hs, hf⟩
    split_ifs at hf with ha
    · exact ⟨hs, by simp [hscreen, hf, ha], fun hne => absurd ha hne⟩
    · refine ⟨hs, ?_, fun _ => by rw [hf, hframe]⟩
      rw [hscreen, hf]
      constructor
      · intro h184
        omega
      · intro h184
        exact absurd h184 ha

lemma videoMatches_of_eq (h : k.VideoMatches) (hp : k'.paging.videoFrame = k.paging.videoFrame)
    (hv : k'.paging.vidmapFrame = k.paging.vidmapFrame)
    (ha : k'.activeTerminal = k.activeTerminal)
    (hs : k'.scheduledTerminal = k.scheduledTerminal) : k'.VideoMatches := by
  obtain ⟨hsame, hframe⟩ := videoMatches_iff.mp h
  rw [videoMatches_iff, hp, hv, ha, hs]
  exact ⟨hsame, hframe⟩

lemma videoMatches_mapVideo {p : Paging} (hp : k.paging =
    p.mapVideo (videoAddress k.activeTerminal k.scheduledTerminal)) : k.VideoMatches := by
  rw [videoMatches_iff, hp]
  simp only [Paging.videoFrame_mapVideo, Paging.vidmapFrame_mapVideo, videoAddress_frame,
    and_self]

/-- After the keyboard has restored the backing page the mapping matches if and only if the
scheduled terminal is off the screen. -/
lemma videoMatches_restored {p : Paging} (hp : k.paging =
    p.mapVideo (terminalVideo + align4kb * k.scheduledTerminal.val)) :
    k.VideoMatches ↔ k.activeTerminal ≠ k.scheduledTerminal := by
  rw [videoMatches_iff, hp]
  simp only [Paging.videoFrame_mapVideo, Paging.vidmapFrame_mapVideo, backing_frame, true_and]
  split_ifs with ha
  · rw [ha]
    constructor
    · intro h
      omega
    · intro h
      exact absurd rfl h
  · exact ⟨fun _ h => ha h.symm, fun _ => rfl⟩

/-! ### Ticks and switches -/

/-- A tick maps the terminal it schedules, whatever was mapped before. -/
lemma scheduler_videoMatches (h : k.scheduler r = some k') : k'.VideoMatches := by
  obtain ⟨p, next, -, -, rfl⟩ := scheduler_cases h
  apply videoMatches_mapVideo
  have ha : ((k.resetFirstSwap.saveContext r p).switchTo next).activeTerminal =
      (k.resetFirstSwap.saveContext r p).activeTerminal := rfl
  rw [ha]
  rfl

lemma pitHandler_videoMatches (hk : k.VideoMatches) (h : k.pitHandler r = some k') :
    k'.VideoMatches := by
  unfold pitHandler at h
  split at h
  · exact scheduler_videoMatches h
  · exact Option.some.inj h ▸ hk

lemma preempt_videoMatches {p : ℤ} (hp : k.currentPcb = some p)
    (h : k.preempt r = some k') : k'.VideoMatches :=
  (preempt_cases (Q := fun _ => True) (fun _ _ _ _ hs => scheduler_videoMatches hs)
    (fun _ _ => trivial) trivial hp h).1

/-- The screens move under a matching mapping, and the mapping follows the new screen. -/
lemma switchScreens_videoMatches (hk : k.VideoMatches) (hne : k.activeTerminal ≠ target) :
    (k.switchScreens target).VideoMatches := by
  obtain ⟨hsame, hframe⟩ := videoMatches_iff.mp hk
  rw [switchScreens_eq]
  by_cases ht : target ≠ k.scheduledTerminal
  · apply (videoMatches_restored (p := k.copyPaging) (if_pos ht)).mpr
    exact ht
  · have hsched : k.scheduledTerminal = target := (not_not.mp ht).symm
    have ha : k.activeTerminal ≠ k.scheduledTerminal := hsched ▸ hne
    have hp : k.switchedPaging target = k.paging.mapVideo video := by
      simp only [switchedPaging, if_neg ht, copyPaging, if_pos ha]
    rw [videoMatches_iff]
    simp only [hp, Paging.videoFrame_mapVideo, Paging.vidmapFrame_mapVideo, screen_frame, hsched,
      if_true, and_self]

/-! ### New processes -/

/-- A new process moves the screen only when it takes PID 0. -/
lemma installed_videoMatches {a : Activation} {mem : Memory} (hk : k.VideoMatches)
    (hz : a.pid = 0 → k.activeTerminal = 0 ∨
      (k.scheduledTerminal ≠ 0 ∧ k.scheduledTerminal ≠ k.activeTerminal)) :
    (k.installed a mem).VideoMatches := by
  by_cases h0 : a.pid = 0
  · rcases hz h0 with ha | ⟨hs0, hsa⟩
    · have hact : (k.installed a mem).activeTerminal = k.activeTerminal := by
        simp only [installed, h0, if_true, ha]
      exact videoMatches_of_eq hk rfl rfl hact rfl
    · obtain ⟨hsame, hframe⟩ := videoMatches_iff.mp hk
      rw [videoMatches_iff]
      rw [if_neg hsa] at hframe
      simp only [installed, h0, if_true, Paging.videoFrame_mapUser, Paging.vidmapFrame_mapUser,
        if_neg hs0]
      exact ⟨hsame, hframe⟩
  · have hact : (k.installed a mem).activeTerminal = k.activeTerminal := by
      simp only [installed, h0, if_false]
    exact videoMatches_of_eq hk rfl rfl hact rfl

lemma execute_videoMatches {command : List UInt8} {res : Option ℤ} (hk : k.VideoMatches)
    (hz : k.choosePid = some 0 → k.activeTerminal = 0 ∨
      (k.scheduledTerminal ≠ 0 ∧ k.scheduledTerminal ≠ k.activeTerminal))
    (h : k.execute img f command = some (k', res)) : k'.VideoMatches := by
  rcases execute_cases h with ⟨-, rfl⟩ | ⟨a, mem, hpid, -, -, -, ⟨rfl, -⟩ | ⟨-, -, hpre, -⟩⟩
  · exact hk
  · exact installed_videoMatches hk fun h0 => hz (h0 ▸ hpid)
  · exact preempt_videoMatches rfl hpre

lemma choosePid_uninitialised (hi : k.initializedTerminals k.activeTerminal = false)
    (h : k.choosePid = some 0) : k.activeTerminal = 0 := by
  simp only [choosePid, hi, Bool.false_eq_true, if_false, Option.some.injEq] at h
  apply Fin.ext
  simpa using h

lemma terminalSwitch_videoMatches (hk : k.VideoMatches)
    (h : k.terminalSwitch img f target = some k') : k'.VideoMatches := by
  rcases terminalSwitch_cases h with ⟨-, rfl⟩ | ⟨hne, -, rfl⟩ | ⟨hne, hi, res, hex⟩
  · exact hk
  · exact switchScreens_videoMatches hk hne
  · apply execute_videoMatches (switchScreens_videoMatches hk hne) _ hex
    intro hpid
    refine Or.inl (choosePid_uninitialised ?_ hpid)
    rw [switchScreens_eq]
    exact hi

/-! ### Ending processes -/

/-- Whether PID 0 is free once the PCB `p` has been given up. -/
def freesZero (p : ℤ) (k : Kernel) : Prop := p = 0 ∨ (k.pcbs 0).inUse ≠ 1

lemma relaunching_choosePid {p : ℤ}
    (h : ((k.release p).relaunching p).choosePid = some 0) :
    k.activeTerminal = 0 ∨ (k.initializedTerminals k.activeTerminal = true ∧ k.freesZero p) := by
  by_cases hi : k.initializedTerminals k.activeTerminal = true
  · refine Or.inr ⟨hi, ?_⟩
    have hget : ((k.release p).relaunching p).getPid = some 0 := by
      have hi' : ((k.release p).relaunching p).initializedTerminals
          ((k.release p).relaunching p).activeTerminal = true := hi
      rw [choosePid, if_pos hi'] at h
      exact h
    obtain ⟨i, hfind, h0⟩ := Option.map_eq_some_iff.mp hget
    obtain rfl : i = 0 := by exact_mod_cast h0
    have huse := List.find?_some hfind
    by_contra hz
    obtain ⟨hp, h0⟩ := not_or.mp hz
    have hp0 : (0 : ℤ) ≠ p := fun he => hp he.symm
    simp [relaunching, forgetIds, setPcb, release, hp0, not_not.mp h0] at huse
  · exact Or.inl (choosePid_uninitialised (k := (k.release p).relaunching p)
      (Bool.eq_false_iff.mpr hi) h)

lemma halt_videoMatches {status : UInt8} {res : Halted} (hk : k.VideoMatches)
    (hz : ∀ p, k.currentPcb = some p → (k.pcbs p).processId < maxTerminals →
      k.initializedTerminals k.activeTerminal = true → k.freesZero p → k.activeTerminal = 0 ∨
      (k.scheduledTerminal ≠ 0 ∧ k.scheduledTerminal ≠ k.activeTerminal))
    (h : k.halt img f status = some res) : res.kernel.VideoMatches := by
  obtain ⟨p, hp, ⟨hlt, k', pid, hex, rfl⟩ | ⟨-, rfl⟩⟩ := halt_cases h
  · have hr : ((k.release p).relaunching p).VideoMatches :=
      videoMatches_of_eq hk rfl rfl rfl rfl
    refine execute_videoMatches hr (fun hpid => ?_) hex
    rcases relaunching_choosePid hpid with ha | ⟨hi, hf⟩
    · exact Or.inl ha
    · exact hz p hp hlt hi hf
  · exact videoMatches_of_eq hk rfl rfl rfl rfl

/-! ### The keyboard -/

/-- Ctrl-L leaves a matching mapping if and only if the scheduled terminal is off the screen. -/
theorem clearTerminal_videoMatches_iff (h : k.clearTerminal = some k') :
    k'.VideoMatches ↔ k.activeTerminal ≠ k.scheduledTerminal := by
  obtain ⟨mem, x, y, g, rfl, -⟩ := clearTerminal_cases h
  exact videoMatches_restored rfl

/-- A key that a waiting line does not absorb leaves a matching mapping if and only if it is
no Backspace or the scheduled terminal is off the screen. -/
theorem updateKbBuffer_videoMatches_iff {c : UInt8} (hk : k.VideoMatches)
    (h : k.updateKbBuffer c = some k') : k'.VideoMatches ↔
      (c = backspaceAscii → (k.terminals k.activeTerminal).enterFlag = false →
        k.activeTerminal ≠ k.scheduledTerminal) := by
  by_cases hb : c = backspaceAscii ∧ (k.terminals k.activeTerminal).enterFlag = false
  · obtain ⟨rfl, hf⟩ := hb
    have hn : ¬(backspaceAscii = newlineAscii ∨
        (k.terminals k.activeTerminal).enterFlag = true) := by
      rw [hf]
      decide
    have he : k.eraseChar = some k' := by
      simpa only [updateKbBuffer, if_neg hn, if_true] using h
    obtain ⟨k₁, h₁, h₂⟩ := Option.bind_eq_some_iff.mp he
    obtain ⟨mem, x, y, rfl⟩ := onConsole_cases h₁
    obtain ⟨mem', x', y', rfl⟩ := onConsole_cases h₂
    refine Iff.trans (videoMatches_restored rfl) ?_
    exact ⟨fun hne _ _ => hne, fun hne => hne rfl hf⟩
  · refine ⟨fun _ hc hf => absurd ⟨hc, hf⟩ hb, fun _ => ?_⟩
    rcases updateKbBuffer_cases h with ⟨g, rfl, -⟩ | rfl | ⟨hc, hf, -⟩
    · exact videoMatches_of_eq hk rfl rfl rfl rfl
    · exact hk
    · exact absurd ⟨hc, hf⟩ hb

/-! ### Runs -/

/-- The screen does not have to follow a process that takes PID 0. -/
def ScreenStays (k : Kernel) : Prop :=
  k.activeTerminal = 0 ∨ (k.scheduledTerminal ≠ 0 ∧ k.scheduledTerminal ≠ k.activeTerminal)

/-- The events after which the code leaves the video entries where they belong. -/
def KeepsVideo (img : Image) (k : Kernel) : Event → Prop
  | .tick _ => True
  | .switch _ _ => True
  | .key c => c = backspaceAscii → (k.terminals k.activeTerminal).enterFlag = false →
      k.activeTerminal ≠ k.scheduledTerminal
  | .clear => k.activeTerminal ≠ k.scheduledTerminal
  | .execute f command => (∃ program, checkProgram img f.header command = some (some program)) →
      k.choosePid = some 0 → k.ScreenStays
  | .halt _ _ => ∀ p, k.currentPcb = some p → (k.pcbs p).processId < maxTerminals →
      k.initializedTerminals k.activeTerminal = true → k.freesZero p → k.ScreenStays

lemma step_videoMatches {e : Event} (hk : k.VideoMatches) (hg : KeepsVideo img k e)
    (h : step img k e = some k') : k'.VideoMatches := by
  cases e with
  | tick r => exact pitHandler_videoMatches hk h
  | switch target f => exact terminalSwitch_videoMatches hk h
  | key c => exact (updateKbBuffer_videoMatches_iff hk h).mpr hg
  | clear => exact (clearTerminal_videoMatches_iff h).mpr hg
  | execute f command =>
    obtain ⟨⟨k', res⟩, hex, rfl⟩ := Option.map_eq_some_iff.mp h
    rcases execute_cases hex with ⟨-, rfl⟩ | ⟨a, -, -, -, -, hacc, -⟩
    · exact hk
    · exact execute_videoMatches hk (hg ⟨a.program, hacc⟩) hex
  | halt f status =>
    obtain ⟨res, hres, rfl⟩ := Option.map_eq_some_iff.mp h
    exact halt_videoMatches hk hg hres

lemma boot_videoMatches (frames : TableFrames) (mem : Memory) (x y : ℕ) :
    (boot frames mem x y).VideoMatches := by
  rw [videoMatches_iff]
  exact ⟨rfl, rfl⟩

/-- In every run from boot whose events all keep the mapping, the video entries name the
page of the scheduled terminal in every state. -/
theorem videoMatches_run {frames : TableFrames} {mem : Memory} {x y : ℕ} {es : List Event}
    (h : Runs.Path (step img) (KeepsVideo img) (boot frames mem x y) es k') : k'.VideoMatches :=
  h.invariant (fun _ _ _ hk hg hs => step_videoMatches hk hg hs) (boot_videoMatches ..)

theorem videoMatches_run_typed : ∃ k', k'.VideoMatches ∧
    Runs.Path (step shellImage) (KeepsVideo shellImage) (boot ⟨0, 0⟩ (fun _ => 0) 0 0)
      [.execute bareFrame shellCommand, .key 97, .tick ⟨0, 0⟩] k' := by
  obtain ⟨mem, hex⟩ := boot_execute ⟨0, 0⟩ (fun _ => 0) 0 0
  let k₁ := (boot ⟨0, 0⟩ (fun _ => 0) 0 0).installed firstShell mem
  obtain ⟨k₂, hk₂⟩ : ∃ k₂, step shellImage k₁ (.key 97) = some k₂ := ⟨_, rfl⟩
  obtain ⟨k₃, hk₃⟩ : ∃ k₃, step shellImage k₂ (.tick ⟨0, 0⟩) = some k₃ := by
    obtain rfl := Option.some.inj hk₂
    exact pitHandler_completes (p := 0) (t := 0) rfl rfl
  have hpath : Runs.Path (step shellImage) (KeepsVideo shellImage)
      (boot ⟨0, 0⟩ (fun _ => 0) 0 0)
      [.execute bareFrame shellCommand, .key 97, .tick ⟨0, 0⟩] k₃ := by
    refine Runs.Path.cons (fun _ _ => Or.inl rfl) (u := k₁) ?_
      (Runs.Path.cons (fun hc => absurd hc (by decide)) hk₂
        (Runs.Path.cons trivial hk₃ (Runs.Path.nil _)))
    simp only [step, hex, Option.map_some, k₁]
  exact ⟨k₃, videoMatches_run hpath, hpath⟩

end Frames

/-! ### A Backspace in the first shell -/

/-- The events of a system in which only base shells run. -/
def BaseShellsOnly (k : Kernel) : Event → Prop
  | .execute _ command => k.currentPcb = none ∧ command = shellCommand
  | .halt _ _ => ∀ p, k.currentPcb = some p → (k.pcbs p).processId < maxTerminals
  | _ => True

/-- The first shell runs and the user presses Backspace. -/
theorem backspace_loses_screen : ¬∀ (img : Image) (frames : TableFrames) (mem : Memory)
    (x y : ℕ) (es : List Event) (k' : Kernel),
    Runs.Path (step img) BaseShellsOnly (boot frames mem x y) es k' → k'.VideoMatches := by
  intro h
  obtain ⟨mem, hex⟩ := boot_execute ⟨0, 0⟩ (fun _ => 0) 0 0
  let k₁ := (boot ⟨0, 0⟩ (fun _ => 0) 0 0).installed firstShell mem
  obtain ⟨k₂, hk₂⟩ : ∃ k₂, k₁.updateKbBuffer backspaceAscii = some k₂ := ⟨_, rfl⟩
  have hpath : Runs.Path (step shellImage) BaseShellsOnly (boot ⟨0, 0⟩ (fun _ => 0) 0 0)
      [.execute bareFrame shellCommand, .key backspaceAscii] k₂ := by
    refine Runs.Path.cons ⟨rfl, rfl⟩ (u := k₁) ?_ (Runs.Path.cons trivial hk₂ (Runs.Path.nil _))
    simp only [step, hex, Option.map_some, k₁]
  have hm : k₁.VideoMatches :=
    videoMatches_of_eq (boot_videoMatches ⟨0, 0⟩ (fun _ => 0) 0 0) rfl rfl rfl rfl
  have hne := (updateKbBuffer_videoMatches_iff hm hk₂).mp (h _ _ _ _ _ _ _ hpath) rfl rfl
  exact hne rfl

end Kernel

end HalOs
