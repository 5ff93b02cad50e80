import HalOs.Model.TypedTerminals
import HalOs.Proofs.Strings
import HalOs.Proofs.TypedLines
import HalOs.Proofs.VideoMapping

/-!
# NUL bytes in a line

The tables of `keyboard_handler` hold NUL for the keys that stand for no character. The handler
takes most of these keys out before it looks a character up; the three it leaves put a NUL in
the line, where the strings of user programs end.
-/

namespace HalOs

/-! ### The tables -/

/-- A key without a character is taken out by the handler or is one of `nulKeys`. -/
lemma table_nul : ∀ n < 58,
    (byteAt lowercaseScancodeToChar n = 0 ↔
      UInt8.ofNat n ∈ tabPress :: Keyboard.nulKeys ++ Keyboard.flagKeys) ∧
    (byteAt uppercaseScancodeToChar n = 0 ↔
      UInt8.ofNat n ∈ tabPress :: Keyboard.nulKeys ++ Keyboard.flagKeys) := by
  decide +kernel

lemma outputChar_eq_zero {code : UInt8} (hlt : code.toNat < 58) (kb : Keyboard) :
    kb.outputChar code = 0 ↔ code ∈ tabPress :: Keyboard.nulKeys ++ Keyboard.flagKeys := by
  obtain ⟨hlower, hupper⟩ := table_nul code.toNat hlt
  rw [UInt8.ofNat_toNat] at hlower hupper
  rcases outputChar_mem code kb with h | h
  · rw [h, hlower]
  · rw [h, hupper]

/-! ### One line -/

namespace Line

variable {l : Line} {c : UInt8}

/-- No byte of the line is NUL. -/
def Whole (l : Line) : Prop := ∀ i < l.currentChar, l.keyboardBuffer i ≠ 0

lemma whole_store (l : Line) {l' : Line} {b : UInt8} (hcount : l'.currentChar = l.currentChar)
    (hbuffer : l'.keyboardBuffer = Function.update l.keyboardBuffer l.currentChar b) :
    l'.Whole ↔ l.Whole := by
  unfold Whole
  rw [hcount, hbuffer]
  refine forall₂_congr fun i hi => ?_
  rw [Function.update_of_ne hi.ne]

lemma whole_append {l' : Line} {b : UInt8} (hcount : l'.currentChar = l.currentChar + 1)
    (hbuffer : l'.keyboardBuffer = Function.update l.keyboardBuffer l.currentChar b) :
    l'.Whole ↔ l.Whole ∧ b ≠ 0 := by
  unfold Whole
  rw [hcount, hbuffer]
  constructor
  · intro h
    have hlast := h l.currentChar (Nat.lt_succ_self _)
    rw [Function.update_self] at hlast
    refine ⟨fun i hi => ?_, hlast⟩
    have hi' := h i (Nat.lt_succ_of_lt hi)
    rwa [Function.update_of_ne hi.ne] at hi'
  · rintro ⟨h, hb⟩ i hi
    rcases Nat.lt_succ_iff_lt_or_eq.mp hi with hlt | rfl
    · rw [Function.update_of_ne hlt.ne]
      exact h i hlt
    · rwa [Function.update_self]

lemma takeLine_whole : l.takeLine.Whole ↔ l.Whole :=
  (whole_append (b := newlineAscii) rfl rfl).trans ⟨And.left, fun h => ⟨h, by decide⟩⟩

lemma not_mem_bytesTaken : 0 ∉ l.bytesTaken ↔ l.Whole := by
  rw [← takeLine_whole, bytesTaken, List.mem_map]
  constructor
  · intro h i hi h0
    exact h ⟨i, List.mem_range.mpr hi, h0⟩
  · rintro h ⟨i, hi, h0⟩
    exact h i (List.mem_range.mp hi) h0

lemma getLast_bytesTaken : l.bytesTaken.getLast? = some newlineAscii := by
  have hcount : l.takeLine.currentChar = l.currentChar + 1 := rfl
  have hlast : l.takeLine.keyboardBuffer l.currentChar = newlineAscii := Function.update_self ..
  rw [bytesTaken, hcount, List.range_succ, List.map_append, List.map_singleton, hlast]
  exact List.getLast?_concat ..

/-- A program sees all of a line exactly when the line has no NUL. -/
theorem readsWhole_iff : l.ReadsWhole ↔ l.Whole := by
  refine ⟨fun h => not_mem_bytesTaken.mp h.noNul, fun h => ?_⟩
  have h0 := not_mem_bytesTaken.mpr h
  refine ⟨h0, ?_, ?_⟩
  · rw [strlen, cString_text h0]
  · rw [shellLine, if_pos getLast_bytesTaken]
    exact cString_text fun hmem => h0 (List.dropLast_subset _ hmem)

/-- A character keeps a line whole if and only if it is no NUL, or is not stored. -/
lemma typeKey_whole (h : l.Whole) :
    (l.typeKey c).Whole ↔ (c = 0 → l.enterFlag = true ∨ 127 ≤ l.currentChar) := by
  unfold typeKey
  split_ifs with hn hb hfull
  · refine iff_of_true h fun h0 => Or.inl (hn.resolve_left ?_)
    rw [h0]
    decide
  · refine iff_of_true ?_ fun h0 => absurd (h0.symm.trans hb) (by decide)
    intro i hi
    have hlt : i < l.currentChar - 1 := hi
    have hkept := h i (hlt.trans_le (Nat.sub_le _ _))
    rw [← Function.update_of_ne hlt.ne 0 l.keyboardBuffer] at hkept
    exact hkept
  · exact iff_of_true h fun _ => Or.inr hfull
  · rw [whole_append (l := l) (b := c) rfl rfl]
    have hopen : ¬(l.enterFlag = true ∨ 127 ≤ l.currentChar) := by
      rintro (he | hc)
      · exact hn (Or.inr he)
      · exact hfull hc
    exact ⟨fun hw h0 => absurd h0 hw.2, fun hc => ⟨h, fun h0 => hopen (hc h0)⟩⟩

lemma typeAll_whole {chars : List UInt8} (hchars : 0 ∉ chars) (h : l.Whole) :
    (Typing.typeAll chars l).Whole := by
  induction chars generalizing l with
  | nil => exact h
  | cons c chars ih =>
    rw [List.mem_cons, not_or] at hchars
    exact ih hchars.2 ((typeKey_whole h).mpr fun h0 => absurd h0.symm hchars.1)

lemma writeOver_whole (nbytes : ℤ) (h : l.Whole) : (l.writeOver nbytes).Whole := by
  unfold writeOver
  split_ifs
  · exact h
  · exact fun i hi => absurd hi (Nat.not_lt_zero i)

end Line

namespace TypedTerminals

variable {s s₀ s' : TypedTerminals} {e : TerminalEvent} {es : List TerminalEvent} {t u : Fin 3}
  {code : UInt8}

/-- No key without a character is pressed on the line of `t` while the line takes characters. -/
def NulKeysLost (t : Fin 3) (s : TypedTerminals) : TerminalEvent → Prop
  | .scan code => code ∈ Keyboard.nulKeys → s.active = t →
      (s.lines t).enterFlag = true ∨ 127 ≤ (s.lines t).currentChar
  | _ => True

instance (t : Fin 3) (s : TypedTerminals) (e : TerminalEvent) : Decidable (NulKeysLost t s e) := by
  cases e <;> unfold NulKeysLost <;> infer_instance

lemma setLine_self (u : Fin 3) (g : Line → Line) : (s.setLine u g).lines u = g (s.lines u) :=
  Function.update_self ..

lemma setLine_of_ne {g : Line → Line} (h : t ≠ u) : (s.setLine u g).lines t = s.lines t :=
  Function.update_of_ne h ..

/-- A change of the line of `u` concerns the line of `t` only where they are one. -/
lemma setLine_whole {g : Line → Line} {p : Prop} (h : (s.lines t).Whole)
    (hg : (g (s.lines t)).Whole ↔ p) : ((s.setLine u g).lines t).Whole ↔ (u = t → p) := by
  by_cases hu : u = t
  · subst hu
    rw [setLine_self, hg]
    exact ⟨fun hp _ => hp, fun hp => hp rfl⟩
  · rw [setLine_of_ne (Ne.symm hu)]
    exact iff_of_true h fun ht => absurd ht hu

lemma setLine_keeps {g : Line → Line} (h : (s.lines t).Whole) (hg : (g (s.lines t)).Whole) :
    ((s.setLine u g).lines t).Whole :=
  (setLine_whole (p := True) h (iff_of_true hg trivial)).mpr fun _ => trivial

/-- The handler's calls other than that of a character keep the lines whole. -/
lemma call_whole {call : KeyboardCall} (h : (s.lines t).Whole)
    (hcall : ∀ chars, call = .updateKbBuffer chars → 0 ∉ chars) : ((s.call call).lines t).Whole := by
  cases call with
  | nothing => exact h
  | clearTerminal => exact setLine_keeps (g := fun l => { l with resetFlag := true }) h h
  | terminalSwitch target => exact h
  | updateKbBuffer chars => exact setLine_keeps h (Line.typeAll_whole (hcall chars rfl) h)

lemma handle_text {kb : Keyboard} (hflag : code ∉ Keyboard.flagKeys) (hl : code ≠ lPress)
    (hf : Keyboard.functionKey code = none) : kb.handle code = (kb,
      if code = tabPress then .updateKbBuffer (List.replicate tabSpace spaceAscii)
      else if code.toNat ≤ numScanCodes then .updateKbBuffer [kb.outputChar code]
      else .nothing) := by
  rw [Keyboard.handle_plain hflag, Keyboard.call, if_neg fun hclear => hl hclear.1, hf, ite_self]

lemma handle_nulKey (hnul : code ∈ Keyboard.nulKeys) (kb : Keyboard) :
    kb.handle code = (kb, .updateKbBuffer [0]) := by
  have hplain : ∀ c ∈ Keyboard.nulKeys, c ∉ Keyboard.flagKeys ∧ c ≠ tabPress ∧ c ≠ lPress ∧
      Keyboard.functionKey c = none ∧ c.toNat < 58 := by decide +kernel
  obtain ⟨hflag, htab, hl, hf, hlt⟩ := hplain code hnul
  have hchar : kb.outputChar code = 0 := (outputChar_eq_zero hlt kb).mpr
    (List.mem_append_left _ (List.mem_cons_of_mem _ hnul))
  have hle : code.toNat ≤ numScanCodes := hlt.le
  rw [handle_text hflag hl hf, if_neg htab, if_pos hle, hchar]

lemma handle_chars {chars : List UInt8} {kb : Keyboard} (hnul : code ∉ Keyboard.nulKeys)
    (h : (kb.handle code).2 = .updateKbBuffer chars) : 0 ∉ chars := by
  have hflag : code ∉ Keyboard.flagKeys := by
    intro hflag
    rw [Keyboard.handle_flag hflag kb] at h
    exact absurd h (by simp)
  rcases Keyboard.handle_cases code kb with hcall | ⟨hcall, -⟩ | ⟨target, hcall, -⟩ |
    ⟨hcall, htab⟩ | ⟨hcall, hlt⟩
  · rw [hcall] at h
    exact absurd h (by simp)
  · rw [hcall] at h
    exact absurd h (by simp)
  · rw [hcall] at h
    exact absurd h (by simp)
  · rw [hcall] at h
    obtain rfl := KeyboardCall.updateKbBuffer.inj h
    decide
  · rw [hcall] at h
    obtain rfl := KeyboardCall.updateKbBuffer.inj h
    have htab : code ≠ tabPress := by
      rintro rfl
      rw [handle_text hflag (by decide) rfl, if_pos rfl] at hcall
      exact absurd hcall (by simp [List.replicate])
    intro h0
    have hchar := (outputChar_eq_zero hlt kb).mp (List.mem_singleton.mp h0).symm
    rcases List.mem_append.mp hchar with hmem | hmem
    · rcases List.mem_cons.mp hmem with heq | hmem
      · exact htab heq
      · exact hnul hmem
    · exact hflag hmem

/-- A key spoils the line of `t` if and only if it stores a NUL there. -/
lemma scan_whole (h : (s.lines t).Whole) :
    ((s.scan code).lines t).Whole ↔ NulKeysLost t s (.scan code) := by
  unfold scan
  by_cases hnul : code ∈ Keyboard.nulKeys
  · rw [handle_nulKey hnul]
    have hkey := (Line.typeKey_whole (c := 0) h).trans ⟨fun hp => hp rfl, fun hp _ => hp⟩
    exact (setLine_whole h hkey).trans ⟨fun hp _ => hp, fun hp => hp hnul⟩
  · exact iff_of_true (call_whole h fun _ => handle_chars hnul) fun h' => absurd h' hnul

lemma waitPass_whole (last : Fin 3) (h : (s.lines t).Whole) :
    ((s.waitPass last).lines t).Whole := by
  refine setLine_keeps h ?_
  split_ifs
  · have hcleared : ∀ l : Line, l.Whole → ({ l with
        resetFlag := false
        lastCurrentChar := l.currentChar
        keyboardBuffer := Function.update l.keyboardBuffer l.currentChar 0 } : Line).Whole :=
      fun l hl => Iff.mpr (Line.whole_store l rfl rfl) hl
    exact hcleared _ h
  · exact h

lemma step_whole (h : (s.lines t).Whole) (hstep : s.step e = some s') :
    (s'.lines t).Whole ↔ NulKeysLost t s e := by
  cases e with
  | scan code =>
    obtain rfl := Option.some.inj hstep
    exact scan_whole h
  | pass last =>
    simp only [step] at hstep
    split_ifs at hstep
    obtain rfl := Option.some.inj hstep
    exact iff_of_true (waitPass_whole last h) trivial
  | read =>
    simp only [step] at hstep
    split_ifs at hstep
    obtain rfl := Option.some.inj hstep
    exact iff_of_true (setLine_keeps h (Line.takeLine_whole.mpr h)) trivial
  | write scheduled nbytes =>
    obtain rfl := Option.some.inj hstep
    exact iff_of_true (setLine_keeps h (Line.writeOver_whole nbytes h)) trivial

/-! ### The kernel's own lines -/

lemma updates_other {k k' : Kernel} {chars : List UInt8}
    (h : chars.foldlM (fun k c => k.updateKbBuffer c) k = some k') :
    k'.activeTerminal = k.activeTerminal ∧
      ∀ t ≠ k.activeTerminal, (k'.terminals t).line = (k.terminals t).line := by
  induction chars generalizing k with
  | nil =>
    obtain rfl := Option.some.inj h
    exact ⟨rfl, fun _ _ => rfl⟩
  | cons c chars ih =>
    rw [List.foldlM_cons] at h
    obtain ⟨k₁, h₁, h⟩ := Option.bind_eq_some_iff.mp h
    have hact := Typing.updateKbBuffer_active h₁
    obtain ⟨hactive, hlines⟩ := ih h
    rw [hact] at hactive hlines
    refine ⟨hactive, fun t ht => (hlines t ht).trans ?_⟩
    rcases Kernel.updateKbBuffer_cases h₁ with ⟨g, rfl, -⟩ | rfl | ⟨-, -, mem, x, y, g, rfl, -⟩
    · simp only [Kernel.setTerminal, Function.update_of_ne ht]
    · rfl
    · simp only [Kernel.setTerminal, Function.update_of_ne ht]

lemma terminalSwitch_active {k k' : Kernel} {img : Image} {f : CallFrame} {target : Fin 3}
    (h : k.terminalSwitch img f target = some k') : k'.activeTerminal = target := by
  rcases Kernel.terminalSwitch_cases h with ⟨hact, rfl⟩ | ⟨-, -, rfl⟩ | ⟨-, hno, res, hex⟩
  · exact hact
  · rw [Kernel.switchScreens_eq]
  · have hact : (k.switchScreens target).activeTerminal = target := by rw [Kernel.switchScreens_eq]
    have hopen : (k.switchScreens target).initializedTerminals target = false := by
      rw [Kernel.switchScreens_eq]
      exact hno
    rcases Kernel.execute_cases hex with ⟨-, rfl⟩ | ⟨a, mem, hpid, -, -, -, hafter⟩
    · exact hact
    -- the base shell of the new terminal takes the terminal's own number
    have hinstalled : ((k.switchScreens target).installed a mem).activeTerminal = target := by
      have hzero : a.pid = 0 → target = 0 := fun h0 => by
        rw [← hact] at hopen ⊢
        exact Kernel.choosePid_uninitialised hopen (h0 ▸ hpid)
      by_cases h0 : a.pid = 0
      · simp only [Kernel.installed, if_pos h0, hzero h0]
      · simp only [Kernel.installed, if_neg h0, hact]
    rcases hafter with ⟨rfl, -⟩ | ⟨-, -, hpre, -⟩
    · exact hinstalled
    · refine Kernel.preempt_invariant (P := fun k => k.activeTerminal = target)
        (fun _ _ _ hk hs => ?_) hinstalled hpre
      exact (Kernel.scheduler_memory hs).2.1.trans hk

/-- The handler changes the lines of the kernel, under any flags and for any scan code. -/
theorem keyboardHandler_typed {img : Image} {f : CallFrame} {kb kb' : Keyboard} {k k' : Kernel}
    (h : k.keyboardHandler img f code kb = some (kb', k')) :
    (k.typed kb).scan code = k'.typed kb' := by
  obtain ⟨k₁, h₁, h⟩ := Option.map_eq_some_iff.mp h
  obtain ⟨rfl, rfl⟩ := Prod.mk.inj h
  change (k.typed (kb.handle code).1).call (kb.handle code).2 = k₁.typed (kb.handle code).1
  -- the active terminal's line is changed by `g`, and nothing else
  have hsetLine : ∀ g : Line → Line, k₁.activeTerminal = k.activeTerminal →
      (k₁.terminals k.activeTerminal).line = g (k.terminals k.activeTerminal).line →
      (∀ t ≠ k.activeTerminal, (k₁.terminals t).line = (k.terminals t).line) →
      (k.typed (kb.handle code).1).setLine k.activeTerminal g = k₁.typed (kb.handle code).1 := by
    intro g hact hsame hother
    have hlines : Function.update (fun t => (k.terminals t).line) k.activeTerminal
        (g (k.terminals k.activeTerminal).line) = fun t => (k₁.terminals t).line := by
      funext t
      by_cases ht : t = k.activeTerminal
      · rw [ht, Function.update_self, hsame]
      · rw [Function.update_of_ne ht, hother t ht]
    unfold setLine Kernel.typed
    rw [hact, ← hlines]
  cases hcall : (kb.handle code).2 with
  | nothing =>
    simp only [hcall, Option.some.injEq] at h₁
    rw [h₁]
    rfl
  | clearTerminal =>
    simp only [hcall] at h₁
    have hline := Line.clearTerminal_line h₁
    obtain ⟨mem, x, y, g, heq, -⟩ := Kernel.clearTerminal_cases h₁
    refine hsetLine (fun l => { l with resetFlag := true }) ?_ ?_ fun t ht => ?_
    · rw [heq]
      rfl
    · rw [hline, if_pos rfl]
    · rw [hline, if_neg ht]
  | terminalSwitch target =>
    simp only [hcall] at h₁
    unfold call Kernel.typed
    rw [terminalSwitch_active h₁]
    refine congrArg (TypedTerminals.mk _ target) (funext fun t => ?_)
    exact (Line.terminalSwitch_line h₁ t).symm
  | updateKbBuffer chars =>
    simp only [hcall] at h₁
    obtain ⟨hact, hother⟩ := updates_other h₁
    exact hsetLine _ hact (Typing.updates_line h₁) hother

/-- From an empty line on, under any flags and with any keys, reads and writes on the three
terminals, all that the reads of a terminal return reaches its programs as a whole exactly as
long as no key without a character is stored in its line. -/
theorem nul_run_iff (hempty : (s₀.lines t).currentChar = 0)
    (h : Runs.Path step (fun _ _ => True) s₀ es s) :
    Runs.Always step (fun s => (s.lines t).ReadsWhole) s₀ es s ↔
      Runs.Path step (NulKeysLost t) s₀ es s := by
  have hstart : (s₀.lines t).ReadsWhole := by
    rw [Line.readsWhole_iff]
    intro i hi
    rw [hempty] at hi
    exact absurd hi (Nat.not_lt_zero i)
  refine Runs.always_iff h (fun s e u hs hstep => ?_) hstart
  rw [Line.readsWhole_iff] at hs ⊢
  exact step_whole hs hstep

/-- Three empty terminals, the first of them active. -/
def start : TypedTerminals := ⟨Keyboard.init, 0, fun _ => Line.blank⟩

/-- Escape, a letter and Enter: the read returns three bytes, and the shell sees an empty line. -/
theorem escape_line : ∃ s,
    Runs.Path step (fun _ _ => True) start [.scan 0x01, .scan 0x1E, .scan 0x1C] s ∧
    (start.lines 0).currentChar = 0 ∧ (∃ u, s.step .read = some u) ∧
    (s.lines 0).bytesTaken = [0, 97, 10] ∧ strlen ((s.lines 0).bytesTaken ++ [0]) = 0 ∧
    shellLine (s.lines 0).bytesTaken = [] ∧ ¬(s.lines 0).ReadsWhole := by
  refine ⟨((start.scan 0x01).scan 0x1E).scan 0x1C, ?_, rfl, ⟨_, rfl⟩, ?_⟩
  · exact Runs.Path.cons trivial rfl (Runs.Path.cons trivial rfl
      (Runs.Path.cons trivial rfl (Runs.Path.nil _)))
  · have htaken : ((((start.scan 0x01).scan 0x1E).scan 0x1C).lines 0).bytesTaken = [0, 97, 10] := by
      decide +kernel
    rw [htaken]
    refine ⟨rfl, by decide, by decide, fun h => ?_⟩
    have hno := h.noNul
    rw [htaken] at hno
    exact hno (by decide)

/-- Two letters and Enter, with Escape after it. -/
def lateEscape : List TerminalEvent :=
  [.scan 0x1E, .pass 0, .scan 0x30, .scan 0x1C, .scan 0x01, .read]

theorem nul_run_late : ∃ s, Runs.Path step (fun _ _ => True) start lateEscape s ∧
    Runs.Path step (NulKeysLost 0) start lateEscape s ∧
    (Runs.Always step (fun s => (s.lines 0).ReadsWhole) start lateEscape s ↔
      Runs.Path step (NulKeysLost 0) start lateEscape s) := by
  have hrun : (Runs.run step (NulKeysLost 0) start lateEscape).isSome = true := by
    decide +kernel
  obtain ⟨s, hs⟩ := Option.isSome_iff_exists.mp hrun
  have hpath := Runs.path_of_run hs
  have hdefined := hpath.mono fun _ _ _ => trivial
  exact ⟨s, hdefined, hpath, nul_run_iff rfl hdefined⟩

end TypedTerminals

end HalOs
