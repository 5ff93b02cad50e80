import HalOs.Model.Keyboard
import HalOs.Proofs.LineEditor

/-!
# Lines typed at the keyboard

The scan codes of a line go through the modifier flags and the two tables to
`update_kb_buffer`. The keyboard buffer then holds what a line editor makes of the same keys.
-/

namespace HalOs

/-! ### The tables -/

/-- The tables have the newline, the backspace and the letters where the handler expects them. -/
lemma table_chars : ∀ n < 58,
    (n ≠ 0x1C → byteAt lowercaseScancodeToChar n ≠ newlineAscii ∧
      byteAt uppercaseScancodeToChar n ≠ newlineAscii) ∧
    (n ≠ 0x0E → byteAt lowercaseScancodeToChar n ≠ backspaceAscii ∧
      byteAt uppercaseScancodeToChar n ≠ backspaceAscii) ∧
    Keyboard.isLetterCode (UInt8.ofNat n) = Editor.isLetter (byteAt lowercaseScancodeToChar n) := by
  decide

lemma outputChar_mem (code : UInt8) (kb : Keyboard) :
    kb.outputChar code = byteAt lowercaseScancodeToChar code.toNat ∨
      kb.outputChar code = byteAt uppercaseScancodeToChar code.toNat := by
  have htable : ∀ b : Bool,
      byteAt (if b then uppercaseScancodeToChar else lowercaseScancodeToChar) code.toNat =
          byteAt lowercaseScancodeToChar code.toNat ∨
        byteAt (if b then uppercaseScancodeToChar else lowercaseScancodeToChar) code.toNat =
          byteAt uppercaseScancodeToChar code.toNat := by
    intro b
    cases b with
    | false => exact Or.inl rfl
    | true => exact Or.inr rfl
  exact htable _

namespace Keyboard

variable {code : UInt8} {kb : Keyboard}

/-- The keys that change a flag. -/
def flagKeys : List UInt8 :=
  [capsLock, lShiftPress, rShiftPress, lShiftRelease, rShiftRelease, ctrlPress, ctrlRelease,
    altPress, altRelease]

lemma handle_flag (h : code ∈ flagKeys) (kb : Keyboard) : (kb.handle code).2 = .nothing := by
  simp only [flagKeys, List.mem_cons, List.not_mem_nil, or_false] at h
  rcases h with rfl | rfl | rfl | rfl | rfl | rfl | rfl | rfl | rfl <;> rfl

lemma handle_plain (h : code ∉ flagKeys) (kb : Keyboard) :
    kb.handle code = (kb, kb.call code) := by
  simp only [flagKeys, List.mem_cons, List.not_mem_nil, or_false, not_or] at h
  obtain ⟨h1, h2, h3, h4, h5, h6, h7, h8, h9⟩ := h
  unfold handle
  rw [if_neg h1, if_neg h2, if_neg h3, if_neg h4, if_neg h5, if_neg h6, if_neg h7, if_neg h8,
    if_neg h9]

lemma keyOf_plain (h : code ∉ flagKeys) : keyOf code =
    if code = tabPress then .tab else if code = 0x0E then .backspace
    else if code = 0x1C then .enter
    else if code.toNat < numScanCodes then .char (byteAt lowercaseScancodeToChar code.toNat)
      (byteAt uppercaseScancodeToChar code.toNat)
    else .other := by
  simp only [flagKeys, List.mem_cons, List.not_mem_nil, or_false, not_or] at h
  obtain ⟨h1, h2, h3, h4, h5, h6, -, h8, -⟩ := h
  unfold keyOf
  rw [if_neg h2, if_neg h4, if_neg h3, if_neg h5, if_neg h1, if_neg (not_or.mpr ⟨h6, h8⟩)]

/-- 58, the first code past the tables, is Caps Lock. -/
lemma ne_numScanCodes (h : code ∉ flagKeys) : code.toNat ≠ numScanCodes := by
  intro heq
  have hcaps : code = capsLock := UInt8.toNat_inj.mp heq
  apply h
  rw [hcaps]
  decide

/-- What the handler calls, and for which keys. -/
theorem handle_cases (code : UInt8) (kb : Keyboard) :
    (kb.handle code).2 = .nothing ∨
      ((kb.handle code).2 = .clearTerminal ∧ code = lPress ∧ kb.ctrlFlag = true) ∨
      (∃ target, (kb.handle code).2 = .terminalSwitch target ∧ kb.altFlag = true ∧
        functionKey code = some target) ∨
      ((kb.handle code).2 = .updateKbBuffer (List.replicate tabSpace spaceAscii) ∧
        code = tabPress) ∨
      ((kb.handle code).2 = .updateKbBuffer [kb.outputChar code] ∧ code.toNat < 58) := by
  by_cases hflag : code ∈ flagKeys
  · exact Or.inl (handle_flag hflag kb)
  rw [handle_plain hflag kb]
  by_cases hclear : code = lPress ∧ kb.ctrlFlag = true
  · exact Or.inr (Or.inl ⟨if_pos hclear, hclear⟩)
  cases hf : if kb.altFlag then functionKey code else none with
  | some target =>
    have hcall : kb.call code = .terminalSwitch target := by
      rw [call, if_neg hclear, hf]
    split_ifs at hf with halt
    exact Or.inr (Or.inr (Or.inl ⟨target, hcall, halt, hf⟩))
  | none =>
    have hcall : kb.call code =
        if code = tabPress then .updateKbBuffer (List.replicate tabSpace spaceAscii)
        else if code.toNat ≤ numScanCodes then .updateKbBuffer [kb.outputChar code]
        else .nothing := by
      rw [call, if_neg hclear, hf]
    by_cases htab : code = tabPress
    · exact Or.inr (Or.inr (Or.inr (Or.inl ⟨hcall.trans (if_pos htab), htab⟩)))
    rw [if_neg htab] at hcall
    by_cases hle : code.toNat ≤ numScanCodes
    · have hne := ne_numScanCodes hflag
      simp only [numScanCodes] at hle hne
      exact Or.inr (Or.inr (Or.inr (Or.inr ⟨hcall.trans (if_pos hle), by omega⟩)))
    · exact Or.inl (hcall.trans (if_neg hle))

end Keyboard

namespace Typing

variable {s s₀ s' : Typing} {e : Editor} {es : List TypingEvent} {code c : UInt8}

/-- No Control-L, and no function key with Alt. -/
def Plain (s : Typing) : TypingEvent → Prop
  | .scan code => ¬(code = lPress ∧ s.keyboard.ctrlFlag = true) ∧
      ¬(s.keyboard.altFlag = true ∧ (Keyboard.functionKey code).isSome)
  | .pass => True

instance (s : Typing) (e : TypingEvent) : Decidable (Plain s e) := by
  unfold Plain
  split <;> infer_instance

/-- The flags are the keys held down, and the buffer holds the text. -/
structure Agrees (s : Typing) (e : Editor) : Prop where
  left : s.keyboard.lShiftFlag = e.leftShift
  right : s.keyboard.rShiftFlag = e.rightShift
  caps : s.keyboard.capsLockFlag = e.caps
  sync : (Session.mk s.line e.text e.entered [] []).InSync 0
  short : e.text.length ≤ 127

/-! ### Single characters -/

/-- What `update_kb_buffer` does is what a session makes of the text. -/
lemma Agrees.edit (h : Agrees s e) (c : UInt8) : Agrees { s with line := s.line.typeKey c }
    { e with
      text := ((Session.mk s.line e.text e.entered [] []).edit c).draft
      entered := ((Session.mk s.line e.text e.entered [] []).edit c).entered } := by
  have hlen := h.sync.length
  rw [Nat.zero_add] at hlen
  obtain ⟨old, hold, hsync⟩ :=
    Session.key_inSync h.sync (c := c) fun _ _ _ => Or.inl hlen
  obtain rfl := Nat.le_zero.mp hold
  refine ⟨h.left, h.right, h.caps, ⟨hsync.length, hsync.bytes, hsync.flag⟩, ?_⟩
  have hshort := h.short
  unfold Session.edit
  dsimp only
  split_ifs with h1 h2 h3 h4
  · exact hshort
  · exact hshort
  · rw [List.length_dropLast]
    omega
  · exact hshort
  · simp only [maxBufferLength] at h4
    rw [List.length_append, List.length_singleton]
    omega

lemma Agrees.insert (h : Agrees s e) (hn : c ≠ newlineAscii) (hb : c ≠ backspaceAscii) :
    Agrees { s with line := s.line.typeKey c } (e.insert c) := by
  have hedit := h.edit c
  unfold Session.edit at hedit
  dsimp only at hedit
  unfold Editor.insert
  rw [if_neg hn, if_neg hb] at hedit
  by_cases he : e.entered = true
  · rw [if_pos (Or.inl he)]
    rwa [if_pos he] at hedit
  · rw [if_neg he] at hedit
    have hcap : maxBufferLength - 1 = 127 := rfl
    rw [hcap] at hedit
    by_cases hfull : 127 ≤ e.text.length
    · rw [if_pos (Or.inr hfull)]
      rwa [if_pos hfull] at hedit
    · rw [if_neg (not_or.mpr ⟨he, hfull⟩)]
      rwa [if_neg hfull] at hedit

lemma Agrees.backspace (h : Agrees s e) :
    Agrees { s with line := s.line.typeKey backspaceAscii } (e.press .backspace) := by
  have hedit := h.edit backspaceAscii
  have hne : ¬backspaceAscii = newlineAscii := by decide
  unfold Session.edit at hedit
  dsimp only at hedit
  rw [if_neg hne, if_pos rfl] at hedit
  unfold Editor.press
  by_cases he : e.entered = true
  · rw [if_pos he] at hedit ⊢
    exact hedit
  · rw [if_neg he] at hedit ⊢
    exact hedit

lemma Agrees.enter (h : Agrees s e) :
    Agrees { s with line := s.line.typeKey newlineAscii } (e.press .enter) := by
  have hedit := h.edit newlineAscii
  unfold Session.edit at hedit
  dsimp only at hedit
  rw [if_pos rfl] at hedit
  unfold Editor.press
  by_cases he : e.entered = true
  · rw [if_pos he, he] at hedit
    rwa [he]
  · rwa [if_neg he] at hedit

lemma Agrees.tab (h : Agrees s e) :
    Agrees { s with line := typeAll (List.replicate tabSpace spaceAscii) s.line } (e.press .tab) := by
  have hspace : ∀ {s : Typing} {e : Editor}, Agrees s e →
      Agrees { s with line := s.line.typeKey spaceAscii } (e.insert spaceAscii) :=
    fun h => h.insert (by decide) (by decide)
  exact hspace (hspace (hspace (hspace h)))

lemma Agrees.char (h : Agrees s e) (hlt : code.toNat < 58) (henter : code ≠ 0x1C)
    (hback : code ≠ 0x0E) :
    Agrees { s with line := typeAll [s.keyboard.outputChar code] s.line }
      (e.press (.char (byteAt lowercaseScancodeToChar code.toNat)
        (byteAt uppercaseScancodeToChar code.toNat))) := by
  obtain ⟨hnewline, hbackspace, hletter⟩ := table_chars code.toNat hlt
  rw [UInt8.ofNat_toNat] at hletter
  have hn := hnewline fun h => henter (UInt8.toNat_inj.mp h)
  have hb := hbackspace fun h => hback (UInt8.toNat_inj.mp h)
  have hchar : s.keyboard.outputChar code =
      if (if Editor.isLetter (byteAt lowercaseScancodeToChar code.toNat) then
          xor (e.leftShift || e.rightShift) e.caps else e.leftShift || e.rightShift) then
        byteAt uppercaseScancodeToChar code.toNat
      else byteAt lowercaseScancodeToChar code.toNat := by
    unfold Keyboard.outputChar
    rw [h.left, h.right, h.caps, hletter]
    dsimp only
    split_ifs <;> rfl
  have hins : Agrees { s with line := s.line.typeKey (s.keyboard.outputChar code) }
      (e.insert (s.keyboard.outputChar code)) := by
    rcases outputChar_mem code s.keyboard with heq | heq
    · rw [heq]
      exact h.insert hn.1 hb.1
    · rw [heq]
      exact h.insert hn.2 hb.2
  rw [hchar] at hins
  rw [hchar]
  exact hins

/-! ### Scan codes -/

lemma Agrees.flags (h : Agrees s e) (ctrl alt : Bool) :
    Agrees { s with keyboard := { s.keyboard with ctrlFlag := ctrl, altFlag := alt } } e :=
  ⟨h.left, h.right, h.caps, h.sync, h.short⟩

lemma Agrees.flag (h : Agrees s e) (hflag : code ∈ Keyboard.flagKeys)
    (hstep : s.step (.scan code) = some s') : Agrees s' (e.press (keyOf code)) := by
  obtain rfl := Option.some.inj hstep
  simp only [Keyboard.flagKeys, List.mem_cons, List.not_mem_nil, or_false] at hflag
  rcases hflag with rfl | rfl | rfl | rfl | rfl | rfl | rfl | rfl | rfl
  · exact ⟨h.left, h.right, congrArg not h.caps, h.sync, h.short⟩
  · exact ⟨rfl, h.right, h.caps, h.sync, h.short⟩
  · exact ⟨h.left, rfl, h.caps, h.sync, h.short⟩
  · exact ⟨rfl, h.right, h.caps, h.sync, h.short⟩
  · exact ⟨h.left, rfl, h.caps, h.sync, h.short⟩
  · exact h.flags true s.keyboard.altFlag
  · exact h.flags false s.keyboard.altFlag
  · exact h.flags s.keyboard.ctrlFlag true
  · exact h.flags s.keyboard.ctrlFlag false

/-- One scan code does to the line what its key does to the text. -/
lemma scan_agrees (h : Agrees s e) (hg : Plain s (.scan code))
    (hstep : s.step (.scan code) = some s') : Agrees s' (e.event (.scan code)) := by
  change Agrees _ (e.press (keyOf code))
  by_cases hflag : code ∈ Keyboard.flagKeys
  · exact h.flag hflag hstep
  obtain rfl := Option.some.inj hstep
  have hfunction : (if s.keyboard.altFlag then Keyboard.functionKey code else none) = none := by
    by_cases halt : s.keyboard.altFlag = true
    · rw [if_pos halt]
      exact Option.not_isSome_iff_eq_none.mp fun hsome => hg.2 ⟨halt, hsome⟩
    · rw [if_neg halt]
  have hhandle : s.keyboard.handle code = (s.keyboard,
      if code = tabPress then .updateKbBuffer (List.replicate tabSpace spaceAscii)
      else if code.toNat ≤ numScanCodes then .updateKbBuffer [s.keyboard.outputChar code]
      else .nothing) := by
    rw [Keyboard.handle_plain hflag, Keyboard.call, if_neg hg.1, hfunction]
  rw [hhandle, Keyboard.keyOf_plain hflag]
  by_cases htab : code = tabPress
  · rw [if_pos htab, if_pos htab]
    exact h.tab
  rw [if_neg htab, if_neg htab]
  by_cases hback : code = 0x0E
  · subst hback
    have hchar : s.keyboard.outputChar 0x0E = backspaceAscii := by
      rcases outputChar_mem 0x0E s.keyboard with heq | heq
      · exact heq
      · exact heq
    rw [if_pos (by decide), if_pos rfl, hchar]
    exact h.backspace
  by_cases henter : code = 0x1C
  · subst henter
    have hchar : s.keyboard.outputChar 0x1C = newlineAscii := by
      rcases outputChar_mem 0x1C s.keyboard with heq | heq
      · exact heq
      · exact heq
    rw [if_pos (by decide), if_neg hback, if_pos rfl, hchar]
    exact h.enter
  rw [if_neg hback, if_neg henter]
  by_cases hlt : code.toNat < 58
  · rw [if_pos hlt.le, if_pos hlt]
    exact h.char hlt henter hback
  · have hne := Keyboard.ne_numScanCodes hflag
    have hgt : ¬code.toNat ≤ numScanCodes := by
      simp only [numScanCodes] at hne ⊢
      omega
    rw [if_neg hgt, if_neg hlt]
    exact h

lemma step_agrees {ev : TypingEvent} (h : Agrees s e) (hg : Plain s ev)
    (hstep : s.step ev = some s') : Agrees s' (e.event ev) := by
  cases ev with
  | scan code => exact scan_agrees h hg hstep
  | pass =>
    obtain ⟨l, hl, rfl⟩ := Option.map_eq_some_iff.mp hstep
    refine ⟨h.left, h.right, h.caps, ?_, h.short⟩
    simp only [Line.step] at hl
    split_ifs at hl with hf
    obtain rfl := Option.some.inj hl
    unfold Line.waitPass
    split_ifs
    · exact ⟨h.sync.length, h.sync.store le_rfl, h.sync.flag⟩
    · exact ⟨h.sync.length, h.sync.bytes, h.sync.flag⟩

/-- After any scan codes without Control-L and without Alt and a function key, typed on an empty
line with no key held down, the keyboard buffer holds the text of the reference editor; once
Enter has been pressed, a read returns that text with a newline. -/
theorem typed_run (hkeys : s₀.keyboard = Keyboard.init) (hempty : s₀.line.currentChar = 0)
    (hopen : s₀.line.enterFlag = false) (h : Runs.Path step Plain s₀ es s) :
    let e := es.foldl Editor.event Editor.start
    (List.range s.line.currentChar).map s.line.keyboardBuffer = e.text ∧
      s.line.enterFlag = e.entered ∧
      (e.entered = true → ∃ l, s.line.step .read = some l ∧
        s.line.bytesTaken = e.text ++ [newlineAscii] ∧
        s.line.bytesTaken.length = e.text.length + 1 ∧ s.line.bytesTaken.length ≤ 128) := by
  intro e
  have hstart : Agrees s₀ Editor.start := by
    refine ⟨?_, ?_, ?_, ⟨hempty, fun j hj => absurd hj (Nat.not_lt_zero j), hopen⟩, Nat.zero_le _⟩
    · rw [hkeys]
      rfl
    · rw [hkeys]
      rfl
    · rw [hkeys]
      rfl
  have hend : Agrees s e := h.tracks (fun _ _ _ _ hs hg hstep => step_agrees hs hg hstep) hstart
  have hlen := hend.sync.length
  rw [Nat.zero_add] at hlen
  refine ⟨?_, hend.sync.flag, fun hentered => ?_⟩
  · apply List.ext_getElem
    · rw [List.length_map, List.length_range, hlen]
    · intro j _ hj
      have hbyte := hend.sync.bytes j hj
      rw [Nat.zero_add] at hbyte
      rw [List.getElem_map, List.getElem_range, hbyte]
  · have htaken : s.line.bytesTaken = e.text ++ [newlineAscii] := hend.sync.taken
    have hshort := hend.short
    refine ⟨s.line.takeLine, if_pos (hend.sync.flag.trans hentered), htaken, ?_, ?_⟩
    · rw [htaken, List.length_append, List.length_singleton]
    · rw [htaken, List.length_append, List.length_singleton]
      omega

/-! ### The kernel's own buffer -/

lemma updateKbBuffer_active {k k' : Kernel} (h : k.updateKbBuffer c = some k') :
    k'.activeTerminal = k.activeTerminal := by
  rcases Kernel.updateKbBuffer_cases h with ⟨g, rfl, -⟩ | rfl | ⟨-, -, mem, x, y, g, rfl, -⟩
  · rfl
  · rfl
  · rfl

lemma updates_line {k k' : Kernel} {chars : List UInt8}
    (h : chars.foldlM (fun k c => k.updateKbBuffer c) k = some k') :
    (k'.terminals k.activeTerminal).line =
      typeAll chars (k.terminals k.activeTerminal).line := by
  induction chars generalizing k with
  | nil =>
    obtain rfl := Option.some.inj h
    rfl
  | cons c chars ih =>
    rw [List.foldlM_cons] at h
    obtain ⟨k₁, h₁, h⟩ := Option.bind_eq_some_iff.mp h
    have hrest := ih h
    rw [updateKbBuffer_active h₁, Line.updateKbBuffer_line h₁] at hrest
    exact hrest

/-- The handler changes the line of the active terminal as it changes a line by itself. -/
theorem keyboardHandler_line {img : Image} {f : CallFrame} {kb kb' : Keyboard} {k k' : Kernel}
    (hg : Plain ⟨kb, (k.terminals k.activeTerminal).line⟩ (.scan code))
    (h : k.keyboardHandler img f code kb = some (kb', k')) :
    (Typing.mk kb (k.terminals k.activeTerminal).line).step (.scan code) =
      some ⟨kb', (k'.terminals k.activeTerminal).line⟩ := by
  obtain ⟨k₁, h₁, h⟩ := Option.map_eq_some_iff.mp h
  obtain ⟨rfl, rfl⟩ := Prod.mk.inj h
  unfold step
  refine congrArg some (congrArg (Typing.mk _) ?_)
  rcases Keyboard.handle_cases code kb with hcall | ⟨-, hclear⟩ | ⟨target, -, halt, hf⟩ |
    ⟨hcall, -⟩ | ⟨hcall, -⟩
  · simp only [hcall, Option.some.injEq] at h₁ ⊢
    rw [h₁]
  · exact absurd hclear hg.1
  · exact absurd ⟨halt, Option.isSome_iff_exists.mpr ⟨target, hf⟩⟩ hg.2
  · simp only [hcall] at h₁ ⊢
    exact (updates_line h₁).symm
  · simp only [hcall] at h₁ ⊢
    exact (updates_line h₁).symm

/-- A word with a capital, a tab and a letter taken back. -/
def typedWord : List TypingEvent :=
  [.scan 0x2A, .scan 0x23, .pass, .scan 0xAA, .scan 0x17, .scan 0x0F, .scan 0x0E, .scan 0x1C,
    .scan 0x23]

theorem typed_run_word : ∃ s, Runs.Path step Plain ⟨Keyboard.init, Line.blank⟩ typedWord s ∧
    s.line.enterFlag = true ∧ (∃ l, s.line.step .read = some l) ∧
    s.line.bytesTaken = [72, 105, 32, 32, 32, 10] := by
  have hrun : (Runs.run step Plain ⟨Keyboard.init, Line.blank⟩ typedWord).isSome = true := by
    decide +kernel
  obtain ⟨s, hs⟩ := Option.isSome_iff_exists.mp hrun
  have hpath := Runs.path_of_run hs
  obtain ⟨-, hflag, hread⟩ := typed_run rfl rfl rfl hpath
  have hentered : (typedWord.foldl Editor.event Editor.start).entered = true := by decide
  have htext : (typedWord.foldl Editor.event Editor.start).text = [72, 105, 32, 32, 32] := by decide
  obtain ⟨l, hl, htaken, -⟩ := hread hentered
  rw [htext] at htaken
  exact ⟨s, hpath, hflag.trans hentered, ⟨l, hl⟩, htaken⟩

end Typing

end HalOs
