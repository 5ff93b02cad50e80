import HalOs.Proofs.Screens
import HalOs.Proofs.TypedLines

/-!
# The cursor the keyboard borrows

To draw on the active terminal the keyboard moves the live cursor of the running process.
Afterwards Backspace puts back the position that was saved at the last tick and Ctrl-L puts
back none. Backspace also erases in front of a position saved at a tick, wherever the line
has come to since.
-/

namespace HalOs

variable {img : Image} {k k' : Kernel} {f : CallFrame} {kb kb' : Keyboard} {code c : UInt8}

/-! ### The keys -/

namespace Keyboard

lemma backspace_call (kb : Keyboard) :
    (kb.handle 0x0E).2 = .updateKbBuffer [backspaceAscii] := by
  obtain ⟨a, b, c, d, e⟩ := kb
  revert a b c d e
  decide

lemma clear_call (h : kb.ctrlFlag = true) : (kb.handle lPress).2 = .clearTerminal := by
  obtain ⟨a, b, c, d, e⟩ := kb
  revert a b c d e
  decide

lemma outputChar_ne_backspace (hlt : code.toNat < 58) (hcode : code ≠ 0x0E) :
    kb.outputChar code ≠ backspaceAscii := by
  have hne := (table_chars code.toNat hlt).2.1 fun h => hcode (UInt8.toNat_inj.mp h)
  rcases outputChar_mem code kb with h | h
  · rw [h]
    exact hne.1
  · rw [h]
    exact hne.2

end Keyboard

/-! ### Erasing a cell -/

/-- The cell before a cursor. -/
def cellBefore (x y : ℕ) : Option ℕ := if x = 0 ∧ y = 0 then none else some (numCols * y + x - 1)

/-- The video page with a cell blanked. -/
def eraseCell (cell : Option ℕ) (bytes : ℕ → UInt8) (off : ℕ) : UInt8 :=
  if cell = some (off / 2) then if off % 2 = 0 then spaceAscii else attrib else bytes off

lemma eraseCell_even (cell : Option ℕ) (bytes : ℕ → UInt8) (i : ℕ) :
    eraseCell cell bytes (i * 2) = if cell = some i then spaceAscii else bytes (i * 2) := by
  unfold eraseCell
  rw [Nat.mul_div_cancel i (by decide), if_pos (Nat.mul_mod_left i 2)]

lemma eraseCell_odd (cell : Option ℕ) (bytes : ℕ → UInt8) (i : ℕ) :
    eraseCell cell bytes (i * 2 + 1) = if cell = some i then attrib else bytes (i * 2 + 1) := by
  have hcell : (i * 2 + 1) / 2 = i := by omega
  have hmod : (i * 2 + 1) % 2 ≠ 0 := by omega
  unfold eraseCell
  rw [hcell, if_neg hmod]

namespace Console

variable {v : Console}

lemma putc_space : (v.putc spaceAscii).videoMem =
    eraseCell (some (numCols * v.screenY + v.screenX)) v.videoMem := by
  have hspace : ¬isBreak spaceAscii = true := by decide
  unfold putc
  rw [if_neg hspace]
  funext off
  simp only [store, eraseCell, Option.some.injEq]
  generalize numCols * v.screenY + v.screenX = cell
  by_cases hodd : off = cell * 2 + 1
  · rw [hodd, Function.update_self, if_pos (by omega), if_neg (by omega)]
  rw [Function.update_of_ne hodd]
  by_cases heven : off = cell * 2
  · rw [heven, Function.update_self, if_pos (by omega), if_pos (by omega)]
  · rw [Function.update_of_ne heven, if_neg (by omega)]

lemma backspaceCalled_videoMem (hx : v.screenX < 256) (hy : v.screenY < 256) :
    v.backspaceCalled.videoMem = eraseCell (cellBefore v.screenX v.screenY) v.videoMem := by
  unfold backspaceCalled cellBefore
  by_cases h0 : v.screenX = 0 ∧ v.screenY = 0
  · rw [if_pos h0, if_pos h0]
    rfl
  rw [if_neg h0, if_neg h0]
  by_cases hx0 : v.screenX = 0
  · have hcell : numCols * ((v.screenY - 1) % 256) + (numCols - 1) % 256 =
        numCols * v.screenY + v.screenX - 1 := by
      simp only [numCols]
      omega
    rw [if_pos hx0, ← hcell]
    exact putc_space
  · have hcell : numCols * (v.screenY % 256) + (v.screenX - 1) % 256 =
        numCols * v.screenY + v.screenX - 1 := by
      simp only [numCols]
      omega
    rw [if_neg hx0, ← hcell]
    exact putc_space

end Console

namespace Kernel

/-- The cell Backspace erases on the screen of the active terminal. -/
def erased (k : Kernel) : Option ℕ :=
  let ti := k.terminals k.activeTerminal
  cellBefore (ti.terminalScreenX % 256) (ti.terminalScreenY % 256)

/-- What Backspace does to the cursor and to the pages of memory. -/
structure Erases (k k' : Kernel) : Prop where
  active : k'.activeTerminal = k.activeTerminal
  cursorX : k'.screenX = (k.terminals k.scheduledTerminal).terminalScreenX % 256
  cursorY : k'.screenY = (k.terminals k.scheduledTerminal).terminalScreenY % 256
  pages : ∀ frame, ∀ off < align4kb, k'.mem.page frame off =
    if frame = 184 then eraseCell k.erased (k.mem.page 184) off else k.mem.page frame off

lemma page_setPage_page (mem : Memory) (frame dest : ℕ) :
    (mem.setPage dest (mem.page dest)).page frame = mem.page frame := by
  by_cases h : frame = dest
  · subst h
    rw [Memory.page_setPage_self]
    funext off
    simp only [Memory.page, Nat.mod_mod]
  · exact Memory.page_setPage_of_ne _ _ _ _ h

lemma eraseChar_erases (h : k.eraseChar = some k') : Erases k k' := by
  unfold eraseChar at h
  obtain ⟨k₁, h₁, h⟩ := Option.bind_eq_some_iff.mp h
  have hk₁ := onConsole_eq h₁
  have hk' := onConsole_eq h
  clear h h₁
  let n := (k.terminals k.activeTerminal).currentChar - 1
  let g : TerminalInfo → TerminalInfo := fun ti =>
    { ti with currentChar := n, keyboardBuffer := Function.update ti.keyboardBuffer n 0 }
  have hsaved : ∀ t, ((k.setTerminal k.activeTerminal g).terminals t).terminalScreenX =
        (k.terminals t).terminalScreenX ∧
      ((k.setTerminal k.activeTerminal g).terminals t).terminalScreenY =
        (k.terminals t).terminalScreenY := by
    intro t
    by_cases ht : t = k.activeTerminal
    · subst ht
      simp [setTerminal, g]
    · simp [setTerminal, ht]
  have hterm : k₁.terminals = (k.setTerminal k.activeTerminal g).terminals := by rw [hk₁]; rfl
  have hsched : k₁.scheduledTerminal = k.scheduledTerminal := by rw [hk₁]; rfl
  refine ⟨?_, ?_, ?_, fun frame off hoff => ?_⟩
  · rw [hk', hk₁]
    rfl
  · rw [hk', ← hsched, ← (hsaved k₁.scheduledTerminal).1, ← hterm]
    rfl
  · rw [hk', ← hsched, ← (hsaved k₁.scheduledTerminal).2, ← hterm]
    rfl
  · have hback : k'.mem.page frame = k₁.mem.page frame := by
      rw [hk']
      exact page_setPage_page _ _ _
    have hframe : ((k.setTerminal k.activeTerminal g).mapVideo video).paging.videoFrame = 184 := by
      rw [mapVideo, Paging.videoFrame_mapVideo]
      rfl
    have hmem : k₁.mem = k.mem.setPage 184 (eraseCell k.erased (k.mem.page 184)) := by
      rw [hk₁, ← hframe]
      refine congrArg (Memory.setPage _ _) ?_
      rw [Console.backspaceCalled_videoMem (Nat.mod_lt _ (by decide)) (Nat.mod_lt _ (by decide))]
      have herased : k.erased = cellBefore
          (((k.setTerminal k.activeTerminal g).terminals k.activeTerminal).terminalScreenX % 256)
          (((k.setTerminal k.activeTerminal g).terminals k.activeTerminal).terminalScreenY % 256) := by
        rw [(hsaved k.activeTerminal).1, (hsaved k.activeTerminal).2]
        rfl
      rw [herased]
      rfl
    rw [hback, hmem]
    by_cases hf : frame = 184
    · rw [if_pos hf, hf, Memory.page_setPage_self]
      dsimp only
      rw [Nat.mod_eq_of_lt hoff]
    · rw [if_neg hf, Memory.page_setPage_of_ne _ _ _ _ hf]

/-! ### The cursor after an event -/

lemma updates_cursor {chars : List UInt8} (hchars : ∀ c ∈ chars, c ≠ backspaceAscii)
    (h : chars.foldlM (fun k c => k.updateKbBuffer c) k = some k') :
    k'.screenX = k.screenX ∧ k'.screenY = k.screenY := by
  induction chars generalizing k with
  | nil =>
    obtain rfl := Option.some.inj h
    exact ⟨rfl, rfl⟩
  | cons c chars ih =>
    rw [List.foldlM_cons] at h
    obtain ⟨k₁, h₁, h⟩ := Option.bind_eq_some_iff.mp h
    have hrest := ih (fun d hd => hchars d (by simp [hd])) h
    rw [hrest.1, hrest.2]
    rcases updateKbBuffer_cases h₁ with ⟨g, rfl, -⟩ | rfl | ⟨hc, -⟩
    · exact ⟨rfl, rfl⟩
    · exact ⟨rfl, rfl⟩
    · exact absurd hc (hchars c (by simp))

lemma clearTerminal_cursor (h : k.clearTerminal = some k') :
    k'.screenX = 0 ∧ k'.screenY = 0 := by
  obtain ⟨k₁, h₁, rfl⟩ := Option.map_eq_some_iff.mp h
  have hk₁ := onConsole_eq h₁
  rw [hk₁]
  exact ⟨rfl, rfl⟩

lemma backspace_cases (h : k.updateKbBuffer backspaceAscii = some k') :
    ((k.terminals k.activeTerminal).enterFlag = true ∧
        ∃ g, k' = k.setTerminal k.activeTerminal g) ∨
      ((k.terminals k.activeTerminal).enterFlag = false ∧ k.eraseChar = some k') := by
  unfold updateKbBuffer at h
  dsimp only at h
  cases hf : (k.terminals k.activeTerminal).enterFlag with
  | true =>
    rw [hf, if_pos (Or.inr rfl)] at h
    exact Or.inl ⟨rfl, _, (Option.some.inj h).symm⟩
  | false =>
    rw [hf, if_neg (by decide), if_pos rfl] at h
    exact Or.inr ⟨rfl, h⟩

lemma keyboardHandler_backspace (h : k.keyboardHandler img f 0x0E kb = some (kb', k')) :
    k.updateKbBuffer backspaceAscii = some k' := by
  obtain ⟨k₁, h₁, h⟩ := Option.map_eq_some_iff.mp h
  obtain ⟨-, rfl⟩ := Prod.mk.inj h
  simp only [Keyboard.backspace_call, List.foldlM_cons, List.foldlM_nil, bind_pure] at h₁
  exact h₁

/-- The keys after which the cursor is where it was: any but Control-L and Backspace, a
Control-L with the cursor in the corner, and a Backspace after Enter or with the cursor at the
position saved for the scheduled terminal. -/
def CursorStays (code : UInt8) (kb : Keyboard) (k : Kernel) : Prop :=
  (code = lPress → kb.ctrlFlag = true → k.screenX = 0 ∧ k.screenY = 0) ∧
    (code = 0x0E → (k.terminals k.activeTerminal).enterFlag = false →
      k.screenX = (k.terminals k.scheduledTerminal).terminalScreenX % 256 ∧
        k.screenY = (k.terminals k.scheduledTerminal).terminalScreenY % 256)

/-- The handler leaves the live cursor where it was for these keys, and for no others. -/
theorem keyboardHandler_cursor_iff
    (hinit : ∀ t, kb.altFlag = true → Keyboard.functionKey code = some t →
      k.initializedTerminals t = true)
    (h : k.keyboardHandler img f code kb = some (kb', k')) :
    (k'.screenX = k.screenX ∧ k'.screenY = k.screenY) ↔ CursorStays code kb k := by
  have hkey : code = 0x0E → k.updateKbBuffer backspaceAscii = some k' := by
    rintro rfl
    exact keyboardHandler_backspace h
  obtain ⟨k₁, h₁, h⟩ := Option.map_eq_some_iff.mp h
  obtain ⟨-, rfl⟩ := Prod.mk.inj h
  unfold CursorStays
  by_cases hclear : code = lPress ∧ kb.ctrlFlag = true
  · obtain ⟨rfl, hctrl⟩ := hclear
    simp only [Keyboard.clear_call hctrl] at h₁
    obtain ⟨hx, hy⟩ := clearTerminal_cursor h₁
    rw [hx, hy]
    constructor
    · rintro ⟨h0, h0'⟩
      exact ⟨fun _ _ => ⟨h0.symm, h0'.symm⟩, fun hcode => absurd hcode (by decide)⟩
    · rintro ⟨hcorner, -⟩
      obtain ⟨h0, h0'⟩ := hcorner rfl hctrl
      exact ⟨h0.symm, h0'.symm⟩
  by_cases hback : code = 0x0E
  · subst hback
    rcases backspace_cases (hkey rfl) with ⟨hf, g, rfl⟩ | ⟨hf, herase⟩
    · refine iff_of_true ⟨rfl, rfl⟩ ⟨fun hcode => absurd hcode (by decide), fun _ hno => ?_⟩
      exact absurd (hf.symm.trans hno) (by decide)
    · have hspec := eraseChar_erases herase
      rw [hspec.cursorX, hspec.cursorY]
      constructor
      · rintro ⟨hx, hy⟩
        exact ⟨fun hcode => absurd hcode (by decide), fun _ _ => ⟨hx.symm, hy.symm⟩⟩
      · rintro ⟨-, hsaved⟩
        obtain ⟨hx, hy⟩ := hsaved rfl hf
        exact ⟨hx.symm, hy.symm⟩
  -- the other keys
  refine iff_of_true ?_ ⟨fun hl hctrl => absurd ⟨hl, hctrl⟩ hclear, fun hcode => absurd hcode hback⟩
  rcases Keyboard.handle_cases code kb with hcall | ⟨-, hl⟩ | ⟨target, hcall, halt, hfn⟩ |
    ⟨hcall, -⟩ | ⟨hcall, hlt⟩
  · simp only [hcall, Option.some.injEq] at h₁
    rw [h₁]
    exact ⟨rfl, rfl⟩
  · exact absurd hl hclear
  · simp only [hcall] at h₁
    rcases terminalSwitch_cases h₁ with ⟨-, rfl⟩ | ⟨-, -, rfl⟩ | ⟨-, hno, -⟩
    · exact ⟨rfl, rfl⟩
    · rw [switchScreens_eq]
      exact ⟨rfl, rfl⟩
    · rw [hinit target halt hfn] at hno
      exact absurd hno (by decide)
  · simp only [hcall] at h₁
    refine updates_cursor ?_ h₁
    intro c hc
    rw [List.eq_of_mem_replicate hc]
    decide
  · simp only [hcall] at h₁
    refine updates_cursor ?_ h₁
    intro c hc
    rw [List.mem_singleton] at hc
    rw [hc]
    exact Keyboard.outputChar_ne_backspace hlt hback

/-- A process with the cursor in column 8, while the letter `a`, typed at the prompt in column
7, stands on the screen and the last tick has saved column `x`. -/
def echoedKernel (x : ℕ) : Kernel :=
  { boot ⟨0, 0⟩ (fun a => if a = 184 * align4kb + 14 then 97 else
      if a = 184 * align4kb + 15 then attrib else 0) 8 0 with
    terminals := fun _ => { blankTerminal with
      keyboardBuffer := fun i => if i = 0 then 97 else 0
      currentChar := 1
      charInLine := 7
      terminalScreenX := x }
    initializedTerminals := fun _ => true
    firstSwap := false
    currentPcb := some 0 }

theorem keyboardHandler_cursor_saved : ∃ (kb' : Keyboard) (k' : Kernel),
    (echoedKernel 8).keyboardHandler shellImage bareFrame 0x0E Keyboard.init = some (kb', k') ∧
      k'.screenX = 8 ∧ k'.screenY = 0 := by
  have hrun : ((echoedKernel 8).keyboardHandler shellImage bareFrame 0x0E
      Keyboard.init).isSome = true := by
    decide +kernel
  obtain ⟨⟨kb', k'⟩, hk'⟩ := Option.isSome_iff_exists.mp hrun
  have hiff := keyboardHandler_cursor_iff (fun _ halt => absurd halt (by decide)) hk'
  exact ⟨kb', k', hk', hiff.mpr ⟨fun h => absurd h (by decide), fun _ _ => ⟨rfl, rfl⟩⟩⟩

/-- Backspace one column after the last tick. -/
theorem keyboardHandler_moves_cursor : ¬∀ (img : Image) (f : CallFrame) (code : UInt8)
    (kb kb' : Keyboard) (k k' : Kernel),
    ¬(code = lPress ∧ kb.ctrlFlag = true ∧ k.activeTerminal = k.scheduledTerminal) →
    (∀ t, kb.altFlag = true → Keyboard.functionKey code = some t →
      k.initializedTerminals t = true) →
    k.keyboardHandler img f code kb = some (kb', k') →
    k'.screenX = k.screenX ∧ k'.screenY = k.screenY := by
  intro h
  have hrun : ((echoedKernel 7).keyboardHandler shellImage bareFrame 0x0E Keyboard.init).map
      (fun p => p.2.screenX) = some 7 := by
    decide +kernel
  obtain ⟨⟨kb', k'⟩, hk', hx⟩ := Option.map_eq_some_iff.mp hrun
  have hsame := (h shellImage bareFrame 0x0E Keyboard.init kb' (echoedKernel 7) k'
    (by decide) (fun _ halt => absurd halt (by decide)) hk').1
  exact absurd (hx.symm.trans hsame) (by decide)

/-! ### The cell Backspace erases -/

/-- The character and the attribute of a cell on the screen of a terminal. -/
def cell (k : Kernel) (t : Fin 3) (i : ℕ) : UInt8 × UInt8 :=
  (k.mem.page (k.screenFrame t) (i * 2), k.mem.page (k.screenFrame t) (i * 2 + 1))

def blankCell : UInt8 × UInt8 := (spaceAscii, attrib)

/-- Where the line typed on the active terminal starts on its screen. -/
def promptCell (k : Kernel) : ℕ :=
  numCols * (k.terminals k.activeTerminal).currentLine +
    (k.terminals k.activeTerminal).charInLine

/-- The cell of the last character typed. -/
def lastTyped (k : Kernel) : Option ℕ :=
  let n := (k.terminals k.activeTerminal).currentChar
  if n = 0 then none else some (k.promptCell + n - 1)

/-- The process of the active terminal waits for a line, and all that is typed of it stands on
the screen. -/
structure WaitsForLine (k : Kernel) : Prop where
  waiting : (k.terminals k.activeTerminal).enterFlag = false
  short : (k.terminals k.activeTerminal).currentChar < maxBufferLength
  fits : k.promptCell + (k.terminals k.activeTerminal).currentChar ≤ numRows * numCols
  echoed : ∀ j < (k.terminals k.activeTerminal).currentChar,
    k.cell k.activeTerminal (k.promptCell + j) =
      ((k.terminals k.activeTerminal).keyboardBuffer j, attrib)

/-- The last character typed is blanked, and nothing else on any screen changes. -/
def ErasesLast (k k' : Kernel) : Prop := ∀ t, ∀ i < numRows * numCols,
  k'.cell t i = if t = k.activeTerminal ∧ k.lastTyped = some i then blankCell else k.cell t i

lemma Erases.cell (h : Erases k k') (t : Fin 3) {i : ℕ} (hi : i < numRows * numCols) :
    k'.cell t i = if t = k.activeTerminal ∧ k.erased = some i then blankCell else k.cell t i := by
  have hframe : k'.screenFrame t = k.screenFrame t := by
    rw [screenFrame_eq, screenFrame_eq, h.active]
  have heven : i * 2 < align4kb := by
    simp only [numRows, numCols, align4kb] at hi ⊢
    omega
  have hodd : i * 2 + 1 < align4kb := by
    simp only [numRows, numCols, align4kb] at hi ⊢
    omega
  unfold Kernel.cell
  rw [hframe, h.pages _ _ heven, h.pages _ _ hodd]
  by_cases ht : t = k.activeTerminal
  · have h184 : k.screenFrame t = 184 := by rw [screenFrame_eq, if_pos ht]
    rw [h184, if_pos rfl, if_pos rfl, eraseCell_even, eraseCell_odd]
    by_cases he : k.erased = some i
    · rw [if_pos he, if_pos he, if_pos ⟨ht, he⟩]
      rfl
    · rw [if_neg he, if_neg he, if_neg fun hc => he hc.2]
  · have hother : k.screenFrame t ≠ 184 := by
      rw [screenFrame_eq, if_neg ht]
      omega
    rw [if_neg hother, if_neg hother, if_neg fun hc => ht hc.1]

/-- Backspace erases the last character typed if and only if that is the cell before the position
saved at the last tick, or both cells are blank already. -/
theorem backspace_erases_iff (hk : k.WaitsForLine)
    (h : k.keyboardHandler img f 0x0E kb = some (kb', k')) :
    k.ErasesLast k' ↔ k.erased = k.lastTyped ∨ ∀ i < numRows * numCols,
      k.erased = some i ∨ k.lastTyped = some i → k.cell k.activeTerminal i = blankCell := by
  have hspec : Erases k k' := by
    rcases backspace_cases (keyboardHandler_backspace h) with ⟨hf, -⟩ | ⟨-, herase⟩
    · exact absurd (hf.symm.trans hk.waiting) (by decide)
    · exact eraseChar_erases herase
  constructor
  · intro hlast
    refine or_iff_not_imp_left.mpr fun hne i hi hor => ?_
    have hcell := hlast k.activeTerminal i hi
    have herase := hspec.cell k.activeTerminal hi
    rcases hor with he | hl
    · have hl : ¬(k.activeTerminal = k.activeTerminal ∧ k.lastTyped = some i) :=
        fun hl => hne (he.trans hl.2.symm)
      rw [if_pos ⟨rfl, he⟩] at herase
      rw [if_neg hl] at hcell
      exact hcell.symm.trans herase
    · have he : ¬(k.activeTerminal = k.activeTerminal ∧ k.erased = some i) :=
        fun he => hne (he.2.trans hl.symm)
      rw [if_neg he] at herase
      rw [if_pos ⟨rfl, hl⟩] at hcell
      exact herase.symm.trans hcell
  · intro hor t i hi
    rw [hspec.cell t hi]
    rcases hor with heq | hblank
    · rw [heq]
    · by_cases ht : t = k.activeTerminal
      · subst ht
        have hi' := hblank i hi
        split_ifs with he hl hl
        · rfl
        · exact (hi' (Or.inl he.2)).symm
        · exact hi' (Or.inr hl.2)
        · rfl
      · rw [if_neg fun hc => ht hc.1, if_neg fun hc => ht hc.1]

lemma echoedKernel_waits (x : ℕ) : (echoedKernel x).WaitsForLine := by
  have hshort : 1 < maxBufferLength := by decide
  have hfits : 80 * 0 + 7 + 1 ≤ numRows * numCols := by decide
  have hcell : (echoedKernel x).cell 0 7 = (97, attrib) :=
    Eq.trans (b := (echoedKernel 0).cell 0 7) rfl (by decide +kernel)
  refine ⟨rfl, hshort, hfits, fun j hj => ?_⟩
  have hj1 : j < 1 := hj
  obtain rfl : j = 0 := by omega
  exact hcell

theorem backspace_erases_echoed : ∃ (kb' : Keyboard) (k' : Kernel),
    (echoedKernel 8).keyboardHandler shellImage bareFrame 0x0E Keyboard.init = some (kb', k') ∧
      (echoedKernel 8).ErasesLast k' := by
  have hrun : ((echoedKernel 8).keyboardHandler shellImage bareFrame 0x0E
      Keyboard.init).isSome = true := by
    decide +kernel
  obtain ⟨⟨kb', k'⟩, hk'⟩ := Option.isSome_iff_exists.mp hrun
  exact ⟨kb', k', hk', (backspace_erases_iff (echoedKernel_waits 8) hk').mpr (Or.inl rfl)⟩

/-- The letter was typed and echoed after the last tick: the cell before it is blanked and the
letter stays. -/
theorem backspace_misses : ¬∀ (img : Image) (f : CallFrame) (kb kb' : Keyboard) (k k' : Kernel),
    k.WaitsForLine → k.keyboardHandler img f 0x0E kb = some (kb', k') → k.ErasesLast k' := by
  intro h
  have hrun : ((echoedKernel 7).keyboardHandler shellImage bareFrame 0x0E Keyboard.init).map
      (fun p => p.2.cell 0 7) = some (97, attrib) := by
    decide +kernel
  obtain ⟨⟨kb', k'⟩, hk', hcell⟩ := Option.map_eq_some_iff.mp hrun
  have hlast := h shellImage bareFrame Keyboard.init kb' (echoedKernel 7) k' (echoedKernel_waits 7)
    hk' 0 7 (by decide)
  exact absurd (hcell.symm.trans hlast) (by decide)

end Kernel

end HalOs
