import HalOs.Model.Terminal

/-!
# `terminal_write`, read by read

`terminal_write` once more, with the offsets from `buf` its loops read and the characters it
hands to `putc` beside its result.
-/

namespace HalOs

/-- The characters handed to `putc` and the offsets from `buf` read, each in order. -/
structure Output where
  chars : List UInt8
  reads : List ℕ

/-- `str_len` and `newline_count` after the first loop of `terminal_write`, and its reads. -/
structure Checked where
  strLen : ℕ
  newlines : ℕ
  reads : List ℕ

/-- The first loop of `terminal_write` from offset `i` on, with `left` rounds to go. -/
def checkBuf (buf : List UInt8) : ℕ → ℕ → Checked
  | 0, _ => ⟨0, 0, []⟩
  | left + 1, i =>
    if byteAt buf i = 0 then ⟨1, 0, [i]⟩
    else
      let rest := checkBuf buf left (i + 1)
      ⟨rest.strLen + 1, rest.newlines + if byteAt buf i = newlineAscii then 1 else 0,
        i :: rest.reads⟩

/-- `puts` of a string that starts `i` places after `buf`. -/
def putsOutput : List UInt8 → ℕ → Output
  | [], i => ⟨[], [i]⟩
  | c :: s, i =>
    if c = 0 then ⟨[], [i]⟩
    else
      let rest := putsOutput s (i + 1)
      ⟨c :: rest.chars, i :: rest.reads⟩

namespace Writer

/-- The read of `buf[nbytes - 1]`, which `nbytes != NUM_COLS` guards. -/
def lastRead (nbytes : ℕ) : List ℕ := if nbytes ≠ numCols then [nbytes - 1] else []

/-- `terminal_write` for a positive byte count, with its output. -/
def terminalWriteOutput (fuel : ℕ) (buf : List UInt8) (nbytes : ℕ) (w : Writer) :
    Option (Output × ℕ × Writer) :=
  if maxInputBufLen < nbytes then some (⟨[], []⟩, 0, w)
  else
    let checked := checkBuf buf nbytes 0
    (w.dropInput.scrollDown fuel).bind fun w =>
      ((w.wrapRoom nbytes).makeRoom checked.newlines fuel).bind fun w =>
        let printed := putsOutput buf 0
        let w := { w with
          console := printed.chars.foldl (fun v c => v.putc c)
            (w.console.setCursor w.info.charInLine w.info.currentLine) }
        let output := ⟨printed.chars, checked.reads ++ printed.reads ++ lastRead nbytes⟩
        let (w, nbytes) := w.advance buf nbytes
        let last :=
          if checked.newlines = 0 then some w else w.nextLine checked.newlines nbytes fuel
        last.map fun w =>
          (output, checked.strLen, { w with
            console := w.console.setCursor w.info.charInLine w.info.currentLine })

end Writer

end HalOs
