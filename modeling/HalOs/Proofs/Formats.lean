import HalOs.Proofs.Itoa

/-!
# What `printf` prints

A conversion gives `puts` a text in its own buffer. For `%#x` the zeros go in front of the digits,
between the offset equal to their number and the digits themselves.
-/

namespace HalOs

open Segments

variable {f : PrintfFrame} {fuel n w : ℕ} {arg : UInt32} {convBuf : ℕ → UInt8} {alternate : Bool}
  {sp : Specifier} {ps : List FormatPiece} {text out out' : List UInt8} {v : Console}

/-! ### The conversions -/

/-- The string at a text stored with its NUL, in a buffer that it fits in. -/
lemma cString_get (h : 0 ∉ text) (hn : text.length < n) (k : ℕ) (bytes : ℕ → UInt8) :
    cString (get k n (put k (text ++ [0]) bytes)) = text := by
  obtain ⟨r, rfl⟩ := Nat.exists_eq_add_of_le (show (text ++ [0]).length ≤ n by simp; omega)
  rw [get_put_add, List.append_assoc, List.singleton_append, cString_text h]

lemma length_numeralText {b : ℕ} (hb : 1 < b) (hw : 0 < w) (hn : n < b ^ w) :
    (numeralText b n).length ≤ w := by
  rw [numeralText, List.length_map]
  exact Numerals.length_numeral_le hb hw hn

lemma itoa_get (radix : UInt32) (hb : 1 < radix.toNat) (hb36 : radix.toNat ≤ 36) (hf : 32 ≤ fuel)
    (hw : 0 < w) (hfit : 2 ^ 32 ≤ radix.toNat ^ w) (hn : w < n) (arg : UInt32) (k : ℕ)
    (bytes : ℕ → UInt8) : ∃ bytes', itoa fuel arg k radix bytes = some bytes' ∧
      cString (get k n bytes') = numeralText radix.toNat arg.toNat := by
  refine ⟨_, itoa_put arg radix hb hb36 hf k bytes, ?_⟩
  have hlen := length_numeralText hb hw (arg.toNat_lt.trans_le hfit)
  exact cString_get (not_mem_numeralText hb hb36 arg.toNat) (by omega) k bytes

lemma unsignedString_text (hf : 32 ≤ fuel) (arg : UInt32) (convBuf : ℕ → UInt8) :
    ∃ s, unsignedString fuel arg convBuf = some s ∧ cString s = numeralText 10 arg.toNat := by
  obtain ⟨bytes, hitoa, htext⟩ := itoa_get (w := 10) (n := 36) 10 (by decide) (by decide) hf
    (by decide) (by decide) (by decide) arg 0 convBuf
  exact ⟨_, congrArg (Option.map _) hitoa, htext⟩

/-- The number behind the minus sign, of the least value too. -/
lemma toNat_neg_of_neg (h : asInt32 arg.toNat < 0) : (-arg).toNat = (asInt32 arg.toNat).natAbs := by
  have hlt := arg.toNat_lt
  rw [UInt32.toNat_neg]
  simp only [asInt32, UInt32.size] at h ⊢
  omega

lemma toNat_of_nonneg (h : ¬asInt32 arg.toNat < 0) : arg.toNat = (asInt32 arg.toNat).natAbs := by
  have hlt := arg.toNat_lt
  simp only [asInt32] at h ⊢
  omega

/-- The signed form of a word. -/
def signedText (arg : UInt32) : List UInt8 :=
  if asInt32 arg.toNat < 0 then 45 :: numeralText 10 (asInt32 arg.toNat).natAbs
  else numeralText 10 (asInt32 arg.toNat).natAbs

lemma signedString_text (hf : 32 ≤ fuel) (arg : UInt32) (convBuf : ℕ → UInt8) :
    ∃ s, signedString fuel arg convBuf = some s ∧ cString s = signedText arg := by
  unfold signedString signedText
  by_cases h : asInt32 arg.toNat < 0
  · have hnumber := toNat_neg_of_neg h
    have hmem := not_mem_numeralText (b := 10) (by decide) (by decide) (-arg).toNat
    have hlen := length_numeralText (b := 10) (w := 10) (by decide) (by decide)
      ((-arg).toNat_lt.trans_le (by decide))
    have hitoa := itoa_put (-arg) 10 (by decide) (by decide) hf 1 (Function.update convBuf 0 45)
    rw [if_pos h, if_pos h, hitoa, Option.map_some]
    refine ⟨_, rfl, ?_⟩
    -- the minus sign and the digits make one text
    rw [← put_cons, ← List.cons_append, ← hnumber]
    refine cString_get ?_ ?_ 0 convBuf
    · rw [List.mem_cons, not_or]
      exact ⟨by decide, hmem⟩
    · rw [List.length_cons]
      exact lt_of_le_of_lt (Nat.succ_le_succ hlen) (by decide)
  · rw [if_neg h, if_neg h, ← toNat_of_nonneg h]
    exact unsignedString_text hf arg convBuf

/-- The eight digits of a word. -/
def wideText (arg : UInt32) : List UInt8 := (Numerals.padded 16 8 arg.toNat).map (byteAt lookup)

lemma wideText_eq (arg : UInt32) : wideText arg =
    List.replicate (8 - (numeralText 16 arg.toNat).length) 48 ++ numeralText 16 arg.toNat := by
  rw [wideText, Numerals.padded, List.map_append, List.map_replicate, numeralText, List.length_map]
  rfl

lemma zeros_put (start k : ℕ) (bytes : ℕ → UInt8) :
    (List.range' start k).foldl (fun bytes i => Function.update bytes i 48) bytes =
      put start (List.replicate k 48) bytes := by
  induction k with
  | zero => exact put_nil.symm
  | succ k ih =>
    rw [List.range'_1_concat, List.foldl_append, List.foldl_cons, List.foldl_nil, ih,
      List.replicate_succ', ← update_put, List.length_replicate]

lemma hexString_text (hf : 32 ≤ fuel) (alternate : Bool) (arg : UInt32) (convBuf : ℕ → UInt8) :
    ∃ s, hexString fuel alternate arg convBuf = some s ∧
      cString s = if alternate then wideText arg else numeralText 16 arg.toNat := by
  unfold hexString
  cases alternate with
  | false =>
    obtain ⟨bytes, hitoa, htext⟩ := itoa_get (w := 8) (n := 64) 16 (by decide) (by decide) hf
      (by decide) (by decide) (by decide) arg 0 convBuf
    exact ⟨_, congrArg (Option.map _) hitoa, htext⟩
  | true =>
    have hmem := not_mem_numeralText (b := 16) (by decide) (by decide) arg.toNat
    have hlen : (numeralText 16 arg.toNat).length ≤ 8 :=
      length_numeralText (by decide) (by decide) (arg.toNat_lt.trans_le (by decide))
    have hitoa := itoa_put arg 16 (by decide) (by decide) hf 8 convBuf
    have htext : numeralText (UInt32.toNat 16) arg.toNat = numeralText 16 arg.toNat := rfl
    rw [htext] at hitoa
    rw [if_pos rfl, if_pos rfl, hitoa, Option.bind_some, strlenAt_put hmem (by omega),
      Option.map_some]
    refine ⟨_, rfl, ?_⟩
    rw [wideText_eq, zeros_put]
    generalize numeralText 16 arg.toNat = text at hmem hlen
    generalize hzeros : List.replicate (8 - text.length) (48 : UInt8) = zeros
    have hcount : zeros.length = 8 - text.length := by rw [← hzeros, List.length_replicate]
    -- the zeros end where the digits begin, at 8
    have hmeet : text.length + zeros.length = 8 := by omega
    have hsplit : 64 - text.length = zeros.length + 56 := by omega
    obtain ⟨r, hr⟩ := Nat.exists_eq_add_of_le (show (text ++ [0]).length ≤ 56 by
      rw [List.length_append, List.length_singleton]
      omega)
    rw [hsplit, get_put_add, hmeet, hr, get_put_add, List.append_assoc, List.singleton_append,
      ← List.append_assoc]
    refine cString_text fun h0 => ?_
    rcases List.mem_append.mp h0 with hzero | hdigit
    · rw [← hzeros] at hzero
      exact absurd (List.eq_of_mem_replicate hzero) (by decide)
    · exact hmem hdigit

/-! ### Formats -/

namespace Specifier

/-- The text of a conversion. -/
def output (f : PrintfFrame) (alternate : Bool) (arg : UInt32) : Specifier → List UInt8
  | percent => [37]
  | hex => if alternate then wideText arg else numeralText 16 arg.toNat
  | unsigned => numeralText 10 arg.toNat
  | signed => signedText arg
  | char => [arg.toUInt8]
  | string => cString (f.strings arg)

/-- What a conversion is to print is one text. -/
theorem prints_iff : sp.Prints f alternate arg text ↔ text = sp.output f alternate arg := by
  have hten : (1 : ℕ) < 10 := by decide
  have hsixteen : (1 : ℕ) < 16 := by decide
  cases sp with
  | percent => exact Iff.rfl
  | hex =>
    cases alternate with
    | false => exact Numerals.spells_iff hsixteen
    | true =>
      have hfit : arg.toNat < 16 ^ 8 := arg.toNat_lt.trans_le (by decide)
      exact Numerals.spellsWide_iff hsixteen (by decide) hfit
  | unsigned => exact Numerals.spells_iff hten
  | signed =>
    have hspells : ∀ digits, Numerals.Spells (byteAt lookup) 10 (asInt32 arg.toNat).natAbs digits ↔
        digits = numeralText 10 (asInt32 arg.toNat).natAbs := fun _ => Numerals.spells_iff hten
    unfold Prints output signedText
    simp only [hspells, exists_eq_left]
  | char => exact Iff.rfl
  | string => exact Iff.rfl

end Specifier

lemma printfLoop_puts {string : Option (List UInt8)} (h : ∃ s, string = some s ∧ cString s = text)
    (rest : List UInt8) : (string.bind fun s => printfLoop fuel f none rest n (v.puts s)) =
      printfLoop fuel f none rest n (text.foldl (fun v c => v.putc c) v) := by
  obtain ⟨s, hs, htext⟩ := h
  rw [hs, Option.bind_some, Console.puts, htext]

lemma printfLoop_letter (hf : 32 ≤ fuel) (sp : Specifier) (rest : List UInt8) :
    printfLoop fuel f (some alternate) (sp.letter :: rest) n v =
      printfLoop fuel f none rest (n + sp.words)
        ((sp.output f alternate (f.esp n)).foldl (fun v c => v.putc c) v) := by
  cases sp with
  | percent => rfl
  | hex =>
    have hstep : printfLoop fuel f (some alternate) (Specifier.hex.letter :: rest) n v =
        (hexString fuel alternate (f.esp n) (f.convBuf n)).bind fun s =>
          printfLoop fuel f none rest (n + 1) (v.puts s) := by
      simp [printfLoop, Specifier.letter]
    exact hstep.trans (printfLoop_puts (hexString_text hf alternate (f.esp n) (f.convBuf n)) rest)
  | unsigned =>
    have hstep : printfLoop fuel f (some alternate) (Specifier.unsigned.letter :: rest) n v =
        (unsignedString fuel (f.esp n) (f.convBuf n)).bind fun s =>
          printfLoop fuel f none rest (n + 1) (v.puts s) := by
      simp [printfLoop, Specifier.letter]
    exact hstep.trans (printfLoop_puts (unsignedString_text hf (f.esp n) (f.convBuf n)) rest)
  | signed =>
    have hstep : printfLoop fuel f (some alternate) (Specifier.signed.letter :: rest) n v =
        (signedString fuel (f.esp n) (f.convBuf n)).bind fun s =>
          printfLoop fuel f none rest (n + 1) (v.puts s) := by
      simp [printfLoop, Specifier.letter]
    exact hstep.trans (printfLoop_puts (signedString_text hf (f.esp n) (f.convBuf n)) rest)
  | char => rfl
  | string => rfl

lemma printfLoop_alternates (k : ℕ) (l : List UInt8) :
    printfLoop fuel f (some alternate) (List.replicate k 35 ++ l) n v =
      printfLoop fuel f (some (alternate || decide (k ≠ 0))) l n v := by
  induction k generalizing alternate with
  | zero => simp
  | succ k ih =>
    have hstep : printfLoop fuel f (some alternate) (35 :: (List.replicate k 35 ++ l)) n v =
        printfLoop fuel f (some true) (List.replicate k 35 ++ l) n v := rfl
    rw [List.replicate_succ, List.cons_append, hstep, ih]
    simp

lemma printfLoop_printed (hf : 32 ≤ fuel) (hps : ∀ p ∈ ps, p.WellFormed)
    (h : Printed f ps n out) (v : Console) :
    printfLoop fuel f none (ps.flatMap FormatPiece.code) n v =
      some (out.foldl (fun v c => v.putc c) v) := by
  induction h generalizing v with
  | nil n => rfl
  | @plain ps n out b _ ih =>
    obtain ⟨hpercent, -⟩ := hps (.plain b) List.mem_cons_self
    have hstep : printfLoop fuel f none (b :: ps.flatMap FormatPiece.code) n v =
        printfLoop fuel f none (ps.flatMap FormatPiece.code) n (v.putc b) := by
      rw [printfLoop, if_neg hpercent]
    exact hstep.trans (ih (fun p hp => hps p (List.mem_cons_of_mem _ hp)) _)
  | @conversion ps n k sp text out prints _ ih =>
    have hstep : printfLoop fuel f none ((FormatPiece.conversion k sp :: ps).flatMap
        FormatPiece.code) n v = printfLoop fuel f (some false)
          (List.replicate k 35 ++ (sp.letter :: ps.flatMap FormatPiece.code)) n v := by
      rw [List.flatMap_cons, FormatPiece.code, List.cons_append, printfLoop, if_pos rfl,
        List.append_assoc, List.singleton_append]
    rw [hstep, printfLoop_alternates, printfLoop_letter hf, Bool.false_or, List.foldl_append,
      Specifier.prints_iff.mp prints]
    exact ih (fun p hp => hps p (List.mem_cons_of_mem _ hp)) _

lemma printed_unique (f : PrintfFrame) (ps : List FormatPiece) (n : ℕ) :
    ∃ out, ∀ out', Printed f ps n out' ↔ out' = out := by
  induction ps generalizing n with
  | nil =>
    refine ⟨[], fun out' => ⟨fun h => ?_, fun h => h ▸ Printed.nil n⟩⟩
    cases h
    rfl
  | cons p ps ih =>
    cases p with
    | plain b =>
      obtain ⟨out, hout⟩ := ih n
      refine ⟨b :: out, fun out' => ⟨fun h => ?_, fun h => h ▸ .plain b ((hout out).mpr rfl)⟩⟩
      cases h with
      | plain _ rest => rw [(hout _).mp rest]
    | conversion k sp =>
      obtain ⟨out, hout⟩ := ih (n + sp.words)
      refine ⟨sp.output f (k ≠ 0) (f.esp n) ++ out, fun out' => ⟨fun h => ?_, fun h => ?_⟩⟩
      · cases h with
        | conversion prints rest => rw [Specifier.prints_iff.mp prints, (hout _).mp rest]
      · exact h ▸ .conversion (Specifier.prints_iff.mpr rfl) ((hout out).mpr rfl)

lemma code_ne_zero {p : FormatPiece} (h : p.WellFormed) : 0 ∉ p.code := by
  cases p with
  | plain b => simpa [FormatPiece.code] using h.2.symm
  | conversion k sp =>
    have hletter : 0 ≠ sp.letter := by cases sp <;> decide
    simp [FormatPiece.code, hletter]

/-- `itoa` stores the one string of digits without leading zeros that denotes its argument, and
`printf` prints the text of its format, with the forms of the words for the conversions. -/
theorem itoa_printf :
    (∀ (value radix : UInt32) (buf : ℕ) (bytes : ℕ → UInt8),
      2 ≤ radix.toNat → radix.toNat ≤ 36 → ∃ text,
        (∀ s, Numerals.Spells (byteAt lookup) radix.toNat value.toNat s ↔ s = text) ∧
        0 ∉ text ∧ ∀ fuel, 32 ≤ fuel →
          itoa fuel value buf radix bytes = some (put buf (text ++ [0]) bytes)) ∧
    ∀ (f : PrintfFrame) (ps : List FormatPiece) (behind : List UInt8) (v : Console),
      (∀ p ∈ ps, p.WellFormed) → ∃ out, (∀ out', Printed f ps 0 out' ↔ out' = out) ∧
        ∀ fuel, 32 ≤ fuel → printf fuel f (ps.flatMap FormatPiece.code ++ 0 :: behind) v =
          some ((ps.flatMap FormatPiece.code).length, out.foldl (fun v c => v.putc c) v) := by
  refine ⟨fun value radix buf bytes hb hb36 => ?_, fun f ps behind v hps => ?_⟩
  · exact ⟨_, fun s => Numerals.spells_iff hb, not_mem_numeralText hb hb36 value.toNat,
      fun fuel hf => itoa_put value radix hb hb36 hf buf bytes⟩
  · obtain ⟨out, hout⟩ := printed_unique f ps 0
    refine ⟨out, hout, fun fuel hf => ?_⟩
    have hformat : cString (ps.flatMap FormatPiece.code ++ 0 :: behind) =
        ps.flatMap FormatPiece.code := by
      refine cString_text fun h0 => ?_
      obtain ⟨p, hp, hmem⟩ := List.mem_flatMap.mp h0
      exact code_ne_zero (hps p hp) hmem
    rw [printf, strlen, hformat, printfLoop_printed hf hps ((hout out).mpr rfl) v, Option.map_some]

/-- The least word in a format with a letter in front of it. -/
theorem itoa_printf_least : let f : PrintfFrame := ⟨fun _ => 0x80000000, fun _ => [], fun _ _ => 1⟩
    let v : Console := ⟨0, 0, fun _ => 0, []⟩
    (∃ text, (∀ s, Numerals.Spells (byteAt lookup) 36 35 s ↔ s = text) ∧ 0 ∉ text ∧
      ∀ fuel, 32 ≤ fuel → itoa fuel 35 8 36 (fun _ => 1) = some (put 8 (text ++ [0]) fun _ => 1)) ∧
    ∃ out, (∀ out', Printed f [.plain 110, .conversion 0 .signed] 0 out' ↔ out' = out) ∧
      ∀ fuel, 32 ≤ fuel → printf fuel f [110, 37, 100, 0] v =
        some (3, out.foldl (fun v c => v.putc c) v) := by
  intro f v
  have hpieces : ∀ p ∈ [FormatPiece.plain 110, .conversion 0 .signed], p.WellFormed := by
    intro p hp
    rcases List.mem_cons.mp hp with rfl | hp
    · exact ⟨by decide, by decide⟩
    · rw [List.mem_singleton.mp hp]
      trivial
  exact ⟨itoa_printf.1 35 36 8 _ (by decide) (by decide), itoa_printf.2 f _ [] v hpieces⟩

example : (signedString 32 0x80000000 fun _ => 1).map cString =
    some [45, 50, 49, 52, 55, 52, 56, 51, 54, 52, 56] := by decide +kernel

end HalOs
