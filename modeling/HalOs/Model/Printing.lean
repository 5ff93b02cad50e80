import HalOs.General.Loops
import HalOs.General.Numerals
import HalOs.General.Segments
import HalOs.Model.Filesystem

/-!
# Numbers as text

`itoa` with the string functions it calls, on bytes by their address, and `printf`. Their loops
are unrolled up to a bound, so that a call that never returns has no result at any bound.
-/

namespace HalOs

/-- `lookup` of `itoa`. -/
def lookup : List UInt8 :=
  [48, 49, 50, 51, 52, 53, 54, 55, 56, 57, 65, 66, 67, 68, 69, 70, 71, 72, 73, 74, 75, 76, 77, 78,
    79, 80, 81, 82, 83, 84, 85, 86, 87, 88, 89, 90]

/-- `strlen` of the string at `s`. -/
def strlenAt (fuel : ℕ) (bytes : ℕ → UInt8) (s : ℕ) : Option ℕ :=
  Loops.whileLoop (fun len => bytes (s + len) ≠ 0) (fun len => len + 1) fuel 0

/-! ### `strrev` -/

/-- The bytes and the two indices of the loop of `strrev`. -/
structure Reversal where
  bytes : ℕ → UInt8
  beg : ℕ
  last : ℕ

/-- The test of the loop. -/
def Reversal.Open (x : Reversal) : Prop := x.beg < x.last

instance : DecidablePred Reversal.Open := fun x => inferInstanceAs (Decidable (x.beg < x.last))

def Reversal.swap (s : ℕ) (x : Reversal) : Reversal where
  bytes := Function.update (Function.update x.bytes (s + x.last) (x.bytes (s + x.beg))) (s + x.beg)
    (x.bytes (s + x.last))
  beg := x.beg + 1
  last := x.last - 1

/-- `strrev`. The last index of an empty string is -1 in the source and 0 here; the loop does not
start with either. -/
def strrev (fuel s : ℕ) (bytes : ℕ → UInt8) : Option (ℕ → UInt8) :=
  (strlenAt fuel bytes s).bind fun len =>
    (Loops.whileLoop Reversal.Open (Reversal.swap s) fuel ⟨bytes, 0, len - 1⟩).map Reversal.bytes

/-! ### `itoa` -/

/-- The bytes, `newbuf` and `newval` in the loop of `itoa`. -/
structure Conversion where
  bytes : ℕ → UInt8
  newbuf : ℕ
  newval : UInt32

/-- The test of the loop. -/
def Conversion.Open (x : Conversion) : Prop := 0 < x.newval

instance : DecidablePred Conversion.Open := fun x => inferInstanceAs (Decidable (0 < x.newval))

def Conversion.place (radix : UInt32) (x : Conversion) : Conversion where
  bytes := Function.update x.bytes x.newbuf (byteAt lookup (x.newval % radix).toNat)
  newbuf := x.newbuf + 1
  newval := x.newval / radix

/-- `itoa`: the bytes after it. -/
def itoa (fuel : ℕ) (value : UInt32) (buf : ℕ) (radix : UInt32) (bytes : ℕ → UInt8) :
    Option (ℕ → UInt8) :=
  if value = 0 then some (Function.update (Function.update bytes buf 48) (buf + 1) 0)
  else
    (Loops.whileLoop Conversion.Open (Conversion.place radix) fuel ⟨bytes, buf, value⟩).bind
      fun x => strrev fuel buf (Function.update x.bytes x.newbuf 0)

/-! ### `printf` -/

/-- What `printf` takes from the machine beside its format: the words behind it on the stack, the
strings that words can point to, and what the buffer of a conversion holds before it, by the
number of the word converted. -/
structure PrintfFrame where
  esp : ℕ → UInt32
  strings : UInt32 → List UInt8
  convBuf : ℕ → ℕ → UInt8

/-- `%x`, with or without `#`: the string given to `puts`. -/
def hexString (fuel : ℕ) (alternate : Bool) (arg : UInt32) (convBuf : ℕ → UInt8) :
    Option (List UInt8) :=
  if alternate then
    (itoa fuel arg 8 16 convBuf).bind fun bytes =>
      (strlenAt fuel bytes 8).map fun start =>
        Segments.get start (64 - start)
          ((List.range' start (8 - start)).foldl (fun bytes i => Function.update bytes i 48) bytes)
  else (itoa fuel arg 0 16 convBuf).map (Segments.get 0 64)

/-- `%u`. -/
def unsignedString (fuel : ℕ) (arg : UInt32) (convBuf : ℕ → UInt8) : Option (List UInt8) :=
  (itoa fuel arg 0 10 convBuf).map (Segments.get 0 36)

/-- `%d`. -/
def signedString (fuel : ℕ) (arg : UInt32) (convBuf : ℕ → UInt8) : Option (List UInt8) :=
  if asInt32 arg.toNat < 0 then
    (itoa fuel (-arg) 1 10 (Function.update convBuf 0 45)).map (Segments.get 0 36)
  else (itoa fuel arg 0 10 convBuf).map (Segments.get 0 36)

/-- The loop of `printf` over the rest of the format: `none` outside a conversion and `alternate`
in one, and the number of words used. A format that ends in a conversion is overrun. -/
def printfLoop (fuel : ℕ) (f : PrintfFrame) :
    Option Bool → List UInt8 → ℕ → Console → Option Console
  | none, [], _, v => some v
  | some _, [], _, _ => none
  | none, b :: rest, n, v =>
    if b = 37 then printfLoop fuel f (some false) rest n v
    else printfLoop fuel f none rest n (v.putc b)
  | some alternate, b :: rest, n, v =>
    -- % # x u d c s
    if b = 37 then printfLoop fuel f none rest n (v.putc b)
    else if b = 35 then printfLoop fuel f (some true) rest n v
    else if b = 120 then
      (hexString fuel alternate (f.esp n) (f.convBuf n)).bind fun s =>
        printfLoop fuel f none rest (n + 1) (v.puts s)
    else if b = 117 then
      (unsignedString fuel (f.esp n) (f.convBuf n)).bind fun s =>
        printfLoop fuel f none rest (n + 1) (v.puts s)
    else if b = 100 then
      (signedString fuel (f.esp n) (f.convBuf n)).bind fun s =>
        printfLoop fuel f none rest (n + 1) (v.puts s)
    else if b = 99 then printfLoop fuel f none rest (n + 1) (v.putc (f.esp n).toUInt8)
    else if b = 115 then printfLoop fuel f none rest (n + 1) (v.puts (f.strings (f.esp n)))
    else printfLoop fuel f none rest n v

/-- `printf`: its result and the console. -/
def printf (fuel : ℕ) (f : PrintfFrame) (format : List UInt8) (v : Console) :
    Option (ℕ × Console) :=
  (printfLoop fuel f none (cString format) 0 v).map fun v => (strlen format, v)

/-! ### What is printed -/

inductive Specifier where
  | percent
  | hex
  | unsigned
  | signed
  | char
  | string
  deriving DecidableEq, Repr

namespace Specifier

def letter : Specifier → UInt8
  | percent => 37
  | hex => 120
  | unsigned => 117
  | signed => 100
  | char => 99
  | string => 115

/-- The number of words a conversion uses. -/
def words : Specifier → ℕ
  | percent => 0
  | _ => 1

/-- What a conversion is to print of a word. -/
def Prints (f : PrintfFrame) (alternate : Bool) (arg : UInt32) (s : List UInt8) :
    Specifier → Prop
  | percent => s = [37]
  | hex =>
    if alternate then Numerals.SpellsWide (byteAt lookup) 16 8 arg.toNat s
    else Numerals.Spells (byteAt lookup) 16 arg.toNat s
  | unsigned => Numerals.Spells (byteAt lookup) 10 arg.toNat s
  | signed =>
    ∃ digits, Numerals.Spells (byteAt lookup) 10 (asInt32 arg.toNat).natAbs digits ∧
      s = if asInt32 arg.toNat < 0 then 45 :: digits else digits
  | char => s = [arg.toUInt8]
  | string => s = cString (f.strings arg)

end Specifier

/-- A part of a format: a character printed as it is, or a conversion with some `#` signs. -/
inductive FormatPiece where
  | plain (b : UInt8)
  | conversion (alternates : ℕ) (s : Specifier)
  deriving DecidableEq, Repr

namespace FormatPiece

def code : FormatPiece → List UInt8
  | plain b => [b]
  | conversion alternates s => 37 :: (List.replicate alternates 35 ++ [s.letter])

def WellFormed : FormatPiece → Prop
  | plain b => b ≠ 37 ∧ b ≠ 0
  | conversion _ _ => True

end FormatPiece

/-- The text of the pieces, with the words from the `n`-th on. -/
inductive Printed (f : PrintfFrame) : List FormatPiece → ℕ → List UInt8 → Prop where
  | nil (n : ℕ) : Printed f [] n []
  | plain {ps : List FormatPiece} {n : ℕ} {out : List UInt8} (b : UInt8)
      (rest : Printed f ps n out) : Printed f (.plain b :: ps) n (b :: out)
  | conversion {ps : List FormatPiece} {n alternates : ℕ} {s : Specifier} {text out : List UInt8}
      (prints : s.Prints f (alternates ≠ 0) (f.esp n) text) (rest : Printed f ps (n + s.words) out) :
      Printed f (.conversion alternates s :: ps) n (text ++ out)

end HalOs
