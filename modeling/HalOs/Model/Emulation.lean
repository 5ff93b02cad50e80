import HalOs.Model.UserCalls

/-!
# The emulated system calls

The user programs can also be linked against `ece391emulate.c`, which offers the system calls
on top of another kernel. Its `ece391_getargs` joins the arguments of `main` again.
-/

namespace HalOs

/-- The loop of `ece391_getargs` over the arguments still to come, and what follows it: value
returned and bytes stored from `buf` on. -/
def getargsLoop : List (List UInt8) → ℤ → ℤ × List UInt8
  | [], nbytes => if nbytes < 1 then (-1, []) else (0, [0])
  -- the last argument leaves the loop before the test for the space
  | [arg], nbytes =>
    if nbytes < strlen arg then (-1, [])
    else if nbytes - strlen arg < 1 then (-1, cString arg ++ [0])
    else (0, cString arg ++ [0])
  | arg :: next :: args, nbytes =>
    if nbytes < strlen arg then (-1, [])
    else if nbytes - strlen arg < 1 then (-1, cString arg ++ [0])
    else
      let r := getargsLoop (next :: args) (nbytes - strlen arg - 1)
      (r.1, cString arg ++ spaceAscii :: r.2)

/-- `ece391_getargs` of a program started with `argv`. -/
def ece391Getargs (argv : List (List UInt8)) (nbytes : ℤ) : ℤ × List UInt8 :=
  getargsLoop argv.tail nbytes

/-- The argument string of a program: its arguments with spaces between them. -/
def argumentString (argv : List (List UInt8)) : List UInt8 :=
  [spaceAscii].intercalate (argv.tail.map cString)

end HalOs
