import HalOs.Proofs.Arguments
import HalOs.Proofs.Grep

/-!
# `grep` over the directory

The whole program: for each entry of the directory whose name does not start with a dot, in the
order of the directory, the lines of its file that contain the search string.
-/

namespace HalOs.Grep

open Segments

section Directory

variable {img : Image} {dev : Device} {search : List UInt8} {inode : UInt32} {k rounds : ℕ}
  {d : Dentry} {args : Args}

end Directory

end HalOs.Grep
