import HalOs.Proofs.Lookups
import HalOs.Proofs.OwnHandlers

/-!
# Listing a directory

The reads of a directory descriptor go through the entries of the boot block in order, one name
a read, and then give nothing; each name opens the entry it was read from.
-/

namespace HalOs

section Names

variable {img : Image} {k : ℕ}

lemma strncpy_name (d : Dentry) :
    strncpy d.nameByte maxFilenameSize = d.name ++ List.replicate (32 - d.name.length) 0 := rfl

/-- Whatever the buffer held, it starts with these bytes after the stores. -/
theorem directoryStores_refines (img : Image) (k : ℕ) (old : ℕ → UInt8) :
    (directoryStores img k old).1 = (directoryRead img k).1 ∧
      ∀ m < (directoryRead img k).2.length,
        ((directoryStores img k old).2[m]?).getD (old m) = byteAt (directoryRead img k).2 m := by
  by_cases hend : img.numDentries.toNat ≤ k
  · simp [directoryStores, directoryRead, hend]
  · have hd : readDentryByIndex img k = some (img.bootDentries k) := if_neg (by omega)
    have hle := name_length_le (img.bootDentries k)
    have hcopy := strncpy_name (img.bootDentries k)
    have hsame : ∀ (bytes : List UInt8), ∀ m < bytes.length,
        (bytes[m]?).getD (old m) = bytes.getD m 0 := by
      intro bytes m hm
      rw [List.getElem?_eq_getElem hm, List.getD_eq_getElem _ _ hm, Option.getD_some]
    unfold directoryStores directoryRead byteAt
    simp only [if_neg hend, hd, hcopy, maxFilenameSize]
    by_cases hfull : (img.bootDentries k).name.length = 32
    · simp only [hfull, true_and, Nat.sub_self, List.replicate_zero, List.append_nil,
        show max 1 0 = 1 from rfl, List.replicate_one]
      by_cases hold : old 32 = 0
      · rw [if_neg (not_not.mpr hold)]
        refine ⟨rfl, fun m hm => ?_⟩
        -- the NUL behind the name is the one that was in the buffer
        rcases Nat.lt_or_ge m 32 with hlt | hge
        · have hm' : m < (img.bootDentries k).name.length := by omega
          rw [hsame _ m hm', List.getD_append _ _ _ _ hm']
        · have hm32 : m = 32 := by
            simp only [List.length_append, List.length_singleton] at hm
            omega
          rw [hm32, List.getElem?_eq_none hfull.le, Option.getD_none, hold,
            List.getD_append_right _ _ _ _ hfull.le, hfull]
          rfl
      · rw [if_pos hold]
        exact ⟨rfl, hsame _⟩
    · have hmax : max 1 (32 - (img.bootDentries k).name.length) =
          32 - (img.bootDentries k).name.length := by omega
      rw [if_neg fun h => hfull h.1, hmax]
      exact ⟨rfl, hsame _⟩

end Names

/-! ### Runs -/

section Runs

variable {img : Image} {lay : TableLayout} {fds fds' fds₀ fds₁ : FdTable} {i : Fin 8}
  {filename : List UInt8} {d : Dentry} {call : UserCall} {calls pre post : List UserCall} {k : ℕ}

end Runs

end HalOs
