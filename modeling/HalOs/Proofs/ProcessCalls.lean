import HalOs.Model.ProcessCalls
import HalOs.Proofs.FileReads

/-!
# Calls that keep out of the kernel

A call of the running process whose stores miss the kernel's 4 MB changes its descriptors and
what the drivers change, and no other PCB.
-/

namespace HalOs

section Stores

variable {ops : OpTable → UInt32} {t : Transfer} {lay : TableLayout}

/-- A store that misses the kernel misses every PCB. -/
lemma Pcb.after_eq (h : t.MissesKernel) (p : Pcb) : p.after lay t = p := by
  have hmiss : ((List.range pcbSize).any fun j => (t.byteStored (lay.base + j)).isSome) =
      false := by
    rw [List.any_eq_false]
    intro j hj
    have hlt := List.mem_range.mp hj
    obtain ⟨hlow, hhigh⟩ := base_kernel lay
    simp only [pcbSize] at hlt
    have hnone : t.byteStored (lay.base + j) = none := h _ (by omega) (by omega)
    rw [hnone]
    exact Bool.false_ne_true
  rw [Pcb.after, hmiss]
  exact if_neg Bool.false_ne_true

lemma Kernel.stores_eq {k k' : Kernel} (h : t.MissesKernel) (hk : k.stores ops t = some k') :
    k' = k := by
  have hpcbs : k.pcbsAfter ops t = k.pcbs := by
    funext q
    unfold Kernel.pcbsAfter
    cases pidIndex q with
    | none => rfl
    | some i => exact Pcb.after_eq h _
  unfold Kernel.stores at hk
  split at hk
  · exact absurd hk (by simp)
  · rw [hpcbs, Option.some.injEq] at hk
    exact hk.symm

lemma vidmap_missesKernel (screenStart : UInt32) : (vidmap screenStart).MissesKernel := by
  have hempty : ∀ a, (Transfer.mk (-1) screenStart.toNat []).byteStored a = none := fun _ => rfl
  intro a hlow hhigh
  unfold vidmap
  split_ifs with h0 hpage
  · exact hempty a
  · exact hempty a
  · rw [Transfer.byteStored, List.getElem?_eq_none_iff, List.length_map, List.length_range]
    simp only [userPageEnd, addr128mb, fourMb] at hpage
    have hstart := screenStart.toNat_lt
    dsimp only
    omega

end Stores

namespace Kernel

/-- The call of the running process stores nothing into the kernel's 4 MB. -/
def Spared (img : Image) (ops : OpTable → UInt32) (k : Kernel) (call : PcbCall) : Prop :=
  ∀ p i, k.currentPcb = some p → pidIndex p = some i →
    call.SparesKernel img ⟨i, ops⟩ (k.pcbs p).caller

/-- The call of the running process stores in its page, if anywhere. -/
def StoresInPage (img : Image) (ops : OpTable → UInt32) (k : Kernel) (call : PcbCall) : Prop :=
  ∀ p ∈ k.currentPcb, ∀ i ∈ pidIndex p, ∀ r ∈ call.run img ⟨i, ops⟩ (k.pcbs p).caller,
    r.1.InUserPage

instance (img : Image) (ops : OpTable → UInt32) (k : Kernel) (call : PcbCall) :
    Decidable (k.StoresInPage img ops call) :=
  inferInstanceAs (Decidable (∀ p ∈ k.currentPcb, ∀ i ∈ pidIndex p,
    ∀ r ∈ call.run img ⟨i, ops⟩ (k.pcbs p).caller, r.1.InUserPage))

lemma StoresInPage.spared {img : Image} {ops : OpTable → UInt32} {k : Kernel} {call : PcbCall}
    (h : k.StoresInPage img ops call) : k.Spared img ops call :=
  fun p i hp hi t p' hr => (h p hp i hi (t, p') hr).missesKernel

section Calls

variable {img : Image} {ops : OpTable → UInt32} {k k' : Kernel} {call : PcbCall} {d : Drivers}

@[simp] lemma setPcb_inUse {fds : FdTable} (p q : ℤ) :
    ((k.setPcb p fun pcb => { pcb with fdArray := fds }).pcbs q).inUse = (k.pcbs q).inUse := by
  by_cases hq : q = p
  · subst hq
    simp [setPcb]
  · simp [setPcb, hq]

@[simp] lemma setPcb_processId {fds : FdTable} (p q : ℤ) :
    ((k.setPcb p fun pcb => { pcb with fdArray := fds }).pcbs q).processId =
      (k.pcbs q).processId := by
  by_cases hq : q = p
  · subst hq
    simp [setPcb]
  · simp [setPcb, hq]

/-- What a call that keeps out of the kernel leaves. -/
lemma pcbCall_cases (h : k.pcbCall img ops call d = some k') (hspared : k.Spared img ops call) :
    ∃ p fds, k.currentPcb = some p ∧
      k' = (k.setPcb p fun pcb => { pcb with fdArray := fds }).driven d := by
  obtain ⟨p, hp, h⟩ := Option.bind_eq_some_iff.mp h
  obtain ⟨i, hi, h⟩ := Option.bind_eq_some_iff.mp h
  obtain ⟨⟨t, caller⟩, hrun, h⟩ := Option.bind_eq_some_iff.mp h
  obtain ⟨u, hu, rfl⟩ := Option.map_eq_some_iff.mp h
  obtain rfl := stores_eq (hspared p i hp hi t caller hrun) hu
  exact ⟨p, caller.fds, hp, rfl⟩

lemma vidmapCall_cases {screenStart : UInt32} (h : k.vidmapCall ops screenStart d = some k') :
    (∃ p, k.currentPcb = some p) ∧ k' = k.driven d := by
  obtain ⟨p, hp, h⟩ := Option.bind_eq_some_iff.mp h
  obtain ⟨u, hu, rfl⟩ := Option.map_eq_some_iff.mp h
  obtain rfl := stores_eq (vidmap_missesKernel screenStart) hu
  exact ⟨⟨p, hp⟩, rfl⟩

end Calls

/-- Drivers that leave all as it is. -/
def idle (k : Kernel) : Drivers := ⟨k.mem, k.screenX, k.screenY, k.terminals⟩

end Kernel

end HalOs
