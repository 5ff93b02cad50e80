import HalOs.Model.UserCalls
import HalOs.Proofs.Handlers
import HalOs.Proofs.Strings

/-!
# Argument strings

`execute` copies the part of the command after its first space into the PCB of the new
process, unless that space ends the command or the command is empty. Then the string an
earlier process left in the PCB stays.
-/

namespace HalOs

/-- The part of a command after its first space. -/
def afterSpace (cmd : List UInt8) : List UInt8 := (cmd.dropWhile (· ≠ spaceAscii)).tail

/-- The command is empty, or its first space is its last character. -/
def KeepsOldArgument (cmd : List UInt8) : Prop :=
  cmd = [] ∨ ∃ word, spaceAscii ∉ word ∧ cmd = word ++ [spaceAscii]

section Commands

variable {cmd : List UInt8}

lemma commandWord_append (cmd : List UInt8) :
    commandWord cmd ++ cmd.dropWhile (· ≠ spaceAscii) = cmd := List.takeWhile_append_dropWhile

lemma not_mem_commandWord (cmd : List UInt8) : spaceAscii ∉ commandWord cmd := fun h => by
  have hne := List.mem_takeWhile_imp h
  simp at hne

lemma command_cases (cmd : List UInt8) :
    (commandWord cmd = cmd ∧ afterSpace cmd = []) ∨
      cmd = commandWord cmd ++ spaceAscii :: afterSpace cmd := by
  cases hrest : cmd.dropWhile (· ≠ spaceAscii) with
  | nil =>
    have h := commandWord_append cmd
    rw [hrest, List.append_nil] at h
    exact Or.inl ⟨h, by rw [afterSpace, hrest]; rfl⟩
  | cons b rest =>
    have hb : b = spaceAscii := by
      have hhead := List.head?_dropWhile_not (· ≠ spaceAscii) cmd
      rw [hrest] at hhead
      simpa using hhead
    have h := commandWord_append cmd
    rw [hrest, hb] at h
    refine Or.inr ?_
    rw [afterSpace, hrest]
    exact h.symm

lemma commandArg_eq (cmd : List UInt8) : commandArg cmd = afterSpace cmd := by
  rcases command_cases cmd with ⟨hword, hafter⟩ | hsplit
  · rw [hafter, commandArg, argStart, hword, if_neg (lt_irrefl _), if_pos rfl]
  · have hlen := congrArg List.length hsplit
    rw [List.length_append, List.length_cons] at hlen
    have hdrop : cmd.drop ((commandWord cmd).length + 1) = afterSpace cmd := by
      calc cmd.drop ((commandWord cmd).length + 1)
          = (commandWord cmd ++ spaceAscii :: afterSpace cmd).drop
              ((commandWord cmd).length + 1) := by rw [← hsplit]
        _ = afterSpace cmd := by rw [← List.drop_drop, List.drop_left]; rfl
    have hstart : argStart cmd = (commandWord cmd).length + 1 := if_pos (by omega)
    rw [commandArg, hstart, if_neg (Nat.succ_ne_zero _), hdrop]

lemma argStart_lt (cmd : List UInt8) : argStart cmd < cmd.length ↔ ¬KeepsOldArgument cmd := by
  rcases command_cases cmd with ⟨hword, -⟩ | hsplit
  · have hnot : ¬∃ word, spaceAscii ∉ word ∧ cmd = word ++ [spaceAscii] := by
      rintro ⟨word, -, heq⟩
      have hmem := not_mem_commandWord cmd
      rw [hword] at hmem
      exact hmem (heq ▸ by simp)
    rw [argStart, hword, if_neg (lt_irrefl _), KeepsOldArgument, or_iff_left hnot,
      List.length_pos_iff]
  · have hlen := congrArg List.length hsplit
    rw [List.length_append, List.length_cons] at hlen
    have hne : cmd ≠ [] := by
      rintro rfl
      simp at hlen
    rw [argStart, if_pos (by omega), KeepsOldArgument, or_iff_right hne]
    constructor
    · rintro hlt ⟨word, hword, heq⟩
      have hsame : commandWord cmd = word := by
        rw [heq, commandWord, List.takeWhile_append_of_pos]
        · simp
        · intro b hb
          have hb' : b ≠ spaceAscii := fun h => hword (h ▸ hb)
          simpa using hb'
      have hl := congrArg List.length heq
      simp [← hsame] at hl
      omega
    · intro h
      by_contra hlt
      have hnil : afterSpace cmd = [] := List.length_eq_zero_iff.mp (by omega)
      rw [hnil] at hsplit
      exact h ⟨commandWord cmd, not_mem_commandWord cmd, hsplit⟩

lemma not_mem_cString (s : List UInt8) : 0 ∉ cString s := fun h => by
  have hne := List.mem_takeWhile_imp h
  simp at hne

lemma not_mem_afterSpace (h : 0 ∉ cmd) : 0 ∉ afterSpace cmd := fun h0 =>
  h ((List.dropWhile_sublist _).subset (List.mem_of_mem_tail h0))

/-- What `getargs` leaves in a buffer with room for `n` bytes is the string in the PCB. -/
lemma cString_strncpy (arg : ℕ → UInt8) (n : ℕ) : cString (strncpy arg n) = stringAt arg n 0 := by
  have h0 := not_mem_cString ((List.range n).map arg)
  rw [stringAt, ← List.range_eq_range', strncpy]
  generalize cString ((List.range n).map arg) = text at h0 ⊢
  rw [cString, List.takeWhile_append_of_pos]
  · simp
  · intro b hb
    have hne : b ≠ 0 := fun h => h0 (h ▸ hb)
    simpa using hne

end Commands

namespace Kernel

variable {img : Image} {k k' : Kernel} {f : CallFrame} {command : List UInt8} {pid : ℤ}

lemma checkProgram_arg {old : ℕ → UInt8} {program : Program}
    (h : checkProgram img old command = some (some program)) :
    program.arg = afterSpace (cString command) ∧
      (program.copyArg = true ↔ ¬KeepsOldArgument (cString command)) := by
  unfold checkProgram at h
  dsimp only at h
  by_cases hlen : execArgLen < (cString command).length
  · rw [if_pos hlen] at h
    exact absurd h (by simp)
  · rw [if_neg hlen] at h
    obtain ⟨found, -, h⟩ := Option.map_eq_some_iff.mp h
    obtain ⟨d, -, h⟩ := Option.bind_eq_some_iff.mp h
    split_ifs at h
    obtain rfl := Option.some.inj h
    exact ⟨commandArg_eq _, by rw [decide_eq_true_eq, argStart_lt]⟩

/-- The new process is current, and its argument is copied or left by an earlier process. -/
lemma execute_arg (h : k.execute img f command = some (k', some pid)) :
    k'.currentPcb = some pid ∧
      (KeepsOldArgument (cString command) → (k'.pcbs pid).arg = (k.pcbs pid).arg) ∧
      (¬KeepsOldArgument (cString command) → ∃ a : Activation,
        a.program.arg = afterSpace (cString command) ∧
        (k'.pcbs pid).arg = a.copiedArg (k.pcbs pid).arg) := by
  rcases execute_cases h with ⟨hnone, -⟩ | ⟨a, mem, -, hres, -, hacc, hk'⟩
  · exact absurd hnone (by simp)
  obtain rfl := Option.some.inj hres
  obtain ⟨harg, hcopy⟩ := checkProgram_arg hacc
  have hinst : ((k.installed a mem).pcbs a.pid).arg =
      if a.program.copyArg then a.copiedArg (k.pcbs a.pid).arg else (k.pcbs a.pid).arg := by
    simp [installed, installedPcbs, newPcb]
  have hfinal : k'.currentPcb = some a.pid ∧
      (k'.pcbs a.pid).arg = ((k.installed a mem).pcbs a.pid).arg := by
    rcases hk' with ⟨rfl, -⟩ | ⟨-, -, hpre, -⟩
    · exact ⟨rfl, rfl⟩
    · have hkeep : ∀ (r : Regs) (k₁ k₂ : Kernel),
          (k₁.pcbs a.pid).arg = ((k.installed a mem).pcbs a.pid).arg →
          k₁.scheduler r = some k₂ →
          (k₂.pcbs a.pid).arg = ((k.installed a mem).pcbs a.pid).arg := by
        intro r k₁ k₂ h₁ hs
        obtain ⟨p, next, -, -, rfl⟩ := scheduler_cases hs
        rw [← h₁, switchTo, saved_pcbs]
      exact (preempt_cases hkeep (fun _ h => h) rfl rfl hpre).symm
  refine ⟨hfinal.1, fun hkeeps => ?_, fun hcopies => ⟨a, harg, ?_⟩⟩
  · rw [hfinal.2, hinst, if_neg (fun h => hcopy.mp h hkeeps)]
  · rw [hfinal.2, hinst, if_pos (hcopy.mpr hcopies)]

lemma stringAt_copiedArg {a : Activation} {old : ℕ → UInt8} {n : ℕ} (h0 : 0 ∉ a.program.arg)
    (hn : a.program.arg.length < n) : stringAt (a.copiedArg old) n 0 = a.program.arg := by
  apply stringAt_of_spelled h0 _ _ hn
  · intro j hj
    simp [Activation.copiedArg, hj, byteAt]
  · simp [Activation.copiedArg]

/-- The new process gets the part of its command after the first space if and only if that
space does not end the command, which is not empty, or the PCB held no argument before. -/
theorem getargs_execute_iff {buf : UInt32} {nbytes : ℤ}
    (h : k.execute img f command = some (k', some pid))
    (_hword : (commandWord (cString command)).length ≤ 31) (hbuf : buf ≠ 0)
    (hn : (afterSpace (cString command)).length < nbytes) :
    (∃ bytes, k'.getargs buf nbytes = some (0, bytes) ∧
        cString bytes = afterSpace (cString command)) ↔
      (¬KeepsOldArgument (cString command) ∨ (k.pcbs pid).arg 0 = 0) := by
  obtain ⟨hcur, hkeep, hcopy⟩ := execute_arg h
  have hargs : k'.getargs buf nbytes = some (0, strncpy (k'.pcbs pid).arg nbytes.toNat) := by
    rw [getargs, if_neg (by simp only [hbuf, false_or]; omega), hcur]
    rfl
  have hiff : (∃ bytes, k'.getargs buf nbytes = some (0, bytes) ∧
      cString bytes = afterSpace (cString command)) ↔
      stringAt (k'.pcbs pid).arg nbytes.toNat 0 = afterSpace (cString command) := by
    rw [← cString_strncpy, hargs]
    simp
  rw [hiff]
  by_cases hold : KeepsOldArgument (cString command)
  · have hempty : afterSpace (cString command) = [] := by
      rcases hold with hnil | ⟨word, hword, heq⟩
      · rw [hnil]
        rfl
      · rw [heq, afterSpace, List.dropWhile_append_of_pos]
        · simp
        · intro b hb
          have hne : b ≠ spaceAscii := fun h => hword (h ▸ hb)
          simpa using hne
    rw [hkeep hold, hempty]
    obtain ⟨n, hsucc⟩ : ∃ n, nbytes.toNat = n + 1 := ⟨nbytes.toNat - 1, by omega⟩
    rw [hsucc, stringAt_succ]
    simp [hold]
  · obtain ⟨a, harg, hcopied⟩ := hcopy hold
    have hstring : stringAt (k'.pcbs pid).arg nbytes.toNat 0 = afterSpace (cString command) := by
      rw [hcopied, ← harg]
      apply stringAt_copiedArg
      · rw [harg]
        exact not_mem_afterSpace (not_mem_cString command)
      · rw [harg]
        omega
    simp [hold, hstring]

/-- A process started with an argument ends, and its PCB goes to the next one. -/
def reusedPcb : List Event :=
  [.execute bareFrame shellCommand, .execute bareFrame (shellCommand ++ [spaceAscii, 120]),
    .halt bareFrame 0]

/-- In the PCB of a process that had an argument, "shell y" gets its own, and "shell " with
nothing after the space does not. -/
theorem getargs_execute_iff_shell : ∃ k k' k'',
    Runs.Path (step shellImage) (fun _ _ => True) (boot ⟨0, 0⟩ (fun _ => 0) 0 0) reusedPcb k ∧
    k.execute shellImage bareFrame (shellCommand ++ [spaceAscii, 121]) = some (k', some 3) ∧
    (∃ bytes, k'.getargs 0x8100000 128 = some (0, bytes) ∧ cString bytes = [121]) ∧
    k.execute shellImage bareFrame (shellCommand ++ [spaceAscii]) = some (k'', some 3) ∧
    ¬∃ bytes, k''.getargs 0x8100000 128 = some (0, bytes) ∧ cString bytes = [] := by
  have hrun : ((Runs.run (step shellImage) (fun _ _ => True) (boot ⟨0, 0⟩ (fun _ => 0) 0 0)
      reusedPcb).bind fun k =>
      (k.execute shellImage bareFrame (shellCommand ++ [spaceAscii, 121])).bind fun r =>
      (k.execute shellImage bareFrame (shellCommand ++ [spaceAscii])).map fun r' =>
        (r.2, r'.2, (k.pcbs 3).arg 0)) = some (some 3, some 3, 120) := by
    decide +kernel
  obtain ⟨k, hk, hrun⟩ := Option.bind_eq_some_iff.mp hrun
  obtain ⟨⟨k', res⟩, hex, hrun⟩ := Option.bind_eq_some_iff.mp hrun
  obtain ⟨⟨k'', res'⟩, hex', hrun⟩ := Option.map_eq_some_iff.mp hrun
  simp only [Prod.mk.injEq] at hrun
  obtain ⟨rfl, rfl, hold⟩ := hrun
  have hbuf : (0x8100000 : UInt32) ≠ 0 := by decide
  have hroom : ((afterSpace (cString (shellCommand ++ [spaceAscii, 121]))).length : ℤ) < 128 := by
    decide
  have hroom' : ((afterSpace (cString (shellCommand ++ [spaceAscii]))).length : ℤ) < 128 := by
    decide
  have hown := getargs_execute_iff hex (by decide) hbuf hroom
  have hstale := getargs_execute_iff hex' (by decide) hbuf hroom'
  refine ⟨k, k', k'', Runs.path_of_run hk, hex, hown.mpr (Or.inl ?_), hex', fun h => ?_⟩
  · rintro (hnil | ⟨word, -, heq⟩)
    · exact absurd hnil (by decide)
    · have hlast := congrArg List.getLast? heq
      rw [List.getLast?_concat] at hlast
      exact absurd hlast (by decide)
  · rcases hstale.mp h with hnot | hzero
    · exact hnot (Or.inr ⟨shellCommand, by decide, by decide⟩)
    · exact absurd (hold.symm.trans hzero) (by decide)

theorem getargs_stale : ¬∀ (img : Image) (frames : TableFrames) (mem : Memory) (x y : ℕ)
    (es : List Event) (k k' : Kernel) (f : CallFrame) (command : List UInt8) (pid : ℤ)
    (buf : UInt32) (nbytes : ℤ),
    Runs.Path (step img) (fun _ _ => True) (boot frames mem x y) es k →
    k.execute img f command = some (k', some pid) →
    (commandWord (cString command)).length ≤ 31 → buf ≠ 0 → 128 ≤ nbytes →
    ∃ bytes, k'.getargs buf nbytes = some (0, bytes) ∧
      cString bytes = afterSpace (cString command) := by
  intro h
  have hrun : ((Runs.run (step shellImage) (fun _ _ => True) (boot ⟨0, 0⟩ (fun _ => 0) 0 0)
      reusedPcb).bind fun k => (k.execute shellImage bareFrame (shellCommand ++ [spaceAscii])).bind
        fun r => r.2.bind fun _ => (r.1.getargs 0x8100000 128).map fun b => cString b.2) =
      some [120] := by
    decide +kernel
  obtain ⟨k, hk, hrun⟩ := Option.bind_eq_some_iff.mp hrun
  obtain ⟨⟨k', res⟩, hex, hrun⟩ := Option.bind_eq_some_iff.mp hrun
  obtain ⟨pid, rfl, hargs⟩ := Option.bind_eq_some_iff.mp hrun
  obtain ⟨⟨v, bytes⟩, hget, hbytes⟩ := Option.map_eq_some_iff.mp hargs
  obtain ⟨bytes', hget', hexact⟩ := h shellImage _ _ _ _ _ k k' bareFrame _ pid 0x8100000 128
    (Runs.path_of_run hk) hex (by decide) (by decide) (by decide)
  rw [hget, Option.some.injEq, Prod.mk.injEq] at hget'
  rw [← hget'.2, hbytes] at hexact
  exact absurd hexact (by decide)

end Kernel

end HalOs
