import HalOs.General.Segments

/-!
# Straight-line x86 code with labels

The instructions of small assembly routines in 32-bit mode: a machine that runs them from a
listing, what it reaches, and the rule for its loops. Of the flags only the zero and the
direction flag are kept. Labels stand in the listing and do nothing.
-/

namespace X86

/-- The 32-bit registers. -/
inductive Reg where
  | ecx
  | edx
  | esi
  | edi
  deriving DecidableEq, Repr

inductive Operand where
  | imm (value : UInt32)
  | reg (r : Reg)
  deriving DecidableEq, Repr

/-- Instructions with the source operand first, over labels of type `L`. -/
inductive Instr (L : Type) where
  | label (l : L)
  | jmp (l : L)
  | jz (l : L)
  | testl (src : Operand) (dst : Reg)
  /-- `movb (r), %al` -/
  | loadAl (address : Reg)
  /-- `movb %al, (r)` -/
  | storeAl (address : Reg)
  /-- `movw %ds, %dx` -/
  | movwDsDx
  /-- `movw %dx, %es` -/
  | movwDxEs
  | movl (src : Operand) (dst : Reg)
  | addl (src : Operand) (dst : Reg)
  | subl (src : Operand) (dst : Reg)
  | andl (src : Operand) (dst : Reg)
  | shrl (count : UInt32) (dst : Reg)
  | cld
  | repMovsl
  deriving DecidableEq, Repr

/-- The registers, the flags, the bytes by linear address and the place in the listing. -/
structure State where
  al : UInt8
  reg : Reg → UInt32
  ds : UInt16
  es : UInt16
  zf : Bool
  df : Bool
  memory : ℕ → UInt8
  pc : ℕ

namespace State

def value (s : State) : Operand → UInt32
  | .imm v => v
  | .reg r => s.reg r

/-- A register written by an instruction that sets the flags by it. -/
def result (r : Reg) (v : UInt32) (s : State) : State :=
  { s with reg := Function.update s.reg r v, zf := v = 0 }

def next (s : State) : State := { s with pc := s.pc + 1 }

end State

section Machine

variable {L : Type} [DecidableEq L]

/-- The place of a label. -/
def target (code : List (Instr L)) (l : L) : ℕ := code.findIdx fun i => i = .label l

/-- Four bytes moved by `movsl`; `base` gives the base address of a segment. -/
def moveLong (base : UInt16 → UInt32) (s : State) : ℕ → UInt8 :=
  (List.range 4).foldl (fun m i =>
    Function.update m (base s.es + (s.reg .edi + UInt32.ofNat i)).toNat
      (s.memory (base s.ds + (s.reg .esi + UInt32.ofNat i)).toNat)) s.memory

/-- One round of `rep movsl`, which stays in place until `ecx` is zero. -/
def repRound (base : UInt16 → UInt32) (s : State) : State :=
  if s.reg .ecx = 0 then s.next
  else
    let delta : UInt32 := if s.df then -4 else 4
    { s with
      memory := moveLong base s
      reg := fun r => match r with
        | .esi => s.reg .esi + delta
        | .edi => s.reg .edi + delta
        | .ecx => s.reg .ecx - 1
        | .edx => s.reg .edx }

def exec (base : UInt16 → UInt32) (code : List (Instr L)) (s : State) : Instr L → State
  | .label _ => s.next
  | .jmp l => { s with pc := target code l }
  | .jz l => if s.zf then { s with pc := target code l } else s.next
  | .testl src dst => { s with zf := s.reg dst &&& s.value src = 0 }.next
  | .loadAl r => { s with al := s.memory (base s.ds + s.reg r).toNat }.next
  | .storeAl r => { s with
      memory := Function.update s.memory (base s.ds + s.reg r).toNat s.al }.next
  | .movwDsDx => { s with
      reg := Function.update s.reg .edx (s.reg .edx &&& 0xFFFF0000 ||| s.ds.toUInt32) }.next
  | .movwDxEs => { s with es := (s.reg .edx).toUInt16 }.next
  | .movl src dst => { s with reg := Function.update s.reg dst (s.value src) }.next
  | .addl src dst => (s.result dst (s.reg dst + s.value src)).next
  | .subl src dst => (s.result dst (s.reg dst - s.value src)).next
  | .andl src dst => (s.result dst (s.reg dst &&& s.value src)).next
  | .shrl count dst => (s.result dst (s.reg dst >>> count)).next
  | .cld => { s with df := false }.next
  | .repMovsl => repRound base s

/-- The instruction at the current place; none past the end of the listing. -/
def step (base : UInt16 → UInt32) (code : List (Instr L)) (s : State) : Option State :=
  code[s.pc]?.map (exec base code s)

end Machine

/-- The instructions that go on to the next place. -/
def Instr.Plain {L : Type} : Instr L → Prop
  | .jmp _ | .jz _ | .repMovsl => False
  | _ => True

/-! ### What is reached -/

section Reaching

variable {σ : Type*} {step : σ → Option σ} {s t u : σ} {P Q : σ → Prop}

/-- `t` is reached from `s` in some number of steps. -/
inductive Reaches (step : σ → Option σ) : σ → σ → Prop where
  | refl (s : σ) : Reaches step s s
  | head {s t u : σ} (next : step s = some t) (rest : Reaches step t u) : Reaches step s u

/-- A state with `Q` is reached. -/
def Eventually (step : σ → Option σ) (Q : σ → Prop) (s : σ) : Prop := ∃ t, Reaches step s t ∧ Q t

lemma Reaches.trans (h : Reaches step s t) (h' : Reaches step t u) : Reaches step s u := by
  induction h with
  | refl => exact h'
  | head next _ ih => exact Reaches.head next (ih h')

lemma Eventually.here (h : Q s) : Eventually step Q s := ⟨s, Reaches.refl s, h⟩

lemma Eventually.imp (h : Eventually step P s) (hP : ∀ t, P t → Q t) : Eventually step Q s := by
  obtain ⟨t, ht, hp⟩ := h
  exact ⟨t, ht, hP t hp⟩

lemma Eventually.next (h : step s = some t) (ht : Eventually step Q t) : Eventually step Q s := by
  obtain ⟨u, hu, hq⟩ := ht
  exact ⟨u, Reaches.head h hu, hq⟩

lemma Eventually.trans (h : Eventually step P s) (hP : ∀ t, P t → Eventually step Q t) :
    Eventually step Q s := by
  obtain ⟨t, ht, hp⟩ := h
  obtain ⟨u, hu, hq⟩ := hP t hp
  exact ⟨u, ht.trans hu, hq⟩

/-- A loop whose rounds keep an invariant and lower a measure reaches its exit. -/
theorem Eventually.loop {I : σ → Prop} (μ : σ → ℕ)
    (hround : ∀ s, I s → Eventually step (fun t => Q t ∨ I t ∧ μ t < μ s) s) (h : I s) :
    Eventually step Q s := by
  generalize hm : μ s = m
  induction m using Nat.strong_induction_on generalizing s with
  | _ m ih =>
    refine (hround s h).trans fun t ht => ?_
    rcases ht with hq | ⟨hi, hlt⟩
    · exact Eventually.here hq
    · exact ih (μ t) (by omega) hi rfl

end Reaching

/-! ### Straight-line code -/

section Blocks

variable {L : Type} [DecidableEq L] {base : UInt16 → UInt32} {code block : List (Instr L)}
  {s : State} {i : Instr L} {p : ℕ}

lemma step_at (hpc : s.pc = p) (h : code[p]? = some i) :
    step base code s = some (exec base code s i) := by
  rw [step, hpc, h, Option.map_some]

lemma exec_pc (h : i.Plain) (s : State) : (exec base code s i).pc = s.pc + 1 := by
  cases i with
  | jmp l => exact absurd h id
  | jz l => exact absurd h id
  | repMovsl => exact absurd h id
  | _ => rfl

/-- A block of plain instructions runs through. -/
theorem reaches_block (hplain : ∀ i ∈ block, i.Plain) (hpc : s.pc = p)
    (hcode : (code.drop p).take block.length = block) :
    Reaches (step base code) s (block.foldl (exec base code) s) := by
  induction block generalizing s p with
  | nil => exact Reaches.refl s
  | cons i block ih =>
    have hhead : code[p]? = some i := by
      have hget := congrArg (fun l => l[0]?) hcode
      simpa using hget
    have hnext : (exec base code s i).pc = p + 1 := by
      rw [exec_pc (hplain i List.mem_cons_self), hpc]
    refine Reaches.head (step_at hpc hhead)
      (ih (fun j hj => hplain j (List.mem_cons_of_mem i hj)) hnext ?_)
    have htail := congrArg List.tail hcode
    rw [List.length_cons, List.tail_cons, ← List.drop_one, List.drop_take] at htail
    simpa [List.drop_drop] using htail

end Blocks

/-! ### Addresses -/

lemma address_toNat {a : UInt32} {k : ℕ} (h : a.toNat + k < 2 ^ 32) :
    (a + UInt32.ofNat k).toNat = a.toNat + k := by
  have hsize : k < UInt32.size := by
    simp only [UInt32.size]
    omega
  have hk : (UInt32.ofNat k).toNat = k := UInt32.toNat_ofNat_of_lt' hsize
  rw [UInt32.toNat_add, hk, Nat.mod_eq_of_lt h]

lemma address_add (a : UInt32) (j k : ℕ) :
    a + UInt32.ofNat j + UInt32.ofNat k = a + UInt32.ofNat (j + k) := by
  rw [UInt32.ofNat_add, UInt32.add_assoc]

/-- A move of four bytes between stretches that do not wrap or overlap, in flat segments. -/
lemma moveLong_eq {base : UInt16 → UInt32} {s : State} (hds : base s.ds = 0) (hes : base s.es = 0)
    (hto : (s.reg .edi).toNat + 4 ≤ 2 ^ 32) (hfrom : (s.reg .esi).toNat + 4 ≤ 2 ^ 32) :
    moveLong base s =
      Segments.put (s.reg .edi).toNat (Segments.get (s.reg .esi).toNat 4 s.memory) s.memory := by
  have hloop : ∀ n ≤ 4, (List.range n).foldl (fun m i =>
      Function.update m (base s.es + (s.reg .edi + UInt32.ofNat i)).toNat
        (s.memory (base s.ds + (s.reg .esi + UInt32.ofNat i)).toNat)) s.memory =
      Segments.put (s.reg .edi).toNat (Segments.get (s.reg .esi).toNat n s.memory) s.memory := by
    intro n
    induction n with
    | zero => exact fun _ => Segments.put_nil.symm
    | succ n ih =>
      intro hn
      rw [List.range_succ, List.foldl_append, ih (by omega), List.foldl_cons, List.foldl_nil, hds,
        hes, UInt32.zero_add, UInt32.zero_add, address_toNat (by omega), address_toNat (by omega),
        Segments.put_get_succ]
  exact hloop 4 le_rfl

lemma repRound_up {base : UInt16 → UInt32} {s : State} (hcount : s.reg .ecx ≠ 0)
    (hdf : s.df = false) : repRound base s = { s with
      memory := moveLong base s
      reg := (repRound base s).reg } ∧
    (repRound base s).reg .esi = s.reg .esi + 4 ∧ (repRound base s).reg .edi = s.reg .edi + 4 ∧
    (repRound base s).reg .ecx = s.reg .ecx - 1 ∧ (repRound base s).reg .edx = s.reg .edx := by
  simp only [repRound, if_neg hcount, hdf, Bool.false_eq_true, if_false, and_self]

end X86
