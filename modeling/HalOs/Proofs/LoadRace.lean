import HalOs.Proofs.ProcessTree

/-!
# Ticks inside `execute`

`execute` maps the page of the new process, stores the program there and only much later
makes the new process the current one. A tick in between maps the page of the current
process, which is still the caller: from then on the program goes to the caller's page, or
the new process starts in it.
-/

namespace HalOs

/-- `execute` between two statements, with the stores of program bytes so far: physical
address and byte, most recent first. -/
structure Loading where
  state : ExecState
  stores : List (ℕ × UInt8)

/-- The start of a process's 4 MB of physical memory. -/
def frameBase (pid : ℤ) : ℕ := offsetField (getPhysAddr pid) / 1024 * userPageSize

def InFrame (pid : ℤ) (addr : ℕ) : Prop :=
  frameBase pid ≤ addr ∧ addr < frameBase pid + userPageSize

namespace Kernel

/-- The running context is interrupted once for each of the given register pairs. -/
def preempts (rs : List Regs) (k : Kernel) : Option Kernel := rs.foldlM (fun k r => k.preempt r) k

end Kernel

namespace Activation

variable (a : Activation)

/-- The ticks that hit the call before a statement. -/
def interrupt (rounds : Stmt → List Regs) (s : Stmt) (x : Loading) : Option Loading :=
  (x.state.kernel.preempts (rounds s)).map fun k => ⟨{ x.state with kernel := k }, x.stores⟩

/-- A statement, recording what it stores of the program. -/
def execStore (s : Stmt) (x : Loading) : Option Loading :=
  (a.exec s x.state).map fun y => ⟨y, match s with
    | .copy i => (x.state.kernel.userAddress (progImgOffset + i), byteAt a.program.bytes i) :: x.stores
    | _ => x.stores⟩

/-- The call from the choice of the process id to the jump to user mode, with any number of
ticks before each of its statements. -/
def executeUnder (rounds : Stmt → List Regs) (k : Kernel) : Option Loading :=
  Loops.runUnder (interrupt rounds) a.execStore a.body ⟨⟨k, false⟩, []⟩

/-- The whole program has been stored in the process's own frame and nowhere else, the frames
of the other processes are as they were, and the process starts in its own page. -/
structure Loaded (k : Kernel) (x : Loading) : Prop where
  complete : ∀ i < a.program.bytes.length,
    (frameBase a.pid + (progImgOffset + i), byteAt a.program.bytes i) ∈ x.stores
  own : ∀ e ∈ x.stores, InFrame a.pid e.1
  others : ∀ (p : ℤ) (addr : ℕ), 0 ≤ p ∧ p < numPids → p ≠ a.pid → InFrame p addr →
    x.state.kernel.mem addr = k.mem addr
  mapped : x.state.kernel.paging.userFrame = offsetField (getPhysAddr a.pid)

/-- No process is current during the call; or no tick comes between the first and the last
byte of the program, and if one comes after that and before the new process is current,
another comes later. -/
def Undisturbed (rounds : Stmt → List Regs) (k : Kernel) : Prop :=
  k.currentPcb = none ∨
    ((∀ i < a.program.bytes.length, rounds (.copy i) = []) ∧
      ((∀ s ∈ installation.take 13, rounds s = []) ∨ ∃ s ∈ installation.drop 13, rounds s ≠ []))

/-- The caller, if there is one, is a live process whose PCB holds its id. -/
def CallerSound (k : Kernel) : Prop :=
  ∀ p, k.currentPcb = some p → k.Live p ∧ (k.pcbs p).processId = p ∧ 0 ≤ p ∧ p < numPids

end Activation

section Load

variable {a : Activation} {k k' : Kernel} {rounds : Stmt → List Regs} {r : Regs} {rs : List Regs}
  {p q : ℤ} {s : Stmt} {x y : Loading}

/-- Without its record of the stores the call is the code run with interference. -/
theorem executeUnder_state : (a.executeUnder rounds k).map Loading.state =
    Loops.runUnder (fun s x => (x.kernel.preempts (rounds s)).map fun k => { x with kernel := k })
      a.exec a.body ⟨k, false⟩ := by
  unfold Activation.executeUnder
  apply Loops.runUnder_map
  · intro s x
    simp only [Activation.interrupt, Option.map_map]
    rfl
  · intro s x
    simp only [Activation.execStore, Option.map_map]
    exact Option.map_id'

/-! ### What ticks do to the call -/

lemma scheduler_processId (h : k.scheduler r = some k') (q : ℤ) :
    (k'.pcbs q).processId = (k.pcbs q).processId := by
  obtain ⟨p, next, -, -, rfl⟩ := Kernel.scheduler_cases h
  exact congrArg (fun pcb => pcb.processId) (Kernel.saved_pcbs p q)

lemma scheduler_page (h : k.scheduler r = some k') (hq : k'.currentPcb = some q) :
    k'.paging.userFrame = offsetField (getPhysAddr (k'.pcbs q).processId) := by
  obtain ⟨p, next, -, -, rfl⟩ := Kernel.scheduler_cases h
  obtain rfl := Option.some.inj hq
  exact Paging.userFrame_mapUser _ _

lemma preempt_page (hp : k.currentPcb = some p) (h : k.preempt r = some k') :
    k'.currentPcb = some p ∧ (∀ q, (k'.pcbs q).processId = (k.pcbs q).processId) ∧
      k'.paging.userFrame = offsetField (getPhysAddr (k.pcbs p).processId) := by
  have hcase := Kernel.preempt_cases
    (P := fun k₁ => (∀ q, (k₁.pcbs q).processId = (k.pcbs q).processId) ∧
      ∀ q, k₁.currentPcb = some q →
        k₁.paging.userFrame = offsetField (getPhysAddr (k₁.pcbs q).processId))
    (Q := fun k₁ => ∀ q, (k₁.pcbs q).processId = (k.pcbs q).processId)
    (fun r k₁ k₂ hq hs => ⟨fun q => (scheduler_processId hs q).trans (hq q),
      fun q hc => scheduler_page hs hc⟩)
    (fun _ hP => hP.1) (fun _ => rfl) hp h
  obtain ⟨⟨hid, hpage⟩, hcur⟩ := hcase
  refine ⟨hcur, hid, ?_⟩
  rw [hpage p hcur, hid]

lemma preempts_none (hn : k.currentPcb = none) (h : k.preempts rs = some k') : k' = k := by
  induction rs with
  | nil => exact (Option.some.inj h).symm
  | cons r rs ih =>
    have hstep : k.preempt r = some k := by simp only [Kernel.preempt, hn]
    simp only [Kernel.preempts, List.foldlM_cons, hstep] at h
    exact ih h

/-- Ticks leave the current process current and the ids as they are; if there is one, the
page of the current process is mapped after it. -/
lemma preempts_page (hp : k.currentPcb = some p) (h : k.preempts rs = some k') :
    k'.currentPcb = some p ∧ (∀ q, (k'.pcbs q).processId = (k.pcbs q).processId) ∧
      k'.paging.userFrame = if rs = [] then k.paging.userFrame
        else offsetField (getPhysAddr (k.pcbs p).processId) := by
  induction rs generalizing k with
  | nil =>
    obtain rfl := Option.some.inj h
    exact ⟨hp, fun _ => rfl, rfl⟩
  | cons r rs ih =>
    simp only [Kernel.preempts, List.foldlM_cons] at h
    obtain ⟨k₁, h₁, h⟩ := Option.bind_eq_some_iff.mp h
    obtain ⟨hcur, hid, hpage⟩ := preempt_page hp h₁
    obtain ⟨hcur', hid', hpage'⟩ := ih hcur h
    refine ⟨hcur', fun q => (hid' q).trans (hid q), ?_⟩
    rw [hpage', hpage, hid p, if_neg (List.cons_ne_nil r rs), ite_self]

/-! ### What the call leaves in memory -/

lemma exec_mem (hs : ∀ i, s ≠ .copy i) {u v : ExecState} (h : a.exec s u = some v) :
    v.kernel.mem = u.kernel.mem := by
  cases s with
  | copy i => exact absurd rfl (hs i)
  | setActivePid =>
    obtain ⟨p, -, h⟩ := Option.bind_eq_some_iff.mp h
    obtain rfl := Option.some.inj h
    rfl
  | activate =>
    simp only [Activation.exec] at h
    split at h
    · obtain rfl := Option.some.inj h
      rfl
    · obtain rfl := Option.some.inj h
      rfl
  | await =>
    simp only [Activation.exec] at h
    split at h
    · exact absurd h (by simp)
    · obtain rfl := Option.some.inj h
      rfl
  | reserve t =>
    obtain rfl := Option.some.inj h
    dsimp only
    split <;> rfl
  | _ =>
    obtain rfl := Option.some.inj h
    rfl

lemma preempts_mem (h : k.preempts rs = some k') : k'.mem = k.mem := by
  induction rs generalizing k with
  | nil =>
    obtain rfl := Option.some.inj h
    rfl
  | cons r rs ih =>
    simp only [Kernel.preempts, List.foldlM_cons] at h
    obtain ⟨k₁, h₁, h⟩ := Option.bind_eq_some_iff.mp h
    have hfirst : k₁.mem = k.mem :=
      Kernel.preempt_invariant (P := fun k₁ => k₁.mem = k.mem)
        (fun r k₁ k₂ hk hs => (Kernel.scheduler_memory hs).1.trans hk) rfl h₁
    rw [ih h, hfirst]

/-- Memory is as it was wherever no byte of the program has been stored. -/
lemma executeUnder_mem (h : a.executeUnder rounds k = some x) {addr : ℕ}
    (haddr : ∀ e ∈ x.stores, e.1 ≠ addr) : x.state.kernel.mem addr = k.mem addr := by
  have hkept := Loops.runUnder_invariant
    (I := fun y => (∀ e ∈ y.stores, e.1 ≠ addr) → y.state.kernel.mem addr = k.mem addr)
    (fun s _ y z hy hz => ?_) (fun s _ y z hy hz => ?_) h (fun _ => rfl)
  · exact hkept haddr
  · obtain ⟨k', hk', rfl⟩ := Option.map_eq_some_iff.mp hz
    intro hout
    exact (congrFun (preempts_mem hk') addr).trans (hy hout)
  · obtain ⟨u, hu, rfl⟩ := Option.map_eq_some_iff.mp hz
    by_cases hs : ∃ i, s = .copy i
    · obtain ⟨i, rfl⟩ := hs
      obtain ⟨k₁, hk₁, hu⟩ := Option.bind_eq_some_iff.mp hu
      obtain rfl := Option.some.inj hu
      unfold Kernel.storeUser at hk₁
      split at hk₁
      · obtain rfl := Option.some.inj hk₁
        intro hout
        have hne := hout _ List.mem_cons_self
        refine (Function.update_of_ne hne.symm _ _).trans (hy fun e he => ?_)
        exact hout e (List.mem_cons_of_mem _ he)
      · exact absurd hk₁ (by simp)
    · have hplain : ∀ i, s ≠ .copy i := fun i he => hs ⟨i, he⟩
      intro hout
      refine (congrFun (exec_mem hplain hu) addr).trans (hy ?_)
      cases s with
      | copy i => exact absurd rfl (hplain i)
      | _ => exact hout

/-! ### The parts of the call -/

/-- Between two statements, with `owner` the current process: either the page of the new
process is mapped, or that of the owner. -/
structure At (a : Activation) (owner : Option ℤ) (mapped : Prop) (k : Kernel) : Prop where
  current : k.currentPcb = owner
  ids : ∀ p, owner = some p → (k.pcbs p).processId = p
  page : mapped → k.paging.userFrame = offsetField (getPhysAddr a.pid)
  away : ¬mapped → ∃ p, owner = some p ∧ k.paging.userFrame = offsetField (getPhysAddr p)

/-- A tick before this statement maps the page of the owner. -/
def Hit (owner : Option ℤ) (rounds : Stmt → List Regs) (s : Stmt) : Prop :=
  owner ≠ none ∧ rounds s ≠ []

variable {owner : Option ℤ} {mapped : Prop}

lemma interrupt_at (hx : At a owner mapped x.state.kernel)
    (h : Activation.interrupt rounds s x = some y) :
    At a owner (mapped ∧ ¬Hit owner rounds s) y.state.kernel ∧ y.stores = x.stores ∧
      ∀ q, (y.state.kernel.pcbs q).processId = (x.state.kernel.pcbs q).processId := by
  obtain ⟨k', hk', rfl⟩ := Option.map_eq_some_iff.mp h
  cases howner : owner with
  | none =>
    obtain rfl := preempts_none (hx.current.trans howner) hk'
    have hmiss : ¬Hit none rounds s := fun hh => hh.1 rfl
    subst howner
    refine ⟨⟨hx.current, hx.ids, fun hm => hx.page hm.1, fun hm => hx.away fun hm' => ?_⟩, rfl,
      fun _ => rfl⟩
    exact hm ⟨hm', hmiss⟩
  | some p =>
    subst howner
    obtain ⟨hcur, hid, hpage⟩ := preempts_page hx.current hk'
    have hp := hx.ids p rfl
    refine ⟨⟨hcur, fun q hq => (hid q).trans (hx.ids q hq), fun hm => ?_, fun hm => ?_⟩, rfl, hid⟩
    · have hnil : rounds s = [] := by
        by_contra hne
        exact hm.2 ⟨Option.some_ne_none p, hne⟩
      rw [hpage, if_pos hnil]
      exact hx.page hm.1
    · by_cases hnil : rounds s = []
      · rw [hpage, if_pos hnil]
        apply hx.away
        intro hm'
        exact hm ⟨hm', fun hh => hh.2 hnil⟩
      · rw [hpage, if_neg hnil, hp]
        exact ⟨p, rfl, rfl⟩

lemma exec_at (hx : At a owner mapped x.state.kernel) (hown : owner ≠ some a.pid)
    (hs : s ≠ .setPage ∧ s ≠ .setCurrent) (h : a.execStore s x = some y) :
    At a owner mapped y.state.kernel := by
  obtain ⟨z, hz, rfl⟩ := Option.map_eq_some_iff.mp h
  obtain ⟨hpaging, hcur, hid⟩ := Kernel.exec_cases hz
  rw [if_neg hs.1] at hpaging
  rw [if_neg hs.2] at hcur
  refine ⟨hcur.trans hx.current, fun p hp => ?_, ?_, ?_⟩
  · have hne : p ≠ a.pid := by
      rintro rfl
      exact hown hp
    rw [hid, if_neg (fun hc => hne hc.2)]
    exact hx.ids p hp
  · rw [hpaging]
    exact hx.page
  · rw [hpaging]
    exact hx.away

lemma execStore_stores (hs : ∀ i, s ≠ .copy i) (h : a.execStore s x = some y) :
    y.stores = x.stores := by
  obtain ⟨z, hz, rfl⟩ := Option.map_eq_some_iff.mp h
  cases s with
  | copy i => exact absurd rfl (hs i)
  | _ => rfl

/-- Statements that neither map a page, nor store a byte, nor change the current process. -/
def Plain (s : Stmt) : Prop := s ≠ .setPage ∧ s ≠ .setCurrent ∧ ∀ i, s ≠ .copy i

/-- Through plain statements the page stays mapped until the first tick. -/
lemma run_plain {is : List Stmt} (hown : owner ≠ some a.pid) (hs : ∀ s ∈ is, Plain s)
    (hx : At a owner mapped x.state.kernel)
    (h : Loops.runUnder (Activation.interrupt rounds) a.execStore is x = some y) :
    At a owner (mapped ∧ ∀ s ∈ is, ¬Hit owner rounds s) y.state.kernel ∧ y.stores = x.stores ∧
      ((.setProcessId ∈ is ∨ (x.state.kernel.pcbs a.pid).processId = a.pid) →
        (y.state.kernel.pcbs a.pid).processId = a.pid) := by
  induction is generalizing x mapped with
  | nil =>
    obtain rfl := Option.some.inj h
    refine ⟨?_, rfl, fun hid => hid.resolve_left (by simp)⟩
    simpa using hx
  | cons s is ih =>
    obtain ⟨u, v, hu, hv, h⟩ := Loops.runUnder_cons.mp h
    obtain ⟨hat, hstores, hids⟩ := interrupt_at hx hu
    have hplain := hs s (by simp)
    have hat' := exec_at hat hown ⟨hplain.1, hplain.2.1⟩ hv
    obtain ⟨hend, hstores', hid'⟩ := ih (fun s' hs' => hs s' (by simp [hs'])) hat' h
    refine ⟨?_, ?_, fun hid => hid' ?_⟩
    · simpa only [List.forall_mem_cons, and_assoc] using hend
    · rw [hstores', execStore_stores hplain.2.2 hv, hstores]
    · obtain ⟨z, hz, rfl⟩ := Option.map_eq_some_iff.mp hv
      have hstep := (Kernel.exec_cases hz).2.2 a.pid
      by_cases hset : s = .setProcessId
      · right
        rw [hstep, if_pos ⟨hset, rfl⟩]
      · rcases hid with hmem | hid
        · left
          exact (List.mem_cons.mp hmem).resolve_left (fun he => hset he.symm)
        · right
          rw [hstep, if_neg (fun hc => hset hc.1), hids]
          exact hid

/-! ### The stores of the program -/

lemma getPhysAddr_eq (h0 : 0 ≤ p) (h6 : p < numPids) :
    offsetField (getPhysAddr p) = 2048 + 1024 * p.toNat := by
  simp only [numPids, Nat.cast_ofNat] at h6
  simp only [offsetField, getPhysAddr, eightMb, fourMb, align4kb]
  omega

lemma frameBase_eq (h0 : 0 ≤ p) (h6 : p < numPids) :
    frameBase p = (2 + p.toNat) * userPageSize := by
  unfold frameBase
  rw [getPhysAddr_eq h0 h6]
  congr 1
  omega

lemma inFrame_disjoint (hp : 0 ≤ p ∧ p < numPids) (hq : 0 ≤ q ∧ q < numPids) (hne : p ≠ q)
    {addr : ℕ} (h : InFrame p addr) : ¬InFrame q addr := by
  intro h'
  unfold InFrame at h h'
  rw [frameBase_eq hp.1 hp.2] at h
  rw [frameBase_eq hq.1 hq.2] at h'
  simp only [userPageSize] at h h'
  omega

lemma storeUser_bound {off : ℕ} {b : UInt8} (h : k.storeUser off b = some k') :
    off < userPageSize := by
  unfold Kernel.storeUser at h
  split at h
  · assumption
  · exact absurd h (by simp)

lemma copy_store {i : ℕ} (h : a.execStore (.copy i) x = some y) :
    progImgOffset + i < userPageSize ∧ y.stores =
      (x.state.kernel.paging.userFrame / 1024 * userPageSize + (progImgOffset + i),
        byteAt a.program.bytes i) :: x.stores := by
  obtain ⟨z, hz, rfl⟩ := Option.map_eq_some_iff.mp h
  obtain ⟨k₁, hk₁, -⟩ := Option.bind_eq_some_iff.mp hz
  exact ⟨storeUser_bound hk₁, rfl⟩

/-- The store of byte `i` in the process's own frame. -/
def ownStore (a : Activation) (i : ℕ) : ℕ × UInt8 :=
  (frameBase a.pid + (progImgOffset + i), byteAt a.program.bytes i)

/-- The program goes to the process's own frame if and only if no tick comes between two of
its bytes. -/
lemma run_stores {is : List ℕ} (hpid : 0 ≤ a.pid ∧ a.pid < numPids)
    (howner : ∀ p, owner = some p → (0 ≤ p ∧ p < numPids) ∧ p ≠ a.pid)
    (hx : At a owner mapped x.state.kernel)
    (h : Loops.runUnder (Activation.interrupt rounds) a.execStore (is.map .copy) x = some y) :
    At a owner (mapped ∧ ∀ i ∈ is, ¬Hit owner rounds (.copy i)) y.state.kernel ∧
      ∃ new, y.stores = new ++ x.stores ∧
        ((mapped ∧ ∀ i ∈ is, ¬Hit owner rounds (.copy i)) →
          (∀ i ∈ is, ownStore a i ∈ new) ∧ ∀ e ∈ new, InFrame a.pid e.1) ∧
        (mapped → ¬(∀ i ∈ is, ¬Hit owner rounds (.copy i)) → ∃ e ∈ new, ¬InFrame a.pid e.1) := by
  have hown : owner ≠ some a.pid := fun he => (howner a.pid he).2 rfl
  induction is generalizing x mapped with
  | nil =>
    obtain rfl := Option.some.inj h
    refine ⟨by simpa using hx, [], rfl, by simp, fun _ hno => ?_⟩
    exact absurd (fun i hi => absurd hi (by simp)) hno
  | cons i is ih =>
    obtain ⟨u, v, hu, hv, h⟩ := Loops.runUnder_cons.mp h
    obtain ⟨hat, hstores, -⟩ := interrupt_at hx hu
    have hat' := exec_at hat hown ⟨by simp, by simp⟩ hv
    obtain ⟨hbound, hstore⟩ := copy_store hv
    obtain ⟨hend, new, hnew, hgood, hbad⟩ := ih hat' h
    refine ⟨by simpa only [List.forall_mem_cons, and_assoc] using hend, new ++
      [(u.state.kernel.paging.userFrame / 1024 * userPageSize + (progImgOffset + i),
        byteAt a.program.bytes i)], ?_, fun hall => ?_, fun hm hno => ?_⟩
    · rw [hnew, hstore, hstores, List.append_assoc]
      rfl
    · obtain ⟨hm, hall⟩ := hall
      rw [List.forall_mem_cons] at hall
      obtain ⟨hcomplete, hin⟩ := hgood ⟨⟨hm, hall.1⟩, hall.2⟩
      have hframe := hat.page ⟨hm, hall.1⟩
      have hself : (u.state.kernel.paging.userFrame / 1024 * userPageSize + (progImgOffset + i),
          byteAt a.program.bytes i) = ownStore a i := by
        rw [hframe]
        rfl
      rw [hself]
      constructor
      · intro j hj
        rcases List.mem_cons.mp hj with rfl | hj
        · simp
        · exact List.mem_append_left _ (hcomplete j hj)
      · intro e he
        rcases List.mem_append.mp he with he | he
        · exact hin e he
        · rw [List.mem_singleton.mp he]
          exact ⟨Nat.le_add_right _ _, Nat.add_lt_add_left hbound _⟩
    · by_cases hhit : Hit owner rounds (.copy i)
      · obtain ⟨p, hp, hframe⟩ := hat.away fun hc => hc.2 hhit
        refine ⟨_, List.mem_append_right new (List.mem_singleton.mpr rfl), ?_⟩
        obtain ⟨hrange, hne⟩ := howner p hp
        apply inFrame_disjoint hrange hpid hne
        rw [hframe]
        exact ⟨Nat.le_add_right _ _, Nat.add_lt_add_left hbound _⟩
      · have hno' : ¬∀ j ∈ is, ¬Hit owner rounds (.copy j) := by
          intro hall
          exact hno (List.forall_mem_cons.mpr ⟨hhit, hall⟩)
        obtain ⟨e, he, hout⟩ := hbad ⟨hm, hhit⟩ hno'
        exact ⟨e, List.mem_append_left _ he, hout⟩

/-! ### The whole call -/

lemma preempts_kept (h : k.preempts rs = some k') : k'.currentPcb = k.currentPcb ∧
    ∀ q, (k'.pcbs q).processId = (k.pcbs q).processId := by
  cases hc : k.currentPcb with
  | none =>
    obtain rfl := preempts_none hc h
    exact ⟨hc, fun _ => rfl⟩
  | some p =>
    obtain ⟨hcur, hid, -⟩ := preempts_page hc h
    exact ⟨hcur, hid⟩

/-- The first statement maps the page of the new process, whatever ticks come before it. -/
lemma run_setPage (hcur : x.state.kernel.currentPcb = owner)
    (hids : ∀ p, owner = some p → (x.state.kernel.pcbs p).processId = p)
    (h : Loops.runUnder (Activation.interrupt rounds) a.execStore [.setPage] x = some y) :
    At a owner True y.state.kernel ∧ y.stores = x.stores := by
  obtain ⟨u, v, hu, hv, h⟩ := Loops.runUnder_cons.mp h
  obtain rfl := Option.some.inj h
  obtain ⟨k', hk', rfl⟩ := Option.map_eq_some_iff.mp hu
  obtain ⟨z, hz, rfl⟩ := Option.map_eq_some_iff.mp hv
  obtain ⟨hcur', hid'⟩ := preempts_kept hk'
  obtain ⟨hpaging, hcurrent, hid⟩ := Kernel.exec_cases hz
  refine ⟨⟨?_, fun p hp => ?_, fun _ => ?_, fun hno => absurd trivial hno⟩, rfl⟩
  · rw [hcurrent, if_neg (by simp)]
    exact hcur'.trans hcur
  · rw [hid, if_neg (by simp)]
    exact (hid' p).trans (hids p hp)
  · rw [hpaging, if_pos rfl]
    exact Paging.userFrame_mapUser _ _

/-- The new process becomes the current one with the mapping as it is. -/
lemma run_setCurrent (hx : At a owner mapped x.state.kernel)
    (hid : (x.state.kernel.pcbs a.pid).processId = a.pid)
    (h : Loops.runUnder (Activation.interrupt rounds) a.execStore [.setCurrent] x = some y) :
    y.state.kernel.currentPcb = some a.pid ∧
      (y.state.kernel.pcbs a.pid).processId = a.pid ∧
      (mapped ∧ ¬Hit owner rounds .setCurrent →
        y.state.kernel.paging.userFrame = offsetField (getPhysAddr a.pid)) ∧
      (¬(mapped ∧ ¬Hit owner rounds .setCurrent) →
        ∃ p, owner = some p ∧ y.state.kernel.paging.userFrame = offsetField (getPhysAddr p)) ∧
      y.stores = x.stores := by
  obtain ⟨u, v, hu, hv, h⟩ := Loops.runUnder_cons.mp h
  obtain rfl := Option.some.inj h
  obtain ⟨hat, hstores, hids⟩ := interrupt_at hx hu
  have hstores' := execStore_stores (by simp) hv
  obtain ⟨z, hz, rfl⟩ := Option.map_eq_some_iff.mp hv
  obtain ⟨hpaging, hcurrent, hid'⟩ := Kernel.exec_cases hz
  rw [if_neg (by simp)] at hpaging
  rw [if_pos rfl] at hcurrent
  refine ⟨hcurrent, ?_, ?_, ?_, hstores'.trans hstores⟩
  · rw [hid', if_neg (by simp), hids]
    exact hid
  · rw [hpaging]
    exact hat.page
  · rw [hpaging]
    exact hat.away

lemma run_started {is : List Stmt} (hs : ∀ s ∈ is, Plain s)
    (hcur : x.state.kernel.currentPcb = some a.pid)
    (hid : (x.state.kernel.pcbs a.pid).processId = a.pid)
    (h : Loops.runUnder (Activation.interrupt rounds) a.execStore is x = some y) :
    y.stores = x.stores ∧
      ((∀ s ∈ is, rounds s = []) →
        y.state.kernel.paging.userFrame = x.state.kernel.paging.userFrame) ∧
      (¬(∀ s ∈ is, rounds s = []) →
        y.state.kernel.paging.userFrame = offsetField (getPhysAddr a.pid)) := by
  induction is generalizing x with
  | nil =>
    obtain rfl := Option.some.inj h
    exact ⟨rfl, fun _ => rfl, fun hno => absurd (fun s hs => absurd hs (by simp)) hno⟩
  | cons s is ih =>
    obtain ⟨u, v, hu, hv, h⟩ := Loops.runUnder_cons.mp h
    obtain ⟨k', hk', rfl⟩ := Option.map_eq_some_iff.mp hu
    obtain ⟨hcur', hid', hpage⟩ := preempts_page hcur hk'
    have hplain := hs s (by simp)
    have hstores := execStore_stores hplain.2.2 hv
    obtain ⟨z, hz, rfl⟩ := Option.map_eq_some_iff.mp hv
    obtain ⟨hpaging, hcurrent, hidz⟩ := Kernel.exec_cases hz
    rw [if_neg hplain.1] at hpaging
    rw [if_neg hplain.2.1] at hcurrent
    have hself : (z.kernel.pcbs a.pid).processId = a.pid := by
      rw [hidz]
      split
      · rfl
      · exact (hid' a.pid).trans hid
    obtain ⟨hstores', hquiet, hloud⟩ :=
      ih (fun s' hs' => hs s' (by simp [hs'])) (hcurrent.trans hcur') hself h
    have hframe : z.kernel.paging.userFrame = if rounds s = [] then
        x.state.kernel.paging.userFrame else offsetField (getPhysAddr a.pid) := by
      rw [hid] at hpage
      rw [hpaging]
      exact hpage
    refine ⟨hstores'.trans hstores, fun hall => ?_, fun hno => ?_⟩
    · obtain ⟨hfirst, hrest⟩ := List.forall_mem_cons.mp hall
      rw [hquiet hrest, hframe, if_pos hfirst]
    · by_cases hrest : ∀ s ∈ is, rounds s = []
      · have hfirst : rounds s ≠ [] := fun he => hno (List.forall_mem_cons.mpr ⟨he, hrest⟩)
        rw [hquiet hrest, hframe, if_neg hfirst]
      · exact hloud hrest

lemma plain_setup : ∀ s ∈ Activation.installation.take 12, Plain s := by
  intro s hs
  simp only [Activation.installation, List.take_succ_cons, List.take_zero, List.mem_cons,
    List.not_mem_nil, or_false] at hs
  rcases hs with rfl | rfl | rfl | rfl | rfl | rfl | rfl | rfl | rfl | rfl | rfl | rfl <;>
    exact ⟨by simp, by simp, by simp⟩

lemma plain_started : ∀ s ∈ Activation.installation.drop 13, Plain s := by
  intro s hs
  simp only [Activation.installation, List.drop_succ_cons, List.drop_zero, List.mem_cons,
    List.not_mem_nil, or_false] at hs
  rcases hs with rfl | rfl | rfl | rfl <;> exact ⟨by simp, by simp, by simp⟩

/-- No tick comes before a byte of the program, or before a statement up to the one that
makes the new process current, while the owner is current. -/
def Unhit (a : Activation) (owner : Option ℤ) (rounds : Stmt → List Regs) : Prop :=
  ∀ s ∈ (List.range a.program.bytes.length).map Stmt.copy ++ Activation.installation.take 13,
    ¬Hit owner rounds s

/-- What a completed call has stored, and which page it leaves mapped. -/
lemma executeUnder_cases (hpid : 0 ≤ a.pid ∧ a.pid < numPids)
    (howner : ∀ p, k.currentPcb = some p → ((0 ≤ p ∧ p < numPids) ∧ p ≠ a.pid) ∧
      (k.pcbs p).processId = p) (h : a.executeUnder rounds k = some x) :
    ((∀ i < a.program.bytes.length, ¬Hit k.currentPcb rounds (.copy i)) →
      (∀ i < a.program.bytes.length, ownStore a i ∈ x.stores) ∧ ∀ e ∈ x.stores, InFrame a.pid e.1) ∧
    (¬(∀ i < a.program.bytes.length, ¬Hit k.currentPcb rounds (.copy i)) →
      ∃ e ∈ x.stores, ¬InFrame a.pid e.1) ∧
    (x.state.kernel.paging.userFrame = offsetField (getPhysAddr a.pid) ↔
      Unhit a k.currentPcb rounds ∨ ¬∀ s ∈ Activation.installation.drop 13, rounds s = []) := by
  have hown : k.currentPcb ≠ some a.pid := fun he => (howner a.pid he).1.2 rfl
  have hsplit : a.body = [Stmt.setPage] ++ ((List.range a.program.bytes.length).map Stmt.copy ++
      (Activation.installation.take 12 ++ ([.setCurrent] ++ Activation.installation.drop 13))) := rfl
  unfold Activation.executeUnder at h
  rw [hsplit, Loops.runUnder_append] at h
  obtain ⟨x₁, h₁, h⟩ := Option.bind_eq_some_iff.mp h
  rw [Loops.runUnder_append] at h
  obtain ⟨x₂, h₂, h⟩ := Option.bind_eq_some_iff.mp h
  rw [Loops.runUnder_append] at h
  obtain ⟨x₃, h₃, h⟩ := Option.bind_eq_some_iff.mp h
  rw [Loops.runUnder_append] at h
  obtain ⟨x₄, h₄, h₅⟩ := Option.bind_eq_some_iff.mp h
  obtain ⟨hat₁, hst₁⟩ := run_setPage rfl (fun p hp => (howner p hp).2) h₁
  obtain ⟨hat₂, new, hst₂, hgood, hbad⟩ :=
    run_stores hpid (fun p hp => (howner p hp).1) hat₁ h₂
  obtain ⟨hat₃, hst₃, hid₃⟩ := run_plain hown plain_setup hat₂ h₃
  obtain ⟨hcur₄, hid₄, hpage₄, haway₄, hst₄⟩ :=
    run_setCurrent hat₃ (hid₃ (Or.inl (by decide))) h₄
  obtain ⟨hst₅, hquiet, hloud⟩ := run_started plain_started hcur₄ hid₄ h₅
  have hstores : x.stores = new := by
    rw [hst₅, hst₄, hst₃, hst₂, hst₁, List.append_nil]
  have hunhit : (((True ∧ ∀ i ∈ List.range a.program.bytes.length,
      ¬Hit k.currentPcb rounds (.copy i)) ∧
      ∀ s ∈ Activation.installation.take 12, ¬Hit k.currentPcb rounds s) ∧
      ¬Hit k.currentPcb rounds .setCurrent) ↔ Unhit a k.currentPcb rounds := by
    have hlast : Activation.installation.take 13 =
        Activation.installation.take 12 ++ [.setCurrent] := rfl
    unfold Unhit
    rw [hlast]
    simp only [List.forall_mem_append, List.forall_mem_map, List.forall_mem_singleton, true_and,
      and_assoc]
  simp only [List.mem_range, true_and] at hgood hbad
  rw [hstores]
  refine ⟨hgood, hbad trivial, ?_⟩
  rw [hunhit] at hpage₄ haway₄
  constructor
  · intro hmapped
    by_contra hno
    obtain ⟨hhit, hlate⟩ := not_or.mp hno
    obtain ⟨p, hp, haway⟩ := haway₄ hhit
    obtain ⟨⟨hrange, hne⟩, -⟩ := howner p hp
    rw [hquiet (not_not.mp hlate), haway, getPhysAddr_eq hrange.1 hrange.2,
      getPhysAddr_eq hpid.1 hpid.2] at hmapped
    omega
  · intro hor
    by_cases hlate : ∀ s ∈ Activation.installation.drop 13, rounds s = []
    · rw [hquiet hlate]
      exact hpage₄ (hor.resolve_right fun hno => hno hlate)
    · exact hloud hlate

lemma Kernel.Settled.callerSound {chain : Fin 3 → List ℤ} (hk : k.Settled chain) :
    Activation.CallerSound k := by
  intro p hp
  have hlive := Kernel.foreground_live hk.tree hk.scheduled
  obtain rfl := Option.some.inj (hk.current.symm.trans hp)
  exact ⟨hlive, hk.pids _ hlive⟩

/-- A completed call loads the program into the process's own page and starts it there if and
only if no tick disturbs it. -/
theorem loaded_iff (hpid : k.choosePid = some a.pid) (hsound : Activation.CallerSound k)
    (h : a.executeUnder rounds k = some x) : a.Loaded k x ↔ a.Undisturbed rounds k := by
  obtain ⟨hrange, hfresh⟩ := Kernel.choosePid_fresh hpid
  have howner : ∀ p, k.currentPcb = some p → ((0 ≤ p ∧ p < numPids) ∧ p ≠ a.pid) ∧
      (k.pcbs p).processId = p := by
    intro p hp
    obtain ⟨hlive, hid, hp0, hp6⟩ := hsound p hp
    exact ⟨⟨⟨hp0, hp6⟩, fun he => hfresh (he ▸ hlive)⟩, hid⟩
  obtain ⟨hgood, hbad, hmapped⟩ := executeUnder_cases hrange howner h
  have hothers : (∀ e ∈ x.stores, InFrame a.pid e.1) → ∀ (p : ℤ) (addr : ℕ),
      0 ≤ p ∧ p < numPids → p ≠ a.pid → InFrame p addr →
        x.state.kernel.mem addr = k.mem addr := by
    intro hin p addr hp hne haddr
    apply executeUnder_mem h
    rintro e he rfl
    exact inFrame_disjoint hp hrange hne haddr (hin e he)
  cases hc : k.currentPcb with
  | none =>
    have hmiss : ∀ s, ¬Hit k.currentPcb rounds s := fun s hh => hh.1 hc
    obtain ⟨hcomplete, hin⟩ := hgood fun i _ => hmiss _
    refine iff_of_true ⟨hcomplete, hin, hothers hin, hmapped.mpr (Or.inl fun s _ => hmiss s)⟩ (Or.inl hc)
  | some p =>
    have hhit : ∀ s, ¬Hit k.currentPcb rounds s ↔ rounds s = [] := by
      intro s
      unfold Hit
      rw [hc]
      simp
    have hunhit : Unhit a k.currentPcb rounds ↔
        (∀ i < a.program.bytes.length, rounds (.copy i) = []) ∧
          ∀ s ∈ Activation.installation.take 13, rounds s = [] := by
      unfold Unhit
      simp only [List.forall_mem_append, List.forall_mem_map, List.mem_range, hhit]
    simp only [hhit] at hgood hbad
    rw [hunhit] at hmapped
    constructor
    · intro hl
      have hbytes : ∀ i < a.program.bytes.length, rounds (.copy i) = [] := by
        by_contra hno
        obtain ⟨e, he, hout⟩ := hbad hno
        exact hout (hl.own e he)
      refine Or.inr ⟨hbytes, ?_⟩
      rcases hmapped.mp hl.mapped with hquiet | hlate
      · exact Or.inl hquiet.2
      · right
        by_contra hno
        apply hlate
        intro s hs
        by_contra hne
        exact hno ⟨s, hs, hne⟩
    · rintro (hn | ⟨hbytes, hafter⟩)
      · exact absurd (hc.symm.trans hn) (by simp)
      · obtain ⟨hcomplete, hin⟩ := hgood hbytes
        refine ⟨hcomplete, hin, hothers hin, hmapped.mpr ?_⟩
        rcases hafter with hquiet | ⟨s, hs, hne⟩
        · exact Or.inl ⟨hbytes, hquiet⟩
        · exact Or.inr fun hall => hne (hall s hs)

end Load

/-! ### A tick while a shell loads a program -/

section Examples

open Kernel

/-- The second shell, started by the first. -/
def childShell : Activation := ⟨shellProgram, 3, bareFrame.regs⟩

/-- One tick, before the given statement. -/
def tickBefore (s : Stmt) : Stmt → List Regs := fun s' => if s' = s then [⟨0, 0⟩] else []

/-- A tick before the jump to user mode does no harm. -/
theorem loaded_iff_lateTick : ∃ k x, childShell.executeUnder (tickBefore .enter) k = some x ∧
    (childShell.Loaded k x ↔ childShell.Undisturbed (tickBefore .enter) k) := by
  have hend : (((boot ⟨0, 0⟩ (fun _ => 0) 0 0).execute shellImage bareFrame shellCommand).bind
      fun r => (childShell.executeUnder (tickBefore .enter) r.1).map fun _ =>
        (r.1.choosePid, r.1.currentPcb)) = some (some 3, some 0) := by
    decide +kernel
  obtain ⟨⟨k, res⟩, hk, hend⟩ := Option.bind_eq_some_iff.mp hend
  obtain ⟨x, hx, hend⟩ := Option.map_eq_some_iff.mp hend
  obtain ⟨hpid, hcur⟩ := Prod.mk.injEq .. ▸ hend
  rcases execute_reached (Or.inl (boot_fresh ..)) (Or.inl rfl) hk with hf | ⟨chain, hs⟩
  · exact absurd (hf.current.symm.trans hcur) (by simp)
  · exact ⟨k, x, hx, loaded_iff hpid hs.callerSound hx⟩

/-- With a tick between two bytes of the program, the rest of it goes to the caller. -/
theorem tick_misplaces_program : ¬∀ (img : Image) (frames : TableFrames) (mem : Memory)
    (x y : ℕ) (es : List Event) (k : Kernel) (f : CallFrame) (command : List UInt8)
    (a : Activation) (rounds : Stmt → List Regs) (z : Loading),
    Runs.Path (step img) (fun _ _ => True) (boot frames mem x y) es k →
      checkProgram img f.header command = some (some a.program) →
      k.choosePid = some a.pid → a.executeUnder rounds k = some z → a.Loaded k z := by
  intro h
  have hend : (Runs.run (step shellImage) (fun _ _ => True) (boot ⟨0, 0⟩ (fun _ => 0) 0 0)
      [.execute bareFrame shellCommand]).bind (fun k =>
        (childShell.executeUnder (tickBefore (.copy 1)) k).map fun z =>
          (k.choosePid, z.stores.all fun e => frameBase 3 ≤ e.1)) = some (some 3, false) := by
    decide +kernel
  obtain ⟨k, hrun, hend⟩ := Option.bind_eq_some_iff.mp hend
  obtain ⟨z, hz, hend⟩ := Option.map_eq_some_iff.mp hend
  obtain ⟨hpid, hout⟩ := Prod.mk.injEq .. ▸ hend
  have hloaded := h _ _ _ _ _ _ k bareFrame shellCommand childShell _ z (Runs.path_of_run hrun)
    checkProgram_shellImage hpid hz
  rw [List.all_eq_false] at hout
  obtain ⟨e, he, hlow⟩ := hout
  exact hlow (decide_eq_true (hloaded.own e he).1)

end Examples

end HalOs
