import HalOs.Proofs.BlinkList

/-!
# The phases of a blinker

How long a blinker shows each character. Its two lengths are 16-bit words that are counted down
as signed ones, so that a length of 0 or above 0x8000 lasts a single tick.
-/

namespace HalOs.Blink

/-- The ticks that a countdown from `w` lasts. -/
def duration (w : UInt16) : ℕ := if 1 ≤ w.toNat ∧ w.toNat ≤ 0x8000 then w.toNat else 1

/-- What a tick leaves of a blinker. -/
def tick (d : Blinker) : Blinker := (taskletBody d).1

/-- A blinker as it is `n` ticks after it was switched on. -/
def phase (d : Blinker) (n : ℕ) : Blinker :=
  let r := n % (duration d.onLength + duration d.offLength)
  if r < duration d.onLength then { d with status := 1, countdown := d.onLength - UInt16.ofNat r }
  else { d with status := 0, countdown := d.offLength - UInt16.ofNat (r - duration d.onLength) }

/-- The character a blinker shows. -/
def face (d : Blinker) : UInt8 := if d.status &&& 1 = 0 then d.offChar else d.onChar

lemma duration_pos (w : UInt16) : 0 < duration w := by
  unfold duration
  split_ifs <;> omega

lemma countsOn_iff (w : UInt16) : countsOn w ↔ 0 < w.toNat ∧ w.toNat < 0x8000 := by
  unfold countsOn
  have hlt := w.toNat_lt
  have hzero : (0 : Int16).toInt = 0 := rfl
  have hint : w.toInt16.toInt = w.toBitVec.toInt := rfl
  rw [Int16.lt_iff_toInt_lt, hzero, hint, BitVec.toInt_eq_toNat_cond, UInt16.toNat_toBitVec]
  split_ifs <;> omega

/-- `r` ticks into a countdown it goes on exactly if it has more than one tick left. -/
lemma countsOn_countdown {w : UInt16} {r : ℕ} (hr : r < duration w) :
    countsOn (w - UInt16.ofNat r - 1) ↔ r + 1 < duration w := by
  have hlt := w.toNat_lt
  have hsmall : r < 65536 := by
    unfold duration at hr
    split_ifs at hr <;> omega
  have hnat : (w - UInt16.ofNat r - 1).toNat = (65535 + (65536 - r + w.toNat) % 65536) % 65536 := by
    rw [UInt16.toNat_sub, UInt16.toNat_sub, UInt16.toNat_ofNat', Nat.mod_eq_of_lt hsmall]
    rfl
  rw [countsOn_iff, hnat]
  unfold duration at hr ⊢
  split_ifs at hr ⊢ <;> omega

lemma countdown_succ (w : UInt16) (r : ℕ) :
    w - UInt16.ofNat r - 1 = w - UInt16.ofNat (r + 1) := by
  rw [UInt16.ofNat_add]
  grind

/-! ### One tick -/

lemma tick_on {d : Blinker} {r : ℕ} (hr : r < duration d.onLength) :
    tick { d with status := 1, countdown := d.onLength - UInt16.ofNat r } =
      if r + 1 < duration d.onLength then
        { d with status := 1, countdown := d.onLength - UInt16.ofNat (r + 1) }
      else { d with status := 0, countdown := d.offLength } := by
  unfold tick taskletBody
  dsimp only
  by_cases hnext : r + 1 < duration d.onLength
  · rw [if_pos ((countsOn_countdown hr).mpr hnext), if_pos hnext, countdown_succ]
  · rw [if_neg (mt (countsOn_countdown hr).mp hnext), if_neg hnext, if_neg (by decide)]
    rfl

lemma tick_off {d : Blinker} {r : ℕ} (hr : r < duration d.offLength) :
    tick { d with status := 0, countdown := d.offLength - UInt16.ofNat r } =
      if r + 1 < duration d.offLength then
        { d with status := 0, countdown := d.offLength - UInt16.ofNat (r + 1) }
      else { d with status := 1, countdown := d.onLength } := by
  unfold tick taskletBody
  dsimp only
  by_cases hnext : r + 1 < duration d.offLength
  · rw [if_pos ((countsOn_countdown hr).mpr hnext), if_pos hnext, countdown_succ]
  · rw [if_neg (mt (countsOn_countdown hr).mp hnext), if_neg hnext, if_pos (by decide)]
    rfl

lemma succ_mod_eq_ite (n m : ℕ) (hm : 0 < m) :
    (n + 1) % m = if n % m + 1 = m then 0 else n % m + 1 := by
  have hlt := Nat.mod_lt n hm
  rw [← Nat.mod_add_mod]
  split_ifs with h
  · rw [h, Nat.mod_self]
  · exact Nat.mod_eq_of_lt (by omega)

/-- One more tick leads to the next phase. -/
lemma tick_phase (d : Blinker) (n : ℕ) : tick (phase d n) = phase d (n + 1) := by
  have hon := duration_pos d.onLength
  have hoff := duration_pos d.offLength
  have hpos : 0 < duration d.onLength + duration d.offLength := Nat.add_pos_left hon _
  have hlt := Nat.mod_lt n hpos
  unfold phase
  dsimp only
  rw [succ_mod_eq_ite n _ hpos]
  generalize n % (duration d.onLength + duration d.offLength) = r at hlt
  by_cases hr : r < duration d.onLength
  · rw [if_pos hr, tick_on hr, if_neg (show ¬r + 1 = _ by omega)]
    by_cases hnext : r + 1 < duration d.onLength
    · rw [if_pos hnext, if_pos hnext]
    · have hlast : r + 1 = duration d.onLength := by omega
      rw [if_neg hnext, if_neg hnext, hlast, Nat.sub_self]
      simp
  · have hrest : r - duration d.onLength < duration d.offLength := by omega
    rw [if_neg hr, tick_off hrest]
    by_cases hnext : r - duration d.onLength + 1 < duration d.offLength
    · have hshift : r - duration d.onLength + 1 = r + 1 - duration d.onLength := by omega
      rw [if_pos hnext, if_neg (show ¬r + 1 = _ by omega), if_neg (by omega), hshift]
    · rw [if_neg hnext, if_pos (show r + 1 = _ by omega), if_pos hon]
      simp

/-- What a blinker is `n` ticks after it was added. -/
theorem tick_iterate {d : Blinker} (hstatus : d.status = 1) (hcountdown : d.countdown = d.onLength)
    (n : ℕ) : tick^[n] d = phase d n := by
  induction n with
  | zero =>
    have hon := duration_pos d.onLength
    rw [Function.iterate_zero_apply, phase, Nat.zero_mod, if_pos hon]
    exact Blinker.ext rfl rfl rfl rfl rfl (by simp [hcountdown]) hstatus
  | succ n ih => rw [Function.iterate_succ_apply', ih, tick_phase]

/-! ### The screen -/

lemma face_on {d : Blinker} (h : d.status = 1) : face d = d.onChar := by
  rw [face, h, if_neg (by decide)]

lemma face_off {d : Blinker} (h : d.status = 0) : face d = d.offChar := by
  rw [face, h, if_pos (by decide)]

/-- A tick pokes the character a blinker changes to. -/
lemma flash_self (video : ℕ → UInt8) (d : Blinker) (hface : video (2 * d.location.toNat) = face d)
    (hstatus : d.status = 0 ∨ d.status = 1) :
    Blinkers.flash video d (2 * d.location.toNat) = face (tick d) := by
  unfold Blinkers.flash tick taskletBody
  dsimp only
  by_cases hcounts : countsOn (d.countdown - 1)
  · rw [if_pos hcounts]
    exact hface
  · rw [if_neg hcounts]
    rcases hstatus with h | h
    · rw [h, if_pos (by decide)]
      dsimp only
      rw [face_on (by rfl), Blinkers.poke, Function.update_self]
    · rw [h, if_neg (by decide)]
      dsimp only
      rw [face_off (by rfl), Blinkers.poke, Function.update_self]

lemma flash_of_ne (video : ℕ → UInt8) {d : Blinker} {k : ℕ} (hk : 2 * d.location.toNat ≠ k) :
    Blinkers.flash video d k = video k := by
  unfold Blinkers.flash
  cases (taskletBody d).2 with
  | none => rfl
  | some c => exact Function.update_of_ne hk.symm ..

lemma foldl_flash_of_ne {entries : List Blinker} {k : ℕ}
    (hk : ∀ d ∈ entries, 2 * d.location.toNat ≠ k) (video : ℕ → UInt8) :
    entries.foldl Blinkers.flash video k = video k := by
  induction entries generalizing video with
  | nil => rfl
  | cons d entries ih =>
    rw [List.foldl_cons, ih fun d' hd' => hk d' (List.mem_cons_of_mem d hd')]
    exact flash_of_ne video (hk d List.mem_cons_self)

lemma phase_status (d : Blinker) (n : ℕ) : (phase d n).status = 0 ∨ (phase d n).status = 1 := by
  unfold phase
  dsimp only
  split_ifs
  · exact Or.inr rfl
  · exact Or.inl rfl

lemma phase_location (d : Blinker) (n : ℕ) : (phase d n).location = d.location := by
  unfold phase
  dsimp only
  split_ifs <;> rfl

/-- The character shown after `n` ticks. -/
lemma face_phase (d : Blinker) (n : ℕ) : face (phase d n) =
    if n % (duration d.onLength + duration d.offLength) < duration d.onLength then d.onChar
    else d.offChar := by
  unfold phase
  dsimp only
  split_ifs with h
  · exact face_on rfl
  · exact face_off rfl

/-- The state of the list `n` ticks after a blinker was put in front, at a location of its
own. -/
lemma session_ticks {d : Blinker} (hstatus : d.status = 1) (hcountdown : d.countdown = d.onLength)
    {entries : List Blinker} (hown : ∀ e ∈ entries, e.location ≠ d.location) (video : ℕ → UInt8)
    (hface : video (2 * d.location.toNat) = face d) (n : ℕ) :
    ∃ rest, (Blinkers.session ⟨d :: entries, video⟩ (List.replicate n .tick)).2.entries =
        phase d n :: rest ∧
      (∀ e ∈ rest, e.location ≠ d.location) ∧
      (Blinkers.session ⟨d :: entries, video⟩ (List.replicate n .tick)).2.video
        (2 * d.location.toNat) = face (phase d n) := by
  have hrun : ∀ m (a : Blinkers), (a.session (List.replicate (m + 1) .tick)).2 =
      ((a.session (List.replicate m .tick)).2.serve .tick).2 := by
    intro m
    induction m with
    | zero => exact fun a => rfl
    | succ m ih => exact fun a => ih (a.serve .tick).2
  induction n with
  | zero =>
    have hzero := tick_iterate hstatus hcountdown 0
    rw [Function.iterate_zero_apply] at hzero
    rw [← hzero]
    exact ⟨entries, rfl, hown, hface⟩
  | succ n ih =>
    obtain ⟨rest, hentries, hrest, hshown⟩ := ih
    rw [hrun]
    generalize (Blinkers.session ⟨d :: entries, video⟩ (List.replicate n .tick)).2 = a at *
    refine ⟨rest.map tick, ?_, ?_, ?_⟩
    · rw [← tick_phase, Blinkers.serve, hentries]
      rfl
    · intro e he
      obtain ⟨e', he', rfl⟩ := List.mem_map.mp he
      rw [tick, taskletBody_location]
      exact hrest e' he'
    · rw [Blinkers.serve, hentries, List.foldl_cons]
      dsimp only
      rw [foldl_flash_of_ne, ← tick_phase]
      · have hself := flash_self a.video (phase d n)
        rw [phase_location] at hself
        exact hself hshown (phase_status d n)
      · intro e he heq
        have hsame : e.location.toNat = d.location.toNat := by omega
        exact hrest e he (UInt16.toNat_inj.mp hsame)

/-- A character added at a free location other than 0 blinks with the period of its two
durations: `n` ticks later its byte of the screen holds the first character for the first
duration of each period and the second one for the rest. -/
theorem added_character_blinks {s : Blink} {a : Blinkers} {slots : List Slot}
    (h : Represents slots s a) (b : BlinkStruct) (horigin : b.location ≠ 0)
    (hloc : b.location.toNat < 80 * 25) (hroom : a.entries.length < blinkSlots)
    (hown : ∀ d ∈ a.entries, d.location ≠ b.location) (n : ℕ) {fuel : ℕ}
    (hfuel : blinkSlots ≤ fuel) :
    ∃ answers t, s.session fuel (.add b :: List.replicate n .tick) = some (answers, t) ∧
      t.video (2 * b.location.toNat) =
        if n % (duration b.onLength + duration b.offLength) < duration b.onLength then b.onChar
        else b.offChar := by
  have hrs : ∀ r ∈ Request.add b :: List.replicate n .tick, r.OffOrigin := by
    intro r hr
    rcases List.mem_cons.mp hr with rfl | hr
    · exact horigin
    · rw [List.eq_of_mem_replicate hr]
      trivial
  obtain ⟨answers, t, slots', hsession, -, ht⟩ := h.session hfuel hrs
  refine ⟨answers, t, hsession, ?_⟩
  have hadd : (a.serve (.add b)).2 =
      ⟨{ b.toBlinker with status := 1, countdown := b.onLength } :: a.entries,
        Blinkers.poke a.video b.location b.onChar⟩ := by
    rw [Blinkers.serve, if_neg (by omega)]
  have hface : Blinkers.poke a.video b.location b.onChar (2 * b.location.toNat) =
      face { b.toBlinker with status := 1, countdown := b.onLength } := by
    rw [face_on (by rfl), Blinkers.poke, Function.update_self]
  obtain ⟨rest, -, -, hshown⟩ := session_ticks (d := { b.toBlinker with
    status := 1, countdown := b.onLength }) rfl rfl hown
    (Blinkers.poke a.video b.location b.onChar) hface n
  rw [face_phase] at hshown
  rw [ht.video, Blinkers.session, hadd]
  exact hshown

theorem added_character_blinks_fish : ∃ answers t,
    (initial fun _ => 0).session blinkSlots
        (.add ⟨⟨540, 73, 77, 7, 6, 0, 0⟩, none⟩ :: List.replicate 100 .tick) = some (answers, t) ∧
      t.video 1080 = 77 := by
  obtain ⟨answers, t, hsession, hshown⟩ := added_character_blinks
    (represents_initial fun _ => 0) ⟨⟨540, 73, 77, 7, 6, 0, 0⟩, none⟩ (by decide) (by decide)
    (by decide) (by simp) 100 le_rfl
  exact ⟨answers, t, hsession, hshown.trans rfl⟩

end HalOs.Blink
