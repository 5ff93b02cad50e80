import Mathlib

/-!
# Chains of linked nodes

A singly linked list in a store: from a first pointer through the link of each node to the null
pointer. A chain that ends visits no node twice, so it can be searched, walked and relinked by
its list of nodes; a set of nodes whose links stay inside it is never left.
-/

namespace Chains

variable {α σ : Type*} {next next' : α → Option α} {p : Option α} {l l' : List α} {a b : α}

/-- The nodes met from `p` to the null pointer are those of the list, in order. -/
def Chain (next : α → Option α) : Option α → List α → Prop
  | p, [] => p = none
  | p, a :: l => p = some a ∧ Chain next (next a) l

lemma Chain.unique (h : Chain next p l) (h' : Chain next p l') : l = l' := by
  induction l generalizing p l' with
  | nil =>
    cases l' with
    | nil => rfl
    | cons b l' => exact absurd (h.symm.trans h'.1) (by simp)
  | cons a l ih =>
    cases l' with
    | nil => exact absurd (h'.symm.trans h.1) (by simp)
    | cons b l' =>
      obtain rfl : a = b := Option.some.inj (h.1.symm.trans h'.1)
      rw [ih h.2 h'.2]

/-- A chain splits at each of its nodes. -/
lemma Chain.from (h : Chain next p (l ++ a :: l')) : Chain next (some a) (a :: l') := by
  induction l generalizing p with
  | nil => exact ⟨rfl, h.2⟩
  | cons b l ih => exact ih h.2

/-- A chain that ends visits no node twice: the rest of it from a node would be longer than
itself. -/
theorem Chain.nodup (h : Chain next p l) : l.Nodup := by
  induction l generalizing p with
  | nil => exact List.nodup_nil
  | cons a l ih =>
    refine List.nodup_cons.mpr ⟨fun hmem => ?_, ih h.2⟩
    obtain ⟨front, back, hsplit⟩ := List.append_of_mem hmem
    have hinner : Chain next (next a) (front ++ a :: back) := hsplit ▸ h.2
    have hlong : a :: l = a :: back := Chain.unique ⟨rfl, h.2⟩ hinner.from
    have hlength := congrArg List.length hlong
    rw [hsplit] at hlength
    simp at hlength
    omega

lemma Chain.congr (h : Chain next p l) (heq : ∀ b ∈ l, next' b = next b) : Chain next' p l := by
  induction l generalizing p with
  | nil => exact h
  | cons a l ih =>
    refine ⟨h.1, ?_⟩
    rw [heq a List.mem_cons_self]
    exact ih h.2 fun b hb => heq b (List.mem_cons_of_mem a hb)

section Relinking

variable [DecidableEq α]

lemma Chain.update_of_notMem (h : Chain next p l) (ha : a ∉ l) (q : Option α) :
    Chain (Function.update next a q) p l := by
  refine h.congr fun b hb => Function.update_of_ne (fun heq => ?_) ..
  exact ha (heq ▸ hb)

/-- A fresh node linked to the first one starts the longer chain. -/
theorem Chain.push (h : Chain next p l) (ha : a ∉ l) :
    Chain (Function.update next a p) (some a) (a :: l) := by
  refine ⟨rfl, ?_⟩
  rw [Function.update_self]
  exact h.update_of_notMem ha p

/-- The predecessor of a node linked past it leaves the chain without that node. -/
theorem Chain.bypass (h : Chain next p (l ++ a :: b :: l')) :
    Chain (Function.update next a (next b)) p (l ++ a :: l') := by
  have hnodup := h.nodup
  induction l generalizing p with
  | nil =>
    obtain ⟨hp, -, hrest⟩ := h
    have ha : a ∉ l' := fun hmem =>
      (List.nodup_cons.mp hnodup).1 (List.mem_cons_of_mem b hmem)
    refine ⟨hp, ?_⟩
    rw [Function.update_self]
    exact hrest.update_of_notMem ha (next b)
  | cons c l ih =>
    rw [List.cons_append, List.nodup_cons] at hnodup
    have hca : c ≠ a := fun heq => hnodup.1 (by simp [heq])
    refine ⟨h.1, ?_⟩
    rw [Function.update_of_ne hca]
    exact ih h.2 hnodup.2

end Relinking

/-! ### Searching -/

/-- The first node from `p` that passes the test; no result when `fuel` nodes did not. -/
def search (next : α → Option α) (hit : α → Prop) [DecidablePred hit] :
    ℕ → Option α → Option (Option α)
  | _, none => some none
  | 0, some _ => none
  | fuel + 1, some a => if hit a then some (some a) else search next hit fuel (next a)

section Search

variable {hit : α → Prop} [DecidablePred hit] {fuel : ℕ}

/-- A search of a chain finds what a search of its list of nodes finds. -/
theorem Chain.search_eq (h : Chain next p l) (hfuel : l.length ≤ fuel) :
    search next hit fuel p = some (l.find? fun a => decide (hit a)) := by
  induction l generalizing p fuel with
  | nil =>
    obtain rfl : p = none := h
    cases fuel <;> rfl
  | cons a l ih =>
    obtain ⟨rfl, hrest⟩ := h
    obtain ⟨fuel, rfl⟩ := Nat.exists_eq_add_of_le' (Nat.one_le_of_lt hfuel)
    rw [List.length_cons] at hfuel
    by_cases ha : hit a
    · simp [search, ha]
    · rw [search, if_neg ha, List.find?_cons_of_neg (by simpa using ha)]
      exact ih hrest (by omega)

end Search

/-! ### Walking -/

/-- Acts on each node from `p` and follows the link it then has; no result when `fuel` nodes
did not reach the end. -/
def walk (link : σ → α → Option α) (act : σ → α → σ) : ℕ → Option α → σ → Option σ
  | _, none, s => some s
  | 0, some _, _ => none
  | fuel + 1, some a, s => walk link act fuel (link (act s a) a) (act s a)

section Walk

variable {link : σ → α → Option α} {act : σ → α → σ} {s : σ} {fuel : ℕ}

/-- A walk that leaves the links alone acts once on each node of the chain, in order. -/
theorem Chain.walk_eq (h : Chain (link s) p l) (hlink : ∀ s a, link (act s a) = link s)
    (hfuel : l.length ≤ fuel) : walk link act fuel p s = some (l.foldl act s) := by
  induction l generalizing p fuel s with
  | nil =>
    obtain rfl : p = none := h
    cases fuel <;> rfl
  | cons a l ih =>
    obtain ⟨rfl, hrest⟩ := h
    obtain ⟨fuel, rfl⟩ := Nat.exists_eq_add_of_le' (Nat.one_le_of_lt hfuel)
    rw [List.length_cons] at hfuel
    rw [walk, hlink, List.foldl_cons]
    exact ih (by rw [hlink]; exact hrest) (by omega)

/-- What every visit keeps holds at the end of a walk. -/
lemma walk_invariant {I : σ → Prop} (hact : ∀ s a, I s → I (act s a)) {t : σ}
    (h : walk link act fuel p s = some t) (hs : I s) : I t := by
  induction fuel generalizing p s with
  | zero =>
    cases p with
    | none => exact Option.some.inj h ▸ hs
    | some a => exact absurd h (by simp [walk])
  | succ fuel ih =>
    cases p with
    | none => exact Option.some.inj h ▸ hs
    | some a => exact ih h (hact s a hs)

/-- A walk that leaves the links alone and ends has met a chain. -/
lemma chain_of_walk (hlink : ∀ s a, link (act s a) = link s) {t : σ}
    (h : walk link act fuel p s = some t) : ∃ l, Chain (link s) p l := by
  induction fuel generalizing p s with
  | zero =>
    cases p with
    | none => exact ⟨[], rfl⟩
    | some a => exact absurd h (by simp [walk])
  | succ fuel ih =>
    cases p with
    | none => exact ⟨[], rfl⟩
    | some a =>
      obtain ⟨l, hl⟩ := ih h
      rw [hlink] at hl
      exact ⟨a :: l, rfl, hl⟩

end Walk

/-! ### Endless chains -/

/-- Every link from inside `S` leads to a node of `S` again. -/
def Endless (next : α → Option α) (S : Set α) : Prop := ∀ a ∈ S, ∃ b ∈ S, next a = some b

lemma Endless.not_chain {S : Set α} (h : Endless next S) (ha : a ∈ S) :
    ¬Chain next (some a) l := by
  induction l generalizing a with
  | nil => simp [Chain]
  | cons c l ih =>
    rintro ⟨hc, hrest⟩
    obtain rfl := Option.some.inj hc
    obtain ⟨b, hb, hnext⟩ := h _ ha
    exact ih hb (hnext ▸ hrest)

/-- A search that meets only nodes of an endless set, none of which passes, has no result. -/
theorem Endless.search_eq_none {S : Set α} {hit : α → Prop} [DecidablePred hit]
    (h : Endless next S) (hmiss : ∀ a ∈ S, ¬hit a) (ha : a ∈ S) (fuel : ℕ) :
    search next hit fuel (some a) = none := by
  induction fuel generalizing a with
  | zero => rfl
  | succ fuel ih =>
    obtain ⟨b, hb, hnext⟩ := h a ha
    rw [search, if_neg (hmiss a ha), hnext]
    exact ih hb

/-- A search of an endless set does not end without a node. -/
theorem Endless.search_ne_missing {S : Set α} {hit : α → Prop} [DecidablePred hit]
    (h : Endless next S) (ha : a ∈ S) (fuel : ℕ) : search next hit fuel (some a) ≠ some none := by
  induction fuel generalizing a with
  | zero => exact fun hnone => absurd hnone (by simp [search])
  | succ fuel ih =>
    obtain ⟨b, hb, hnext⟩ := h a ha
    rw [search, hnext]
    split_ifs with hhit
    · simp
    · exact ih hb

/-- A walk into an endless set has no result. -/
theorem Endless.walk_eq_none {link : σ → α → Option α} {act : σ → α → σ} {s : σ} {S : Set α}
    (h : Endless (link s) S) (hlink : ∀ s a, link (act s a) = link s) (ha : a ∈ S) (fuel : ℕ) :
    walk link act fuel (some a) s = none := by
  induction fuel generalizing a s with
  | zero => rfl
  | succ fuel ih =>
    obtain ⟨b, hb, hnext⟩ := h a ha
    rw [walk, hlink, hnext]
    exact ih (by rw [hlink]; exact h) hb

/-- A node pushed onto a chain that already holds it closes the chain into a cycle. -/
theorem Chain.endless_push [DecidableEq α] (h : Chain next p l) (ha : a ∈ l) :
    ∃ S : Set α, a ∈ S ∧ (∀ b ∈ S, b ∈ l) ∧ Endless (Function.update next a p) S := by
  obtain ⟨front, back, rfl⟩ := List.append_of_mem ha
  refine ⟨{b | b ∈ front ++ [a]}, by simp, fun b hb => ?_, ?_⟩
  · have hb' : b ∈ front ++ [a] := hb
    simp only [List.mem_append, List.mem_singleton] at hb'
    simp only [List.mem_append, List.mem_cons]
    tauto
  · -- The links of the nodes before `a` lead on to `a`, and `a` now leads back to the first.
    have hnodup := h.nodup
    suffices ∀ front p, Chain next p (front ++ a :: back) → a ∉ front →
        (∃ b ∈ front ++ [a], p = some b) ∧
          ∀ b ∈ front, ∃ c ∈ front ++ [a], next b = some c by
      have hafront : a ∉ front := fun hmem =>
        (List.nodup_append.mp hnodup).2.2 a hmem a List.mem_cons_self rfl
      obtain ⟨hfirst, hlinks⟩ := this front p h hafront
      intro b hb
      have hb' : b ∈ front ++ [a] := hb
      by_cases hba : b = a
      · rw [hba, Function.update_self]
        exact hfirst
      · rw [Function.update_of_ne hba]
        exact hlinks b (by simpa [hba] using hb')
    intro front
    induction front with
    | nil => exact fun p h _ => ⟨⟨a, by simp, h.1⟩, by simp⟩
    | cons c front ih =>
      intro p h hafront
      obtain ⟨hp, hrest⟩ := h
      obtain ⟨⟨d, hd, hfirst⟩, hlinks⟩ := ih _ hrest fun hmem => hafront (by simp [hmem])
      refine ⟨⟨c, by simp, hp⟩, fun b hb => ?_⟩
      rcases List.mem_cons.mp hb with rfl | hb
      · exact ⟨d, by simpa using Or.inr (by simpa using hd), hfirst⟩
      · obtain ⟨e, he, hnext⟩ := hlinks b hb
        exact ⟨e, by simpa using Or.inr (by simpa using he), hnext⟩

end Chains
