import Mathlib

/-!
# Forests of chains

Each index owns at most one chain of nodes, from a top node through parent links down to
the root of the index. The chains are disjoint and together they hold the live nodes. New
nodes are pushed on top of a chain, tops are popped; an empty chain starts with
its root.
-/

namespace Forests

variable {ι α : Type*}

/-- The live nodes form one chain of parent links for each index. -/
structure Forest (root : ι → α) (top : ι → Option α) (parent : α → Option α) (alive : α → Prop)
    (chain : ι → List α) : Prop where
  head : ∀ t, (chain t).head? = top t
  last : ∀ t, ∀ p ∈ (chain t).getLast?, p = root t
  links : ∀ t, (chain t).IsChain fun p q => parent p = some q
  rootless : ∀ t, chain t ≠ [] → parent (root t) = none
  alive_iff : ∀ p, alive p ↔ ∃ t, p ∈ chain t
  disjoint : ∀ t u, t ≠ u → List.Disjoint (chain t) (chain u)
  nodup : ∀ t, (chain t).Nodup

namespace Forest

variable {root : ι → α} {top top' : ι → Option α} {parent parent' : α → Option α}
  {alive alive' : α → Prop} {chain : ι → List α} {t u : ι} {n p q : α} {rest : List α}

lemma root_mem (h : Forest root top parent alive chain) (ht : chain t ≠ []) :
    root t ∈ chain t := by
  have hlast := List.getLast?_eq_some_getLast ht
  have hroot := h.last t _ hlast
  rw [← hroot]
  exact List.getLast_mem ht

lemma alive_of_mem (h : Forest root top parent alive chain) (hp : p ∈ chain t) : alive p :=
  (h.alive_iff p).mpr ⟨t, hp⟩

lemma eq_of_mem (h : Forest root top parent alive chain) (ht : p ∈ chain t)
    (hu : p ∈ chain u) : t = u := by
  by_contra hne
  exact h.disjoint t u hne ht hu

lemma top_alive (h : Forest root top parent alive chain) (ht : top t = some p) : alive p := by
  apply h.alive_of_mem (t := t)
  have hh := h.head t
  rw [ht] at hh
  exact List.mem_of_head? hh

lemma chain_eq_nil (h : Forest root top parent alive chain) : chain t = [] ↔ top t = none := by
  rw [← h.head t, List.head?_eq_none_iff]

lemma chain_of_top (h : Forest root top parent alive chain) (ht : top t = some p)
    (hp : p ≠ root t) : ∃ q rest, chain t = p :: q :: rest ∧ parent p = some q := by
  have hhead := h.head t
  have hlast := h.last t
  have hlinks := h.links t
  rw [ht] at hhead
  cases hc : chain t with
  | nil => simp [hc] at hhead
  | cons p' rest =>
    simp only [hc, List.head?_cons, Option.some.injEq] at hhead
    subst hhead
    cases rest with
    | nil => exact absurd (hlast p' (by simp [hc])) hp
    | cons q rest =>
      rw [hc] at hlinks
      exact ⟨q, rest, rfl, (List.isChain_cons_cons.mp hlinks).1⟩

/-- Only the links and tops of live nodes matter. -/
theorem congr (h : Forest root top parent alive chain) (htop : ∀ t, top' t = top t)
    (hparent : ∀ p, alive p → parent' p = parent p) (halive : ∀ p, alive' p ↔ alive p) :
    Forest root top' parent' alive' chain where
  head t := by rw [htop, h.head]
  last := h.last
  links t := by
    refine List.IsChain.imp_of_mem_imp (fun p q hp _ hpq => ?_) (h.links t)
    rw [hparent p (h.alive_of_mem hp)]
    exact hpq
  rootless t ht := by
    rw [hparent _ (h.alive_of_mem (h.root_mem ht))]
    exact h.rootless t ht
  alive_iff p := (halive p).trans (h.alive_iff p)
  disjoint := h.disjoint
  nodup := h.nodup

section Update

variable [DecidableEq ι]

/-- A new node goes on top of a chain, with the old top as its parent. An empty chain can
only be started by its root. -/
theorem push (h : Forest root top parent alive chain) (ht : chain t = [] → n = root t)
    (hn : ¬alive n) (htop : ∀ u, top' u = if u = t then some n else top u)
    (hnew : parent' n = top t) (hparent : ∀ p, alive p → parent' p = parent p)
    (halive : ∀ p, alive' p ↔ p = n ∨ alive p) :
    Forest root top' parent' alive' (Function.update chain t (n :: chain t)) := by
  have hfresh : ∀ u, n ∉ chain u := fun u hu => hn (h.alive_of_mem hu)
  have hold : Forest root top parent' alive chain := h.congr (fun _ => rfl) hparent fun _ => Iff.rfl
  refine ⟨?_, ?_, ?_, ?_, fun p => ?_, fun u v huv => ?_, ?_⟩
  · refine (Function.forall_update_iff chain fun u c => c.head? = top' u).mpr
      ⟨?_, fun u hu => ?_⟩
    · simp [htop]
    · rw [htop, if_neg hu, h.head]
  · refine (Function.forall_update_iff chain fun u c => ∀ p ∈ c.getLast?, p = root u).mpr
      ⟨fun p hp => ?_, fun u _ => h.last u⟩
    rw [List.getLast?_cons] at hp
    by_cases hc : chain t = []
    · simp only [hc, List.getLast?_nil, Option.getD_none, Option.mem_def,
        Option.some.injEq] at hp
      rw [← hp, ht hc]
    · apply h.last t p
      rw [List.getLast?_eq_some_getLast hc] at hp ⊢
      exact hp
  · refine (Function.forall_update_iff chain fun _ c => c.IsChain fun p q => parent' p = some q).mpr
      ⟨List.IsChain.cons (hold.links t) fun q hq => ?_, fun u _ => hold.links u⟩
    rw [hnew, ← h.head t]
    exact hq
  · refine (Function.forall_update_iff chain fun u c => c ≠ [] → parent' (root u) = none).mpr
      ⟨fun _ => ?_, fun u _ => hold.rootless u⟩
    by_cases hc : chain t = []
    · rw [← ht hc, hnew]
      exact h.chain_eq_nil.mp hc
    · exact hold.rootless t hc
  · rw [halive, h.alive_iff, Function.exists_update_iff chain fun _ c => p ∈ c, List.mem_cons]
    constructor
    · rintro (rfl | ⟨u, hu⟩)
      · exact Or.inl (Or.inl rfl)
      · by_cases hut : u = t
        · exact Or.inl (Or.inr (hut ▸ hu))
        · exact Or.inr ⟨u, hut, hu⟩
    · rintro ((hn | hp) | ⟨u, -, hu⟩)
      · exact Or.inl hn
      · exact Or.inr ⟨t, hp⟩
      · exact Or.inr ⟨u, hu⟩
  · by_cases hu : u = t
    · subst hu
      have hv : v ≠ u := fun hv => huv hv.symm
      rw [Function.update_self, Function.update_of_ne hv]
      exact List.disjoint_cons_left.mpr ⟨hfresh v, h.disjoint u v huv⟩
    · by_cases hv : v = t
      · subst hv
        rw [Function.update_self, Function.update_of_ne hu]
        exact List.disjoint_cons_right.mpr ⟨hfresh u, h.disjoint u v huv⟩
      · rw [Function.update_of_ne hu, Function.update_of_ne hv]
        exact h.disjoint u v huv
  · exact (Function.forall_update_iff chain fun _ c => c.Nodup).mpr
      ⟨List.nodup_cons.mpr ⟨hfresh t, h.nodup t⟩, fun u _ => h.nodup u⟩

/-- The top of a chain of at least two nodes goes away. -/
theorem pop (h : Forest root top parent alive chain) (ht : chain t = p :: q :: rest)
    (htop : ∀ u, top' u = if u = t then some q else top u)
    (hparent : ∀ r, alive r → r ≠ p → parent' r = parent r)
    (halive : ∀ r, alive' r ↔ alive r ∧ r ≠ p) :
    Forest root top' parent' alive' (Function.update chain t (q :: rest)) := by
  have hnodup := h.nodup t
  rw [ht] at hnodup
  obtain ⟨hgone_t, hnodup'⟩ := List.nodup_cons.mp hnodup
  have hgone : ∀ u, p ∉ Function.update chain t (q :: rest) u := by
    refine (Function.forall_update_iff chain fun _ c => p ∉ c).mpr ⟨hgone_t, fun u hut hu => ?_⟩
    exact hut (h.eq_of_mem hu (by rw [ht]; simp))
  have hsub : ∀ u, Function.update chain t (q :: rest) u ⊆ chain u := by
    refine (Function.forall_update_iff chain fun u c => c ⊆ chain u).mpr
      ⟨?_, fun u _ => List.Subset.refl _⟩
    rw [ht]
    exact List.subset_cons_self p _
  have hlink : ∀ u, (Function.update chain t (q :: rest) u).IsChain fun p q => parent p = some q := by
    have hl := h.links t
    rw [ht] at hl
    exact (Function.forall_update_iff chain fun _ c => c.IsChain fun p q => parent p = some q).mpr
      ⟨(List.isChain_cons_cons.mp hl).2, fun u _ => h.links u⟩
  have hlast : ∀ u, ∀ r ∈ (Function.update chain t (q :: rest) u).getLast?, r = root u := by
    have hl := h.last t
    rw [ht, List.getLast?_cons_cons] at hl
    exact (Function.forall_update_iff chain fun u c => ∀ r ∈ c.getLast?, r = root u).mpr
      ⟨hl, fun u _ => h.last u⟩
  refine ⟨?_, hlast, fun u => ?_, fun u hu => ?_, fun r => ?_, fun u v huv => ?_, ?_⟩
  · refine (Function.forall_update_iff chain fun u c => c.head? = top' u).mpr
      ⟨?_, fun u hu => ?_⟩
    · simp [htop]
    · rw [htop, if_neg hu, h.head]
  · refine List.IsChain.imp_of_mem_imp (fun a b ha _ hab => ?_) (hlink u)
    rw [hparent a (h.alive_of_mem (hsub u ha)) fun he => hgone u (he ▸ ha)]
    exact hab
  · have hne : chain u ≠ [] := by
      intro he
      have hs := hsub u
      rw [he] at hs
      exact hu (List.subset_nil.mp hs)
    have hroot : root u ∈ Function.update chain t (q :: rest) u := by
      rw [← hlast u _ (List.getLast?_eq_some_getLast hu)]
      exact List.getLast_mem hu
    rw [hparent _ (h.alive_of_mem (h.root_mem hne)) fun he => hgone u (he ▸ hroot)]
    exact h.rootless u hne
  · rw [halive]
    constructor
    · rintro ⟨hr, hne⟩
      obtain ⟨u, hu⟩ := (h.alive_iff r).mp hr
      rw [Function.exists_update_iff chain fun _ c => r ∈ c]
      by_cases hut : u = t
      · rw [hut, ht] at hu
        exact Or.inl ((List.mem_cons.mp hu).resolve_left hne)
      · exact Or.inr ⟨u, hut, hu⟩
    · rintro ⟨u, hu⟩
      exact ⟨h.alive_of_mem (hsub u hu), fun he => hgone u (he ▸ hu)⟩
  · exact List.disjoint_of_subset_left (hsub u)
      (List.disjoint_of_subset_right (hsub v) (h.disjoint u v huv))
  · exact (Function.forall_update_iff chain fun _ c => c.Nodup).mpr
      ⟨hnodup', fun u _ => h.nodup u⟩

end Update

end Forest

end Forests
