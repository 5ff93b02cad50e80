import Mathlib

/-!
# Runs of partial step functions

A system answers each event with at most one next state. A path is a finite run whose
steps all satisfy a guard on the state before the step and the event. This file gives the
rule that lifts what one step preserves to every path, the rule that lifts a step-by-step
simulation to whole traces, and the projection of a product of independent components.
-/

namespace Runs

variable {σ ε τ δ : Type*}

/-- A run of `step` from `s` to `t` over the listed events, each step of it within `guard`. -/
inductive Path (step : σ → ε → Option σ) (guard : σ → ε → Prop) : σ → List ε → σ → Prop where
  | nil (s : σ) : Path step guard s [] s
  | cons {s u t : σ} {e : ε} {es : List ε} (ok : guard s e) (next : step s e = some u)
      (rest : Path step guard u es t) : Path step guard s (e :: es) t

/-- The state after a list of events, as long as the guard holds and every step is defined. -/
def run (step : σ → ε → Option σ) (guard : σ → ε → Prop) [∀ s e, Decidable (guard s e)] :
    σ → List ε → Option σ
  | s, [] => some s
  | s, e :: es => if guard s e then (step s e).bind fun u => run step guard u es else none

section Paths

variable {step : σ → ε → Option σ} {guard guard' : σ → ε → Prop} {s t : σ} {es : List ε}

lemma path_of_run [∀ s e, Decidable (guard s e)] (h : run step guard s es = some t) :
    Path step guard s es t := by
  induction es generalizing s with
  | nil =>
    simp only [run, Option.some.injEq] at h
    subst h
    exact Path.nil _
  | cons e es ih =>
    unfold run at h
    split at h
    · rename_i hg
      obtain ⟨u, hu, h⟩ := Option.bind_eq_some_iff.mp h
      exact Path.cons hg hu (ih h)
    · exact absurd h (by simp)

lemma Path.mono (hg : ∀ s e, guard s e → guard' s e) (h : Path step guard s es t) :
    Path step guard' s es t := by
  induction h with
  | nil => exact Path.nil _
  | cons ok next _ ih => exact Path.cons (hg _ _ ok) next ih

lemma Path.append {u : σ} {fs : List ε} (h : Path step guard s es t) (h' : Path step guard t fs u) :
    Path step guard s (es ++ fs) u := by
  induction h with
  | nil => exact h'
  | cons ok next _ ih => exact Path.cons ok next (ih h')

/-- What every guarded step preserves holds at the end of every path. -/
theorem Path.invariant {I : σ → Prop} (h : Path step guard s es t)
    (hstep : ∀ s e u, I s → guard s e → step s e = some u → I u) (hs : I s) : I t := by
  induction h with
  | nil => exact hs
  | cons ok next _ ih => exact ih (hstep _ _ _ hs ok next)

/-- Every state of a path satisfies `I`. -/
def Always (step : σ → ε → Option σ) (I : σ → Prop) (s : σ) (es : List ε) (t : σ) : Prop :=
  Path step (fun s _ => I s) s es t ∧ I t

lemma Always.first {I : σ → Prop} (h : Always step I s es t) : I s := by
  obtain ⟨hpath, ht⟩ := h
  cases hpath with
  | nil => exact ht
  | cons ok _ _ => exact ok

/-- Where the guard is what a step needs to keep a property, the property holds all along a
path exactly when the path keeps to the guard. -/
theorem always_iff {I : σ → Prop} (h : Path step (fun _ _ => True) s es t)
    (hstep : ∀ s e u, I s → step s e = some u → (I u ↔ guard s e)) (hs : I s) :
    Always step I s es t ↔ Path step guard s es t := by
  induction h with
  | nil => exact ⟨fun _ => Path.nil _, fun _ => ⟨Path.nil _, hs⟩⟩
  | @cons s u t e es _ next _ ih =>
    constructor
    · rintro ⟨hpath, ht⟩
      cases hpath with
      | cons _ next' rest' =>
        obtain rfl := Option.some.inj (next.symm.trans next')
        have hu : I u := Always.first ⟨rest', ht⟩
        exact Path.cons ((hstep _ _ _ hs next).mp hu) next ((ih hu).mp ⟨rest', ht⟩)
    · intro hpath
      cases hpath with
      | cons ok' next' rest' =>
        obtain rfl := Option.some.inj (next.symm.trans next')
        obtain ⟨hrest, ht⟩ := (ih ((hstep _ _ _ hs next).mpr ok')).mpr rest'
        exact ⟨Path.cons hs next hrest, ht⟩

end Paths

/-! ### Simulation -/

section Simulation

variable {step : σ → ε → Option σ} {guard : σ → ε → Prop} {s t : σ} {es : List ε}

/-- The outputs a path produces, one list for each step. -/
def trace (step : σ → ε → Option σ) (out : σ → ε → List δ) : σ → List ε → List δ
  | _, [] => []
  | s, e :: es => out s e ++ ((step s e).map fun u => trace step out u es).getD []

lemma trace_cons {out : σ → ε → List δ} {u : σ} {e : ε} (h : step s e = some u) :
    trace step out s (e :: es) = out s e ++ trace step out u es := by
  simp only [trace, h, Option.map_some, Option.getD_some]

/-- If every guarded step carries the view along its outputs, a whole path carries it along
the outputs of all its steps. -/
theorem Path.simulates {I : σ → Prop} (view : σ → τ) {out : σ → ε → List δ} {act : τ → δ → τ}
    (h : Path step guard s es t)
    (hinv : ∀ s e u, I s → guard s e → step s e = some u → I u)
    (hsim : ∀ s e u, I s → guard s e → step s e = some u →
      view u = (out s e).foldl act (view s)) (hs : I s) :
    view t = (trace step out s es).foldl act (view s) := by
  induction h with
  | nil => rfl
  | cons ok next _ ih =>
    rw [ih (hinv _ _ _ hs ok next), hsim _ _ _ hs ok next, trace_cons next, List.foldl_append]

/-- A relation to a reference that takes the same events, kept by every guarded step, holds at
the end of every path. -/
theorem Path.tracks {R : σ → τ → Prop} {act : τ → ε → τ} {r : τ} (h : Path step guard s es t)
    (hstep : ∀ s e u r, R s r → guard s e → step s e = some u → R u (act r e)) (hs : R s r) :
    R t (es.foldl act r) := by
  induction h generalizing r with
  | nil => exact hs
  | cons ok next _ ih => exact ih (hstep _ _ _ _ hs ok next)

end Simulation

/-! ### Products of independent components -/

section Product

variable {ι : Type*} [DecidableEq ι]

/-- One output of component `d.1` moves that component and no other. -/
def component (act : τ → δ → τ) (x : ι → τ) (d : ι × δ) : ι → τ :=
  Function.update x d.1 (act (x d.1) d.2)

/-- The outputs of one component, in order. -/
def outputsOf (i : ι) (ds : List (ι × δ)) : List δ :=
  (ds.filter fun d => d.1 = i).map Prod.snd

/-- Each component of a product ends where its own outputs alone take it. -/
theorem component_foldl (act : τ → δ → τ) (x : ι → τ) (ds : List (ι × δ)) (i : ι) :
    ds.foldl (component act) x i = (outputsOf i ds).foldl act (x i) := by
  induction ds generalizing x with
  | nil => rfl
  | cons d ds ih =>
    rw [List.foldl_cons, ih]
    by_cases hd : d.1 = i
    · subst hd
      simp [component, outputsOf]
    · have hne : i ≠ d.1 := fun h => hd h.symm
      simp [component, outputsOf, hd, hne]

end Product

end Runs
