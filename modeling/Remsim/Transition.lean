import Mathlib

/-! # Labelled transition systems with conditioned steps

A system is a set of initial states and a labelled step relation.  Runs are taken under a
*step condition* `C`: `Steps C s t` is a finite run from `s` to `t` all of whose steps `i`, taken in
state `u`, satisfy `C u i`, and `Reach C s` says that `s` ends such a run from an initial state.
The unconditioned system is the case `C = Any`.

The rules are the usual ones: an inductive invariant holds in every reachable state
(`Reach.invariant`), an invariant may be strengthened by one already proved
(`Reach.invariant_of`), and reachability transfers along a projection of states that maps every
step to a run (`Reach.map`). -/

namespace Transition

universe u v
variable {σ : Type u} {ι : Type v}

/-- A labelled transition system. -/
structure Lts (σ : Type u) (ι : Type v) where
  init : σ → Prop
  step : σ → ι → σ → Prop

namespace Lts

/-- The condition that every step meets. -/
def Any : σ → ι → Prop := fun _ _ => True

instance (s : σ) (i : ι) : Decidable (Any s i) := .isTrue trivial

/-- A finite run whose steps all meet the condition. -/
inductive Steps (T : Lts σ ι) (C : σ → ι → Prop) : σ → σ → Prop
  | refl (s : σ) : Steps T C s s
  | tail {s t u : σ} {i : ι} : Steps T C s t → C t i → T.step t i u → Steps T C s u

/-- States reached from an initial one by steps that all meet the condition. -/
inductive Reach (T : Lts σ ι) (C : σ → ι → Prop) : σ → Prop
  | init {s : σ} : T.init s → Reach T C s
  | step {s t : σ} {i : ι} : Reach T C s → C s i → T.step s i t → Reach T C t

variable {T : Lts σ ι} {C : σ → ι → Prop} {s t u : σ}

theorem Steps.trans (h₁ : T.Steps C s t) (h₂ : T.Steps C t u) : T.Steps C s u := by
  induction h₂ with
  | refl => exact h₁
  | tail _ hc hs ih => exact Steps.tail ih hc hs

theorem Steps.single {i : ι} (hc : C s i) (hs : T.step s i t) : T.Steps C s t :=
  Steps.tail (Steps.refl s) hc hs

theorem Steps.invariant {I : σ → Prop}
    (hstep : ∀ s i t, I s → C s i → T.step s i t → I t) (h : T.Steps C s t) (hs : I s) : I t := by
  induction h with
  | refl => exact hs
  | tail _ hc hst ih => exact hstep _ _ _ ih hc hst

theorem Reach.steps (hr : T.Reach C s) (h : T.Steps C s t) : T.Reach C t := by
  induction h with
  | refl => exact hr
  | tail _ hc hs ih => exact Reach.step ih hc hs

/-- An inductive invariant holds in every reachable state. -/
theorem Reach.invariant {I : σ → Prop} (hinit : ∀ s, T.init s → I s)
    (hstep : ∀ s i t, I s → C s i → T.step s i t → I t) (h : T.Reach C s) : I s := by
  induction h with
  | init hi => exact hinit _ hi
  | step _ hc hs ih => exact hstep _ _ _ ih hc hs

/-- The invariant rule relative to a property already known of every reachable state. -/
theorem Reach.invariant_of {I J : σ → Prop} (hJ : ∀ s, T.Reach C s → J s)
    (hinit : ∀ s, T.init s → I s)
    (hstep : ∀ s i t, J s → J t → I s → C s i → T.step s i t → I t) (h : T.Reach C s) : I s := by
  induction h with
  | init hi => exact hinit _ hi
  | step hr hc hs ih => exact hstep _ _ _ (hJ _ hr) (hJ _ (Reach.step hr hc hs)) ih hc hs

/-- Reachability transfers along a map of states under which every conditioned step becomes a
run of the other system. -/
theorem Reach.map {σ' : Type*} {ι' : Type*} {T' : Lts σ' ι'} {C' : σ' → ι' → Prop} (f : σ → σ')
    (hinit : ∀ s, T.init s → T'.init (f s))
    (hstep : ∀ s i t, T.Reach C s → C s i → T.step s i t → T'.Steps C' (f s) (f t))
    (h : T.Reach C s) : T'.Reach C' (f s) := by
  induction h with
  | init hi => exact Reach.init (hinit _ hi)
  | step hr hc hs ih => exact ih.steps (hstep _ _ _ hr hc hs)

end Lts

/-! ### Systems given by a partial step function -/

/-- The system of a partial step function: `none` means that the label is not enabled. -/
def ofFun (init : σ → Prop) (next : σ → ι → Option σ) : Lts σ ι where
  init := init
  step s i t := next s i = some t

/-- Executing a list of labels. -/
def exec (next : σ → ι → Option σ) : σ → List ι → Option σ
  | s, [] => some s
  | s, i :: is => (next s i).bind fun t => exec next t is

/-- All steps of an execution meet a Boolean condition. -/
def execAll (next : σ → ι → Option σ) (c : σ → ι → Bool) : σ → List ι → Bool
  | _, [] => true
  | s, i :: is => c s i && (match next s i with
      | none => true
      | some t => execAll next c t is)

theorem exec_append (next : σ → ι → Option σ) (js : List ι) : ∀ (is : List ι) (s : σ),
    exec next s (is ++ js) = (exec next s is).bind fun t => exec next t js
  | [], _ => rfl
  | i :: is, s => by
      rw [List.cons_append, exec, exec]
      cases next s i with
      | none => rfl
      | some t => exact exec_append next js is t

theorem execAll_append (next : σ → ι → Option σ) (c : σ → ι → Bool) (js : List ι) :
    ∀ (is : List ι) (s t : σ), exec next s is = some t →
      execAll next c s (is ++ js) = (execAll next c s is && execAll next c t js)
  | [], _, _, h => by
      rw [← Option.some.inj h]
      rfl
  | i :: is, s, t, h => by
      obtain ⟨u, hu, ht⟩ := Option.bind_eq_some_iff.mp h
      rw [List.cons_append, execAll, execAll, hu, Bool.and_assoc]
      exact congrArg (c s i && ·) (execAll_append next c js is u t ht)

theorem steps_of_exec {init : σ → Prop} {next : σ → ι → Option σ} {C : σ → ι → Prop}
    {c : σ → ι → Bool} (hc : ∀ s i, c s i = true → C s i) :
    ∀ (is : List ι) (s t : σ), exec next s is = some t → execAll next c s is = true →
      (ofFun init next).Steps C s t
  | [], s, t, h, _ => by
      obtain rfl : s = t := by simpa [exec] using h
      exact Lts.Steps.refl _
  | i :: is, s, t, h, ha => by
      simp only [exec, Option.bind_eq_some_iff] at h
      obtain ⟨u, hu, ht⟩ := h
      simp only [execAll, hu, Bool.and_eq_true] at ha
      exact (Lts.Steps.single (hc _ _ ha.1) hu).trans (steps_of_exec hc is u t ht ha.2)

theorem reach_of_exec {init : σ → Prop} {next : σ → ι → Option σ} {C : σ → ι → Prop}
    {c : σ → ι → Bool} (hc : ∀ s i, c s i = true → C s i) {w : List ι} {s t : σ} (hs : init s)
    (h : exec next s w = some t) (ha : execAll next c s w = true) :
    (ofFun init next).Reach C t :=
  (Lts.Reach.init hs).steps (steps_of_exec hc w s t h ha)

theorem reach_exec {init : σ → Prop} {next : σ → ι → Option σ} {is : List ι} {s t : σ}
    (hs : init s) (h : exec next s is = some t) : (ofFun init next).Reach Lts.Any t := by
  have hall : ∀ (is : List ι) (s : σ), execAll next (fun _ _ => true) s is = true := by
    intro is
    induction is with
    | nil => exact fun _ => rfl
    | cons i is ih =>
        intro s
        rw [execAll, Bool.true_and]
        cases next s i with
        | none => rfl
        | some u => exact ih u
  exact reach_of_exec (fun _ _ _ => trivial) hs h (hall is s)

/-- The state at the end of an execution. -/
def after (next : σ → ι → Option σ) (s : σ) (w : List ι) : σ := (exec next s w).getD s

/-- Executions are evaluated to show that a state is reachable. -/
theorem reach_after_of {init : σ → Prop} {next : σ → ι → Option σ} {C : σ → ι → Prop}
    {c : σ → ι → Bool} (hc : ∀ s i, c s i = true → C s i) {w : List ι} {s : σ} (hs : init s)
    (h : (exec next s w).isSome = true) (ha : execAll next c s w = true) :
    (ofFun init next).Reach C (after next s w) := by
  obtain ⟨t, ht⟩ := Option.isSome_iff_exists.mp h
  have ht' : after next s w = t := by
    rw [after, ht]
    rfl
  rw [ht']
  exact reach_of_exec hc hs ht ha

theorem reach_after {init : σ → Prop} {next : σ → ι → Option σ} {C : σ → ι → Prop}
    [∀ s i, Decidable (C s i)] {w : List ι} {s : σ} (hs : init s)
    (h : (exec next s w).isSome = true)
    (ha : execAll next (fun s i => decide (C s i)) s w = true) :
    (ofFun init next).Reach C (after next s w) :=
  reach_after_of (fun _ _ => of_decide_eq_true) hs h ha

end Transition
