import Mathlib.Data.List.Basic

/-!
Machines that move by labelled steps, and what holds in every state they reach.

A run may be restricted to steps that meet a condition on the state before the step; what
the restricted runs reach is what an unrestricted machine reaches as long as the condition
is met at every step.
-/

namespace Hoststack

/-- A machine: where it may start, and where a label takes it, if anywhere. -/
structure Machine (S A : Type*) where
  init : S → Prop
  step : S → A → Option S

namespace Machine

variable {S A : Type*} {M : Machine S A} {ok ok' : S → A → Prop}

/-- The states reached by runs whose steps all meet `ok`. -/
inductive Reach (M : Machine S A) (ok : S → A → Prop) : S → Prop
  | start {s : S} (h : M.init s) : Reach M ok s
  | step {s s' : S} {a : A} (h : Reach M ok s) (hok : ok s a) (hs : M.step s a = some s') :
      Reach M ok s'

/-- **Invariants**: what holds at the start and is kept by every step that meets the
condition holds in every state reached. -/
theorem Reach.invariant {I : S → Prop} (h0 : ∀ s, M.init s → I s)
    (hstep : ∀ s a s', I s → ok s a → M.step s a = some s' → I s') {s : S}
    (h : M.Reach ok s) : I s := by
  induction h with
  | start h => exact h0 _ h
  | step h hok hs ih => exact hstep _ _ _ ih hok hs

lemma Reach.mono (hle : ∀ s a, ok s a → ok' s a) {s : S} (h : M.Reach ok s) :
    M.Reach ok' s := by
  induction h with
  | start h => exact .start h
  | step h hok hs ih => exact .step ih (hle _ _ hok) hs

/-- Run a list of labels. -/
def runs (M : Machine S A) (s : S) : List A → Option S
  | [] => some s
  | a :: as => (M.step s a).bind fun t => M.runs t as

/-- The condition is met at every step of the run. -/
def Meets (M : Machine S A) (ok : S → A → Prop) (s : S) : List A → Prop
  | [] => True
  | a :: as => ok s a ∧ ∀ t, M.step s a = some t → M.Meets ok t as

lemma Meets.cons {s t : S} {a : A} {as : List A} (hok : ok s a) (hs : M.step s a = some t)
    (h : M.Meets ok t as) : M.Meets ok s (a :: as) :=
  ⟨hok, fun u hu => by rw [hs] at hu; cases hu; exact h⟩

lemma Reach.runs {s t : S} {as : List A} (h : M.Reach ok s) (hm : M.Meets ok s as)
    (hr : M.runs s as = some t) : M.Reach ok t := by
  induction as generalizing s with
  | nil => cases hr; exact h
  | cons a as ih =>
    obtain ⟨u, hu, hrest⟩ := Option.bind_eq_some_iff.mp hr
    exact ih (h.step hm.1 hu) (hm.2 u hu) hrest

/-- The condition of a run, as a computation. -/
def check (M : Machine S A) (ok : S → A → Prop) [∀ s a, Decidable (ok s a)] (s : S) :
    List A → Bool
  | [] => true
  | a :: as => decide (ok s a) &&
    match M.step s a with
    | some t => M.check ok t as
    | none => true

lemma meets_of_check [∀ s a, Decidable (ok s a)] {s : S} {as : List A}
    (h : M.check ok s as = true) : M.Meets ok s as := by
  induction as generalizing s with
  | nil => trivial
  | cons a as ih =>
    obtain ⟨hok, hrest⟩ := (Bool.and_eq_true ..).mp h
    refine ⟨of_decide_eq_true hok, fun t ht => ih ?_⟩
    rwa [ht] at hrest

lemma meets_true (s : S) (as : List A) : M.Meets (fun _ _ => True) s as := by
  induction as generalizing s with
  | nil => trivial
  | cons a as ih => exact ⟨trivial, fun t _ => ih t⟩

end Machine

end Hoststack
