import Hoststack.Lib.Cell

/-!
Programs that are cut off.

A program may stop before any of its accesses, or within a write; what a write that is cut off
leaves is given by a relation. So a program that is cut off leaves the cell as it was, or as it
is after one of its writes, or what a cut-off write leaves of one of them.
-/

namespace Hoststack.Cell.Prog

universe u v

variable {σ : Type u} {α β : Type v} {cut : σ → σ → Prop} {p : Prog σ α} {s t : σ}

/-- What the program writes when it runs alone, in order. -/
def writes : Prog σ α → σ → List σ
  | .ret _, _ => []
  | .crash, _ => []
  | .read k, s => (k s).writes s
  | .write t p, _ => t :: p.writes t

@[simp] lemma writes_pure (a : α) (s : σ) : (pure a : Prog σ α).writes s = [] := rfl
@[simp] lemma writes_crash (s : σ) : (crash : Prog σ α).writes s = [] := rfl
@[simp] lemma writes_get (s : σ) : (get : Prog σ σ).writes s = [] := rfl
@[simp] lemma writes_put (s t : σ) : (put t).writes s = [t] := rfl

@[simp] lemma writes_ofOption (o : Option α) (s : σ) : (ofOption o).writes s = [] := by
  cases o <;> rfl

lemma writes_bind (p : Prog σ α) (f : α → Prog σ β) (s : σ) :
    (p >>= f).writes s = p.writes s ++
      match p.run s with
      | (t, some a) => (f a).writes t
      | (_, none) => [] := by
  change (p.bind f).writes s = _
  induction p generalizing s with
  | ret a => rfl
  | crash => rfl
  | read k ih => exact ih s s
  | write t p ih => exact congrArg (t :: ·) (ih t)

lemma writes_bind_some {f : α → Prog σ β} {a : α} (h : p.run s = (t, some a)) :
    (p >>= f).writes s = p.writes s ++ (f a).writes t := by
  rw [writes_bind, h]

lemma writes_bind_none {f : α → Prog σ β} (h : p.run s = (t, none)) :
    (p >>= f).writes s = p.writes s := by
  rw [writes_bind, h, List.append_nil]

@[simp] lemma writes_map (f : α → β) (p : Prog σ α) (s : σ) :
    (f <$> p).writes s = p.writes s := by
  rw [← bind_pure_comp, writes_bind]
  rcases p.run s with ⟨t, _ | a⟩ <;> simp

/-- A program that is cut off takes the cell from `s` to `t`. -/
inductive Torn (cut : σ → σ → Prop) : Prog σ α → σ → σ → Prop
  | stop (p : Prog σ α) (s : σ) : Torn cut p s s
  | read {k : σ → Prog σ α} {s t : σ} (h : Torn cut (k s) s t) : Torn cut (.read k) s t
  | cut {s' s t : σ} {p : Prog σ α} (h : cut s' t) : Torn cut (.write s' p) s t
  | write {s' s t : σ} {p : Prog σ α} (h : Torn cut p s' t) : Torn cut (.write s' p) s t

/-- **What is left** of a program that is cut off. -/
theorem torn_iff : p.Torn cut s t ↔
    t = s ∨ t ∈ p.writes s ∨ ∃ s' ∈ p.writes s, cut s' t := by
  constructor
  · intro h
    induction h with
    | stop p s => exact Or.inl rfl
    | read h ih => exact ih
    | cut h => exact Or.inr (Or.inr ⟨_, List.mem_cons_self, h⟩)
    | write h ih =>
      rcases ih with rfl | hmem | ⟨s', hmem, hcut⟩
      · exact Or.inr (Or.inl List.mem_cons_self)
      · exact Or.inr (Or.inl (List.mem_cons_of_mem _ hmem))
      · exact Or.inr (Or.inr ⟨s', List.mem_cons_of_mem _ hmem, hcut⟩)
  · induction p generalizing s with
    | ret a =>
      rintro (rfl | hmem | ⟨s', hmem, -⟩)
      · exact .stop _ _
      · cases hmem
      · cases hmem
    | crash =>
      rintro (rfl | hmem | ⟨s', hmem, -⟩)
      · exact .stop _ _
      · cases hmem
      · cases hmem
    | read k ih => exact fun h => .read (ih s h)
    | write s₁ p ih =>
      rintro (rfl | hmem | ⟨s', hmem, hcut⟩)
      · exact .stop _ _
      · rcases List.mem_cons.mp hmem with rfl | hmem
        · exact .write (.stop _ _)
        · exact .write (ih (Or.inr (Or.inl hmem)))
      · rcases List.mem_cons.mp hmem with rfl | hmem
        · exact .cut hcut
        · exact .write (ih (Or.inr (Or.inr ⟨s', hmem, hcut⟩)))

end Hoststack.Cell.Prog
