import Mathlib.Data.List.Forall2

/-!
Changing the first element of a list that satisfies a test, finding it, and lists in which one
does at most.
-/

namespace Hoststack

variable {α β : Type*} {p : α → Bool} {f : α → α}

/-- Apply `f` to the first element that satisfies `p`. -/
def updateFirst (p : α → Bool) (f : α → α) : List α → List α
  | [] => []
  | a :: l => if p a then f a :: l else a :: updateFirst p f l

@[simp] lemma updateFirst_nil : updateFirst p f [] = [] := rfl

lemma updateFirst_eq_self {l : List α} (h : ∀ a ∈ l, p a → f a = a) :
    updateFirst p f l = l := by
  induction l with
  | nil => rfl
  | cons a l ih =>
    unfold updateFirst
    split_ifs with ha
    · rw [h a (by simp) ha]
    · rw [ih fun b hb => h b (by simp [hb])]

lemma updateFirst_eq_nil_iff {l : List α} : updateFirst p f l = [] ↔ l = [] := by
  cases l with
  | nil => simp
  | cons a l => unfold updateFirst; split_ifs <;> simp

lemma updateFirst_append {l : List α} {a : α} (h : l.find? p = some a) (l' : List α) :
    updateFirst p f (l ++ l') = updateFirst p f l ++ l' := by
  induction l with
  | nil => cases h
  | cons b l ih =>
    rw [List.cons_append]
    unfold updateFirst
    split_ifs with hb
    · rfl
    · rw [List.find?_cons_of_neg hb] at h
      rw [ih h, List.cons_append]

lemma forall₂_updateFirst {R : α → α → Prop} (hrefl : ∀ a, R a a) (h : ∀ a, p a → R a (f a))
    (l : List α) : List.Forall₂ R l (updateFirst p f l) := by
  induction l with
  | nil => exact .nil
  | cons a l ih =>
    unfold updateFirst
    split_ifs with ha
    · exact .cons (h a ha) (List.forall₂_same.mpr fun b _ => hrefl b)
    · exact .cons (hrefl a) ih

lemma forall₂_comp {γ : Type*} {R : α → β → Prop} {S : β → γ → Prop} {T : α → γ → Prop}
    {l₁ : List α} {l₂ : List β} {l₃ : List γ} (h : List.Forall₂ R l₁ l₂)
    (h' : List.Forall₂ S l₂ l₃) (hcomp : ∀ a b c, R a b → S b c → T a c) :
    List.Forall₂ T l₁ l₃ := by
  induction h generalizing l₃ with
  | nil =>
    cases h'
    exact .nil
  | cons hab _ ih =>
    cases h' with
    | cons hbc h' => exact .cons (hcomp _ _ _ hab hbc) (ih h')

lemma forall₂_updateFirst_left {R S : α → β → Prop} {l₁ : List α} {l₂ : List β}
    (h : List.Forall₂ R l₁ l₂) (hkeep : ∀ a b, R a b → S a b)
    (hf : ∀ a b, R a b → p a → S (f a) b) : List.Forall₂ S (updateFirst p f l₁) l₂ := by
  induction h with
  | nil => exact .nil
  | cons hab htail ih =>
    unfold updateFirst
    split_ifs with ha
    · exact .cons (hf _ _ hab ha) (htail.imp hkeep)
    · exact .cons (hkeep _ _ hab) ih

lemma forall₂_find? {R : α → β → Prop} {q : β → Bool} {l₁ : List α} {l₂ : List β}
    (h : List.Forall₂ R l₁ l₂) (hpq : ∀ a b, R a b → p a = q b) {b : β}
    (hb : l₂.find? q = some b) : ∃ a, l₁.find? p = some a ∧ (a, b) ∈ l₁.zip l₂ := by
  induction h with
  | nil => cases hb
  | @cons a b' l₁ l₂ hab _ ih =>
    by_cases hq : q b'
    · rw [List.find?_cons_of_pos hq] at hb
      cases hb
      exact ⟨a, List.find?_cons_of_pos ((hpq _ _ hab).trans hq), by simp⟩
    · rw [List.find?_cons_of_neg hq] at hb
      obtain ⟨x, hx, hmem⟩ := ih hb
      refine ⟨x, ?_, List.mem_cons_of_mem _ hmem⟩
      rwa [List.find?_cons_of_neg (by rwa [hpq _ _ hab])]

lemma map_updateFirst {g : α → β} {l : List α} (h : ∀ a ∈ l, p a → g (f a) = g a) :
    (updateFirst p f l).map g = l.map g := by
  induction l with
  | nil => rfl
  | cons a l ih =>
    unfold updateFirst
    split_ifs with ha
    · simp [h a (by simp) ha]
    · simp [ih fun b hb => h b (by simp [hb])]

lemma forall_updateFirst {P : α → Prop} {l : List α} (h : ∀ a ∈ l, P a)
    (hf : ∀ a ∈ l, p a → P (f a)) : ∀ a ∈ updateFirst p f l, P a := by
  induction l with
  | nil => simp
  | cons a l ih =>
    unfold updateFirst
    split_ifs with ha
    · intro b hb
      rcases List.mem_cons.mp hb with rfl | hb
      · exact hf a (by simp) ha
      · exact h b (by simp [hb])
    · intro b hb
      rcases List.mem_cons.mp hb with rfl | hb
      · exact h b (by simp)
      · exact ih (fun c hc => h c (by simp [hc])) (fun c hc => hf c (by simp [hc])) b hb

lemma mem_updateFirst {l : List α} {a : α} (h : a ∈ l) :
    a ∈ updateFirst p f l ∨ p a ∧ f a ∈ updateFirst p f l := by
  induction l with
  | nil => cases h
  | cons b l ih =>
    unfold updateFirst
    split_ifs with hb
    · rcases List.mem_cons.mp h with rfl | h
      · exact Or.inr ⟨hb, List.mem_cons_self⟩
      · exact Or.inl (List.mem_cons_of_mem _ h)
    · rcases List.mem_cons.mp h with rfl | h
      · exact Or.inl List.mem_cons_self
      · exact (ih h).imp (List.mem_cons_of_mem _) (And.imp_right (List.mem_cons_of_mem _))

lemma exists_mem_updateFirst {l : List α} {a : α} (h : a ∈ l) (ha : p a) :
    ∃ b ∈ l, p b ∧ f b ∈ updateFirst p f l := by
  induction l with
  | nil => cases h
  | cons b l ih =>
    unfold updateFirst
    split_ifs with hb
    · exact ⟨b, List.mem_cons_self, hb, List.mem_cons_self⟩
    · rcases List.mem_cons.mp h with rfl | h
      · exact absurd ha hb
      · obtain ⟨c, hc, hpc, hmem⟩ := ih h
        exact ⟨c, List.mem_cons_of_mem _ hc, hpc, List.mem_cons_of_mem _ hmem⟩

lemma find?_updateFirst_of_not {q : α → Bool} {l : List α} {a : α} (h : l.find? q = some a)
    (ha : ¬ p a) (hf : ∀ b, p b → ¬ q (f b)) : (updateFirst p f l).find? q = some a := by
  induction l with
  | nil => cases h
  | cons b l ih =>
    unfold updateFirst
    by_cases hq : q b
    · rw [List.find?_cons_of_pos hq] at h
      cases h
      rw [if_neg ha]
      exact List.find?_cons_of_pos hq
    · rw [List.find?_cons_of_neg hq] at h
      split_ifs with hb
      · rwa [List.find?_cons_of_neg (hf b hb)]
      · rw [List.find?_cons_of_neg hq]
        exact ih h

lemma forall_updateFirst_find {P : α → Prop} {l : List α} (h : ∀ a ∈ l, P a)
    (hf : ∀ a, l.find? p = some a → P (f a)) : ∀ a ∈ updateFirst p f l, P a := by
  induction l with
  | nil => simp
  | cons a l ih =>
    obtain ⟨ha, hl⟩ := List.forall_mem_cons.mp h
    unfold updateFirst
    split_ifs with hp
    · exact List.forall_mem_cons.mpr ⟨hf a (List.find?_cons_of_pos hp), hl⟩
    · refine List.forall_mem_cons.mpr ⟨ha, ih hl fun b hb => hf b ?_⟩
      rw [List.find?_cons_of_neg hp, hb]

lemma find?_updateFirst_self {l : List α} (hf : ∀ a, p a → p (f a)) :
    (updateFirst p f l).find? p = (l.find? p).map f := by
  induction l with
  | nil => rfl
  | cons a l ih =>
    unfold updateFirst
    split_ifs with ha
    · rw [List.find?_cons_of_pos (hf a ha), List.find?_cons_of_pos ha]; rfl
    · rw [List.find?_cons_of_neg ha, List.find?_cons_of_neg ha, ih]

lemma find?_updateFirst_ne {q : α → Bool} {l : List α}
    (h : ∀ a, p a → q a = false ∧ q (f a) = false) :
    (updateFirst p f l).find? q = l.find? q := by
  induction l with
  | nil => rfl
  | cons a l ih =>
    unfold updateFirst
    split_ifs with ha
    · rw [List.find?_cons_of_neg (by simp [(h a ha).2]),
        List.find?_cons_of_neg (by simp [(h a ha).1])]
    · simp only [List.find?_cons, ih]

/-- A search that the change does not mislead finds the element it found, changed if that is
the first match. -/
lemma find?_updateFirst [DecidableEq α] {q : α → Bool} {l : List α}
    (h : ∀ a, l.find? p = some a → q (f a) = q a) :
    (updateFirst p f l).find? q =
      (l.find? q).map fun a => if l.find? p = some a then f a else a := by
  induction l with
  | nil => rfl
  | cons b l ih =>
    unfold updateFirst
    split_ifs with hb
    · have hq : q (f b) = q b := h b (List.find?_cons_of_pos hb)
      by_cases hqb : q b
      · rw [List.find?_cons_of_pos (hq.trans hqb), List.find?_cons_of_pos hqb,
          List.find?_cons_of_pos hb]
        simp
      · rw [List.find?_cons_of_neg (by rwa [hq]), List.find?_cons_of_neg hqb,
          List.find?_cons_of_pos hb]
        -- what `q` finds further on is another element, since `b` fails `q`
        have hid : ∀ a, l.find? q = some a → (if some b = some a then f a else a) = id a := by
          intro a ha
          have hne : b ≠ a := fun hba => hqb (hba ▸ List.find?_some ha)
          simp [hne]
        rw [Option.map_congr hid, Option.map_id, id]
    · have hl : ∀ a, l.find? p = some a → q (f a) = q a := fun a ha =>
        h a (by rwa [List.find?_cons_of_neg hb])
      by_cases hqb : q b
      · have hne : l.find? p ≠ some b := fun hf => hb (List.find?_some hf)
        rw [List.find?_cons_of_pos hqb, List.find?_cons_of_pos hqb, List.find?_cons_of_neg hb]
        simp [hne]
      · rw [List.find?_cons_of_neg hqb, List.find?_cons_of_neg hqb, List.find?_cons_of_neg hb]
        exact ih hl

lemma find?_updateFirst_of_find {q : α → Bool} {l : List α} {a : α} (h : l.find? p = some a)
    (hq : l.find? q = some a) (hf : q (f a)) : (updateFirst p f l).find? q = some (f a) := by
  classical
  have hqa : q a = true := List.find?_some hq
  rw [find?_updateFirst fun b hb => ?_, hq]
  · simp [h]
  · cases h.symm.trans hb
    exact hf.trans hqa.symm

lemma find?_updateFirst_of_ne {q : α → Bool} {l : List α} {a : α} (h : l.find? p = some a)
    (hq : q a = false) (hf : q (f a) = false) : (updateFirst p f l).find? q = l.find? q := by
  classical
  have hrespects : ∀ b, l.find? p = some b → q (f b) = q b := by
    intro b hb
    cases h.symm.trans hb
    exact hf.trans hq.symm
  rw [find?_updateFirst hrespects]
  have hid : ∀ b, l.find? q = some b → (if l.find? p = some b then f b else b) = id b := by
    intro b hb
    have hne : a ≠ b := by
      rintro rfl
      simp [List.find?_some hb] at hq
    simp [h, hne]
  rw [Option.map_congr hid, Option.map_id, id]

lemma pairwise_not_both_iff (p : α → Bool) (l : List α) :
    (l.Pairwise fun a b => ¬ (p a ∧ p b)) ↔ (l.filter p).length ≤ 1 := by
  induction l with
  | nil => simp
  | cons a l ih =>
    rw [List.pairwise_cons, ih]
    by_cases ha : p a
    · have hnone : (∀ b ∈ l, ¬ (p a ∧ p b)) ↔ (l.filter p).length = 0 := by
        simp [ha, List.length_eq_zero_iff]
      rw [hnone, List.filter_cons_of_pos ha, List.length_cons]
      omega
    · rw [List.filter_cons_of_neg ha]
      exact and_iff_right fun b _ h => ha h.1

end Hoststack
