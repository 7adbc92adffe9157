import Mathlib.Data.List.Basic

/-!
The tokens of a list: its maximal nonempty runs of elements that are not separators.
-/

namespace Hoststack

variable {α : Type*} {p : α → Bool}

/-- The maximal runs of non-separators, in order. -/
def tokens (p : α → Bool) (l : List α) : List (List α) :=
  (l.splitOnP p).filter fun t => !t.isEmpty

@[simp] lemma tokens_nil : tokens p [] = [] := by simp [tokens, List.splitOnP_nil]

lemma tokens_append_sep (a b : List α) {c : α} (hc : p c) :
    tokens p (a ++ c :: b) = tokens p a ++ tokens p b := by
  simp [tokens, List.splitOnP_append_cons a b hc]

lemma tokens_sep_cons (l : List α) {c : α} (hc : p c) : tokens p (c :: l) = tokens p l := by
  simpa using tokens_append_sep [] l hc

lemma tokens_run {t : List α} (h : ∀ c ∈ t, p c = false) (hne : t ≠ []) : tokens p t = [t] := by
  simp [tokens, List.splitOnP_eq_singleton h, hne]

lemma tokens_run_sep {t : List α} (h : ∀ c ∈ t, p c = false) (hne : t ≠ []) (l : List α) {c : α}
    (hc : p c) : tokens p (t ++ c :: l) = t :: tokens p l := by
  rw [tokens_append_sep t l hc, tokens_run h hne]; rfl

lemma splitOnP_clean (l : List α) : ∀ t ∈ l.splitOnP p, ∀ c ∈ t, p c = false := by
  induction l with
  | nil => simp [List.splitOnP_nil]
  | cons a l ih =>
    rw [List.splitOnP_cons_eq_if_modifyHead]
    split_ifs with ha
    · simpa using ih
    · rcases hs : l.splitOnP p with _ | ⟨u, us⟩
      · simp
      · rw [hs] at ih
        simp only [List.modifyHead_cons, List.mem_cons, forall_eq_or_imp] at ih ⊢
        exact ⟨⟨by simpa using ha, ih.1⟩, ih.2⟩

lemma of_mem_tokens {l t : List α} (h : t ∈ tokens p l) : t ≠ [] ∧ ∀ c ∈ t, p c = false := by
  obtain ⟨hmem, hne⟩ := List.mem_filter.mp h
  exact ⟨by rintro rfl; simp at hne, splitOnP_clean l t hmem⟩

lemma tokens_intercalate {c : α} (hc : p c) (ls : List (List α)) :
    tokens p ([c].intercalate ls) = ls.flatMap (tokens p) := by
  induction ls with
  | nil => simp [List.intercalate]
  | cons a ls ih =>
    rcases ls with _ | ⟨b, ls⟩
    · simp [List.intercalate]
    · have : [c].intercalate (a :: b :: ls) = a ++ c :: [c].intercalate (b :: ls) := by
        simp [List.intercalate, List.intersperse]
      rw [this, tokens_append_sep _ _ hc, ih]; rfl

/-- **Joining and splitting**: the tokens of lists joined by a separator are the lists
themselves exactly when each of them is nonempty and free of separators. -/
theorem tokens_intercalate_eq_iff {c : α} (hc : p c) (ls : List (List α)) :
    tokens p ([c].intercalate ls) = ls ↔ ∀ a ∈ ls, a ≠ [] ∧ ∀ x ∈ a, p x = false := by
  constructor
  · intro h a ha
    rw [← h] at ha
    exact of_mem_tokens ha
  · intro h
    rw [tokens_intercalate hc]
    induction ls with
    | nil => rfl
    | cons a ls ih =>
      obtain ⟨hne, hcl⟩ := h a (by simp)
      rw [List.flatMap_cons, tokens_run hcl hne, ih fun b hb => h b (by simp [hb])]
      rfl

lemma tokens_dropWhile (l : List α) : tokens p (l.dropWhile p) = tokens p l := by
  induction l with
  | nil => rfl
  | cons a l ih =>
    by_cases ha : p a
    · rw [List.dropWhile_cons_of_pos ha, ih, tokens_sep_cons l ha]
    · rw [List.dropWhile_cons_of_neg (by simpa using ha)]

/-- What is left to do after the first token: the text behind the separator that ends it. -/
lemma tokens_cons_run {a : α} {l : List α} (ha : p a = false) :
    tokens p (a :: l) =
      (a :: l.takeWhile fun c => !p c) :: tokens p ((l.dropWhile fun c => !p c).tail) := by
  have hsplit : a :: l = (a :: l.takeWhile fun c => !p c) ++ l.dropWhile fun c => !p c := by
    simp [List.takeWhile_append_dropWhile]
  have hrun : ∀ c ∈ a :: l.takeWhile (fun c => !p c), p c = false := by
    intro c hc
    rcases List.mem_cons.mp hc with rfl | hc
    · exact ha
    · have := List.all_takeWhile (p := fun c => !p c) (l := l)
      simpa using List.all_eq_true.mp this c hc
  rcases hd : l.dropWhile fun c => !p c with _ | ⟨c, r⟩
  · rw [hd, List.append_nil] at hsplit
    rw [hsplit, tokens_run hrun (by simp)]; simp
  · have hc : p c := by
      have := List.head?_dropWhile_not (fun c => !p c) l
      rw [hd] at this; simpa using this
    rw [hd] at hsplit
    rw [hsplit, tokens_run_sep hrun (by simp) _ hc]; rfl

end Hoststack
