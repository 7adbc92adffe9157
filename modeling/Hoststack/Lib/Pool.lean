import Mathlib.Data.List.Count

/-!
Lists of processes, one of which moves at a time.

What holds of every process is kept when the one that moves keeps it, and so is that at most
one process satisfies a test, when the one that moves does not come to satisfy it. Where at
most one satisfies the test, the one that does is the only one.
-/

namespace Hoststack.Pool

variable {α β : Type*} {l l' : List α} {n : ℕ} {a b x : α}

lemma forall_set {P : α → Prop} (h : ∀ b ∈ l, P b) (hx : P x) : ∀ b ∈ l.set n x, P b := by
  intro b hb
  rcases List.mem_or_eq_of_mem_set hb with hb | rfl
  · exact h b hb
  · exact hx

lemma forall_append {P : α → Prop} (h : ∀ b ∈ l, P b) (h' : ∀ b ∈ l', P b) :
    ∀ b ∈ l ++ l', P b :=
  List.forall_mem_append.mpr ⟨h, h'⟩

lemma mem_set_of_mem (ha : l[n]? = some a) (hb : b ∈ l) : b = a ∨ b ∈ l.set n x := by
  obtain ⟨m, hm⟩ := List.mem_iff_getElem?.mp hb
  by_cases hmn : n = m
  · subst hmn
    rw [ha] at hm
    exact Or.inl (Option.some.inj hm).symm
  · exact Or.inr (List.mem_iff_getElem?.mpr ⟨m, by rw [List.getElem?_set_ne hmn, hm]⟩)

lemma mem_set_self (ha : l[n]? = some a) : x ∈ l.set n x :=
  List.mem_set (List.getElem?_eq_some_iff.mp ha).1 x

/-! ### At most one -/

variable {p : α → Bool}

/-- At most one process satisfies the test. -/
def AtMostOne (p : α → Bool) (l : List α) : Prop := l.countP p ≤ 1

lemma countP_set (ha : l[n]? = some a) :
    (l.set n x).countP p + (if p a then 1 else 0) = l.countP p + if p x then 1 else 0 := by
  induction l generalizing n with
  | nil => simp at ha
  | cons b l ih =>
    cases n with
    | zero =>
      obtain rfl : b = a := by simpa using ha
      rw [List.set_cons_zero, List.countP_cons, List.countP_cons]
      omega
    | succ n =>
      have := ih (n := n) (by simpa using ha)
      rw [List.set_cons_succ, List.countP_cons, List.countP_cons]
      omega

lemma AtMostOne.eq (h : AtMostOne p l) (ha : a ∈ l) (hb : b ∈ l) (hpa : p a) (hpb : p b) :
    a = b := by
  unfold AtMostOne at h
  induction l with
  | nil => simp at ha
  | cons y l ih =>
    have hpos : ∀ z ∈ l, p z → 0 < l.countP p := fun z hz hp => List.countP_pos_iff.mpr ⟨z, hz, hp⟩
    rw [List.countP_cons] at h
    rcases List.mem_cons.mp ha with rfl | ha' <;> rcases List.mem_cons.mp hb with rfl | hb'
    · rfl
    · have := hpos b hb' hpb
      rw [if_pos hpa] at h
      omega
    · have := hpos a ha' hpa
      rw [if_pos hpb] at h
      omega
    · exact ih (by omega) ha' hb'

lemma AtMostOne.set (h : AtMostOne p l) (ha : l[n]? = some a) (hx : p x → p a) :
    AtMostOne p (l.set n x) := by
  have hc := countP_set (p := p) (x := x) ha
  unfold AtMostOne at h ⊢
  split_ifs at hc with hpa hpx hpx
  · omega
  · omega
  · exact absurd (hx hpx) hpa
  · omega

lemma AtMostOne.set_of_none (h : ∀ b ∈ l, p b = false) : AtMostOne p (l.set n x) := by
  rcases ha : l[n]? with _ | a
  · rw [List.set_eq_of_length_le (List.getElem?_eq_none_iff.mp ha)]
    rw [AtMostOne, List.countP_eq_zero.mpr fun b hb => by simp [h b hb]]
    exact Nat.zero_le 1
  · have hc := countP_set (p := p) (x := x) ha
    have h0 : l.countP p = 0 := List.countP_eq_zero.mpr fun b hb => by simp [h b hb]
    unfold AtMostOne
    split_ifs at hc <;> omega

lemma AtMostOne.eq_of_mem_set (h : AtMostOne p l) (ha : l[n]? = some a) (hpa : p a)
    (hb : b ∈ l.set n x) (hpb : p b) : b = x := by
  have hc := countP_set (p := p) (x := x) ha
  have hpos : 0 < (l.set n x).countP p := List.countP_pos_iff.mpr ⟨b, hb, hpb⟩
  have hx : x ∈ l.set n x := mem_set_self ha
  unfold AtMostOne at h
  rw [if_pos hpa] at hc
  split_ifs at hc with hpx
  · exact AtMostOne.eq (p := p) (by unfold AtMostOne; omega) hb hx hpb hpx
  · omega

lemma AtMostOne.append (h : AtMostOne p l) (h' : ∀ b ∈ l', p b = false) :
    AtMostOne p (l ++ l') := by
  have h0 : l'.countP p = 0 := List.countP_eq_zero.mpr fun b hb => by simp [h' b hb]
  unfold AtMostOne at h ⊢
  rw [List.countP_append]
  omega

lemma AtMostOne.map {f : α → α} (hf : ∀ b, p (f b) = p b) (h : AtMostOne p l) :
    AtMostOne p (l.map f) := by
  unfold AtMostOne at h ⊢
  rw [List.countP_map, show p ∘ f = p from funext hf]
  exact h

lemma AtMostOne.mono {q : α → Bool} (hle : ∀ b, p b → q b) (h : AtMostOne q l) :
    AtMostOne p l :=
  Nat.le_trans (List.countP_mono_left fun b _ => hle b) h

/-! ### What the processes hold -/

lemma filterMap_set_sublist {f : α → Option β} (ha : l[n]? = some a)
    (hx : f x = f a ∨ f x = none) : ((l.set n x).filterMap f).Sublist (l.filterMap f) := by
  induction l generalizing n with
  | nil => simp at ha
  | cons b l ih =>
    cases n with
    | zero =>
      obtain rfl : b = a := by simpa using ha
      rw [List.set_cons_zero, List.filterMap_cons, List.filterMap_cons]
      rcases hx with hx | hx
      · simp [hx]
      · rw [hx]
        dsimp only
        split
        · exact .refl _
        · exact List.sublist_cons_self _ _
    | succ n =>
      have := ih (n := n) (by simpa using ha)
      rw [List.set_cons_succ, List.filterMap_cons, List.filterMap_cons]
      split
      · exact this
      · exact this.cons_cons _

lemma filterMap_set_eq {f : α → Option β} (ha : l[n]? = some a) (hx : f x = f a) :
    (l.set n x).filterMap f = l.filterMap f := by
  induction l generalizing n with
  | nil => simp at ha
  | cons b l ih =>
    cases n with
    | zero =>
      obtain rfl : b = a := by simpa using ha
      rw [List.set_cons_zero, List.filterMap_cons, List.filterMap_cons, hx]
    | succ n =>
      rw [List.set_cons_succ, List.filterMap_cons, List.filterMap_cons, ih (by simpa using ha)]

lemma filterMap_set_perm {f : α → Option β} {y : β} (ha : l[n]? = some a) (hfa : f a = none)
    (hx : f x = some y) : ((l.set n x).filterMap f).Perm (y :: l.filterMap f) := by
  induction l generalizing n with
  | nil => simp at ha
  | cons b l ih =>
    cases n with
    | zero =>
      obtain rfl : b = a := by simpa using ha
      rw [List.set_cons_zero, List.filterMap_cons_some hx, List.filterMap_cons_none hfa]
    | succ n =>
      have := ih (n := n) (by simpa using ha)
      rw [List.set_cons_succ, List.filterMap_cons, List.filterMap_cons]
      split
      · exact this
      · exact (this.cons _).trans (.swap _ _ _)

lemma eq_of_nodup_filterMap {f : α → Option β} {y : β} (h : (l.filterMap f).Nodup) (ha : a ∈ l)
    (hb : b ∈ l) (hfa : f a = some y) (hfb : f b = some y) : a = b := by
  induction l with
  | nil => simp at ha
  | cons x l ih =>
    have htail : (l.filterMap f).Nodup :=
      h.sublist ((List.sublist_cons_self x l).filterMap f)
    have hother : ∀ z ∈ l, f z = some y → f x ≠ some y := by
      intro z hz hfz hfx
      rw [List.filterMap_cons_some hfx] at h
      exact (List.nodup_cons.mp h).1 (List.mem_filterMap.mpr ⟨z, hz, hfz⟩)
    rcases List.mem_cons.mp ha with rfl | ha' <;> rcases List.mem_cons.mp hb with rfl | hb'
    · rfl
    · exact absurd hfa (hother b hb' hfb)
    · exact absurd hfb (hother a ha' hfa)
    · exact ih htail ha' hb'

end Hoststack.Pool
