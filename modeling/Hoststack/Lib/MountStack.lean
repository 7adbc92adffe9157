import Mathlib.Data.List.Count
import Mathlib.Data.List.Infix
import Mathlib.Tactic.SplitIfs

/-!
Stacks of mounts, one at each path.

A mount pushes on the stack of its path. An unmount pops the stack of exactly its path, and
fails where that stack is empty or where something is mounted strictly below. What a list of
attempts to unmount leaves is compared with what the paths were mounted how often.
-/

namespace Hoststack.MountStack

variable {α : Type*} [DecidableEq α]

/-- `q` lies strictly below `p`. -/
def Below (p q : List α) : Prop := p <+: q ∧ p ≠ q

instance (p q : List α) : Decidable (Below p q) := inferInstanceAs (Decidable (_ ∧ _))

/-- The mount points, the latest first; as many at a path as its stack is high. -/
abbrev Mounts (α : Type*) := List (List α)

/-- How often `q` occurs in a list of paths: how high its stack is, or how often it is tried. -/
def times (l : List (List α)) (q : List α) : ℕ := l.count q

section Times

variable {l l' : List (List α)} {p q : List α}

@[simp] lemma times_nil : times [] q = 0 := List.count_nil

lemma times_cons : times (p :: l) q = times l q + if p = q then 1 else 0 := by
  simp only [times, List.count_cons, beq_iff_eq]

lemma times_append : times (l ++ l') q = times l q + times l' q := List.count_append

lemma times_reverse : times l.reverse q = times l q := List.count_reverse

lemma times_eq_zero : times l q = 0 ↔ q ∉ l := List.count_eq_zero

lemma times_pos_iff : 0 < times l q ↔ q ∈ l := List.count_pos_iff

lemma times_erase : times (l.erase p) q = times l q - if p = q then 1 else 0 := by
  unfold times
  split_ifs with hpq
  · rw [hpq, List.count_erase_self]
  · rw [List.count_erase_of_ne (Ne.symm hpq), Nat.sub_zero]

lemma times_map_append (r : List α) : times (l.map (r ++ ·)) (r ++ q) = times l q :=
  List.count_map_of_injective l _ (fun _ _ h => List.append_cancel_left h) q

end Times

/-- Something is mounted strictly below `p`. -/
def Busy (p : List α) (m : Mounts α) : Prop := ∃ q ∈ m, Below p q

instance (p : List α) (m : Mounts α) : Decidable (Busy p m) :=
  inferInstanceAs (Decidable (∃ q ∈ m, Below p q))

/-- An attempt to unmount. -/
def umount (m : Mounts α) (p : List α) : Mounts α := if Busy p m then m else m.erase p

/-- A sequence of attempts. -/
def umountAll (m : Mounts α) (ps : List (List α)) : Mounts α := ps.foldl umount m

/-- Nothing is mounted at `r` or below. -/
def Clear (r : List α) (m : Mounts α) : Prop := ∀ q ∈ m, ¬ r <+: q

instance (r : List α) (m : Mounts α) : Decidable (Clear r m) :=
  inferInstanceAs (Decidable (∀ q ∈ m, ¬ r <+: q))

variable {m m' : Mounts α} {p q r : List α} {ps ps' : List (List α)}

@[simp] lemma umountAll_nil : umountAll m [] = m := rfl

@[simp] lemma umountAll_cons : umountAll m (p :: ps) = umountAll (umount m p) ps := rfl

lemma umountAll_append : umountAll m (ps ++ ps') = umountAll (umountAll m ps) ps' :=
  List.foldl_append

lemma busy_iff : Busy p m ↔ ∃ q, Below p q ∧ 0 < times m q := by
  simp [Busy, times_pos_iff, and_comm]

lemma clear_iff : Clear r m ↔ ∀ q, r <+: q → times m q = 0 := by
  simp only [Clear, times_eq_zero]
  exact ⟨fun h q hr hq => h q hq hr, fun h q hq hr => h q hr hq⟩

lemma times_umount : times (umount m p) q =
    if Busy p m then times m q else times m q - if p = q then 1 else 0 := by
  unfold umount
  split_ifs with hb
  · rfl
  · rw [times_erase, if_pos ‹_›]
  · rw [times_erase, if_neg ‹_›]

/-! ### Attempts that must fail -/

lemma le_times_umountAll (m : Mounts α) (q : List α) (ps : List (List α)) :
    times m q ≤ times (umountAll m ps) q + times ps q := by
  induction ps generalizing m with
  | nil => simp
  | cons p ps ih =>
    have h := ih (umount m p)
    rw [times_umount] at h
    rw [umountAll_cons, times_cons]
    split_ifs at h ⊢ <;> omega

/-! ### Attempts that succeed -/

/-- Each attempt comes after as many at every path strictly below as there are mounts. -/
def Free (m : Mounts α) (ps : List (List α)) : Prop :=
  ∀ l p l', ps = l ++ p :: l' → ∀ q, Below p q → times m q ≤ times l q

lemma Free.head (h : Free m (p :: ps)) : ¬ Busy p m := by
  rw [busy_iff]
  rintro ⟨q, hq, hpos⟩
  have hle := h [] p ps rfl q hq
  rw [times_nil] at hle
  omega

lemma Free.tail (h : Free m (p :: ps)) : Free (umount m p) ps := by
  rintro l x l' rfl q hq
  have hle := h (p :: l) x l' rfl q hq
  rw [times_umount, if_neg h.head]
  rw [times_cons] at hle
  split_ifs at hle ⊢ <;> omega

/-- **Unblocked attempts** take one mount each. -/
theorem Free.times_umountAll (h : Free m ps) :
    times (umountAll m ps) q = times m q - times ps q := by
  induction ps generalizing m with
  | nil => simp
  | cons p ps ih =>
    rw [umountAll_cons, ih h.tail, times_umount, if_neg h.head, times_cons]
    split_ifs <;> omega

lemma Free.append (h : Free m ps)
    (h' : ∀ l p l', ps' = l ++ p :: l' → ∀ q, Below p q → times m q ≤ times ps q + times l q) :
    Free m (ps ++ ps') := by
  intro l p l' heq q hq
  rcases List.append_eq_append_iff.mp heq with ⟨a, rfl, ha⟩ | ⟨a, rfl, ha⟩
  · rw [times_append]
    exact h' a p l' ha q hq
  · rcases a with _ | ⟨x, a⟩
    · simpa using h' [] p l' ha.symm q hq
    · obtain ⟨rfl, -⟩ := List.cons.inj ha
      exact h l p a rfl q hq

/-! ### Mounts inside a directory -/

omit [DecidableEq α] in
lemma below_append_iff : Below (r ++ p) q ↔ ∃ x, q = r ++ x ∧ Below p x := by
  constructor
  · rintro ⟨⟨t, rfl⟩, hne⟩
    refine ⟨p ++ t, List.append_assoc .., ⟨t, rfl⟩, fun heq => hne ?_⟩
    rw [List.append_assoc, ← heq]
  · rintro ⟨x, rfl, ⟨t, rfl⟩, hne⟩
    refine ⟨⟨t, List.append_assoc ..⟩, fun heq => hne ?_⟩
    exact List.append_cancel_left heq

lemma clear_iff_inside : Clear r m ↔ ∀ x, times m (r ++ x) = 0 := by
  rw [clear_iff]
  constructor
  · exact fun h x => h _ (List.prefix_append ..)
  · rintro h q ⟨x, rfl⟩
    exact h x

/-- Attempts at `r` and below each come late enough if they do so among the paths from `r`. -/
lemma Free.inside
    (h : ∀ l p l', ps = l ++ p :: l' → ∀ x, Below p x → times m (r ++ x) ≤ times l x) :
    Free m (ps.map (r ++ ·)) := by
  intro l p l' heq q hq
  obtain ⟨l₀, l₁, hps, rfl, hl₁⟩ := List.map_eq_append_iff.mp heq
  obtain ⟨p₀, l₂, rfl, rfl, -⟩ := List.map_eq_cons_iff.mp hl₁
  obtain ⟨x, rfl, hx⟩ := below_append_iff.mp hq
  rw [times_map_append]
  exact h l₀ p₀ l₂ hps x hx

/-- What happens at `r` and below depends on nothing else: with at most the mounts of `m'`
there, at most what `m'` keeps is left there. -/
theorem times_umountAll_inside_le (h : ∀ x, times m (r ++ x) ≤ times m' (r ++ x)) (x : List α) :
    times (umountAll m (ps.map (r ++ ·))) (r ++ x) ≤
      times (umountAll m' (ps.map (r ++ ·))) (r ++ x) := by
  induction ps generalizing m m' with
  | nil => exact h x
  | cons p ps ih =>
    refine ih fun y => ?_
    have hbusy : Busy (r ++ p) m → Busy (r ++ p) m' := by
      rw [busy_iff, busy_iff]
      rintro ⟨q, hq, hpos⟩
      obtain ⟨z, rfl, hz⟩ := below_append_iff.mp hq
      exact ⟨r ++ z, below_append_iff.mpr ⟨z, rfl, hz⟩, hpos.trans_le (h z)⟩
    have hy := h y
    rw [times_umount, times_umount]
    by_cases hb : Busy (r ++ p) m'
    · rw [if_pos hb]
      split_ifs <;> omega
    · rw [if_neg hb, if_neg (fun hr => hb (hbusy hr))]
      split_ifs <;> omega

end Hoststack.MountStack
