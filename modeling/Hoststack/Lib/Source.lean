import Mathlib.Data.List.Basic
import Mathlib.Tactic.SplitIfs

/-!
Taking items from a source that may come to an end and may fail.

What a source gives is a list of items, ends and failures. A reader takes items up to a number of
them, or up to one that it takes to be the last. A source that has given everything leaves its
reader waiting.
-/

namespace Hoststack

/-- What a source gives next. -/
inductive Sign (α ε : Type*) where
  | item (a : α)
  | stop
  | fail (e : ε)
  deriving DecidableEq

/-- How the taking of items came to an end. -/
inductive Ending (ε : Type*) where
  | full
  | stop
  | fail (e : ε)
  deriving DecidableEq

/-- What an ending takes from the source besides items. -/
def Ending.signs {α ε : Type*} : Ending ε → List (Sign α ε)
  | .full => []
  | .stop => [.stop]
  | .fail e => [.fail e]

namespace Source

variable {α ε : Type*}

/-- The items taken, how that ended, and what the source still gives. -/
structure Taken (α ε : Type*) where
  items : List α
  ending : Ending ε
  rest : List (Sign α ε)

/-- The same with other items in front. -/
def Taken.prepend (as : List α) (t : Taken α ε) : Taken α ε := { t with items := as ++ t.items }

/-- Take up to `n` items, and none behind one that is the last. -/
def take (last : α → Bool) : ℕ → List (Sign α ε) → Option (Taken α ε)
  | 0, s => some ⟨[], .full, s⟩
  | _ + 1, [] => none
  | n + 1, .item a :: s =>
    if last a then some ⟨[a], .full, s⟩ else (take last n s).map (.prepend [a])
  | _ + 1, .stop :: s => some ⟨[], .stop, s⟩
  | _ + 1, .fail e :: s => some ⟨[], .fail e, s⟩

/-- The items of a source. -/
def items : List (Sign α ε) → List α
  | [] => []
  | .item a :: s => a :: items s
  | .stop :: s => items s
  | .fail _ :: s => items s

variable {last : α → Bool} {n : ℕ} {s s' : List (Sign α ε)} {t : Taken α ε} {as : List α}

@[simp] lemma Taken.prepend_nil : Taken.prepend ([] : List α) = (id : Taken α ε → Taken α ε) := rfl

@[simp] lemma Taken.prepend_prepend (as bs : List α) (t : Taken α ε) :
    (t.prepend bs).prepend as = t.prepend (as ++ bs) := by
  simp [Taken.prepend]

@[simp] lemma take_zero (last : α → Bool) (s : List (Sign α ε)) :
    take last 0 s = some ⟨[], .full, s⟩ := by
  cases s <;> rfl

@[simp] lemma items_map (as : List α) (s : List (Sign α ε)) :
    items (as.map .item ++ s) = as ++ items s := by
  induction as with
  | nil => rfl
  | cons a as ih => simp [items, ih]

@[simp] lemma items_ending (e : Ending ε) (s : List (Sign α ε)) :
    items (e.signs ++ s) = items s := by
  cases e <;> rfl

lemma take_append (h : ∀ a ∈ as, last a = false) (hn : as.length ≤ n) (s : List (Sign α ε)) :
    take last n (as.map .item ++ s) = (take last (n - as.length) s).map (.prepend as) := by
  induction as generalizing n with
  | nil => simp
  | cons a as ih =>
    obtain ⟨n, rfl⟩ := Nat.exists_eq_add_one_of_ne_zero (Nat.ne_of_gt (Nat.zero_lt_of_lt hn))
    obtain ⟨ha, has⟩ := List.forall_mem_cons.mp h
    rw [List.map_cons, List.cons_append, take, ha, if_neg Bool.false_ne_true,
      ih has (by simpa using hn), Option.map_map, List.length_cons, Nat.add_sub_add_right]
    rfl

lemma take_last {a : α} (h : ∀ a ∈ as, last a = false) (ha : last a = true) (hn : as.length < n)
    (s : List (Sign α ε)) :
    take last n (as.map .item ++ .item a :: s) = some ⟨as ++ [a], .full, s⟩ := by
  rw [take_append h (Nat.le_of_lt hn)]
  obtain ⟨k, hk⟩ := Nat.exists_eq_add_one_of_ne_zero (Nat.sub_ne_zero_of_lt hn)
  rw [hk, take, if_pos ha]
  rfl

lemma take_signs (h : take last n s = some t) :
    s = t.items.map .item ++ t.ending.signs ++ t.rest := by
  induction s generalizing n t with
  | nil =>
    rcases n with _ | n
    · cases h; rfl
    · cases h
  | cons x s ih =>
    rcases n with _ | n
    · cases h; rfl
    cases x with
    | item a =>
      unfold take at h
      split_ifs at h
      · cases h; rfl
      · obtain ⟨t', ht', rfl⟩ := Option.map_eq_some_iff.mp h
        rw [ih ht']
        simp [Taken.prepend]
    | stop => cases h; rfl
    | fail e => cases h; rfl

lemma take_items (h : take last n s = some t) : items s = t.items ++ items t.rest := by
  rw [take_signs h, List.append_assoc, items_map, items_ending]

lemma length_take_le (h : take last n s = some t) : t.items.length ≤ n := by
  induction s generalizing n t with
  | nil =>
    rcases n with _ | n
    · cases h; simp
    · cases h
  | cons x s ih =>
    rcases n with _ | n
    · cases h; simp
    cases x with
    | item a =>
      unfold take at h
      split_ifs at h
      · cases h; simp
      · obtain ⟨t', ht', rfl⟩ := Option.map_eq_some_iff.mp h
        have hlen := ih ht'
        simp only [Taken.prepend, List.singleton_append, List.length_cons]
        omega
    | stop => cases h; simp
    | fail e => cases h; simp

end Source

end Hoststack
