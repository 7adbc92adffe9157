import Mathlib.Data.List.Range
import Mathlib.Tactic.SplitIfs

/-!
The table of the descriptors of a process.

Each descriptor below a limit is open on something or not. The lowest one that is not open is
taken next, so what is opened first has the lower descriptor, and to close what was opened last
gives the table before.
-/

namespace Hoststack

/-- What each descriptor is open on; from the limit on there are none. -/
@[ext]
structure FdTable (α : Type*) (limit : ℕ) where
  get : ℕ → Option α
  above : ∀ fd, limit ≤ fd → get fd = none

namespace FdTable

variable {α : Type*} {limit : ℕ}

/-- The table with one entry changed; there is none from the limit on. -/
def put (t : FdTable α limit) (fd : ℕ) (x : Option α) : FdTable α limit where
  get e := if e = fd ∧ fd < limit then x else t.get e
  above e he := by
    rw [if_neg (by omega)]
    exact t.above e he

def close (t : FdTable α limit) (fd : ℕ) : FdTable α limit := t.put fd none

/-- The lowest descriptor that is not open, if there is one. -/
def lowest (t : FdTable α limit) : Option ℕ :=
  (List.range limit).find? fun fd => (t.get fd).isNone

/-- The lowest descriptor is taken. -/
def openOn (t : FdTable α limit) (x : α) : Option (ℕ × FdTable α limit) :=
  t.lowest.map fun fd => (fd, t.put fd (some x))

/-- What one descriptor is open on, another one is open on too; whatever it was open on before
is closed. -/
def dup2 (t : FdTable α limit) (fd fd' : ℕ) : Option (FdTable α limit) :=
  if (t.get fd).isSome ∧ fd' < limit then some (t.put fd' (t.get fd)) else none

/-- All descriptors below `n` are open. -/
def Filled (t : FdTable α limit) (n : ℕ) : Prop := ∀ e < n, t.get e ≠ none

variable {t u v : FdTable α limit} {fd fd' n : ℕ} {x y : α} {o o' : Option α}

lemma get_put : (t.put fd o).get fd' = if fd' = fd ∧ fd < limit then o else t.get fd' := rfl

lemma get_put_self (h : fd < limit) : (t.put fd o).get fd = o := if_pos ⟨rfl, h⟩

lemma get_put_ne (h : fd' ≠ fd) : (t.put fd o).get fd' = t.get fd' := if_neg fun hc => h hc.1

lemma put_put_self : (t.put fd o).put fd o' = t.put fd o' := by
  ext1
  funext e
  simp only [get_put]
  split_ifs <;> rfl

lemma put_get (h : t.get fd = o) : t.put fd o = t := by
  ext1
  funext e
  rw [get_put]
  split_ifs with he
  · rw [he.1, h]
  · rfl

lemma lowest_eq_some :
    t.lowest = some fd ↔ fd < limit ∧ t.get fd = none ∧ t.Filled fd := by
  unfold lowest Filled
  rw [List.find?_range_eq_some]
  constructor
  · rintro ⟨hnone, hmem, hall⟩
    refine ⟨List.mem_range.mp hmem, Option.isNone_iff_eq_none.mp hnone, fun e he hc => ?_⟩
    simpa [hc] using hall e he
  · rintro ⟨hlt, hnone, hall⟩
    refine ⟨by simp [hnone], List.mem_range.mpr hlt, fun e he => ?_⟩
    simpa [Option.isSome_iff_ne_none] using hall e he

lemma openOn_eq_some : t.openOn x = some (fd, u) ↔ t.lowest = some fd ∧ u = t.put fd (some x) := by
  simp only [openOn, Option.map_eq_some_iff, Prod.mk.injEq]
  constructor
  · rintro ⟨e, he, rfl, rfl⟩
    exact ⟨he, rfl⟩
  · rintro ⟨he, rfl⟩
    exact ⟨fd, he, rfl, rfl⟩

lemma openOn_spec (h : t.openOn x = some (fd, u)) :
    fd < limit ∧ t.get fd = none ∧ t.Filled fd ∧ u = t.put fd (some x) := by
  obtain ⟨hl, rfl⟩ := openOn_eq_some.mp h
  obtain ⟨hlt, hnone, hfilled⟩ := lowest_eq_some.mp hl
  exact ⟨hlt, hnone, hfilled, rfl⟩

lemma close_openOn (h : t.openOn x = some (fd, u)) : u.close fd = t := by
  obtain ⟨-, hnone, -, rfl⟩ := openOn_spec h
  rw [close, put_put_self, put_get hnone]

lemma Filled.le (h : t.Filled n) (ho : t.openOn x = some (fd, u)) : n ≤ fd := by
  obtain ⟨-, hnone, -⟩ := openOn_spec ho
  by_contra hlt
  exact h fd (by omega) hnone

lemma filled_openOn (h : t.openOn x = some (fd, u)) : u.Filled (fd + 1) := by
  obtain ⟨hlt, -, hfilled, rfl⟩ := openOn_spec h
  intro e he
  rcases Nat.lt_or_ge e fd with hlow | hge
  · rw [get_put_ne (by omega)]
    exact hfilled e hlow
  · obtain rfl : e = fd := by omega
    rw [get_put_self hlt]
    simp

end FdTable

end Hoststack
