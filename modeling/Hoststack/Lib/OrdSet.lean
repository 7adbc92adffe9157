import Mathlib.Data.List.Sort
import Mathlib.Order.Lattice

/-!
Ordered sets: a set kept as its strictly increasing list, walked from the least element.
-/

namespace Hoststack

/-- A finite set together with its order of iteration. -/
structure OrdSet (α : Type*) [LinearOrder α] where
  elems : List α
  sorted : elems.Pairwise (· < ·)

namespace OrdSet

variable {α : Type*} [LinearOrder α]

instance : Membership α (OrdSet α) := ⟨fun s a => a ∈ s.elems⟩

lemma mem_def {s : OrdSet α} {a : α} : a ∈ s ↔ a ∈ s.elems := Iff.rfl

lemma ext_elems {s t : OrdSet α} (h : s.elems = t.elems) : s = t := by
  cases s; cases t; cases h; rfl

@[ext] lemma ext {s t : OrdSet α} (h : ∀ a, a ∈ s ↔ a ∈ t) : s = t :=
  ext_elems (s.sorted.eq_of_mem_iff t.sorted h)

instance : DecidableEq (OrdSet α) := fun s t =>
  decidable_of_iff (s.elems = t.elems) ⟨ext_elems, congrArg elems⟩

def empty : OrdSet α := ⟨[], .nil⟩

instance : EmptyCollection (OrdSet α) := ⟨empty⟩
instance : Inhabited (OrdSet α) := ⟨∅⟩

@[simp] lemma elems_empty : (∅ : OrdSet α).elems = [] := rfl

/-- Put `a` at its place, once. -/
def place (a : α) : List α → List α
  | [] => [a]
  | b :: l => if a < b then a :: b :: l else if a = b then b :: l else b :: place a l

lemma mem_place {a x : α} {l : List α} : x ∈ place a l ↔ x = a ∨ x ∈ l := by
  induction l with
  | nil => simp [place]
  | cons b l ih =>
    unfold place
    split_ifs with h1 h2
    · simp
    · subst h2; simp
    · simp only [List.mem_cons, ih]; tauto

lemma sorted_place {a : α} {l : List α} (h : l.Pairwise (· < ·)) :
    (place a l).Pairwise (· < ·) := by
  induction l with
  | nil => simp [place]
  | cons b l ih =>
    obtain ⟨hb, hl⟩ := List.pairwise_cons.mp h
    unfold place
    split_ifs with h1 h2
    · refine List.pairwise_cons.mpr ⟨fun x hx => ?_, h⟩
      rcases List.mem_cons.mp hx with rfl | hx
      · exact h1
      · exact h1.trans (hb x hx)
    · exact h
    · refine List.pairwise_cons.mpr ⟨fun x hx => ?_, ih hl⟩
      rcases mem_place.mp hx with rfl | hx
      · exact lt_of_le_of_ne (not_lt.mp h1) (Ne.symm h2)
      · exact hb x hx

def insert (s : OrdSet α) (a : α) : OrdSet α := ⟨place a s.elems, sorted_place s.sorted⟩

@[simp] lemma mem_insert {s : OrdSet α} {a x : α} : x ∈ s.insert a ↔ x = a ∨ x ∈ s :=
  mem_place

/-- Insert the elements of a list one after the other. -/
def ofList (l : List α) : OrdSet α := l.foldl insert ∅

lemma mem_foldl_insert {l : List α} {s : OrdSet α} {x : α} :
    x ∈ l.foldl insert s ↔ x ∈ l ∨ x ∈ s := by
  induction l generalizing s with
  | nil => simp
  | cons a l ih => simp only [List.foldl_cons, ih, mem_insert, List.mem_cons]; tauto

@[simp] lemma mem_ofList {l : List α} {x : α} : x ∈ ofList l ↔ x ∈ l := by
  refine mem_foldl_insert.trans ?_
  simp [mem_def]

/-- Inserting the elements of a set into an empty one gives the set back. -/
@[simp] theorem ofList_elems (s : OrdSet α) : ofList s.elems = s :=
  ext fun _ => mem_ofList

end OrdSet

end Hoststack
