import Hoststack.Lib.FirstMatch
import Mathlib.Data.List.Nodup

/-!
Lists whose elements have keys, and changes of the element with a key.

The change of one element, or its removal, commutes with the change of another one. In a list
without two elements of one key the first match of a search is changed by changing the element
with its key.
-/

namespace Hoststack

variable {α κ : Type*} [DecidableEq κ] {key : α → κ} {x y : κ} {g h : α → Option α}
  {l : List α} {a : α} {p : α → Bool}

/-- Change the elements with the key `x`; one that `g` makes none of is dropped. -/
def edit (key : α → κ) (x : κ) (g : α → Option α) (l : List α) : List α :=
  l.filterMap fun a => if key a = x then g a else some a

/-- What is made of an element with the key `x` has that key. -/
def KeepsKey (key : α → κ) (x : κ) (g : α → Option α) : Prop :=
  ∀ a b, key a = x → g a = some b → key b = x

lemma edit_eq_self (hx : ∀ a ∈ l, key a ≠ x) : edit key x g l = l := by
  have hid : ∀ a ∈ l, (if key a = x then g a else some a) = some a := fun a ha =>
    if_neg (hx a ha)
  exact (List.filterMap_congr hid).trans List.filterMap_some

lemma edit_comm (hxy : x ≠ y) (hg : KeepsKey key x g) (hh : KeepsKey key y h) (l : List α) :
    edit key x g (edit key y h l) = edit key y h (edit key x g l) := by
  unfold edit
  rw [List.filterMap_filterMap, List.filterMap_filterMap]
  refine List.filterMap_congr fun a _ => ?_
  by_cases hax : key a = x
  · rcases hga : g a with _ | b
    · simp [hax, hxy, hga]
    · simp [hax, hxy, hga, hg a b hax hga]
  · by_cases hay : key a = y
    · rcases hha : h a with _ | b
      · simp [hay, hxy.symm, hha]
      · simp [hay, hxy.symm, hha, hh a b hay hha]
    · simp [hax, hay]

lemma edit_edit (hh : KeepsKey key x h) (l : List α) :
    edit key x g (edit key x h l) = edit key x (fun a => h a >>= g) l := by
  unfold edit
  rw [List.filterMap_filterMap]
  refine List.filterMap_congr fun a _ => ?_
  by_cases hax : key a = x
  · rcases hha : h a with _ | b
    · simp [hax, hha]
    · simp [hax, hha, hh a b hax hha]
  · simp [hax]

lemma edit_const_edit {f : α → α} (hf : KeepsKey key x fun a => some (f a)) (c : Option α)
    (l : List α) :
    edit key x (fun _ => c) (edit key x (fun a => some (f a)) l) = edit key x (fun _ => c) l := by
  rw [edit_edit hf]
  rfl

lemma edit_cons_of_eq (hx : key a = x) :
    edit key x g (a :: l) = (g a).toList ++ edit key x g l := by
  unfold edit
  rcases hga : g a with _ | b
  · rw [List.filterMap_cons_none (by rw [if_pos hx, hga])]
    rfl
  · rw [List.filterMap_cons_some (by rw [if_pos hx, hga])]
    rfl

lemma edit_cons_of_ne (hx : key a ≠ x) : edit key x g (a :: l) = a :: edit key x g l :=
  List.filterMap_cons_some (if_neg hx)

lemma filter_eq_edit (l : List α) :
    (l.filter fun a => key a ≠ x) = edit key x (fun _ => none) l := by
  induction l with
  | nil => rfl
  | cons a l ih =>
    by_cases hx : key a = x
    · rw [List.filter_cons_of_neg (by simpa using hx), edit_cons_of_eq hx, ih]
      rfl
    · rw [List.filter_cons_of_pos (by simpa using hx), edit_cons_of_ne hx, ih]

lemma updateFirst_eq_edit {f : α → α} (hl : (l.map key).Nodup) (ha : l.find? p = some a) :
    updateFirst p f l = edit key (key a) (fun b => some (f b)) l := by
  induction l with
  | nil => cases ha
  | cons b l ih =>
    obtain ⟨hb, hl⟩ := List.nodup_cons.mp hl
    unfold updateFirst
    split_ifs with hp
    · rw [List.find?_cons_of_pos hp] at ha
      cases ha
      have hrest : ∀ c ∈ l, key c ≠ key a := fun c hc hkey =>
        hb (hkey ▸ List.mem_map_of_mem hc)
      rw [edit_cons_of_eq rfl, edit_eq_self hrest]
      rfl
    · rw [List.find?_cons_of_neg hp] at ha
      have hne : key b ≠ key a := fun hkey =>
        hb (hkey ▸ List.mem_map_of_mem (List.mem_of_find?_eq_some ha))
      rw [edit_cons_of_ne hne, ih hl ha]

lemma nodup_edit (hg : KeepsKey key x g) (hl : (l.map key).Nodup) :
    ((edit key x g l).map key).Nodup := by
  have hsub : ((edit key x g l).map key).Sublist (l.map key) := by
    clear hl
    induction l with
    | nil => exact .slnil
    | cons a l ih =>
      by_cases hx : key a = x
      · rw [edit_cons_of_eq hx]
        rcases hga : g a with _ | b
        · simpa using ih.cons (key a)
        · simpa [hx, hg a b hx hga] using ih
      · rw [edit_cons_of_ne hx]
        simpa using ih
  exact hl.sublist hsub

lemma find?_edit {b : α} (hp : ∀ a ∈ l, ∀ b, key a = x → g a = some b → p b = p a)
    (ha : l.find? p = some a) (hb : (if key a = x then g a else some a) = some b) :
    (edit key x g l).find? p = some b := by
  induction l with
  | nil => cases ha
  | cons c l ih =>
    obtain ⟨hpc, hpl⟩ := List.forall_mem_cons.mp hp
    by_cases hc : p c
    · rw [List.find?_cons_of_pos hc] at ha
      cases ha
      split_ifs at hb with hx
      · rw [edit_cons_of_eq hx, hb]
        exact List.find?_cons_of_pos (by rwa [hpc b hx hb])
      · cases hb
        rw [edit_cons_of_ne hx]
        exact List.find?_cons_of_pos hc
    · rw [List.find?_cons_of_neg hc] at ha
      by_cases hx : key c = x
      · rw [edit_cons_of_eq hx]
        rcases hgc : g c with _ | d
        · exact ih hpl ha
        · exact (List.find?_cons_of_neg (by rwa [hpc d hx hgc])).trans (ih hpl ha)
      · rw [edit_cons_of_ne hx, List.find?_cons_of_neg hc]
        exact ih hpl ha

end Hoststack
