import Mathlib.Algebra.Order.Ring.Int
import Mathlib.Data.List.Basic

/-!
The values the data file holds, and the accessors the code uses on them. The program stores no
real numbers, and there are none here: a value, and the content of a file, is one without them.

A result of `none` is an accessor that throws: it was applied to a value of the wrong type.
The accessor `operator[]` of a value that is not constant makes a null member where there is
none, so it gives back the value it has changed.
-/

namespace Hoststack

/-- A string of the program. -/
abbrev Str := List Char

inductive Json where
  | null
  | bool (b : Bool)
  | int (n : Int)
  | str (s : Str)
  | arr (l : List Json)
  | obj (m : List (String × Json))

namespace Json

/-- The number of elements of an array or members of an object. -/
def size : Json → ℕ
  | .arr l => l.length
  | .obj m => m.length
  | _ => 0

/-- The elements of an array, for an access by position. -/
def elems : Json → Option (List Json)
  | .null => some []
  | .arr l => some l
  | _ => none

/-- Append to an array; null becomes one. -/
def append (root value : Json) : Option Json :=
  match root with
  | .null => some (.arr [value])
  | .arr l => some (.arr (l ++ [value]))
  | _ => none

/-- The member `key` of a constant value, null if there is none. -/
def member (j : Json) (key : String) : Option Json :=
  match j with
  | .null => some .null
  | .obj m => some ((m.lookup key).getD .null)
  | _ => none

/-- The member `key`, and the value with that member made. -/
def demand (j : Json) (key : String) : Option (Json × Json) :=
  match j with
  | .null => some (.null, .obj [(key, .null)])
  | .obj m =>
    match m.lookup key with
    | some v => some (v, .obj m)
    | none => some (.null, .obj (m ++ [(key, .null)]))
  | _ => none

/-- Replace the value of `key`, or add it at the end. -/
def assign (key : String) (value : Json) : List (String × Json) → List (String × Json)
  | [] => [(key, value)]
  | (k, v) :: m => if key = k then (k, value) :: m else (k, v) :: assign key value m

/-- `j[key] = value` -/
def set (j : Json) (key : String) (value : Json) : Option Json :=
  match j with
  | .null => some (.obj [(key, value)])
  | .obj m => some (.obj (assign key value m))
  | _ => none

def asString : Json → Option Str
  | .null => some []
  | .bool b => some (if b then "true".toList else "false".toList)
  | .int n => some (toString n).toList
  | .str s => some s
  | _ => none

def asInt : Json → Option Int32
  | .null => some 0
  | .bool b => some (if b then 1 else 0)
  | .int n => if -2 ^ 31 ≤ n ∧ n < 2 ^ 31 then some (Int32.ofInt n) else none
  | _ => none

@[simp] lemma asString_str (s : Str) : (str s).asString = some s := rfl

@[simp] lemma asInt_toInt (n : Int32) : (int n.toInt).asInt = some n := by
  have h : -2 ^ 31 ≤ n.toInt ∧ n.toInt < 2 ^ 31 := ⟨n.le_toInt, n.toInt_lt⟩
  simp only [asInt, if_pos h, Int32.ofInt_toInt]

lemma lookup_assign_self (key : String) (value : Json) (m : List (String × Json)) :
    (assign key value m).lookup key = some value := by
  induction m with
  | nil => simp [assign]
  | cons kv m ih =>
    obtain ⟨k, v⟩ := kv
    unfold assign
    split_ifs with h
    · subst h; simp
    · have : (key == k) = false := by simpa using h
      simp [List.lookup_cons, this, ih]

lemma lookup_assign_ne {key other : String} (h : other ≠ key) (value : Json)
    (m : List (String × Json)) : (assign key value m).lookup other = m.lookup other := by
  induction m with
  | nil =>
    have : (other == key) = false := by simpa using h
    simp [assign, List.lookup_cons, this]
  | cons kv m ih =>
    obtain ⟨k, v⟩ := kv
    unfold assign
    split_ifs with hk
    · subst hk
      have : (other == key) = false := by simpa using h
      simp [List.lookup_cons, this]
    · rcases ho : (other == k) with _ | _ <;> simp [List.lookup_cons, ho, ih]

lemma demand_of_lookup {m : List (String × Json)} {key : String} {v : Json}
    (h : m.lookup key = some v) : (obj m).demand key = some (v, .obj m) := by
  simp [demand, h]

lemma member_of_lookup {m : List (String × Json)} {key : String} {v : Json}
    (h : m.lookup key = some v) : (obj m).member key = some v := by
  simp [member, h]

/-- The values that members can be set on. -/
def IsRecord : Json → Prop
  | .null => True
  | .obj _ => True
  | _ => False

/-- Set members one after the other. -/
def setAll (j : Json) (fields : List (String × Json)) : Option Json :=
  fields.foldlM (fun j f => j.set f.1 f.2) j

lemma setAll_obj (m fields : List (String × Json)) :
    (obj m).setAll fields = some (.obj (fields.foldl (fun m f => assign f.1 f.2 m) m)) := by
  unfold setAll
  induction fields generalizing m with
  | nil => rfl
  | cons f fields ih =>
    rw [List.foldlM_cons]
    exact ih _

lemma lookup_foldl_assign_of_notMem {key : String} (fields m : List (String × Json))
    (h : key ∉ fields.map Prod.fst) :
    (fields.foldl (fun m f => assign f.1 f.2 m) m).lookup key = m.lookup key := by
  induction fields generalizing m with
  | nil => rfl
  | cons f fields ih =>
    simp only [List.map_cons, List.mem_cons, not_or] at h
    rw [List.foldl_cons, ih _ h.2, lookup_assign_ne h.1]

lemma lookup_foldl_assign {key : String} {v : Json} (fields m : List (String × Json))
    (hn : (fields.map Prod.fst).Nodup) (h : (key, v) ∈ fields) :
    (fields.foldl (fun m f => assign f.1 f.2 m) m).lookup key = some v := by
  induction fields generalizing m with
  | nil => simp at h
  | cons f fields ih =>
    obtain ⟨hf, hn⟩ := List.nodup_cons.mp hn
    rcases List.mem_cons.mp h with rfl | h
    · rw [List.foldl_cons, lookup_foldl_assign_of_notMem _ _ hf, lookup_assign_self]
    · exact ih _ hn h

lemma setAll_spec {j : Json} (hj : j.IsRecord) (fields : List (String × Json))
    (hne : fields ≠ []) (hn : (fields.map Prod.fst).Nodup) :
    ∃ m, j.setAll fields = some (.obj m) ∧ (∀ f ∈ fields, m.lookup f.1 = some f.2) ∧
      ∀ key ∉ fields.map Prod.fst, (obj m).member key = j.member key := by
  obtain ⟨m, hm, hget⟩ : ∃ m, j.setAll fields = (obj m).setAll fields ∧
      ∀ key, (obj m).member key = j.member key := by
    cases j with
    | null =>
      refine ⟨[], ?_, fun key => rfl⟩
      rcases fields with _ | ⟨f, fields⟩
      · exact absurd rfl hne
      · rfl
    | obj m => exact ⟨m, rfl, fun key => rfl⟩
    | bool b => exact hj.elim
    | int n => exact hj.elim
    | str s => exact hj.elim
    | arr l => exact hj.elim
  refine ⟨_, hm.trans (setAll_obj _ _), fun f hf => lookup_foldl_assign _ _ hn hf, ?_⟩
  intro key hkey
  rw [← hget]
  simp only [member, lookup_foldl_assign_of_notMem _ _ hkey]

end Json

end Hoststack
