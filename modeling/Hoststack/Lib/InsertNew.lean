import Mathlib.Data.List.Basic

/-!
Maps filled in order, where the first value of a key stays.
-/

namespace Hoststack

variable {κ β : Type*} [BEq κ]

/-- Insert a value under a key that is not there yet. -/
def insertNew (m : List (κ × β)) (k : κ) (v : β) : List (κ × β) :=
  if (m.lookup k).isSome then m else m ++ [(k, v)]

lemma lookup_append (a b : List (κ × β)) (k : κ) :
    (a ++ b).lookup k = (a.lookup k).or (b.lookup k) := by
  induction a with
  | nil => rfl
  | cons e a ih =>
    rw [List.cons_append, List.lookup_cons, List.lookup_cons]
    rcases k == e.1 with _ | _
    · exact ih
    · rfl

lemma lookup_insertNew [LawfulBEq κ] (m : List (κ × β)) (e : κ × β) (k : κ) :
    (insertNew m e.1 e.2).lookup k = (m.lookup k).or ([e].lookup k) := by
  unfold insertNew
  split_ifs with h
  · obtain ⟨v, hv⟩ := Option.isSome_iff_exists.mp h
    rcases hk : k == e.1 with _ | _
    · have hnone : [e].lookup k = none := by
        rw [List.lookup_cons, hk]
        rfl
      rw [hnone, Option.or_none]
    · rw [eq_of_beq hk, hv]
      rfl
  · exact lookup_append m [e] k

lemma lookup_foldl_insertNew [LawfulBEq κ] (es m : List (κ × β)) (k : κ) :
    (es.foldl (fun m e => insertNew m e.1 e.2) m).lookup k = (m.lookup k).or (es.lookup k) := by
  induction es generalizing m with
  | nil => exact (Option.or_none).symm
  | cons e es ih =>
    calc ((e :: es).foldl (fun m e => insertNew m e.1 e.2) m).lookup k
        = ((insertNew m e.1 e.2).lookup k).or (es.lookup k) := ih (insertNew m e.1 e.2)
      _ = ((m.lookup k).or ([e].lookup k)).or (es.lookup k) := by rw [lookup_insertNew]
      _ = (m.lookup k).or (([e] ++ es).lookup k) := by rw [Option.or_assoc, lookup_append]

end Hoststack
