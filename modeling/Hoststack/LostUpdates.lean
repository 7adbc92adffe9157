import Hoststack.Interleaving
import Hoststack.StoreInv
import Hoststack.Lib.Edit

/-!
When two operations on the data file come to an order.

If no operation writes between the other's last read and its write, the only thing left is that
one looks a container up and the other acts before the first goes on to change it. That comes
to an order as well: what the first one does to the container found does not depend on what
the other has made of it, except in two cases. Two removals may both find the one container
although each of them names another one too, and a container may be updated with another name,
command or set of volumes while it is stopped.
-/

namespace Hoststack.LostUpdates

open Cell Store StoreInv Interleaving

/-- The operation looks a container up, and makes `fate` of the record found. -/
inductive Aims : Operation → Sys → Str → (Record → Option Record) → Prop
  | delete (sys : Sys) (name : Str) : Aims (.deleteById sys name) sys name fun _ => none
  | stop (sys : Sys) (now : Int64) (name : Str) :
    Aims (.changeStatusToStop sys now name) sys name fun r => some (r.info.stopedAt now).record

/-- Two operations of which one may act between the two halves of the other so that it comes to
no order. -/
inductive Clash (rs : List Record) : Operation → Operation → Prop
  | removals {sys sys' : Sys} {value value' : Str} {r a b : Record}
      (h : rs.find? (hits value) = some r) (h' : rs.find? (hits value') = some r)
      (ha : a ∈ rs) (hra : a.id ≠ r.id) (hhits : hits value a)
      (hb : b ∈ rs) (hrb : b.id ≠ r.id) (hhits' : hits value' b) :
      Clash rs (.deleteById sys value) (.deleteById sys' value')
  | reborn {sys : Sys} {now : Int64} {value : Str} {info : ContainerInfo} {r : Record}
      (h : rs.find? (hits value) = some r) (hid : info.id = r.id)
      (hbirth : birth info.record ≠ birth r) :
      Clash rs (.changeStatusToStop sys now value) (.update info)

variable {o o₁ o₂ : Operation} {sys : Sys} {value : Str} {fate : Record → Option Record}
  {rs rs' : List Record} {r : Record}

/-! ### Changes of one record -/

lemma hits_congr {a b : Record} (h : birth a = birth b) (value : Str) :
    hits value a = hits value b := by
  obtain ⟨hid, hname, -⟩ := Birth.mk.injEq .. ▸ h
  unfold hits
  rw [hid, hname]

namespace Aims

lemma birth_fate (ha : Aims o sys value fate) {b : Record} (h : fate r = some b) :
    birth b = birth r := by
  cases ha with
  | delete => cases h
  | stop sys now name =>
    cases h
    exact birth_stopedAt r now

lemma fate_congr (ha : Aims o sys value fate) {a b : Record} (h : birth a = birth b) :
    fate a = fate b := by
  cases ha with
  | delete => rfl
  | stop sys now name =>
    obtain ⟨hid, hname, hcommand, hcreate, hvolumes⟩ := Birth.mk.injEq .. ▸ h
    simp [ContainerInfo.stopedAt, Record.info, ContainerInfo.record, *]

lemma first_eq (ha : Aims o sys value fate) (rs : List Record) :
    o.first rs = lookedUp sys value rs := by
  cases ha with
  | delete => rfl
  | stop => rfl

lemma second_of_none (ha : Aims o sys value fate) (h : rs.find? (hits value) = none) :
    o.second rs rs' = rs' := by
  cases ha with
  | delete => simp [Operation.second, found, h]
  | stop => simp [Operation.second, found, h]

end Aims

lemma updated_eq_edit (hnd : (rs.map Record.id).Nodup) (info : ContainerInfo) :
    updated info rs = edit Record.id info.id (fun _ => some info.record) rs := by
  unfold updated
  rcases hf : rs.find? fun r => r.id = info.id with _ | r
  · have hno : ∀ r ∈ rs, r.id ≠ info.id := by simpa using hf
    rw [edit_eq_self hno]
    exact updateFirst_eq_self fun r hr hid => absurd (of_decide_eq_true hid) (hno r hr)
  · rw [updateFirst_eq_edit hnd hf]
    have hid : r.id = info.id := by simpa using List.find?_some hf
    rw [hid]

lemma lookedUp_eq_edit (hnd : (rs.map Record.id).Nodup) (h : rs.find? (hits value) = some r)
    (sys : Sys) :
    lookedUp sys value rs = edit Record.id r.id (fun r => some (repaired sys r)) rs :=
  updateFirst_eq_edit hnd h

lemma Aims.second_of_some (ha : Aims o sys value fate) (hnd : (rs'.map Record.id).Nodup)
    (h : rs.find? (hits value) = some r) :
    o.second rs rs' = edit Record.id r.id (fun _ => fate r) rs' := by
  have hid := repaired_id sys r
  cases ha with
  | delete name =>
    simp only [Operation.second, found, h, Option.map_some, hid]
    exact filter_eq_edit rs'
  | stop sys now name =>
    have hfate := (Aims.stop sys now value).fate_congr (birth_repaired sys r)
    simp only [Operation.second, found, h, Option.map_some, updated_eq_edit hnd]
    rw [hfate]
    exact congrArg (edit Record.id · _ rs') hid

/-! ### What is kept -/

lemma eq_of_id (hnd : (rs.map Record.id).Nodup) {a b : Record} (ha : a ∈ rs) (hb : b ∈ rs)
    (hid : a.id = b.id) : a = b :=
  List.inj_on_of_nodup_map hnd ha hb hid

lemma keepsKey_repaired (sys : Sys) (x : Str) :
    KeepsKey Record.id x fun r => some (repaired sys r) := by
  rintro a b hx heq
  cases heq
  rw [repaired_id, hx]

lemma keepsKey_record (info : ContainerInfo) :
    KeepsKey Record.id info.id fun _ => some info.record := by
  rintro a b - heq
  cases heq
  rfl

lemma Aims.keepsKey (ha : Aims o sys value fate) (r : Record) :
    KeepsKey Record.id r.id fun _ => fate r := fun _ _ _ heq =>
  congrArg Birth.id (ha.birth_fate heq)

lemma find?_of_births {x : Str} {g : Record → Option Record} {b : Record}
    (hg : ∀ a ∈ rs, ∀ b, a.id = x → g a = some b → birth b = birth a)
    (h : rs.find? (hits value) = some r) (hb : (if r.id = x then g r else some r) = some b) :
    (edit Record.id x g rs).find? (hits value) = some b :=
  find?_edit (fun a ha b hx heq => hits_congr (hg a ha b hx heq) value) h hb

lemma Aims.births (ha : Aims o sys value fate) (hnd : (rs.map Record.id).Nodup) (hr : r ∈ rs) :
    ∀ a ∈ rs, ∀ b, a.id = r.id → fate r = some b → birth b = birth a := by
  intro a hmem b hid heq
  rw [eq_of_id hnd hmem hr hid]
  exact ha.birth_fate heq

namespace Aims

variable (ha : Aims o sys value fate)

include ha

lemma after_of_none (h : rs.find? (hits value) = none) : o.after rs = rs := by
  unfold Operation.after
  rw [ha.second_of_none h, ha.first_eq]
  exact lookedUp_of_none (by simp [found, h])

lemma after_of_some (hnd : (rs.map Record.id).Nodup) (h : rs.find? (hits value) = some r) :
    o.after rs = edit Record.id r.id (fun _ => fate r) rs := by
  have hnd' : (((o.first rs)).map Record.id).Nodup := by
    rw [ha.first_eq, lookedUp_eq_edit hnd h]
    exact nodup_edit (keepsKey_repaired sys r.id) hnd
  unfold Operation.after
  rw [ha.second_of_some hnd' h, ha.first_eq, lookedUp_eq_edit hnd h]
  exact edit_const_edit (keepsKey_repaired sys r.id) _ rs

end Aims

/-! ### Between the two halves -/

/-- The records are those after one of the two operations and then the other. -/
def Ordered (o₁ o₂ : Operation) (rs rs' : List Record) : Prop :=
  rs' = o₂.after (o₁.after rs) ∨ rs' = o₁.after (o₂.after rs)

lemma find?_lookedUp (h : rs.find? (hits value) = some r) (sys' : Sys) (value' : Str) :
    ∃ r', (lookedUp sys' value' rs).find? (hits value) = some r' ∧ birth r' = birth r := by
  unfold lookedUp
  rw [find?_updateFirst fun a _ => hits_repaired sys' value a, h]
  refine ⟨_, rfl, ?_⟩
  dsimp only
  split_ifs
  · exact birth_repaired sys' r
  · rfl

lemma find?_lookedUp_none (h : rs.find? (hits value) = none) (sys' : Sys) (value' : Str) :
    (lookedUp sys' value' rs).find? (hits value) = none := by
  unfold lookedUp
  rw [find?_updateFirst fun a _ => hits_repaired sys' value a, h]
  rfl

lemma nodup_lookedUp (hnd : (rs.map Record.id).Nodup) (sys : Sys) (value : Str) :
    ((lookedUp sys value rs).map Record.id).Nodup := by
  unfold lookedUp
  rwa [map_updateFirst fun r _ _ => repaired_id sys r]

/-- What is put in the place of a record does not depend on its repairs. -/
lemma edit_const_lookedUp (hnd : (rs.map Record.id).Nodup) (h : rs.find? (hits value) = some r)
    (sys : Sys) (c : Option Record) :
    edit Record.id r.id (fun _ => c) (lookedUp sys value rs) =
      edit Record.id r.id (fun _ => c) rs := by
  rw [lookedUp_eq_edit hnd h]
  exact edit_const_edit (keepsKey_repaired sys r.id) c rs

lemma edit_const_edit_lookedUp {x : Str} {g : Record → Option Record} {c : Option Record}
    (hnd : (rs.map Record.id).Nodup) (h : rs.find? (hits value) = some r) (hx : r.id ≠ x)
    (hg : KeepsKey Record.id x g) (sys : Sys) :
    edit Record.id r.id (fun _ => c) (edit Record.id x g (lookedUp sys value rs)) =
      edit Record.id r.id (fun _ => c) (edit Record.id x g rs) := by
  rw [lookedUp_eq_edit hnd h, ← edit_comm hx (keepsKey_repaired sys r.id) hg]
  exact edit_const_edit (keepsKey_repaired sys r.id) c _

lemma edit_const_lookedUp_lookedUp (hnd : (rs.map Record.id).Nodup)
    (h : rs.find? (hits value) = some r) (sys sys' : Sys) (value' : Str) (c : Option Record) :
    edit Record.id r.id (fun _ => c) (lookedUp sys' value' (lookedUp sys value rs)) =
      edit Record.id r.id (fun _ => c) (lookedUp sys' value' rs) := by
  rcases h' : rs.find? (hits value') with _ | a
  · have hnone : ∀ rs, rs.find? (hits value') = none → lookedUp sys' value' rs = rs := fun rs h =>
      lookedUp_of_none (by simp [found, h])
    rw [hnone rs h', hnone _ (find?_lookedUp_none h' sys value)]
    exact edit_const_lookedUp hnd h sys c
  · obtain ⟨a', ha', hbirth⟩ := find?_lookedUp h' sys value
    have hid : a'.id = a.id := congrArg Birth.id hbirth
    rw [lookedUp_eq_edit hnd h', lookedUp_eq_edit (nodup_lookedUp hnd sys value) ha', hid]
    by_cases hx : r.id = a.id
    · have hkeeps := keepsKey_repaired sys' r.id
      rw [← hx, edit_const_edit hkeeps, edit_const_edit hkeeps]
      exact edit_const_lookedUp hnd h sys c
    · exact edit_const_edit_lookedUp hnd h hx (keepsKey_repaired sys' a.id) sys

section Gap

variable (ha : Aims o₁ sys value fate) (hnd : (rs.map Record.id).Nodup)
  (h : rs.find? (hits value) = some r)

include ha h

lemma Aims.within_insert (info : ContainerInfo) :
    within o₁ (.insert info) rs = o₁.after ((Operation.insert info).after rs) := by
  have hfirst : o₁.first (rs ++ [info.record]) = o₁.first rs ++ [info.record] := by
    rw [ha.first_eq, ha.first_eq]
    exact updateFirst_append h _
  have hfound : found sys value (rs ++ [info.record]) = found sys value rs := by
    simp [found, List.find?_append, h]
  change o₁.second rs (o₁.first rs ++ [info.record]) =
    o₁.second (rs ++ [info.record]) (o₁.first (rs ++ [info.record]))
  rw [hfirst]
  cases ha with
  | delete => simp only [Operation.second, hfound]
  | stop => simp only [Operation.second, hfound]

include hnd

lemma Aims.within_lookup (sys' : Sys) (value' : Str) :
    within o₁ (.getContainerByIdOrName sys' value') rs =
      o₁.after ((Operation.getContainerByIdOrName sys' value').after rs) := by
  obtain ⟨r', hr', hbirth⟩ := find?_lookedUp h sys' value'
  have hid : r'.id = r.id := congrArg Birth.id hbirth
  change o₁.second rs (lookedUp sys' value' (o₁.first rs)) = o₁.after (lookedUp sys' value' rs)
  rw [ha.after_of_some (nodup_lookedUp hnd sys' value') hr', ha.fate_congr hbirth, hid,
    ha.first_eq, ha.second_of_some (nodup_lookedUp (nodup_lookedUp hnd _ _) _ _) h]
  exact edit_const_lookedUp_lookedUp hnd h sys sys' value' (fate r)

lemma Aims.within_update (info : ContainerInfo) (hc : ¬ Clash rs o₁ (.update info)) :
    Ordered o₁ (.update info) rs (within o₁ (.update info) rs) := by
  have hafter : ∀ rs', (rs'.map Record.id).Nodup → (Operation.update info).after rs' =
      edit Record.id info.id (fun _ => some info.record) rs' := fun rs' hnd' =>
    updated_eq_edit hnd' info
  have hnd₁ : ((edit Record.id r.id (fun _ => fate r) rs).map Record.id).Nodup :=
    nodup_edit (ha.keepsKey r) hnd
  have hnd₂ : ((edit Record.id info.id (fun _ => some info.record) rs).map Record.id).Nodup :=
    nodup_edit (keepsKey_record info) hnd
  have hnd₃ := nodup_lookedUp hnd sys value
  have hwithin : within o₁ (.update info) rs = edit Record.id r.id (fun _ => fate r)
      (edit Record.id info.id (fun _ => some info.record) (lookedUp sys value rs)) := by
    unfold within
    rw [ha.first_eq, hafter _ hnd₃]
    exact ha.second_of_some (nodup_edit (keepsKey_record info) hnd₃) h
  unfold Ordered
  rw [hwithin, ha.after_of_some hnd h, hafter _ hnd₁, hafter _ hnd]
  by_cases hid : info.id = r.id
  · have hkeeps : KeepsKey Record.id r.id fun _ => some info.record :=
      hid ▸ keepsKey_record info
    rw [hid, edit_const_edit hkeeps, edit_const_lookedUp hnd h]
    rcases hf : fate r with _ | s
    · left
      rw [edit_edit fun _ _ _ heq => by cases heq]
      rfl
    · right
      have hbirth : birth info.record = birth r := by
        by_contra hne
        cases ha with
        | delete => cases hf
        | stop sys now name => exact hc (.reborn h hid hne)
      have hfind : (edit Record.id r.id (fun _ => some info.record) rs).find? (hits value) =
          some info.record :=
        find?_of_births (fun a hmem b ha' heq => by
          cases heq
          rw [hbirth, eq_of_id hnd hmem (List.mem_of_find?_eq_some h) ha']) h (if_pos rfl)
      rw [ha.after_of_some (nodup_edit hkeeps hnd) hfind, ha.fate_congr hbirth, hf]
      have hid' : info.record.id = r.id := hid
      rw [hid', edit_const_edit hkeeps]
  · left
    rw [edit_const_edit_lookedUp hnd h (Ne.symm hid) (keepsKey_record info)]
    exact edit_comm (Ne.symm hid) (ha.keepsKey r) (keepsKey_record info) rs

end Gap

lemma Aims.after_of_birth (ha : Aims o sys value fate) (hnd : (rs.map Record.id).Nodup)
    {b : Record} (h : rs.find? (hits value) = some b) (hbirth : birth b = birth r) :
    o.after rs = edit Record.id r.id (fun _ => fate r) rs := by
  have hid : b.id = r.id := congrArg Birth.id hbirth
  rw [ha.after_of_some hnd h, ha.fate_congr hbirth, hid]

lemma find?_edit_only {x : Str} (honly : ∀ a ∈ rs, a.id ≠ x → hits value a = false) :
    (edit Record.id x (fun _ => none) rs).find? (hits value) = none := by
  rw [← filter_eq_edit, List.find?_eq_none]
  intro a ha
  obtain ⟨hmem, hne⟩ := List.mem_filter.mp ha
  simp [honly a hmem (by simpa using hne)]

section Two

variable {sys' : Sys} {value' : Str} {fate' : Record → Option Record} {r' : Record}
  (ha : Aims o₁ sys value fate) (ha' : Aims o₂ sys' value' fate')
  (hnd : (rs.map Record.id).Nodup)

include ha ha' hnd

/-- Two removals of one container come to an order unless each finds another one then. -/
lemma ordered_removed (h : rs.find? (hits value) = some r) (h' : rs.find? (hits value') = some r)
    (hf : fate r = none) (hf' : fate' r = none) (hc : ¬ Clash rs o₁ o₂) :
    Ordered o₁ o₂ rs (edit Record.id r.id (fun _ => none) rs) := by
  have hafter := ha.after_of_some hnd h
  have hafter' := ha'.after_of_some hnd h'
  rw [hf] at hafter
  rw [hf'] at hafter'
  unfold Ordered
  rw [hafter, hafter']
  by_cases hother : ∀ b ∈ rs, b.id ≠ r.id → hits value' b = false
  · exact Or.inl (ha'.after_of_none (find?_edit_only hother)).symm
  · obtain ⟨b, hb, hneb, hhits'⟩ : ∃ b ∈ rs, b.id ≠ r.id ∧ hits value' b := by
      simpa using hother
    refine Or.inr (ha.after_of_none (find?_edit_only fun a hmem hne => ?_)).symm
    by_contra hhits
    cases ha with
    | delete =>
      cases ha' with
      | delete => exact hc (.removals h h' hmem hne (by simpa using hhits) hb hneb hhits')
      | stop => cases hf'
    | stop => cases hf

lemma ordered_same (h : rs.find? (hits value) = some r) (h' : rs.find? (hits value') = some r)
    (hc : ¬ Clash rs o₁ o₂) :
    Ordered o₁ o₂ rs (edit Record.id r.id (fun _ => fate' r)
      (edit Record.id r.id (fun _ => fate r) rs)) := by
  have hr := List.mem_of_find?_eq_some h
  have hnd₁ := nodup_edit (ha.keepsKey r) hnd
  have hnd₂ := nodup_edit (ha'.keepsKey r) hnd
  have hafter := ha.after_of_some hnd h
  have hafter' := ha'.after_of_some hnd h'
  rcases hf : fate r with _ | s
  · rw [edit_edit fun _ _ _ heq => by cases heq]
    rcases hf' : fate' r with _ | s'
    · exact ordered_removed ha ha' hnd h h' hf hf' hc
    · -- the one that does not remove it is the first
      refine Or.inr ?_
      have hkeeps := ha'.keepsKey r
      have hbirths := ha'.births hnd hr
      rw [hf'] at hnd₂ hkeeps hafter' hbirths
      have hfind := find?_of_births hbirths h (if_pos rfl)
      rw [hafter', ha.after_of_birth hnd₂ hfind (ha'.birth_fate hf'), hf, edit_const_edit hkeeps]
      rfl
  · refine Or.inl ?_
    have hbirths := ha.births hnd hr
    rw [hf] at hnd₁ hafter hbirths
    have hfind := find?_of_births hbirths h' (if_pos rfl)
    rw [hafter, ha'.after_of_birth hnd₁ hfind (ha.birth_fate hf)]

lemma ordered_edit_edit (h : rs.find? (hits value) = some r)
    (h' : rs.find? (hits value') = some r') (hc : ¬ Clash rs o₁ o₂) :
    Ordered o₁ o₂ rs (edit Record.id r'.id (fun _ => fate' r')
      (edit Record.id r.id (fun _ => fate r) rs)) := by
  have hr := List.mem_of_find?_eq_some h
  by_cases hid : r'.id = r.id
  · obtain rfl := eq_of_id hnd (List.mem_of_find?_eq_some h') hr hid
    exact ordered_same ha ha' hnd h h' hc
  · refine Or.inl ?_
    have hfind := find?_of_births (ha.births hnd hr) h' (if_neg hid)
    rw [ha.after_of_some hnd h, ha'.after_of_birth (nodup_edit (ha.keepsKey r) hnd) hfind rfl]

lemma within_edit (h : rs.find? (hits value) = some r) (h' : rs.find? (hits value') = some r') :
    within o₁ o₂ rs = edit Record.id r.id (fun _ => fate r)
      (edit Record.id r'.id (fun _ => fate' r') rs) := by
  have hnd' := nodup_lookedUp hnd sys value
  obtain ⟨a, hfind, hbirth⟩ := find?_lookedUp h' sys value
  unfold within
  rw [ha.first_eq, ha'.after_of_birth hnd' hfind hbirth,
    ha.second_of_some (nodup_edit (ha'.keepsKey r') hnd') h]
  by_cases hid : r.id = r'.id
  · obtain rfl := eq_of_id hnd (List.mem_of_find?_eq_some h) (List.mem_of_find?_eq_some h') hid
    rw [edit_const_lookedUp hnd h]
  · exact edit_const_edit_lookedUp hnd h hid (ha'.keepsKey r') sys

lemma across_edit (h : rs.find? (hits value) = some r) (h' : rs.find? (hits value') = some r') :
    across o₁ o₂ rs = edit Record.id r'.id (fun _ => fate' r')
      (edit Record.id r.id (fun _ => fate r) rs) := by
  have hnd₁ := nodup_lookedUp hnd sys value
  have hnd₂ := nodup_lookedUp hnd₁ sys' value'
  obtain ⟨a, hfind, hbirth⟩ := find?_lookedUp h' sys value
  have hid' : a.id = r'.id := congrArg Birth.id hbirth
  unfold across
  rw [ha.first_eq, ha'.first_eq, ha.second_of_some hnd₂ h,
    ha'.second_of_some (nodup_edit (ha.keepsKey r) hnd₂) hfind, ha'.fate_congr hbirth, hid',
    edit_const_lookedUp_lookedUp hnd h]
  by_cases hid : r'.id = r.id
  · obtain rfl := eq_of_id hnd (List.mem_of_find?_eq_some h') (List.mem_of_find?_eq_some h) hid
    rw [edit_const_lookedUp hnd h']
  · exact edit_const_edit_lookedUp hnd h' hid (ha.keepsKey r) sys'

end Two

lemma Ordered.swap (h : Ordered o₁ o₂ rs rs') : Ordered o₂ o₁ rs rs' := Or.symm h

lemma Aims.first_of_none (ha : Aims o sys value fate) (h : rs.find? (hits value) = none) :
    o.first rs = rs := by
  rw [ha.first_eq]
  exact lookedUp_of_none (by simp [found, h])

lemma gap_aims {sys' : Sys} {value' : Str} {fate' : Record → Option Record}
    (ha : Aims o₁ sys value fate) (ha' : Aims o₂ sys' value' fate')
    (hnd : (rs.map Record.id).Nodup) (h : rs.find? (hits value) = some r)
    (hc : ¬ Clash rs o₁ o₂) (hc' : ¬ Clash rs o₂ o₁) :
    Ordered o₁ o₂ rs (within o₁ o₂ rs) ∧ Ordered o₁ o₂ rs (across o₁ o₂ rs) := by
  rcases h' : rs.find? (hits value') with _ | r'
  · -- the second one finds nothing, and does nothing
    have hnone := find?_lookedUp_none h' sys value
    rw [← ha.first_eq] at hnone
    have hwithin : within o₁ o₂ rs = o₁.after rs := by
      unfold within
      rw [ha'.after_of_none hnone]
      rfl
    have hacross : across o₁ o₂ rs = o₁.after rs := by
      unfold across
      rw [ha'.second_of_none hnone, ha'.first_of_none hnone]
      rfl
    rw [hwithin, hacross]
    have hright : o₁.after rs = o₁.after (o₂.after rs) := by rw [ha'.after_of_none h']
    exact ⟨Or.inr hright, Or.inr hright⟩
  · rw [within_edit ha ha' hnd h h', across_edit ha ha' hnd h h']
    exact ⟨(ordered_edit_edit ha' ha hnd h' h hc').swap, ordered_edit_edit ha ha' hnd h h' hc⟩

lemma Aims.gap (ha : Aims o₁ sys value fate) (hnd : (rs.map Record.id).Nodup)
    (hc : ¬ Clash rs o₁ o₂) (hc' : ¬ Clash rs o₂ o₁) :
    Ordered o₁ o₂ rs (within o₁ o₂ rs) ∧ Ordered o₁ o₂ rs (across o₁ o₂ rs) := by
  rcases h : rs.find? (hits value) with _ | r
  · -- what finds nothing does nothing
    have hwithin : within o₁ o₂ rs = o₂.after (o₁.after rs) := by
      unfold within
      rw [ha.second_of_none h, ha.first_of_none h, ha.after_of_none h]
    have hacross : across o₁ o₂ rs = o₂.after (o₁.after rs) := by
      unfold across
      rw [ha.second_of_none h, ha.first_of_none h, ha.after_of_none h]
      rfl
    exact ⟨Or.inl hwithin, Or.inl hacross⟩
  · cases o₂ with
    | insert info =>
      have hright := ha.within_insert h info
      exact ⟨Or.inr hright, Or.inr hright⟩
    | deleteById sys' name => exact gap_aims ha (.delete sys' name) hnd h hc hc'
    | update info => exact ⟨ha.within_update hnd h info hc, ha.within_update hnd h info hc⟩
    | changeStatusToStop sys' now name => exact gap_aims ha (.stop sys' now name) hnd h hc hc'
    | getContainerByIdOrName sys' value' =>
      have hright := ha.within_lookup hnd h sys' value'
      exact ⟨Or.inr hright, Or.inr hright⟩
    | getContainerById value' => exact ⟨Or.inl rfl, Or.inl rfl⟩
    | getContainerByName value' => exact ⟨Or.inl rfl, Or.inl rfl⟩
    | list => exact ⟨Or.inl rfl, Or.inl rfl⟩

/-- The gap: whatever one operation does between the halves of another comes to an order. -/
lemma gap (hnd : (rs.map Record.id).Nodup) (hc : ¬ Clash rs o₁ o₂) (hc' : ¬ Clash rs o₂ o₁) :
    Ordered o₁ o₂ rs (within o₁ o₂ rs) ∧ Ordered o₁ o₂ rs (across o₁ o₂ rs) := by
  cases o₁ with
  | deleteById sys name => exact (Aims.delete sys name).gap hnd hc hc'
  | changeStatusToStop sys now name => exact (Aims.stop sys now name).gap hnd hc hc'
  | _ => exact ⟨Or.inl rfl, Or.inl rfl⟩

/-! ### What both have done -/

lemma ids_after (ho : ∀ sys name, o ≠ .deleteById sys name) {id : Str}
    (hid : id ∈ rs.map Record.id) : id ∈ (o.after rs).map Record.id := by
  have hlookedUp : ∀ sys value, (lookedUp sys value rs).map Record.id = rs.map Record.id :=
    fun sys value => map_updateFirst fun r _ _ => repaired_id sys r
  have hupdated : ∀ info rs, (updated info rs).map Record.id = rs.map Record.id :=
    fun info rs => map_updateFirst fun _ _ heq => (of_decide_eq_true heq).symm
  cases o with
  | insert info =>
    change id ∈ (rs ++ [info.record]).map Record.id
    rw [List.map_append]
    exact List.mem_append_left _ hid
  | deleteById sys name => exact absurd rfl (ho sys name)
  | update info =>
    change id ∈ (updated info rs).map Record.id
    rwa [hupdated]
  | changeStatusToStop sys now name =>
    simp only [Operation.after, Operation.second, Operation.first]
    cases found sys name rs with
    | none => rwa [hlookedUp]
    | some r => rwa [hupdated, hlookedUp]
  | getContainerByIdOrName sys value =>
    change id ∈ (lookedUp sys value rs).map Record.id
    rwa [hlookedUp]
  | _ => exact hid

lemma inserted {info : ContainerInfo} (ho : ∀ sys name, o ≠ .deleteById sys name)
    (h : Ordered (.insert info) o rs rs') : info.id ∈ rs'.map Record.id := by
  have hmem : ∀ rs : List Record, info.id ∈ (rs ++ [info.record]).map Record.id := by
    intro rs
    rw [List.map_append]
    exact List.mem_append_right _ List.mem_cons_self
  rcases h with rfl | rfl
  · exact ids_after ho (hmem rs)
  · exact hmem _

/-- The operation neither removes the container `x` nor writes over its record with another,
nor gives another container a name under which `value` finds it. -/
def SparesStop (x value : Str) : Operation → Prop
  | .deleteById _ _ => False
  | .update info => info.id ≠ x ∧ hits value info.record = false
  | _ => True

lemma stoped_after {x : Str} (ho : SparesStop x value o) {a : Record} (ha : a ∈ rs)
    (hid : a.id = x) (hs : a.status = .stoped) :
    ∃ b ∈ o.after rs, b.id = x ∧ b.status = .stoped := by
  have hlookedUp : ∀ sys value, a ∈ lookedUp sys value rs := by
    intro sys value
    rcases mem_updateFirst ha with hmem | ⟨-, hmem⟩
    · exact hmem
    · rwa [show repaired sys a = a by simp [repaired, isDead, hs]] at hmem
  cases o with
  | insert info => exact ⟨a, List.mem_append_left _ ha, hid, hs⟩
  | deleteById sys name => exact ho.elim
  | update info =>
    rcases mem_updateFirst ha with hmem | ⟨heq, -⟩
    · exact ⟨a, hmem, hid, hs⟩
    · exact absurd ((of_decide_eq_true heq).symm.trans hid) ho.1
  | changeStatusToStop sys now name =>
    simp only [Operation.after, Operation.second, Operation.first]
    cases found sys name rs with
    | none => exact ⟨a, hlookedUp sys name, hid, hs⟩
    | some r =>
      rcases mem_updateFirst (hlookedUp sys name) with hmem | ⟨heq, hmem⟩
      · exact ⟨a, hmem, hid, hs⟩
      · exact ⟨_, hmem, (of_decide_eq_true heq).symm.trans hid, rfl⟩
  | getContainerByIdOrName sys value' => exact ⟨a, hlookedUp sys value', hid, hs⟩
  | _ => exact ⟨a, ha, hid, hs⟩

lemma find?_of_map_birth {l : List Record} (hl : l.map birth = rs.map birth)
    (h : rs.find? (hits value) = some r) : ∃ b, l.find? (hits value) = some b ∧ b.id = r.id := by
  have hfind : ∀ l : List Record, (l.find? (hits value)).map birth =
      (l.map birth).find? fun b => b.name = value || b.id = value := by
    intro l
    rw [List.find?_map]
    rfl
  have hb := hfind l
  rw [hl, ← hfind rs, h] at hb
  obtain ⟨b, hb, hbirth⟩ := Option.map_eq_some_iff.mp hb
  exact ⟨b, hb, congrArg Birth.id hbirth⟩

lemma find?_after (hnd : (rs.map Record.id).Nodup) (ho : SparesStop r.id value o)
    (h : rs.find? (hits value) = some r) :
    ∃ b, (o.after rs).find? (hits value) = some b ∧ b.id = r.id := by
  cases o with
  | insert info =>
    refine ⟨r, ?_, rfl⟩
    change (rs ++ [info.record]).find? (hits value) = some r
    simp [List.find?_append, h]
  | deleteById sys name => exact ho.elim
  | update info =>
    refine ⟨r, find?_updateFirst_of_not h ?_ fun _ _ => ?_, rfl⟩
    · simpa using ho.1.symm
    · simp [ho.2]
  | changeStatusToStop sys now name =>
    have ha := Aims.stop sys now name
    rcases h' : rs.find? (hits name) with _ | r'
    · rw [ha.after_of_none h']
      exact ⟨r, h, rfl⟩
    · have hbirths := ha.births hnd (List.mem_of_find?_eq_some h')
      rw [ha.after_of_some hnd h']
      by_cases hid : r.id = r'.id
      · exact ⟨_, find?_of_births hbirths h (if_pos hid), hid.symm⟩
      · exact ⟨r, find?_of_births hbirths h (if_neg hid), rfl⟩
  | getContainerByIdOrName sys value' => exact find?_of_map_birth (births_lookedUp rs sys value') h
  | _ => exact ⟨r, h, rfl⟩

lemma stoped_of_find? (h : rs.find? (hits value) = some r) (sys : Sys) (now : Int64) :
    ∃ b ∈ (Operation.changeStatusToStop sys now value).after rs,
      b.id = r.id ∧ b.status = .stoped := by
  have hfound : found sys value rs = some (repaired sys r) := by simp [found, h]
  have hmem := found_mem_lookedUp hfound
  simp only [Operation.after, Operation.second, Operation.first, hfound]
  obtain ⟨-, -, -, hb⟩ := exists_mem_updateFirst
    (p := fun a : Record => a.id = ((repaired sys r).info.stopedAt now).id)
    (f := fun _ => ((repaired sys r).info.stopedAt now).record) hmem (decide_eq_true rfl)
  exact ⟨_, hb, repaired_id sys r, rfl⟩

lemma stays_stoped {now : Int64} (hnd : (rs.map Record.id).Nodup)
    (ho : SparesStop r.id value o) (h : rs.find? (hits value) = some r)
    (hord : Ordered (.changeStatusToStop sys now value) o rs rs') :
    ∃ b ∈ rs', b.id = r.id ∧ b.status = .stoped := by
  rcases hord with rfl | rfl
  · obtain ⟨b, hb, hid, hs⟩ := stoped_of_find? h sys now
    exact stoped_after ho hb hid hs
  · obtain ⟨a, ha, hid⟩ := find?_after hnd ho h
    obtain ⟨b, hb, hid', hs⟩ := stoped_of_find? ha sys now
    exact ⟨b, hb, hid'.trans hid, hs⟩

/-- The operation neither removes a container nor stops one, nor writes over the record `r`,
nor finds its process gone. -/
def SparesRecord (r : Record) : Operation → Prop
  | .deleteById _ _ => False
  | .changeStatusToStop _ _ _ => False
  | .update info => info.id ≠ r.id
  | .getContainerByIdOrName sys _ => isDead sys r = false
  | _ => True

lemma stays_updated {info : ContainerInfo} (ho : SparesRecord info.record o)
    (hid : info.id ∈ rs.map Record.id) (hord : Ordered (.update info) o rs rs') :
    info.record ∈ rs' := by
  have hwrite : ∀ rs : List Record, info.id ∈ rs.map Record.id → info.record ∈ updated info rs := by
    intro rs hid
    obtain ⟨a, ha, heq⟩ := List.mem_map.mp hid
    obtain ⟨-, -, -, hmem⟩ := exists_mem_updateFirst
      (p := fun a : Record => a.id = info.id) (f := fun _ => info.record) ha (decide_eq_true heq)
    exact hmem
  have hdel : ∀ sys name, o ≠ .deleteById sys name := by
    rintro sys name rfl
    exact ho
  rcases hord with rfl | rfl
  · have hmem := hwrite rs hid
    cases o with
    | insert info' => exact List.mem_append_left _ hmem
    | deleteById sys name => exact ho.elim
    | update info' =>
      rcases mem_updateFirst hmem with hmem | ⟨heq, -⟩
      · exact hmem
      · exact absurd (of_decide_eq_true heq).symm ho
    | changeStatusToStop sys now name => exact ho.elim
    | getContainerByIdOrName sys value =>
      rcases mem_updateFirst hmem with hmem | ⟨-, hmem⟩
      · exact hmem
      · have hsame : repaired sys info.record = info.record := by
          unfold repaired
          rw [show isDead sys info.record = false from ho]
          rfl
        rwa [hsame] at hmem
    | _ => exact hmem
  · exact hwrite _ (ids_after hdel hid)

/-! ### The file -/

/-- The file holds the records of a file as one of the operations and then the other leave it. -/
def SerialRecords (o₁ o₂ : Operation) (file t : DataFile) : Prop :=
  ∃ u rs', Serial o₁ o₂ file u ∧ Represents u rs' ∧ Represents t rs'

variable {file t : DataFile} {tr : List Access}

lemma Ordered.serialRecords (h : Ordered o₁ o₂ rs rs') (hf : Represents file rs)
    (ht : Represents t rs') : SerialRecords o₁ o₂ file t := by
  rcases h with rfl | rfl
  · exact ⟨_, _, Or.inl rfl, exec_represents (exec_represents hf o₁) o₂, ht⟩
  · exact ⟨_, _, Or.inr rfl, exec_represents (exec_represents hf o₂) o₁, ht⟩

/-- Neither operation writes between the other's last read and its write, and they are not of
those that come to no order even so. -/
structure Undisturbed (o₁ o₂ : Operation) (rs : List Record) (tr : List Access) : Prop where
  left : ¬ Overwrites .left tr
  right : ¬ Overwrites .right tr
  clash : ¬ Clash rs o₁ o₂ ∧ ¬ Clash rs o₂ o₁
  update : rs = [] → ¬ o₁.IsUpdate ∧ ¬ o₂.IsUpdate

lemma ordered_of_undisturbed (hf : Represents file rs) (hnd : (rs.map Record.id).Nodup)
    (hu : Undisturbed o₁ o₂ rs tr) (hi : Interleaves o₁.program o₂.program file tr t) :
    ∃ rs', Represents t rs' ∧ Ordered o₁ o₂ rs rs' := by
  have hgap := gap hnd hu.clash.1 hu.clash.2
  have hgap' := gap hnd hu.clash.2 hu.clash.1
  rcases orders hf (fun h => (hu.update h).1) (fun h => (hu.update h).2) hi hu.left hu.right with
    (rfl | rfl) | (ht | ht) | (ht | ht)
  · exact ⟨_, exec_represents (exec_represents hf o₁) o₂, Or.inl rfl⟩
  · exact ⟨_, exec_represents (exec_represents hf o₂) o₁, Or.inr rfl⟩
  · exact ⟨_, ht, hgap.1⟩
  · exact ⟨_, ht, hgap.2⟩
  · exact ⟨_, ht, hgap'.1.swap⟩
  · exact ⟨_, ht, hgap'.2.swap⟩

/-! ### Two insertions -/

lemma SerialRecords.size_insert (hf : Represents file rs) {a b : ContainerInfo}
    (hs : SerialRecords (.insert a) (.insert b) file t) : t.root.size = rs.length + 2 := by
  obtain ⟨u, rs', hs, hu, ht⟩ := hs
  have hsize : u.root.size = rs.length + 2 := by
    rcases hs with rfl | rfl
    · rw [Represents.size (exec_insert (exec_insert hf a) b)]
      simp
    · rw [Represents.size (exec_insert (exec_insert hf b) a)]
      simp
  rw [Represents.size ht, ← Represents.size hu, hsize]

lemma insert_steps (hf : Represents file rs) (info : ContainerInfo) :
    ∃ k file', (Operation.insert info).program = .read k ∧ k file = .write file' (.ret ()) ∧
      file'.root.size = rs.length + 1 := by
  obtain ⟨j, hw, hj, -⟩ := dePack_spec (j := .null) trivial info
  obtain ⟨root, hroot, hrep⟩ := hf.root_append hj
  refine ⟨_, .parsed root, rfl, ?_, by rw [Represents.size hrep]; simp⟩
  change (Prog.ofOption (ContainerInfo.dePackContainerInfo .null info) >>= fun infojson =>
    Prog.ofOption (file.root.append infojson) >>= fun root =>
      Prog.put (DataFile.parsed root)) = _
  rw [hw, Prog.ofOption_some, pure_bind, hroot, Prog.ofOption_some, pure_bind]
  rfl

lemma serial_insert_iff (hf : Represents file rs) (hnd : (rs.map Record.id).Nodup)
    {a b : ContainerInfo}
    (hi : Interleaves (Operation.insert a).program (Operation.insert b).program file tr t) :
    SerialRecords (.insert a) (.insert b) file t ↔
      ¬ Overwrites .left tr ∧ ¬ Overwrites .right tr := by
  refine ⟨fun hs => ?_, fun ⟨hl, hr⟩ => ?_⟩
  · have hsize := hs.size_insert hf
    obtain ⟨k₁, file₁, hp, hk₁, h₁⟩ := insert_steps hf a
    obtain ⟨k₂, file₂, hq, hk₂, h₂⟩ := insert_steps hf b
    rw [hp, hq] at hi
    rcases hi.overlap hk₁ hk₂ with hc | rfl | rfl
    · exact ⟨hc.not_overwrites .left, hc.not_overwrites .right⟩
    · omega
    · omega
  · have hu : Undisturbed (.insert a) (.insert b) rs tr :=
      ⟨hl, hr, ⟨nofun, nofun⟩, fun _ => ⟨id, id⟩⟩
    obtain ⟨rs', ht, hord⟩ := ordered_of_undisturbed hf hnd hu hi
    exact hord.serialRecords hf ht

/-- **No lost update** where neither operation writes between the other's last read and its
write: the records are those of an order of the two, and each has done what it does, unless the
other is one to change just that. A change that is written over is lost as a whole. -/
theorem no_lost_update :
    (∀ (o₁ o₂ : Operation) (file t : DataFile) (tr : List Access) (rs : List Record),
      Represents file rs → (rs.map Record.id).Nodup → Undisturbed o₁ o₂ rs tr →
      Interleaves o₁.program o₂.program file tr t →
        SerialRecords o₁ o₂ file t ∧
        ∃ rs', Represents t rs' ∧
          (∀ info, o₁ = .insert info → (∀ sys name, o₂ ≠ .deleteById sys name) →
            info.id ∈ rs'.map Record.id) ∧
          (∀ sys now value r, o₁ = .changeStatusToStop sys now value →
            rs.find? (hits value) = some r → SparesStop r.id value o₂ →
            ∃ b ∈ rs', b.id = r.id ∧ b.status = .stoped) ∧
          (∀ info, o₁ = .update info → info.id ∈ rs.map Record.id →
            SparesRecord info.record o₂ → info.record ∈ rs')) ∧
    (∀ (o₁ o₂ : Operation) (file t : DataFile) (tr : List Access),
      Interleaves o₁.program o₂.program file tr t →
      o₁.ReadsOnly ∨ o₂.ReadsOnly ∨ ConflictOrdered tr → Serial o₁ o₂ file t) ∧
    (∀ (o₁ o₂ : Operation) (file t : DataFile) (tr : List Access),
      Interleaves o₁.program o₂.program file tr t →
      tr.count (.left, .write) = 1 → tr.count (.right, .write) = 1 → Overwrites .left tr →
        t = o₁.program.exec file) ∧
    (∀ (a b : ContainerInfo) (file t : DataFile) (tr : List Access) (rs : List Record),
      Represents file rs → (rs.map Record.id).Nodup →
      Interleaves (Operation.insert a).program (Operation.insert b).program file tr t →
        (SerialRecords (.insert a) (.insert b) file t ↔
          ¬ Overwrites .left tr ∧ ¬ Overwrites .right tr)) := by
  refine ⟨fun o₁ o₂ file t tr rs hf hnd hu hi => ?_, fun o₁ o₂ file t tr hi ho => ?_,
    fun o₁ o₂ file t tr hi hl hr ho => hi.exec_of_overwrites hl hr ho,
    fun a b file t tr rs hf hnd hi => serial_insert_iff hf hnd hi⟩
  · obtain ⟨rs', ht, hord⟩ := ordered_of_undisturbed hf hnd hu hi
    refine ⟨hord.serialRecords hf ht, rs', ht, ?_, ?_, ?_⟩
    · rintro info rfl hdel
      exact inserted hdel hord
    · rintro sys now value r rfl hr hspares
      exact stays_stoped hnd hspares hr hord
    · rintro info rfl hid hspares
      exact stays_updated hspares hid hord
  · rcases ho with ho | ho | hc
    · exact serial_of_readsOnly (Or.inl ho) hi
    · exact serial_of_readsOnly (Or.inr ho) hi
    · exact hi.serial hc

lemma SerialRecords.list (h : SerialRecords o₁ o₂ file t) :
    ∃ u, Serial o₁ o₂ file u ∧ (ContainerDao.list.run t).2 = (ContainerDao.list.run u).2 := by
  obtain ⟨u, rs', hs, hu, ht⟩ := h
  exact ⟨u, hs, by rw [list_run hu, list_run ht]⟩

/-- A system on which all processes are alive. -/
def alive : Sys := ⟨fun _ => true, 1700000000⟩

/-- A file with one container. -/
def oneContainer : DataFile := .parsed (.arr [.obj ranInfo.record.members])

lemma represents_oneContainer : Represents oneContainer [ranInfo.record] :=
  .arr (.cons ranInfo.record.holds_members .nil)

/-- A container is recorded between the halves of a stop of another one; a reader looks on while
one is recorded; two are recorded at the same time. -/
theorem no_lost_update_runs :
    (∃ t, Interleaves (Operation.changeStatusToStop alive 1700000060 "c1".toList).program
        (Operation.insert otherInfo).program oneContainer
        [(.left, .read), (.right, .read), (.right, .write), (.left, .read), (.left, .write)] t ∧
      SerialRecords (.changeStatusToStop alive 1700000060 "c1".toList) (.insert otherInfo)
        oneContainer t ∧
      ∃ rs', Represents t rs' ∧ ∃ b ∈ rs', b.id = "c1".toList ∧ b.status = .stoped) ∧
    (∃ t, Interleaves (Operation.insert ranInfo).program Operation.list.program .missing
        [(.left, .read), (.right, .read), (.left, .write)] t ∧
      Serial (.insert ranInfo) .list .missing t) ∧
    ∃ t, Interleaves (Operation.insert ranInfo).program (Operation.insert otherInfo).program
        .missing [(.left, .read), (.right, .read), (.right, .write), (.left, .write)] t ∧
      t = (Operation.insert ranInfo).program.exec .missing ∧
      ¬ SerialRecords (.insert ranInfo) (.insert otherInfo) .missing t := by
  obtain ⟨t₁, h₁⟩ : ∃ t,
      Interleaves (Operation.changeStatusToStop alive 1700000060 "c1".toList).program
        (Operation.insert otherInfo).program oneContainer
        [(.left, .read), (.right, .read), (.right, .write), (.left, .read), (.left, .write)] t :=
    ⟨_, .leftRead (.rightRead (.rightWrite (.leftRead (.leftWrite (.halt trivial trivial)))))⟩
  obtain ⟨t₂, h₂⟩ : ∃ t, Interleaves (Operation.insert ranInfo).program Operation.list.program
      .missing [(.left, .read), (.right, .read), (.left, .write)] t :=
    ⟨_, .leftRead (.rightRead (.leftWrite (.halt trivial trivial)))⟩
  obtain ⟨t₃, h₃⟩ : ∃ t,
      Interleaves (Operation.insert ranInfo).program (Operation.insert otherInfo).program .missing
        [(.left, .read), (.right, .read), (.right, .write), (.left, .write)] t :=
    ⟨_, .leftRead (.rightRead (.rightWrite (.leftWrite (.halt trivial trivial))))⟩
  have hu : Undisturbed (.changeStatusToStop alive 1700000060 "c1".toList) (.insert otherInfo)
      [ranInfo.record]
      [(.left, .read), (.right, .read), (.right, .write), (.left, .read), (.left, .write)] :=
    ⟨by decide, by decide, ⟨nofun, nofun⟩, nofun⟩
  obtain ⟨hs, rs', ht, -, hstop, -⟩ :=
    no_lost_update.1 _ _ _ _ _ _ represents_oneContainer (by simp) hu h₁
  have hiff := no_lost_update.2.2.2 _ _ _ _ _ [] .missing (by simp) h₃
  exact ⟨⟨t₁, h₁, hs, rs', ht, hstop alive 1700000060 "c1".toList ranInfo.record rfl rfl trivial⟩,
    ⟨t₂, h₂, no_lost_update.2.1 _ _ _ _ _ h₂ (Or.inr (Or.inl trivial))⟩,
    ⟨t₃, h₃, no_lost_update.2.2.1 _ _ _ _ _ h₃ (by decide) (by decide) (by decide),
      fun hs => (hiff.mp hs).1 (by decide)⟩⟩

/-- A file without containers. -/
def noContainer : DataFile := .parsed (.arr [])

/-- Two containers of one name. -/
def twoWebs : DataFile :=
  .parsed (.arr [.obj ranInfo.record.members,
    .obj { ranInfo.record with id := "c2".toList }.members])

/-- Both read the missing file before either writes it: one record is lost. Two removals by a name
that two containers have remove one of them. A stop that has read the record before it is
written over with another command brings the old command back. An update that has read a file
without records writes that back over what was recorded since. -/
theorem insert_lost :
    (∃ t, Interleaves (Operation.insert ranInfo).program (Operation.insert otherInfo).program
        .missing [(.left, .read), (.right, .read), (.left, .write), (.right, .write)] t ∧
      ¬ Serial (.insert ranInfo) (.insert otherInfo) .missing t ∧ t.root.size = 1) ∧
    (∃ t tr, Interleaves (Operation.deleteById alive "web".toList).program
        (Operation.deleteById alive "web".toList).program twoWebs tr t ∧
      ¬ Overwrites .left tr ∧ ¬ Overwrites .right tr ∧
      ¬ SerialRecords (.deleteById alive "web".toList) (.deleteById alive "web".toList)
        twoWebs t) ∧
    (∃ t tr, Interleaves (Operation.changeStatusToStop alive 1700000060 "c1".toList).program
        (Operation.update { ranInfo with command := "/bin/ls".toList }).program oneContainer tr t ∧
      ¬ Overwrites .left tr ∧ ¬ Overwrites .right tr ∧
      ¬ SerialRecords (.changeStatusToStop alive 1700000060 "c1".toList)
        (.update { ranInfo with command := "/bin/ls".toList }) oneContainer t) ∧
    ∃ t tr, Interleaves (Operation.update ranInfo).program (Operation.insert otherInfo).program
        noContainer tr t ∧
      ¬ Overwrites .left tr ∧ ¬ Overwrites .right tr ∧
      ¬ SerialRecords (.update ranInfo) (.insert otherInfo) noContainer t := by
  refine ⟨⟨_, .leftRead (.rightRead (.leftWrite (.rightWrite (.halt trivial trivial)))), ?_, rfl⟩,
    ⟨_, _, .leftRead (.rightRead (.leftRead (.leftWrite (.rightRead (.rightWrite
      (.halt trivial trivial)))))), by decide, by decide, fun hs => ?_⟩,
    ⟨_, _, .leftRead (.rightRead (.rightWrite (.leftRead (.leftWrite
      (.halt trivial trivial))))), by decide, by decide, fun hs => ?_⟩,
    ⟨_, _, .leftRead (.rightRead (.rightWrite (.leftRead (.leftWrite (.leftWrite
      (.halt trivial trivial)))))), by decide, by decide, fun hs => ?_⟩⟩
  · rintro (hs | hs)
    · exact absurd (congrArg (fun t : DataFile => t.root.size) hs) (by decide)
    · exact absurd (congrArg (fun t : DataFile => t.root.size) hs) (by decide)
  · obtain ⟨u, rfl | rfl, hlist⟩ := hs.list
    · exact absurd hlist (by decide)
    · exact absurd hlist (by decide)
  · obtain ⟨u, rfl | rfl, hlist⟩ := hs.list
    · exact absurd hlist (by decide)
    · exact absurd hlist (by decide)
  · obtain ⟨u, rfl | rfl, hlist⟩ := hs.list
    · exact absurd hlist (by decide)
    · exact absurd hlist (by decide)

end Hoststack.LostUpdates
