import Hoststack.Store
import Mathlib.Data.List.Pairwise

/-!
What the records of the data file have in common over a whole run.

Ids are all different, and a record whose name is the id of another one comes after it, so a
lookup by an id finds the container with that id. What a container was recorded with at its
insertion is its birth; no operation changes it.
-/

namespace Hoststack.StoreInv

open Cell Cell.Prog ContainerDao Store

/-- What is recorded at the insertion of a container and stays. -/
structure Birth where
  id : Str
  name : Str
  command : Str
  createTime : Int32
  volumes : OrdSet Str
  deriving DecidableEq

def birth (r : Record) : Birth := ⟨r.id, r.name, r.command, r.createTime, r.volumes⟩

/-- Ids are different, and no earlier record has the id of a later one for a name. -/
structure Distinct (bs : List Birth) : Prop where
  ids : bs.Pairwise fun a b => a.id ≠ b.id
  order : bs.Pairwise fun a b => a.name ≠ b.id

/-- A container that is marked stopped has no pid, one that is marked running has one, and is
taken for crashed until it is stopped. -/
structure PidOk (r : Record) : Prop where
  stoped : r.status = .stoped → r.pid = 0
  running : r.status = .running → 0 < r.pid ∧ r.abnormalStoped = 1

/-- The file holds the containers with the births `bs`, in order. -/
structure Inv (file : DataFile) (bs : List Birth) (rs : List Record) : Prop where
  represents : Represents file rs
  births : rs.map birth = bs
  distinct : Distinct bs
  pids : ∀ r ∈ rs, PidOk r

/-! ### Births -/

variable {bs : List Birth} {rs : List Record} {file : DataFile}

lemma Distinct.eq_of_id (h : Distinct bs) {a b : Birth} (ha : a ∈ bs) (hb : b ∈ bs)
    (hid : a.id = b.id) : a = b := by
  have : Std.Symm fun a b : Birth => a.id ≠ b.id := ⟨fun _ _ hxy => hxy.symm⟩
  by_contra hne
  exact h.ids.forall ha hb hne hid

lemma Distinct.nil : Distinct [] := ⟨.nil, .nil⟩

lemma Distinct.sublist {bs' : List Birth} (h : Distinct bs) (hs : bs'.Sublist bs) :
    Distinct bs' :=
  ⟨h.ids.sublist hs, h.order.sublist hs⟩

lemma Distinct.append (h : Distinct bs) {b : Birth}
    (hid : ∀ a ∈ bs, a.id ≠ b.id ∧ a.name ≠ b.id) : Distinct (bs ++ [b]) := by
  refine ⟨?_, ?_⟩
  · exact List.pairwise_append.mpr ⟨h.ids, by simp, fun a ha x hx => by
      rw [List.mem_singleton.mp hx]; exact (hid a ha).1⟩
  · exact List.pairwise_append.mpr ⟨h.order, by simp, fun a ha x hx => by
      rw [List.mem_singleton.mp hx]; exact (hid a ha).2⟩

@[simp] lemma birth_repaired (sys : Sys) (r : Record) : birth (repaired sys r) = birth r := by
  unfold repaired
  split_ifs <;> rfl

variable (rs) in
lemma births_lookedUp (sys : Sys) (value : Str) :
    (lookedUp sys value rs).map birth = rs.map birth :=
  map_updateFirst fun r _ _ => birth_repaired sys r

lemma pidOk_repaired {sys : Sys} {r : Record} (h : PidOk r) : PidOk (repaired sys r) := by
  unfold repaired
  split_ifs
  · exact ⟨fun _ => rfl, fun hs => by cases hs⟩
  · exact h

lemma find?_hits_id (h : Distinct (rs.map birth)) {r : Record} (hr : r ∈ rs) :
    rs.find? (hits r.id) = some r := by
  induction rs with
  | nil => simp at hr
  | cons a rs ih =>
    rcases List.mem_cons.mp hr with rfl | hmem
    · simp [hits]
    · have hid := List.rel_of_pairwise_cons h.ids (List.mem_map_of_mem (f := birth) hmem)
      have hname := List.rel_of_pairwise_cons h.order (List.mem_map_of_mem (f := birth) hmem)
      have hno : hits r.id a = false := by
        simpa [hits, birth] using ⟨hname, hid⟩
      rw [List.find?_cons_of_neg (by simp [hno])]
      exact ih ⟨h.ids.of_cons, h.order.of_cons⟩ hmem

lemma found_id (h : Distinct (rs.map birth)) {r : Record} (hr : r ∈ rs) (sys : Sys) :
    found sys r.id rs = some (repaired sys r) := by
  simp [found, find?_hits_id h hr]

lemma found_mem_lookedUp {sys : Sys} {value : Str} {r : Record}
    (h : found sys value rs = some r) : r ∈ lookedUp sys value rs := by
  induction rs with
  | nil => simp [found] at h
  | cons a rs ih =>
    unfold lookedUp updateFirst
    rcases hh : hits value a with _ | _
    · rw [found, List.find?_cons_of_neg (by simp [hh])] at h
      exact List.mem_cons_of_mem _ (ih h)
    · rw [found, List.find?_cons_of_pos hh] at h
      cases h
      simp

@[simp] lemma birth_stopedAt (r : Record) (now : Int64) :
    birth (r.info.stopedAt now).record = birth r := by
  simp [birth, ContainerInfo.record, Record.info, ContainerInfo.stopedAt]

@[simp] lemma birth_restartedAs (r : Record) (pid : Int32) (now : Int64) :
    birth (r.info.restartedAs pid now).record = birth r := by
  simp [birth, ContainerInfo.record, Record.info, ContainerInfo.restartedAs]

lemma pidOk_stopedAt (r : Record) (now : Int64) : PidOk (r.info.stopedAt now).record :=
  ⟨fun _ => rfl, fun h => by cases h⟩

lemma pidOk_restartedAs (r : Record) {pid : Int32} (hp : 0 < pid) (now : Int64) :
    PidOk (r.info.restartedAs pid now).record :=
  ⟨fun h => (by cases h), fun _ => ⟨hp, rfl⟩⟩

/-! ### What the operations keep -/

namespace Inv

variable {sys : Sys} {value : Str} {r : Record}

/-- A lookup keeps the births; what it finds is a record of the file. -/
theorem lookup (h : Inv file bs rs) (sys : Sys) (value : Str) :
    ∃ file', (getContainerByIdOrName sys value).run file =
        (file', some ((found sys value rs).map Record.info)) ∧
      Inv file' bs (lookedUp sys value rs) := by
  obtain ⟨file', hrun, hrep⟩ := lookup_run h.represents sys value
  refine ⟨file', hrun, hrep, (births_lookedUp rs sys value).trans h.births, h.distinct, ?_⟩
  exact forall_updateFirst h.pids fun r hr _ => pidOk_repaired (h.pids r hr)

/-- Writing over a record that was read from the file keeps the births. -/
theorem update (h : Inv file bs rs) {info : ContainerInfo} (hb : birth info.record ∈ bs)
    (hp : PidOk info.record) :
    ∃ file', (ContainerDao.update info).run file = (file', some ()) ∧
      Inv file' bs (updated info rs) := by
  obtain ⟨file', hrun, hrep⟩ := update_run h.represents info
  refine ⟨file', hrun, hrep, ?_, h.distinct, ?_⟩
  · rw [← h.births]
    refine map_updateFirst fun r hr hid => ?_
    have hmem : birth r ∈ bs := h.births ▸ List.mem_map_of_mem (f := birth) hr
    have hid' : r.id = info.id := by simpa using hid
    exact (h.distinct.eq_of_id hmem hb hid').symm
  · exact forall_updateFirst h.pids fun _ _ _ => hp

theorem insert (h : Inv file bs rs) {info : ContainerInfo}
    (hid : ∀ b ∈ bs, b.id ≠ info.id ∧ b.name ≠ info.id) (hp : PidOk info.record) :
    ∃ file', (ContainerDao.insert info).run file = (file', some ()) ∧
      Inv file' (bs ++ [birth info.record]) (rs ++ [info.record]) := by
  obtain ⟨file', hrun, hrep⟩ := insert_run h.represents info
  refine ⟨file', hrun, hrep, ?_, h.distinct.append hid, ?_⟩
  · simp [h.births]
  · intro r hr
    rcases List.mem_append.mp hr with hr | hr
    · exact h.pids r hr
    · rw [List.mem_singleton.mp hr]; exact hp

/-- Deleting a container of the file by its id deletes exactly that one. -/
theorem delete (h : Inv file bs rs) (hr : r ∈ rs) (sys : Sys) :
    ∃ file' rs', (deleteById sys r.id).run file = (file', some ()) ∧
      Inv file' (bs.filter fun b => b.id ≠ r.id) rs' ∧
      rs' = (lookedUp sys r.id rs).filter fun x => x.id ≠ r.id := by
  have hfound := found_id (h.births.symm ▸ h.distinct) hr sys
  obtain ⟨file', hrun, hrep⟩ := deleteById_run h.represents hfound
  have hid : (repaired sys r).id = r.id := congrArg Birth.id (birth_repaired sys r)
  unfold deleted at hrep
  rw [hid] at hrep
  refine ⟨file', _, hrun, ⟨hrep, ?_, h.distinct.sublist List.filter_sublist, ?_⟩, rfl⟩
  · rw [← h.births, ← births_lookedUp rs sys r.id, List.filter_map]
    rfl
  · intro x hx
    exact forall_updateFirst h.pids (fun r hr _ => pidOk_repaired (h.pids r hr)) x
      (List.mem_filter.mp hx).1

/-- **change_status_to_stop** of a container of the file. -/
theorem stop (h : Inv file bs rs) (hr : r ∈ rs) (sys : Sys) (now : Int64) :
    ∃ file', (changeStatusToStop sys now r.id).run file = (file', some ()) ∧
      Inv file' bs (stopped sys now r.id (repaired sys r) rs) := by
  have hfound := found_id (h.births.symm ▸ h.distinct) hr sys
  obtain ⟨file₁, hrun₁, h₁⟩ := h.lookup sys r.id
  rw [hfound] at hrun₁
  have hb : birth ((repaired sys r).info.stopedAt now).record ∈ bs := by
    rw [birth_stopedAt, birth_repaired, ← h.births]
    exact List.mem_map_of_mem hr
  obtain ⟨file₂, hrun₂, h₂⟩ := h₁.update hb (pidOk_stopedAt _ now)
  refine ⟨file₂, ?_, h₂⟩
  simp [changeStatusToStop, run_bind, hrun₁, hrun₂]

end Inv

end Hoststack.StoreInv
