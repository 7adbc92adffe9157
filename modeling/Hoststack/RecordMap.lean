import Hoststack.StoreInv
import Mathlib.Logic.Function.Basic

/-!
The data file as a map from ids to containers.

Each operation of `ContainerDao`, run alone, changes the map at one id at most: a lookup at
the id of what it finds, an update and a stop at the id of what they write, a deletion at the
id of what it has looked up.
-/

namespace Hoststack.RecordMap

open Cell Cell.Prog ContainerDao Store StoreInv

/-- What is recorded under each id. -/
abbrev Records := Str → Option ContainerInfo

/-- What `get_container_by_id` reads. -/
def recordOf (file : DataFile) : Records := fun id => ((getContainerById id).run file).2.join

/-- The file holds some of the containers with the births `bs`, in order. -/
def Stores (bs : List Birth) (file : DataFile) : Prop :=
  ∃ bs' rs, Inv file bs' rs ∧ bs'.Sublist bs

/-- The container is one of those with the births `bs`. -/
def Born (bs : List Birth) (info : ContainerInfo) : Prop := birth info.record ∈ bs

/-- The container has the value for its name or its id. -/
def Called (value : Str) (info : ContainerInfo) : Prop := info.name = value ∨ info.id = value

/-- What a lookup makes of the container it finds. -/
def repair (proc : Int32 → Bool) (info : ContainerInfo) : ContainerInfo :=
  if info.status = .running && !proc info.pid then { info with status := .stoped, pid := 0 }
  else info

/-- What is recorded of a container after `change_status_to_stop`. -/
def stop (info : ContainerInfo) : ContainerInfo :=
  { info with status := .stoped, abnormalStoped := 0, pid := 0 }

/-- No container has the id of another one for its name. -/
def NoAlias (bs : List Birth) : Prop := bs.Pairwise fun a b => a.name ≠ b.id ∧ b.name ≠ a.id

instance (bs : List Birth) : Decidable (NoAlias bs) := inferInstanceAs (Decidable (bs.Pairwise _))

/-! ### The map of a file -/

variable {bs : List Birth} {file : DataFile} {rs : List Record} {info : ContainerInfo} {c : Str}
  {proc : Int32 → Bool}

lemma recordOf_eq (h : Represents file rs) (c : Str) :
    recordOf file c = (rs.find? fun r => r.id = c).map Record.info := by
  simp [recordOf, getContainerById_run h]

lemma find?_id (h : Distinct (rs.map birth)) {r : Record} (hr : r ∈ rs) :
    rs.find? (fun x => x.id = r.id) = some r := by
  induction rs with
  | nil => simp at hr
  | cons a rs ih =>
    rcases List.mem_cons.mp hr with rfl | hmem
    · simp
    · have hid := List.rel_of_pairwise_cons h.ids (List.mem_map_of_mem (f := birth) hmem)
      rw [List.find?_cons_of_neg (by simpa [birth] using hid)]
      exact ih ⟨h.ids.of_cons, h.order.of_cons⟩ hmem

lemma recordOf_mem (h : Inv file bs rs) {r : Record} (hr : r ∈ rs) :
    recordOf file r.id = some r.info := by
  rw [recordOf_eq h.represents, find?_id (h.births.symm ▸ h.distinct) hr]
  rfl

lemma exists_of_recordOf (h : Represents file rs) (hc : recordOf file c = some info) :
    ∃ r ∈ rs, r.info = info ∧ r.id = c := by
  rw [recordOf_eq h] at hc
  obtain ⟨r, hr, rfl⟩ := Option.map_eq_some_iff.mp hc
  exact ⟨r, List.mem_of_find?_eq_some hr, rfl, by simpa using List.find?_some hr⟩

lemma recordOf_id (h : Stores bs file) (hc : recordOf file c = some info) : info.id = c := by
  obtain ⟨bs', rs, hinv, -⟩ := h
  obtain ⟨r, -, rfl, rfl⟩ := exists_of_recordOf hinv.represents hc
  rfl

@[simp] lemma birth_info (r : Record) : birth r.info.record = birth r := by
  simp [birth, ContainerInfo.record, Record.info]

lemma recordOf_born (h : Stores bs file) (hc : recordOf file c = some info) : Born bs info := by
  obtain ⟨bs', rs, hinv, hsub⟩ := h
  obtain ⟨r, hr, rfl, -⟩ := exists_of_recordOf hinv.represents hc
  refine hsub.subset ?_
  rw [birth_info, ← hinv.births]
  exact List.mem_map_of_mem hr

lemma recordOf_pid_pos (h : Stores bs file) (hc : recordOf file c = some info)
    (hs : info.status = .running) : 0 < info.pid := by
  obtain ⟨bs', rs, hinv, -⟩ := h
  obtain ⟨r, hr, rfl, -⟩ := exists_of_recordOf hinv.represents hc
  exact ((hinv.pids r hr).running hs).1

lemma repaired_info (sys : Sys) (r : Record) :
    (repaired sys r).info = repair sys.proc r.info := by
  unfold repaired repair
  change Record.info (if isDead sys r then _ else _) = if isDead sys r then _ else _
  split_ifs <;> rfl

/-- The times of what is read from the file are those that are read back of it. -/
lemma recordOf_record (h : Stores bs file) (hc : recordOf file c = some info) :
    info.record.info = info := by
  obtain ⟨bs', rs, hinv, -⟩ := h
  obtain ⟨r, -, rfl, -⟩ := exists_of_recordOf hinv.represents hc
  simp [Record.info, ContainerInfo.record]

lemma stopedAt_repair (now : Int64) (info : ContainerInfo) :
    ((repair proc info).stopedAt now).record.info = stop info.record.info := by
  unfold repair
  split_ifs <;> rfl

variable (proc) in
@[simp] lemma repair_id (info : ContainerInfo) : (repair proc info).id = info.id := by
  unfold repair; split_ifs <;> rfl

lemma repair_of_proc (h : proc info.pid = true) : repair proc info = info := by
  simp [repair, h]

lemma repair_running (h : (repair proc info).status = .running) :
    repair proc info = info ∧ info.status = .running ∧ proc info.pid = true := by
  unfold repair at h ⊢
  split_ifs at h ⊢ with hd
  refine ⟨rfl, h, ?_⟩
  simpa [h] using hd

lemma born_repair (h : Born bs info) : Born bs (repair proc info) := by
  unfold repair
  split_ifs
  · exact h
  · exact h

/-! ### The operations -/

/-- What a lookup comes to: nothing is called so, or a container is, and is repaired. -/
inductive Lookup (proc : Int32 → Bool) (value : Str) (m : Records) :
    Option ContainerInfo → Records → Prop
  | missed (h : ∀ c info, m c = some info → ¬ Called value info) : Lookup proc value m none m
  | hit {info : ContainerInfo} (hm : m info.id = some info) (hc : Called value info) :
      Lookup proc value m (some (repair proc info))
        (Function.update m info.id (some (repair proc info)))

/-- What `change_status_to_stop` comes to: it dies, or stops what a lookup finds. -/
inductive Stop (proc : Int32 → Bool) (value : Str) (m : Records) :
    Option ContainerInfo → Bool → Records → Prop
  | missed (h : ∀ c info, m c = some info → ¬ Called value info) : Stop proc value m none false m
  | hit {info : ContainerInfo} (hm : m info.id = some info) (hc : Called value info) :
      Stop proc value m (some (repair proc info)) true
        (Function.update m info.id (some (stop info)))

lemma hits_iff {value : Str} {r : Record} : hits value r = true ↔ Called value r.info := by
  simp [hits, Called, Record.info]

lemma missed_of_found {sys : Sys} {value : Str} (h : Represents file rs)
    (hf : found sys value rs = none) : ∀ c info, recordOf file c = some info →
      ¬ Called value info := by
  intro c info hc
  obtain ⟨r, hr, rfl, -⟩ := exists_of_recordOf h hc
  rw [← hits_iff, found_eq_none_iff.mp hf r hr]
  simp

lemma recordOf_updateFirst {p : Record → Bool} {f : Record → Record} (h : Inv file bs rs)
    {file' : DataFile} (h' : Represents file' (updateFirst p f rs)) {r : Record}
    (hr : rs.find? p = some r) (hid : (f r).id = r.id) :
    recordOf file' = Function.update (recordOf file) r.id (some (f r).info) := by
  have hmem := List.mem_of_find?_eq_some hr
  funext c
  rw [recordOf_eq h']
  by_cases hc : c = r.id
  · subst hc
    rw [Function.update_self, find?_updateFirst_of_find hr
      (find?_id (h.births.symm ▸ h.distinct) hmem) (by simpa using hid)]
    rfl
  · have hne : r.id ≠ c := fun heq => hc heq.symm
    rw [Function.update_of_ne hc, recordOf_eq h.represents,
      find?_updateFirst_of_ne hr (by simpa using hne) (by simpa [hid] using hne)]

/-- **get_container_by_id_or_name** on the map. -/
theorem lookup_spec (h : Stores bs file) (sys : Sys) (value : Str) :
    ∃ file' res, (getContainerByIdOrName sys value).run file = (file', some res) ∧
      Stores bs file' ∧ Lookup sys.proc value (recordOf file) res (recordOf file') := by
  obtain ⟨bs', rs, hinv, hsub⟩ := h
  obtain ⟨file', hrun, hinv'⟩ := hinv.lookup sys value
  refine ⟨file', _, hrun, ⟨bs', _, hinv', hsub⟩, ?_⟩
  rcases hf : rs.find? (hits value) with _ | r
  · have hnone : found sys value rs = none := by simp [found, hf]
    rw [hnone]
    have hsame : recordOf file' = recordOf file := by
      have hrep := hinv'.represents
      rw [lookedUp_of_none hnone] at hrep
      funext c
      rw [recordOf_eq hrep, recordOf_eq hinv.represents]
    rw [hsame]
    exact .missed (missed_of_found hinv.represents hnone)
  · have hfound : found sys value rs = some (repaired sys r) := by simp [found, hf]
    rw [hfound, Option.map_some, repaired_info,
      recordOf_updateFirst hinv hinv'.represents hf (congrArg Birth.id (birth_repaired sys r)),
      repaired_info]
    exact .hit (recordOf_mem hinv (List.mem_of_find?_eq_some hf))
      (hits_iff.mp (List.find?_some hf))

/-- **update** on the map: it writes over what is recorded under the id. -/
theorem update_spec (hd : Distinct bs) (h : Stores bs file) (hb : Born bs info)
    (hp : PidOk info.record) :
    ∃ file', (ContainerDao.update info).run file = (file', some ()) ∧ Stores bs file' ∧
      recordOf file' = Function.update (recordOf file) info.id
        ((recordOf file info.id).map fun _ => info.record.info) := by
  obtain ⟨bs', rs, hinv, hsub⟩ := h
  rcases hf : rs.find? (fun r => r.id = info.id) with _ | r
  · obtain ⟨file', hrun, hrep⟩ := update_run hinv.represents info
    have hsame : updated info rs = rs := updateFirst_eq_self fun r hr hid =>
      absurd hid (List.find?_eq_none.mp hf r hr)
    rw [hsame] at hrep
    refine ⟨file', hrun, ⟨bs', rs, ⟨hrep, hinv.births, hinv.distinct, hinv.pids⟩, hsub⟩, ?_⟩
    have hnone : recordOf file info.id = none := by rw [recordOf_eq hinv.represents, hf]; rfl
    rw [hnone, Option.map_none, ← hnone, Function.update_eq_self]
    funext c
    rw [recordOf_eq hrep, recordOf_eq hinv.represents]
  · have hmem := List.mem_of_find?_eq_some hf
    have hid : r.id = info.id := by simpa using List.find?_some hf
    have hr : birth r ∈ bs' := hinv.births ▸ List.mem_map_of_mem hmem
    have hb' : birth info.record ∈ bs' := by
      rwa [← hd.eq_of_id (hsub.subset hr) hb hid]
    obtain ⟨file', hrun, hinv'⟩ := hinv.update hb' hp
    refine ⟨file', hrun, ⟨bs', _, hinv', hsub⟩, ?_⟩
    rw [recordOf_updateFirst hinv hinv'.represents hf hid.symm, hid,
      ← hid, recordOf_mem hinv hmem]
    rfl

/-- **change_status_to_stop** on the map. -/
theorem stop_spec (hd : Distinct bs) (h : Stores bs file) (sys : Sys) (now : Int64)
    (value : Str) :
    ∃ file₁ looked file' res,
      (getContainerByIdOrName sys value).run file = (file₁, some looked) ∧
      (changeStatusToStop sys now value).run file = (file', res) ∧
      Stores bs file' ∧ Stop sys.proc value (recordOf file) looked res.isSome (recordOf file') := by
  obtain ⟨file₁, res, hrun₁, h₁, hlook⟩ := lookup_spec h sys value
  generalize hm₁ : recordOf file₁ = m₁ at hlook
  cases hlook with
  | missed hno =>
    refine ⟨file₁, _, file₁, none, hrun₁, by simp [changeStatusToStop, run_bind, hrun₁], h₁, ?_⟩
    rw [hm₁]
    exact .missed hno
  | @hit info hm hc =>
    have hself : recordOf file₁ info.id = some (repair sys.proc info) := by
      rw [hm₁, Function.update_self]
    have hborn : Born bs ((repair sys.proc info).stopedAt now) :=
      (recordOf_born h₁ hself : Born bs (repair sys.proc info))
    obtain ⟨file₂, hrun₂, h₂, hm₂⟩ := update_spec hd h₁ hborn
      ⟨fun _ => rfl, fun hs => by cases hs⟩
    refine ⟨file₁, _, file₂, some (), hrun₁,
      by simp [changeStatusToStop, run_bind, hrun₁, hrun₂], h₂, ?_⟩
    have hrec : ((repair sys.proc info).stopedAt now).record.info = stop info := by
      rw [stopedAt_repair, recordOf_record h hm]
    have hid : ((repair sys.proc info).stopedAt now).id = info.id := repair_id sys.proc info
    rw [hm₂, hid, hself, Option.map_some, hrec, hm₁, Function.update_idem]
    exact .hit hm hc

lemma recordOf_filter {file' : DataFile} (h : Represents file rs) {id : Str}
    (h' : Represents file' (rs.filter fun r => r.id ≠ id)) :
    recordOf file' = Function.update (recordOf file) id none := by
  funext c
  rw [recordOf_eq h', List.find?_filter]
  by_cases hc : c = id
  · subst hc
    simp
  · rw [Function.update_of_ne hc, recordOf_eq h]
    congr 2
    funext r
    by_cases hr : r.id = c <;> simp [hr, hc]

/-- **delete_by_id** on the map: it takes away what it finds, and may die where it finds
nothing. -/
theorem delete_spec (h : Stores bs file) (sys : Sys) (value : Str) :
    ∃ file' res, (deleteById sys value).run file = (file', res) ∧ Stores bs file' ∧
      (recordOf file' = recordOf file ∨ ∃ info, Called value info ∧
        recordOf file info.id = some info ∧
        recordOf file' = Function.update (recordOf file) info.id none) := by
  obtain ⟨bs', rs, hinv, hsub⟩ := h
  rcases hf : rs.find? (hits value) with _ | r
  · have hnone : found sys value rs = none := by simp [found, hf]
    obtain ⟨file', res, hrun, hrep⟩ := deleteById_run_none hinv.represents hnone
    refine ⟨file', res, hrun, ⟨bs', rs, ⟨hrep, hinv.births, hinv.distinct, hinv.pids⟩, hsub⟩,
      Or.inl ?_⟩
    funext c
    rw [recordOf_eq hrep, recordOf_eq hinv.represents]
  · have hfound : found sys value rs = some (repaired sys r) := by simp [found, hf]
    obtain ⟨file', hrun, hrep⟩ := deleteById_run hinv.represents hfound
    obtain ⟨file₁, hrun₁, hinv₁⟩ := hinv.lookup sys value
    have hmem := List.mem_of_find?_eq_some hf
    have hid : (repaired sys r).id = r.id := congrArg Birth.id (birth_repaired sys r)
    have hstores : Stores bs file' := by
      refine ⟨_, _, ⟨hrep, rfl, ?_, ?_⟩, ?_⟩
      · have hs : ((deleted sys value (repaired sys r) rs).map birth).Sublist bs' := by
          rw [← hinv₁.births]
          exact List.filter_sublist.map birth
        exact hinv.distinct.sublist hs
      · exact fun x hx => hinv₁.pids x (List.mem_of_mem_filter hx)
      · refine List.Sublist.trans ?_ hsub
        rw [← hinv₁.births]
        exact List.filter_sublist.map birth
    refine ⟨file', some (), hrun, hstores, Or.inr ⟨r.info, hits_iff.mp (List.find?_some hf),
      recordOf_mem hinv hmem, ?_⟩⟩
    unfold deleted at hrep
    rw [hid] at hrep
    rw [recordOf_filter hinv₁.represents hrep,
      recordOf_updateFirst hinv hinv₁.represents hf hid, Function.update_idem]
    rfl

end Hoststack.RecordMap
