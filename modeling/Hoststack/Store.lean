import Hoststack.ContainerDao
import Hoststack.Lib.FirstMatch

/-!
The data file as a list of records.

A file represents a list of records when each element of its array holds the record at the
same place; a missing, an empty and a null file represent no record. On such a file every
operation of `ContainerDao` runs to its end, and what it does to the file is a function of
the list: append, change the first match, or filter.
-/

namespace Hoststack.Store

open Cell Cell.Prog ContainerDao ContainerInfo Record

/-- The records a file stands for. -/
inductive Represents : DataFile → List Record → Prop
  | missing : Represents .missing []
  | empty : Represents (.garbled .null) []
  | null : Represents (.parsed .null) []
  | arr {l : List Json} {rs : List Record} (h : List.Forall₂ Record.Holds rs l) :
      Represents (.parsed (.arr l)) rs

/-- `name == value || id == value` -/
def hits (value : Str) (r : Record) : Bool := r.name = value || r.id = value

/-- The record is marked running and there is no process with its pid. -/
def isDead (sys : Sys) (r : Record) : Bool := r.status = .running && !sys.proc r.pid

/-- The record as a lookup leaves it when it is the one found. -/
def repaired (sys : Sys) (r : Record) : Record :=
  if isDead sys r then
    { r with status := .stoped, stopTime := sys.time.toInt32, pid := 0 }
  else r

/-- The record a lookup finds, as it then stands in the file. -/
def found (sys : Sys) (value : Str) (rs : List Record) : Option Record :=
  (rs.find? (hits value)).map (repaired sys)

/-- The records after a lookup. -/
def lookedUp (sys : Sys) (value : Str) (rs : List Record) : List Record :=
  updateFirst (hits value) (repaired sys) rs

/-- The records after an update with `info`. -/
def updated (info : ContainerInfo) (rs : List Record) : List Record :=
  updateFirst (fun r => r.id = info.id) (fun _ => info.record) rs

lemma repaired_id (sys : Sys) (r : Record) : (repaired sys r).id = r.id := by
  unfold repaired
  split_ifs <;> rfl

lemma hits_repaired (sys : Sys) (value : Str) (r : Record) :
    hits value (repaired sys r) = hits value r := by
  unfold hits repaired
  split_ifs <;> rfl

/-! ### One record -/

variable {r : Record} {j : Json}

lemma holds_id (h : r.Holds j) : j.demand "id" = some (.str r.id, j) :=
  h.demand (by simp [members])

lemma holds_name (h : r.Holds j) : j.demand "name" = some (.str r.name, j) :=
  h.demand (by simp [members])

lemma holds_pid (h : r.Holds j) : j.demand "pid" = some (.int r.pid.toInt, j) :=
  h.demand (by simp [members])

lemma holds_status (h : r.Holds j) :
    j.demand "status" = some (.int r.status.toInt.toInt, j) :=
  h.demand (by simp [members])

lemma holds_set (h : r.Holds j) (r' : Record) (key : String) (v : Json)
    (hkey : ∀ f ∈ r'.members, f.1 = key → f.2 = v)
    (hrest : ∀ f ∈ r'.members, f.1 ≠ key → f ∈ r.members) :
    ∃ j', j.set key v = some j' ∧ r'.Holds j' := by
  obtain ⟨m, rfl, hm⟩ := h
  refine ⟨_, rfl, _, rfl, fun f hf => ?_⟩
  by_cases hk : f.1 = key
  · rw [hk, Json.lookup_assign_self, hkey f hf hk]
  · rw [Json.lookup_assign_ne hk]
    exact hm f (hrest f hf hk)

lemma matchesRecord_spec (h : r.Holds j) (value : Str) :
    matchesRecord value j = some (hits value r, j) := by
  unfold matchesRecord hits
  rw [holds_name h]
  by_cases hn : r.name = value
  · simp [hn]
  · simp [hn, holds_id h]

lemma toInt_eq_running {s : ContainerStatus} :
    s.toInt = ContainerStatus.running.toInt ↔ s = .running := by
  cases s <;> decide

lemma repair_spec (h : r.Holds j) (sys : Sys) :
    ∃ j', repair sys j = some (isDead sys r, j') ∧ (repaired sys r).Holds j' ∧
      (isDead sys r = false → j' = j) := by
  unfold repair
  rw [holds_status h]
  by_cases hs : r.status = .running
  · by_cases hp : sys.proc r.pid
    · refine ⟨j, ?_, ?_, fun _ => rfl⟩
      · simp [hs, holds_pid h, hp, isDead]
      · simpa [repaired, isDead, hp] using h
    · obtain ⟨j₁, hj₁, h₁⟩ := holds_set h { r with status := .stoped } "status"
        (.int ContainerStatus.stoped.toInt.toInt) (by simp [members]) (by simp [members])
      obtain ⟨j₂, hj₂, h₂⟩ := holds_set h₁
        { r with status := .stoped, stopTime := sys.time.toInt32 } "stop_time"
        (.int sys.time.toInt32.toInt) (by simp [members]) (by simp [members])
      obtain ⟨j₃, hj₃, h₃⟩ := holds_set h₂ (repaired sys r) "pid" (.int 0)
        (by simp [repaired, isDead, hs, hp, members])
        (by simp [repaired, isDead, hs, hp, members])
      refine ⟨j₃, ?_, h₃, fun hd => ?_⟩
      · simp [hs, holds_pid h, hp, isDead, hj₁, hj₂, hj₃, -Int64.toInt_toInt32]
      · simp [isDead, hs, hp] at hd
  · refine ⟨j, ?_, ?_, fun _ => rfl⟩
    · simp [toInt_eq_running, hs, isDead]
    · simpa [repaired, isDead, hs] using h

/-! ### The loops -/

variable {rs : List Record} {l : List Json}

lemma lookupLoop_spec (h : List.Forall₂ Record.Holds rs l) (sys : Sys) (value : Str) :
    ∃ l' record dead, lookupLoop sys value l = some (l', record, dead) ∧
      record.mapM packContainerInfo = some ((found sys value rs).map Record.info) ∧
      List.Forall₂ Record.Holds (lookedUp sys value rs) l' ∧ (dead = false → l' = l) := by
  induction h with
  | nil => exact ⟨[], none, false, rfl, rfl, .nil, fun _ => rfl⟩
  | @cons r j rs l h hl ih =>
    unfold lookupLoop
    rw [matchesRecord_spec h]
    rcases hh : hits value r with _ | _
    · obtain ⟨l', record, dead, hrun, hpack, hl', hsame⟩ := ih
      refine ⟨j :: l', record, dead, ?_, ?_, ?_, fun hd => by rw [hsame hd]⟩
      · simp [hrun]
      · simpa [found, hh] using hpack
      · simpa [lookedUp, updateFirst, hh] using ⟨h, hl'⟩
    · obtain ⟨j', hrun, hj', hsame⟩ := repair_spec h sys
      refine ⟨j' :: l, some j', isDead sys r, ?_, ?_, ?_, fun hd => by rw [hsame hd]⟩
      · simp [hrun]
      · simp [found, hh, pack_spec hj']
      · simpa [lookedUp, updateFirst, hh] using ⟨hj', hl⟩

lemma updateLoop_spec (h : List.Forall₂ Record.Holds rs l) (info : ContainerInfo) :
    ∃ l', updateLoop info l = some l' ∧ List.Forall₂ Record.Holds (updated info rs) l' := by
  induction h with
  | nil => exact ⟨[], rfl, .nil⟩
  | @cons r j rs l h hl ih =>
    unfold updateLoop
    rw [holds_id h]
    by_cases hid : r.id = info.id
    · obtain ⟨j', hrun, hj', -⟩ := dePack_spec h.isRecord info
      refine ⟨j' :: l, ?_, ?_⟩
      · simp [hid, hrun]
      · simpa [updated, updateFirst, hid] using ⟨hj', hl⟩
    · obtain ⟨l', hrun, hl'⟩ := ih
      refine ⟨j :: l', ?_, ?_⟩
      · simp [hid, hrun]
      · simpa [updated, updateFirst, hid] using ⟨h, hl'⟩

lemma findLoop_spec (h : List.Forall₂ Record.Holds rs l) {key : String} {g : Record → Str}
    (hg : ∀ {r j}, Record.Holds r j → j.demand key = some (.str (g r), j)) (value : Str) :
    findLoop key value l = some ((rs.find? fun r => g r = value).map Record.info) := by
  induction h with
  | nil => rfl
  | @cons r j rs l h hl ih =>
    unfold findLoop
    rw [hg h]
    by_cases hv : g r = value
    · simp [hv, pack_spec h]
    · simp [hv, ih]

/-- The array that `root` has become after some records were appended to null. -/
def rootOf (l : List Json) : Json := if l = [] then .null else .arr l

lemma append_rootOf (l : List Json) (j : Json) :
    (rootOf l).append j = some (rootOf (l ++ [j])) := by
  unfold rootOf
  split_ifs with h1 h2 <;> simp_all [Json.append]

lemma deleteLoop_spec (h : List.Forall₂ Record.Holds rs l) (info : ContainerInfo)
    (kept : List Json) :
    ∃ l', deleteLoop (some info) l (rootOf kept) = some (rootOf (kept ++ l')) ∧
      List.Forall₂ Record.Holds (rs.filter fun r => r.id ≠ info.id) l' := by
  induction h generalizing kept with
  | nil => exact ⟨[], by simp [deleteLoop], .nil⟩
  | @cons r j rs l h hl ih =>
    unfold deleteLoop
    rw [holds_id h]
    by_cases hid : r.id = info.id
    · obtain ⟨l', hrun, hl'⟩ := ih kept
      exact ⟨l', by simp [hid, hrun], by simpa [hid] using hl'⟩
    · obtain ⟨l', hrun, hl'⟩ := ih (kept ++ [j])
      refine ⟨j :: l', by simp [hid, append_rootOf, hrun], ?_⟩
      rw [List.filter_cons_of_pos (by simpa using hid)]
      exact .cons h hl'

lemma represents_rootOf (h : List.Forall₂ Record.Holds rs l) :
    Represents (.parsed (rootOf l)) rs := by
  unfold rootOf
  split_ifs with hl
  · subst hl
    cases h
    exact .null
  · exact .arr h

lemma mapM_pack (h : List.Forall₂ Record.Holds rs l) :
    l.mapM packContainerInfo = some (rs.map Record.info) := by
  induction h with
  | nil => rfl
  | cons h hl ih => rw [List.mapM_cons, pack_spec h, ih]; rfl

/-! ### The operations -/

variable {file : DataFile}

lemma Represents.root_append (h : Represents file rs) (hj : r.Holds j) :
    ∃ root, file.root.append j = some root ∧ Represents (.parsed root) (rs ++ [r]) := by
  cases h with
  | missing => exact ⟨_, rfl, .arr (by simpa using hj)⟩
  | empty => exact ⟨_, rfl, .arr (by simpa using hj)⟩
  | null => exact ⟨_, rfl, .arr (by simpa using hj)⟩
  | arr h => exact ⟨_, rfl, .arr (List.rel_append h (by simpa using hj))⟩

/-- **insert** appends a record. -/
theorem insert_run (h : Represents file rs) (info : ContainerInfo) :
    ∃ file', (ContainerDao.insert info).run file = (file', some ()) ∧
      Represents file' (rs ++ [info.record]) := by
  obtain ⟨j, hw, hj, -⟩ := dePack_spec (j := .null) trivial info
  obtain ⟨root, hroot, hrep⟩ := h.root_append hj
  refine ⟨.parsed root, ?_, hrep⟩
  simp [ContainerDao.insert, run_bind, hw, hroot]

/-- Where the file holds no record, it is missing, does not parse, or has size zero. -/
lemma Represents.cases_nil (h : Represents file rs) :
    (rs = [] ∧ (file.parses = false ∨ file.root.size = 0)) ∨
      ∃ l, file = .parsed (.arr l) ∧ l ≠ [] ∧ List.Forall₂ Record.Holds rs l := by
  cases h with
  | missing => exact Or.inl ⟨rfl, Or.inl rfl⟩
  | empty => exact Or.inl ⟨rfl, Or.inl rfl⟩
  | null => exact Or.inl ⟨rfl, Or.inr rfl⟩
  | @arr l rs h =>
    cases h with
    | nil => exact Or.inl ⟨rfl, Or.inr rfl⟩
    | cons h hl => exact Or.inr ⟨_, rfl, by simp, .cons h hl⟩

/-- **get_container_by_id_or_name** finds the first match, and repairs it in the file when it
is dead. -/
theorem lookup_run (h : Represents file rs) (sys : Sys) (value : Str) :
    ∃ file', (getContainerByIdOrName sys value).run file =
        (file', some ((found sys value rs).map Record.info)) ∧
      Represents file' (lookedUp sys value rs) := by
  rcases h.cases_nil with ⟨rfl, hno | hno⟩ | ⟨l, rfl, hne, hl⟩
  · refine ⟨file, ?_, by simpa [lookedUp] using h⟩
    simp [getContainerByIdOrName, run_bind, hno, found]
  · refine ⟨file, ?_, by simpa [lookedUp] using h⟩
    cases hp : file.parses <;> simp [getContainerByIdOrName, run_bind, hno, hp, found]
  · obtain ⟨l', record, dead, hrun, hpack, hl', hsame⟩ := lookupLoop_spec hl sys value
    cases dead with
    | false =>
      rw [hsame rfl] at hl'
      refine ⟨_, ?_, .arr hl'⟩
      simp [getContainerByIdOrName, run_bind, DataFile.parses, DataFile.root, Json.size, hne,
        Json.elems, hrun, hpack]
    | true =>
      refine ⟨_, ?_, .arr hl'⟩
      simp [getContainerByIdOrName, run_bind, DataFile.parses, DataFile.root, Json.size, hne,
        Json.elems, hrun, hpack]

lemma getContainerBy_run (h : Represents file rs) {key : String} {g : Record → Str}
    (hg : ∀ {r j}, Record.Holds r j → j.demand key = some (.str (g r), j)) (value : Str) :
    (getContainerBy key value).run file =
      (file, some ((rs.find? fun r => g r = value).map Record.info)) := by
  rcases h.cases_nil with ⟨rfl, hno | hno⟩ | ⟨l, rfl, hne, hl⟩
  · simp [getContainerBy, run_bind, hno]
  · cases hp : file.parses <;> simp [getContainerBy, run_bind, hno, hp]
  · simp [getContainerBy, run_bind, DataFile.parses, DataFile.root, Json.size, hne, Json.elems,
      findLoop_spec hl hg]

theorem getContainerById_run (h : Represents file rs) (value : Str) :
    (getContainerById value).run file =
      (file, some ((rs.find? fun r => r.id = value).map Record.info)) :=
  getContainerBy_run h (fun h => holds_id h) value

theorem getContainerByName_run (h : Represents file rs) (value : Str) :
    (getContainerByName value).run file =
      (file, some ((rs.find? fun r => r.name = value).map Record.info)) :=
  getContainerBy_run h (fun h => holds_name h) value

/-- **list** gives all records, or nothing where there are none. -/
theorem list_run (h : Represents file rs) :
    ContainerDao.list.run file =
      (file, some (if rs = [] then none else some (rs.map Record.info))) := by
  rcases h.cases_nil with ⟨rfl, hno | hno⟩ | ⟨l, rfl, hne, hl⟩
  · simp [ContainerDao.list, run_bind, hno]
  · cases hp : file.parses <;> simp [ContainerDao.list, run_bind, hno, hp]
  · have hrs : rs ≠ [] := by
      rintro rfl
      exact hne (List.forall₂_nil_left_iff.mp hl)
    simp [ContainerDao.list, run_bind, DataFile.parses, DataFile.root, Json.size, hne,
      Json.elems, mapM_pack hl, hrs]

/-- **update** writes over the first record with the id. On a file without records it inserts
the record and then writes back what it has read, so there still is none. -/
theorem update_run (h : Represents file rs) (info : ContainerInfo) :
    ∃ file', (update info).run file = (file', some ()) ∧ Represents file' (updated info rs) := by
  cases h with
  | missing =>
    obtain ⟨f₁, hf₁, h₁⟩ := insert_run .missing info
    obtain ⟨f₂, hf₂, h₂⟩ := insert_run h₁ info
    obtain ⟨f₃, hf₃, -⟩ := insert_run h₂ info
    refine ⟨.parsed .null, ?_, .null⟩
    simp [update, run_bind, DataFile.isMissing, DataFile.parses, DataFile.root, Json.size, hf₁,
      hf₂, hf₃]
  | empty =>
    obtain ⟨f₁, hf₁, h₁⟩ := insert_run .empty info
    obtain ⟨f₂, hf₂, -⟩ := insert_run h₁ info
    refine ⟨.parsed .null, ?_, .null⟩
    simp [update, run_bind, DataFile.isMissing, DataFile.parses, DataFile.root, Json.size, hf₁,
      hf₂]
  | null =>
    obtain ⟨f₁, hf₁, -⟩ := insert_run .null info
    refine ⟨.parsed .null, ?_, .null⟩
    simp [update, run_bind, DataFile.isMissing, DataFile.parses, DataFile.root, Json.size, hf₁]
  | @arr l rs hl =>
    cases hl with
    | nil =>
      obtain ⟨f₁, hf₁, -⟩ := insert_run (.arr .nil) info
      refine ⟨.parsed (.arr []), ?_, .arr .nil⟩
      simp [update, run_bind, DataFile.isMissing, DataFile.parses, DataFile.root, Json.size, hf₁]
    | cons h hl =>
      obtain ⟨l', hrun, hl'⟩ := updateLoop_spec (.cons h hl) info
      refine ⟨_, ?_, .arr hl'⟩
      simp [update, run_bind, DataFile.isMissing, DataFile.parses, DataFile.root, Json.size,
        Json.elems, hrun]

lemma found_eq_none_iff {sys : Sys} {value : Str} :
    found sys value rs = none ↔ ∀ r ∈ rs, hits value r = false := by
  simp [found]

lemma lookedUp_of_none {sys : Sys} {value : Str} (h : found sys value rs = none) :
    lookedUp sys value rs = rs :=
  updateFirst_eq_self fun r hr hh => by
    rw [found_eq_none_iff.mp h r hr] at hh
    exact absurd hh (by simp)

lemma lookedUp_eq_nil_iff {sys : Sys} {value : Str} :
    lookedUp sys value rs = [] ↔ rs = [] :=
  updateFirst_eq_nil_iff

/-- The records after `change_status_to_stop` has found `r`. -/
def stopped (sys : Sys) (now : Int64) (value : Str) (r : Record) (rs : List Record) :
    List Record :=
  updated (r.info.stopedAt now) (lookedUp sys value rs)

/-- The records after `delete_by_id` has found `r`. -/
def deleted (sys : Sys) (value : Str) (r : Record) (rs : List Record) : List Record :=
  (lookedUp sys value rs).filter fun x => x.id ≠ r.id

/-- **delete_by_id** on a container that is there. -/
theorem deleteById_run (h : Represents file rs) {sys : Sys} {value : Str} {r : Record}
    (hr : found sys value rs = some r) :
    ∃ file', (deleteById sys value).run file = (file', some ()) ∧
      Represents file' (deleted sys value r rs) := by
  obtain ⟨f₁, hf₁, h₁⟩ := lookup_run h sys value
  rw [hr] at hf₁
  rcases h₁.cases_nil with ⟨hnil, -⟩ | ⟨l, rfl, hne, hl⟩
  · rw [lookedUp_eq_nil_iff] at hnil
    subst hnil
    simp [found] at hr
  · obtain ⟨l', hrun, hl'⟩ := deleteLoop_spec hl r.info []
    refine ⟨_, ?_, represents_rootOf hl'⟩
    have hloop : deleteLoop (some r.info) l .null = some (rootOf l') := hrun
    simp [deleteById, run_bind, hf₁, DataFile.parses, DataFile.root, Json.size, hne, Json.elems,
      hloop]

/-- **delete_by_id** on a container that is not there dies at the first record there is; the
file stays as it is. -/
theorem deleteById_run_none (h : Represents file rs) {sys : Sys} {value : Str}
    (hr : found sys value rs = none) :
    ∃ file' res, (deleteById sys value).run file = (file', res) ∧ Represents file' rs := by
  obtain ⟨f₁, hf₁, h₁⟩ := lookup_run h sys value
  rw [hr] at hf₁
  rw [lookedUp_of_none hr] at h₁
  rcases h₁.cases_nil with ⟨rfl, hno | hno⟩ | ⟨l, rfl, hne, hl⟩
  · exact ⟨f₁, some (), by simp [deleteById, run_bind, hf₁, hno], h₁⟩
  · refine ⟨f₁, some (), ?_, h₁⟩
    cases hp : f₁.parses <;> simp [deleteById, run_bind, hf₁, hno, hp]
  · refine ⟨_, none, ?_, h₁⟩
    have hloop : deleteLoop none l .null = none := by
      cases hl with
      | nil => exact absurd rfl hne
      | cons hj _ =>
        unfold deleteLoop
        rw [holds_id hj]
        simp
    simp [deleteById, run_bind, hf₁, DataFile.parses, DataFile.root, Json.size, hne, Json.elems,
      hloop]

end Hoststack.Store
