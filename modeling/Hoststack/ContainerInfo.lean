import Hoststack.Json
import Hoststack.Lib.OrdSet
import Mathlib.Data.Char
import Mathlib.Data.List.Lex

/-!
The record of a container, and the two conversions between it and the JSON the data file
keeps it in. The conversion from JSON does not read two of the members the other one writes,
the start and the stop time, so a record that goes through both loses them.
-/

namespace Hoststack

inductive ContainerStatus
  | running
  | stoped
  deriving DecidableEq

/-- The number an enumerator is stored as. -/
def ContainerStatus.toInt : ContainerStatus → Int32
  | .running => 0
  | .stoped => 1

/-- The cast of a number to the enumeration, defined for its two values. -/
def ContainerStatus.ofInt (n : Int32) : Option ContainerStatus :=
  if n = 0 then some .running else if n = 1 then some .stoped else none

@[simp] lemma ContainerStatus.ofInt_toInt (s : ContainerStatus) : ofInt s.toInt = some s := by
  cases s <;> rfl

structure ContainerInfo where
  pid : Int32
  id : Str
  name : Str
  command : Str
  createTime : Int64
  startTime : Int64
  stopTime : Int64
  status : ContainerStatus
  abnormalStoped : Int32
  volumeList : OrdSet Str
  deriving DecidableEq

namespace ContainerInfo

/-- The array of volumes, which stays null when there are none. -/
def volumeJson (volumes : OrdSet Str) : Option Json :=
  volumes.elems.foldlM (fun volume v => volume.append (.str v)) .null

/-- The members `de_pack_container_info` sets, in order. -/
def fields (info : ContainerInfo) (volume : Json) : List (String × Json) :=
  [("id", .str info.id),
   ("name", .str info.name),
   ("pid", .int info.pid.toInt),
   ("command", .str info.command),
   ("create_time", .int info.createTime.toInt32.toInt),
   ("start_time", .int info.startTime.toInt32.toInt),
   ("stop_time", .int info.stopTime.toInt32.toInt),
   ("status", .int info.status.toInt.toInt),
   ("abnormal_stoped", .int info.abnormalStoped.toInt),
   ("volume", volume)]

def dePackContainerInfo (jsonData : Json) (info : ContainerInfo) : Option Json := do
  let volume ← volumeJson info.volumeList
  jsonData.setAll (info.fields volume)

/-- The strings of an array, read by position up to its size. -/
def volumeStrings (volume : Json) : Option (List Str) :=
  if volume.size = 0 then some []
  else do (← volume.elems).mapM Json.asString

def packContainerInfo (jsonData : Json) : Option ContainerInfo := do
  let id ← (← jsonData.member "id").asString
  let name ← (← jsonData.member "name").asString
  let pid ← (← jsonData.member "pid").asInt
  let command ← (← jsonData.member "command").asString
  let volumes ← volumeStrings (← jsonData.member "volume")
  let createTime ← (← jsonData.member "create_time").asInt
  let status ← ContainerStatus.ofInt (← (← jsonData.member "status").asInt)
  let abnormalStoped ← (← jsonData.member "abnormal_stoped").asInt
  some
    { pid, id, name, command, status, abnormalStoped
      createTime := createTime.toInt64
      startTime := 0
      stopTime := 0
      volumeList := OrdSet.ofList volumes }

/-- What `change_status_to_stop` makes of the record it has looked up. -/
def stopedAt (info : ContainerInfo) (now : Int64) : ContainerInfo :=
  { info with status := .stoped, abnormalStoped := 0, stopTime := now, pid := 0 }

/-- What the callback of `start` makes of the record it has looked up. -/
def restartedAs (info : ContainerInfo) (pid : Int32) (now : Int64) : ContainerInfo :=
  { info with pid := pid, startTime := now, status := .running, abnormalStoped := 1 }

end ContainerInfo

/-! ### Stored records -/

/-- The record as the data file keeps it: the times are of type `int` there. -/
structure Record where
  pid : Int32
  id : Str
  name : Str
  command : Str
  createTime : Int32
  startTime : Int32
  stopTime : Int32
  status : ContainerStatus
  abnormalStoped : Int32
  volumes : OrdSet Str
  deriving DecidableEq

/-- What is stored for `info`. -/
def ContainerInfo.record (info : ContainerInfo) : Record where
  pid := info.pid
  id := info.id
  name := info.name
  command := info.command
  createTime := info.createTime.toInt32
  startTime := info.startTime.toInt32
  stopTime := info.stopTime.toInt32
  status := info.status
  abnormalStoped := info.abnormalStoped
  volumes := info.volumeList

namespace Record

/-- What is read back of a stored record. -/
def info (r : Record) : ContainerInfo where
  pid := r.pid
  id := r.id
  name := r.name
  command := r.command
  createTime := r.createTime.toInt64
  startTime := 0
  stopTime := 0
  status := r.status
  abnormalStoped := r.abnormalStoped
  volumeList := r.volumes

/-- The JSON of a list of volumes. -/
def volumesJson (l : List Str) : Json := if l = [] then .null else .arr (l.map .str)

/-- The members of the object a record is stored as. -/
def members (r : Record) : List (String × Json) :=
  [("id", .str r.id),
   ("name", .str r.name),
   ("pid", .int r.pid.toInt),
   ("command", .str r.command),
   ("create_time", .int r.createTime.toInt),
   ("start_time", .int r.startTime.toInt),
   ("stop_time", .int r.stopTime.toInt),
   ("status", .int r.status.toInt.toInt),
   ("abnormal_stoped", .int r.abnormalStoped.toInt),
   ("volume", volumesJson r.volumes.elems)]

/-- The object holds the members of the record, and possibly others. -/
def Holds (r : Record) (jsonData : Json) : Prop :=
  ∃ m, jsonData = .obj m ∧ ∀ f ∈ r.members, m.lookup f.1 = some f.2

lemma nodup_members (r : Record) : (r.members.map Prod.fst).Nodup := by
  simp [members]

variable {r : Record} {j : Json}

lemma Holds.isRecord (h : r.Holds j) : j.IsRecord := by
  obtain ⟨m, rfl, -⟩ := h
  trivial

lemma Holds.demand (h : r.Holds j) {key : String} {v : Json} (hm : (key, v) ∈ r.members) :
    j.demand key = some (v, j) := by
  obtain ⟨m, rfl, hl⟩ := h
  exact Json.demand_of_lookup (hl _ hm)

lemma Holds.member (h : r.Holds j) {key : String} {v : Json} (hm : (key, v) ∈ r.members) :
    j.member key = some v := by
  obtain ⟨m, rfl, hl⟩ := h
  exact Json.member_of_lookup (hl _ hm)

end Record

open ContainerInfo Record

variable {j : Json}

lemma foldlM_append (l : List Str) (a : List Json) :
    l.foldlM (fun volume v => volume.append (.str v)) (Json.arr a) =
      some (.arr (a ++ l.map Json.str)) := by
  induction l generalizing a with
  | nil => simp
  | cons v l ih =>
    rw [List.foldlM_cons]
    refine (ih (a ++ [.str v])).trans ?_
    simp

lemma volumeJson_eq (volumes : OrdSet Str) :
    volumeJson volumes = some (volumesJson volumes.elems) := by
  unfold volumeJson volumesJson
  rcases volumes.elems with _ | ⟨v, l⟩
  · rfl
  · rw [List.foldlM_cons]
    exact foldlM_append l [.str v]

lemma mapM_asString (l : List Str) : (l.map Json.str).mapM Json.asString = some l := by
  induction l with
  | nil => rfl
  | cons v l ih => rw [List.map_cons, List.mapM_cons, ih]; rfl

lemma volumeStrings_volumesJson (l : List Str) : volumeStrings (volumesJson l) = some l := by
  unfold volumesJson volumeStrings
  split_ifs with h1 h2 h2
  · rw [h1]
  · simp [Json.size] at h2
  · simp [Json.size, h1] at h2
  · exact mapM_asString l

/-- **Writing**: the object holds the record of `info` afterwards, and its other members are
those it had. -/
theorem dePack_spec (hj : j.IsRecord) (info : ContainerInfo) :
    ∃ j', dePackContainerInfo j info = some j' ∧ info.record.Holds j' ∧
      ∀ key ∉ info.record.members.map Prod.fst, j'.member key = j.member key := by
  have hrun : dePackContainerInfo j info = j.setAll info.record.members := by
    unfold dePackContainerInfo
    rw [volumeJson_eq]; rfl
  obtain ⟨m, hm, hget, hframe⟩ :=
    Json.setAll_spec hj info.record.members (by simp [members])
      info.record.nodup_members
  exact ⟨.obj m, hrun.trans hm, ⟨m, rfl, hget⟩, hframe⟩

/-- **Reading**: all of a stored record comes back except its start and stop time. -/
theorem pack_spec {r : Record} (h : r.Holds j) : packContainerInfo j = some r.info := by
  have hid : j.member "id" = some (.str r.id) := h.member (by simp [members])
  have hname : j.member "name" = some (.str r.name) := h.member (by simp [members])
  have hpid : j.member "pid" = some (.int r.pid.toInt) := h.member (by simp [members])
  have hcommand : j.member "command" = some (.str r.command) := h.member (by simp [members])
  have hvolume : j.member "volume" = some (volumesJson r.volumes.elems) :=
    h.member (by simp [members])
  have hcreate : j.member "create_time" = some (.int r.createTime.toInt) :=
    h.member (by simp [members])
  have hstatus : j.member "status" = some (.int r.status.toInt.toInt) :=
    h.member (by simp [members])
  have habnormal : j.member "abnormal_stoped" = some (.int r.abnormalStoped.toInt) :=
    h.member (by simp [members])
  unfold packContainerInfo
  rw [hid, hname, hpid, hcommand, hvolume, hcreate, hstatus, habnormal]
  simp [volumeStrings_volumesJson, info]

/-! ### The round trip -/

/-- The time is a value of type `int`. -/
def FitsInt (t : Int64) : Prop := -2 ^ 31 ≤ t.toInt ∧ t.toInt < 2 ^ 31

instance (t : Int64) : Decidable (FitsInt t) := inferInstanceAs (Decidable (_ ∧ _))

lemma FitsInt.toInt64 {t : Int64} (h : FitsInt t) : t.toInt32.toInt64 = t := by
  apply Int64.toInt_inj.mp
  rw [Int32.toInt_toInt64, Int64.toInt_toInt32]
  unfold FitsInt at h
  rw [Int.bmod_eq_of_le] <;> omega

/-- `pack_container_info(de_pack_container_info(jsonData, info))` -/
def roundTrip (jsonData : Json) (info : ContainerInfo) : Option ContainerInfo := do
  packContainerInfo (← dePackContainerInfo jsonData info)

/-- Read a record, change it, and write it over the object it was read from. -/
def rewriteRecord (f : ContainerInfo → ContainerInfo) (jsonData : Json) : Option Json := do
  dePackContainerInfo jsonData (f (← packContainerInfo jsonData))

/-- The result is there and has every member of `j` outside `keys` as it was. -/
def ChangesOnly (keys : List String) (j : Json) (result : Option Json) : Prop :=
  ∃ j', result = some j' ∧ ∀ key ∉ keys, j'.member key = j.member key

lemma roundTrip_eq (hj : j.IsRecord) (info : ContainerInfo) :
    roundTrip j info = some info.record.info := by
  obtain ⟨j', hw, hh, -⟩ := dePack_spec hj info
  unfold roundTrip
  rw [hw]
  exact pack_spec hh

/-- What survives the round trip: a record comes back whole exactly when it has no start
and no stop time to lose. -/
lemma roundTrip_eq_self_iff (hj : j.IsRecord) {info : ContainerInfo}
    (hc : FitsInt info.createTime) :
    roundTrip j info = some info ↔ info.startTime = 0 ∧ info.stopTime = 0 := by
  rw [roundTrip_eq hj]
  obtain ⟨pid, id, name, command, create, start, stop, status, abnormal, volumes⟩ := info
  simp only [record, Record.info, hc.toInt64, Option.some.injEq, ContainerInfo.mk.injEq,
    true_and, and_true]
  exact and_congr eq_comm eq_comm

lemma rewrite_spec {r : Record} (h : r.Holds j) (f : ContainerInfo → ContainerInfo) :
    ∃ j', rewriteRecord f j = some j' ∧ (f r.info).record.Holds j' ∧
      ∀ key ∉ (f r.info).record.members.map Prod.fst, j'.member key = j.member key := by
  obtain ⟨j', hw, hh, hframe⟩ := dePack_spec h.isRecord (f r.info)
  refine ⟨j', ?_, hh, hframe⟩
  unfold rewriteRecord
  rw [pack_spec h]
  exact hw

lemma keys_members (r r' : Record) : r.members.map Prod.fst = r'.members.map Prod.fst := by
  simp [members]

lemma changesOnly_rewrite_iff {r : Record} (h : r.Holds j) (f : ContainerInfo → ContainerInfo)
    (keys : List String) :
    ChangesOnly keys j (rewriteRecord f j) ↔
      ∀ m ∈ (f r.info).record.members, m.1 ∉ keys → m ∈ r.members := by
  obtain ⟨j', hw, hh, hframe⟩ := rewrite_spec h f
  have hkeys := keys_members (f r.info).record r
  rw [hw]
  constructor
  · rintro ⟨j₁, hj₁, hsame⟩ ⟨key, v⟩ hm hkey
    cases hj₁
    have hmem : key ∈ r.members.map Prod.fst := hkeys ▸ List.mem_map_of_mem (f := Prod.fst) hm
    obtain ⟨⟨k, v'⟩, hm', rfl⟩ := List.mem_map.mp hmem
    have hv := hsame k hkey
    rw [hh.member hm, h.member hm'] at hv
    cases hv
    exact hm'
  · intro hall
    refine ⟨j', rfl, fun key hkey => ?_⟩
    by_cases hmem : key ∈ (f r.info).record.members.map Prod.fst
    · obtain ⟨⟨k, v⟩, hm, rfl⟩ := List.mem_map.mp hmem
      rw [hh.member hm, h.member (hall _ hm hkey)]
    · exact hframe key hmem

lemma toInt_eq_zero {n : Int32} : (0 : ℤ) = n.toInt ↔ n = 0 := by
  rw [← Int32.toInt_zero, Int32.toInt_inj, eq_comm]

lemma stop_changesOnly_iff {r : Record} (h : r.Holds j) (now : Int64) :
    ChangesOnly ["status", "abnormal_stoped", "stop_time", "pid"] j
      (rewriteRecord (fun info => info.stopedAt now) j) ↔ r.startTime = 0 := by
  rw [changesOnly_rewrite_iff h]
  simp [members, record, Record.info, stopedAt, toInt_eq_zero]

lemma start_changesOnly_iff {r : Record} (h : r.Holds j) (pid : Int32) (now : Int64) :
    ChangesOnly ["pid", "start_time", "status", "abnormal_stoped"] j
      (rewriteRecord (fun info => info.restartedAs pid now) j) ↔ r.stopTime = 0 := by
  rw [changesOnly_rewrite_iff h]
  simp [members, record, Record.info, restartedAs, toInt_eq_zero]

/-- **Record round trip**: reading back what was written gives the whole record exactly when
its start and stop time are zero; stopping a stored record changes nothing but its status,
crash flag, stop time and pid exactly when its start time is zero, and starting it changes
nothing but its pid, start time, status and crash flag exactly when its stop time is. -/
theorem record_round_trip (j : Json) (info : ContainerInfo) (r : Record) (pid : Int32)
    (now : Int64) :
    (j.IsRecord → FitsInt info.createTime → FitsInt info.startTime → FitsInt info.stopTime →
      (roundTrip j info = some info ↔ info.startTime = 0 ∧ info.stopTime = 0)) ∧
    (r.Holds j →
      (ChangesOnly ["status", "abnormal_stoped", "stop_time", "pid"] j
        (rewriteRecord (fun info => info.stopedAt now) j) ↔ r.startTime = 0)) ∧
    (r.Holds j →
      (ChangesOnly ["pid", "start_time", "status", "abnormal_stoped"] j
        (rewriteRecord (fun info => info.restartedAs pid now) j) ↔ r.stopTime = 0)) :=
  ⟨fun hj hc _ _ => roundTrip_eq_self_iff hj hc, fun h => stop_changesOnly_iff h now,
    fun h => start_changesOnly_iff h pid now⟩

/-- A container as `run` records it. -/
def ranInfo : ContainerInfo where
  pid := 4711
  id := "c1".toList
  name := "web".toList
  command := "/bin/sh".toList
  createTime := 1700000000
  startTime := 1700000000
  stopTime := 0
  status := .running
  abnormalStoped := 1
  volumeList := OrdSet.ofList ["/srv:/app".toList]

/-- The start time of a running container does not survive. -/
theorem round_trip_loses_start :
    FitsInt ranInfo.createTime ∧ FitsInt ranInfo.startTime ∧ FitsInt ranInfo.stopTime ∧
      roundTrip .null ranInfo = some { ranInfo with startTime := 0 } ∧
      roundTrip .null ranInfo ≠ some ranInfo := by
  decide

lemma Record.holds_members (r : Record) : r.Holds (.obj r.members) :=
  ⟨_, rfl, fun f hf => by
    simp only [members, List.mem_cons, List.not_mem_nil, or_false] at hf
    rcases hf with rfl | rfl | rfl | rfl | rfl | rfl | rfl | rfl | rfl | rfl <;>
      simp [members, List.lookup_cons]⟩

theorem record_round_trip_unstarted :
    roundTrip .null { ranInfo with startTime := 0 } = some { ranInfo with startTime := 0 } ∧
    ChangesOnly ["pid", "start_time", "status", "abnormal_stoped"] (.obj ranInfo.record.members)
      (rewriteRecord (fun info => info.restartedAs 4712 1700000060)
        (.obj ranInfo.record.members)) ∧
    ¬ ChangesOnly ["status", "abnormal_stoped", "stop_time", "pid"]
      (.obj ranInfo.record.members)
      (rewriteRecord (fun info => info.stopedAt 1700000060) (.obj ranInfo.record.members)) :=
  ⟨((record_round_trip .null { ranInfo with startTime := 0 } ranInfo.record 0 0).1 trivial
      (by decide) (by decide) (by decide)).mpr ⟨rfl, rfl⟩,
    ((record_round_trip _ ranInfo ranInfo.record 4712 1700000060).2.2 (holds_members _)).mpr
      (by decide),
    fun h => absurd (((record_round_trip _ ranInfo ranInfo.record 0 1700000060).2.1
      (holds_members _)).mp h) (by decide)⟩

end Hoststack
