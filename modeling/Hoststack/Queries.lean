import Hoststack.Commands
import Hoststack.FileIds

/-!
What a query does to the containers that the supervisor restarts.

The supervisor scans all records and looks a crashed container up again some seconds later; it
restarts the container if its record is running both times. Of the lookups only
`get_container_by_id_or_name` marks a crashed container as stopped, and the commands start with
it.
-/

namespace Hoststack.Queries

open Cell Cell.Prog ContainerDao Store StoreInv Commands

/-! ### What the supervisor sees -/

/-- The container is marked running and there is no `/proc/<pid>`. -/
def crashed (proc : Int32 → Bool) (info : ContainerInfo) : Bool :=
  info.status = .running && !proc info.pid

/-- The scan loop starts `run_checkandrestart` for the container. -/
def scanned (proc : Int32 → Bool) (file : DataFile) (id : Str) : Bool :=
  match (ContainerDao.list.run file).2 with
  | some (some infos) => infos.any fun info => info.id = id && crashed proc info
  | _ => false

/-- `run_checkandrestart` goes on to stop the container and to start it again. -/
def rechecked (proc : Int32 → Bool) (file : DataFile) (id : Str) : Bool :=
  match ((getContainerById id).run file).2 with
  | some (some info) => crashed proc info
  | _ => false

/-- The supervisor restarts the container. -/
def restarts (proc : Int32 → Bool) (file : DataFile) (id : Str) : Bool :=
  scanned proc file id && rechecked proc file id

variable {file : DataFile}

lemma runCheckandrestart_of_rechecked {proc : Int32 → Bool} {id : Str}
    (h : rechecked proc file id) (sysStop : Sys) (now : Int64) (sysStart : Sys)
    (pid : Option Int32) (startTime : Int64) :
    ∃ info, ((getContainerById id).run file).2 = some (some info) ∧
      (runCheckandrestart proc sysStop now sysStart pid startTime id).run file =
        (changeStatusToStop sysStop now info.id >>= fun _ =>
          start sysStart info.id pid startTime).run file := by
  unfold rechecked at h
  rcases hrun : (getContainerById id).run file with ⟨file', _ | _ | info⟩
  · rw [hrun] at h
    cases h
  · rw [hrun] at h
    cases h
  · rw [hrun] at h
    obtain rfl : file' = file := (FileIds.getContainerById_ids hrun).1
    have hgo : (decide (info.status = .running) && !proc info.pid) = true := h
    refine ⟨info, rfl, ?_⟩
    unfold runCheckandrestart
    rw [run_bind_some hrun, ofOption_some, pure_bind, hgo, if_pos rfl]

lemma runCheckandrestart_of_not_rechecked {proc : Int32 → Bool} {id : Str}
    (h : rechecked proc file id = false) (sysStop : Sys) (now : Int64) (sysStart : Sys)
    (pid : Option Int32) (startTime : Int64) :
    (runCheckandrestart proc sysStop now sysStart pid startTime id).exec file = file := by
  unfold rechecked at h
  unfold exec runCheckandrestart
  rcases hrun : (getContainerById id).run file with ⟨file', _ | _ | info⟩
  · rw [run_bind_none hrun]
    exact (FileIds.getContainerById_ids hrun).1
  · rw [run_bind_some hrun]
    exact (FileIds.getContainerById_ids hrun).1
  · rw [hrun] at h
    obtain rfl : file' = file := (FileIds.getContainerById_ids hrun).1
    have hgo : (decide (info.status = .running) && !proc info.pid) = false := h
    rw [run_bind_some hrun, ofOption_some, pure_bind, hgo]
    rfl

/-! ### Commands that end in an error message -/

inductive Command where
  | attach
  | exec
  | stop
  /-- `rm` without force -/
  | rm (sysStop sysDelete : Sys) (removed : Bool)

/-- A command, what the system answers to its lookup, and the string it is given. -/
structure Query where
  command : Command
  sys : Sys
  name : Str

def Query.event (q : Query) : Event :=
  match q.command with
  | .attach => .attach q.sys q.name
  | .exec => .exec q.sys q.name
  | .stop => .stop q.sys q.name
  | .rm sysStop sysDelete removed => .rm false q.sys sysStop sysDelete removed q.name

/-- `rm` ends without having removed a container. The other commands do to the file what they
do in any case. -/
def Query.Fails (q : Query) (file : DataFile) : Prop :=
  match q.command with
  | .rm .. => (q.event.program.run file).2 = some none
  | _ => True

/-- The file after some commands. -/
def after (file : DataFile) (qs : List Query) : DataFile :=
  qs.foldl (fun file q => q.event.program.exec file) file

/-- All of the commands, one after the other, end in an error message. -/
def AllFail : DataFile → List Query → Prop
  | _, [] => True
  | file, q :: qs => q.Fails file ∧ AllFail (q.event.program.exec file) qs

lemma exec_resolve (sys : Sys) (name : Str) (file : DataFile) :
    (resolve sys name).exec file = (getContainerByIdOrName sys name).exec file := by
  unfold Prog.exec resolve
  rcases hrun : (getContainerByIdOrName sys name).run file with ⟨file', _ | info⟩
  · rw [run_bind_none hrun]
  · rw [run_bind_some hrun, run_pure]

lemma exec_removeContainer {sys sysStop sysDelete : Sys} {removed : Bool} {name : Str}
    {file : DataFile}
    (h : ((removeContainer false sys sysStop sysDelete removed name).run file).2 = some none) :
    (removeContainer false sys sysStop sysDelete removed name).exec file =
      (getContainerByIdOrName sys name).exec file := by
  unfold Prog.exec removeContainer at *
  rcases hrun : (getContainerByIdOrName sys name).run file with ⟨file', _ | _ | info⟩
  · rw [run_bind_none hrun]
  · rw [run_bind_some hrun, run_pure]
  · rw [run_bind_some hrun] at h ⊢
    dsimp only at h ⊢
    by_cases hs : info.status = .running
    · simp [hs]
    · cases removed with
      | false => simp [hs]
      | true =>
        simp only [hs, if_false, if_true, run_bind] at h
        rcases hdel : (deleteById sysDelete info.id).run file' with ⟨file'', _ | _⟩
        · rw [hdel] at h
          cases h
        · rw [hdel] at h
          cases h

lemma exec_of_fails {q : Query} {file : DataFile} (h : q.Fails file) :
    q.event.program.exec file = (getContainerByIdOrName q.sys q.name).exec file := by
  obtain ⟨command, sys, name⟩ := q
  cases command with
  | attach | exec | stop => exact exec_resolve sys name file
  | rm sysStop sysDelete removed => exact exec_removeContainer h

/-! ### The records -/

variable {rs : List Record}

/-- The first record with an id is the one that `get_container_by_id` finds. -/
def firstWithId (rs : List Record) (id : Str) : Option Record := rs.find? fun r => r.id = id

lemma mem_of_firstWithId {id : Str} {r : Record} (h : firstWithId rs id = some r) : r ∈ rs :=
  List.mem_of_find?_eq_some h

lemma id_of_firstWithId {id : Str} {r : Record} (h : firstWithId rs id = some r) :
    r.id = id := by
  unfold firstWithId at h
  simpa using List.find?_some h

lemma rechecked_iff (h : Represents file rs) (proc : Int32 → Bool) (id : Str) :
    rechecked proc file id ↔ ∃ r, firstWithId rs id = some r ∧ crashed proc r.info := by
  unfold rechecked firstWithId
  rw [getContainerById_run h]
  cases rs.find? fun r => r.id = id with
  | none => simp
  | some r => simp

lemma scanned_iff (h : Represents file rs) (proc : Int32 → Bool) (id : Str) :
    scanned proc file id ↔ ∃ r ∈ rs, r.id = id ∧ crashed proc r.info := by
  unfold scanned
  rw [list_run h]
  by_cases hrs : rs = []
  · simp [hrs]
  · rw [if_neg hrs]
    dsimp only
    rw [List.any_map, List.any_eq_true]
    refine exists_congr fun r => and_congr_right fun _ => ?_
    exact (Bool.and_eq_true ..).to_iff.trans (and_congr_left' decide_eq_true_iff)

lemma restarts_iff (h : Represents file rs) (proc : Int32 → Bool) (id : Str) :
    restarts proc file id ↔ ∃ r, firstWithId rs id = some r ∧ crashed proc r.info := by
  unfold restarts
  rw [Bool.and_eq_true, scanned_iff h, rechecked_iff h]
  refine and_iff_right_of_imp ?_
  rintro ⟨r, hr, hc⟩
  exact ⟨r, mem_of_firstWithId hr, id_of_firstWithId hr, hc⟩

/-! ### One lookup -/

/-- A record as it stands after a lookup. -/
def passed (sys : Sys) (value : Str) (rs : List Record) (r : Record) : Record :=
  if rs.find? (hits value) = some r then repaired sys r else r

lemma passed_of_ne {sys : Sys} {value : Str} {r : Record}
    (h : rs.find? (hits value) ≠ some r) : passed sys value rs r = r := if_neg h

lemma passed_of_dead {sys : Sys} {value : Str} {r : Record}
    (h : rs.find? (hits value) = some r) (hd : isDead sys r) :
    (passed sys value rs r).status = .stoped := by
  unfold passed repaired
  rw [if_pos h, if_pos hd]

lemma passed_of_not_dead {sys : Sys} {value : Str} {r : Record} (h : isDead sys r = false) :
    passed sys value rs r = r := by
  have hsame : repaired sys r = r := by
    unfold repaired
    rw [if_neg (by simp [h])]
  unfold passed
  rw [hsame, ite_self]

lemma firstWithId_lookedUp (sys : Sys) (value id : Str) (rs : List Record) :
    firstWithId (lookedUp sys value rs) id =
      (firstWithId rs id).map (passed sys value rs) :=
  find?_updateFirst fun r _ => by rw [repaired_id]

lemma find?_hits_lookedUp (sys : Sys) (value value' : Str) (rs : List Record) :
    (lookedUp sys value rs).find? (hits value') =
      (rs.find? (hits value')).map (passed sys value rs) :=
  find?_updateFirst fun r _ => hits_repaired sys value' r

/-- The first record with the name or the id is not one that the supervisor restarts. -/
def Spares (sys : Sys) (value : Str) (rs : List Record) : Prop :=
  ∀ r, rs.find? (hits value) = some r → isDead sys r → firstWithId rs r.id ≠ some r

/-- A lookup that finds a container due for a restart takes it from the supervisor. -/
lemma spares_of_restarts (h : Represents file rs) {sys : Sys} {value : Str}
    (hsame : ∀ id, restarts sys.proc ((getContainerByIdOrName sys value).exec file) id =
      restarts sys.proc file id) : Spares sys value rs := by
  intro r hr hd hfirst
  obtain ⟨file', hrun, h'⟩ := lookup_run h sys value
  have hexec : (getContainerByIdOrName sys value).exec file = file' := congrArg Prod.fst hrun
  have hbefore : restarts sys.proc file r.id := (restarts_iff h _ _).mpr ⟨r, hfirst, hd⟩
  rw [← hsame, hexec, restarts_iff h', firstWithId_lookedUp, hfirst] at hbefore
  obtain ⟨r', hr', hc⟩ := hbefore
  have hst : r'.status = .stoped := by
    cases hr'
    exact passed_of_dead hr hd
  have hrunning : r'.status = .running := by
    unfold crashed at hc
    exact of_decide_eq_true (Bool.and_eq_true_iff.mp hc).1
  rw [hst] at hrunning
  cases hrunning

lemma restarts_of_spares (h : Represents file rs) {sys : Sys} {value : Str}
    (hs : Spares sys value rs) (id : Str) :
    restarts sys.proc ((getContainerByIdOrName sys value).exec file) id =
      restarts sys.proc file id := by
  obtain ⟨file', hrun, h'⟩ := lookup_run h sys value
  have hexec : (getContainerByIdOrName sys value).exec file = file' := congrArg Prod.fst hrun
  have hfirst : firstWithId (lookedUp sys value rs) id = firstWithId rs id := by
    rw [firstWithId_lookedUp]
    rcases hr : firstWithId rs id with _ | r
    · rfl
    · have hid : r.id = id := id_of_firstWithId hr
      have hkept : passed sys value rs r = r := by
        by_cases hd : isDead sys r
        · refine passed_of_ne fun hfound => hs r hfound hd ?_
          rw [hid, hr]
        · exact passed_of_not_dead (by simpa using hd)
      rw [Option.map_some, hkept]
  rw [hexec, Bool.eq_iff_iff, restarts_iff h', restarts_iff h, hfirst]

/-! ### Many lookups -/

/-- The records after some lookups. -/
def lookups (rs : List Record) (qs : List Query) : List Record :=
  qs.foldl (fun rs q => lookedUp q.sys q.name rs) rs

lemma after_represents (h : Represents file rs) {qs : List Query} (hf : AllFail file qs) :
    Represents (after file qs) (lookups rs qs) := by
  induction qs generalizing file rs with
  | nil => exact h
  | cons q qs ih =>
    obtain ⟨hq, hqs⟩ := hf
    obtain ⟨file', hrun, h'⟩ := lookup_run h q.sys q.name
    have hexec : q.event.program.exec file = file' :=
      (exec_of_fails hq).trans (congrArg Prod.fst hrun)
    have hnext : Represents (q.event.program.exec file) (lookedUp q.sys q.name rs) := by
      rwa [hexec]
    exact ih hnext hqs

lemma allFail_append {qs₁ qs₂ : List Query} (h : AllFail file (qs₁ ++ qs₂)) :
    AllFail file qs₁ := by
  induction qs₁ generalizing file with
  | nil => trivial
  | cons q qs₁ ih => exact ⟨h.1, ih h.2⟩

lemma firstWithId_lookups_of_stoped {id : Str} {r : Record} (h : firstWithId rs id = some r)
    (hst : r.status = .stoped) (qs : List Query) : firstWithId (lookups rs qs) id = some r := by
  induction qs generalizing rs with
  | nil => exact h
  | cons q qs ih =>
    have hd : isDead q.sys r = false := by simp [isDead, hst]
    refine ih ?_
    rw [firstWithId_lookedUp, h, Option.map_some, passed_of_not_dead hd]

lemma eq_of_passed {sys : Sys} {value : Str} {x r : Record}
    (h : passed sys value rs x = r) (hr : r.status = .running) : x = r := by
  by_cases hd : isDead sys x
  · by_cases hx : rs.find? (hits value) = some x
    · have hst : r.status = .stoped := h ▸ passed_of_dead hx hd
      rw [hst] at hr
      cases hr
    · rwa [passed_of_ne hx] at h
  · rwa [passed_of_not_dead (by simpa using hd)] at h

lemma find?_hits_lookedUp_iff {sys : Sys} {value : Str} {r : Record}
    (hne : rs.find? (hits value) ≠ some r) (hr : r.status = .running) (value' : Str) :
    (lookedUp sys value rs).find? (hits value') = some r ↔
      rs.find? (hits value') = some r := by
  rw [find?_hits_lookedUp, Option.map_eq_some_iff]
  constructor
  · rintro ⟨x, hx, hpassed⟩
    rwa [eq_of_passed hpassed hr] at hx
  · intro hfound
    exact ⟨r, hfound, passed_of_ne hne⟩

/-- A crashed container over many lookups: as long as none finds it, its record stays as
it is; once one has found it, it is stopped. -/
lemma firstWithId_lookups {r : Record} (h : firstWithId rs r.id = some r)
    (hr : r.status = .running) {qs : List Query} (hd : ∀ q ∈ qs, isDead q.sys r) :
    ((∀ q ∈ qs, rs.find? (hits q.name) ≠ some r) ∧ firstWithId (lookups rs qs) r.id = some r) ∨
      ((∃ q ∈ qs, rs.find? (hits q.name) = some r) ∧
        ∃ r', firstWithId (lookups rs qs) r.id = some r' ∧ r'.status = .stoped) := by
  induction qs generalizing rs with
  | nil => exact Or.inl ⟨by simp, h⟩
  | cons q qs ih =>
    obtain ⟨hdq, hdqs⟩ := List.forall_mem_cons.mp hd
    have hnext : firstWithId (lookedUp q.sys q.name rs) r.id =
        some (passed q.sys q.name rs r) := by
      rw [firstWithId_lookedUp, h, Option.map_some]
    by_cases hq : rs.find? (hits q.name) = some r
    · have hst : (passed q.sys q.name rs r).status = .stoped := passed_of_dead hq hdq
      exact Or.inr ⟨⟨q, by simp, hq⟩, _, firstWithId_lookups_of_stoped hnext hst qs, hst⟩
    · rw [passed_of_ne hq] at hnext
      rcases ih hnext hdqs with ⟨hnone, hkept⟩ | ⟨⟨q', hmem, hfound⟩, hstoped⟩
      · refine Or.inl ⟨List.forall_mem_cons.mpr ⟨hq, fun q' hmem hfound => ?_⟩, hkept⟩
        exact hnone q' hmem ((find?_hits_lookedUp_iff hq hr q'.name).mpr hfound)
      · refine Or.inr ⟨⟨q', List.mem_cons_of_mem _ hmem, ?_⟩, hstoped⟩
        exact (find?_hits_lookedUp_iff hq hr q'.name).mp hfound

lemma rechecked_after_iff (h : Represents file rs) {qs : List Query} (hf : AllFail file qs)
    {r : Record} (hfirst : firstWithId rs r.id = some r) (hr : r.status = .running)
    (hgone : ∀ q ∈ qs, q.sys.proc r.pid = false) {proc : Int32 → Bool}
    (hproc : proc r.pid = false) :
    rechecked proc (after file qs) r.id ↔ ∀ q ∈ qs, rs.find? (hits q.name) ≠ some r := by
  have hd : ∀ q ∈ qs, isDead q.sys r := fun q hq => by simp [isDead, hr, hgone q hq]
  rw [rechecked_iff (after_represents h hf)]
  rcases firstWithId_lookups hfirst hr hd with ⟨hnone, hkept⟩ | ⟨⟨q, hmem, hfound⟩, r', hr', hst⟩
  · refine iff_of_true ⟨r, hkept, ?_⟩ hnone
    have hc : crashed proc r.info = (decide (r.status = .running) && !proc r.pid) := rfl
    simp [hc, hr, hproc]
  · refine iff_of_false ?_ fun hall => hall q hmem hfound
    rintro ⟨r'', hr'', hc⟩
    cases hr'.symm.trans hr''
    have hrunning : r'.status = .running := of_decide_eq_true (Bool.and_eq_true_iff.mp hc).1
    rw [hst] at hrunning
    cases hrunning

/-- **Queries and crash recovery**: a lookup leaves the supervisor the same containers to
restart exactly when the first record it matches is not one of them; and a crashed container is
still scanned and restarted after failed commands, the scan coming at any place among them,
exactly when none of their strings finds it. -/
theorem query_spares (h : Represents file rs) :
    (∀ sys value,
      (∀ id, restarts sys.proc ((getContainerByIdOrName sys value).exec file) id =
        restarts sys.proc file id) ↔ Spares sys value rs) ∧
    ∀ qs₁ qs₂, AllFail file (qs₁ ++ qs₂) → ∀ r, firstWithId rs r.id = some r →
      r.status = .running → (∀ q ∈ qs₁ ++ qs₂, q.sys.proc r.pid = false) →
      ∀ scan recheck : Int32 → Bool, scan r.pid = false → recheck r.pid = false →
        ((scanned scan (after file qs₁) r.id ∧ rechecked recheck (after file (qs₁ ++ qs₂)) r.id) ↔
          ∀ q ∈ qs₁ ++ qs₂, rs.find? (hits q.name) ≠ some r) := by
  refine ⟨fun sys value => ⟨spares_of_restarts h, restarts_of_spares h⟩, ?_⟩
  intro qs₁ qs₂ hf r hfirst hr hgone scan recheck hscan hrecheck
  rw [rechecked_after_iff h hf hfirst hr hgone hrecheck]
  refine and_iff_right_of_imp fun hnone => ?_
  have hf₁ : AllFail file qs₁ := allFail_append hf
  have hseen : rechecked scan (after file qs₁) r.id := by
    refine (rechecked_after_iff h hf₁ hfirst hr (fun q hq => ?_) hscan).mpr fun q hq => ?_
    · exact hgone q (List.mem_append_left _ hq)
    · exact hnone q (List.mem_append_left _ hq)
  obtain ⟨r', hr', hc⟩ := (rechecked_iff (after_represents h hf₁) _ _).mp hseen
  refine (scanned_iff (after_represents h hf₁) _ _).mpr ⟨r', ?_, ?_, hc⟩
  · exact mem_of_firstWithId hr'
  · exact id_of_firstWithId hr'

/-- A container whose process is gone. -/
def web : ContainerInfo where
  pid := 4711
  id := "c1".toList
  name := "web".toList
  command := "httpd".toList
  createTime := 1700000000
  startTime := 1700000000
  stopTime := 0
  status := .running
  abnormalStoped := 1
  volumeList := ∅

def webFile : DataFile := (ContainerDao.insert web).exec .missing

lemma webFile_represents : Represents webFile [web.record] := by
  obtain ⟨file', hrun, h⟩ := insert_run .missing web
  have hfile : webFile = file' := congrArg Prod.fst hrun
  rwa [hfile]

theorem query_spares_other :
    restarts (fun _ => false)
        ((getContainerByIdOrName ⟨fun _ => false, 1700000020⟩ "db".toList).exec webFile)
        "c1".toList =
      restarts (fun _ => false) webFile "c1".toList := by
  have hspares : Spares ⟨fun _ => false, 1700000020⟩ "db".toList [web.record] := by
    intro r hr
    cases hr
  exact ((query_spares webFile_represents).1 _ _).mpr hspares _

/-- The lookup of `attach web` takes the container from the supervisor. -/
theorem query_cancels : ¬ ∀ file rs, Represents file rs → ∀ sys value id,
    restarts sys.proc ((getContainerByIdOrName sys value).exec file) id =
      restarts sys.proc file id := by
  intro hall
  have hsame := hall webFile _ webFile_represents ⟨fun _ => false, 1700000020⟩ "web".toList
    "c1".toList
  exact absurd hsame (by decide)

end Hoststack.Queries
