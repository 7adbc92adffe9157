import Hoststack.Queries
import Hoststack.RecordMap

/-!
What the supervisor makes of the containers that have crashed.

A pass of its loop goes through all records and starts a thread for each container that is marked
running and has no process. The threads look their container up again some seconds later, in any
order; threads of earlier passes may be among them, also for the same container.
-/

namespace Hoststack.Supervisor

open Cell Cell.Prog ContainerDao Store StoreInv Commands Queries

/-- The containers that the loop over all records starts `run_checkandrestart` for. -/
def scan (alive : Int32 → Bool) (file : DataFile) : List Str :=
  match (ContainerDao.list.run file).2 with
  | some (some infos) => (infos.filter (crashed alive)).map ContainerInfo.id
  | _ => []

/-- A thread, with what the system gives it: the time of the stop, and the pid of the process it
starts and the time of that. -/
structure Check where
  id : Str
  sysStop : Sys
  now : Int64
  sysStart : Sys
  pid : Int32
  startTime : Int64

def Check.program (alive : Int32 → Bool) (c : Check) : Dao (Option Entry) :=
  runCheckandrestart alive c.sysStop c.now c.sysStart (some c.pid) c.startTime c.id

/-- The data file after the threads, one after the other. -/
def afterChecks (alive : Int32 → Bool) (file : DataFile) (cs : List Check) : DataFile :=
  cs.foldl (fun file c => (c.program alive).exec file) file

/-- The thread sees which processes there are, and the one that it starts stays alive. -/
structure Check.Sees (alive : Int32 → Bool) (c : Check) : Prop where
  stop : c.sysStop.proc = alive
  start : c.sysStart.proc = alive
  pid : 0 < c.pid ∧ alive c.pid = true

/-- A container that was started again. -/
def Check.recovered (c : Check) (r : Record) : Record :=
  { r with
    pid := c.pid
    startTime := c.startTime.toInt32
    stopTime := 0
    status := .running
    abnormalStoped := 1 }

/-- What a thread makes of a record. -/
def Check.treat (alive : Int32 → Bool) (c : Check) (r : Record) : Record :=
  if r.id = c.id ∧ crashed alive r.info then c.recovered r else r

variable {alive : Int32 → Bool} {file : DataFile} {bs : List Birth} {rs : List Record}
  {r : Record} {c : Check} {cs : List Check}

/-! ### One thread -/

@[simp] lemma birth_recovered (c : Check) (r : Record) : birth (c.recovered r) = birth r := rfl

@[simp] lemma treat_id (alive : Int32 → Bool) (c : Check) (r : Record) :
    (c.treat alive r).id = r.id := by
  unfold Check.treat
  split_ifs <;> rfl

lemma crashed_recovered (hpid : alive c.pid = true) (r : Record) :
    crashed alive (c.recovered r).info = false := by
  simp [crashed, Check.recovered, Record.info, hpid]

lemma updateFirst_eq_map {p : Record → Bool} {f : Record → Record} (h : Distinct (rs.map birth))
    (hr : rs.find? p = some r) :
    updateFirst p f rs = rs.map fun x => if x.id = r.id then f x else x := by
  induction rs with
  | nil => cases hr
  | cons a rs ih =>
    have hids := List.pairwise_cons.mp (List.pairwise_map.mp h.ids)
    by_cases ha : p a
    · rw [List.find?_cons_of_pos ha] at hr
      obtain rfl : r = a := (Option.some.inj hr).symm
      have hrest : (rs.map fun x => if x.id = r.id then f x else x) = rs := by
        conv_rhs => rw [← List.map_id rs]
        exact List.map_congr_left fun x hx => if_neg (hids.1 x hx).symm
      unfold updateFirst
      rw [if_pos ha, List.map_cons, if_pos rfl, hrest]
    · rw [List.find?_cons_of_neg ha] at hr
      have hne : a.id ≠ r.id := hids.1 r (List.mem_of_find?_eq_some hr)
      unfold updateFirst
      rw [if_neg ha, List.map_cons, if_neg hne, ih ⟨h.ids.of_cons, h.order.of_cons⟩ hr]

lemma lookedUp_eq_map (h : Inv file bs rs) (hr : r ∈ rs) (sys : Sys) :
    lookedUp sys r.id rs = rs.map fun x => if x.id = r.id then repaired sys x else x := by
  have hd : Distinct (rs.map birth) := h.births.symm ▸ h.distinct
  exact updateFirst_eq_map hd (find?_hits_id hd hr)

lemma updated_eq_map (h : Inv file bs rs) (hr : r ∈ rs) {info : ContainerInfo}
    (hid : info.id = r.id) :
    updated info rs = rs.map fun x => if x.id = r.id then info.record else x := by
  have hd : Distinct (rs.map birth) := h.births.symm ▸ h.distinct
  have hfind : rs.find? (fun x => x.id = info.id) = some r := by
    rw [hid]
    exact RecordMap.find?_id hd hr
  exact updateFirst_eq_map hd hfind

/-- The record of a container after its stop. -/
def stoppedRecord (c : Check) (r : Record) : Record :=
  ((repaired c.sysStop r).info.stopedAt c.now).record

lemma stoppedRecord_id (c : Check) (r : Record) : (stoppedRecord c r).id = r.id := by
  have hid := repaired_id c.sysStop r
  exact hid

lemma stop_map (h : Inv file bs rs) (hr : r ∈ rs) (c : Check) :
    ∃ file', (changeStatusToStop c.sysStop c.now r.id).run file = (file', some ()) ∧
      Inv file' bs (rs.map fun x => if x.id = r.id then stoppedRecord c r else x) := by
  obtain ⟨file₁, hrun₁, h₁⟩ := h.lookup c.sysStop r.id
  obtain ⟨file', hrun, hinv⟩ := h.stop hr c.sysStop c.now
  have hmem : repaired c.sysStop r ∈ lookedUp c.sysStop r.id rs :=
    found_mem_lookedUp (found_id (h.births.symm ▸ h.distinct) hr c.sysStop)
  have hid : (repaired c.sysStop r).id = r.id := repaired_id c.sysStop r
  refine ⟨file', hrun, ?_⟩
  rw [Store.stopped, updated_eq_map h₁ hmem (by rfl), lookedUp_eq_map h hr, List.map_map, hid]
    at hinv
  convert hinv using 1
  refine List.map_congr_left fun x _ => ?_
  by_cases hx : x.id = r.id
  · have hx' : (repaired c.sysStop x).id = r.id := (repaired_id c.sysStop x).trans hx
    simp [hx, hx', stoppedRecord]
  · simp [hx]

lemma start_map (h : Inv file bs rs) (hr : r ∈ rs) (hst : r.status = .stoped) (c : Check)
    (hpid : 0 < c.pid) :
    ∃ file', (start c.sysStart r.id (some c.pid) c.startTime).run file = (file', some none) ∧
      Inv file' bs (rs.map fun x =>
        if x.id = r.id then (r.info.restartedAs c.pid c.startTime).record else x) := by
  have hd : Distinct (rs.map birth) := h.births.symm ▸ h.distinct
  have hdead : isDead c.sysStart r = false := by simp [isDead, hst]
  have hsame : repaired c.sysStart r = r := by simp [repaired, hdead]
  obtain ⟨file₁, hrun₁, h₁⟩ := h.lookup c.sysStart r.id
  have hlooked : lookedUp c.sysStart r.id rs = rs := by
    rw [lookedUp_eq_map h hr]
    conv_rhs => rw [← List.map_id rs]
    refine List.map_congr_left fun x hx => ?_
    split_ifs with hid
    · have hx' : x = r := by
        have hfx := RecordMap.find?_id hd hx
        rw [hid, RecordMap.find?_id hd hr] at hfx
        exact (Option.some.inj hfx).symm
      rw [hx', hsame]
      rfl
    · rfl
  rw [hlooked] at h₁
  rw [found_id hd hr, hsame] at hrun₁
  have hb : birth (r.info.restartedAs c.pid c.startTime).record ∈ bs := by
    rw [birth_restartedAs, ← h.births]
    exact List.mem_map_of_mem hr
  obtain ⟨file₂, hrun₂, h₂⟩ := h₁.update hb (pidOk_restartedAs r hpid c.startTime)
  rw [updated_eq_map h₁ hr (by rfl)] at h₂
  refine ⟨file₂, ?_, h₂⟩
  have hnot : r.info.status ≠ .running := by
    intro heq
    rw [show r.info.status = r.status from rfl, hst] at heq
    cases heq
  simp [start, run_bind, hrun₁, hrun₂, hnot]

lemma restarted_eq (c : Check) (r : Record) :
    ((stoppedRecord c r).info.restartedAs c.pid c.startTime).record = c.recovered r := by
  unfold stoppedRecord repaired
  split_ifs <;> simp [ContainerInfo.record, Record.info, ContainerInfo.restartedAs,
    ContainerInfo.stopedAt, Check.recovered]

lemma check_spec (h : Inv file bs rs) (hr : r ∈ rs) (hid : r.id = c.id) (hsees : c.Sees alive) :
    Inv ((c.program alive).exec file) bs (rs.map (c.treat alive)) := by
  have hd : Distinct (rs.map birth) := h.births.symm ▸ h.distinct
  have hself (x : Record) (hx : x ∈ rs) (hxid : x.id = r.id) : x = r := by
    have hfx := RecordMap.find?_id hd hx
    rw [hxid, RecordMap.find?_id hd hr] at hfx
    exact (Option.some.inj hfx).symm
  have hfirst : firstWithId rs c.id = some r := hid ▸ RecordMap.find?_id hd hr
  by_cases hc : crashed alive r.info
  · have hre : rechecked alive file c.id :=
      (rechecked_iff h.represents alive c.id).mpr ⟨r, hfirst, hc⟩
    obtain ⟨info, hinfo, hrun⟩ := runCheckandrestart_of_rechecked hre c.sysStop c.now c.sysStart
      (some c.pid) c.startTime
    have hinfo' : info = r.info := by
      have hget := getContainerById_run h.represents c.id
      rw [hget, show rs.find? (fun x => x.id = c.id) = some r from hfirst] at hinfo
      exact (Option.some.inj (Option.some.inj hinfo)).symm
    subst hinfo'
    obtain ⟨file₁, hstop, h₁⟩ := stop_map h hr c
    have hmem₁ : stoppedRecord c r ∈
        rs.map fun x => if x.id = r.id then stoppedRecord c r else x :=
      List.mem_map.mpr ⟨r, hr, if_pos rfl⟩
    obtain ⟨file₂, hstart, h₂⟩ := start_map h₁ hmem₁ rfl c hsees.pid.1
    rw [stoppedRecord_id] at hstart h₂
    have hexec : (c.program alive).exec file = file₂ := by
      unfold Check.program Prog.exec
      rw [hrun, show r.info.id = r.id from rfl, run_bind_some hstop, hstart]
    rw [hexec]
    rw [List.map_map, restarted_eq] at h₂
    convert h₂ using 1
    refine List.map_congr_left fun x hx => ?_
    by_cases hx' : x.id = r.id
    · obtain rfl := hself x hx hx'
      simp [Check.treat, hid, hc, stoppedRecord_id]
    · have hne : x.id ≠ c.id := fun heq => hx' (heq.trans hid.symm)
      simp [Check.treat, hx', hne]
  · have hre : rechecked alive file c.id = false := by
      rw [← Bool.not_eq_true, rechecked_iff h.represents]
      rintro ⟨r', hr', hc'⟩
      rw [hfirst] at hr'
      cases hr'
      exact hc hc'
    have hexec : (c.program alive).exec file = file := runCheckandrestart_of_not_rechecked hre ..
    have hsame : rs.map (c.treat alive) = rs := by
      conv_rhs => rw [← List.map_id rs]
      refine List.map_congr_left fun x hx => if_neg ?_
      rintro ⟨hxid, hxc⟩
      rw [hself x hx (hxid.trans hid.symm)] at hxc
      exact hc hxc
    rw [hexec, hsame]
    exact h

/-! ### A pass of the loop and its threads -/

lemma scan_eq (h : Represents file rs) :
    scan alive file = (rs.filter fun r => crashed alive r.info).map Record.id := by
  unfold scan
  rw [list_run h]
  by_cases hrs : rs = []
  · simp [hrs]
  · rw [if_neg hrs]
    dsimp only
    rw [List.filter_map, List.map_map]
    rfl

lemma afterChecks_spec (h : Inv file bs rs)
    (hcs : ∀ c ∈ cs, c.Sees alive ∧ ∃ r ∈ rs, r.id = c.id) :
    Inv (afterChecks alive file cs) bs
      (rs.map fun r => cs.foldl (fun r c => c.treat alive r) r) := by
  induction cs generalizing file rs with
  | nil => simpa [afterChecks] using h
  | cons c cs ih =>
    obtain ⟨⟨hsees, r, hr, hid⟩, hrest⟩ := List.forall_mem_cons.mp hcs
    have hnext := ih (check_spec h hr hid hsees) fun c' hc' => ?_
    · rw [List.map_map] at hnext
      exact hnext
    · obtain ⟨hsees', r', hr', hid'⟩ := hrest c' hc'
      exact ⟨hsees', _, List.mem_map_of_mem hr', (treat_id alive c r').trans hid'⟩

/-- What becomes of a record: a crashed container is started again by the first thread for it. -/
def settled (alive : Int32 → Bool) (cs : List Check) (r : Record) : Record :=
  if crashed alive r.info then ((cs.find? fun c => c.id = r.id).map (·.recovered r)).getD r else r

lemma foldl_treat_of_not_crashed (hr : crashed alive r.info = false) (cs : List Check) :
    cs.foldl (fun r c => c.treat alive r) r = r := by
  induction cs with
  | nil => rfl
  | cons c cs ih =>
    have hsame : c.treat alive r = r := if_neg (by simp [hr])
    rw [List.foldl_cons, hsame, ih]

lemma foldl_treat (hpid : ∀ c ∈ cs, alive c.pid = true) (r : Record) :
    cs.foldl (fun r c => c.treat alive r) r = settled alive cs r := by
  unfold settled
  by_cases hc : crashed alive r.info
  · rw [if_pos hc]
    induction cs with
    | nil => rfl
    | cons c cs ih =>
      obtain ⟨halive, hrest⟩ := List.forall_mem_cons.mp hpid
      by_cases hid : c.id = r.id
      · have htreat : c.treat alive r = c.recovered r := if_pos ⟨hid.symm, hc⟩
        rw [List.foldl_cons, htreat, List.find?_cons_of_pos (by simpa using hid),
          foldl_treat_of_not_crashed (crashed_recovered halive r)]
        rfl
      · have htreat : c.treat alive r = r := if_neg fun h => hid h.1.symm
        rw [List.foldl_cons, htreat, List.find?_cons_of_neg (by simpa using hid), ih hrest]
  · rw [if_neg hc, foldl_treat_of_not_crashed (by simpa using hc)]

lemma not_crashed_settled (hpid : ∀ c ∈ cs, alive c.pid = true)
    (hthread : crashed alive r.info → ∃ c ∈ cs, c.id = r.id) :
    crashed alive (settled alive cs r).info = false := by
  unfold settled
  split_ifs with hc
  · obtain ⟨c, hmem, hid⟩ := hthread hc
    obtain ⟨c', hc'⟩ : ∃ c', cs.find? (fun c => c.id = r.id) = some c' :=
      Option.isSome_iff_exists.mp (List.find?_isSome.mpr ⟨c, hmem, by simpa using hid⟩)
    rw [hc', Option.map_some, Option.getD_some]
    exact crashed_recovered (hpid c' (List.mem_of_find?_eq_some hc')) r
  · simpa using hc

/-- **A round of the supervisor**: where each container that the loop has found crashed has its
thread, whatever the order of the threads and whatever other threads there are, each crashed
container is started again by the first thread for it and no other record changes; the next pass
finds nothing to do. -/
theorem recovery_round {s : Ledger} (h : machine.Reach Admissible s)
    (hcs : ∀ c ∈ cs, c.Sees alive ∧ Recorded c.id s.log)
    (hall : ∀ id ∈ scan alive s.file, ∃ c ∈ cs, c.id = id) :
    ∃ rs, Represents s.file rs ∧
      Represents (afterChecks alive s.file cs) (rs.map (settled alive cs)) ∧
      scan alive (afterChecks alive s.file cs) = [] := by
  obtain ⟨⟨rs, hinv⟩, -⟩ := kept_reach h
  have hpid : ∀ c ∈ cs, alive c.pid = true := fun c hc => (hcs c hc).1.pid.2
  have hafter := afterChecks_spec hinv fun c hc => ⟨(hcs c hc).1, exists_record hinv (hcs c hc).2⟩
  rw [funext (foldl_treat hpid)] at hafter
  refine ⟨rs, hinv.represents, hafter.represents, ?_⟩
  rw [scan_eq hafter.represents, List.map_eq_nil_iff, List.filter_eq_nil_iff]
  intro r' hr'
  obtain ⟨r, hr, rfl⟩ := List.mem_map.mp hr'
  rw [not_crashed_settled hpid fun hc => ?_]
  · simp
  · refine hall r.id ?_
    rw [scan_eq hinv.represents]
    exact List.mem_map_of_mem (List.mem_filter.mpr ⟨hr, hc⟩)

/-- Two containers are run, and the process of the first is killed. -/
def bothRun : List Event :=
  [.run ⟨some "web".toList, ["httpd".toList], ∅⟩ ⟨"c1".toList, some 4711, 1700000000, 1700000000⟩,
    .run ⟨none, ["sh".toList], ∅⟩ ⟨"c2".toList, some 4720, 1700000010, 1700000010⟩]

/-- The processes that there are then. -/
def left : Int32 → Bool := fun p => p = 4720 || p = 4800

/-- A thread that starts its container again under the pid 4800. -/
def restarter (id : Str) : Check :=
  ⟨id, ⟨left, 1700000020⟩, 1700000020, ⟨left, 1700000020⟩, 4800, 1700000020⟩

theorem recovery_round_killed : ∃ s, machine.runs ⟨.missing, []⟩ bothRun = some s ∧
    scan left s.file = ["c1".toList] ∧
    scan left (afterChecks left s.file [restarter "c2".toList, restarter "c1".toList]) = [] := by
  have hstart : machine.Reach Admissible ⟨.missing, []⟩ := .start ⟨Or.inl rfl, rfl⟩
  have hmeets : machine.Meets Admissible ⟨.missing, []⟩ bothRun := by
    have hpid : ∀ p q : Int32, 0 < p → some p = some q → 0 < q := by
      rintro p q hp ⟨⟩
      exact hp
    refine .cons ⟨by decide, fun q => hpid 4711 q (by decide)⟩ rfl ?_
    exact .cons ⟨by decide, fun q => hpid 4720 q (by decide)⟩ rfl trivial
  obtain ⟨s, hs⟩ : ∃ s, machine.runs ⟨.missing, []⟩ bothRun = some s := ⟨_, rfl⟩
  have hlog : Recorded "c1".toList s.log ∧ Recorded "c2".toList s.log := by
    cases hs
    decide
  have hscan : scan left s.file = ["c1".toList] := by
    cases hs
    decide +kernel
  have hsees (id : Str) : (restarter id).Sees left := ⟨rfl, rfl,
    (by decide : (0 : Int32) < 4800), rfl⟩
  have hcs : ∀ c ∈ [restarter "c2".toList, restarter "c1".toList],
      c.Sees left ∧ Recorded c.id s.log := by
    rintro c (_ | ⟨_, _ | ⟨_, ⟨⟩⟩⟩)
    · exact ⟨hsees _, hlog.2⟩
    · exact ⟨hsees _, hlog.1⟩
  obtain ⟨-, -, -, hdone⟩ := recovery_round (hstart.runs hmeets hs) hcs fun id hid => by
    rw [hscan, List.mem_singleton] at hid
    exact ⟨restarter "c1".toList, by simp, hid.symm⟩
  exact ⟨s, hs, hscan, hdone⟩

end Hoststack.Supervisor
