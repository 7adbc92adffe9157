import Hoststack.FileIds
import Hoststack.Lib.Machine

/-!
The records that are used without a test whether they were found.

The supervisor goes over the list it has read, and its threads look a container up again some
seconds later; a monitor looks its container up while it unmounts and when it marks it stopped;
and `rm` deletes a container it has found before. Each call of `ContainerDao` is one step, and a
record may be deleted between any two of them.
-/

namespace Hoststack.Dereferences

open Cell Cell.Prog ContainerDao FileIds

/-- A thread of the supervisor, a monitor or a command, by what it does next. -/
inductive Proc where
  /-- `run_checkandrestart`, before its lookup, before `change_status_to_stop` and before
  `startContainer` -/
  | recheck (id : Str)
  | restop (id : Str)
  | start (containerName : Str)
  /-- a monitor, before its callback, in its loop, before `umount_volume_list` and before
  `change_status_to_stop` -/
  | callback (info : ContainerInfo)
  | monitor (id : Str)
  | unmount (id : Str)
  | mark (id : Str)
  /-- `removeContainer`, before its lookup, before `stop` and before the container is removed -/
  | rm (force : Bool) (containerName : Str)
  | stop (id containerName : Str)
  | delete (id : Str)

/-- What the system answers in a step, and whether all that has to go well in it does. -/
structure Answers where
  sys : Sys
  now : Int64
  pid : Int32
  goes : Bool

/-- What a step leaves: the file, what the process goes on with, and whether it has used a
record that is absent. -/
structure Outcome where
  file : DataFile
  next : List Proc
  absent : Bool

/-- A lookup finds nothing, and its result is used. -/
def notFound : Option (Option ContainerInfo) → Bool
  | some none => true
  | _ => false

/-- `change_status_to_stop`, and what follows where it comes back. -/
def markStopped (ans : Answers) (file : DataFile) (id : Str) (next : List Proc) : Outcome where
  file := (changeStatusToStop ans.sys ans.now id).exec file
  next := if ((changeStatusToStop ans.sys ans.now id).run file).2.isSome then next else []
  absent := notFound ((getContainerByIdOrName ans.sys id).run file).2

/-- One step. A process that throws, dies or uses an absent record ends. -/
def Proc.step (ans : Answers) (file : DataFile) : Proc → Outcome
  | .recheck id =>
    match (getContainerById id).run file with
    | (file, some (some info)) =>
      ⟨file, if info.status = .running && !ans.sys.proc info.pid then [.restop info.id] else [],
        false⟩
    | (file, found) => ⟨file, [], notFound found⟩
  | .restop id => markStopped ans file id [.start id]
  | .start containerName =>
    match (getContainerByIdOrName ans.sys containerName).run file with
    | (file, some (some info)) =>
      ⟨file, if info.status ≠ .running && ans.goes then [.callback info] else [], false⟩
    | (file, _) => ⟨file, [], false⟩
  | .callback info =>
    if ans.goes then
      match (update (info.restartedAs ans.pid ans.now)).run file with
      | (file, some _) => ⟨file, [.monitor info.id], false⟩
      | (file, none) => ⟨file, [], false⟩
    else ⟨file, [], false⟩
  | .monitor id => ⟨file, if ans.goes then [.unmount id] else [], false⟩
  | .unmount id =>
    match (getContainerByIdOrName ans.sys id).run file with
    | (file, some (some _)) => ⟨file, [.mark id], false⟩
    | (file, found) => ⟨file, [], notFound found⟩
  | .mark id => markStopped ans file id []
  | .rm force containerName =>
    match (getContainerByIdOrName ans.sys containerName).run file with
    | (file, some (some info)) =>
      ⟨file,
        if info.status = .running then
          if force then [.stop info.id containerName] else []
        else [.delete info.id],
        false⟩
    | (file, _) => ⟨file, [], false⟩
  | .stop id containerName =>
    match (getContainerByIdOrName ans.sys containerName).run file with
    | (file, some _) => ⟨file, [.delete id], false⟩
    | (file, none) => ⟨file, [], false⟩
  | .delete id =>
    -- the record is used in the loop over the elements
    if ans.goes then
      ⟨(deleteById ans.sys id).exec file, [],
        notFound ((getContainerByIdOrName ans.sys id).run file).2 && decide (Filled file)⟩
    else ⟨file, [], false⟩

/-- The data file, the rest of the list the supervisor goes over, the processes, and whether an
absent record or list has been used. -/
structure State where
  file : DataFile
  vector : List ContainerInfo
  procs : List Proc
  absent : Bool

inductive Act where
  | scan
  | visit (proc : Int32 → Bool)
  | rm (force : Bool) (containerName : Str)
  | move (n : ℕ) (ans : Answers)

/-- The supervisor, its threads, the monitors and the commands, in any order. At the beginning
there are monitors of containers that are recorded. -/
def system : Machine State Act where
  init s := s.vector = [] ∧ s.absent = false ∧
    ∀ p ∈ s.procs, ∃ id, p = .monitor id ∧ Known s.file id
  step s
    | .scan =>
      if s.vector = [] then
        match (ContainerDao.list.run s.file).2 with
        | some (some infos) => some { s with vector := infos }
        | some none => some { s with absent := true }
        | none => some s
      else none
    | .visit proc =>
      match s.vector with
      | info :: vector =>
        some { s with
          vector
          procs := s.procs ++
            if info.status = .running && !proc info.pid then [.recheck info.id] else [] }
      | [] => none
    | .rm force containerName => some { s with procs := s.procs ++ [.rm force containerName] }
    | .move n ans => do
      let p ← s.procs[n]?
      let out := p.step ans s.file
      some { s with
        file := out.file
        procs := s.procs.eraseIdx n ++ out.next
        absent := s.absent || out.absent }

/-- The container that a process may still use without a test. -/
def Proc.uses : Proc → Option Str
  | .recheck id | .restop id | .monitor id | .unmount id | .mark id | .stop id _ | .delete id =>
    some id
  | .callback info => some info.id
  | .start _ | .rm _ _ => none

/-- The step does not delete the container with the id. -/
def Proc.Spares (ans : Answers) (file : DataFile) (id : Str) : Proc → Prop
  | .delete name => ans.goes = true → ∀ info,
    ((getContainerByIdOrName ans.sys name).run file).2 = some (some info) → info.id ≠ id
  | _ => True

/-- The supervisor reads the list only while the file holds records, and a container is deleted
only while neither the rest of that list, as running, nor another process needs it. -/
def Careful (s : State) : Act → Prop
  | .scan => Filled s.file
  | .move n ans => ∀ p ∈ s.procs[n]?,
    (∀ info ∈ s.vector, info.status = .running → p.Spares ans s.file info.id) ∧
    ∀ q ∈ s.procs.eraseIdx n, ∀ id ∈ q.uses, p.Spares ans s.file id
  | _ => True

/-! ### One step -/

variable {file : DataFile} {id : Str} {ans : Answers} {p : Proc}

lemma notFound_iff {found : Option (Option ContainerInfo)} :
    notFound found = true ↔ found = some none := by
  rcases found with _ | _ | info <;> simp [notFound]

lemma notFound_lookup (sys : Sys) (hk : Known file id) :
    notFound ((getContainerByIdOrName sys id).run file).2 = false := by
  rcases hrun : (getContainerByIdOrName sys id).run file with ⟨file', found⟩
  refine Bool.eq_false_iff.mpr fun hno => ?_
  exact (lookup_ids hrun).2.1 (notFound_iff.mp hno) hk

lemma notFound_byId (hk : Known file id) :
    notFound ((getContainerById id).run file).2 = false := by
  rcases hrun : (getContainerById id).run file with ⟨file', found⟩
  refine Bool.eq_false_iff.mpr fun hno => ?_
  exact (getContainerById_ids hrun).2.1 (notFound_iff.mp hno) hk

lemma step_keeps (hk : Known file id) (hs : p.Spares ans file id) :
    Known (p.step ans file).file id := by
  have hlookup : ∀ value file' found,
      (getContainerByIdOrName ans.sys value).run file = (file', found) → Known file' id :=
    fun value file' found hrun => (lookup_ids hrun).1 id hk
  cases p with
  | recheck name =>
    rcases hrun : (getContainerById name).run file with ⟨file', found⟩
    obtain rfl := (getContainerById_ids hrun).1
    rcases found with _ | _ | info <;> simpa [Proc.step, hrun] using hk
  | restop name | mark name => exact changeStatusToStop_known ans.sys ans.now name hk
  | start name | unmount name | rm force name | stop id' name =>
    rcases hrun : (getContainerByIdOrName ans.sys name).run file with ⟨file', found⟩
    have hk' := hlookup name file' found hrun
    rcases found with _ | _ | info <;> simpa [Proc.step, hrun] using hk'
  | callback info =>
    have hk' := update_known (info.restartedAs ans.pid ans.now) hk
    unfold exec at hk'
    rcases hrun : (update (info.restartedAs ans.pid ans.now)).run file with ⟨file', _ | u⟩
    · rw [hrun] at hk'
      cases hgo : ans.goes <;> simpa [Proc.step, hrun, hgo]
    · rw [hrun] at hk'
      cases hgo : ans.goes <;> simpa [Proc.step, hrun, hgo]
  | monitor name => exact hk
  | delete name =>
    unfold Proc.step
    dsimp only
    split_ifs with hgo
    · exact deleteById_known (hs hgo) hk
    · exact hk

lemma step_present (hu : ∀ id ∈ p.uses, Known file id) : (p.step ans file).absent = false := by
  cases p with
  | recheck name =>
    have hfound := notFound_byId (hu name rfl)
    rcases hrun : (getContainerById name).run file with ⟨file', _ | _ | info⟩
    · simp [Proc.step, hrun, notFound]
    · rw [hrun] at hfound
      cases hfound
    · simp [Proc.step, hrun]
  | unmount name =>
    have hfound := notFound_lookup ans.sys (hu name rfl)
    rcases hrun : (getContainerByIdOrName ans.sys name).run file with ⟨file', _ | _ | info⟩
    · simp [Proc.step, hrun, notFound]
    · rw [hrun] at hfound
      cases hfound
    · simp [Proc.step, hrun]
  | restop name | mark name => exact notFound_lookup ans.sys (hu name rfl)
  | start name | rm force name | stop id' name =>
    rcases hrun : (getContainerByIdOrName ans.sys name).run file with ⟨file', _ | _ | info⟩ <;>
      simp [Proc.step, hrun]
  | callback info =>
    rcases hrun : (update (info.restartedAs ans.pid ans.now)).run file with ⟨file', _ | u⟩ <;>
      cases hgo : ans.goes <;> simp [Proc.step, hrun, hgo]
  | monitor name => rfl
  | delete name =>
    have hfound := notFound_lookup ans.sys (hu name rfl)
    cases hgo : ans.goes <;> simp [Proc.step, hgo, hfound]

lemma eq_of_mem_ite {c : Prop} [Decidable c] {q q' : Proc} (h : q ∈ if c then [q'] else []) :
    q = q' := by
  split_ifs at h
  · exact List.mem_singleton.mp h
  · cases h

lemma next_cases {q : Proc} (hq : q ∈ (p.step ans file).next) :
    q.uses = none ∨ (q.uses = p.uses ∧ ∀ id, p.Spares ans file id) ∨
      ∃ id, q.uses = some id ∧ Known (p.step ans file).file id := by
  cases p with
  | recheck name =>
    rcases hrun : (getContainerById name).run file with ⟨file', _ | _ | info⟩
    · simp [Proc.step, hrun] at hq
    · simp [Proc.step, hrun] at hq
    · obtain ⟨rfl, -, hfound⟩ := getContainerById_ids hrun
      simp only [Proc.step, hrun] at hq ⊢
      obtain rfl := eq_of_mem_ite hq
      exact Or.inr (Or.inr ⟨info.id, rfl, hfound info rfl⟩)
  | restop name =>
    obtain rfl := eq_of_mem_ite hq
    exact Or.inl rfl
  | start name =>
    rcases hrun : (getContainerByIdOrName ans.sys name).run file with ⟨file', _ | _ | info⟩
    · simp [Proc.step, hrun] at hq
    · simp [Proc.step, hrun] at hq
    · simp only [Proc.step, hrun] at hq ⊢
      obtain rfl := eq_of_mem_ite hq
      exact Or.inr (Or.inr ⟨info.id, rfl, (lookup_ids hrun).2.2 info rfl⟩)
  | rm force name =>
    rcases hrun : (getContainerByIdOrName ans.sys name).run file with ⟨file', _ | _ | info⟩
    · simp [Proc.step, hrun] at hq
    · simp [Proc.step, hrun] at hq
    · have hfound : Known file' info.id := (lookup_ids hrun).2.2 info rfl
      simp only [Proc.step, hrun] at hq ⊢
      have hid : q.uses = some info.id := by
        split_ifs at hq
        · rw [List.mem_singleton.mp hq]
          rfl
        · cases hq
        · rw [List.mem_singleton.mp hq]
          rfl
      exact Or.inr (Or.inr ⟨info.id, hid, hfound⟩)
  | callback info =>
    have hnext : q = .monitor info.id := by
      cases hgo : ans.goes with
      | false => simp [Proc.step, hgo] at hq
      | true =>
        rcases hrun : (update (info.restartedAs ans.pid ans.now)).run file with ⟨file', _ | u⟩
        · simp [Proc.step, hrun, hgo] at hq
        · simpa [Proc.step, hrun, hgo] using hq
    exact Or.inr (Or.inl ⟨by rw [hnext]; rfl, fun _ => trivial⟩)
  | monitor name =>
    obtain rfl := eq_of_mem_ite hq
    exact Or.inr (Or.inl ⟨rfl, fun _ => trivial⟩)
  | unmount name =>
    have hnext : q = .mark name := by
      rcases hrun : (getContainerByIdOrName ans.sys name).run file with ⟨file', _ | _ | info⟩
      · simp [Proc.step, hrun] at hq
      · simp [Proc.step, hrun] at hq
      · simpa [Proc.step, hrun] using hq
    exact Or.inr (Or.inl ⟨by rw [hnext]; rfl, fun _ => trivial⟩)
  | stop name containerName =>
    have hnext : q = .delete name := by
      rcases hrun : (getContainerByIdOrName ans.sys containerName).run file with
        ⟨file', _ | found⟩
      · simp [Proc.step, hrun] at hq
      · simpa [Proc.step, hrun] using hq
    exact Or.inr (Or.inl ⟨by rw [hnext]; rfl, fun _ => trivial⟩)
  | mark name => simp [Proc.step, markStopped] at hq
  | delete name => cases hgo : ans.goes <;> simp [Proc.step, hgo] at hq

lemma step_next (hu : ∀ id ∈ p.uses, Known file id) :
    ∀ q ∈ (p.step ans file).next, ∀ id ∈ q.uses, Known (p.step ans file).file id := by
  intro q hq id hid
  rcases next_cases hq with hnone | ⟨hsame, hs⟩ | ⟨id', hid', hfound⟩
  · rw [hnone] at hid
    cases hid
  · rw [hsame] at hid
    exact step_keeps (hu id hid) (hs id)
  · obtain rfl : id' = id := Option.some.inj (hid'.symm.trans hid)
    exact hfound

/-! ### Any run -/

/-- **The invariant**: what may be used without a test is recorded, and nothing absent has been
used. -/
structure Inv (s : State) : Prop where
  vector : ∀ info ∈ s.vector, info.status = .running → Known s.file info.id
  procs : ∀ p ∈ s.procs, ∀ id ∈ p.uses, Known s.file id
  absent : s.absent = false

variable {s s' : State}

lemma Inv.move (h : Inv s) {n : ℕ} (hc : Careful s (.move n ans))
    (hs : system.step s (.move n ans) = some s') : Inv s' := by
  obtain ⟨p, hp, heq⟩ := Option.bind_eq_some_iff.mp hs
  cases heq
  obtain ⟨hvector, hothers⟩ := hc p hp
  have hmem : p ∈ s.procs := List.mem_of_getElem? hp
  have hu : ∀ id ∈ p.uses, Known s.file id := h.procs p hmem
  refine ⟨fun info hi hr => ?_, fun q hq id hid => ?_, ?_⟩
  · exact step_keeps (h.vector info hi hr) (hvector info hi hr)
  · rcases List.mem_append.mp hq with hq | hq
    · have hq' : q ∈ s.procs := List.mem_of_mem_eraseIdx hq
      exact step_keeps (h.procs q hq' id hid) (hothers q hq id hid)
    · exact step_next hu q hq id hid
  · rw [h.absent, step_present hu]
    rfl

lemma Inv.scan (h : Inv s) (hc : Careful s .scan) (hs : system.step s .scan = some s') :
    Inv s' := by
  obtain ⟨-, hnull, hinfos⟩ := list_ids s.file
  simp only [system] at hs
  split_ifs at hs
  rcases hlist : (ContainerDao.list.run s.file).2 with _ | _ | infos
  · rw [hlist] at hs
    cases hs
    exact h
  · exact absurd hc (hnull.mp hlist)
  · rw [hlist] at hs
    cases hs
    exact ⟨fun info hi _ => hinfos infos hlist info hi, h.procs, h.absent⟩

lemma Inv.visit (h : Inv s) {proc : Int32 → Bool} (hs : system.step s (.visit proc) = some s') :
    Inv s' := by
  obtain ⟨file, vector, procs, absent⟩ := s
  rcases vector with _ | ⟨info, vector⟩
  · cases hs
  · cases hs
    refine ⟨fun info' hi => h.vector info' (List.mem_cons_of_mem _ hi), fun q hq id hid => ?_,
      h.absent⟩
    rcases List.mem_append.mp hq with hq | hq
    · exact h.procs q hq id hid
    · split_ifs at hq with hdead
      · obtain rfl := List.mem_singleton.mp hq
        obtain rfl : info.id = id := Option.some.inj hid
        have hrunning : info.status = .running := by
          simp only [Bool.and_eq_true, decide_eq_true_eq] at hdead
          exact hdead.1
        exact h.vector info List.mem_cons_self hrunning
      · cases hq

lemma Inv.rm (h : Inv s) {force : Bool} {name : Str}
    (hs : system.step s (.rm force name) = some s') : Inv s' := by
  cases hs
  refine ⟨h.vector, fun q hq id hid => ?_, h.absent⟩
  rcases List.mem_append.mp hq with hq | hq
  · exact h.procs q hq id hid
  · obtain rfl := List.mem_singleton.mp hq
    cases hid

lemma inv_reach (h : system.Reach Careful s) : Inv s := by
  refine h.invariant (fun s hs => ?_) fun s a s' hi hc hs => ?_
  · obtain ⟨hvector, habsent, hprocs⟩ := hs
    refine ⟨by simp [hvector], fun p hp id hid => ?_, habsent⟩
    obtain ⟨name, rfl, hk⟩ := hprocs p hp
    obtain rfl : name = id := Option.some.inj hid
    exact hk
  · cases a with
    | scan => exact hi.scan hc hs
    | visit proc => exact hi.visit hs
    | rm force name => exact hi.rm hs
    | move n ans => exact hi.move hc hs

/-- **No absent record is used**, in any run in which the supervisor reads the list only while
there are records and a container is deleted only while nothing else needs it. The file may hold
anything but real numbers. -/
theorem no_absent (h : system.Reach Careful s) : s.absent = false := (inv_reach h).absent

/-- All goes well, and no process has died. -/
def well : Answers := ⟨⟨fun _ => true, 1700000000⟩, 1700000000, 4712, true⟩

/-- One running container and its monitor. -/
def oneMonitor : State :=
  ⟨.parsed (.arr [.obj ranInfo.record.members]), [], [.monitor ranInfo.id], false⟩

lemma known_ranInfo : Known oneMonitor.file ranInfo.id :=
  ⟨_, rfl, List.mem_singleton.mpr (by decide)⟩

/-- The container exits and is marked stopped, and then it is removed. -/
def removed : List Act :=
  [.move 0 well, .move 0 well, .move 0 well, .rm false ranInfo.name, .move 0 well, .move 0 well]

theorem no_absent_removed :
    ∃ s, system.runs oneMonitor removed = some s ∧ s.absent = false := by
  have hstart : system.Reach Careful oneMonitor := by
    refine .start ⟨rfl, rfl, fun p hp => ⟨ranInfo.id, ?_, known_ranInfo⟩⟩
    exact List.mem_singleton.mp hp
  have halone : ∀ (file : DataFile) (p : Proc), Careful ⟨file, [], [p], false⟩ (.move 0 well) := by
    rintro file p q ⟨⟩
    exact ⟨fun info hi => (by cases hi), fun q hq => by cases hq⟩
  have hmeets : system.Meets Careful oneMonitor removed :=
    .cons (halone _ _) rfl (.cons (halone _ _) rfl (.cons (halone _ _) rfl
      (.cons trivial rfl (.cons (halone _ _) rfl (.cons (halone _ _) rfl trivial)))))
  exact ⟨_, rfl, no_absent (hstart.runs hmeets rfl)⟩

/-- The supervisor goes over the list of a file that is not there. -/
theorem absent_list : ¬ ∀ s, system.Reach (fun _ _ => True) s → s.absent = false := by
  intro hall
  have hstart : system.Reach (fun _ _ => True) ⟨.missing, [], [], false⟩ :=
    .start ⟨rfl, rfl, fun p hp => by cases hp⟩
  cases hall _ (hstart.step (a := .scan) trivial rfl)

end Hoststack.Dereferences
