import Hoststack.StoreInv
import Hoststack.UsgCommon
import Hoststack.Lib.Machine

/-!
The commands and events that use the data file, one at a time, and what every run of them
keeps: the file holds the containers inserted and not yet deleted, in order, each as it was
recorded, and a lookup by its id finds it.
-/

namespace Hoststack.Commands

open Cell Cell.Prog ContainerDao Store StoreInv UsgCommon

/-- What a command does to the set of containers. -/
inductive Entry where
  | inserted (info : ContainerInfo)
  | deleted (id : Str)

/-- What is given to `run`. -/
structure RunArgs where
  name : Option Str
  cmdArr : List Str
  volumeList : OrdSet Str

/-- What the system gives to `run`: the new id, the pid of the process if one was started,
and the time when the record is made. -/
structure RunEnv where
  uuid : Str
  pid : Option Int32
  createTime : Int64
  startTime : Int64

/-- `ContainerRunCli::startContainer`: its callback, if a process was started. -/
def recordContainer (args : RunArgs) (env : RunEnv) : Dao (Option Entry) :=
  match env.pid with
  | none => return none
  | some pid => do
    -- a vector without a single character is joined to no string at all
    let command ← ofOption (commandOf args.cmdArr)
    let info : ContainerInfo :=
      { pid, command
        id := env.uuid
        name := args.name.getD []
        createTime := env.createTime
        startTime := env.startTime
        stopTime := 0
        status := .running
        abnormalStoped := 1
        volumeList := args.volumeList }
    ContainerDao.insert info
    return some (.inserted info)

/-- `ContainerRunCli::handleCommand`, from the check of the name on. -/
def run (args : RunArgs) (env : RunEnv) : Dao (Option Entry) :=
  match args.name with
  | none => recordContainer args env
  | some name => do
    let info ← getContainerByName name
    if info.isSome then return none
    else recordContainer args env

/-- `ContainerStartCli::startContainer`, with its callback if a process was started. -/
def start (sys : Sys) (containerName : Str) (pid : Option Int32) (now : Int64) :
    Dao (Option Entry) := do
  match ← getContainerByIdOrName sys containerName with
  | none => return none
  | some info =>
    if info.status = .running then return none
    else
      match pid with
      | none => return none
      | some pid => do
        ContainerDao.update (info.restartedAs pid now)
        return none

/-- The lookup that `stop`, `exec` and `attach` start with; they do no more to the file. -/
def resolve (sys : Sys) (name : Str) : Dao (Option Entry) := do
  let _ ← getContainerByIdOrName sys name
  return none

/-- `removeContainer`; `removed` says whether the directories could be deleted. -/
def removeContainer (force : Bool) (sys sysStop sysDelete : Sys) (removed : Bool)
    (containerName : Str) : Dao (Option Entry) := do
  match ← getContainerByIdOrName sys containerName with
  | none => return none
  | some info => do
    if info.status = .running then
      if force then
        let _ ← resolve sysStop containerName
      else return none
    if removed then do
      deleteById sysDelete info.id
      return some (.deleted info.id)
    else return none

/-- The monitor of a container after its exit: the volumes are looked up to be unmounted, and
the container is marked stopped. -/
def monitorExit (sysUmount sys : Sys) (now : Int64) (id : Str) : Dao (Option Entry) := do
  let info ← getContainerByIdOrName sysUmount id
  let _ ← ofOption info
  changeStatusToStop sys now id
  return none

/-- `run_checkandrestart`; `proc` says which `/proc/<pid>` there are when it looks. -/
def runCheckandrestart (proc : Int32 → Bool) (sysStop : Sys) (now : Int64) (sysStart : Sys)
    (pid : Option Int32) (startTime : Int64) (id : Str) : Dao (Option Entry) := do
  let info ← getContainerById id
  let info ← ofOption info
  if info.status = .running && !proc info.pid then do
    changeStatusToStop sysStop now info.id
    start sysStart info.id pid startTime
  else return none

inductive Event where
  | run (args : RunArgs) (env : RunEnv)
  | start (sys : Sys) (containerName : Str) (pid : Option Int32) (now : Int64)
  | stop (sys : Sys) (name : Str)
  | exec (sys : Sys) (name : Str)
  | attach (sys : Sys) (name : Str)
  | ps
  | rm (force : Bool) (sys sysStop sysDelete : Sys) (removed : Bool) (containerName : Str)
  | monitorExit (sysUmount sys : Sys) (now : Int64) (id : Str)
  | supervisorRestart (proc : Int32 → Bool) (sysStop : Sys) (now : Int64) (sysStart : Sys)
      (pid : Option Int32) (startTime : Int64) (id : Str)

def Event.program : Event → Dao (Option Entry)
  | .run args env => Commands.run args env
  | .start sys containerName pid now => Commands.start sys containerName pid now
  | .stop sys name => resolve sys name
  | .exec sys name => resolve sys name
  | .attach sys name => resolve sys name
  | .ps => do
    let _ ← ContainerDao.list
    return none
  | .rm force sys sysStop sysDelete removed containerName =>
    removeContainer force sys sysStop sysDelete removed containerName
  | .monitorExit sysUmount sys now id => Commands.monitorExit sysUmount sys now id
  | .supervisorRestart proc sysStop now sysStart pid startTime id =>
    runCheckandrestart proc sysStop now sysStart pid startTime id

/-- The data file, and what has been inserted and deleted so far. -/
structure Ledger where
  file : DataFile
  log : List Entry

/-- Run one command to its end. -/
def Ledger.step (s : Ledger) (e : Event) : Ledger :=
  let (file, result) := e.program.run s.file
  { file, log := s.log ++ (result.bind id).toList }

/-- The containers of the log that are inserted and not deleted, in order of insertion. -/
def survivors (log : List Entry) : List ContainerInfo :=
  log.foldl (fun infos e =>
    match e with
    | .inserted info => infos ++ [info]
    | .deleted id => infos.filter fun info => info.id ≠ id) []

/-- The string is neither the id nor the name of a container that is there. -/
def Fresh (uuid : Str) (log : List Entry) : Prop :=
  ∀ info ∈ survivors log, info.id ≠ uuid ∧ info.name ≠ uuid

instance (uuid : Str) (log : List Entry) : Decidable (Fresh uuid log) :=
  inferInstanceAs (Decidable (∀ info ∈ survivors log, info.id ≠ uuid ∧ info.name ≠ uuid))

/-- The container is there. -/
def Recorded (id : Str) (log : List Entry) : Prop := ∃ info ∈ survivors log, info.id = id

instance (id : Str) (log : List Entry) : Decidable (Recorded id log) :=
  inferInstanceAs (Decidable (∃ info ∈ survivors log, info.id = id))

/-- What the commands rely on: a new id is fresh, the pid of a started process is positive,
and monitors and the supervisor work on containers that are there. -/
def Admissible (s : Ledger) : Event → Prop
  | .run _ env => Fresh env.uuid s.log ∧ ∀ pid, env.pid = some pid → 0 < pid
  | .start _ _ pid _ => ∀ p, pid = some p → 0 < p
  | .monitorExit _ _ _ id => Recorded id s.log
  | .supervisorRestart _ _ _ _ pid _ id => Recorded id s.log ∧ ∀ p, pid = some p → 0 < p
  | _ => True

/-- The commands on a data file that is missing or empty at first. -/
def machine : Machine Ledger Event where
  init s := (s.file = .missing ∨ s.file = .garbled .null) ∧ s.log = []
  step s e := some (s.step e)

/-! ### What every run keeps -/

def bornOf (info : ContainerInfo) : Birth := birth info.record

/-- Names that are not empty are different. -/
def NamesDiffer (infos : List ContainerInfo) : Prop :=
  infos.Pairwise fun a b => a.name = b.name → a.name = []

lemma NamesDiffer.append {infos : List ContainerInfo} (h : NamesDiffer infos)
    {info : ContainerInfo} (hnew : ∀ a ∈ infos, a.name = info.name → a.name = []) :
    NamesDiffer (infos ++ [info]) := by
  refine List.pairwise_append.mpr ⟨h, by simp, fun a ha x hx => ?_⟩
  rw [List.mem_singleton.mp hx]
  exact hnew a ha

lemma NamesDiffer.of_births {infos : List ContainerInfo} (h : NamesDiffer infos)
    {rs : List Record} (hb : rs.map birth = infos.map bornOf) :
    rs.Pairwise fun a b => a.name = b.name → a.name = [] := by
  have hi : (infos.map bornOf).Pairwise fun a b => a.name = b.name → a.name = [] :=
    List.pairwise_map.mpr h
  rw [← hb] at hi
  exact List.pairwise_map.mp hi

/-- The file holds the containers inserted and not deleted, in order, under different names. -/
def Kept (file : DataFile) (log : List Entry) : Prop :=
  (∃ rs, Inv file ((survivors log).map bornOf) rs) ∧ NamesDiffer (survivors log)

lemma survivors_inserted (log : List Entry) (info : ContainerInfo) :
    survivors (log ++ [.inserted info]) = survivors log ++ [info] := by
  simp [survivors]

lemma survivors_deleted (log : List Entry) (id : Str) :
    survivors (log ++ [.deleted id]) = (survivors log).filter fun info => info.id ≠ id := by
  simp [survivors]

lemma bornOf_filter (infos : List ContainerInfo) (id : Str) :
    (infos.filter fun info => info.id ≠ id).map bornOf =
      (infos.map bornOf).filter fun b => b.id ≠ id := by
  rw [List.filter_map]; rfl

/-- A program keeps what the file stands for, its result counted. -/
def Keeps (p : Dao (Option Entry)) (file : DataFile) (log : List Entry) : Prop :=
  Kept (p.run file).1 (log ++ ((p.run file).2.bind id).toList)

variable {file file' : DataFile} {log : List Entry} {rs : List Record}

lemma keeps_of_bind {α : Type} {p : Dao α} {f : α → Dao (Option Entry)} {a : α}
    (hrun : p.run file = (file', some a)) (h : Keeps (f a) file' log) :
    Keeps (p >>= f) file log := by
  unfold Keeps
  rwa [run_bind_some hrun]

lemma keeps_none (h : Kept file log) : Keeps (pure none) file log := by
  simpa [Keeps] using h

lemma keeps_crash (h : Kept file log) : Keeps .crash file log := by
  simpa [Keeps] using h

lemma keeps_lookup {f : Option ContainerInfo → Dao (Option Entry)}
    (h : Inv file ((survivors log).map bornOf) rs) (hn : NamesDiffer (survivors log)) (sys : Sys)
    (value : Str) (hnone : ∀ file', Kept file' log → Keeps (f none) file' log)
    (hsome : ∀ file' rs' r, Inv file' ((survivors log).map bornOf) rs' → r ∈ rs' →
      Keeps (f (some r.info)) file' log) :
    Keeps (getContainerByIdOrName sys value >>= f) file log := by
  obtain ⟨file', hrun, hinv⟩ := h.lookup sys value
  refine keeps_of_bind hrun ?_
  rcases hf : found sys value rs with _ | r
  · exact hnone file' ⟨⟨_, hinv⟩, hn⟩
  · exact hsome file' _ r hinv (found_mem_lookedUp hf)

lemma bornOf_mem (h : Inv file ((survivors log).map bornOf) rs) {r : Record} (hr : r ∈ rs) :
    birth r ∈ (survivors log).map bornOf :=
  h.births ▸ List.mem_map_of_mem hr

lemma exists_record (h : Inv file ((survivors log).map bornOf) rs) {id : Str}
    (hrec : Recorded id log) : ∃ r ∈ rs, r.id = id := by
  obtain ⟨info, hmem, rfl⟩ := hrec
  have hb : bornOf info ∈ rs.map birth := h.births ▸ List.mem_map_of_mem hmem
  obtain ⟨r, hr, heq⟩ := List.mem_map.mp hb
  exact ⟨r, hr, congrArg Birth.id heq⟩

lemma recorded_of_mem (h : Inv file ((survivors log).map bornOf) rs) {r : Record}
    (hr : r ∈ rs) : Recorded r.id log := by
  obtain ⟨info, hmem, heq⟩ := List.mem_map.mp (bornOf_mem h hr)
  exact ⟨info, hmem, congrArg Birth.id heq⟩

/-! ### The commands, one by one -/

lemma keeps_resolve (h : Kept file log) (sys : Sys) (name : Str) :
    Keeps (resolve sys name) file log := by
  obtain ⟨⟨rs, h⟩, hn⟩ := h
  exact keeps_lookup h hn sys name (fun _ hk => keeps_none hk)
    fun _ _ _ hinv _ => keeps_none ⟨⟨_, hinv⟩, hn⟩

lemma keeps_ps (h : Kept file log) : Keeps Event.ps.program file log := by
  obtain ⟨⟨rs, h⟩, hn⟩ := h
  exact keeps_of_bind (list_run h.represents) (keeps_none ⟨⟨rs, h⟩, hn⟩)

lemma keeps_start (h : Kept file log) (sys : Sys) (containerName : Str) {pid : Option Int32}
    (hpid : ∀ p, pid = some p → 0 < p) (now : Int64) :
    Keeps (start sys containerName pid now) file log := by
  obtain ⟨⟨rs, h⟩, hn⟩ := h
  refine keeps_lookup h hn sys containerName (fun _ hk => keeps_none hk) ?_
  intro file' rs' r hinv hr
  by_cases hs : r.info.status = .running
  · simpa [hs] using keeps_none ⟨⟨_, hinv⟩, hn⟩
  · cases pid with
    | none => simpa [hs] using keeps_none ⟨⟨_, hinv⟩, hn⟩
    | some p =>
      have hb : birth (r.info.restartedAs p now).record ∈ (survivors log).map bornOf := by
        rw [birth_restartedAs]; exact bornOf_mem hinv hr
      obtain ⟨file'', hrun, hinv'⟩ := hinv.update hb (pidOk_restartedAs r (hpid p rfl) now)
      simp only [hs, if_false]
      exact keeps_of_bind hrun (keeps_none ⟨⟨_, hinv'⟩, hn⟩)

lemma keeps_insert (h : Inv file ((survivors log).map bornOf) rs)
    (hn : NamesDiffer (survivors log)) {info : ContainerInfo} (hid : Fresh info.id log)
    (hname : info.name = [] ∨ ∀ r ∈ rs, r.name ≠ info.name)
    (hp : PidOk info.record) :
    Keeps (ContainerDao.insert info >>= fun _ => pure (some (.inserted info))) file log := by
  have hfresh : ∀ b ∈ (survivors log).map bornOf, b.id ≠ info.id ∧ b.name ≠ info.id := by
    intro b hb
    obtain ⟨info', hmem, rfl⟩ := List.mem_map.mp hb
    exact hid info' hmem
  obtain ⟨file', hrun, hinv⟩ := h.insert hfresh hp
  refine keeps_of_bind hrun ⟨⟨rs ++ [info.record], ?_⟩, ?_⟩
  · simpa [survivors_inserted, bornOf] using hinv
  · change NamesDiffer (survivors (log ++ [.inserted info]))
    rw [survivors_inserted]
    refine hn.append fun a ha heq => ?_
    rcases hname with hempty | hne
    · exact heq.trans hempty
    · have hb : bornOf a ∈ rs.map birth := h.births ▸ List.mem_map_of_mem ha
      obtain ⟨r, hr, hra⟩ := List.mem_map.mp hb
      exact absurd ((congrArg Birth.name hra).trans heq) (hne r hr)

lemma keeps_recordContainer (h : Inv file ((survivors log).map bornOf) rs)
    (hn : NamesDiffer (survivors log)) {args : RunArgs} {env : RunEnv} (hid : Fresh env.uuid log)
    (hname : args.name.getD [] = [] ∨ ∀ r ∈ rs, r.name ≠ args.name.getD [])
    (hpid : ∀ p, env.pid = some p → 0 < p) : Keeps (recordContainer args env) file log := by
  unfold recordContainer
  rcases hp : env.pid with _ | pid
  · exact keeps_none ⟨⟨rs, h⟩, hn⟩
  · rcases commandOf args.cmdArr with _ | command
    · exact keeps_crash ⟨⟨rs, h⟩, hn⟩
    · exact keeps_insert h hn hid hname ⟨fun hs => (by cases hs), fun _ => ⟨hpid pid hp, rfl⟩⟩

lemma keeps_run (h : Kept file log) (args : RunArgs) {env : RunEnv}
    (hid : Fresh env.uuid log) (hpid : ∀ p, env.pid = some p → 0 < p) :
    Keeps (run args env) file log := by
  obtain ⟨⟨rs, h⟩, hn⟩ := h
  unfold run
  rcases hname : args.name with _ | name
  · exact keeps_recordContainer h hn hid (by simp [hname]) hpid
  · refine keeps_of_bind (getContainerByName_run h.represents name) ?_
    split_ifs with hsome
    · exact keeps_none ⟨⟨rs, h⟩, hn⟩
    · refine keeps_recordContainer h hn hid (Or.inr ?_) hpid
      simpa [hname] using hsome

lemma keeps_delete (h : Inv file ((survivors log).map bornOf) rs)
    (hn : NamesDiffer (survivors log)) {id : Str} (hrec : Recorded id log) (sys : Sys) :
    Keeps (deleteById sys id >>= fun _ => pure (some (.deleted id))) file log := by
  obtain ⟨r, hr, rfl⟩ := exists_record h hrec
  obtain ⟨file', rs', hrun, hinv, -⟩ := h.delete hr sys
  have hsurv : survivors (log ++ [.deleted r.id]) = _ := survivors_deleted log r.id
  refine keeps_of_bind hrun ⟨⟨rs', ?_⟩, ?_⟩
  · change StoreInv.Inv file' ((survivors (log ++ [.deleted r.id])).map bornOf) rs'
    rwa [hsurv, bornOf_filter]
  · change NamesDiffer (survivors (log ++ [.deleted r.id]))
    rw [hsurv]
    exact List.Pairwise.filter _ hn

/-- The container that was looked up is still there when it is deleted, whatever `stop` has
repaired in between. -/
lemma keeps_remove (h : Kept file log) (force : Bool) (sys sysStop sysDelete : Sys)
    (removed : Bool) (containerName : Str) :
    Keeps (removeContainer force sys sysStop sysDelete removed containerName) file log := by
  obtain ⟨⟨rs, h⟩, hn⟩ := h
  refine keeps_lookup h hn sys containerName (fun _ hk => keeps_none hk) ?_
  intro file₁ rs₁ r h₁ hr
  have hrec : Recorded r.info.id log := recorded_of_mem h₁ hr
  have last : ∀ file₂ rs₂, StoreInv.Inv file₂ ((survivors log).map bornOf) rs₂ →
      Keeps (if removed then do
          deleteById sysDelete r.info.id
          return some (.deleted r.info.id)
        else return none) file₂ log := by
    intro file₂ rs₂ h₂
    cases removed with
    | true => exact keeps_delete h₂ hn hrec sysDelete
    | false => exact keeps_none ⟨⟨rs₂, h₂⟩, hn⟩
  by_cases hs : r.info.status = .running
  · cases force with
    | true =>
      simp only [hs, if_true]
      obtain ⟨file₂, hrun, h₂⟩ := h₁.lookup sysStop containerName
      have hstop : (resolve sysStop containerName).run file₁ = (file₂, some none) := by
        simp [resolve, hrun]
      exact keeps_of_bind hstop (last file₂ _ h₂)
    | false => simpa [hs] using keeps_none ⟨⟨_, h₁⟩, hn⟩
  · simpa [hs] using last file₁ rs₁ h₁

/-- The monitor finds its container, so it neither dies nor marks another one. -/
lemma keeps_monitorExit (h : Kept file log) {id : Str} (hrec : Recorded id log)
    (sysUmount sys : Sys) (now : Int64) : Keeps (monitorExit sysUmount sys now id) file log := by
  obtain ⟨⟨rs, h⟩, hn⟩ := h
  refine keeps_lookup h hn sysUmount id (fun _ hk => keeps_crash hk) ?_
  intro file₁ rs₁ _ h₁ _
  obtain ⟨r, hr, rfl⟩ := exists_record h₁ hrec
  obtain ⟨file₂, hrun, h₂⟩ := h₁.stop hr sys now
  rw [ofOption_some, pure_bind]
  exact keeps_of_bind hrun (keeps_none ⟨⟨_, h₂⟩, hn⟩)

lemma keeps_runCheckandrestart (h : Kept file log) {id : Str} (hrec : Recorded id log)
    (proc : Int32 → Bool) (sysStop : Sys) (now : Int64) (sysStart : Sys) {pid : Option Int32}
    (hpid : ∀ p, pid = some p → 0 < p) (startTime : Int64) :
    Keeps (runCheckandrestart proc sysStop now sysStart pid startTime id) file log := by
  obtain ⟨⟨rs, h⟩, hn⟩ := h
  obtain ⟨r, hr, rfl⟩ := exists_record h hrec
  refine keeps_of_bind (getContainerById_run h.represents r.id) ?_
  obtain ⟨r', hfind⟩ : ∃ r', rs.find? (fun x => x.id = r.id) = some r' :=
    Option.isSome_iff_exists.mp (List.find?_isSome.mpr ⟨r, hr, by simp⟩)
  have hid : r'.id = r.id := by simpa using List.find?_some hfind
  rw [hfind, Option.map_some, ofOption_some, pure_bind, show r'.info.id = r.id from hid]
  split_ifs
  · obtain ⟨file', hrun, h'⟩ := h.stop hr sysStop now
    exact keeps_of_bind hrun (keeps_start ⟨⟨_, h'⟩, hn⟩ sysStart r.id hpid startTime)
  · exact keeps_none ⟨⟨rs, h⟩, hn⟩

lemma kept_step {s : Ledger} {e : Event} (h : Kept s.file s.log) (ha : Admissible s e) :
    Kept (s.step e).file (s.step e).log := by
  change Keeps e.program s.file s.log
  cases e with
  | run args env => exact keeps_run h args ha.1 ha.2
  | start sys containerName pid now => exact keeps_start h sys containerName ha now
  | stop sys name => exact keeps_resolve h sys name
  | exec sys name => exact keeps_resolve h sys name
  | attach sys name => exact keeps_resolve h sys name
  | ps => exact keeps_ps h
  | rm force sys sysStop sysDelete removed containerName =>
    exact keeps_remove h force sys sysStop sysDelete removed containerName
  | monitorExit sysUmount sys now id => exact keeps_monitorExit h ha sysUmount sys now
  | supervisorRestart proc sysStop now sysStart pid startTime id =>
    exact keeps_runCheckandrestart h ha.1 proc sysStop now sysStart ha.2 startTime

lemma kept_reach {s : Ledger} (h : machine.Reach Admissible s) : Kept s.file s.log := by
  refine h.invariant (I := fun s => Kept s.file s.log) ?_ ?_
  · rintro ⟨file, log⟩ ⟨hfile, rfl⟩
    refine ⟨⟨[], ?_, rfl, .nil, by simp⟩, .nil⟩
    rcases hfile with rfl | rfl
    · exact .missing
    · exact .empty
  · intro s e s' hk ha hs
    cases hs
    exact kept_step hk ha

/-- **Store invariant**: after any run the file holds the containers inserted and not deleted,
once each and in order, as they were recorded at first; ids are different and so are names
that are not empty; a stopped container has no pid and a running one has one; and a lookup by
the id of a record finds that record. -/
theorem store_invariant {s : Ledger} (h : machine.Reach Admissible s) :
    ∃ rs, Represents s.file rs ∧
      rs.Pairwise (fun a b => a.id ≠ b.id) ∧
      rs.Pairwise (fun a b => a.name = b.name → a.name = []) ∧
      rs.map birth = (survivors s.log).map bornOf ∧
      (∀ r ∈ rs, PidOk r) ∧
      ∀ r ∈ rs, ∀ sys, ((getContainerByIdOrName sys r.id).run s.file).2 =
        some (some (repaired sys r).info) := by
  obtain ⟨⟨rs, hinv⟩, hn⟩ := kept_reach h
  have hd : Distinct (rs.map birth) := hinv.births.symm ▸ hinv.distinct
  have hids := List.pairwise_map.mp hd.ids
  have hnames := hn.of_births hinv.births
  refine ⟨rs, hinv.represents, hids, hnames, hinv.births, hinv.pids, fun r hr sys => ?_⟩
  obtain ⟨file', hrun, -⟩ := hinv.lookup sys r.id
  rw [hrun, found_id hd hr]
  rfl

/-- Two containers, the first of which exits and is removed. -/
def twoContainers : List Event :=
  [.run ⟨some "web".toList, ["httpd".toList, "-f".toList], OrdSet.ofList ["/srv:/app".toList]⟩
      ⟨"c1".toList, some 4711, 1700000000, 1700000000⟩,
    .run ⟨none, ["sh".toList], ∅⟩ ⟨"c2".toList, some 4720, 1700000010, 1700000010⟩,
    .monitorExit ⟨fun _ => true, 0⟩ ⟨fun _ => false, 1700000020⟩ 1700000020 "c1".toList,
    .rm false ⟨fun _ => true, 0⟩ ⟨fun _ => true, 0⟩ ⟨fun _ => true, 0⟩ true "web".toList]

theorem store_invariant_two :
    ∃ s rs, machine.runs ⟨.missing, []⟩ twoContainers = some s ∧ Represents s.file rs ∧
      rs.map birth = [⟨"c2".toList, [], "sh".toList, 1700000010, ∅⟩] ∧ ∀ r ∈ rs, PidOk r := by
  have hstart : machine.Reach Admissible ⟨.missing, []⟩ := .start ⟨Or.inl rfl, rfl⟩
  have hmeets : machine.Meets Admissible ⟨.missing, []⟩ twoContainers := by
    have hpid : ∀ p q : Int32, 0 < p → some p = some q → 0 < q := by
      rintro p q hp ⟨⟩
      exact hp
    refine .cons ⟨by decide, fun q => hpid 4711 q (by decide)⟩ rfl ?_
    refine .cons ⟨by decide, fun q => hpid 4720 q (by decide)⟩ rfl ?_
    exact .cons (by decide : Recorded _ _) rfl (.cons trivial rfl trivial)
  obtain ⟨rs, hrep, -, -, hbirths, hpids, -⟩ := store_invariant (hstart.runs hmeets rfl)
  exact ⟨_, rs, rfl, hrep, hbirths.trans (by decide), hpids⟩

end Hoststack.Commands
