import Hoststack.ContainerFs
import Hoststack.StoreInv
import Hoststack.Lib.Machine

/-!
The life of containers: their processes and monitors, the commands, and the supervisor with
its threads, moving one step at a time in any order.

A call of `ContainerDao` is one step, and so is a mount, a signal and the deletion of a
directory. Processes exit and are killed at any time, their pids are given to others, and the
machine may be rebooted. The containers are those of the data file at the beginning. Below
the merged directories of different containers nothing is shared, so mounts are kept by
container.
-/

namespace Hoststack.Lifecycle

open Cell.Prog ContainerDao ContainerFs

/-! ### The processes -/

/-- One turn of the loops over the table and the volumes. -/
inductive MountTask where
  | entry (mntDir : MntDir)
  | volume (volume : Str)
  deriving DecidableEq

/-- The turns of `mount_container` and `mount_volume_list`, in order. -/
def mountTasks (env : Env) (info : ContainerInfo) : List MountTask :=
  (env.table.take 1 ++ env.table).map .entry ++ info.volumeList.elems.map .volume

def MountTask.run (env : Env) (containerId : Str) :
    MountTask → FsState → Option (FsState × Bool)
  | .entry e, s => some (mountEntry env containerId e s)
  | .volume v, s => mountVolume env containerId v s

/-- The process of a container, from the clone on. -/
inductive InitState where
  | mounting (tasks : List MountTask)
  | running
  | zombie
  | gone
  deriving DecidableEq

def InitState.alive : InitState → Bool
  | .mounting _ => true
  | .running => true
  | _ => false

/-- What the monitor has done last in `pty_run_container`: the clone, the callback, the wait,
the unmounting of the table and of the volumes, and the change of the status; or it has died. -/
inductive MonitorState where
  | starting
  | relaying
  | reaped
  | untabled
  | unmounted
  | finished
  | dead
  deriving DecidableEq

def MonitorState.alive : MonitorState → Bool
  | .finished => false
  | .dead => false
  | _ => true

/-- A process started for a container, and its monitor. `explicit` says whether a start
command started it, `recorded` whether the callback has run, `signalled` whether `stop` has
sent it a signal, and `umounted` whether the monitor has come through the unmounting. -/
structure Instance where
  info : ContainerInfo
  explicit : Bool
  pid : Int32
  init : InitState
  monitor : MonitorState
  recorded : Bool
  signalled : Bool
  umounted : Bool
  deriving DecidableEq

/-- What is left of a removal after the lookup and `stop`. -/
inductive RemoveStage where
  | containers
  | layer
  | record
  deriving DecidableEq

/-- A process or thread, by what it is about to do. -/
inductive Actor where
  | startContainer (explicit : Bool) (containerName : Str)
  | starting (explicit : Bool) (info : ContainerInfo)
  | inst (i : Instance)
  | stop (caller : Option ContainerInfo) (name : Str)
  | stopping (caller : Option ContainerInfo) (info : ContainerInfo) (waited : Bool)
  | removeContainer (force : Bool) (containerName : Str)
  | removing (info : ContainerInfo) (stage : RemoveStage)
  | resolving (name : Str)
  | asleep (id : Str)
  | rechecking (info : ContainerInfo)
  | restarting (info : ContainerInfo)
  | done
  deriving DecidableEq

/-- What `stop` returns to, which is a removal if it has a caller. -/
def afterStop : Option ContainerInfo → Actor
  | none => .done
  | some info => .removing info .containers

/-- The data file, what is mounted for each container, and which containers have been brought
to rest: by a signal of `stop`, or by an exit of their process that a monitor has to report. -/
structure Shared where
  file : DataFile
  fs : Str → FsState
  halted : Str → Bool

def Shared.setFs (sh : Shared) (id : Str) (fs : FsState) : Shared :=
  { sh with fs := Function.update sh.fs id fs }

/-- The lookup that most commands begin with. -/
def Shared.lookup (sh : Shared) (sys : Sys) (value : Str) : Shared × Option ContainerInfo :=
  let (file, info) := (getContainerByIdOrName sys value).run sh.file
  ({ sh with file }, info.join)

/-- The process of a container exits. -/
def die (sh : Shared) (i : Instance) : Shared × Actor :=
  let halted :=
    if i.monitor.alive || i.signalled then Function.update sh.halted i.info.id true
    else sh.halted
  ({ sh with halted }, .inst { i with init := .zombie })

/-- The process mounts what it has to and then runs the command; it exits where that fails. -/
def initTurn (env : Env) (ok : Bool) (sh : Shared) (i : Instance) : Option (Shared × Actor) :=
  match i.init with
  | .mounting (task :: tasks) =>
    match task.run { env with mountOk := fun _ => ok } i.info.id (sh.fs i.info.id) with
    | some (fs, true) => some (sh.setFs i.info.id fs, .inst { i with init := .mounting tasks })
    | some (fs, false) => some (die (sh.setFs i.info.id fs) i)
    | none => some (die sh i)
  | .mounting [] => some (if ok then (sh, .inst { i with init := .running }) else die sh i)
  | _ => none

/-- The callback writes the record that was looked up before the clone. -/
def callback (time : Int64) (sh : Shared) (i : Instance) : Shared × Actor :=
  let (file, result) := (ContainerDao.update (i.info.restartedAs i.pid time)).run sh.file
  ({ sh with file },
    .inst { i with
      monitor := if result.isSome then .relaying else .dead
      recorded := result.isSome })

/-- Where unmounting is undefined the mounts stay as they are and the monitor goes on; that it
dies of it is a death like any other. Without a record there is no set of volumes to read. -/
def monitorTurn (env : Env) (sys : Sys) (sh : Shared) (i : Instance) :
    Option (Shared × Actor) :=
  match i.monitor with
  | .starting => some (callback sys.time sh i)
  | .relaying =>
    match i.init with
    | .zombie => some (sh, .inst { i with init := .gone, monitor := .reaped })
    | _ => none
  | .reaped =>
    match umountTable env i.info.id (sh.fs i.info.id) with
    | some fs => some (sh.setFs i.info.id fs, .inst { i with monitor := .untabled })
    | none => some (sh, .inst { i with monitor := .untabled })
  | .untabled =>
    match sh.lookup sys i.info.id with
    | (sh, none) => some (sh, .inst { i with monitor := .dead })
    | (sh, some info) =>
      match umountVolumeList (some info) (sh.fs i.info.id) with
      | some fs =>
        some (sh.setFs i.info.id fs, .inst { i with monitor := .unmounted, umounted := true })
      | none => some (sh, .inst { i with monitor := .unmounted })
  | .unmounted =>
    let (file, result) := (changeStatusToStop sys sys.time i.info.id).run sh.file
    some ({ sh with file },
      .inst { i with monitor := if result.isSome then .finished else .dead })
  | _ => none

/-- What a process or thread can do: its next step, at a time and possibly failing; the clone
of a new process; a step of that process; its exit; the death of the process itself, or of
the monitor; and the reaping of a process without a monitor. -/
inductive Label where
  | next (time : Int64) (ok : Bool)
  | launch (pid : Int32)
  | init (ok : Bool)
  | exit
  | killed
  | orphan

def instTurn (env : Env) (proc : Int32 → Bool) (sh : Shared) (i : Instance) :
    Label → Option (Shared × Actor)
  | .next time _ => monitorTurn env ⟨proc, time⟩ sh i
  | .init ok => initTurn env ok sh i
  | .exit => if i.init.alive then some (die sh i) else none
  | .killed => if i.monitor.alive then some (sh, .inst { i with monitor := .dead }) else none
  | .orphan =>
    match i.init, i.monitor.alive with
    | .zombie, false => some (sh, .inst { i with init := .gone })
    | _, _ => none
  | .launch _ => none

/-- The next step of a command or of a thread of the supervisor. -/
def commandTurn (sys : Sys) (ok : Bool) (sh : Shared) : Actor → Option (Shared × Actor)
  | .startContainer explicit containerName =>
    match sh.lookup sys containerName with
    | (sh, none) => some (sh, .done)
    | (sh, some info) =>
      some (sh, if info.status = .running then .done else .starting explicit info)
  | .stop caller name =>
    match sh.lookup sys name with
    | (sh, none) => some (sh, afterStop caller)
    | (sh, some info) =>
      some (sh, if info.status = .running then .stopping caller info false else afterStop caller)
  | .stopping caller info false =>
    some (sh, if sys.proc info.pid then .stopping caller info true else afterStop caller)
  | .stopping caller _ true => some (sh, afterStop caller)
  | .removeContainer force containerName =>
    match sh.lookup sys containerName with
    | (sh, none) => some (sh, .done)
    | (sh, some info) =>
      some (sh,
        if info.status = .running then
          if force then .stop (some info) containerName else .done
        else .removing info .containers)
  | .removing info .containers => some (sh, if ok then .removing info .layer else .done)
  | .removing info .layer => some (sh, if ok then .removing info .record else .done)
  | .removing info .record =>
    some ({ sh with file := ((deleteById sys info.id).run sh.file).1 }, .done)
  | .resolving name => some ((sh.lookup sys name).1, .done)
  | .asleep id =>
    match ((getContainerById id).run sh.file).2.join with
    | none => some (sh, .done)
    | some info => some (sh, if info.status = .running then .rechecking info else .done)
  | .rechecking info => some (sh, if sys.proc info.pid then .done else .restarting info)
  | .restarting info =>
    let (file, result) := (changeStatusToStop sys sys.time info.id).run sh.file
    some ({ sh with file }, if result.isSome then .startContainer false info.id else .done)
  | _ => none

/-- The clone. A start command ends the rest of its container. -/
def launch (env : Env) (explicit : Bool) (info : ContainerInfo) (pid : Int32) (sh : Shared) :
    Shared × Actor :=
  let halted := if explicit then Function.update sh.halted info.id false else sh.halted
  ({ sh with halted },
    .inst
      { info, explicit, pid
        init := .mounting (mountTasks env info)
        monitor := .starting
        recorded := false
        signalled := false
        umounted := false })

/-- One step of a process or thread; `proc` says which `/proc/<pid>` there are. -/
def turn (env : Env) (proc : Int32 → Bool) (sh : Shared) :
    Actor → Label → Option (Shared × Actor)
  | .inst i, l => instTurn env proc sh i l
  | .starting explicit info, .launch pid =>
    if 0 < pid ∧ proc pid = false then some (launch env explicit info pid sh) else none
  | .done, _ => none
  | _, .killed => some (sh, .done)
  | a, .next time ok => commandTurn ⟨proc, time⟩ ok sh a
  | _, _ => none

/-! ### The world -/

/-- The pid a process has, if it is that of a container. -/
def Actor.pid : Actor → Option Int32
  | .inst i =>
    match i.init with
    | .gone => none
    | _ => some i.pid
  | _ => none

/-- The process that has the pid gets a signal. -/
def Actor.signal (pid : Int32) : Actor → Actor
  | .inst i =>
    if Actor.pid (.inst i) = some pid then .inst { i with signalled := true } else .inst i
  | a => a

/-- The pid that a step of `stop` sends a signal to. -/
def Actor.kills : Actor → Label → Option Int32
  | .stopping _ info _, .next _ _ => some info.pid
  | _, _ => none

/-- Everything there is: what is shared, the processes and threads of the program, the pids of
all others, and what the supervisor has listed and not looked at yet. -/
structure World extends Shared where
  actors : List Actor
  others : List Int32
  listed : List ContainerInfo

namespace World

def pids (w : World) : List Int32 := w.others ++ w.actors.filterMap Actor.pid

/-- `/proc/<pid>` is there for every process, also for one that waits to be reaped. -/
def proc (w : World) (pid : Int32) : Bool := decide (pid ∈ w.pids)

/-- The processes after a signal was sent. -/
def signalled (w : World) : Option Int32 → List Actor
  | some pid => w.actors.map (Actor.signal pid)
  | none => w.actors

end World

/-- The commands that are given. -/
inductive Command where
  | start (containerName : Str)
  | stop (name : Str)
  | rm (force : Bool) (containerName : Str)
  | exec (name : Str)
  | attach (name : Str)

def Command.actor : Command → Actor
  | .start containerName => .startContainer true containerName
  | .stop name => .stop none name
  | .rm force containerName => .removeContainer force containerName
  | .exec name => .resolving name
  | .attach name => .resolving name

inductive Action where
  | command (c : Command)
  | turn (n : ℕ) (l : Label)
  | scan
  | scanNext
  | newProcess (pid : Int32)
  | endProcess (pid : Int32)
  | reboot

/-- A running container that has no process gets a thread that looks again later. -/
def scanned (proc : Int32 → Bool) (info : ContainerInfo) : List Actor :=
  if info.status = .running && !proc info.pid then [.asleep info.id] else []

def World.step (env : Env) (w : World) : Action → Option World
  | .command c => some { w with actors := w.actors ++ [c.actor] }
  | .turn n l => do
    let a ← w.actors[n]?
    let (sh, a') ← Lifecycle.turn env w.proc w.toShared a l
    some { w with toShared := sh, actors := (w.signalled (a.kills l)).set n a' }
  | .scan => some { w with listed := ((ContainerDao.list.run w.file).2.join).getD [] }
  | .scanNext =>
    match w.listed with
    | [] => none
    | info :: rest => some { w with actors := w.actors ++ scanned w.proc info, listed := rest }
  | .newProcess pid =>
    if 0 < pid ∧ pid ∉ w.pids then some { w with others := pid :: w.others } else none
  | .endProcess pid => some { w with others := w.others.erase pid }
  | .reboot => some { w with fs := fun _ => ⟨[], []⟩, actors := [], others := [], listed := [] }

/-- The machine is up and nothing runs yet. -/
def World.boot (file : DataFile) : World where
  file
  fs _ := ⟨[], []⟩
  halted _ := false
  actors := []
  others := []
  listed := []

/-- The containers with the births `bs`, recorded as a former run may have left them. -/
def machine (env : Env) (bs : List StoreInv.Birth) : Machine World Action where
  init w := ∃ file rs, StoreInv.Inv file bs rs ∧ w = World.boot file
  step := World.step env

end Hoststack.Lifecycle
