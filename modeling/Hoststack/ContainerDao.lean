import Hoststack.ContainerInfo
import Hoststack.Lib.Cell

/-!
The operations on the data file, as programs that read the whole file and write the whole
file. Every one of them opens the file by itself, and none of them takes a lock.

The file may be missing; it may be there and not parse, in which case the parser leaves some
value behind, null for an empty file; or it parses. There are no real numbers in it. A value
that is printed to the file parses back as itself. A program dies where the code throws or uses
a record it has not got.
-/

namespace Hoststack

open Cell Cell.Prog
open ContainerInfo (packContainerInfo dePackContainerInfo)

/-- The content of `hoststack_data_file`. -/
inductive DataFile where
  | missing
  | garbled (root : Json)
  | parsed (root : Json)

namespace DataFile

/-- What parsing the file leaves in `root`. -/
def root : DataFile → Json
  | .missing => .null
  | .garbled root => root
  | .parsed root => root

def isMissing : DataFile → Bool
  | .missing => true
  | _ => false

/-- `jsonreader.parse` returns true. -/
def parses : DataFile → Bool
  | .parsed _ => true
  | _ => false

end DataFile

/-- A program over the data file. -/
abbrev Dao := Prog DataFile

/-- The answers the system gives during a lookup: which `/proc/<pid>` there are, and the
time. -/
structure Sys where
  proc : Int32 → Bool
  time : Int64

namespace ContainerDao

def insert (info : ContainerInfo) : Dao Unit := do
  let file ← get
  let infojson ← ofOption (dePackContainerInfo .null info)
  let root ← ofOption (file.root.append infojson)
  put (.parsed root)

/-- The test `name == value || id == value` on a record; the id is looked at only where the
name differs. -/
def matchesRecord (value : Str) (record : Json) : Option (Bool × Json) := do
  let (name, record) ← record.demand "name"
  if (← name.asString) = value then some (true, record)
  else do
    let (id, record) ← record.demand "id"
    some (decide ((← id.asString) = value), record)

/-- A record that is marked running and has no process is marked stopped; whether that was
so. -/
def repair (sys : Sys) (record : Json) : Option (Bool × Json) := do
  let (status, record) ← record.demand "status"
  if (← status.asInt) = ContainerStatus.running.toInt then do
    let (pid, record) ← record.demand "pid"
    if sys.proc (← pid.asInt) then some (false, record)
    else do
      let record ← record.set "status" (.int ContainerStatus.stoped.toInt.toInt)
      let record ← record.set "stop_time" (.int sys.time.toInt32.toInt)
      some (true, ← record.set "pid" (.int 0))
  else some (false, record)

/-- The loop of the lookup: the records as it leaves them, the record found, and whether it was
repaired, in which case the records are written back. -/
def lookupLoop (sys : Sys) (value : Str) :
    List Json → Option (List Json × Option Json × Bool)
  | [] => some ([], none, false)
  | record :: rest => do
    let (hit, record) ← matchesRecord value record
    if hit then do
      let (dead, record) ← repair sys record
      some (record :: rest, some record, dead)
    else do
      let (rest, found, dead) ← lookupLoop sys value rest
      some (record :: rest, found, dead)

def getContainerByIdOrName (sys : Sys) (value : Str) : Dao (Option ContainerInfo) := do
  let file ← get
  if file.parses = false then return none
  if file.root.size = 0 then return none
  let (records, found, dead) ← ofOption (file.root.elems >>= lookupLoop sys value)
  if dead then put (.parsed (.arr records))
  -- a record that cannot be read has been written back by then
  ofOption (found.mapM packContainerInfo)

/-- The loop of `get_container_by`. -/
def findLoop (key : String) (value : Str) : List Json → Option (Option ContainerInfo)
  | [] => some none
  | record :: rest => do
    let (member, record) ← record.demand key
    if (← member.asString) = value then some (some (← packContainerInfo record))
    else findLoop key value rest

def getContainerBy (key : String) (value : Str) : Dao (Option ContainerInfo) := do
  let file ← get
  if file.parses = false then return none
  if file.root.size = 0 then return none
  ofOption (file.root.elems >>= findLoop key value)

def getContainerById (value : Str) : Dao (Option ContainerInfo) := getContainerBy "id" value

def getContainerByName (value : Str) : Dao (Option ContainerInfo) := getContainerBy "name" value

/-- The loop of `delete_by_id`, which keeps the records with another id than that of `info`;
there is no test whether `info` is there. -/
def deleteLoop (info : Option ContainerInfo) : List Json → Json → Option Json
  | [], newRoot => some newRoot
  | record :: rest, newRoot => do
    let (id, record) ← record.demand "id"
    if (← id.asString) ≠ (← info).id then do
      deleteLoop info rest (← newRoot.append record)
    else deleteLoop info rest newRoot

def deleteById (sys : Sys) (containerName : Str) : Dao Unit := do
  let info ← getContainerByIdOrName sys containerName
  let file ← get
  if file.parses = false then return
  if file.root.size = 0 then return
  let newRoot ← ofOption (file.root.elems >>= fun l => deleteLoop info l .null)
  put (.parsed newRoot)

/-- The loop of `update`: the first record with the id of `info` is written over. -/
def updateLoop (info : ContainerInfo) : List Json → Option (List Json)
  | [] => some []
  | record :: rest => do
    let (id, record) ← record.demand "id"
    if (← id.asString) = info.id then some ((← dePackContainerInfo record info) :: rest)
    else some (record :: (← updateLoop info rest))

def update (info : ContainerInfo) : Dao Unit := do
  let file ← get
  if file.isMissing then insert info
  if file.parses = false then insert info
  if file.root.size = 0 then do
    -- the loop has nothing to go over, and `root` is written as it was read
    insert info
    put (.parsed file.root)
  else do
    let records ← ofOption (file.root.elems >>= updateLoop info)
    put (.parsed (.arr records))

/-- The record is used without a test whether it was found. -/
def changeStatusToStop (sys : Sys) (now : Int64) (name : Str) : Dao Unit := do
  let info ← getContainerByIdOrName sys name
  let info ← ofOption info
  update (info.stopedAt now)

def list : Dao (Option (List ContainerInfo)) := do
  let file ← get
  if file.parses = false then return none
  if file.root.size = 0 then return none
  let infos ← ofOption (file.root.elems >>= fun l => l.mapM packContainerInfo)
  return some infos

end ContainerDao

end Hoststack
