import Hoststack.ContainerDao
import Hoststack.UsgCommon
import Hoststack.Lib.MountStack

/-!
Mounting and unmounting the file system of a container.

The calls made to the system are recorded in order, and the mounts that succeed are kept in a
table of mount points. Which mounts succeed, and which paths there are on the host, is the
environment's to say. The buffers of `PathAssembler` are taken to hold their paths; those of the
functions below have their sizes.
-/

namespace Hoststack

open MountStack Hoststack.Path UsgCommon

def hoststackRepo : Str := "/data/hoststack".toList

def fsType : Str := "overlay2".toList

/-- `snprintf` into a buffer of `size` bytes cuts the text off. -/
def snprintf (size : ℕ) (text : Str) : Str := text.take (size - 1)

/-- `sprintf` into a buffer of `size` bytes; a text that does not fit leaves the result
undefined. -/
def sprintf (size : ℕ) (text : Str) : Option Str :=
  if text.length < size then some text else none

/-- A format that asks for no argument: each percent sign in it is doubled. -/
def literal : Str → Bool
  | '%' :: '%' :: rest => literal rest
  | '%' :: _ => false
  | _ :: rest => literal rest
  | [] => true

lemma literal_of_notMem {text : Str} (h : '%' ∉ text) : literal text := by
  fun_induction literal text with
  | case1 | case2 => simp at h
  | case3 c rest _ _ ih => exact ih fun hmem => h (List.mem_cons_of_mem c hmem)
  | case4 => rfl

namespace PathAssembler

def getUnionFS : Str := hoststackRepo ++ "/".toList ++ fsType

def getLayerDir (containerId : Str) : Str := getUnionFS ++ "/".toList ++ containerId

def getMergedDir (containerId : Str) : Str := getLayerDir containerId ++ "/merged".toList

def getWorkDir (containerId : Str) : Str := getLayerDir containerId ++ "/work".toList

def getDiffDir (containerId : Str) : Str := getLayerDir containerId ++ "/diff".toList

end PathAssembler

namespace ContainerFs

open PathAssembler

structure MntDir where
  src : Str
  target : Str
  type : Str
  deriving DecidableEq

/-- The mount table, without the entry of a null source that ends it. -/
def mntDirArr : List MntDir :=
  [⟨"/bin".toList, "/bin".toList, fsType⟩,
   ⟨"/etc".toList, "/etc".toList, fsType⟩,
   ⟨"/lib".toList, "/lib".toList, fsType⟩,
   ⟨"/lib64".toList, "/lib64".toList, fsType⟩,
   ⟨"/opt".toList, "/opt".toList, fsType⟩,
   ⟨"/run".toList, "/run".toList, fsType⟩,
   ⟨"/sbin".toList, "/sbin".toList, fsType⟩,
   ⟨"/usr".toList, "/usr".toList, fsType⟩,
   ⟨"/var".toList, "/var".toList, fsType⟩,
   ⟨"proc".toList, "/proc".toList, "proc".toList⟩,
   ⟨"sysfs".toList, "/sys".toList, "sysfs".toList⟩,
   ⟨"udev".toList, "/dev".toList, "devtmpfs".toList⟩,
   ⟨"devpts".toList, "/dev/pts".toList, "devpts".toList⟩,
   ⟨"shm".toList, "/dev/shm".toList, "tmpfs".toList⟩,
   ⟨"none".toList, "/tmp".toList, "tmpfs".toList⟩]

/-- The calls made to the system. -/
inductive FsCall where
  | mkdirR (path : Str)
  | system (command : Str)
  | mount (source target type : Str) (bind : Bool) (data : Option Str)
  | umount2 (target : Str)

/-- The mount table in use, the paths the host has, and which calls, by their number, succeed
if they are mounts, or commands for the shell. -/
structure Env where
  table : List MntDir
  exist : List Str → Bool
  mountOk : ℕ → Bool
  shellOk : ℕ → Bool

/-- A host that has every path, with the table of the source. -/
def fullHost : Env := ⟨mntDirArr, fun _ => true, fun _ => true, fun _ => true⟩

/-- The calls so far, and what is mounted. -/
structure FsState where
  calls : List FsCall
  mounts : Mounts Str

namespace FsState

def call (s : FsState) (c : FsCall) : FsState := { s with calls := s.calls ++ [c] }

/-- A call of `mount`, and whether it succeeded. -/
def mount (env : Env) (source target type : Str) (bind : Bool) (data : Option Str)
    (s : FsState) : FsState × Bool :=
  let done := s.call (.mount source target type bind data)
  if env.mountOk s.calls.length then
    ({ done with mounts := resolve target :: s.mounts }, true)
  else (done, false)

/-- A call of `system`. A command that fails is logged as a format with no arguments, which
leaves the result undefined where it asks for some. -/
def system (env : Env) (command : Str) (s : FsState) : Option FsState :=
  if env.shellOk s.calls.length || literal command then some (s.call (.system command)) else none

def umount2 (s : FsState) (target : Str) : FsState :=
  { s.call (.umount2 target) with mounts := MountStack.umount s.mounts (resolve target) }

end FsState

/-! ### Mounting -/

/-- The turn of the mounting loop for an entry, and whether the process goes on. A failure of
the other types is only logged. -/
def mountEntry (env : Env) (containerId : Str) (mntDir : MntDir) (s : FsState) :
    FsState × Bool :=
  let rootfs := getMergedDir containerId
  let subdiff := snprintf 1024 (getDiffDir containerId ++ mntDir.target)
  let subwork := snprintf 1024 (getWorkDir containerId ++ mntDir.target)
  let target := snprintf 1024 (rootfs ++ mntDir.target)
  if mntDir.type = "aufs".toList then
    let data := snprintf 1024
      ("dirs=".toList ++ subdiff ++ "=rw:".toList ++ mntDir.src ++ "=ro".toList)
    (s.call (.mkdirR subdiff)).mount env "none".toList target "aufs".toList false (some data)
  else if mntDir.type = fsType then
    let s := (s.call (.mkdirR subdiff)).call (.mkdirR subwork)
    if env.exist (resolve mntDir.target) then
      let data := snprintf 1024 ("lowerdir=".toList ++ mntDir.src ++ ",upperdir=".toList ++
        subdiff ++ ",workdir=".toList ++ subwork)
      s.mount env "overlay".toList target "overlay".toList false (some data)
    else (s, true)
  else
    ((s.mount env mntDir.src target mntDir.type false none).1, true)

/-- The mounting loop at an entry, with the entries it takes afterwards. -/
def mountLoop (env : Env) (containerId : Str) :
    List MntDir → MntDir → FsState → FsState × Bool
  | [], mntDir, s => mountEntry env containerId mntDir s
  | next :: rest, mntDir, s =>
    match mountEntry env containerId mntDir s with
    | (s, false) => (s, false)
    | (s, true) => mountLoop env containerId rest next s

/-- The loop advances to entry `i` and then increments `i`, which is zero at first: the first
entry is taken twice. -/
def mountContainer (env : Env) (containerId : Str) (s : FsState) : FsState × Bool :=
  match env.table with
  | [] => (s, true)
  | first :: rest => mountLoop env containerId (first :: rest) first s

/-- The command that creates a directory; the path stands in it as it is. -/
def mkdirCommand (dir : Str) : Str :=
  "test -d ".toList ++ dir ++ " || sudo mkdir -p ".toList ++ dir

/-- The directories are created through the shell before the mount. -/
def bindMount (env : Env) (containerId src dest : Str) (s : FsState) :
    Option (FsState × Bool) := do
  let s ← s.system env (← sprintf 4096 (mkdirCommand src))
  let dest := pathJoin (getMergedDir containerId) [dest]
  let s ← s.system env (← sprintf 4096 (mkdirCommand dest))
  some (s.mount env src dest "none".toList true none)

/-- A string without an absolute source and destination is freed and then used further, which
leaves the result undefined. -/
def mountVolume (env : Env) (containerId volume : Str) (s : FsState) : Option (FsState × Bool) :=
  match strtok ":".toList volume with
  | none => some (s, true)
  | some (src, rest) =>
    if src.head? ≠ some '/' then none
    else
      match strtok ":".toList rest with
      | none => some (s, true)
      | some (dest, _) =>
        if dest.head? ≠ some '/' then none
        else bindMount env containerId src dest s

def mountVolumes (env : Env) (containerId : Str) : List Str → FsState → Option (FsState × Bool)
  | [], s => some (s, true)
  | volume :: rest, s => do
    match ← mountVolume env containerId volume s with
    | (s, false) => some (s, false)
    | (s, true) => mountVolumes env containerId rest s

def mountVolumeList (env : Env) (containerId : Str) (volumeList : OrdSet Str) (s : FsState) :
    Option (FsState × Bool) :=
  mountVolumes env containerId volumeList.elems s

/-- What the process of a container does to the mounts before it runs the command. -/
def mountAll (env : Env) (containerId : Str) (volumeList : OrdSet Str) (s : FsState) :
    Option (FsState × Bool) :=
  match mountContainer env containerId s with
  | (s, false) => some (s, false)
  | (s, true) => mountVolumeList env containerId volumeList s

/-! ### Unmounting -/

/-- The turn of the unmounting loop for an entry; `line` is what is printed in the buffer. -/
def umountEntry (env : Env) (containerId : Str) (s : FsState × Option Str) (mntDir : MntDir) :
    Option (FsState × Option Str) :=
  if env.exist (resolve mntDir.target) then do
    let line ← sprintf 1024 (getMergedDir containerId ++ mntDir.target)
    some (s.1.umount2 line, some line)
  else some s

/-- The loop over the table. The path printed last is tried once more; where nothing was
printed the buffer is used uninitialized, which leaves the result undefined. -/
def umountTable (env : Env) (containerId : Str) (s : FsState) : Option FsState := do
  let (s, line) ← env.table.reverse.foldlM (umountEntry env containerId) (s, none)
  some (s.umount2 (← line))

/-- The volumes are those of the record looked up, without a test whether there is one. The
record is gone when the loop reads its set of volumes: with any volume in it the result is
undefined, and `umount_volume` is reached with nothing that can be told. -/
def umountVolumeList (info : Option ContainerInfo) (s : FsState) : Option FsState := do
  let info ← info
  if info.volumeList.elems = [] then some s else none

def umountContainer (env : Env) (containerId : Str) (info : Option ContainerInfo)
    (s : FsState) : Option FsState := do
  umountVolumeList info (← umountTable env containerId s)

end ContainerFs

end Hoststack
