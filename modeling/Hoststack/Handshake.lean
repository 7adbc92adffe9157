import Hoststack.Commands
import Hoststack.PtyExecUtil

/-!
The start of a container, by the launching process and the monitor it forks.

The launcher creates a semaphore, raises it to one and forks the monitor; then it waits until
the semaphore is zero. The monitor clones the container, has it recorded, opens the socket for
the clients and sets the semaphore to zero. The semaphore is not undone when a process ends, so
a monitor that ends early leaves the launcher waiting.

The launcher keeps the semaphore in a variable that all threads of its process share. Another
thread that starts a container may assign it in between, or fork a monitor that takes this
semaphore for its own; the handshake relies on none doing so.
-/

namespace Hoststack.Handshake

open Cell Cell.Prog PtyExecUtil Commands Store UsgCommon

/-- Where the launcher is in `ContainerService::start`, `SemUtil::get` and `SemUtil::zero`. -/
inductive Launcher where
  | semget | setval | semop | assign | fork | read | zero | zeroOther | passed | exited
  deriving DecidableEq

/-- What the variable `synchSem` names: nothing yet, the semaphore of this start, or that of
another one in the process. -/
inductive SynchSem where
  | unset | own | other
  deriving DecidableEq

/-- Where the monitor is in `pty_run_container`. -/
inductive MonitorAt where
  | ptyClone | readHeader | callback | signal | socket | access | unlink | bind | listen
  | initPool | set | loop | ended
  deriving DecidableEq

/-- The socket of the monitor. -/
inductive Socket where
  | closed
  | opened (listenfd : ℤ)
  | bound (listenfd : ℤ)
  | listening (listenfd : ℤ)
  deriving DecidableEq

/-- What is at the path of the container's socket, if anything. -/
inductive SocketFile where
  | stale | bound
  deriving DecidableEq

/-- Which command calls `ContainerService::start`: `run` with what it is given, or `start` with
the record it has looked up. -/
inductive Caller where
  | run (args : RunArgs) (env : RunEnv)
  | start (info : ContainerInfo) (now : Int64)

namespace Caller

def containerId : Caller → Str
  | .run _ env => env.uuid
  | .start info _ => info.id

/-- The success callback. -/
def startSuccess (pid : Int32) : Caller → Dao (Option Entry)
  | .run args env => recordContainer args { env with pid := some pid }
  | .start info now => do
    ContainerDao.update (info.restartedAs pid now)
    return none

end Caller

/-- What the monitor has got so far: the data file, the container's pid and terminal, the data
file before and after the callback, what is at the path, the socket and the pool. -/
structure Site where
  file : DataFile
  child : Option (Int32 × ℤ)
  recorded : Option (DataFile × DataFile)
  path : Option SocketFile
  socket : Socket
  pool : Option Pool

/-- The two processes and the semaphore; `held` is what the variable was when the monitor was
forked, and `lent` says whether the monitor of another start has this semaphore. -/
structure State where
  launcher : Launcher
  monitor : Option MonitorAt
  synchSem : SynchSem
  held : SynchSem
  lent : Bool
  sem : ℕ
  site : Site

/-- A call, with what the system returns. The last three are those of another thread of the
process, which assigns the variable and forks its monitor, and of that monitor. -/
inductive Act where
  | semget (val : Option ℕ)
  | setval (ok : Bool)
  | semop (ok : Bool)
  | assign
  | fork (ok : Bool)
  | read
  | zero (interrupted : Bool)
  | ptyClone (child : Option (Int32 × ℤ))
  | readHeader (r : ReadResult)
  | callback
  | signal (ok : Bool)
  | socket (listenfd : Option ℤ)
  | access (found : Bool)
  | unlink (ok : Bool)
  | bind (ok : Bool)
  | listen (ok : Bool)
  | initPool
  | set (ok : Bool)
  | serve
  | ends
  | assignOther
  | forkOther
  | setOther

/-- A call of the launcher. A failed one ends it, but `semop` with zero is made again when it is
interrupted; it returns when the value is zero, which that of another start may be at any time.
It fails in no other way as long as nobody removes the set. -/
def launch (s : State) : Launcher → Act → Option State
  | .semget, .semget none => some { s with launcher := .exited }
  | .semget, .semget (some val) => some { s with launcher := .setval, sem := val }
  | .setval, .setval ok =>
    some (if ok then { s with launcher := .semop, sem := 0 } else { s with launcher := .exited })
  | .semop, .semop ok =>
    some (if ok then { s with launcher := .assign, sem := s.sem + 1 }
      else { s with launcher := .exited })
  | .assign, .assign => some { s with launcher := .fork, synchSem := .own }
  | .fork, .fork ok =>
    some (if ok then { s with launcher := .read, monitor := some .ptyClone, held := s.synchSem }
      else { s with launcher := .exited })
  | .read, .read =>
    some { s with launcher := if s.synchSem = .own then .zero else .zeroOther }
  | .zero, .zero interrupted =>
    if interrupted then some s
    else if s.sem = 0 then some { s with launcher := .passed }
    else none
  | .zeroOther, .zero interrupted =>
    some (if interrupted then s else { s with launcher := .passed })
  | _, _ => none

/-- What is done for another start. -/
def elsewhere (s : State) : Act → Option State
  | .assignOther => some { s with synchSem := .other }
  | .forkOther => some { s with lent := s.lent || s.synchSem = .own }
  | .setOther => some { s with sem := if s.lent then 0 else s.sem }
  | _ => none

/-- The monitor ends, and its descriptors are closed. -/
def Site.ended (w : Site) : MonitorAt × Site := (.ended, { w with socket := .closed })

/-- A call of the monitor, which may end at any point. The results of `read`, `signal`, `unlink`
and `semctl` are not looked at. What `access` finds is there, and a path that is there cannot be
bound. -/
def monitor (caller : Caller) (w : Site) : MonitorAt → Act → Option (MonitorAt × Site)
  | .ended, _ => none
  | _, .ends => some w.ended
  | .ptyClone, .ptyClone none => some w.ended
  | .ptyClone, .ptyClone (some child) => some (.readHeader, { w with child := some child })
  | .readHeader, .readHeader _ => some (.callback, w)
  | .callback, .callback => do
    let (pid, _) ← w.child
    match (caller.startSuccess pid).run w.file with
    | (file, some _) => some (.signal, { w with file, recorded := some (w.file, file) })
    | (file, none) => some { w with file }.ended
  | .signal, .signal _ => some (.socket, w)
  | .socket, .socket none => some w.ended
  | .socket, .socket (some listenfd) => some (.access, { w with socket := .opened listenfd })
  | .access, .access found =>
    if found && w.path.isNone then none else some (if found then .unlink else .bind, w)
  | .unlink, .unlink ok => some (.bind, { w with path := if ok then none else w.path })
  | .bind, .bind ok =>
    if ok then
      match w.path, w.socket with
      | none, .opened listenfd =>
        some (.listen, { w with path := some .bound, socket := .bound listenfd })
      | _, _ => none
    else some w.ended
  | .listen, .listen ok =>
    if ok then
      match w.socket with
      | .bound listenfd => some (.initPool, { w with socket := .listening listenfd })
      | _ => none
    else some w.ended
  | .initPool, .initPool => do
    let (_, masterFd) ← w.child
    match w.socket with
    | .listening listenfd => some (.set, { w with pool := some (initPool listenfd masterFd) })
    | _ => none
  | .set, .set _ => some (.loop, w)
  | .loop, .serve => some (.loop, w)
  | _, _ => none

/-- `SemUtil::set` with zero, where it does not fail; no other call of the monitor is about the
semaphore, nor does its end undo anything. -/
def setSem : Act → ℕ → ℕ
  | .set true, _ => 0
  | _, sem => sem

/-- The launcher, the monitor and other threads, in any order, with any data file and anything at
the path at the beginning but what this monitor binds. -/
def starting (caller : Caller) : Machine State Act where
  init s := s.launcher = .semget ∧ s.monitor = none ∧ s.synchSem ≠ .own ∧ s.lent = false ∧
    s.site.child = none ∧ s.site.recorded = none ∧ s.site.path ≠ some .bound ∧
    s.site.socket = .closed ∧ s.site.pool = none
  step s a :=
    match launch s s.launcher a with
    | some s' => some s'
    | none =>
      match elsewhere s a with
      | some s' => some s'
      | none => do
        let pc ← s.monitor
        let (pc, site) ← monitor caller s.site pc a
        some { s with
          monitor := some pc
          sem := if s.held = .own then setSem a s.sem else s.sem
          site }

/-- No other thread assigns the variable between the assignment of this start and its reading, and
none forks a monitor while the variable names the semaphore of this one. -/
def Exclusive (s : State) : Act → Prop
  | .assignOther => s.launcher ≠ .fork ∧ s.launcher ≠ .read
  | .forkOther => s.synchSem ≠ .own
  | _ => True

instance (s : State) (a : Act) : Decidable (Exclusive s a) :=
  match a with
  | .assignOther => inferInstanceAs (Decidable (_ ∧ _))
  | .forkOther => inferInstanceAs (Decidable (s.synchSem ≠ .own))
  | .semget _ | .setval _ | .semop _ | .assign | .fork _ | .read | .zero _ | .ptyClone _
  | .readHeader _ | .callback | .signal _ | .socket _ | .access _ | .unlink _ | .bind _
  | .listen _ | .initPool | .set _ | .serve | .ends | .setOther =>
    inferInstanceAs (Decidable True)

/-! ### What the monitor has done -/

variable {caller : Caller} {s s' : State} {pc pc' : MonitorAt} {a : Act} {w w' : Site}

/-- The callback has been run with the pid of the container, and has come to its end. -/
def Called (caller : Caller) (w : Site) : Prop :=
  ∃ pid masterFd before after result, w.child = some (pid, masterFd) ∧
    w.recorded = some (before, after) ∧
    (caller.startSuccess pid).run before = (after, some result)

/-- The container is recorded, the path is bound, and the pool is initialised. -/
structure Prepared (caller : Caller) (w : Site) : Prop where
  called : Called caller w
  bound : w.path = some .bound
  pool : ∃ listenfd pid masterFd, w.child = some (pid, masterFd) ∧
    w.pool = some (initPool listenfd masterFd)

/-- The monitor is listening. -/
def Listening (w : Site) : Prop := ∃ listenfd, w.socket = .listening listenfd

/-- What has been done when the monitor comes to a call. -/
def Done (caller : Caller) (w : Site) : MonitorAt → Prop
  | .ptyClone | .readHeader | .callback | .ended => True
  | .signal | .socket | .access | .unlink | .bind => Called caller w
  | .listen => Called caller w ∧ w.path = some .bound
  | .initPool => Called caller w ∧ w.path = some .bound ∧ Listening w
  | .set | .loop => Prepared caller w ∧ Listening w

lemma callback_done (hs : monitor caller w .callback .callback = some (pc', w')) :
    Done caller w' pc' := by
  obtain ⟨⟨pid, masterFd⟩, hchild, hs⟩ := Option.bind_eq_some_iff.mp hs
  dsimp only at hs
  rcases hrun : (caller.startSuccess pid).run w.file with ⟨file, _ | result⟩
  · rw [hrun] at hs
    cases hs
    trivial
  · rw [hrun] at hs
    cases hs
    exact ⟨pid, masterFd, w.file, file, result, hchild, rfl, hrun⟩

lemma bind_done {ok : Bool} (h : Called caller w)
    (hs : monitor caller w .bind (.bind ok) = some (pc', w')) : Done caller w' pc' := by
  simp only [monitor] at hs
  split_ifs at hs
  · split at hs
    · cases hs
      exact ⟨h, rfl⟩
    · cases hs
  · cases hs
    trivial

lemma listen_done {ok : Bool} (h : Called caller w ∧ w.path = some .bound)
    (hs : monitor caller w .listen (.listen ok) = some (pc', w')) : Done caller w' pc' := by
  simp only [monitor] at hs
  split_ifs at hs
  · split at hs
    · cases hs
      exact ⟨h.1, h.2, _, rfl⟩
    · cases hs
  · cases hs
    trivial

lemma initPool_done (h : Called caller w ∧ w.path = some .bound ∧ Listening w)
    (hs : monitor caller w .initPool .initPool = some (pc', w')) : Done caller w' pc' := by
  obtain ⟨hcalled, hbound, listenfd, hlisten⟩ := h
  obtain ⟨⟨pid, masterFd⟩, hchild, hs⟩ := Option.bind_eq_some_iff.mp hs
  dsimp only at hs
  split at hs
  · cases hs
    exact ⟨⟨hcalled, hbound, _, pid, masterFd, hchild, rfl⟩, listenfd, hlisten⟩
  · cases hs

lemma monitor_done (h : Done caller w pc) (hs : monitor caller w pc a = some (pc', w')) :
    Done caller w' pc' := by
  -- where the call is another one than the next, there is no step
  cases pc <;> cases a <;> try cases hs
  case callback.callback => exact callback_done hs
  case bind.bind ok => exact bind_done h hs
  case listen.listen ok => exact listen_done h hs
  case initPool.initPool => exact initPool_done h hs
  case ptyClone.ptyClone child => cases child <;> cases hs <;> trivial
  case socket.socket listenfd =>
    cases listenfd with
    | none =>
      cases hs
      trivial
    | some listenfd =>
      cases hs
      exact h
  case access.access found =>
    simp only [monitor] at hs
    split_ifs at hs
    · cases hs
      exact h
    · cases hs
      exact h
  case signal.signal | unlink.unlink | set.set | loop.serve => exact h
  -- the monitor ends, or nothing is to be done yet
  all_goals trivial

lemma monitor_prepared (h : Prepared caller w) (hpc : pc = .loop ∨ pc = .ended)
    (hs : monitor caller w pc a = some (pc', w')) :
    Prepared caller w' ∧ (pc' = .loop ∨ pc' = .ended) ∧ a ≠ .set true := by
  rcases hpc with rfl | rfl
  · cases a <;> cases hs
    · exact ⟨h, Or.inl rfl, by simp⟩
    · exact ⟨⟨h.called, h.bound, h.pool⟩, Or.inr rfl, by simp⟩
  · cases hs

lemma monitor_set (h : Done caller w pc)
    (hs : monitor caller w pc (.set true) = some (pc', w')) :
    Prepared caller w' ∧ pc' = .loop := by
  cases pc <;> cases hs
  exact ⟨h.1, rfl⟩

lemma setSem_of_ne (h : a ≠ .set true) (sem : ℕ) : setSem a sem = sem := by
  unfold setSem
  split
  · exact absurd rfl h
  · rfl

/-! ### Any order -/

/-- Before the fork, where the launcher has made the semaphore one. -/
structure Alone (s : State) : Prop where
  monitor : s.monitor = none
  lent : s.lent = false
  launcher : s.launcher ≠ .read ∧ s.launcher ≠ .zero ∧ s.launcher ≠ .zeroOther ∧
    s.launcher ≠ .passed
  cleared : s.launcher = .semop → s.sem = 0
  raised : s.launcher = .assign → s.sem = 1
  named : s.launcher = .fork → s.sem = 1 ∧ s.synchSem = .own

/-- After the fork, where the semaphore is one until the monitor has cleared it. -/
structure Forked (caller : Caller) (s : State) (pc : MonitorAt) : Prop where
  monitor : s.monitor = some pc
  lent : s.lent = false
  held : s.held = .own
  done : Done caller s.site pc
  launcher : s.launcher = .read ∧ s.synchSem = .own ∨ s.launcher = .zero ∨ s.launcher = .passed
  sem : s.sem = 1 ∧ s.launcher ≠ .passed ∨
    s.sem = 0 ∧ Prepared caller s.site ∧ (pc = .loop ∨ pc = .ended)

/-- **The invariant** of the start. -/
def Inv (caller : Caller) (s : State) : Prop := Alone s ∨ ∃ pc, Forked caller s pc

lemma Alone.exited (h : Alone s) : Inv caller { s with launcher := .exited } :=
  Or.inl ⟨h.monitor, h.lent, by simp, by simp, by simp, by simp⟩

lemma Alone.launch (h : Alone s) (hs : launch s s.launcher a = some s') : Inv caller s' := by
  obtain ⟨hread, hzero, hother, -⟩ := h.launcher
  have hcleared := h.cleared
  have hraised := h.raised
  have hnamed := h.named
  unfold Handshake.launch at hs
  split at hs
  · cases hs
    exact h.exited
  · cases hs
    exact Or.inl ⟨h.monitor, h.lent, by simp, by simp, by simp, by simp⟩
  · rename_i ok _
    cases hs
    cases ok with
    | false => exact h.exited
    | true => exact Or.inl ⟨h.monitor, h.lent, by simp, by simp, by simp, by simp⟩
  · rename_i ok hl
    cases hs
    cases ok with
    | false => exact h.exited
    | true => exact Or.inl ⟨h.monitor, h.lent, by simp, by simp, by simp [hcleared hl], by simp⟩
  · rename_i hl
    cases hs
    exact Or.inl ⟨h.monitor, h.lent, by simp, by simp, by simp, by simp [hraised hl]⟩
  · rename_i ok hl
    cases hs
    cases ok with
    | false => exact h.exited
    | true =>
      obtain ⟨hone, hown⟩ := hnamed hl
      exact Or.inr ⟨_, rfl, h.lent, hown, trivial, Or.inl ⟨rfl, hown⟩, Or.inl ⟨hone, by simp⟩⟩
  · exact absurd ‹_› hread
  · exact absurd ‹_› hzero
  · exact absurd ‹_› hother
  · cases hs

/-- After the fork the launcher reads the variable, goes on waiting, or finds the semaphore
zero. -/
lemma Forked.launch_cases (h : Forked caller s pc) (hs : launch s s.launcher a = some s') :
    s' = s ∨ s.launcher = .read ∧ s' = { s with launcher := .zero } ∨
      s.launcher = .zero ∧ s.sem = 0 ∧ s' = { s with launcher := .passed } := by
  rcases h.launcher with ⟨hl, hown⟩ | hl | hl <;> rw [hl] at hs <;> cases a <;> try cases hs
  · rw [if_pos hown]
    exact Or.inr (Or.inl ⟨hl, rfl⟩)
  · simp only [launch] at hs
    split_ifs at hs with hint hsem
    · exact Or.inl (Option.some.inj hs).symm
    · exact Or.inr (Or.inr ⟨hl, hsem, (Option.some.inj hs).symm⟩)

lemma Forked.launch (h : Forked caller s pc) (hs : launch s s.launcher a = some s') :
    Forked caller s' pc := by
  rcases h.launch_cases hs with rfl | ⟨-, rfl⟩ | ⟨-, hsem, rfl⟩
  · exact h
  · exact ⟨h.monitor, h.lent, h.held, h.done, Or.inr (Or.inl rfl),
      h.sem.imp_left fun hone => ⟨hone.1, by simp⟩⟩
  · have hcleared := h.sem.resolve_left fun hone => by omega
    exact ⟨h.monitor, h.lent, h.held, h.done, Or.inr (Or.inr rfl), Or.inr hcleared⟩

/-- Where no other thread comes in between, nothing that is done for another start matters. -/
lemma Inv.elsewhere (h : Inv caller s) (hx : Exclusive s a) (hs : elsewhere s a = some s') :
    Inv caller s' := by
  cases a <;> cases hs
  case assignOther =>
    obtain ⟨hfork, hread⟩ := hx
    rcases h with h | ⟨pc, h⟩
    · exact Or.inl ⟨h.monitor, h.lent, h.launcher, h.cleared, h.raised, fun hl => absurd hl hfork⟩
    · exact Or.inr ⟨pc, h.monitor, h.lent, h.held, h.done,
        Or.inr (h.launcher.resolve_left fun hl => hread hl.1), h.sem⟩
  case forkOther =>
    have hlent : (s.lent || decide (s.synchSem = .own)) = s.lent := by
      rw [decide_eq_false hx, Bool.or_false]
    rw [hlent]
    exact h
  case setOther =>
    have hlent : s.lent = false := h.elim Alone.lent fun ⟨_, h⟩ => h.lent
    have hsem : (if s.lent then 0 else s.sem) = s.sem := by rw [hlent]; rfl
    rw [hsem]
    exact h

lemma Forked.monitor_step (h : Forked caller s pc)
    (hs : Handshake.monitor caller s.site pc a = some (pc', w')) :
    Forked caller { s with monitor := some pc', sem := setSem a s.sem, site := w' } pc' := by
  have hdone : Done caller w' pc' := monitor_done h.done hs
  refine ⟨rfl, h.lent, h.held, hdone, h.launcher, ?_⟩
  rcases h.sem with ⟨hone, hl⟩ | ⟨hzero, hprepared, hpc⟩
  · by_cases ha : a = .set true
    · subst ha
      obtain ⟨hprepared, hpc⟩ := monitor_set h.done hs
      exact Or.inr ⟨rfl, hprepared, Or.inl hpc⟩
    · exact Or.inl ⟨(setSem_of_ne ha _).trans hone, hl⟩
  · obtain ⟨hprepared', hpc', ha⟩ := monitor_prepared hprepared hpc hs
    exact Or.inr ⟨(setSem_of_ne ha _).trans hzero, hprepared', hpc'⟩

lemma inv_step (h : Inv caller s) (hx : Exclusive s a) (hs : (starting caller).step s a = some s') :
    Inv caller s' := by
  dsimp only [starting] at hs
  split at hs
  · rename_i hlaunch
    cases hs
    rcases h with h | ⟨pc, h⟩
    · exact h.launch hlaunch
    · exact Or.inr ⟨pc, h.launch hlaunch⟩
  · split at hs
    · rename_i helse
      cases hs
      exact h.elsewhere hx helse
    · obtain ⟨pc, hpc, hs⟩ := Option.bind_eq_some_iff.mp hs
      obtain ⟨⟨pc', w'⟩, hmonitor, heq⟩ := Option.bind_eq_some_iff.mp hs
      cases heq
      rcases h with h | ⟨pc₀, h⟩
      · cases h.monitor.symm.trans hpc
      · obtain rfl : pc₀ = pc := Option.some.inj (h.monitor.symm.trans hpc)
        rw [if_pos h.held]
        exact Or.inr ⟨pc', h.monitor_step hmonitor⟩

lemma inv_reach (h : (starting caller).Reach Exclusive s) : Inv caller s := by
  refine h.invariant (fun s hs => Or.inl ?_) fun s a s' hi hx hs => inv_step hi hx hs
  obtain ⟨hlauncher, hmonitor, -, hlent, -⟩ := hs
  exact ⟨hmonitor, hlent, by simp [hlauncher], by simp [hlauncher], by simp [hlauncher],
    by simp [hlauncher]⟩

/-- The container that is started has a record already if the caller is `start`. -/
def Caller.Known (rs : List Record) : Caller → Prop
  | .run _ _ => True
  | .start info _ => ∃ r ∈ rs, r.id = info.id

/-- The container is recorded as running with the pid. -/
def RunsAs (file : DataFile) (id : Str) (pid : Int32) : Prop :=
  ∃ rs, Represents file rs ∧ ∃ r ∈ rs, r.id = id ∧ r.status = .running ∧ r.pid = pid

lemma record_mem_updated {rs : List Record} {info : ContainerInfo} (h : ∃ r ∈ rs, r.id = info.id) :
    info.record ∈ updated info rs := by
  obtain ⟨r, hmem, hid⟩ := h
  have hfound : (rs.find? fun r => r.id = info.id).isSome :=
    List.find?_isSome.mpr ⟨r, hmem, decide_eq_true hid⟩
  obtain ⟨r', hr'⟩ := Option.isSome_iff_exists.mp hfound
  have hupdated : (updated info rs).find? (fun r => r.id = info.id) =
      (rs.find? fun r => r.id = info.id).map fun _ => info.record :=
    find?_updateFirst_self fun _ _ => decide_eq_true rfl
  rw [hr'] at hupdated
  exact List.mem_of_find?_eq_some hupdated

lemma startSuccess_records {before after : DataFile} {rs : List Record} {pid : Int32}
    {result : Option Entry} (h : Represents before rs) (hknown : caller.Known rs)
    (hrun : (caller.startSuccess pid).run before = (after, some result)) :
    RunsAs after caller.containerId pid := by
  cases caller with
  | run args env =>
    unfold Caller.startSuccess recordContainer at hrun
    dsimp only at hrun
    rcases hcommand : commandOf args.cmdArr with _ | command
    · rw [hcommand] at hrun
      cases hrun
    · rw [hcommand, ofOption_some, pure_bind, run_bind] at hrun
      let info : ContainerInfo :=
        { pid, command
          id := env.uuid
          name := args.name.getD []
          createTime := env.createTime
          startTime := env.startTime
          stopTime := 0
          status := .running
          abnormalStoped := 1
          volumeList := args.volumeList }
      obtain ⟨file, hinsert, hrep⟩ := insert_run h info
      rw [hinsert] at hrun
      cases hrun
      exact ⟨_, hrep, info.record, by simp, rfl, rfl, rfl⟩
  | start info now =>
    obtain ⟨file, hupdate, hrep⟩ := update_run h (info.restartedAs pid now)
    unfold Caller.startSuccess at hrun
    rw [run_bind_some hupdate] at hrun
    cases hrun
    have hmem : (info.restartedAs pid now).record ∈ updated (info.restartedAs pid now) rs :=
      record_mem_updated hknown
    exact ⟨_, hrep, _, hmem, rfl, rfl, rfl⟩

lemma waits_of_passes (hs : launch s s.launcher a = some s') (hpass : s'.launcher = .passed) :
    s.launcher = .zero ∨ s.launcher = .zeroOther := by
  unfold launch at hs
  split at hs
  · cases hs
    cases hpass
  · cases hs
    cases hpass
  · cases hs
    split_ifs at hpass
  · cases hs
    split_ifs at hpass
  · cases hs
    cases hpass
  · cases hs
    split_ifs at hpass
  · cases hs
    dsimp only at hpass
    split_ifs at hpass
  · exact Or.inl ‹_›
  · exact Or.inr ‹_›
  · cases hs

lemma sem_of_passes (h : Inv caller s) (hs : (starting caller).step s a = some s')
    (hwait : s.launcher ≠ .passed) (hpass : s'.launcher = .passed) :
    ∃ pc, Forked caller s pc ∧ s.sem = 0 := by
  dsimp only [starting] at hs
  split at hs
  · rename_i hlaunch
    cases hs
    rcases h with h | ⟨pc, h⟩
    · obtain ⟨-, hzero, hother, -⟩ := h.launcher
      exact absurd (waits_of_passes hlaunch hpass) (not_or.mpr ⟨hzero, hother⟩)
    · rcases h.launch_cases hlaunch with rfl | ⟨-, rfl⟩ | ⟨-, hsem, -⟩
      · exact absurd hpass hwait
      · cases hpass
      · exact ⟨pc, h, hsem⟩
  · split at hs
    · rename_i helse
      cases hs
      refine absurd ?_ hwait
      cases a <;> cases helse <;> exact hpass
    · obtain ⟨pc', -, hs⟩ := Option.bind_eq_some_iff.mp hs
      obtain ⟨w', -, heq⟩ := Option.bind_eq_some_iff.mp hs
      cases heq
      exact absurd hpass hwait

/-- **The handshake**, where no other thread of the process comes in between: where the launcher
passes, the callback has recorded the container as running, the path is bound and the pool
initialised, and the monitor is listening unless it has ended since it cleared the semaphore. -/
theorem passes_when_prepared (h : (starting caller).Reach Exclusive s)
    (hwait : s.launcher ≠ .passed) (hs : (starting caller).step s a = some s')
    (hpass : s'.launcher = .passed) :
    Prepared caller s.site ∧
    (s.monitor = some .loop ∧ Listening s.site ∨ s.monitor = some .ended) ∧
    ∀ pid masterFd before after rs, s.site.child = some (pid, masterFd) →
      s.site.recorded = some (before, after) → Represents before rs → caller.Known rs →
      RunsAs after caller.containerId pid := by
  obtain ⟨pc, hforked, hsem⟩ := sem_of_passes (inv_reach h) hs hwait hpass
  obtain ⟨-, hprepared, hpc⟩ := hforked.sem.resolve_left fun hone => by omega
  refine ⟨hprepared, ?_, fun pid masterFd before after rs hchild hrecorded hrep hknown => ?_⟩
  · rcases hpc with rfl | rfl
    · exact Or.inl ⟨hforked.monitor, hforked.done.2⟩
    · exact Or.inr hforked.monitor
  · obtain ⟨pid', masterFd', before', after', result, hchild', hrecorded', hrun⟩ :=
      hprepared.called
    obtain ⟨rfl, rfl⟩ := Prod.mk.inj (Option.some.inj (hchild.symm.trans hchild'))
    obtain ⟨rfl, rfl⟩ := Prod.mk.inj (Option.some.inj (hrecorded.symm.trans hrecorded'))
    exact startSuccess_records hrep hknown hrun

/-- `run` of a shell. -/
def runShell : Caller :=
  .run ⟨none, ["sh".toList], .empty⟩ ⟨"c1".toList, none, 1700000000, 1700000000⟩

def unstarted : State :=
  ⟨.semget, none, .unset, .unset, false, 0, ⟨.missing, none, none, none, .closed, none⟩⟩

/-- The calls up to the one that clears the semaphore. The launcher is interrupted once, and after
it has read the variable another thread starts a container too. -/
def started : List Act :=
  [.semget (some 0), .setval true, .semop true, .assign, .fork true, .ptyClone (some (4711, 3)),
    .read, .zero true, .assignOther, .forkOther, .readHeader .eof, .callback, .signal true,
    .socket (some 4), .access false, .bind true, .listen true, .setOther, .initPool, .set true]

/-- Where the processes are, and the semaphore and the socket. -/
def State.summary (s : State) : Launcher × Option MonitorAt × ℕ × Socket :=
  (s.launcher, s.monitor, s.sem, s.site.socket)

lemma exists_cleared {acts : List Act} {pc : MonitorAt} {socket : Socket}
    (hmeets : (starting runShell).Meets Exclusive unstarted acts)
    (h : ((starting runShell).runs unstarted acts).map State.summary =
      some (.zero, some pc, 0, socket)) :
    ∃ s s', (starting runShell).Reach Exclusive s ∧ s.launcher ≠ .passed ∧
      (starting runShell).step s (.zero false) = some s' ∧ s'.launcher = .passed ∧
      s.site.socket = socket := by
  obtain ⟨s, hrun, hsummary⟩ := Option.map_eq_some_iff.mp h
  obtain ⟨hlauncher, hsummary⟩ := Prod.mk.inj hsummary
  obtain ⟨-, hsummary⟩ := Prod.mk.inj hsummary
  obtain ⟨hsem, hsocket⟩ := Prod.mk.inj hsummary
  have hstart : (starting runShell).Reach Exclusive unstarted :=
    .start ⟨rfl, rfl, by decide, rfl, rfl, rfl, by decide, rfl, rfl⟩
  refine ⟨s, { s with launcher := .passed }, hstart.runs hmeets hrun, by simp [hlauncher], ?_, rfl,
    hsocket⟩
  simp [starting, launch, hlauncher, hsem]

theorem passes_when_prepared_shell :
    ∃ s s', (starting runShell).step s (.zero false) = some s' ∧ s'.launcher = .passed ∧
      Prepared runShell s.site ∧
      (s.monitor = some .loop ∧ Listening s.site ∨ s.monitor = some .ended) ∧
      ∀ pid masterFd before after rs, s.site.child = some (pid, masterFd) →
        s.site.recorded = some (before, after) → Represents before rs → runShell.Known rs →
        RunsAs after runShell.containerId pid := by
  have hcleared : ((starting runShell).runs unstarted started).map State.summary =
      some (.zero, some .loop, 0, .listening 4) := by decide +kernel
  obtain ⟨s, s', hreach, hwait, hs, hpass, -⟩ :=
    exists_cleared (Machine.meets_of_check (by decide +kernel)) hcleared
  exact ⟨s, s', hs, hpass, passes_when_prepared hreach hwait hs hpass⟩

/-- The container exits at once, and the monitor with it, before the launcher looks. -/
theorem passes_after_end : ¬ ∀ s a s', (starting runShell).Reach Exclusive s →
    s.launcher ≠ .passed → (starting runShell).step s a = some s' → s'.launcher = .passed →
    Prepared runShell s.site ∧ Listening s.site := by
  intro hall
  have hended : ((starting runShell).runs unstarted (started ++ [.ends])).map State.summary =
      some (.zero, some .ended, 0, .closed) := by decide +kernel
  obtain ⟨s, s', hreach, hwait, hs, hpass, hsocket⟩ :=
    exists_cleared (Machine.meets_of_check (by decide +kernel)) hended
  obtain ⟨-, listenfd, hlisten⟩ := hall s _ s' hreach hwait hs hpass
  cases hsocket.symm.trans hlisten

end Hoststack.Handshake
