import Hoststack.SocketIo
import Hoststack.Lib.FdTable

/-!
Making a child process whose terminal is a pseudoterminal of its parent.

The calls may fail, each with its own value of `errno`, and a call of `close` may change `errno`.
The parent and the child each have a table of descriptors; a fork copies it.
-/

namespace Hoststack.PtyFork

open SocketIo

/-- The values of `errno` when all descriptors are taken, and when a name does not fit. -/
def emfile : ℤ := 24
def eoverflow : ℤ := 75

/-- What a descriptor is open on. -/
inductive File where
  | inherited (no : ℕ)
  | master
  | slave (name : Bytes)
  | listener
  | client
  deriving DecidableEq

/-- A process: its descriptors and its `errno`. -/
@[ext]
structure Proc (limit : ℕ) where
  fds : FdTable File limit
  errno : ℤ

variable {limit : ℕ}

namespace Proc

/-- A call that opens something, with the `errno` it fails with, if it does; without a descriptor
to take it fails, too. -/
def openOn (p : Proc limit) (failure : Option ℤ) (x : File) : Proc limit × Option ℕ :=
  match failure with
  | some e => ({ p with errno := e }, none)
  | none =>
    match p.fds.openOn x with
    | none => ({ p with errno := emfile }, none)
    | some (fd, fds) => ({ p with fds }, some fd)

/-- A call of `close`, with what it makes of `errno`. -/
def close (p : Proc limit) (closing : ℤ → ℤ) (fd : ℕ) : Proc limit where
  fds := p.fds.close fd
  errno := closing p.errno

/-- After a call has failed, a descriptor is closed and `errno` put back. -/
def closeSaved (p : Proc limit) (e : ℤ) (closing : ℤ → ℤ) (fd : ℕ) : Proc limit :=
  let p := { p with errno := e }
  let savedErrno := p.errno
  let p := p.close closing fd
  { p with errno := savedErrno }

/-- A descriptor is closed since a name is too long. -/
def closeOverflow (p : Proc limit) (closing : ℤ → ℤ) (fd : ℕ) : Proc limit :=
  let p := p.close closing fd
  { p with errno := eoverflow }

end Proc

/-- What the calls of `ptyMasterOpen` answer: the `errno` of each that fails, the name of the
slave, and what `close` makes of `errno`. -/
structure MasterAnswers where
  openpt : Option ℤ
  grantpt : Option ℤ
  unlockpt : Option ℤ
  ptsname : Except ℤ Bytes
  closing : ℤ → ℤ

/-- The descriptor of the master and the name of the slave, if no minus one is returned. -/
def ptyMasterOpen (snLen : ℕ) (ans : MasterAnswers) (p : Proc limit) :
    Proc limit × Option (ℕ × Bytes) :=
  match p.openOn ans.openpt .master with
  | (p, none) => (p, none)
  | (p, some masterFd) =>
    match ans.grantpt with
    | some e => (p.closeSaved e ans.closing masterFd, none)
    | none =>
      match ans.unlockpt with
      | some e => (p.closeSaved e ans.closing masterFd, none)
      | none =>
        match ans.ptsname with
        | .error e => (p.closeSaved e ans.closing masterFd, none)
        | .ok name =>
          if name.length < snLen then (p, some (masterFd, name))
          else (p.closeOverflow ans.closing masterFd, none)

/-- `MAX_SNAME` -/
def maxSname : ℕ := 1000

/-- What the calls of the child answer: the `errno` of each that fails. -/
structure ChildAnswers where
  setsid : Option ℤ
  openSlave : Option ℤ
  ctty : Option ℤ
  tcsetattr : Option ℤ
  winsz : Option ℤ
  dup2 : ℕ → Option ℤ

/-- Whether the caller gives attributes and a window size for the slave. -/
structure Settings where
  slaveTermios : Bool
  slaveWS : Bool

/-- What the child says when a call fails, and whether it exits at once or returns minus one. -/
structure Failure where
  message : String
  exits : Bool
  deriving DecidableEq

/-- A call of the child without an effect on its descriptors. -/
def check (answer : Option ℤ) (f : Failure) : Except Failure Unit :=
  match answer with
  | some _ => .error f
  | none => .ok ()

/-- A call of `dup2` that is to return its second argument. -/
def dup (ans : ChildAnswers) (slaveFd fd : ℕ) (f : Failure) (t : FdTable File limit) :
    Except Failure (FdTable File limit) :=
  match ans.dup2 fd with
  | some _ => .error f
  | none =>
    match t.dup2 slaveFd fd with
    | none => .error f
    | some t => .ok t

/-- The child's part of both functions, which differ in what the child does when a call fails
behind `setsid`. -/
def slaveSide (exits : Bool) (mfd : ℕ) (slname : Bytes) (s : Settings) (ans : ChildAnswers)
    (t : FdTable File limit) : Except Failure (FdTable File limit) := do
  check ans.setsid ⟨"ptyFork:setsid", true⟩
  let t := t.close mfd
  check ans.openSlave ⟨"ptyFork:open-slave", exits⟩
  match t.openOn (.slave slname) with
  | none => .error ⟨"ptyFork:open-slave", exits⟩
  | some (slaveFd, t) => do
    check ans.ctty ⟨"ptyFork:ioctl-TIOCSCTTY", exits⟩
    if s.slaveTermios then check ans.tcsetattr ⟨"ptyFork:tcsetattr", exits⟩
    if s.slaveWS then check ans.winsz ⟨"ptyFork:ioctl-TIOCSWINSZ", exits⟩
    let t ← dup ans slaveFd 0 ⟨"ptyFork:dup2-STDIN_FILENO", exits⟩ t
    let t ← dup ans slaveFd 1 ⟨"ptyFork:dup2-STDOUT_FILENO", exits⟩ t
    let t ← dup ans slaveFd 2 ⟨"ptyFork:dup2-STDERR_FILENO", exits⟩ t
    return if slaveFd > 2 then t.close slaveFd else t

/-- What `_ptyCloneRun` does before it calls `fn`. -/
def ptyCloneRun (mfd : ℕ) (slname : Bytes) (s : Settings) (ans : ChildAnswers)
    (t : FdTable File limit) : Except Failure (FdTable File limit) :=
  slaveSide false mfd slname s ans t

/-- What the calls of `ptyFork` and `ptyClone` answer: `fork` or `clone` with the child's pid or
an `errno`, and whether there is memory for the child's stack. -/
structure Answers where
  master : MasterAnswers
  fork : Except ℤ ℤ
  closing : ℤ → ℤ
  mapped : Bool
  child : ChildAnswers

/-- What the parent has got, and what becomes of the child's descriptors. -/
structure Forked (limit : ℕ) where
  pid : ℤ
  masterFd : ℕ
  slaveName : Option Bytes
  child : Except Failure (FdTable File limit)

/-- `slaveName` is the length of the buffer for the name, if the caller wants it. -/
def ptyFork (slaveName : Option ℕ) (s : Settings) (ans : Answers) (p : Proc limit) :
    Proc limit × Option (Forked limit) :=
  match ptyMasterOpen maxSname ans.master p with
  | (p, none) => (p, none)
  | (p, some (mfd, slname)) =>
    if slaveName.any (· ≤ slname.length) then (p.closeOverflow ans.closing mfd, none)
    else
      match ans.fork with
      | .error e => (p.closeSaved e ans.closing mfd, none)
      | .ok pid => (p, some ⟨pid, mfd, slaveName.map fun _ => slname,
          slaveSide true mfd slname s ans.child p.fds⟩)

/-- The process exits where there is no memory for the stack. -/
def ptyClone (s : Settings) (ans : Answers) (p : Proc limit) :
    Option (Proc limit × Option (Forked limit)) :=
  match ptyMasterOpen maxSname ans.master p with
  | (p, none) => some (p, none)
  | (p, some (masterFd, slaveName)) =>
    if ans.mapped then
      match ans.fork with
      | .error e => some (p.closeSaved e ans.closing masterFd, none)
      | .ok pid => some (p, some ⟨pid, masterFd, none,
          ptyCloneRun masterFd slaveName s ans.child p.fds⟩)
    else none

/-! ### The master -/

/-- The error of a call that opens something when all descriptors are taken. -/
def full (p : Proc limit) : List ℤ := if p.fds.lowest = none then [emfile] else []

/-- The errors of the calls of `ptyMasterOpen`, in their order. -/
def MasterAnswers.errors (ans : MasterAnswers) (snLen : ℕ) (p : Proc limit) : List ℤ :=
  ans.openpt.toList ++ full p ++ ans.grantpt.toList ++ ans.unlockpt.toList ++
    match ans.ptsname with
    | .error e => [e]
    | .ok name => if name.length < snLen then [] else [eoverflow]

/-- What a function that opens a master is to do when the errors of its calls, in their order,
are these: without any it has opened one more descriptor, and else the first is in `errno` and
the descriptors are as before. -/
def Opens (p p' : Proc limit) (errors : List ℤ) (masterFd : Option ℕ) : Prop :=
  match masterFd with
  | none => errors.head? = some p'.errno ∧ p'.fds = p.fds
  | some fd => errors = [] ∧ p'.errno = p.errno ∧ p.fds.openOn .master = some (fd, p'.fds)

variable {p p' q : Proc limit} {errors errors' : List ℤ} {fd snLen : ℕ} {e : ℤ}
  {closing : ℤ → ℤ} {failure : Option ℤ} {o : Option ℕ}

lemma Opens.closeSaved (h : Opens p q errors (some fd)) (e : ℤ) (closing : ℤ → ℤ)
    (errors' : List ℤ) : Opens p (q.closeSaved e closing fd) (errors ++ e :: errors') none := by
  obtain ⟨rfl, -, hopen⟩ := h
  exact ⟨rfl, FdTable.close_openOn hopen⟩

lemma Opens.closeOverflow (h : Opens p q errors (some fd)) (closing : ℤ → ℤ)
    (errors' : List ℤ) :
    Opens p (q.closeOverflow closing fd) (errors ++ eoverflow :: errors') none := by
  obtain ⟨rfl, -, hopen⟩ := h
  exact ⟨rfl, FdTable.close_openOn hopen⟩

lemma Opens.append (h : Opens p q errors none) (errors' : List ℤ) :
    Opens p q (errors ++ errors') none := by
  obtain ⟨hhead, hfds⟩ := h
  refine ⟨?_, hfds⟩
  rw [List.head?_append, hhead]
  rfl

lemma openOn_eq_some {x : File} (h : p.openOn failure x = (q, some fd)) :
    p.fds.openOn x = some (fd, q.fds) := by
  unfold Proc.openOn at h
  cases failure with
  | some e => cases h
  | none =>
    cases hopen : p.fds.openOn x with
    | none =>
      rw [hopen] at h
      cases h
    | some r =>
      rw [hopen] at h
      cases h
      rfl

lemma openOn_opens (h : p.openOn failure .master = (q, o)) :
    Opens p q (failure.toList ++ full p) o := by
  unfold Proc.openOn at h
  unfold full
  cases failure with
  | some e =>
    cases h
    exact ⟨rfl, rfl⟩
  | none =>
    cases hopen : p.fds.openOn .master with
    | none =>
      rw [hopen] at h
      cases h
      rw [if_pos (Option.map_eq_none_iff.mp hopen)]
      exact ⟨rfl, rfl⟩
    | some r =>
      rw [hopen] at h
      cases h
      rw [if_neg (by rw [(FdTable.openOn_eq_some.mp hopen).1]; simp)]
      exact ⟨rfl, rfl, hopen⟩

/-- ptyMasterOpen leaves no descriptor open and `errno` at the first error where one of its
calls fails, whatever `close` makes of `errno`. -/
lemma ptyMasterOpen_spec (snLen : ℕ) (ans : MasterAnswers) (p : Proc limit) :
    Opens p (ptyMasterOpen snLen ans p).1 (ans.errors snLen p)
      ((ptyMasterOpen snLen ans p).2.map Prod.fst) ∧
    ∀ fd name, (ptyMasterOpen snLen ans p).2 = some (fd, name) → ans.ptsname = .ok name := by
  unfold ptyMasterOpen MasterAnswers.errors
  rcases hopen : p.openOn ans.openpt .master with ⟨q, _ | fd⟩
  · have h := openOn_opens hopen
    exact ⟨((h.append _).append _).append _, by simp⟩
  · have h := openOn_opens hopen
    dsimp only
    cases ans.grantpt with
    | some e => exact ⟨((h.closeSaved e _ []).append _).append _, by simp⟩
    | none =>
      cases ans.unlockpt with
      | some e =>
        refine ⟨?_, by simp⟩
        simpa using (h.closeSaved e ans.closing []).append _
      | none =>
        cases ans.ptsname with
        | error e =>
          refine ⟨?_, by simp⟩
          simpa using h.closeSaved e ans.closing []
        | ok name =>
          dsimp only
          by_cases hlen : name.length < snLen
          · rw [if_pos hlen, if_pos hlen]
            refine ⟨by simpa using h, fun fd' name' heq => ?_⟩
            cases heq
            rfl
          · rw [if_neg hlen, if_neg hlen]
            refine ⟨?_, by simp⟩
            simpa using h.closeOverflow ans.closing []

/-! ### The child -/

/-- The three standard descriptors are the slave, and the others as they were. -/
def onSlave (slname : Bytes) (t : FdTable File limit) : FdTable File limit :=
  ((t.put 0 (some (.slave slname))).put 1 (some (.slave slname))).put 2 (some (.slave slname))

/-- No call of the child fails. -/
def ChildAnswers.Ok (ans : ChildAnswers) (s : Settings) : Prop :=
  ans.setsid = none ∧ ans.openSlave = none ∧ ans.ctty = none ∧
    (s.slaveTermios = true → ans.tcsetattr = none) ∧ (s.slaveWS = true → ans.winsz = none) ∧
    ∀ fd < 3, ans.dup2 fd = none

instance (ans : ChildAnswers) (s : Settings) : Decidable (ans.Ok s) :=
  inferInstanceAs (Decidable (_ ∧ _ ∧ _ ∧ _ ∧ _ ∧ _))

variable {ans : ChildAnswers} {s : Settings} {t t' u : FdTable File limit} {f : Failure}
  {exits : Bool} {slname : Bytes} {mfd slaveFd : ℕ}

section bind

variable {answer : Option ℤ} {k : Unit → Except Failure (FdTable File limit)}
  {k' : FdTable File limit → Except Failure (FdTable File limit)}

lemma check_bind : (check answer f >>= k) = .ok t' ↔ answer = none ∧ k () = .ok t' := by
  cases answer with
  | none => exact (and_iff_right rfl).symm
  | some e =>
    refine ⟨fun h => ?_, fun h => by cases h.1⟩
    cases h

lemma check_bind_if {b : Bool} :
    (if b = true then check answer f >>= k else k ()) = .ok t' ↔
      (b = true → answer = none) ∧ k () = .ok t' := by
  cases b with
  | true => simpa using check_bind
  | false => simp

lemma dup_bind (hopen : t.get slaveFd = some (.slave slname)) :
    (dup ans slaveFd fd f t >>= k') = .ok t' ↔
      ans.dup2 fd = none ∧ fd < limit ∧ k' (t.put fd (some (.slave slname))) = .ok t' := by
  unfold dup FdTable.dup2
  rw [hopen]
  cases ans.dup2 fd with
  | some e =>
    refine ⟨fun h => ?_, fun h => by cases h.1⟩
    cases h
  | none =>
    by_cases hlt : fd < limit
    · rw [if_pos ⟨rfl, hlt⟩, and_iff_right rfl, and_iff_right hlt]
      rfl
    · rw [if_neg fun h => hlt h.2]
      refine ⟨fun h => ?_, fun h => absurd h.2.1 hlt⟩
      cases h

lemma check_error {g : Failure} (h : (check answer f >>= k) = .error g) :
    g = f ∨ k () = .error g := by
  cases answer with
  | none => exact Or.inr h
  | some e =>
    cases h
    exact Or.inl rfl

lemma check_if_error {b : Bool} {g : Failure}
    (h : (if b = true then check answer f >>= k else k ()) = .error g) :
    g = f ∨ k () = .error g := by
  split_ifs at h
  · exact check_error h
  · exact Or.inr h

lemma dup_error {g : Failure} (h : (dup ans slaveFd fd f t >>= k') = .error g) :
    g = f ∨ ∃ t', k' t' = .error g := by
  unfold dup at h
  cases ha : ans.dup2 fd with
  | some e =>
    rw [ha] at h
    cases h
    exact Or.inl rfl
  | none =>
    rw [ha] at h
    cases hd : t.dup2 slaveFd fd with
    | none =>
      rw [hd] at h
      cases h
      exact Or.inl rfl
    | some t' =>
      rw [hd] at h
      exact Or.inr ⟨t', h⟩

end bind

lemma get_put_slave (hopen : t.get slaveFd = some (.slave slname)) :
    (t.put fd (some (.slave slname))).get slaveFd = some (.slave slname) := by
  rw [FdTable.get_put]
  split_ifs
  · rfl
  · exact hopen

lemma get_onSlave (hlimit : 2 < limit) :
    (onSlave slname t).get fd = if fd ≤ 2 then some (.slave slname) else t.get fd := by
  unfold onSlave
  simp only [FdTable.get_put]
  split_ifs with h2 h1 h0 <;> first | rfl | omega

lemma closed_onSlave (hnone : t.get slaveFd = none) (hlt : slaveFd < limit) (hlimit : 2 < limit) :
    (if slaveFd > 2 then (onSlave slname (t.put slaveFd (some (.slave slname)))).close slaveFd
      else onSlave slname (t.put slaveFd (some (.slave slname)))) = onSlave slname t := by
  have hother : ∀ fd, fd ≠ slaveFd →
      (onSlave slname (t.put slaveFd (some (.slave slname)))).get fd =
        (onSlave slname t).get fd := fun fd hfd => by
    rw [get_onSlave hlimit, get_onSlave hlimit, FdTable.get_put_ne hfd]
  ext1
  funext fd
  by_cases hfd : fd = slaveFd
  · subst hfd
    split_ifs with hhigh
    · rw [FdTable.close, FdTable.get_put_self hlt, get_onSlave hlimit, if_neg (by omega), hnone]
    · rw [get_onSlave hlimit, get_onSlave hlimit, if_pos (by omega), if_pos (by omega)]
  · split_ifs
    · rw [FdTable.close, FdTable.get_put_ne hfd, hother fd hfd]
    · exact hother fd hfd

/-- The child's part: it comes through exactly if none of its calls fails, and there may be
three descriptors; then the slave, which has got the descriptor the master had, is at the three
standard ones, and all others are as before the master was opened. -/
lemma slaveSide_eq_ok (hmaster : t.openOn .master = some (mfd, u)) :
    slaveSide exits mfd slname s ans u = .ok t' ↔
      ans.Ok s ∧ 2 < limit ∧ t' = onSlave slname t := by
  obtain ⟨hlowest, -⟩ := FdTable.openOn_eq_some.mp hmaster
  obtain ⟨hlt, hnone, -⟩ := FdTable.lowest_eq_some.mp hlowest
  have hslave : t.openOn (.slave slname) = some (mfd, t.put mfd (some (.slave slname))) :=
    FdTable.openOn_eq_some.mpr ⟨hlowest, rfl⟩
  have hopen := FdTable.get_put_self (t := t) (o := some (File.slave slname)) hlt
  unfold slaveSide
  rw [FdTable.close_openOn hmaster]
  dsimp only
  rw [check_bind, check_bind, hslave]
  dsimp only
  rw [check_bind, check_bind_if, check_bind_if, dup_bind hopen, dup_bind (get_put_slave hopen),
    dup_bind (get_put_slave (get_put_slave hopen))]
  change _ ∧ _ ∧ _ ∧ _ ∧ _ ∧ _ ∧ _ ∧ _ ∧ _ ∧ _ ∧ _ ∧ Except.ok (ite _ _ _) = _ ↔ _
  unfold ChildAnswers.Ok
  constructor
  · rintro ⟨hsetsid, hslave, hctty, htermios, hws, h0, -, h1, -, h2, hlimit, heq⟩
    refine ⟨⟨hsetsid, hslave, hctty, htermios, hws, fun fd hfd => ?_⟩, hlimit, ?_⟩
    · obtain rfl | rfl | rfl : fd = 0 ∨ fd = 1 ∨ fd = 2 := by omega
      · exact h0
      · exact h1
      · exact h2
    · exact (Except.ok.inj heq).symm.trans (closed_onSlave hnone hlt hlimit)
  · rintro ⟨⟨hsetsid, hslave, hctty, htermios, hws, hdup⟩, hlimit, rfl⟩
    exact ⟨hsetsid, hslave, hctty, htermios, hws, hdup 0 (by omega), by omega, hdup 1 (by omega),
      by omega, hdup 2 (by omega), hlimit, congrArg _ (closed_onSlave hnone hlt hlimit)⟩

/-- Where a call of the child fails it ends as its function has it end, at `setsid` at once. -/
lemma slaveSide_error (h : slaveSide exits mfd slname s ans t = .error f) :
    f.exits = exits ∨ f.exits = true := by
  unfold slaveSide at h
  rcases check_error h with rfl | h
  · exact Or.inr rfl
  refine Or.inl ?_
  dsimp only at h
  rcases check_error h with rfl | h
  · rfl
  cases hopen : (t.close mfd).openOn (.slave slname) with
  | none =>
    rw [hopen] at h
    cases h
    rfl
  | some r =>
    rw [hopen] at h
    dsimp only at h
    rcases check_error h with rfl | h
    · rfl
    rcases check_if_error h with rfl | h
    · rfl
    rcases check_if_error h with rfl | h
    · rfl
    obtain rfl | ⟨t', h⟩ := dup_error h
    · rfl
    obtain rfl | ⟨t', h⟩ := dup_error h
    · rfl
    obtain rfl | ⟨t', h⟩ := dup_error h
    · rfl
    cases h

/-! ### Parent and child -/

/-- The errors of the calls of the parent in `ptyClone`, in their order. -/
def Answers.cloneErrors (ans : Answers) (p : Proc limit) : List ℤ :=
  ans.master.errors maxSname p ++
    match ans.fork with
    | .error e => [e]
    | .ok _ => []

/-- Those in `ptyFork`, where the name is copied to the caller's buffer first. -/
def Answers.forkErrors (ans : Answers) (slaveName : Option ℕ) (p : Proc limit) : List ℤ :=
  ans.master.errors maxSname p ++
    (match ans.master.ptsname with
      | .error _ => []
      | .ok name => if slaveName.any (· ≤ name.length) then [eoverflow] else []) ++
    match ans.fork with
    | .error e => [e]
    | .ok _ => []

/-- What a child's part of its table is to be, and when it comes through. -/
structure Connected (s : Settings) (ans : Answers) (name : Bytes) (p : Proc limit)
    (forked : Forked limit) : Prop where
  pid : ans.fork = .ok forked.pid
  ptsname : ans.master.ptsname = .ok name
  child : ∀ t, forked.child = .ok t ↔ ans.child.Ok s ∧ 2 < limit ∧ t = onSlave name p.fds

lemma connected_mk {s : Settings} {ans : Answers} {name : Bytes} {pid : ℤ} {o : Option Bytes}
    (hopens : Opens p q errors (some mfd)) (hname : ans.master.ptsname = .ok name)
    (hpid : ans.fork = .ok pid) (exits : Bool) :
    Connected s ans name p ⟨pid, mfd, o, slaveSide exits mfd name s ans.child q.fds⟩ :=
  ⟨hpid, hname, fun _ => slaveSide_eq_ok hopens.2.2⟩

lemma ptyFork_spec (slaveName : Option ℕ) (s : Settings) (ans : Answers) (p : Proc limit) :
    Opens p (ptyFork slaveName s ans p).1 (ans.forkErrors slaveName p)
        ((ptyFork slaveName s ans p).2.map Forked.masterFd) ∧
      ∀ forked, (ptyFork slaveName s ans p).2 = some forked →
        (∃ name, Connected s ans name p forked ∧ forked.slaveName = slaveName.map fun _ => name) ∧
        ∀ f, forked.child = .error f → f.exits = true := by
  obtain ⟨hopens, hname⟩ := ptyMasterOpen_spec maxSname ans.master p
  unfold ptyFork Answers.forkErrors
  rcases hmaster : ptyMasterOpen maxSname ans.master p with ⟨q, _ | ⟨mfd, slname⟩⟩
  · rw [hmaster] at hopens
    exact ⟨(hopens.append _).append _, by simp⟩
  · rw [hmaster] at hopens
    have hptsname := hname mfd slname (by rw [hmaster])
    rw [hptsname]
    dsimp only
    by_cases hlen : slaveName.any (· ≤ slname.length) = true
    · rw [if_pos hlen, if_pos hlen]
      exact ⟨(hopens.closeOverflow ans.closing []).append _, by simp⟩
    · rw [if_neg hlen, if_neg hlen, List.append_nil]
      cases hfork : ans.fork with
      | error e => exact ⟨hopens.closeSaved e ans.closing [], by simp⟩
      | ok pid =>
        refine ⟨by simpa using hopens, fun forked hforked => ?_⟩
        cases hforked
        exact ⟨⟨slname, connected_mk hopens hptsname hfork true, rfl⟩,
          fun f hf => (slaveSide_error hf).elim id id⟩

lemma ptyClone_spec {s : Settings} {ans : Answers} {o : Option (Forked limit)}
    (h : ptyClone s ans p = some (p', o)) :
    Opens p p' (ans.cloneErrors p) (o.map Forked.masterFd) ∧
      ∀ forked, o = some forked → ∃ name, Connected s ans name p forked := by
  obtain ⟨hopens, hname⟩ := ptyMasterOpen_spec maxSname ans.master p
  unfold ptyClone at h
  unfold Answers.cloneErrors
  rcases hmaster : ptyMasterOpen maxSname ans.master p with ⟨q, _ | ⟨mfd, slname⟩⟩
  · rw [hmaster] at hopens h
    cases h
    exact ⟨hopens.append _, by simp⟩
  · rw [hmaster] at hopens h
    have hptsname := hname mfd slname (by rw [hmaster])
    dsimp only at h
    split_ifs at h with hmapped
    cases hfork : ans.fork with
    | error e =>
      rw [hfork] at h
      cases h
      exact ⟨hopens.closeSaved e ans.closing [], by simp⟩
    | ok pid =>
      rw [hfork] at h
      cases h
      refine ⟨by simpa using hopens, fun forked hforked => ?_⟩
      cases hforked
      exact ⟨slname, connected_mk hopens hptsname hfork false⟩

/-- **A child on a pseudoterminal**: `ptyFork` and `ptyClone` fail exactly if a call of the parent
does or a name does not fit, with the first error in `errno` and no descriptor more than before,
and else leave the parent with the master besides. The child comes through exactly if none of its
calls fails; then its three standard descriptors are the slave of that master, and all others those
the parent had before. A child of `ptyFork` that does not come through never returns. `ptyClone`
exits where `mmap` fails, which is no result of it here. -/
theorem pty_connected (slaveName : Option ℕ) (s : Settings) (ans : Answers) (p : Proc limit) :
    (Opens p (ptyFork slaveName s ans p).1 (ans.forkErrors slaveName p)
        ((ptyFork slaveName s ans p).2.map Forked.masterFd) ∧
      ∀ forked, (ptyFork slaveName s ans p).2 = some forked →
        (∃ name, Connected s ans name p forked ∧ forked.slaveName = slaveName.map fun _ => name) ∧
        ∀ f, forked.child = .error f → f.exits = true) ∧
    ∀ p' o, ptyClone s ans p = some (p', o) →
      Opens p p' (ans.cloneErrors p) (o.map Forked.masterFd) ∧
      ∀ forked, o = some forked → ∃ name, Connected s ans name p forked := by
  exact ⟨ptyFork_spec slaveName s ans p, fun _ _ => ptyClone_spec⟩

end Hoststack.PtyFork
