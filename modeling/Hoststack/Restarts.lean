import Hoststack.Handshake
import Hoststack.Lib.Pool

/-!
Several containers started by the threads of one process.

`ContainerService::start` keeps the semaphore of the handshake in a variable that all threads
share. A thread may assign it between another one's assignment and its fork, or between the fork
and the reading of the variable for `SemUtil::zero`; then the other one waits for a monitor that is
not its own.
-/

namespace Hoststack.Restarts

open PtyExecUtil Commands Store UsgCommon Handshake

/-- Where a thread is in `ContainerService::start`. Until it is assigned to the variable, the
semaphore is known to its thread alone. -/
inductive ThreadAt where
  | semget
  | setval (val : ℕ)
  | semop (val : ℕ)
  | assign (val : ℕ)
  | fork
  | read
  | zero (sem : ℕ)
  | passed (sem : ℕ)
  deriving DecidableEq

/-- A monitor, with the semaphore that the variable was when it was forked. -/
structure Child where
  point : MonitorAt
  synchSem : ℕ
  site : Site

structure Thread where
  caller : Caller
  point : ThreadAt
  child : Option Child

/-- The variable `synchSem`, the values of the semaphores that have been assigned to it, the data
file, what is at the paths of the containers' sockets, the threads, and whether one of them has
made the process exit. -/
structure State where
  synchSem : Option ℕ
  sems : List ℕ
  file : DataFile
  paths : Str → Option SocketFile
  threads : List Thread
  exited : Bool

/-- A call of a thread, with what the system returns. -/
inductive Call where
  | semget (val : Option ℕ)
  | setval (ok : Bool)
  | semop (ok : Bool)
  | assign
  | fork (ok : Bool)
  | read
  | zero (interrupted : Bool)

/-- A thread calls `start`, a thread or a monitor goes on, or other processes change the data file
and the paths. -/
inductive Event where
  | start (caller : Caller)
  | thread (i : ℕ) (call : Call)
  | monitor (i : ℕ) (act : Act)
  | outside (file : DataFile) (paths : Str → Option SocketFile)

def State.move (s : State) (i : ℕ) (t : Thread) : State := { s with threads := s.threads.set i t }

def State.exit (s : State) : State := { s with exited := true }

/-- A monitor that has just been forked; the file and the path are those at its next call. -/
def newSite : Site := ⟨.missing, none, none, none, .closed, none⟩

/-- A call of a thread. One that fails makes the process exit, but `semop` with zero is made again
when it is interrupted; as nobody removes a set, it fails in no other way. -/
def callThread (s : State) (i : ℕ) (t : Thread) : ThreadAt → Call → Option State
  | .semget, .semget none => some s.exit
  | .semget, .semget (some val) => some (s.move i { t with point := .setval val })
  | .setval _, .setval ok => some (if ok then s.move i { t with point := .semop 0 } else s.exit)
  | .semop val, .semop ok =>
    some (if ok then s.move i { t with point := .assign (val + 1) } else s.exit)
  | .assign val, .assign =>
    some { s.move i { t with point := .fork } with
      synchSem := some s.sems.length, sems := s.sems ++ [val] }
  | .fork, .fork ok =>
    if ok then
      s.synchSem.map fun sem =>
        s.move i { t with point := .read, child := some ⟨.ptyClone, sem, newSite⟩ }
    else some s.exit
  | .read, .read => s.synchSem.map fun sem => s.move i { t with point := .zero sem }
  | .zero sem, .zero interrupted =>
    if interrupted then some s
    else if s.sems[sem]? = some 0 then some (s.move i { t with point := .passed sem }) else none
  | _, _ => none

/-- What the monitor finds: the data file and the path are shared. -/
def State.siteOf (s : State) (t : Thread) (c : Child) : Site :=
  { c.site with file := s.file, path := s.paths t.caller.containerId }

/-- A call of the monitor of a thread, which is a process of its own. -/
def callMonitor (s : State) (i : ℕ) (t : Thread) (c : Child) (act : Act) : Option State :=
  (monitor t.caller (s.siteOf t c) c.point act).map fun (point, site) =>
    { s.move i { t with child := some { c with point, site } } with
      sems := s.sems.modify c.synchSem (setSem act)
      file := site.file
      paths := Function.update s.paths t.caller.containerId site.path }

/-- The threads of a process and their monitors, in any order. -/
def restarting : Machine State Event where
  init s := s.synchSem = none ∧ s.sems = [] ∧ s.threads = [] ∧ s.exited = false
  step s
    | .start caller =>
      if s.exited then none else some { s with threads := s.threads ++ [⟨caller, .semget, none⟩] }
    | .thread i call =>
      if s.exited then none
      else do
        let t ← s.threads[i]?
        callThread s i t t.point call
    | .monitor i act => do
      let t ← s.threads[i]?
      let c ← t.child
      callMonitor s i t c act
    | .outside file paths => some { s with file, paths }

/-! ### What a monitor has done -/

variable {caller : Caller} {pc pc' : MonitorAt} {a : Act} {w w' : Site}

/-- The container is recorded and the pool is initialised. -/
structure Ready (caller : Caller) (w : Site) : Prop where
  called : Called caller w
  pool : ∃ listenfd pid masterFd, w.child = some (pid, masterFd) ∧
    w.pool = some (initPool listenfd masterFd)

/-- What has been done when the monitor comes to a call, whatever others do to the path. -/
def Stage (caller : Caller) (w : Site) : MonitorAt → Prop
  | .ptyClone | .readHeader | .callback | .ended => True
  | .signal | .socket | .access | .unlink | .bind | .listen => Called caller w
  | .initPool => Called caller w ∧ Listening w
  | .set | .loop => Ready caller w ∧ Listening w

lemma callback_stage (hs : monitor caller w .callback .callback = some (pc', w')) :
    Stage caller w' pc' := by
  have hdone := callback_done hs
  obtain ⟨⟨pid, masterFd⟩, -, hs⟩ := Option.bind_eq_some_iff.mp hs
  dsimp only at hs
  split at hs
  · cases hs
    exact hdone
  · cases hs
    trivial

lemma bind_stage {ok : Bool} (h : Called caller w)
    (hs : monitor caller w .bind (.bind ok) = some (pc', w')) : Stage caller w' pc' := by
  simp only [monitor] at hs
  split_ifs at hs
  · split at hs
    · cases hs
      exact h
    · cases hs
  · cases hs
    trivial

lemma listen_stage {ok : Bool} (h : Called caller w)
    (hs : monitor caller w .listen (.listen ok) = some (pc', w')) : Stage caller w' pc' := by
  simp only [monitor] at hs
  split_ifs at hs
  · split at hs
    · cases hs
      exact ⟨h, _, rfl⟩
    · cases hs
  · cases hs
    trivial

lemma initPool_stage (h : Called caller w ∧ Listening w)
    (hs : monitor caller w .initPool .initPool = some (pc', w')) : Stage caller w' pc' := by
  obtain ⟨hcalled, listenfd, hlisten⟩ := h
  obtain ⟨⟨pid, masterFd⟩, hchild, hs⟩ := Option.bind_eq_some_iff.mp hs
  dsimp only at hs
  split at hs
  · cases hs
    exact ⟨⟨hcalled, _, pid, masterFd, hchild, rfl⟩, listenfd, hlisten⟩
  · cases hs

lemma monitor_stage (h : Stage caller w pc) (hs : monitor caller w pc a = some (pc', w')) :
    Stage caller w' pc' := by
  -- where the call is another one than the next, there is no step
  cases pc <;> cases a <;> try cases hs
  case callback.callback => exact callback_stage hs
  case bind.bind ok => exact bind_stage h hs
  case listen.listen ok => exact listen_stage h hs
  case initPool.initPool => exact initPool_stage h hs
  case ptyClone.ptyClone child => cases child <;> cases hs <;> trivial
  case socket.socket listenfd =>
    cases listenfd with
    | none =>
      cases hs
      trivial
    | some listenfd =>
      cases hs
      exact h
  case access.access found =>
    simp only [monitor] at hs
    split_ifs at hs
    · cases hs
      exact h
    · cases hs
      exact h
  case signal.signal | unlink.unlink | set.set | loop.serve => exact h
  -- the monitor ends, or nothing is to be done yet
  all_goals trivial

/-- A monitor that has cleared its semaphore. -/
structure Cleared (t : Thread) (c : Child) : Prop where
  ready : Ready t.caller c.site
  point : c.point = .loop ∨ c.point = .ended

lemma setSem_eq (a : Act) (sem : ℕ) : setSem a sem = sem ∨ a = .set true := by
  unfold setSem
  split
  · exact Or.inr rfl
  · exact Or.inl rfl

lemma stage_set (h : Stage caller w pc) (hs : monitor caller w pc (.set true) = some (pc', w')) :
    Ready caller w' ∧ (pc' = .loop ∨ pc' = .ended) := by
  cases pc <;> cases hs
  exact ⟨h.1, Or.inl rfl⟩

lemma ready_step (h : Ready caller w) (hpc : pc = .loop ∨ pc = .ended)
    (hs : monitor caller w pc a = some (pc', w')) :
    Ready caller w' ∧ (pc' = .loop ∨ pc' = .ended) := by
  rcases hpc with rfl | rfl
  · cases a <;> cases hs
    · exact ⟨h, Or.inl rfl⟩
    · exact ⟨⟨h.called, h.pool⟩, Or.inr rfl⟩
  · cases hs

/-! ### Any order -/

/-- A monitor with the semaphore has cleared it. -/
def ClearedIn (threads : List Thread) (sem : ℕ) : Prop :=
  ∃ t ∈ threads, ∃ c, t.child = some c ∧ c.synchSem = sem ∧ Cleared t c

/-- Where a thread is, with its own semaphore and its monitor. -/
def PointOk (t : Thread) : Prop :=
  match t.point with
  | .semget | .setval _ | .fork => t.child = none
  | .semop val => val = 0 ∧ t.child = none
  | .assign val => val = 1 ∧ t.child = none
  | .read | .zero _ | .passed _ => t.child ≠ none

/-- The thread is where it may be, and so is its monitor. -/
structure ThreadOk (t : Thread) : Prop where
  point : PointOk t
  stage : ∀ c, t.child = some c → Stage t.caller c.site c.point

/-- **The invariant**: a semaphore is one until a monitor has cleared it. -/
structure Inv (s : State) : Prop where
  ok : ∀ t ∈ s.threads, ThreadOk t
  live : ∀ sem val, s.sems[sem]? = some val → val = 1 ∨ ClearedIn s.threads sem
  passed : ∀ t ∈ s.threads, ∀ sem, t.point = .passed sem → ClearedIn s.threads sem

variable {s s' : State} {threads : List Thread} {i sem : ℕ} {t t' : Thread} {c : Child}

lemma ClearedIn.set (h : ClearedIn threads sem) (ht : threads[i]? = some t)
    (hkeep : ∀ c, t.child = some c → Cleared t c →
      ∃ c', t'.child = some c' ∧ c'.synchSem = c.synchSem ∧ Cleared t' c') :
    ClearedIn (threads.set i t') sem := by
  obtain ⟨u, hu, c, hc, hsem, hcleared⟩ := h
  rcases Pool.mem_set_of_mem (x := t') ht hu with rfl | hmem
  · obtain ⟨c', hc', hsem', hcleared'⟩ := hkeep c hc hcleared
    exact ⟨t', Pool.mem_set_self ht, c', hc', hsem'.trans hsem, hcleared'⟩
  · exact ⟨u, hmem, c, hc, hsem, hcleared⟩

lemma ClearedIn.move (h : ClearedIn threads sem) (ht : threads[i]? = some t)
    (hcaller : t'.caller = t.caller) (hchild : t.child = none ∨ t'.child = t.child) :
    ClearedIn (threads.set i t') sem := by
  refine h.set ht fun c hc hcleared => ?_
  rcases hchild with hnone | hsame
  · cases hnone.symm.trans hc
  · exact ⟨c, hsame.trans hc, rfl, hcaller.symm ▸ hcleared.ready, hcleared.point⟩

lemma Inv.move (h : Inv s) (ht : s.threads[i]? = some t)
    (hthreads : s'.threads = s.threads.set i t')
    (hsems : s'.sems = s.sems ∨ s'.sems = s.sems ++ [1]) (hcaller : t'.caller = t.caller)
    (hchild : t.child = none ∨ t'.child = t.child) (hok : ThreadOk t')
    (hpassed : ∀ sem, t'.point = .passed sem → ClearedIn s.threads sem) : Inv s' := by
  have hkeep : ∀ sem, ClearedIn s.threads sem → ClearedIn s'.threads sem := fun sem hsem =>
    hthreads ▸ hsem.move ht hcaller hchild
  refine ⟨hthreads ▸ Pool.forall_set h.ok hok, fun sem val hval => ?_, ?_⟩
  · rcases hsems with heq | heq
    · exact (h.live sem val (heq ▸ hval)).imp_right (hkeep sem)
    · rw [heq, List.getElem?_append] at hval
      split_ifs at hval with hlt
      · exact (h.live sem val hval).imp_right (hkeep sem)
      · left
        have hone : val ∈ [1] := List.mem_of_getElem? hval
        simpa using hone
  · rw [hthreads]
    refine Pool.forall_set (fun u hu sem hsem => ?_) fun sem hsem => ?_
    · exact hthreads ▸ hkeep sem (h.passed u hu sem hsem)
    · exact hthreads ▸ hkeep sem (hpassed sem hsem)

lemma Inv.exit (h : Inv s) : Inv s.exit := ⟨h.ok, h.live, h.passed⟩

lemma Inv.alone (h : Inv s) (ht : s.threads[i]? = some t) (hnone : t.child = none)
    (hthreads : s'.threads = s.threads.set i t')
    (hsems : s'.sems = s.sems ∨ s'.sems = s.sems ++ [1]) (hcaller : t'.caller = t.caller)
    (hchild : t'.child = none) (hpoint : PointOk t') : Inv s' := by
  refine h.move ht hthreads hsems hcaller (Or.inl hnone) ⟨hpoint, fun c hc => ?_⟩ fun sem hsem => ?_
  · cases hchild.symm.trans hc
  · unfold PointOk at hpoint
    rw [hsem] at hpoint
    exact absurd hchild hpoint

lemma Inv.callThread (h : Inv s) (ht : s.threads[i]? = some t) {call : Call}
    (hs : Restarts.callThread s i t t.point call = some s') : Inv s' := by
  obtain ⟨hpoint, hstage⟩ := h.ok t (List.mem_of_getElem? ht)
  unfold PointOk at hpoint
  cases hat : t.point <;> rw [hat] at hs hpoint <;> cases call <;> try cases hs
  case semget.semget val =>
    cases val with
    | none =>
      cases hs
      exact h.exit
    | some val =>
      cases hs
      exact h.alone ht hpoint rfl (Or.inl rfl) rfl hpoint hpoint
  case setval.setval ok =>
    cases ok with
    | false => exact h.exit
    | true => exact h.alone ht hpoint rfl (Or.inl rfl) rfl hpoint ⟨rfl, hpoint⟩
  case semop.semop ok =>
    obtain ⟨rfl, hnone⟩ := hpoint
    cases ok with
    | false => exact h.exit
    | true => exact h.alone ht hnone rfl (Or.inl rfl) rfl hnone ⟨rfl, hnone⟩
  case assign.assign =>
    obtain ⟨rfl, hnone⟩ := hpoint
    exact h.alone ht hnone rfl (Or.inr rfl) rfl hnone hnone
  case fork.fork ok =>
    cases ok with
    | false =>
      cases hs
      exact h.exit
    | true =>
      obtain ⟨sem, -, rfl⟩ := Option.map_eq_some_iff.mp hs
      refine h.move ht rfl (Or.inl rfl) rfl (Or.inl hpoint) ⟨?_, fun c hc => ?_⟩ (by simp)
      · exact Option.some_ne_none _
      · cases hc
        trivial
  case read.read =>
    obtain ⟨sem, -, rfl⟩ := Option.map_eq_some_iff.mp hs
    exact h.move ht rfl (Or.inl rfl) rfl (Or.inr rfl) ⟨hpoint, hstage⟩ (by simp)
  case zero.zero sem interrupted =>
    simp only [Restarts.callThread] at hs
    split_ifs at hs with hint hzero
    · cases hs
      exact h
    · cases hs
      have hcleared : ClearedIn s.threads sem :=
        (h.live sem 0 hzero).resolve_left (by decide)
      refine h.move ht rfl (Or.inl rfl) rfl (Or.inr rfl) ⟨hpoint, hstage⟩ fun sem' heq => ?_
      cases heq
      exact hcleared

lemma Ready.shared (h : Ready t.caller c.site) : Ready t.caller (s.siteOf t c) :=
  ⟨h.called, h.pool⟩

lemma stage_shared (h : Stage t.caller c.site pc) : Stage t.caller (s.siteOf t c) pc := by
  cases pc
  case set | loop => exact ⟨h.1.shared, h.2⟩
  all_goals exact h

lemma pointOk_child {c' : Child} (h : PointOk t) (hc : t.child = some c) :
    PointOk { t with child := some c' } := by
  unfold PointOk at h ⊢
  dsimp only
  cases hat : t.point <;> rw [hat] at h <;> simp_all

lemma Inv.callMonitor (h : Inv s) (ht : s.threads[i]? = some t) (hc : t.child = some c)
    (hs : Restarts.callMonitor s i t c a = some s') : Inv s' := by
  obtain ⟨hpoint, hstage⟩ := h.ok t (List.mem_of_getElem? ht)
  obtain ⟨⟨pc, w⟩, hrun, rfl⟩ := Option.map_eq_some_iff.mp hs
  have hat : Stage t.caller (s.siteOf t c) c.point := stage_shared (hstage c hc)
  let c' : Child := { c with point := pc, site := w }
  let t' : Thread := { t with child := some c' }
  have hkeep : ∀ sem, ClearedIn s.threads sem → ClearedIn (s.threads.set i t') sem := by
    refine fun sem hsem => hsem.set ht fun c₀ hc₀ hcleared => ⟨c', rfl, ?_⟩
    obtain rfl : c₀ = c := Option.some.inj (hc₀.symm.trans hc)
    obtain ⟨hready, hpc⟩ := ready_step hcleared.ready.shared hcleared.point hrun
    exact ⟨rfl, hready, hpc⟩
  refine ⟨Pool.forall_set h.ok ⟨pointOk_child hpoint hc, fun c₀ hc₀ => ?_⟩, fun sem val hval => ?_,
    Pool.forall_set (fun u hu sem hsem => hkeep sem (h.passed u hu sem hsem)) fun sem hsem =>
      hkeep sem (h.passed t (List.mem_of_getElem? ht) sem hsem)⟩
  · cases hc₀
    exact monitor_stage hat hrun
  · dsimp only at hval
    rw [List.getElem?_modify] at hval
    obtain ⟨val', hval', heq⟩ := Option.map_eq_some_iff.mp hval
    split_ifs at heq with hsem
    · rcases setSem_eq a val' with hsame | rfl
      · rw [← heq, hsame]
        exact (h.live sem val' hval').imp_right (hkeep sem)
      · obtain ⟨hready, hpc⟩ := stage_set hat hrun
        exact Or.inr ⟨t', Pool.mem_set_self ht, c', rfl, hsem, hready, hpc⟩
    · obtain rfl : val' = val := heq
      exact (h.live sem val' hval').imp_right (hkeep sem)

lemma Inv.step (h : Inv s) {e : Event} (hs : restarting.step s e = some s') : Inv s' := by
  cases e with
  | start caller =>
    simp only [restarting] at hs
    split_ifs at hs
    cases hs
    have hnew : ThreadOk ⟨caller, .semget, none⟩ := ⟨rfl, fun c hc => by cases hc⟩
    have hkeep : ∀ sem, ClearedIn s.threads sem →
        ClearedIn (s.threads ++ [⟨caller, .semget, none⟩]) sem := by
      rintro sem ⟨t, ht, hrest⟩
      exact ⟨t, List.mem_append_left _ ht, hrest⟩
    refine ⟨Pool.forall_append h.ok (by simpa using hnew),
      fun sem val hval => (h.live sem val hval).imp_right (hkeep sem),
      Pool.forall_append (fun t ht sem hsem => hkeep sem (h.passed t ht sem hsem)) (by simp)⟩
  | thread i call =>
    simp only [restarting] at hs
    split_ifs at hs
    obtain ⟨t, ht, hcall⟩ := Option.bind_eq_some_iff.mp hs
    exact h.callThread ht hcall
  | monitor i act =>
    obtain ⟨t, ht, hrest⟩ := Option.bind_eq_some_iff.mp hs
    obtain ⟨c, hc, hcall⟩ := Option.bind_eq_some_iff.mp hrest
    exact h.callMonitor ht hc hcall
  | outside file paths =>
    cases hs
    exact ⟨h.ok, h.live, h.passed⟩

lemma inv_reach {ok : State → Event → Prop} (h : restarting.Reach ok s) : Inv s := by
  refine h.invariant (fun s hs => ?_) fun s e s' hinv _ hs => hinv.step hs
  obtain ⟨-, hsems, hthreads, -⟩ := hs
  exact ⟨by simp [hthreads], by simp [hsems], by simp [hthreads]⟩

/-- A thread's monitor serves its container: the callback has recorded the container as running,
the pool is initialised, and the monitor is listening unless it has ended. -/
structure Serves (t : Thread) (c : Child) : Prop where
  ready : Ready t.caller c.site
  listening : c.point = .loop ∧ Listening c.site ∨ c.point = .ended
  recorded : ∀ pid masterFd before after rs, c.site.child = some (pid, masterFd) →
    c.site.recorded = some (before, after) → Represents before rs → t.caller.Known rs →
    RunsAs after t.caller.containerId pid

lemma Cleared.serves (h : Cleared t c) (hstage : Stage t.caller c.site c.point) : Serves t c := by
  refine ⟨h.ready, ?_, fun pid masterFd before after rs hchild hrecorded hrep hknown => ?_⟩
  · rcases h.point with hpoint | hpoint
    · rw [hpoint] at hstage
      exact Or.inl ⟨hpoint, hstage.2⟩
    · exact Or.inr hpoint
  · obtain ⟨pid', masterFd', before', after', result, hchild', hrecorded', hrun⟩ := h.ready.called
    obtain ⟨rfl, rfl⟩ := Prod.mk.inj (Option.some.inj (hchild.symm.trans hchild'))
    obtain ⟨rfl, rfl⟩ := Prod.mk.inj (Option.some.inj (hrecorded.symm.trans hrecorded'))
    exact startSuccess_records hrep hknown hrun

/-- **A thread that has passed** has found its semaphore cleared by a monitor, of its own or of
another thread, that inherited this semaphore and serves its container. -/
theorem passed_after_some (h : restarting.Reach (fun _ _ => True) s) (ht : t ∈ s.threads)
    (hpassed : t.point = .passed sem) :
    ∃ t' ∈ s.threads, ∃ c, t'.child = some c ∧ c.synchSem = sem ∧ Serves t' c := by
  have hinv := inv_reach h
  obtain ⟨t', ht', c, hc, hsem, hcleared⟩ := hinv.passed t ht sem hpassed
  exact ⟨t', ht', c, hc, hsem, hcleared.serves ((hinv.ok t' ht').stage c hc)⟩

/-! ### Threads that keep apart -/

/-- Between the assignment to the variable and the reading of it for `SemUtil::zero`. -/
def ThreadAt.between : ThreadAt → Bool
  | .fork | .read => true
  | _ => false

/-- The variable is assigned only where no thread is between its own assignment and its
reading. -/
def Apart (s : State) : Event → Prop
  | .thread _ .assign => ∀ t ∈ s.threads, t.point.between = false
  | _ => True

instance (s : State) : ∀ e, Decidable (Apart s e)
  | .thread _ .assign => inferInstanceAs (Decidable (∀ t ∈ s.threads, _))
  | .start _ | .monitor _ _ | .outside _ _ => inferInstanceAs (Decidable True)
  | .thread _ (.semget _) | .thread _ (.setval _) | .thread _ (.semop _) | .thread _ (.fork _)
  | .thread _ .read | .thread _ (.zero _) => inferInstanceAs (Decidable True)

/-- The semaphore that the monitor of a thread has inherited. -/
def Thread.childSem (t : Thread) : Option ℕ := t.child.map Child.synchSem

/-- The semaphores inherited. -/
def held (threads : List Thread) : List ℕ := threads.filterMap Thread.childSem

/-- A thread waits for the semaphore of its own monitor, and between the assignment and the
reading the variable is its own. -/
structure OwnOk (synchSem : Option ℕ) (n : ℕ) (sems : List ℕ) (t : Thread) : Prop where
  bound : ∀ sem, t.childSem = some sem → sem < n
  waits : ∀ sem, t.point = .zero sem ∨ t.point = .passed sem → t.childSem = some sem
  fork : t.point = .fork → ∃ sem, synchSem = some sem ∧ sem < n ∧ sem ∉ sems
  read : t.point = .read → t.childSem = synchSem

/-- **The invariant** of threads that keep apart. -/
structure Owned (s : State) : Prop where
  ok : ∀ t ∈ s.threads, OwnOk s.synchSem s.sems.length (held s.threads) t
  nodup : (held s.threads).Nodup
  one : Pool.AtMostOne (fun t => t.point.between) s.threads

lemma Owned.move (h : Owned s) (ht : s.threads[i]? = some t)
    (hthreads : s'.threads = s.threads.set i t') (hsems : s'.sems.length = s.sems.length)
    (hsem : s'.synchSem = s.synchSem) (hchild : t'.childSem = t.childSem)
    (hbetween : t'.point.between = true → t'.point = t.point)
    (hwaits : ∀ sem, t'.point = .zero sem ∨ t'.point = .passed sem → t.childSem = some sem) :
    Owned s' := by
  have hheld : held s'.threads = held s.threads := by
    rw [hthreads]
    exact Pool.filterMap_set_eq ht hchild
  have hold := h.ok t (List.mem_of_getElem? ht)
  have hnew : OwnOk s.synchSem s.sems.length (held s.threads) t' := by
    refine ⟨fun sem hc => hold.bound sem (hchild ▸ hc),
      fun sem hat => hchild.trans (hwaits sem hat), fun hat => hold.fork ?_,
      fun hat => hchild.trans (hold.read ?_)⟩
    · rw [← hbetween (by rw [hat]; rfl), hat]
    · rw [← hbetween (by rw [hat]; rfl), hat]
  refine ⟨?_, hheld ▸ h.nodup, ?_⟩
  · rw [hheld, hsem, hsems, hthreads]
    exact Pool.forall_set h.ok hnew
  · rw [hthreads]
    exact h.one.set ht fun hp => by rwa [← hbetween hp]

lemma Owned.assign (h : Owned s) (ht : s.threads[i]? = some t)
    (hapart : ∀ t ∈ s.threads, t.point.between = false) (hnone : t.child = none) (val : ℕ)
    (s' : State) (hthreads : s'.threads = s.threads.set i { t with point := .fork })
    (hsems : s'.sems = s.sems ++ [val]) (hsem : s'.synchSem = some s.sems.length) :
    Owned s' := by
  have hheld : held s'.threads = held s.threads := by
    rw [hthreads]
    exact Pool.filterMap_set_eq ht rfl
  have hlen : s'.sems.length = s.sems.length + 1 := by rw [hsems, List.length_append]; rfl
  have hlt : ∀ sem ∈ held s.threads, sem < s.sems.length := by
    intro sem hmem
    obtain ⟨u, hu, hchild⟩ := List.mem_filterMap.mp hmem
    exact (h.ok u hu).bound sem hchild
  refine ⟨?_, hheld ▸ h.nodup, ?_⟩
  · rw [hheld, hsem, hlen, hthreads]
    refine Pool.forall_set (fun u hu => ?_) ?_
    · obtain ⟨hbound, hwaits, -, -⟩ := h.ok u hu
      have hout := hapart u hu
      refine ⟨fun sem hc => Nat.lt_succ_of_lt (hbound sem hc), hwaits, fun hat => ?_, fun hat => ?_⟩
      · rw [hat] at hout
        cases hout
      · rw [hat] at hout
        cases hout
    · refine ⟨fun sem hc => ?_, by simp, fun _ => ⟨_, rfl, Nat.lt_succ_self _, fun hmem => ?_⟩,
        by simp⟩
      · rw [Thread.childSem, hnone] at hc
        cases hc
      · exact Nat.lt_irrefl _ (hlt _ hmem)
  · rw [hthreads]
    exact Pool.AtMostOne.set_of_none hapart

/-- A thread forks its monitor, which inherits its semaphore. -/
lemma Owned.fork (h : Owned s) (ht : s.threads[i]? = some t) (hat : t.point = .fork)
    (hnone : t.child = none) (hsem : s.synchSem = some sem)
    (ht' : t' = { t with point := .read, child := some ⟨.ptyClone, sem, newSite⟩ }) :
    Owned (s.move i t') := by
  obtain ⟨sem', hsem', hlt, hfree⟩ := (h.ok t (List.mem_of_getElem? ht)).fork hat
  obtain rfl : sem = sem' := Option.some.inj (hsem.symm.trans hsem')
  have hperm : (held (s.threads.set i t')).Perm (sem :: held s.threads) :=
    Pool.filterMap_set_perm ht (by rw [Thread.childSem, hnone]; rfl) (by rw [ht']; rfl)
  have hbetween : t.point.between = true := by rw [hat]; rfl
  refine ⟨fun u hu => ?_, hperm.nodup_iff.mpr (List.nodup_cons.mpr ⟨hfree, h.nodup⟩), ?_⟩
  · have hmoved : u.point.between = true → u = t' := fun hp =>
      Pool.AtMostOne.eq_of_mem_set (p := fun t => t.point.between) h.one ht hbetween hu hp
    rcases List.mem_or_eq_of_mem_set hu with hold | rfl
    · obtain ⟨hbound, hwaits, -, -⟩ := h.ok u hold
      refine ⟨hbound, hwaits, fun hu' => ?_, fun hu' => ?_⟩
      · rw [hmoved (by rw [hu']; rfl), ht'] at hu'
        cases hu'
      · rw [hmoved (by rw [hu']; rfl), ht']
        exact hsem.symm
    · rw [ht']
      refine ⟨fun sem' hc => ?_, by simp, by simp, fun _ => hsem.symm⟩
      cases hc
      exact hlt
  · exact h.one.set ht fun _ => hbetween

lemma Owned.go (h : Owned s) (ht : s.threads[i]? = some t) {point : ThreadAt}
    (hbetween : point.between = false)
    (hwaits : ∀ sem, point = .zero sem ∨ point = .passed sem → t.childSem = some sem) :
    Owned (s.move i { t with point }) := by
  refine h.move ht rfl rfl rfl rfl (fun hp => ?_) hwaits
  cases hbetween.symm.trans hp

lemma Owned.callThread (h : Owned s) (hinv : Inv s) (ht : s.threads[i]? = some t) {call : Call}
    (hapart : Apart s (.thread i call))
    (hs : Restarts.callThread s i t t.point call = some s') : Owned s' := by
  obtain ⟨hpoint, -⟩ := hinv.ok t (List.mem_of_getElem? ht)
  have hexit : Owned s.exit := ⟨h.ok, h.nodup, h.one⟩
  have hown := h.ok t (List.mem_of_getElem? ht)
  unfold PointOk at hpoint
  cases hat : t.point <;> rw [hat] at hs hpoint <;> cases call <;> try cases hs
  case semget.semget val =>
    cases val with
    | none =>
      cases hs
      exact hexit
    | some val =>
      cases hs
      exact h.go ht rfl (by simp)
  case setval.setval ok =>
    cases ok with
    | false => exact hexit
    | true => exact h.go ht rfl (by simp)
  case semop.semop ok =>
    cases ok with
    | false => exact hexit
    | true => exact h.go ht rfl (by simp)
  case assign.assign => exact h.assign ht hapart hpoint.2 _ _ rfl rfl rfl
  case fork.fork ok =>
    cases ok with
    | false =>
      cases hs
      exact hexit
    | true =>
      obtain ⟨sem, hsem, rfl⟩ := Option.map_eq_some_iff.mp hs
      exact h.fork ht hat hpoint hsem rfl
  case read.read =>
    obtain ⟨sem, hsem, rfl⟩ := Option.map_eq_some_iff.mp hs
    refine h.go ht rfl fun sem' hat' => ?_
    obtain rfl : sem = sem' := by simpa using hat'
    exact (hown.read hat).trans hsem
  case zero.zero sem interrupted =>
    simp only [Restarts.callThread] at hs
    split_ifs at hs
    · cases hs
      exact h
    · cases hs
      refine h.go ht rfl fun sem' hat' => ?_
      obtain rfl : sem = sem' := by simpa using hat'
      exact hown.waits sem (Or.inl hat)

lemma Owned.callMonitor (h : Owned s) (ht : s.threads[i]? = some t) (hc : t.child = some c)
    (hs : Restarts.callMonitor s i t c a = some s') : Owned s' := by
  obtain ⟨⟨pc, w⟩, -, rfl⟩ := Option.map_eq_some_iff.mp hs
  refine h.move ht rfl (by simp) rfl ?_ (fun _ => rfl)
    fun sem hat => (h.ok t (List.mem_of_getElem? ht)).waits sem hat
  rw [Thread.childSem, Thread.childSem, hc]
  rfl

lemma Owned.step (h : Owned s) (hinv : Inv s) {e : Event} (hapart : Apart s e)
    (hs : restarting.step s e = some s') : Owned s' := by
  cases e with
  | start caller =>
    simp only [restarting] at hs
    split_ifs at hs
    cases hs
    have hheld : held (s.threads ++ [⟨caller, .semget, none⟩]) = held s.threads := by
      simp [held, Thread.childSem]
    refine ⟨?_, hheld ▸ h.nodup, h.one.append (by simp [ThreadAt.between])⟩
    dsimp only
    rw [hheld]
    refine Pool.forall_append h.ok ?_
    simpa using (⟨by simp [Thread.childSem], by simp, by simp, by simp⟩ :
      OwnOk s.synchSem s.sems.length (held s.threads) ⟨caller, .semget, none⟩)
  | thread i call =>
    simp only [restarting] at hs
    split_ifs at hs
    obtain ⟨t, ht, hcall⟩ := Option.bind_eq_some_iff.mp hs
    exact h.callThread hinv ht hapart hcall
  | monitor i act =>
    obtain ⟨t, ht, hrest⟩ := Option.bind_eq_some_iff.mp hs
    obtain ⟨c, hc, hcall⟩ := Option.bind_eq_some_iff.mp hrest
    exact h.callMonitor ht hc hcall
  | outside file paths =>
    cases hs
    exact ⟨h.ok, h.nodup, h.one⟩

lemma owned_reach (h : restarting.Reach Apart s) : Inv s ∧ Owned s := by
  refine h.invariant (I := fun s => Inv s ∧ Owned s)
    (fun s hs => ⟨inv_reach (.start hs : restarting.Reach Apart s), ?_⟩)
    fun s e s' hinv hapart hs => ⟨hinv.1.step hs, hinv.2.step hinv.1 hapart hs⟩
  obtain ⟨-, -, hthreads, -⟩ := hs
  exact ⟨by simp [hthreads], by simp [hthreads, held], by simp [hthreads, Pool.AtMostOne]⟩

/-- **Threads that keep apart** each pass only when their own monitor serves their container. -/
theorem passed_after_own (h : restarting.Reach Apart s) (ht : t ∈ s.threads)
    (hpassed : t.point = .passed sem) :
    ∃ c, t.child = some c ∧ c.synchSem = sem ∧ Serves t c := by
  obtain ⟨hinv, howned⟩ := owned_reach h
  obtain ⟨t', ht', c, hc, hsem, hcleared⟩ := hinv.passed t ht sem hpassed
  have hchild : t'.childSem = some sem := by rw [Thread.childSem, hc, Option.map_some, hsem]
  obtain rfl : t' = t := Pool.eq_of_nodup_filterMap howned.nodup ht' ht hchild
    ((howned.ok t ht).waits sem (Or.inr hpassed))
  exact ⟨c, hc, hsem, hcleared.serves ((hinv.ok t' ht').stage c hc)⟩

def unstarted : State := ⟨none, [], .missing, fun _ => none, [], false⟩

/-- The calls of a thread up to the assignment. -/
def makeSem (i : ℕ) : List Event :=
  [.thread i (.semget (some 0)), .thread i (.setval true), .thread i (.semop true),
    .thread i .assign]

/-- The calls of a monitor up to the one that clears the semaphore. -/
def prepare (i : ℕ) : List Event :=
  ([.ptyClone (some (4711, 3)), .readHeader .eof, .callback, .signal true, .socket (some 4),
    .access false, .bind true, .listen true, .initPool, .set true] : List Act).map (.monitor i)

/-- A thread starts a container while no other is about to. -/
def startedAlone : List Event :=
  .start runShell :: makeSem 0 ++ [.thread 0 (.fork true), .thread 0 .read] ++ prepare 0 ++
    [.thread 0 (.zero false)]

/-- A second thread assigns the variable before the first one forks. -/
def startedTogether : List Event :=
  [.start runShell, .start runShell] ++ makeSem 0 ++ makeSem 1 ++
    [.thread 0 (.fork true), .thread 1 (.fork true), .thread 0 .read] ++ prepare 1 ++
    [.thread 0 (.zero false)]

/-- Where the threads are, and their monitors. -/
def State.summary (s : State) : List (ThreadAt × Option MonitorAt) :=
  s.threads.map fun t => (t.point, t.child.map Child.point)

theorem passed_after_own_alone :
    ∃ s t c, restarting.runs unstarted startedAlone = some s ∧ t ∈ s.threads ∧
      t.point = .passed 0 ∧ t.child = some c ∧ Serves t c := by
  have hrun : (restarting.runs unstarted startedAlone).any (fun s =>
      s.threads.any fun t => t.point = .passed 0) = true := by decide +kernel
  obtain ⟨s, hs, hany⟩ := (Option.any_eq_true ..).mp hrun
  obtain ⟨t, ht, hpassed⟩ := List.any_eq_true.mp hany
  have hreach : restarting.Reach Apart s :=
    Machine.Reach.runs (.start ⟨rfl, rfl, rfl, rfl⟩) (Machine.meets_of_check (by decide +kernel)) hs
  obtain ⟨c, hc, -, hserves⟩ := passed_after_own hreach ht (of_decide_eq_true hpassed)
  exact ⟨s, t, c, hs, ht, of_decide_eq_true hpassed, hc, hserves⟩

/-- The first thread passes while its own monitor has not made a call. -/
theorem passed_after_some_together :
    ∃ s, restarting.runs unstarted startedTogether = some s ∧
      s.summary = [(.passed 1, some .ptyClone), (.read, some .loop)] ∧
      ∃ t ∈ s.threads, ∃ c, t.child = some c ∧ Serves t c := by
  have hrun : (restarting.runs unstarted startedTogether).map State.summary =
      some [(.passed 1, some .ptyClone), (.read, some .loop)] := by decide +kernel
  obtain ⟨s, hs, hsummary⟩ := Option.map_eq_some_iff.mp hrun
  have hreach : restarting.Reach (fun _ _ => True) s :=
    Machine.Reach.runs (.start ⟨rfl, rfl, rfl, rfl⟩) (Machine.meets_true _ _) hs
  have hmem : (ThreadAt.passed 1, some MonitorAt.ptyClone) ∈ s.summary := by
    rw [hsummary]
    exact List.mem_cons_self
  obtain ⟨t, ht, heq⟩ := List.mem_map.mp hmem
  obtain ⟨t', ht', c, hc, -, hserves⟩ :=
    passed_after_some hreach ht (Prod.mk.inj heq).1
  exact ⟨s, hs, hsummary, t', ht', c, hc, hserves⟩

end Hoststack.Restarts
