import Hoststack.Moves
import Hoststack.Unmounting

/-!
Whether a removal deletes through a mount.

`rm` counts on `stop` to unmount, but it is the monitor that unmounts, after it has seen the
process exit, in its own time. What is mounted for a container and what its process still has
to mount is bounded by what a run without a failure mounts; when the monitor is done nothing
of it is left. Where a removal waits for that, it deletes no directory that is in use.
-/

namespace Hoststack.Removal

open MountStack Hoststack.Path PathAssembler ContainerFs StoreInv RecordMap Lifecycle Moves
open Unmounting

/-- A process of the container whose monitor has not unmounted everything. -/
def pending (c : Str) : Actor → Bool
  | .inst i => i.info.id = c && !i.umounted
  | _ => false

/-- A removal is about to delete the layer directory of the container. -/
def removesLayer (c : Str) : Actor → Bool
  | .removing info .layer => info.id = c
  | _ => false

/-- A removal goes on to the layer directory only when every process of the container has been
unmounted, and a start clones only then, and while no removal is at the layer directory. -/
def Clean (w : World) : Actor → Label → Prop
  | .removing info .containers, .next _ _ => ∀ a ∈ w.actors, pending info.id a = false
  | .starting _ info, .launch _ =>
    ∀ a ∈ w.actors, pending info.id a = false ∧ removesLayer info.id a = false
  | _, _ => True

/-- Every process that moves meets the condition. -/
def Orderly (w : World) : Action → Prop
  | .turn n l => ∀ a ∈ w.actors[n]?, Clean w a l
  | _ => True

instance (w : World) (a : Actor) (l : Label) : Decidable (Clean w a l) :=
  match a, l with
  | .removing info .containers, .next _ _ =>
    inferInstanceAs (Decidable (∀ a ∈ w.actors, pending info.id a = false))
  | .starting _ info, .launch _ =>
    inferInstanceAs (Decidable (∀ a ∈ w.actors, _ ∧ removesLayer info.id a = false))
  | .removing _ .layer, _ | .removing _ .record, _ | .removing _ .containers, .launch _
  | .removing _ .containers, .init _ | .removing _ .containers, .exit
  | .removing _ .containers, .killed | .removing _ .containers, .orphan
  | .starting _ _, .next _ _ | .starting _ _, .init _ | .starting _ _, .exit
  | .starting _ _, .killed | .starting _ _, .orphan
  | .startContainer _ _, _ | .inst _, _ | .stop _ _, _ | .stopping _ _ _, _
  | .removeContainer _ _, _ | .resolving _, _ | .asleep _, _ | .rechecking _, _
  | .restarting _, _ | .done, _ => inferInstanceAs (Decidable True)

instance (w : World) (act : Action) : Decidable (Orderly w act) :=
  match act with
  | .turn n l => inferInstanceAs (Decidable (∀ a ∈ w.actors[n]?, Clean w a l))
  | .command _ | .scan | .scanNext | .newProcess _ | .endProcess _ | .reboot =>
    inferInstanceAs (Decidable True)

/-! ### The turns of the mounting loops -/

/-- The paths a turn for an entry of the table mounts at most. -/
def taskPaths (env : Env) (containerId : Str) : MountTask → List (List Str)
  | .entry e => if mounted env e then [mountPath containerId e] else []
  | .volume _ => []

/-- The turn is for an entry of the table. -/
def TaskOk : MountTask → Prop
  | .entry _ => True
  | .volume _ => False

variable {bs : List Birth} {env : Env} {proc : Int32 → Bool} {sh sh' : Shared} {a a' : Actor}
  {l : Label} {i : Instance} {info : ContainerInfo} {c : Str} {w w' : World} {n : ℕ}

lemma flatMap_entries (table : List MntDir) :
    (table.map .entry).flatMap (taskPaths env c) =
      (table.filter (mounted env)).map (mountPath c) := by
  induction table with
  | nil => rfl
  | cons e table ih =>
    rw [List.map_cons, List.flatMap_cons, ih, List.filter_cons, taskPaths]
    split_ifs <;> rfl

lemma mountTasks_eq (hv : info.volumeList.elems = []) :
    mountTasks env info = (turns env).map .entry := by
  rw [mountTasks, hv]
  exact List.append_nil _

lemma flatMap_mountTasks (hv : info.volumeList.elems = []) :
    (mountTasks env info).flatMap (taskPaths env c) = tableMounts env c := by
  rw [mountTasks_eq hv, flatMap_entries]
  rfl

lemma taskOk_mountTasks (hv : info.volumeList.elems = []) :
    ∀ t ∈ mountTasks env info, TaskOk t := by
  intro t ht
  rw [mountTasks_eq hv] at ht
  obtain ⟨e, -, rfl⟩ := List.mem_map.mp ht
  trivial

lemma run_le {task : MountTask} {ok done : Bool} {s s' : FsState} (ht : TaskOk task)
    (hr : task.run { env with mountOk := fun _ => ok } c s = some (s', done)) (q : List Str) :
    times s'.mounts q ≤ times s.mounts q + times (taskPaths env c task) q := by
  cases task with
  | entry e =>
    have hpush := mountEntry_pushes { env with mountOk := fun _ => ok } c s e
    rw [Option.some.inj hr] at hpush
    exact hpush.le q
  | volume v => exact ht.elim

/-! ### What is mounted while a process is pending -/

/-- The turns that the process has still to take. -/
def remaining : InitState → List MountTask
  | .mounting tasks => tasks
  | _ => []

/-- A monitor reaps the process before it unmounts. -/
structure Phase (i : Instance) : Prop where
  early : i.monitor = .starting ∨ i.monitor = .relaying ∨ i.monitor = .reaped ∨
    i.monitor = .untabled → i.umounted = false
  reaped : i.monitor = .reaped ∨ i.monitor = .untabled ∨ i.monitor = .unmounted →
    i.init.alive = false
  umounted : i.umounted = true → i.init.alive = false
  tasks : ∀ t ∈ remaining i.init, TaskOk t

/-- A process, with what is mounted for its container: that, with what is still to be mounted,
is what a run without a failure mounts at most; and when the table has been unmounted, what
that leaves of it. -/
structure Sane (env : Env) (i : Instance) (m : Mounts Str) : Prop where
  phase : Phase i
  mounted : i.monitor = .starting ∨ i.monitor = .relaying ∨ i.monitor = .reaped → ∀ x,
    times m (inside i.info.id x) +
        times ((remaining i.init).flatMap (taskPaths env i.info.id)) (inside i.info.id x) ≤
      times (tableMounts env i.info.id) (inside i.info.id x)
  untabled : i.monitor = .untabled → ∀ e, firstExisting env = some e → ∀ x,
    times m (inside i.info.id x) ≤
      times (umountAll (tableMounts env i.info.id)
        ((tableAttempts env (resolve e.target)).map (inside i.info.id))) (inside i.info.id x)

/-- Nothing is mounted for the container. -/
def ClearFor (w : World) (c : Str) : Prop :=
  Clear (resolve (getMergedDir c)) (w.fs c).mounts

instance (w : World) (c : Str) : Decidable (ClearFor w c) :=
  inferInstanceAs (Decidable (Clear _ _))

/-- One process of a container at most is pending, and none while a removal is at the layer
directory; where none is, nothing is mounted. -/
structure Kept (env : Env) (w : World) : Prop where
  one : ∀ c, Pool.AtMostOne (pending c) w.actors
  sane : ∀ i, .inst i ∈ w.actors → Sane env i (w.fs i.info.id).mounts
  clear : ∀ c, (∀ a ∈ w.actors, pending c a = false) → ClearFor w c
  away : ∀ c, (∃ a ∈ w.actors, removesLayer c a = true) → ∀ a ∈ w.actors, pending c a = false

lemma Sane.of_umounted {m m' : Mounts Str} (h : Sane env i m) (hu : i.umounted = true) :
    Sane env i m' := by
  have hearly := h.phase.early
  refine ⟨h.phase, fun hm => ?_, fun hm => ?_⟩
  · rw [hearly (by tauto)] at hu
    cases hu
  · rw [hearly (by tauto)] at hu
    cases hu

@[simp] lemma pending_inst : pending c (.inst i) = true ↔ i.info.id = c ∧ i.umounted = false := by
  simp [pending]

@[simp] lemma pending_signal (pid : Int32) (a : Actor) :
    pending c (a.signal pid) = pending c a := by
  cases a with
  | inst i => simp only [Actor.signal]; split_ifs <;> rfl
  | _ => rfl

@[simp] lemma removesLayer_signal (pid : Int32) (a : Actor) :
    removesLayer c (a.signal pid) = removesLayer c a := by
  cases a with
  | inst i => simp only [Actor.signal]; split_ifs <;> rfl
  | _ => rfl

lemma eq_of_removesLayer (h : removesLayer c a = true) :
    ∃ info, a = .removing info .layer ∧ info.id = c := by
  unfold removesLayer at h
  split at h
  · exact ⟨_, rfl, of_decide_eq_true h⟩
  · cases h

/-! ### One process -/

/-- What is asked of the mount table and the containers: they have no volumes, and for each of
them unmounting the table undoes mounting it. -/
structure Clearable (env : Env) (bs : List Birth) : Prop where
  table : TableOk env.table
  undoable : ∀ b ∈ bs, Undoable env b.id b.volumes

/-- The process of a container stays one of the container, is unmounted once, and touches no
mounts of other containers. -/
lemma inst_turn (ht : Turn env proc sh (.inst i) l sh' a') :
    ∃ i', a' = .inst i' ∧ i'.info = i.info ∧ (i.umounted = true → i'.umounted = true) ∧
      ∀ d, d ≠ i.info.id → sh'.fs d = sh.fs d := by
  have hset : ∀ (sh : Shared) fs d, d ≠ i.info.id → (sh.setFs i.info.id fs).fs d = sh.fs d :=
    fun sh fs d hd => Function.update_of_ne hd _ _
  cases ht with
  | quits ha => exact absurd rfl (ha i)
  | mounts => exact ⟨_, rfl, rfl, id, hset sh _⟩
  | fails => exact ⟨_, rfl, rfl, id, hset sh _⟩
  | callsBack _ _ hfs => exact ⟨_, rfl, rfl, id, fun d _ => congrFun hfs d⟩
  | umountsTable => exact ⟨_, rfl, rfl, id, hset sh _⟩
  | umountsVolumes _ hl =>
    exact ⟨_, rfl, rfl, fun _ => rfl, fun d hd => (hset _ _ d hd).trans (congrFun hl.fs d)⟩
  | umountsUndefined _ hl => exact ⟨_, rfl, rfl, id, fun d _ => congrFun hl.fs d⟩
  | umountsNoVolumes _ hl => exact ⟨_, rfl, rfl, id, fun d _ => congrFun hl.fs d⟩
  | marks _ hs => exact ⟨_, rfl, rfl, id, fun d _ => congrFun hs.fs d⟩
  | marksNone _ hs => exact ⟨_, rfl, rfl, id, fun d _ => congrFun hs.fs d⟩
  | _ => exact ⟨_, rfl, rfl, id, fun _ _ => rfl⟩

lemma fs_of_umounted (hp : Phase i) (hu : i.umounted = true)
    (ht : Turn env proc sh (.inst i) l sh' a') : sh'.fs = sh.fs := by
  have hdead := hp.umounted hu
  have hearly := hp.early
  cases ht with
  | quits _ hq => exact hq.fs
  | mounts hi => simp [hi, InitState.alive] at hdead
  | fails hi => simp [hi, InitState.alive] at hdead
  | callsBack _ _ hfs => exact hfs
  | umountsTable hm => simp [hm, hu] at hearly
  | umountsVolumes hm => simp [hm, hu] at hearly
  | umountsUndefined _ hl => exact hl.fs
  | umountsNoVolumes _ hl => exact hl.fs
  | marks _ hs => exact hs.fs
  | marksNone _ hs => exact hs.fs
  | _ => rfl

lemma Sane.init {m m' : Mounts Str} (h : Sane env i m) (ha : i.init.alive = true)
    (init' : InitState)
    (hle : ∀ q,
      times m' q + times ((remaining init').flatMap (taskPaths env i.info.id)) q ≤
        times m q + times ((remaining i.init).flatMap (taskPaths env i.info.id)) q)
    (htasks : ∀ t ∈ remaining init', TaskOk t) : Sane env { i with init := init' } m' := by
  have hreaped : ¬ (i.monitor = .reaped ∨ i.monitor = .untabled ∨ i.monitor = .unmounted) :=
    fun hm => by rw [h.phase.reaped hm] at ha; cases ha
  refine ⟨⟨h.phase.early, fun hm => absurd hm hreaped, fun hu => ?_, htasks⟩,
    fun hm x => (hle _).trans (h.mounted hm x), fun hm => absurd (Or.inr (Or.inl hm)) hreaped⟩
  rw [h.phase.umounted hu] at ha
  cases ha

lemma remaining_of_dead {init : InitState} (h : init.alive = false) : remaining init = [] := by
  cases init with
  | mounting tasks => cases h
  | _ => rfl

lemma Sane.late {m m' : Mounts Str} (h : Sane env i m) {monitor' : MonitorState} {u : Bool}
    (hm : monitor' = .unmounted ∨ monitor' = .finished ∨ monitor' = .dead)
    (hu : u = true → i.init.alive = false)
    (hr : monitor' = .unmounted → i.init.alive = false) :
    Sane env { i with monitor := monitor', umounted := u } m' := by
  refine ⟨⟨fun he => ?_, fun he => ?_, hu, h.phase.tasks⟩, fun he => ?_, fun he => ?_⟩
  · rcases hm with rfl | rfl | rfl <;> simp at he
  · rcases hm with rfl | rfl | rfl <;> simp at he
    exact hr rfl
  · rcases hm with rfl | rfl | rfl <;> simp at he
  · rcases hm with rfl | rfl | rfl <;> simp at he

lemma task_le {task : MountTask} (tasks : List MountTask) {ok done : Bool} {s s' : FsState}
    (ht : TaskOk task)
    (hr : task.run { env with mountOk := fun _ => ok } i.info.id s = some (s', done))
    (q : List Str) :
    times s'.mounts q + times (tasks.flatMap (taskPaths env i.info.id)) q ≤
      times s.mounts q + times ((task :: tasks).flatMap (taskPaths env i.info.id)) q := by
  have hle := run_le ht hr q
  rw [List.flatMap_cons, times_append]
  omega

/-- The table is unmounted after everything has been mounted that will be. -/
lemma Sane.umountTable {s s' : FsState} (h : Sane env i s.mounts) (hc : TableOk env.table)
    (hu : Undoable env i.info.id i.info.volumeList) (hm : i.monitor = .reaped)
    (hr : umountTable env i.info.id s = some s') :
    Sane env { i with monitor := .untabled } s'.mounts := by
  have hdead := h.phase.reaped (Or.inl hm)
  refine ⟨⟨fun _ => h.phase.early (by simp [hm]), fun _ => hdead, h.phase.umounted,
    h.phase.tasks⟩, fun he => by simp at he, fun _ e he x => ?_⟩
  obtain ⟨s'', hrun, hmounts⟩ := umountTable_run env s hc hu.fits he
  rw [hr] at hrun
  cases hrun
  rw [hmounts]
  refine times_umountAll_inside_le (fun y => ?_) x
  have hle := h.mounted (by simp [hm]) y
  rw [remaining_of_dead hdead, List.flatMap_nil, times_nil] at hle
  exact hle

lemma sane_turn (hc : TableOk env.table) (hu : Undoable env i.info.id i.info.volumeList)
    (hs : Sane env i (sh.fs i.info.id).mounts)
    {i' : Instance} (ht : Turn env proc sh (.inst i) l sh' (.inst i')) :
    Sane env i' (sh'.fs i'.info.id).mounts := by
  have hset : ∀ (sh : Shared) fs, (sh.setFs i.info.id fs).fs i.info.id = fs :=
    fun sh fs => Function.update_self _ _ _
  cases ht with
  | @mounts i task tasks ok fs hi hr =>
    have htasks := hs.phase.tasks
    rw [hi] at htasks
    rw [hset]
    refine hs.init (by rw [hi]; rfl) _ (fun q => ?_) fun t ht =>
      htasks t (List.mem_cons_of_mem _ ht)
    rw [hi]
    exact task_le tasks (htasks task List.mem_cons_self) hr q
  | execs hi =>
    refine hs.init (by rw [hi]; rfl) _ (fun q => ?_) (by simp [remaining])
    rw [hi]
    exact le_refl _
  | @fails i task tasks ok fs hi hr =>
    have htasks := hs.phase.tasks
    rw [hi] at htasks
    refine hs.init (by rw [hi]; rfl) _ (fun q => ?_) (by simp [remaining])
    change times ((sh.setFs i.info.id fs).fs i.info.id).mounts _ + _ ≤ _
    rw [hset, hi]
    have hle := task_le tasks (htasks task List.mem_cons_self) hr q
    exact le_trans (Nat.add_le_add_left (by simp [remaining]) _) hle
  | exits ha =>
    refine hs.init ha _ (fun q => ?_) (by simp [remaining])
    exact Nat.add_le_add_left (by simp [remaining]) _
  | monitorDies =>
    exact hs.late (Or.inr (Or.inr rfl)) hs.phase.umounted fun hm => by cases hm
  | reapsOrphan hi =>
    refine ⟨⟨hs.phase.early, fun _ => rfl, fun _ => rfl, by simp [remaining]⟩, fun hm x => ?_,
      hs.untabled⟩
    have hle := hs.mounted hm x
    rwa [hi] at hle
  | callsBack hm _ hfs =>
    rw [hfs]
    exact ⟨⟨fun _ => hs.phase.early (by simp [hm]), fun he => by simp at he, hs.phase.umounted,
      hs.phase.tasks⟩, fun _ => hs.mounted (by simp [hm]), fun he => by simp at he⟩
  | reaps hm hi =>
    refine ⟨⟨fun _ => hs.phase.early (by simp [hm]), fun _ => rfl, fun _ => rfl,
      by simp [remaining]⟩, fun _ x => ?_, fun he => by simp at he⟩
    have hle := hs.mounted (by simp [hm]) x
    rwa [hi] at hle
  | umountsTable hm hr =>
    rw [hset]
    exact hs.umountTable hc hu hm hr
  | umountsNoTable hm hr =>
    -- the table is as it should be
    obtain ⟨e, he⟩ : ∃ e, firstExisting env = some e :=
      Option.isSome_iff_exists.mp (List.find?_isSome.mpr hu.someExists)
    obtain ⟨s', hrun, -⟩ := umountTable_run env (sh.fs i.info.id) hc hu.fits he
    rw [hr] at hrun
    cases hrun
  | umountsVolumes hm =>
    have hdead := hs.phase.reaped (by simp [hm])
    exact hs.late (Or.inl rfl) (fun _ => hdead) fun _ => hdead
  | umountsUndefined hm =>
    exact hs.late (Or.inl rfl) hs.phase.umounted fun _ => hs.phase.reaped (by simp [hm])
  | umountsNoVolumes =>
    exact hs.late (Or.inr (Or.inr rfl)) hs.phase.umounted fun hm => by cases hm
  | marks =>
    exact hs.late (Or.inr (Or.inl rfl)) hs.phase.umounted fun hm => by cases hm
  | marksNone =>
    exact hs.late (Or.inr (Or.inr rfl)) hs.phase.umounted fun hm => by cases hm

/-- The monitor leaves nothing mounted when it has come through the unmounting. -/
lemma clear_turn (hc : TableOk env.table) (hun : Undoable env i.info.id i.info.volumeList)
    (hs : Sane env i (sh.fs i.info.id).mounts) {i' : Instance} (hu : i.umounted = false)
    (hu' : i'.umounted = true) (ht : Turn env proc sh (.inst i) l sh' (.inst i')) :
    Clear (resolve (getMergedDir i.info.id)) (sh'.fs i.info.id).mounts := by
  cases ht with
  | @umountsVolumes i time l info sh' fs hm hl hr =>
    obtain ⟨e, he⟩ : ∃ e, firstExisting env = some e :=
      Option.isSome_iff_exists.mp (List.find?_isSome.mpr hun.someExists)
    obtain rfl : sh.fs i.info.id = fs := (umountVolumeList_eq_some.mp hr).2
    refine clear_iff_inside.mpr fun x => ?_
    rw [show (sh'.setFs i.info.id (sh.fs i.info.id)).fs i.info.id = sh.fs i.info.id from
      Function.update_self _ _ _]
    exact Nat.le_zero.mp ((hs.untabled hm e he x).trans_eq (nothing_left hc hun he x))
  | _ => rw [hu] at hu'; cases hu'

/-! ### The whole machine -/

/-- What the other processes and threads do: a start clones, or nothing happens to the mounts
and a removal may come to the layer directory. -/
lemma other_turn (ha : ∀ i, a ≠ .inst i) (ht : Turn env proc sh a l sh' a') :
    (∃ explicit info pid, a = .starting explicit info ∧ l = .launch pid ∧
      (sh', a') = launch env explicit info pid sh) ∨
    (sh'.fs = sh.fs ∧ (∀ i, a' ≠ .inst i) ∧
      ∀ c, removesLayer c a' = true → ∃ info time ok, a = .removing info .containers ∧
        l = .next time ok ∧ info.id = c) := by
  have hstop : ∀ caller, (∀ i, afterStop caller ≠ .inst i) ∧
      ∀ c, removesLayer c (afterStop caller) = false := by
    rintro (_ | info) <;> exact ⟨fun i h => (by cases h), fun c => rfl⟩
  cases ht with
  | launches => exact Or.inl ⟨_, _, _, rfl, rfl, rfl⟩
  | removesContainers =>
    refine Or.inr ⟨rfl, fun i h => (by cases h), fun c hc => ⟨_, _, _, rfl, rfl, ?_⟩⟩
    simpa [removesLayer] using hc
  | quits _ hq => exact Or.inr ⟨hq.fs, fun i h => (by cases h), fun c hc => by cases hc⟩
  | starts hl => exact Or.inr ⟨hl.fs, fun i h => (by cases h), fun c hc => by cases hc⟩
  | stopMisses hq =>
    exact Or.inr ⟨hq.fs, (hstop _).1, fun c hc => by rw [(hstop _).2] at hc; cases hc⟩
  | stopFinds hl => exact Or.inr ⟨hl.fs, fun i h => (by cases h), fun c hc => by cases hc⟩
  | stopEnds => exact Or.inr ⟨rfl, (hstop _).1, fun c hc => by rw [(hstop _).2] at hc; cases hc⟩
  | removeStops hq => exact Or.inr ⟨hq.fs, fun i h => (by cases h), fun c hc => by cases hc⟩
  | removes hq => exact Or.inr ⟨hq.fs, fun i h => (by cases h), fun c hc => by cases hc⟩
  | deletes _ hfs => exact Or.inr ⟨hfs, fun i h => (by cases h), fun c hc => by cases hc⟩
  | restarts hs => exact Or.inr ⟨hs.fs, fun i h => (by cases h), fun c hc => by cases hc⟩
  | terminates | removesLayer | reads | tests =>
    exact Or.inr ⟨rfl, fun i h => (by cases h), fun c hc => by cases hc⟩
  | _ => exact absurd rfl (ha _)

lemma Kept.other (h : Kept env w) (hn : w.actors[n]? = some a) (ha : ∀ i, a ≠ .inst i)
    (ha' : ∀ i, a' ≠ .inst i) (hfs : sh'.fs = w.fs)
    (haway : ∀ c, removesLayer c a' = true → ∀ b ∈ w.actors, pending c b = false) :
    Kept env { w with toShared := sh', actors := w.actors.set n a' } := by
  have hnone : ∀ {b : Actor}, (∀ i, b ≠ .inst i) → ∀ c, pending c b = false := by
    intro b hb c
    cases b with
    | inst i => exact absurd rfl (hb i)
    | _ => rfl
  refine ⟨fun c => ?_, fun i hi => ?_, fun c hc => ?_, fun c hex => ?_⟩
  · exact (h.one c).set hn fun hp => by rw [hnone ha'] at hp; cases hp
  · rcases List.mem_or_eq_of_mem_set hi with hi | rfl
    · have := h.sane i hi
      rwa [← hfs] at this
    · exact absurd rfl (ha' i)
  · have hold : ∀ b ∈ w.actors, pending c b = false := fun b hb => by
      rcases Pool.mem_set_of_mem hn hb with rfl | hb'
      · exact hnone ha c
      · exact hc b hb'
    have := h.clear c hold
    unfold ClearFor at this ⊢
    rwa [← hfs] at this
  · obtain ⟨b, hb, hbl⟩ := hex
    refine Pool.forall_set ?_ (hnone ha' c)
    rcases List.mem_or_eq_of_mem_set hb with hb | rfl
    · exact h.away c ⟨b, hb, hbl⟩
    · exact haway c hbl

lemma Kept.launch (h : Kept env w) (hv : info.volumeList.elems = []) {explicit : Bool} {pid : Int32}
    (hn : w.actors[n]? = some (.starting explicit info))
    (hclean : ∀ b ∈ w.actors, pending info.id b = false ∧ removesLayer info.id b = false) :
    Kept env
      { w with
        toShared := (Lifecycle.launch env explicit info pid w.toShared).1
        actors := w.actors.set n (Lifecycle.launch env explicit info pid w.toShared).2 } := by
  have hclear := clear_iff_inside.mp (h.clear info.id fun b hb => (hclean b hb).1)
  refine ⟨fun c => ?_, fun i hi => ?_, fun c hcl => ?_, fun c hex => ?_⟩
  · by_cases hid : info.id = c
    · subst hid
      exact .set_of_none fun b hb => (hclean b hb).1
    · exact (h.one c).set hn fun hp => absurd (pending_inst.mp hp).1 hid
  · rcases List.mem_or_eq_of_mem_set hi with hi | hi
    · exact h.sane i hi
    · cases hi
      refine ⟨⟨fun _ => rfl, fun hm => (by simp at hm), fun hu => (by cases hu),
        taskOk_mountTasks hv⟩, fun _ x => ?_, fun hm => (by cases hm)⟩
      have h0 : times (w.fs info.id).mounts (inside info.id x) = 0 := hclear x
      change times (w.fs info.id).mounts (inside info.id x) +
        times ((mountTasks env info).flatMap (taskPaths env info.id)) (inside info.id x) ≤ _
      rw [h0, flatMap_mountTasks hv, Nat.zero_add]
  · refine h.clear c fun b hb => ?_
    rcases Pool.mem_set_of_mem hn hb with rfl | hb'
    · rfl
    · exact hcl b hb'
  · obtain ⟨b, hb, hbl⟩ := hex
    rcases List.mem_or_eq_of_mem_set hb with hb | rfl
    · refine Pool.forall_set (h.away c ⟨b, hb, hbl⟩) ?_
      refine Bool.eq_false_iff.mpr fun hp => ?_
      obtain rfl : info.id = c := (pending_inst.mp hp).1
      rw [(hclean b hb).2] at hbl
      cases hbl
    · cases hbl

lemma Kept.inst (h : Kept env w) (hc : Clearable env bs) (hb : Born bs i.info)
    (hn : w.actors[n]? = some (.inst i))
    (ht : Turn env proc w.toShared (.inst i) l sh' a') :
    Kept env { w with toShared := sh', actors := w.actors.set n a' } := by
  obtain ⟨i', rfl, hinfo, hmono, hframe⟩ := inst_turn ht
  have hs := h.sane i (List.mem_of_getElem? hn)
  have hpend : ∀ c, pending c (.inst i') → pending c (.inst i) := by
    intro c hp
    obtain ⟨hid, hu'⟩ := pending_inst.mp hp
    refine pending_inst.mpr ⟨by rw [← hinfo, hid], Bool.eq_false_iff.mpr fun hu => ?_⟩
    rw [hmono hu] at hu'
    cases hu'
  have hfs : ∀ c, pending c (.inst i) = false → sh'.fs c = w.fs c := by
    intro c hp
    by_cases hid : c = i.info.id
    · subst hid
      rcases hu : i.umounted with _ | _
      · simp [pending, hu] at hp
      · exact congrFun (fs_of_umounted hs.phase hu ht) _
    · exact hframe c hid
  refine ⟨fun c => (h.one c).set hn (hpend c), fun j hj => ?_, fun c hclear => ?_,
    fun c hex => ?_⟩
  · rcases hp : pending j.info.id (.inst i) with _ | _
    · rcases List.mem_or_eq_of_mem_set hj with hj | heq
      · have := h.sane j hj
        rwa [← hfs _ hp] at this
      · cases heq
        exact sane_turn hc.table (hc.undoable _ hb) hs ht
    · rcases hu : j.umounted with _ | _
      · -- the one that is pending is the one that moves
        cases (h.one j.info.id).eq_of_mem_set hn hp hj (pending_inst.mpr ⟨rfl, hu⟩)
        exact sane_turn hc.table (hc.undoable _ hb) hs ht
      · rcases List.mem_or_eq_of_mem_set hj with hj | heq
        · exact (h.sane j hj).of_umounted hu
        · cases heq
          exact sane_turn hc.table (hc.undoable _ hb) hs ht
  · have hp' : pending c (.inst i') = false := hclear _ (Pool.mem_set_self hn)
    rcases hp : pending c (.inst i) with _ | _
    · have hold : ∀ b ∈ w.actors, pending c b = false := fun b hb => by
        rcases Pool.mem_set_of_mem hn hb with rfl | hb'
        · exact hp
        · exact hclear b hb'
      have := h.clear c hold
      unfold ClearFor at this ⊢
      rwa [← hfs c hp] at this
    · obtain ⟨rfl, hu⟩ := pending_inst.mp hp
      have hu' : i'.umounted = true := by simpa [pending, hinfo] using hp'
      exact clear_turn hc.table (hc.undoable _ hb) hs hu hu' ht
  · obtain ⟨b, hb, hbl⟩ := hex
    have hold : ∀ b ∈ w.actors, pending c b = false := by
      rcases List.mem_or_eq_of_mem_set hb with hb | rfl
      · exact h.away c ⟨b, hb, hbl⟩
      · cases hbl
    refine Pool.forall_set hold (Bool.eq_false_iff.mpr fun hp => ?_)
    have := hold _ (List.mem_of_getElem? hn)
    rw [hpend c hp] at this
    cases this

lemma Kept.signalled (h : Kept env w) (k : Option Int32) :
    Kept env { w with actors := w.signalled k } := by
  cases k with
  | none => exact h
  | some pid =>
    have hall : ∀ {c}, (∀ b ∈ w.actors.map (Actor.signal pid), pending c b = false) ↔
        ∀ b ∈ w.actors, pending c b = false := by
      intro c
      simp
    refine ⟨fun c => (h.one c).map fun b => pending_signal pid b, fun i hi => ?_,
      fun c hc => h.clear c (hall.mp hc), fun c hex => hall.mpr (h.away c ?_)⟩
    · obtain ⟨j, hj, rfl | ⟨rfl, -⟩⟩ := inst_mem_signalled (k := some pid) hi
      · exact h.sane _ hj
      · have := h.sane j hj
        exact ⟨⟨this.phase.early, this.phase.reaped, this.phase.umounted, this.phase.tasks⟩,
          this.mounted, this.untabled⟩
    · obtain ⟨b, hb, hbl⟩ := hex
      obtain ⟨b', hb', rfl⟩ := List.mem_map.mp hb
      exact ⟨b', hb', by rwa [removesLayer_signal] at hbl⟩

lemma Clean.signalled (h : Clean w a l) (k : Option Int32) :
    Clean { w with actors := w.signalled k } a l := by
  unfold Clean at h ⊢
  split at h
  · exact forall_signalled (P := fun b => pending _ b = false)
      (fun pid b hb => by rwa [pending_signal]) h k
  · exact forall_signalled (P := fun b => pending _ b = false ∧ removesLayer _ b = false)
      (fun pid b hb => by rwa [pending_signal, removesLayer_signal]) h k
  · trivial

lemma Kept.boot (file : DataFile) : Kept env (World.boot file) :=
  ⟨fun _ => Nat.zero_le 1, fun i hi => by simp [World.boot] at hi,
    fun c _ q hq => by simp [World.boot] at hq, fun c hex => by simp [World.boot] at hex⟩

lemma Kept.append (h : Kept env w) (hfs : w'.fs = w.fs) {actors : List Actor}
    (hw' : w'.actors = w.actors ++ actors)
    (hnew : ∀ b ∈ actors, (∀ i, b ≠ .inst i) ∧ ∀ c, removesLayer c b = false) : Kept env w' := by
  have hnone : ∀ b ∈ actors, ∀ c, pending c b = false := by
    intro b hb c
    cases b with
    | inst i => exact absurd rfl ((hnew _ hb).1 i)
    | _ => rfl
  refine ⟨fun c => ?_, fun i hi => ?_, fun c hc => ?_, fun c hex => ?_⟩
  · rw [hw']
    exact (h.one c).append fun b hb => hnone b hb c
  · rw [hw'] at hi
    rcases List.mem_append.mp hi with hi | hi
    · rw [hfs]
      exact h.sane i hi
    · exact absurd rfl ((hnew _ hi).1 i)
  · have := h.clear c fun b hb => hc b (by rw [hw']; exact List.mem_append_left _ hb)
    unfold ClearFor at this ⊢
    rwa [hfs]
  · rw [hw'] at hex ⊢
    obtain ⟨b, hb, hbl⟩ := hex
    refine Pool.forall_append ?_ fun b hb => hnone b hb c
    rcases List.mem_append.mp hb with hb | hb
    · exact h.away c ⟨b, hb, hbl⟩
    · rw [(hnew b hb).2 c] at hbl
      cases hbl

lemma Kept.step (hw : Sound bs w) (hc : Clearable env bs) (h : Kept env w)
    {act : Action} (hord : Orderly w act) (hm : Move env w act w') : Kept env w' := by
  cases hm with
  | command c =>
    refine h.append rfl rfl fun b hb => ?_
    rw [List.mem_singleton.mp hb]
    cases c <;> exact ⟨fun i h => (by cases h), fun c => rfl⟩
  | @turn n l a a' sh' hn ht =>
    have hclean := (hord a hn).signalled (a.kills l)
    have h' := h.signalled (a.kills l)
    have hn' := getElem?_signalled hn l
    by_cases hi : ∃ i, a = .inst i
    · obtain ⟨i, rfl⟩ := hi
      exact h.inst hc (hw.ok _ (List.mem_of_getElem? hn)).1 hn ht
    have ha : ∀ i, a ≠ .inst i := fun i heq => hi ⟨i, heq⟩
    rcases other_turn ha ht with ⟨explicit, info, pid, rfl, rfl, heq⟩ | ⟨hfs, ha', hlayer⟩
    · cases heq
      have hv := (hc.undoable _ (hw.ok _ (List.mem_of_getElem? hn))).noVolumes
      exact h'.launch hv hn' hclean
    · refine h'.other hn' ha ha' hfs fun c hcl => ?_
      obtain ⟨info, time, ok, rfl, rfl, rfl⟩ := hlayer c hcl
      exact hclean
  | scan listed => exact ⟨h.one, h.sane, h.clear, h.away⟩
  | scanNext listed hs =>
    refine h.append rfl rfl fun b hb => ?_
    obtain ⟨id, rfl⟩ := hs b hb
    exact ⟨fun i h => (by cases h), fun c => rfl⟩
  | newProcess => exact ⟨h.one, h.sane, h.clear, h.away⟩
  | endProcess => exact ⟨h.one, h.sane, h.clear, h.away⟩
  | reboot =>
    exact ⟨fun _ => Nat.zero_le 1, fun i hi => (by simp at hi), fun c _ q hq => (by simp at hq),
      fun c hex => (by simp at hex)⟩

/-- **Nothing in use is removed**: as long as removals wait for the monitors, and starts for
both, a removal comes to a layer directory only when no process of the container is alive and
nothing is mounted below its merged directory. -/
theorem removes_clear (hc : Clearable env bs) (h : (machine env bs).Reach Orderly w)
    (hr : .removing info .layer ∈ w.actors) :
    (∀ i, .inst i ∈ w.actors → i.info.id = info.id → i.init.alive = false) ∧
      ClearFor w info.id := by
  obtain ⟨-, hk⟩ := reach_invariant (I := Kept env) (fun file _ => .boot file)
    (fun _ _ _ _ hw hi hord hm => hi.step hw hc hord hm) h
  have hnone := hk.away info.id ⟨_, hr, by simp [removesLayer]⟩
  refine ⟨fun i hi hid => ?_, hk.clear _ hnone⟩
  refine (hk.sane i hi).phase.umounted ?_
  simpa [pending, hid] using hnone _ hi

lemma clearable_one : Clearable fullHost oneBirth where
  table := tableOk_mntDirArr
  undoable b hb := by rw [List.mem_singleton.mp hb]; exact undoable_fullHost rfl

/-- A container is started, and removed when the monitor is done. -/
def removedLate : List Action :=
  [.command (.start "web".toList), .turn 0 (.next 1700000100 true), .turn 0 (.launch 4711),
    .turn 0 (.next 1700000101 true)] ++ List.replicate 17 (.turn 0 (.init true)) ++
  [.command (.rm true "web".toList), .turn 1 (.next 1700000110 true),
    .turn 1 (.next 1700000110 true), .turn 1 (.next 1700000110 true), .turn 0 .exit,
    .turn 0 (.next 1700000111 true), .turn 0 (.next 1700000111 true),
    .turn 0 (.next 1700000112 true), .turn 1 (.next 1700000115 true),
    .turn 1 (.next 1700000116 true)]

theorem removes_clear_removedLate :
    ∃ w info, (machine fullHost oneBirth).runs (World.boot oneContainer) removedLate = some w ∧
      .removing info .layer ∈ w.actors ∧
      (∀ i, .inst i ∈ w.actors → i.info.id = info.id → i.init.alive = false) ∧
        ClearFor w info.id := by
  obtain ⟨w, hw, hr⟩ : ∃ w, (machine fullHost oneBirth).runs (World.boot oneContainer)
      removedLate = some w ∧ w.actors.any (removesLayer "c1".toList) = true :=
    Option.map_eq_some_iff.mp (by decide +kernel :
      ((machine fullHost oneBirth).runs (World.boot oneContainer) removedLate).map
        (fun w => w.actors.any (removesLayer "c1".toList)) = some true)
  have hreach : (machine fullHost oneBirth).Reach Orderly w :=
    boot_one.runs (Machine.meets_of_check (by decide +kernel)) hw
  obtain ⟨a, ha, hl⟩ := List.any_eq_true.mp hr
  obtain ⟨info, rfl, -⟩ := eq_of_removesLayer hl
  exact ⟨w, info, hw, ha, removes_clear clearable_one hreach ha⟩

/-- A container is started and removed before the monitor has unmounted anything. -/
def removedEarly : List Action :=
  [.command (.start "web".toList), .turn 0 (.next 1700000100 true), .turn 0 (.launch 4711),
    .turn 0 (.init true), .turn 0 (.next 1700000101 true), .command (.rm true "web".toList),
    .turn 1 (.next 1700000110 true), .turn 1 (.next 1700000110 true),
    .turn 1 (.next 1700000110 true), .turn 1 (.next 1700000115 true), .turn 0 .exit,
    .turn 1 (.next 1700000116 true)]

theorem removes_mounted : ¬ ∀ w, (machine fullHost oneBirth).Reach (fun _ _ => True) w →
    ∀ info, .removing info .layer ∈ w.actors →
      (∀ i, .inst i ∈ w.actors → i.info.id = info.id → i.init.alive = false) ∧
        ClearFor w info.id := by
  intro h
  obtain ⟨w, hw, hany, hmounted⟩ : ∃ w,
      (machine fullHost oneBirth).runs (World.boot oneContainer) removedEarly = some w ∧
        w.actors.any (removesLayer "c1".toList) = true ∧ ¬ ClearFor w "c1".toList := by
    obtain ⟨w, hw, hboth⟩ := Option.map_eq_some_iff.mp (by decide +kernel :
      ((machine fullHost oneBirth).runs (World.boot oneContainer) removedEarly).map
        (fun w => (w.actors.any (removesLayer "c1".toList), decide (ClearFor w "c1".toList))) =
          some (true, false))
    obtain ⟨hany, hclear⟩ := Prod.mk.inj hboth
    exact ⟨w, hw, hany, of_decide_eq_false hclear⟩
  obtain ⟨a, ha, hl⟩ := List.any_eq_true.mp hany
  obtain ⟨info, rfl, hid⟩ := eq_of_removesLayer hl
  obtain ⟨-, hclear⟩ := h w (boot_one.runs (Machine.meets_true _ _) hw) info ha
  rw [hid] at hclear
  exact hmounted hclear

end Hoststack.Removal
