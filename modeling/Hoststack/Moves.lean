import Hoststack.Lifecycle
import Hoststack.RecordMap
import Hoststack.Lib.Pool

/-!
What one step can do.

The steps of the machine are listed as moves on the map of the records: which process moves,
from what to what, and what becomes of the records, the mounts and the containers at rest.
Everything that holds over runs is derived from this list.
-/

namespace Hoststack.Moves

open Cell Cell.Prog ContainerDao ContainerFs StoreInv RecordMap Lifecycle

/-- Nothing changes, except that containers without a process may be marked stopped. -/
structure Quiet (proc : Int32 → Bool) (sh sh' : Shared) : Prop where
  records : ∀ c, recordOf sh'.file c = recordOf sh.file c ∨
    ∃ info, recordOf sh.file c = some info ∧ recordOf sh'.file c = some (repair proc info)
  fs : sh'.fs = sh.fs
  halted : sh'.halted = sh.halted

/-- A lookup. -/
structure Looks (proc : Int32 → Bool) (sh : Shared) (time : Int64) (value : Str)
    (res : Option ContainerInfo) (sh' : Shared) : Prop where
  run : sh.lookup ⟨proc, time⟩ value = (sh', res)
  spec : Lookup proc value (recordOf sh.file) res (recordOf sh'.file)
  fs : sh'.fs = sh.fs
  halted : sh'.halted = sh.halted

/-- A call of `change_status_to_stop`, and whether it gets to its end. -/
structure Stops (proc : Int32 → Bool) (sh : Shared) (time : Int64) (value : Str) (ok : Bool)
    (sh' : Shared) : Prop where
  spec : Stop proc value (recordOf sh.file) (sh.lookup ⟨proc, time⟩ value).2 ok
    (recordOf sh'.file)
  fs : sh'.fs = sh.fs
  halted : sh'.halted = sh.halted

/-- One step of a process or thread. -/
inductive Turn (env : Env) (proc : Int32 → Bool) (sh : Shared) :
    Actor → Label → Shared → Actor → Prop where
  | quits {a : Actor} {l : Label} {sh' : Shared} (ha : ∀ i, a ≠ .inst i)
      (hq : Quiet proc sh sh') : Turn env proc sh a l sh' .done
  | starts {explicit : Bool} {name : Str} {time : Int64} {ok : Bool} {info : ContainerInfo}
      {sh' : Shared} (hl : Looks proc sh time name (some info) sh')
      (hs : info.status ≠ .running) :
      Turn env proc sh (.startContainer explicit name) (.next time ok) sh'
        (.starting explicit info)
  | launches {explicit : Bool} {info : ContainerInfo} {pid : Int32} (hpos : 0 < pid)
      (hfree : proc pid = false) :
      Turn env proc sh (.starting explicit info) (.launch pid) (launch env explicit info pid sh).1
        (launch env explicit info pid sh).2
  | stopMisses {caller : Option ContainerInfo} {name : Str} {l : Label} {sh' : Shared}
      (hq : Quiet proc sh sh') : Turn env proc sh (.stop caller name) l sh' (afterStop caller)
  | stopFinds {caller : Option ContainerInfo} {name : Str} {time : Int64} {ok : Bool}
      {info : ContainerInfo} {sh' : Shared} (hl : Looks proc sh time name (some info) sh')
      (hs : info.status = .running) :
      Turn env proc sh (.stop caller name) (.next time ok) sh' (.stopping caller info false)
  | terminates {caller : Option ContainerInfo} {info : ContainerInfo} {time : Int64} {ok : Bool}
      (hp : proc info.pid = true) :
      Turn env proc sh (.stopping caller info false) (.next time ok) sh
        (.stopping caller info true)
  | stopEnds {caller : Option ContainerInfo} {info : ContainerInfo} {waited : Bool} {l : Label} :
      Turn env proc sh (.stopping caller info waited) l sh (afterStop caller)
  | removeStops {force : Bool} {name : Str} {l : Label} {info : ContainerInfo} {sh' : Shared}
      (hq : Quiet proc sh sh') :
      Turn env proc sh (.removeContainer force name) l sh' (.stop (some info) name)
  | removes {force : Bool} {name : Str} {l : Label} {info : ContainerInfo} {sh' : Shared}
      (hq : Quiet proc sh sh') :
      Turn env proc sh (.removeContainer force name) l sh' (.removing info .containers)
  | removesContainers {info : ContainerInfo} {time : Int64} :
      Turn env proc sh (.removing info .containers) (.next time true) sh (.removing info .layer)
  | removesLayer {info : ContainerInfo} {time : Int64} :
      Turn env proc sh (.removing info .layer) (.next time true) sh (.removing info .record)
  | deletes {info : ContainerInfo} {l : Label} {sh' : Shared}
      (hm : ∀ c, recordOf sh'.file c = recordOf sh.file c ∨ recordOf sh'.file c = none)
      (hfs : sh'.fs = sh.fs) (hh : sh'.halted = sh.halted) :
      Turn env proc sh (.removing info .record) l sh' .done
  | reads {id : Str} {l : Label} {info : ContainerInfo} (hm : recordOf sh.file id = some info)
      (hs : info.status = .running) : Turn env proc sh (.asleep id) l sh (.rechecking info)
  | tests {info : ContainerInfo} {time : Int64} {ok : Bool} (hp : proc info.pid = false) :
      Turn env proc sh (.rechecking info) (.next time ok) sh (.restarting info)
  | restarts {info : ContainerInfo} {time : Int64} {ok : Bool} {sh' : Shared}
      (hs : Stops proc sh time info.id true sh') :
      Turn env proc sh (.restarting info) (.next time ok) sh' (.startContainer false info.id)
  | mounts {i : Instance} {task : MountTask} {tasks : List MountTask} {ok : Bool} {fs : FsState}
      (hi : i.init = .mounting (task :: tasks))
      (hr : task.run { env with mountOk := fun _ => ok } i.info.id (sh.fs i.info.id) =
        some (fs, true)) :
      Turn env proc sh (.inst i) (.init ok) (sh.setFs i.info.id fs)
        (.inst { i with init := .mounting tasks })
  | execs {i : Instance} {l : Label} (hi : i.init = .mounting []) :
      Turn env proc sh (.inst i) l sh (.inst { i with init := .running })
  | fails {i : Instance} {task : MountTask} {tasks : List MountTask} {ok : Bool} {fs : FsState}
      (hi : i.init = .mounting (task :: tasks))
      (hr : task.run { env with mountOk := fun _ => ok } i.info.id (sh.fs i.info.id) =
        some (fs, false)) :
      Turn env proc sh (.inst i) (.init ok) (die (sh.setFs i.info.id fs) i).1
        (die (sh.setFs i.info.id fs) i).2
  | exits {i : Instance} {l : Label} (ha : i.init.alive = true) :
      Turn env proc sh (.inst i) l (die sh i).1 (die sh i).2
  | monitorDies {i : Instance} (ha : i.monitor.alive = true) :
      Turn env proc sh (.inst i) .killed sh (.inst { i with monitor := .dead })
  | reapsOrphan {i : Instance} {l : Label} (hi : i.init = .zombie)
      (hm : i.monitor.alive = false) :
      Turn env proc sh (.inst i) l sh (.inst { i with init := .gone })
  | callsBack {i : Instance} {time : Int64} {l : Label} {sh' : Shared}
      (hm : i.monitor = .starting)
      (hr : recordOf sh'.file = Function.update (recordOf sh.file) i.info.id
        ((recordOf sh.file i.info.id).map fun _ => (i.info.restartedAs i.pid time).record.info))
      (hfs : sh'.fs = sh.fs) (hh : sh'.halted = sh.halted) :
      Turn env proc sh (.inst i) l sh' (.inst { i with monitor := .relaying, recorded := true })
  | reaps {i : Instance} {l : Label} (hm : i.monitor = .relaying) (hi : i.init = .zombie) :
      Turn env proc sh (.inst i) l sh (.inst { i with init := .gone, monitor := .reaped })
  | umountsTable {i : Instance} {l : Label} {fs : FsState} (hm : i.monitor = .reaped)
      (hr : umountTable env i.info.id (sh.fs i.info.id) = some fs) :
      Turn env proc sh (.inst i) l (sh.setFs i.info.id fs) (.inst { i with monitor := .untabled })
  | umountsNoTable {i : Instance} {l : Label} (hm : i.monitor = .reaped)
      (hr : umountTable env i.info.id (sh.fs i.info.id) = none) :
      Turn env proc sh (.inst i) l sh (.inst { i with monitor := .untabled })
  | umountsVolumes {i : Instance} {time : Int64} {l : Label} {info : ContainerInfo}
      {sh' : Shared} {fs : FsState} (hm : i.monitor = .untabled)
      (hl : Looks proc sh time i.info.id (some info) sh')
      (hr : umountVolumeList (some info) (sh.fs i.info.id) = some fs) :
      Turn env proc sh (.inst i) l (sh'.setFs i.info.id fs)
        (.inst { i with monitor := .unmounted, umounted := true })
  | umountsUndefined {i : Instance} {time : Int64} {l : Label} {info : ContainerInfo}
      {sh' : Shared} (hm : i.monitor = .untabled)
      (hl : Looks proc sh time i.info.id (some info) sh') :
      Turn env proc sh (.inst i) l sh' (.inst { i with monitor := .unmounted })
  | umountsNoVolumes {i : Instance} {time : Int64} {l : Label} {sh' : Shared}
      (hm : i.monitor = .untabled) (hl : Looks proc sh time i.info.id none sh') :
      Turn env proc sh (.inst i) l sh' (.inst { i with monitor := .dead })
  | marks {i : Instance} {time : Int64} {ok : Bool} {sh' : Shared} (hm : i.monitor = .unmounted)
      (hs : Stops proc sh time i.info.id true sh') :
      Turn env proc sh (.inst i) (.next time ok) sh' (.inst { i with monitor := .finished })
  | marksNone {i : Instance} {time : Int64} {ok : Bool} {sh' : Shared}
      (hm : i.monitor = .unmounted) (hs : Stops proc sh time i.info.id false sh') :
      Turn env proc sh (.inst i) (.next time ok) sh' (.inst { i with monitor := .dead })

/-- What a process or thread holds is about one of the containers, and pids are positive. -/
def Ok (bs : List Birth) : Actor → Prop
  | .startContainer explicit name => explicit = false → ∃ b ∈ bs, b.id = name
  | .starting _ info => Born bs info
  | .inst i => Born bs i.info ∧ 0 < i.pid
  | .stop caller _ => ∀ info ∈ caller, Born bs info
  | .stopping caller info _ => (∀ info ∈ caller, Born bs info) ∧ Born bs info ∧ 0 < info.pid
  | .removing info _ => Born bs info
  | .rechecking info => Born bs info ∧ info.status = .running
  | .restarting info => Born bs info
  | _ => True

/-! ### The calls of ContainerDao -/

variable {bs : List Birth} {env : Env} {proc : Int32 → Bool} {sh sh' : Shared} {a a' : Actor}
  {l : Label} {i : Instance} {info : ContainerInfo} {res : Option ContainerInfo} {value : Str}
  {time : Int64} {ok : Bool}

lemma Quiet.refl (sh : Shared) : Quiet proc sh sh := ⟨fun _ => Or.inl rfl, rfl, rfl⟩

variable (proc) in
lemma lookup_cases (hst : Stores bs sh.file) (time : Int64) (value : Str) :
    ∃ sh' res, sh.lookup ⟨proc, time⟩ value = (sh', res) ∧ Stores bs sh'.file ∧
      Looks proc sh time value res sh' := by
  obtain ⟨file', res, hrun, hst', hlook⟩ := lookup_spec hst ⟨proc, time⟩ value
  have hl : sh.lookup ⟨proc, time⟩ value = ({ sh with file := file' }, res) := by
    simp [Shared.lookup, hrun]
  exact ⟨_, res, hl, hst', hl, hlook, rfl, rfl⟩

lemma Looks.quiet (h : Looks proc sh time value res sh') : Quiet proc sh sh' := by
  refine ⟨fun c => ?_, h.fs, h.halted⟩
  have hspec := h.spec
  generalize recordOf sh'.file = m' at hspec ⊢
  cases hspec with
  | missed => exact Or.inl rfl
  | @hit info hm hc =>
    by_cases hid : c = info.id
    · subst hid
      exact Or.inr ⟨info, hm, by rw [Function.update_self]⟩
    · exact Or.inl (Function.update_of_ne hid _ _)

lemma Looks.found (h : Looks proc sh time value (some info) sh') :
    recordOf sh'.file info.id = some info ∧
      ∃ info₀, recordOf sh.file info.id = some info₀ ∧ info = repair proc info₀ ∧
        Called value info₀ := by
  have hspec := h.spec
  generalize recordOf sh'.file = m' at hspec ⊢
  cases hspec with
  | @hit info₀ hm hc =>
    rw [repair_id, Function.update_self]
    exact ⟨rfl, info₀, hm, rfl, hc⟩

lemma Looks.born (h : Looks proc sh time value (some info) sh') (hst : Stores bs sh.file) :
    Born bs info := by
  obtain ⟨-, info₀, hm, rfl, -⟩ := h.found
  exact born_repair (recordOf_born hst hm)

lemma eq_id_of_called (hno : NoAlias bs) (hb : ∃ b ∈ bs, b.id = value) (hi : Born bs info)
    (hc : Called value info) : info.id = value := by
  obtain ⟨b, hb, rfl⟩ := hb
  by_contra hne
  have hname : info.name = b.id := hc.resolve_right hne
  have : Std.Symm fun a b : Birth => a.name ≠ b.id ∧ b.name ≠ a.id := ⟨fun _ _ h => h.symm⟩
  exact (List.Pairwise.forall hno hi hb fun heq => hne (congrArg Birth.id heq)).1 hname

lemma lookup_id (hno : NoAlias bs) (hst : Stores bs sh.file) (hb : ∃ b ∈ bs, b.id = value)
    (h : (sh.lookup ⟨proc, time⟩ value).2 = some info) : info.id = value := by
  obtain ⟨sh', res, hrun, -, hl⟩ := lookup_cases proc hst time value
  rw [hrun] at h
  cases h
  obtain ⟨-, info₀, hm, rfl, hc⟩ := hl.found
  rw [repair_id]
  exact eq_id_of_called hno hb (recordOf_born hst hm) hc

lemma Looks.none_id (h : Looks proc sh time value none sh') (hst : Stores bs sh.file) :
    recordOf sh'.file value = none := by
  have hspec := h.spec
  generalize hm' : recordOf sh'.file = m' at hspec ⊢
  cases hspec with
  | missed hno =>
    rcases hc : recordOf sh.file value with _ | info
    · rfl
    · exact absurd (Or.inr (recordOf_id hst hc)) (hno _ _ hc)

lemma Stops.none_id (h : Stops proc sh time value false sh') (hst : Stores bs sh.file) :
    recordOf sh'.file value = none := by
  have hspec := h.spec
  generalize hm' : recordOf sh'.file = m', (sh.lookup ⟨proc, time⟩ value).2 = looked
    at hspec ⊢
  cases hspec with
  | missed hno =>
    rcases hc : recordOf sh.file value with _ | info
    · rfl
    · exact absurd (Or.inr (recordOf_id hst hc)) (hno _ _ hc)

lemma Stops.stopped_id (h : Stops proc sh time value true sh') (hno : NoAlias bs)
    (hst : Stores bs sh.file) (hb : ∃ b ∈ bs, b.id = value) :
    ∃ info, recordOf sh'.file value = some (stop info) := by
  have hspec := h.spec
  generalize hm' : recordOf sh'.file = m', (sh.lookup ⟨proc, time⟩ value).2 = looked
    at hspec ⊢
  cases hspec with
  | @hit info hm hc =>
    have hid := eq_id_of_called hno hb (recordOf_born hst hm) hc
    exact ⟨info, by rw [← hid, Function.update_self]⟩

variable (proc) in
lemma stop_cases (hd : Distinct bs) (hst : Stores bs sh.file) (time : Int64) (value : Str) :
    ∃ file' r, (changeStatusToStop ⟨proc, time⟩ time value).run sh.file = (file', r) ∧
      Stores bs file' ∧ Stops proc sh time value r.isSome { sh with file := file' } := by
  obtain ⟨file₁, looked, file', r, hlook, hrun, hst', hspec⟩ :=
    stop_spec hd hst ⟨proc, time⟩ time value
  refine ⟨file', r, hrun, hst', ?_, rfl, rfl⟩
  have hl : (sh.lookup ⟨proc, time⟩ value).2 = looked := by simp [Shared.lookup, hlook]
  rw [hl]
  exact hspec

lemma Stops.quiet (h : Stops proc sh time value ok sh') (hok : ok = false) :
    Quiet proc sh sh' := by
  refine ⟨fun c => Or.inl ?_, h.fs, h.halted⟩
  have hspec := h.spec
  subst hok
  generalize recordOf sh'.file = m', (sh.lookup ⟨proc, time⟩ value).2 = looked at hspec ⊢
  cases hspec
  rfl

/-! ### The steps -/

/-- What comes after `stop` may use the container that its caller has looked up. -/
lemma ok_afterStop {caller : Option ContainerInfo} (h : ∀ info, caller = some info → Born bs info) :
    Ok bs (afterStop caller) := by
  cases caller with
  | none => trivial
  | some info => exact h info rfl

lemma startTurn_cases {explicit : Bool} {name : Str} (hst : Stores bs sh.file)
    (h : commandTurn ⟨proc, time⟩ ok sh (.startContainer explicit name) = some (sh', a')) :
    Stores bs sh'.file ∧ Ok bs a' ∧
      Turn env proc sh (.startContainer explicit name) (.next time ok) sh' a' := by
  obtain ⟨sh₁, res, hrun, hst₁, hl⟩ := lookup_cases proc hst time name
  simp only [commandTurn, hrun] at h
  rcases res with _ | info
  · cases h
    exact ⟨hst₁, trivial, .quits (by simp) hl.quiet⟩
  · cases h
    refine ⟨hst₁, ?_⟩
    split_ifs with hs
    · exact ⟨trivial, .quits (by simp) hl.quiet⟩
    · exact ⟨hl.born hst, .starts hl hs⟩

lemma stopTurn_cases {caller : Option ContainerInfo} {name : Str} (hst : Stores bs sh.file)
    (hok : Ok bs (.stop caller name))
    (h : commandTurn ⟨proc, time⟩ ok sh (.stop caller name) = some (sh', a')) :
    Stores bs sh'.file ∧ Ok bs a' ∧
      Turn env proc sh (.stop caller name) (.next time ok) sh' a' := by
  obtain ⟨sh₁, res, hrun, hst₁, hl⟩ := lookup_cases proc hst time name
  simp only [commandTurn, hrun] at h
  rcases res with _ | info
  · cases h
    exact ⟨hst₁, ok_afterStop hok, .stopMisses hl.quiet⟩
  · cases h
    refine ⟨hst₁, ?_⟩
    split_ifs with hs
    · have hpid := recordOf_pid_pos hst₁ hl.found.1 hs
      exact ⟨⟨hok, hl.born hst, hpid⟩, .stopFinds hl hs⟩
    · exact ⟨ok_afterStop hok, .stopMisses hl.quiet⟩

lemma stoppingTurn_cases {caller : Option ContainerInfo} {info : ContainerInfo} {waited : Bool}
    (hst : Stores bs sh.file) (hok : Ok bs (.stopping caller info waited))
    (h : commandTurn ⟨proc, time⟩ ok sh (.stopping caller info waited) = some (sh', a')) :
    Stores bs sh'.file ∧ Ok bs a' ∧
      Turn env proc sh (.stopping caller info waited) (.next time ok) sh' a' := by
  have hend : Ok bs (afterStop caller) := ok_afterStop hok.1
  cases waited with
  | false =>
    simp only [commandTurn] at h
    cases h
    refine ⟨hst, ?_⟩
    split_ifs with hp
    · exact ⟨hok, .terminates hp⟩
    · exact ⟨hend, .stopEnds⟩
  | true =>
    simp only [commandTurn] at h
    cases h
    exact ⟨hst, hend, .stopEnds⟩

lemma removeTurn_cases {force : Bool} {name : Str} (hst : Stores bs sh.file)
    (h : commandTurn ⟨proc, time⟩ ok sh (.removeContainer force name) = some (sh', a')) :
    Stores bs sh'.file ∧ Ok bs a' ∧
      Turn env proc sh (.removeContainer force name) (.next time ok) sh' a' := by
  obtain ⟨sh₁, res, hrun, hst₁, hl⟩ := lookup_cases proc hst time name
  simp only [commandTurn, hrun] at h
  rcases res with _ | info
  · cases h
    exact ⟨hst₁, trivial, .quits (by simp) hl.quiet⟩
  · cases h
    refine ⟨hst₁, ?_⟩
    have hb : Born bs info := hl.born hst
    split_ifs with hs hf
    · refine ⟨fun x hx => ?_, .removeStops hl.quiet⟩
      cases hx
      exact hb
    · exact ⟨trivial, .quits (by simp) hl.quiet⟩
    · exact ⟨hb, .removes hl.quiet⟩

lemma removingTurn_cases {info : ContainerInfo} {stage : RemoveStage} (hst : Stores bs sh.file)
    (hok : Ok bs (.removing info stage))
    (h : commandTurn ⟨proc, time⟩ ok sh (.removing info stage) = some (sh', a')) :
    Stores bs sh'.file ∧ Ok bs a' ∧
      Turn env proc sh (.removing info stage) (.next time ok) sh' a' := by
  cases stage with
  | containers =>
    simp only [commandTurn] at h
    cases h
    refine ⟨hst, ?_⟩
    cases ok with
    | true => exact ⟨hok, .removesContainers⟩
    | false => exact ⟨trivial, .quits (by simp) (.refl sh)⟩
  | layer =>
    simp only [commandTurn] at h
    cases h
    refine ⟨hst, ?_⟩
    cases ok with
    | true => exact ⟨hok, .removesLayer⟩
    | false => exact ⟨trivial, .quits (by simp) (.refl sh)⟩
  | record =>
    obtain ⟨file', res, hrun, hst', hm⟩ := delete_spec hst ⟨proc, time⟩ info.id
    simp only [commandTurn, hrun] at h
    cases h
    refine ⟨hst', trivial, .deletes (fun c => ?_) rfl rfl⟩
    rcases hm with hm | ⟨x, -, -, hm⟩
    · exact Or.inl (congrFun hm c)
    · by_cases hc : c = x.id
      · exact Or.inr (by simp [hm, hc])
      · exact Or.inl (by simp [hm, hc])

/-- **Commands and threads**: the list is complete for them. -/
theorem commandTurn_cases (hd : Distinct bs) (hst : Stores bs sh.file) (hok : Ok bs a)
    (ha : ∀ i, a ≠ .inst i) (h : commandTurn ⟨proc, time⟩ ok sh a = some (sh', a')) :
    Stores bs sh'.file ∧ Ok bs a' ∧ Turn env proc sh a (.next time ok) sh' a' := by
  cases a with
  | startContainer explicit name => exact startTurn_cases hst h
  | stop caller name => exact stopTurn_cases hst hok h
  | stopping caller info waited => exact stoppingTurn_cases hst hok h
  | removeContainer force name => exact removeTurn_cases hst h
  | removing info stage => exact removingTurn_cases hst hok h
  | resolving name =>
    obtain ⟨sh₁, res, hrun, hst₁, hl⟩ := lookup_cases proc hst time name
    simp only [commandTurn, hrun] at h
    cases h
    exact ⟨hst₁, trivial, .quits ha hl.quiet⟩
  | asleep id =>
    rcases hm : ((getContainerById id).run sh.file).2.join with _ | info
    · simp only [commandTurn, hm] at h
      cases h
      exact ⟨hst, trivial, .quits ha (.refl sh)⟩
    · simp only [commandTurn, hm] at h
      cases h
      refine ⟨hst, ?_⟩
      split_ifs with hs
      · exact ⟨⟨recordOf_born hst hm, hs⟩, .reads hm hs⟩
      · exact ⟨trivial, .quits ha (.refl sh)⟩
  | rechecking info =>
    simp only [commandTurn] at h
    cases h
    refine ⟨hst, ?_⟩
    split_ifs with hp
    · exact ⟨trivial, .quits ha (.refl sh)⟩
    · exact ⟨hok.1, .tests (by simpa using hp)⟩
  | restarting info =>
    obtain ⟨file', r, hrun, hst', hs⟩ := stop_cases proc hd hst time info.id
    simp only [commandTurn, hrun] at h
    cases h
    refine ⟨hst', ?_⟩
    rcases r with _ | u
    · exact ⟨trivial, .quits ha (hs.quiet rfl)⟩
    · exact ⟨fun _ => ⟨_, hok, rfl⟩, .restarts hs⟩
  | inst i => exact absurd rfl (ha i)
  | starting explicit info => simp [commandTurn] at h
  | done => simp [commandTurn] at h

lemma initTurn_cases (hst : Stores bs sh.file) (hok : Ok bs (.inst i))
    (h : initTurn env ok sh i = some (sh', a')) :
    Stores bs sh'.file ∧ Ok bs a' ∧ Turn env proc sh (.inst i) (.init ok) sh' a' := by
  unfold initTurn at h
  rcases hi : i.init with (_ | ⟨task, tasks⟩) | _ | _ | _
  · simp only [hi] at h
    cases ok with
    | true => cases h; exact ⟨hst, hok, .execs hi⟩
    | false => cases h; exact ⟨hst, hok, .exits (by simp [hi, InitState.alive])⟩
  · simp only [hi] at h
    rcases hr : task.run { env with mountOk := fun _ => ok } i.info.id (sh.fs i.info.id) with
      _ | ⟨fs, _ | _⟩
    · simp only [hr] at h
      cases h
      exact ⟨hst, hok, .exits (by simp [hi, InitState.alive])⟩
    · simp only [hr] at h
      cases h
      exact ⟨hst, hok, .fails hi hr⟩
    · simp only [hr] at h
      cases h
      exact ⟨hst, hok, .mounts hi hr⟩
  · simp [hi] at h
  · simp [hi] at h
  · simp [hi] at h

lemma callback_cases (hd : Distinct bs) (hst : Stores bs sh.file) (hok : Ok bs (.inst i))
    (hm : i.monitor = .starting) (h : callback time sh i = (sh', a')) :
    Stores bs sh'.file ∧ Ok bs a' ∧ Turn env proc sh (.inst i) l sh' a' := by
  have hborn : Born bs (i.info.restartedAs i.pid time) := hok.1
  obtain ⟨file', hrun, hst', hrec⟩ := update_spec hd hst hborn
    ⟨fun hs => (by cases hs), fun _ => ⟨hok.2, rfl⟩⟩
  simp only [callback, hrun] at h
  cases h
  exact ⟨hst', hok, .callsBack hm hrec rfl rfl⟩

lemma monitorTurn_cases (hd : Distinct bs) (hst : Stores bs sh.file) (hok : Ok bs (.inst i))
    (h : monitorTurn env ⟨proc, time⟩ sh i = some (sh', a')) :
    Stores bs sh'.file ∧ Ok bs a' ∧ Turn env proc sh (.inst i) (.next time ok) sh' a' := by
  unfold monitorTurn at h
  rcases hm : i.monitor with _ | _ | _ | _ | _ | _ | _
  · simp only [hm] at h
    exact callback_cases hd hst hok hm (Option.some.inj h)
  · simp only [hm] at h
    rcases hi : i.init with _ | _ | _ | _
    · simp [hi] at h
    · simp [hi] at h
    · simp only [hi] at h
      cases h
      exact ⟨hst, hok, .reaps hm hi⟩
    · simp [hi] at h
  · simp only [hm] at h
    rcases hr : umountTable env i.info.id (sh.fs i.info.id) with _ | fs
    · simp only [hr] at h
      cases h
      exact ⟨hst, hok, .umountsNoTable hm hr⟩
    · simp only [hr] at h
      cases h
      exact ⟨hst, hok, .umountsTable hm hr⟩
  · obtain ⟨sh₁, res, hrun, hst₁, hl⟩ := lookup_cases proc hst time i.info.id
    simp only [hm, hrun] at h
    rcases res with _ | info
    · cases h
      exact ⟨hst₁, hok, .umountsNoVolumes hm hl⟩
    · rcases hr : umountVolumeList (some info) (sh₁.fs i.info.id) with _ | fs
      · simp only [hr] at h
        cases h
        exact ⟨hst₁, hok, .umountsUndefined hm hl⟩
      · simp only [hr] at h
        cases h
        rw [hl.fs] at hr
        exact ⟨hst₁, hok, .umountsVolumes hm hl hr⟩
  · obtain ⟨file', r, hrun, hst', hs⟩ := stop_cases proc hd hst time i.info.id
    simp only [hm, hrun] at h
    cases h
    refine ⟨hst', hok, ?_⟩
    rcases r with _ | u
    · exact .marksNone hm hs
    · exact .marks hm hs
  · simp [hm] at h
  · simp [hm] at h

/-- **Containers**: the list is complete for their processes and monitors. -/
theorem instTurn_cases (hd : Distinct bs) (hst : Stores bs sh.file) (hok : Ok bs (.inst i))
    (h : instTurn env proc sh i l = some (sh', a')) :
    Stores bs sh'.file ∧ Ok bs a' ∧ Turn env proc sh (.inst i) l sh' a' := by
  cases l with
  | next time ok => exact monitorTurn_cases hd hst hok h
  | launch pid => simp [instTurn] at h
  | init ok => exact initTurn_cases hst hok h
  | exit =>
    simp only [instTurn] at h
    split_ifs at h with ha
    cases h
    exact ⟨hst, hok, .exits ha⟩
  | killed =>
    simp only [instTurn] at h
    split_ifs at h with ha
    cases h
    exact ⟨hst, hok, .monitorDies ha⟩
  | orphan =>
    simp only [instTurn] at h
    split at h
    · cases h
      exact ⟨hst, hok, .reapsOrphan ‹_› ‹_›⟩
    · cases h

/-- **One process**: every step is one of the list, and what it holds stays about one of the
containers. -/
theorem turn_cases (hd : Distinct bs) (hst : Stores bs sh.file) (hok : Ok bs a)
    (h : turn env proc sh a l = some (sh', a')) :
    Stores bs sh'.file ∧ Ok bs a' ∧ Turn env proc sh a l sh' a' := by
  by_cases hi : ∃ i, a = .inst i
  · obtain ⟨i, rfl⟩ := hi
    exact instTurn_cases hd hst hok h
  have ha : ∀ i, a ≠ .inst i := fun i heq => hi ⟨i, heq⟩
  unfold turn at h
  split at h
  · exact absurd rfl (ha _)
  · split_ifs at h with hp
    cases h
    exact ⟨hst, ⟨hok, hp.1⟩, .launches hp.1 hp.2⟩
  · cases h
  · cases h
    exact ⟨hst, trivial, .quits ha (.refl sh)⟩
  · exact commandTurn_cases hd hst hok ha h
  · cases h

/-! ### The record of one container -/

/-- `change_status_to_stop` is called with this id. -/
def Marking (a : Actor) (id : Str) : Prop :=
  (∃ info, a = .restarting info ∧ info.id = id) ∨
    ∃ i, a = .inst i ∧ i.monitor = .unmounted ∧ i.info.id = id

/-- What a step may do to the record of a container. -/
inductive Touches (proc : Int32 → Bool) (sh : Shared) (file : DataFile) (a : Actor) (l : Label)
    (c : Str) : Prop where
  | kept (h : recordOf file c = recordOf sh.file c)
  | repaired {info : ContainerInfo} (h : recordOf sh.file c = some info)
      (h' : recordOf file c = some (repair proc info))
  | deleted (h : recordOf file c = none)
  | written {i : Instance} {info info' : ContainerInfo} (ha : a = .inst i)
      (hm : i.monitor = .starting) (hid : i.info.id = c) (h : recordOf sh.file c = some info)
      (h' : recordOf file c = some info') (hs : info'.status = .running)
      (hp : info'.pid = i.pid)
  | stopped {time : Int64} {ok : Bool} {value : Str} {info looked : ContainerInfo}
      (hl : l = .next time ok) (ha : Marking a value)
      (hf : (sh.lookup ⟨proc, time⟩ value).2 = some looked) (hid : looked.id = c)
      (hc : Called value looked) (h : recordOf sh.file c = some info)
      (h' : recordOf file c = some (stop info))

lemma Quiet.touches (h : Quiet proc sh sh') {a : Actor} {l : Label} (c : Str) :
    Touches proc sh sh'.file a l c := by
  rcases h.records c with h | ⟨info, h, h'⟩
  · exact .kept h
  · exact .repaired h h'

@[simp] lemma called_repair : Called value (repair proc info) ↔ Called value info := by
  unfold RecordMap.repair
  split_ifs <;> rfl

lemma Stops.touches (h : Stops proc sh time value ok sh') {b : Bool} (ha : Marking a value)
    (c : Str) : Touches proc sh sh'.file a (.next time b) c := by
  have hspec := h.spec
  generalize hm' : recordOf sh'.file = m' at hspec
  generalize hl : (sh.lookup ⟨proc, time⟩ value).2 = looked at hspec
  cases hspec with
  | missed => exact .kept (congrFun hm' c)
  | @hit info hm hc =>
    by_cases hid : c = info.id
    · subst hid
      exact .stopped rfl ha hl (repair_id proc info) (called_repair.mpr hc) hm
        (by rw [hm', Function.update_self])
    · exact .kept (by rw [hm', Function.update_of_ne hid])

/-- One record: a step leaves it, repairs it or deletes it, the callback writes it, or a
change of the status stops it. -/
lemma touches_turn (ht : Turn env proc sh a l sh' a') (c : Str) :
    Touches proc sh sh'.file a l c := by
  cases ht with
  | quits _ hq => exact hq.touches c
  | starts hl => exact hl.quiet.touches c
  | stopMisses hq => exact hq.touches c
  | stopFinds hl => exact hl.quiet.touches c
  | removeStops hq => exact hq.touches c
  | removes hq => exact hq.touches c
  | deletes hm =>
    rcases hm c with h | h
    · exact .kept h
    · exact .deleted h
  | restarts hs => exact hs.touches (Or.inl ⟨_, rfl, rfl⟩) c
  | @callsBack i time l sh' hm hr =>
    by_cases hid : c = i.info.id
    · subst hid
      rcases hrec : recordOf sh.file i.info.id with _ | info
      · exact .deleted (by rw [hr, Function.update_self, hrec]; rfl)
      · exact .written rfl hm rfl hrec (by rw [hr, Function.update_self, hrec]; rfl) rfl rfl
    · exact .kept (by rw [hr, Function.update_of_ne hid])
  | umountsVolumes _ hl => exact hl.quiet.touches c
  | umountsUndefined _ hl => exact hl.quiet.touches c
  | umountsNoVolumes _ hl => exact hl.quiet.touches c
  | marks hm hs => exact hs.touches (Or.inr ⟨_, rfl, hm, rfl⟩) c
  | marksNone hm hs => exact hs.touches (Or.inr ⟨_, rfl, hm, rfl⟩) c
  | _ => exact .kept rfl

/-! ### The whole machine -/

/-- One step of the machine. -/
inductive Move (env : Env) (w : World) : Action → World → Prop where
  | command (c : Command) : Move env w (.command c) { w with actors := w.actors ++ [c.actor] }
  | turn {n : ℕ} {l : Label} {a a' : Actor} {sh' : Shared} (ha : w.actors[n]? = some a)
      (ht : Turn env w.proc w.toShared a l sh' a') :
      Move env w (.turn n l)
        { w with toShared := sh', actors := (w.signalled (a.kills l)).set n a' }
  | scan (listed : List ContainerInfo) : Move env w .scan { w with listed }
  | scanNext {actors : List Actor} (listed : List ContainerInfo)
      (hs : ∀ a ∈ actors, ∃ id, a = .asleep id) :
      Move env w .scanNext { w with actors := w.actors ++ actors, listed }
  | newProcess {pid : Int32} (hfree : pid ∉ w.pids) :
      Move env w (.newProcess pid) { w with others := pid :: w.others }
  | endProcess (pid : Int32) :
      Move env w (.endProcess pid) { w with others := w.others.erase pid }
  | reboot :
      Move env w .reboot
        { w with fs := fun _ => ⟨[], []⟩, actors := [], others := [], listed := [] }

/-- The file stores containers of `bs`, and everything held is about one of them. -/
structure Sound (bs : List Birth) (w : World) : Prop where
  stores : Stores bs w.file
  ok : ∀ a ∈ w.actors, Ok bs a

variable {w w' : World} {act : Action} {n : ℕ}

lemma ok_signal {pid : Int32} (h : Ok bs a) : Ok bs (a.signal pid) := by
  cases a with
  | inst i =>
    simp only [Actor.signal]
    split_ifs
    · exact h
    · exact h
  | _ => exact h

lemma forall_signalled {P : Actor → Prop} (hs : ∀ pid a, P a → P (a.signal pid))
    (h : ∀ a ∈ w.actors, P a) (k : Option Int32) : ∀ a ∈ w.signalled k, P a := by
  cases k with
  | none => exact h
  | some pid =>
    intro a ha
    obtain ⟨b, hb, rfl⟩ := List.mem_map.mp ha
    exact hs pid b (h b hb)

/-- **One step**: every step is one of the list, and soundness is kept. -/
theorem step_cases (hd : Distinct bs) (hw : Sound bs w) (h : w.step env act = some w') :
    Sound bs w' ∧ Move env w act w' := by
  cases act with
  | command c =>
    cases h
    refine ⟨⟨hw.stores, Pool.forall_append hw.ok fun a ha => ?_⟩, .command c⟩
    rw [List.mem_singleton.mp ha]
    cases c with
    | start name => exact fun hx => by cases hx
    | stop name => exact fun info hx => by cases hx
    | _ => trivial
  | turn n l =>
    simp only [World.step, Option.bind_eq_bind, Option.bind_eq_some_iff] at h
    obtain ⟨a, ha, ⟨sh', a'⟩, ht, h⟩ := h
    cases h
    obtain ⟨hst, hok, hturn⟩ := turn_cases hd hw.stores (hw.ok a (List.mem_of_getElem? ha)) ht
    refine ⟨⟨hst, Pool.forall_set ?_ hok⟩, .turn ha hturn⟩
    exact forall_signalled (fun _ _ => ok_signal) hw.ok _
  | scan =>
    cases h
    exact ⟨⟨hw.stores, hw.ok⟩, .scan _⟩
  | scanNext =>
    simp only [World.step] at h
    split at h
    · cases h
    · cases h
      have hs : ∀ a ∈ scanned w.proc ‹ContainerInfo›, ∃ id, a = .asleep id := by
        intro a ha
        unfold scanned at ha
        split_ifs at ha
        · exact ⟨_, List.mem_singleton.mp ha⟩
        · cases ha
      refine ⟨⟨hw.stores, Pool.forall_append hw.ok fun a ha => ?_⟩, .scanNext _ hs⟩
      obtain ⟨id, rfl⟩ := hs a ha
      trivial
  | newProcess pid =>
    simp only [World.step] at h
    split_ifs at h with hp
    cases h
    exact ⟨⟨hw.stores, hw.ok⟩, .newProcess hp.2⟩
  | endProcess pid =>
    cases h
    exact ⟨⟨hw.stores, hw.ok⟩, .endProcess pid⟩
  | reboot =>
    cases h
    exact ⟨⟨hw.stores, by simp⟩, .reboot⟩

variable {cond : World → Action → Prop}

/-- **Invariants** of the machine: what holds at boot and is kept by every move that meets the
condition holds in every state reached. -/
theorem reach_invariant {I : World → Prop} (h0 : ∀ file, Stores bs file → I (World.boot file))
    (hstep : ∀ w act w', Distinct bs → Sound bs w → I w → cond w act → Move env w act w' → I w')
    (h : (machine env bs).Reach cond w) : Sound bs w ∧ I w := by
  have hall : Distinct bs ∧ Sound bs w ∧ I w := by
    refine h.invariant (I := fun w => Distinct bs ∧ Sound bs w ∧ I w) ?_ ?_
    · rintro w ⟨file, rs, hinv, rfl⟩
      have hst : Stores bs file := ⟨bs, rs, hinv, .refl bs⟩
      exact ⟨hinv.distinct, ⟨hst, by simp [World.boot]⟩, h0 file hst⟩
    · rintro w act w' ⟨hd, hw, hi⟩ hc hs
      obtain ⟨hw', hm⟩ := step_cases hd hw hs
      exact ⟨hd, hw', hstep w act w' hd hw hi hc hm⟩
  exact hall.2

/-- A container that has been stopped. -/
def stopedInfo : ContainerInfo :=
  { ranInfo.stopedAt 1700000060 with volumeList := OrdSet.ofList [] }

/-- A data file that holds just this container. -/
def oneContainer : DataFile := ((ContainerDao.insert stopedInfo).run .missing).1

def oneBirth : List Birth := [birth stopedInfo.record]

lemma boot_one : (machine env oneBirth).Reach cond (World.boot oneContainer) := by
  have hnone : Inv .missing [] [] := ⟨.missing, rfl, .nil, by simp⟩
  have hpid : PidOk stopedInfo.record := ⟨fun _ => rfl, fun h => by cases h⟩
  obtain ⟨file', hrun, hinv⟩ := hnone.insert (by simp) hpid
  have hfile : oneContainer = file' := congrArg Prod.fst hrun
  exact .start ⟨oneContainer, _, hfile ▸ hinv, rfl⟩

/-! ### The process that moves -/

lemma kills_eq_some {pid : Int32} (h : a.kills l = some pid) :
    ∃ caller info waited time ok, a = .stopping caller info waited ∧ l = .next time ok ∧
      info.pid = pid := by
  unfold Actor.kills at h
  split at h
  · exact ⟨_, _, _, _, _, rfl, rfl, Option.some.inj h⟩
  · cases h

lemma signal_of_kills {pid : Int32} (h : a.kills l = some pid) (pid' : Int32) :
    a.signal pid' = a := by
  cases a with
  | inst i => simp [Actor.kills] at h
  | _ => rfl

lemma getElem?_signalled (ha : w.actors[n]? = some a) (l : Label) :
    (w.signalled (a.kills l))[n]? = some a := by
  rcases hk : a.kills l with _ | pid
  · exact ha
  · simp [World.signalled, List.getElem?_map, ha, signal_of_kills hk]

lemma inst_mem_signalled {k : Option Int32} (h : .inst i ∈ w.signalled k) :
    ∃ j, .inst j ∈ w.actors ∧
      (i = j ∨ i = { j with signalled := true } ∧
        ∃ pid, k = some pid ∧ Actor.pid (.inst j) = some pid) := by
  cases k with
  | none => exact ⟨i, h, Or.inl rfl⟩
  | some pid =>
    obtain ⟨b, hb, heq⟩ := List.mem_map.mp h
    cases b with
    | inst j =>
      refine ⟨j, hb, ?_⟩
      simp only [Actor.signal] at heq
      split_ifs at heq with hp <;> cases heq
      · exact Or.inr ⟨rfl, pid, rfl, hp⟩
      · exact Or.inl rfl
    | _ => cases heq

lemma mem_of_mem_signalled {k : Option Int32} (h : a ∈ w.signalled k) (ha : ∀ i, a ≠ .inst i) :
    a ∈ w.actors := by
  cases k with
  | none => exact h
  | some pid =>
    obtain ⟨b, hb, rfl⟩ := List.mem_map.mp h
    cases b with
    | inst i =>
      simp only [Actor.signal] at ha
      split_ifs at ha
      · exact absurd rfl (ha _)
      · exact absurd rfl (ha _)
    | _ => exact hb

lemma proc_of_alive (h : .inst i ∈ w.actors) (ha : i.init.alive = true) :
    w.proc i.pid = true := by
  have hpid : Actor.pid (.inst i) = some i.pid := by
    unfold Actor.pid
    rcases hi : i.init with _ | _ | _ | _ <;> simp [hi, InitState.alive] at ha ⊢
  refine decide_eq_true ?_
  exact List.mem_append_right _ (List.mem_filterMap.mpr ⟨_, h, hpid⟩)

end Hoststack.Moves
