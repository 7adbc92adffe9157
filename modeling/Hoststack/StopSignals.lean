import Hoststack.Moves

/-!
Whom the signals of `stop` reach.

The pid a signal is sent to was read from the file, some time ago. It is that of a process of
the same container, or of nobody, as long as no process comes to life with it while a running
record of the container, or a stop of it under way, still holds it.
-/

namespace Hoststack.StopSignals

open ContainerDao ContainerFs StoreInv RecordMap Lifecycle Moves

/-- The container that a stop under way is for, and its pid. -/
def stoppingPid : Actor → Option (Str × Int32)
  | .stopping _ info _ => some (info.id, info.pid)
  | _ => none

/-- The containers of running records and of stops under way, and the pids held for them. -/
def held (w : World) : List (Str × Int32) :=
  ((((ContainerDao.list.run w.file).2.join).getD []).filter fun info =>
      info.status = .running).map (fun info => (info.id, info.pid)) ++
    w.actors.filterMap stoppingPid

/-- No process comes to life with the pid `pid` while that is held for the container `c`. -/
def NoReuse (c : Str) (pid : Int32) (w : World) : Action → Prop
  | .newProcess pid' => pid' = pid → (c, pid) ∉ held w
  | .turn _ (.launch pid') => pid' = pid → (c, pid) ∉ held w
  | _ => True

instance (c : Str) (pid : Int32) (w : World) (act : Action) : Decidable (NoReuse c pid w act) :=
  match act with
  | .newProcess pid' => inferInstanceAs (Decidable (pid' = pid → (c, pid) ∉ held w))
  | .turn _ (.launch pid') => inferInstanceAs (Decidable (pid' = pid → (c, pid) ∉ held w))
  | .turn _ (.next _ _) | .turn _ (.init _) | .turn _ .exit | .turn _ .killed | .turn _ .orphan
  | .command _ | .scan | .scanNext | .endProcess _ | .reboot => inferInstanceAs (Decidable True)

/-- Whoever has the pid is a process of the container. -/
structure Owned (w : World) (c : Str) (pid : Int32) : Prop where
  others : pid ∉ w.others
  insts : ∀ i, .inst i ∈ w.actors → Actor.pid (.inst i) = some pid → i.info.id = c

/-! ### Pids -/

variable {bs : List Birth} {env : Env} {proc : Int32 → Bool} {sh sh' : Shared} {a a' : Actor}
  {l : Label} {i : Instance} {info : ContainerInfo} {c : Str} {w w' : World} {act : Action}
  {pid : Int32}

@[simp] lemma pid_signal (pid : Int32) (a : Actor) : (a.signal pid).pid = a.pid := by
  cases a with
  | inst i => simp only [Actor.signal]; split_ifs <;> rfl
  | _ => rfl

lemma pid_inst (h : Actor.pid (.inst i) = some pid) : i.pid = pid := by
  unfold Actor.pid at h
  rcases hi : i.init with _ | _ | _ | _ <;> simp [hi] at h <;> exact h

lemma pid_of_ne_gone (h : i.init ≠ .gone) : Actor.pid (.inst i) = some i.pid := by
  unfold Actor.pid
  rcases hi : i.init with _ | _ | _ | _ <;> simp [hi] at h ⊢

lemma pid_afterStop (caller : Option ContainerInfo) : (afterStop caller).pid = none := by
  cases caller <;> rfl

lemma pid_turn (ht : Turn env proc sh a l sh' a') :
    a'.pid = a.pid ∨ a'.pid = none ∨
      ∃ explicit info pid, a = .starting explicit info ∧ l = .launch pid ∧ proc pid = false ∧
        a'.pid = some pid := by
  cases ht with
  | launches hpos hfree => exact Or.inr (Or.inr ⟨_, _, _, rfl, rfl, hfree, rfl⟩)
  | stopMisses => exact Or.inr (Or.inl (pid_afterStop _))
  | stopEnds => exact Or.inr (Or.inl (pid_afterStop _))
  | mounts hi => exact Or.inl (by simp [Actor.pid, hi])
  | execs hi => exact Or.inl (by simp [Actor.pid, hi])
  | fails hi => exact Or.inl (by simp [Actor.pid, hi, die])
  | exits ha =>
    refine Or.inl ?_
    rw [pid_of_ne_gone fun hg => by simp [hg, InitState.alive] at ha]
    rfl
  | reapsOrphan => exact Or.inr (Or.inl rfl)
  | reaps => exact Or.inr (Or.inl rfl)
  | monitorDies | callsBack | umountsTable | umountsNoTable | umountsVolumes | umountsUndefined
  | umountsNoVolumes | marks | marksNone => exact Or.inl rfl
  | _ => exact Or.inr (Or.inl rfl)

/-- A process of a container comes from one of the same container with the same pid, or from a
start that clones it. -/
lemma inst_turn (ht : Turn env proc sh a l sh' (.inst i)) :
    (∃ j, a = .inst j ∧ i.info = j.info ∧ i.pid = j.pid ∧
      (i.monitor = .starting → j.monitor = .starting ∧ (j.init ≠ .gone → i.init ≠ .gone))) ∨
    ∃ explicit info, a = .starting explicit info ∧ l = .launch i.pid ∧ i.info = info ∧
      proc i.pid = false ∧ i.init ≠ .gone := by
  generalize ha' : Actor.inst i = a' at ht
  cases ht with
  | launches hpos hfree =>
    cases ha'
    exact Or.inr ⟨_, _, rfl, rfl, rfl, hfree, by simp⟩
  | stopMisses => cases ‹Option ContainerInfo› <;> cases ha'
  | stopEnds => cases ‹Option ContainerInfo› <;> cases ha'
  | mounts | execs | fails | exits =>
    cases ha'
    exact Or.inl ⟨_, rfl, rfl, rfl, fun hm => ⟨hm, fun _ => by simp⟩⟩
  | reapsOrphan hi hm =>
    cases ha'
    refine Or.inl ⟨_, rfl, rfl, rfl, fun hs => ?_⟩
    rw [show _ = MonitorState.starting from hs] at hm
    cases hm
  | monitorDies | callsBack | reaps | umountsTable | umountsNoTable | umountsVolumes
  | umountsUndefined | umountsNoVolumes | marks | marksNone =>
    cases ha'
    exact Or.inl ⟨_, rfl, rfl, rfl, fun hs => by cases hs⟩
  | _ => cases ha'

lemma filterMap_signalled (w : World) (k : Option Int32) :
    (w.signalled k).filterMap Actor.pid = w.actors.filterMap Actor.pid := by
  cases k with
  | none => rfl
  | some pid =>
    simp only [World.signalled, List.filterMap_map]
    exact congrArg (fun f => w.actors.filterMap f) (funext fun b => pid_signal pid b)

lemma nodup_move (hn : w.pids.Nodup) (hm : Move env w act w') : w'.pids.Nodup := by
  cases hm with
  | command c =>
    have : [c.actor].filterMap Actor.pid = [] := by cases c <;> rfl
    simpa [World.pids, List.filterMap_append, this] using hn
  | @turn n l a a' sh' ha ht =>
    have ha' := getElem?_signalled ha l
    simp only [World.pids] at hn ⊢
    rw [← filterMap_signalled w (a.kills l)] at hn
    rcases pid_turn ht with hp | hp | ⟨_, _, pid, rfl, rfl, hfree, hp⟩
    · exact hn.sublist ((Pool.filterMap_set_sublist ha' (Or.inl hp)).append_left _)
    · exact hn.sublist ((Pool.filterMap_set_sublist ha' (Or.inr hp)).append_left _)
    · have hperm := (Pool.filterMap_set_perm ha' rfl hp).append_left w.others
      refine (hperm.trans List.perm_middle).nodup_iff.mpr (List.nodup_cons.mpr ⟨?_, hn⟩)
      rw [filterMap_signalled]
      exact of_decide_eq_false hfree
  | scan => exact hn
  | scanNext listed hs =>
    have : List.filterMap Actor.pid _ = [] := List.filterMap_eq_nil_iff.mpr fun b hb => by
      obtain ⟨id, rfl⟩ := hs b hb
      rfl
    simpa [World.pids, List.filterMap_append, this] using hn
  | newProcess hfree => exact List.nodup_cons.mpr ⟨hfree, hn⟩
  | endProcess pid => exact hn.sublist (List.erase_sublist.append_right _)
  | reboot => exact List.nodup_nil

/-! ### Owners -/

lemma owned_of_inst (hn : w.pids.Nodup) (hi : .inst i ∈ w.actors)
    (hp : Actor.pid (.inst i) = some pid) : Owned w i.info.id pid := by
  obtain ⟨-, hnodup, hdisj⟩ := List.nodup_append.mp hn
  refine ⟨fun ho => ?_, fun j hj hpj => ?_⟩
  · exact hdisj pid ho pid (List.mem_filterMap.mpr ⟨_, hi, hp⟩) rfl
  · cases Pool.eq_of_nodup_filterMap hnodup hj hi hpj hp
    rfl

lemma Owned.of_actors (h : Owned w c pid) {w' : World} (ho : ∀ p ∈ w'.others, p ∈ w.others)
    {actors : List Actor} (hw' : w'.actors = w.actors ++ actors)
    (hnew : ∀ b ∈ actors, ∀ i, b ≠ .inst i) : Owned w' c pid := by
  refine ⟨fun hp => h.others (ho pid hp), fun i hi hp => ?_⟩
  rw [hw'] at hi
  rcases List.mem_append.mp hi with hi | hi
  · exact h.insts i hi hp
  · exact absurd rfl (hnew _ hi i)

lemma Owned.move (h : Owned w c pid) (hm : Move env w act w') (hnew : act ≠ .newProcess pid)
    (hlaunch : ∀ n explicit info, act = .turn n (.launch pid) →
      w.actors[n]? ≠ some (.starting explicit info)) : Owned w' c pid := by
  cases hm with
  | command c =>
    refine h.of_actors (fun _ hp => hp) rfl fun b hb i => ?_
    rw [List.mem_singleton.mp hb]
    cases c <;> simp [Command.actor]
  | @turn n l a a' sh' ha ht =>
    refine ⟨h.others, fun i hi hp => ?_⟩
    rcases List.mem_or_eq_of_mem_set hi with hi | rfl
    · obtain ⟨j, hj, rfl | ⟨rfl, -⟩⟩ := inst_mem_signalled hi
      · exact h.insts _ hj hp
      · exact h.insts j hj hp
    · rcases inst_turn ht with ⟨j, rfl, hinfo, -, -⟩ | ⟨_, _, rfl, rfl, -⟩
      · rw [hinfo]
        refine h.insts j (List.mem_of_getElem? ha) ?_
        rcases pid_turn ht with hpj | hnone | ⟨_, _, _, heq, -⟩
        · rw [← hpj, hp]
        · rw [hnone] at hp; cases hp
        · cases heq
      · exact absurd ha (hlaunch n _ _ (by rw [pid_inst hp]))
  | scan => exact ⟨h.others, h.insts⟩
  | scanNext listed hs =>
    refine h.of_actors (fun _ hp => hp) rfl fun b hb i => ?_
    obtain ⟨id, rfl⟩ := hs b hb
    simp
  | @newProcess p hfree =>
    refine ⟨?_, h.insts⟩
    rintro (_ | ⟨_, hp⟩)
    · exact hnew rfl
    · exact h.others hp
  | endProcess p => exact ⟨fun hp => h.others (List.mem_of_mem_erase hp), h.insts⟩
  | reboot => exact ⟨by simp, fun i hi => by simp at hi⟩

lemma Owned.move_of_held (h : Owned w c pid) (hheld : (c, pid) ∈ held w)
    (hm : Move env w act w') (hc : NoReuse c pid w act) : Owned w' c pid := by
  refine h.move hm ?_ ?_
  · rintro rfl
    exact hc rfl hheld
  · rintro n _ _ rfl
    exact absurd hheld (hc rfl)

/-! ### Whom the signals reach -/

lemma mem_held_of_record (hst : Stores bs w.file) (hc : recordOf w.file c = some info)
    (hs : info.status = .running) : (c, info.pid) ∈ held w := by
  obtain ⟨bs', rs, hinv, -⟩ := hst
  obtain ⟨r, hr, rfl, rfl⟩ := exists_of_recordOf hinv.represents hc
  have hne : rs ≠ [] := List.ne_nil_of_mem hr
  refine List.mem_append_left _ ?_
  rw [Store.list_run hinv.represents, if_neg hne]
  exact List.mem_map_of_mem (f := fun info : ContainerInfo => (info.id, info.pid))
    (List.mem_filter.mpr ⟨List.mem_map_of_mem hr, by simpa using hs⟩)

lemma mem_held_of_stopping {caller : Option ContainerInfo} {waited : Bool}
    (h : .stopping caller info waited ∈ w.actors) : (info.id, info.pid) ∈ held w :=
  List.mem_append_right _ (List.mem_filterMap.mpr ⟨_, h, rfl⟩)

/-- Pids are different, and where `pid` is held for the container `c` it is owned by it. -/
structure Own (c : Str) (pid : Int32) (w : World) : Prop where
  nodup : w.pids.Nodup
  starting : ∀ i, .inst i ∈ w.actors → i.monitor = .starting → i.init ≠ .gone
  record : ∀ info, recordOf w.file c = some info → info.status = .running → info.pid = pid →
    Owned w c pid
  stopping : ∀ caller info waited, .stopping caller info waited ∈ w.actors → info.id = c →
    info.pid = pid → Owned w c pid

lemma Own.boot (file : DataFile) : Own c pid (World.boot file) where
  nodup := List.nodup_nil
  starting i hi := by simp [World.boot] at hi
  record info _ _ _ := ⟨by simp [World.boot], fun i hi => by simp [World.boot] at hi⟩
  stopping _ _ _ h := by simp [World.boot] at h

/-- A stop that is about to send a signal has done so before, or has just found the container
running. -/
lemma stopping_turn {caller : Option ContainerInfo} {waited : Bool}
    (ht : Turn env proc sh a l sh' (.stopping caller info waited)) :
    a = .stopping caller info false ∨
      recordOf sh'.file info.id = some info ∧ info.status = .running := by
  generalize ha' : Actor.stopping caller info waited = a' at ht
  cases ht with
  | stopMisses => cases ‹Option ContainerInfo› <;> cases ha'
  | stopEnds => cases ‹Option ContainerInfo› <;> cases ha'
  | stopFinds hl hs => cases ha'; exact Or.inr ⟨hl.found.1, hs⟩
  | terminates => cases ha'; exact Or.inl rfl
  | launches => cases ha'
  | _ => cases ha'

lemma Own.record_move (h : Own c pid w) (hst : Stores bs w.file) (hm : Move env w act w')
    (hc : NoReuse c pid w act) (hrec : recordOf w'.file c = some info)
    (hs : info.status = .running) (hpid : info.pid = pid) : Owned w' c pid := by
  have hkept : ∀ info', recordOf w.file c = some info' → info'.status = .running →
      info'.pid = pid → Owned w' c pid := fun info' hrec' hs' hpid' =>
    (h.record info' hrec' hs' hpid').move_of_held
      (hpid' ▸ mem_held_of_record hst hrec' hs') hm hc
  have hmove := hm
  cases hm with
  | @turn n l a a' sh' ha ht =>
    cases touches_turn ht c with
    | kept heq => exact hkept info (heq ▸ hrec) hs hpid
    | repaired h₀ h' =>
      rw [hrec] at h'
      cases h'
      obtain ⟨hself, hs', -⟩ := repair_running hs
      exact hkept _ h₀ hs' (hself ▸ hpid)
    | deleted h' => rw [hrec] at h'; cases h'
    | @written i _ _ hai hmon hid _ h' _ hp =>
      rw [hrec] at h'
      cases h'
      subst hai hid
      have hi := List.mem_of_getElem? ha
      rw [← hpid, hp]
      refine (owned_of_inst h.nodup hi (pid_of_ne_gone (h.starting i hi hmon))).move hmove
        (by simp) ?_
      rintro _ _ _ heq hstart
      cases heq
      rw [ha] at hstart
      cases hstart
    | stopped _ _ _ _ _ _ h' =>
      rw [hrec] at h'
      cases h'
      cases hs
  | _ => exact hkept info hrec hs hpid

lemma Own.move (h : Own c pid w) (hst : Stores bs w.file) (hm : Move env w act w')
    (hc : NoReuse c pid w act) : Own c pid w' := by
  have hstop : ∀ caller info waited, .stopping caller info waited ∈ w.actors → info.id = c →
      info.pid = pid → Owned w' c pid := fun caller info waited hmem hid hpid =>
    (h.stopping caller info waited hmem hid hpid).move_of_held
      (hid ▸ hpid ▸ mem_held_of_stopping hmem) hm hc
  refine ⟨nodup_move h.nodup hm, ?_, fun info => h.record_move hst hm hc, ?_⟩
  · cases hm with
    | command c =>
      intro i hi
      rcases List.mem_append.mp hi with hi | hi
      · exact h.starting i hi
      · cases c <;> simp [Command.actor] at hi
    | turn ha ht =>
      intro i hi hmon
      rcases List.mem_or_eq_of_mem_set hi with hi | rfl
      · obtain ⟨j, hj, rfl | ⟨rfl, -⟩⟩ := inst_mem_signalled hi
        · exact h.starting _ hj hmon
        · exact h.starting j hj hmon
      · rcases inst_turn ht with ⟨j, rfl, -, -, hj⟩ | ⟨_, _, rfl, -, -, -, hne⟩
        · exact (hj hmon).2 (h.starting j (List.mem_of_getElem? ha) (hj hmon).1)
        · exact hne
    | scanNext listed hs =>
      intro i hi
      rcases List.mem_append.mp hi with hi | hi
      · exact h.starting i hi
      · obtain ⟨id, heq⟩ := hs _ hi
        cases heq
    | reboot => intro i hi; simp at hi
    | _ => exact h.starting
  · intro caller info waited hmem hid hpid
    have hmove := hm
    cases hm with
    | command c =>
      rcases List.mem_append.mp hmem with hmem | hmem
      · exact hstop _ _ _ hmem hid hpid
      · cases c <;> simp [Command.actor] at hmem
    | turn ha ht =>
      rcases List.mem_or_eq_of_mem_set hmem with hmem | rfl
      · exact hstop _ _ _ (mem_of_mem_signalled hmem (by simp)) hid hpid
      · rcases stopping_turn ht with rfl | ⟨hrec, hs⟩
        · exact hstop _ _ _ (List.mem_of_getElem? ha) hid hpid
        · exact h.record_move hst hmove hc (hid ▸ hrec) hs hpid
    | scanNext listed hs =>
      rcases List.mem_append.mp hmem with hmem | hmem
      · exact hstop _ _ _ hmem hid hpid
      · obtain ⟨id, heq⟩ := hs _ hmem
        cases heq
    | reboot => simp at hmem
    | _ => exact hstop _ _ _ hmem hid hpid

/-- **stop signals its own container**: if no process comes to life with the pid a signal goes to
while a running record of the container, or a stop of it under way, holds it, then whatever
process the signal reaches was started for the container the lookup has found, and no signal
goes to a group of processes. -/
theorem signals_own {caller : Option ContainerInfo} {waited : Bool}
    (h : (machine env bs).Reach (NoReuse info.id info.pid) w)
    (hmem : .stopping caller info waited ∈ w.actors) :
    0 < info.pid ∧ info.pid ∉ w.others ∧
      ∀ i, .inst i ∈ w.actors → Actor.pid (.inst i) = some info.pid → i.info.id = info.id := by
  obtain ⟨hsound, hown⟩ := reach_invariant (I := Own info.id info.pid) (fun file _ => .boot file)
    (fun _ _ _ _ hw hi hc hm => hi.move hw.stores hm hc) h
  obtain ⟨hothers, hinsts⟩ := hown.stopping _ _ _ hmem rfl rfl
  exact ⟨(hsound.ok _ hmem).2.2, hothers, hinsts⟩

/-- What `stop` holds of a container that runs with the pid 4711. -/
def runningInfo : ContainerInfo :=
  { stopedInfo with
    pid := 4711, stopTime := 0, startTime := 0, status := .running, abnormalStoped := 1 }

/-- A container is started and, beside other processes, stopped; it does not go at once. -/
def stoppedOnce : List Action :=
  [.newProcess 4700, .command (.start "web".toList), .turn 0 (.next 1700000100 true),
    .turn 0 (.launch 4711), .turn 0 (.next 1700000101 true), .newProcess 4712,
    .command (.stop "web".toList), .turn 1 (.next 1700000110 true),
    .turn 1 (.next 1700000110 true)]

theorem signals_own_stoppedOnce :
    ∃ w, (machine fullHost oneBirth).runs (World.boot oneContainer) stoppedOnce = some w ∧
      .stopping none runningInfo true ∈ w.actors ∧ runningInfo.pid ∉ w.others ∧
      ∀ i, .inst i ∈ w.actors → Actor.pid (.inst i) = some runningInfo.pid →
        i.info.id = runningInfo.id := by
  obtain ⟨w, hw, hmem⟩ : ∃ w, (machine fullHost oneBirth).runs (World.boot oneContainer)
      stoppedOnce = some w ∧ decide (.stopping none runningInfo true ∈ w.actors) = true :=
    Option.map_eq_some_iff.mp (by decide :
      ((machine fullHost oneBirth).runs (World.boot oneContainer) stoppedOnce).map
        (fun w => decide (.stopping none runningInfo true ∈ w.actors)) = some true)
  have hmem := of_decide_eq_true hmem
  have hown := signals_own (boot_one.runs (Machine.meets_of_check (by decide)) hw) hmem
  exact ⟨w, hw, hmem, hown.2⟩

/-- The machine is rebooted while a container runs, and its pid goes to another process. -/
def rebooted : List Action :=
  [.command (.start "web".toList), .turn 0 (.next 1700000100 true), .turn 0 (.launch 4711),
    .turn 0 (.next 1700000101 true), .reboot, .newProcess 4711, .command (.stop "web".toList),
    .turn 0 (.next 1700000300 true)]

theorem signals_stranger :
    ¬ ∀ w, (machine fullHost oneBirth).Reach (fun _ _ => True) w →
      ∀ caller info waited, .stopping caller info waited ∈ w.actors → info.pid ∉ w.others := by
  intro h
  obtain ⟨w, hw, hmem⟩ : ∃ w, (machine fullHost oneBirth).runs (World.boot oneContainer)
      rebooted = some w ∧
      decide (.stopping none runningInfo false ∈ w.actors ∧ runningInfo.pid ∈ w.others) = true :=
    Option.map_eq_some_iff.mp (by decide :
      ((machine fullHost oneBirth).runs (World.boot oneContainer) rebooted).map
        (fun w => decide (.stopping none runningInfo false ∈ w.actors ∧
          runningInfo.pid ∈ w.others)) = some true)
  obtain ⟨hmem, hpid⟩ := of_decide_eq_true hmem
  exact h w (boot_one.runs (Machine.meets_true _ _) hw) _ _ _ hmem hpid

end Hoststack.StopSignals
