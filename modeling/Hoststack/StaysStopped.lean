import Hoststack.LiveInstance

/-!
Whether a container that has come to rest stays there.

A monitor reports the exit of its process last of all, and the supervisor takes a running
record without a process for a crash. A container at rest is left alone when its exit is
reported before the supervisor tests the process again, and nothing else is done to the
container between that test and the start.
-/

namespace Hoststack.StaysStopped

open ContainerFs StoreInv RecordMap Lifecycle Moves LiveInstance

/-- A process of the container has exited, and its monitor has still to report it. -/
def exited (c : Str) : Actor → Bool
  | .inst i => i.info.id = c && !i.init.alive && i.monitor.alive
  | _ => false

/-- A thread of the supervisor is about to start the container, or a process of it lives. -/
def wants (c : Str) : Actor → Bool
  | .restarting info => info.id = c
  | .startContainer false id => id = c
  | .starting false info => info.id = c
  | .inst i => i.info.id = c && i.init.alive
  | _ => false

/-- No exit is to be reported. -/
def noneDue : Actor → Bool
  | .inst i => i.init.alive || !i.monitor.alive
  | _ => true

/-- If the process is alive, so is its monitor. -/
def attended : Actor → Bool
  | .inst i => !i.init.alive || i.monitor.alive
  | _ => true

/-- What each process has to wait for. A start command: that nothing else starts the container.
The report of an exit: that no recorded process of the container lives. The test of the
process by a thread of the supervisor: that nothing else starts the container, that its record
is still as it was read, and that no exit of it has to be reported. A signal: that the monitor
of the process lives. The death of a monitor: that its process lives, is recorded, and has not
been signalled. -/
def Timely (w : World) : Label → Actor → Prop
  | .next time _, .startContainer true containerName =>
    ∀ info ∈ (w.lookup ⟨w.proc, time⟩ containerName).2, info.status ≠ .running →
      ∀ a ∈ w.actors, opens true info.id a = false
  | .next _ _, .inst i =>
    i.monitor = .unmounted → ∀ a ∈ w.actors, attached i.info.id a = false
  | .next _ _, .rechecking info =>
    w.proc info.pid = false → recordOf w.file info.id = some info ∧
      ∀ a ∈ w.actors, opens true info.id a = false ∧ exited info.id a = false
  | .next _ _, .stopping _ info _ =>
    ∀ a ∈ w.actors, a.pid = some info.pid → attended a = true
  | .killed, .inst i => i.init.alive = true ∧ i.recorded = true ∧ i.signalled = false
  | _, _ => True

/-- Every process that moves meets the condition, and there is no reboot while an exit has to
be reported. -/
def Orderly (w : World) : Action → Prop
  | .turn n l => ∀ a ∈ w.actors[n]?, Timely w l a
  | .reboot => ∀ a ∈ w.actors, noneDue a = true
  | _ => True

instance (w : World) (l : Label) (a : Actor) : Decidable (Timely w l a) :=
  match l, a with
  | .next time _, .startContainer true containerName =>
    inferInstanceAs (Decidable (∀ info ∈ (w.lookup ⟨w.proc, time⟩ containerName).2, _))
  | .next _ _, .inst i => inferInstanceAs (Decidable (i.monitor = .unmounted → _))
  | .next _ _, .rechecking info => inferInstanceAs (Decidable (w.proc info.pid = false → _))
  | .next _ _, .stopping _ info _ =>
    inferInstanceAs (Decidable (∀ a ∈ w.actors, a.pid = some info.pid → attended a = true))
  | .killed, .inst _ => inferInstanceAs (Decidable (_ ∧ _))
  | .next _ _, .startContainer false _ | .next _ _, .starting _ _ | .next _ _, .stop _ _
  | .next _ _, .removeContainer _ _ | .next _ _, .removing _ _ | .next _ _, .resolving _
  | .next _ _, .asleep _ | .next _ _, .restarting _ | .next _ _, .done
  | .killed, .startContainer _ _ | .killed, .starting _ _ | .killed, .stop _ _
  | .killed, .stopping _ _ _ | .killed, .removeContainer _ _ | .killed, .removing _ _
  | .killed, .resolving _ | .killed, .asleep _ | .killed, .rechecking _ | .killed, .restarting _
  | .killed, .done | .launch _, _ | .init _, _ | .exit, _ | .orphan, _ =>
    inferInstanceAs (Decidable True)

instance (w : World) (act : Action) : Decidable (Orderly w act) :=
  match act with
  | .turn n l => inferInstanceAs (Decidable (∀ a ∈ w.actors[n]?, Timely w l a))
  | .reboot => inferInstanceAs (Decidable (∀ a ∈ w.actors, noneDue a = true))
  | .command _ | .scan | .scanNext | .newProcess _ | .endProcess _ =>
    inferInstanceAs (Decidable True)

/-- The process or thread has nothing to do, for now. -/
def settled : Actor → Bool
  | .inst i =>
    match i.monitor with
    | .relaying => i.init = .running
    | .finished => true
    | .dead => true
    | _ => false
  | .done => true
  | _ => false

variable {bs : List Birth} {env : Env} {proc : Int32 → Bool} {sh sh' : Shared} {a a' : Actor}
  {l : Label} {i : Instance} {info : ContainerInfo} {c : Str} {w w' : World} {act : Action}

/-! ### Monitors -/

/-- A live process has not been recorded yet, or its monitor waits for it, or has died without
a signal having been sent. -/
def Minded (i : Instance) : Prop :=
  i.init.alive = true → i.monitor = .starting ∨
    i.recorded = true ∧ (i.monitor = .relaying ∨ i.monitor = .dead ∧ i.signalled = false)

lemma Minded.monitor_alive (h : Minded i) (ha : i.init.alive = true)
    (hs : i.signalled = true) : i.monitor.alive = true := by
  rcases h ha with hm | ⟨-, hm | ⟨-, hn⟩⟩
  · rw [hm]; rfl
  · rw [hm]; rfl
  · rw [hs] at hn; cases hn

lemma Minded.signalled (h : Minded i) (ha : attended (.inst i) = true) :
    Minded { i with signalled := true } := by
  intro hi
  rcases h hi with hm | ⟨hr, hm | ⟨hm, -⟩⟩
  · exact Or.inl hm
  · exact Or.inr ⟨hr, Or.inl hm⟩
  · have hi' : i.init.alive = true := hi
    simp [attended, hm, hi', MonitorState.alive] at ha

lemma Minded.turn (h : ∀ j, a = .inst j → Minded j) (hc : Timely w l a)
    (ht : Turn env proc sh a l sh' (.inst i)) : Minded i := by
  generalize ha' : Actor.inst i = a' at ht
  cases ht with
  | launches => cases ha'; exact fun _ => Or.inl rfl
  | stopMisses => cases ‹Option ContainerInfo› <;> cases ha'
  | stopEnds => cases ‹Option ContainerInfo› <;> cases ha'
  | @mounts j _ _ _ _ hi =>
    cases ha'
    exact fun _ => h j rfl (by simp [hi, InitState.alive])
  | @execs j _ hi =>
    cases ha'
    exact fun _ => h j rfl (by simp [hi, InitState.alive])
  | fails => cases ha'; exact fun hi => by cases hi
  | exits => cases ha'; exact fun hi => by cases hi
  | monitorDies =>
    cases ha'
    exact fun _ => Or.inr ⟨hc.2.1, Or.inr ⟨rfl, hc.2.2⟩⟩
  | reapsOrphan => cases ha'; exact fun hi => by cases hi
  | callsBack => cases ha'; exact fun _ => Or.inr ⟨rfl, Or.inl rfl⟩
  | reaps => cases ha'; exact fun hi => by cases hi
  | umountsTable hm | umountsNoTable hm | umountsVolumes hm | umountsUndefined hm
  | umountsNoVolumes hm | marks hm | marksNone hm =>
    cases ha'
    intro hi
    rcases h _ rfl hi with hs | ⟨-, hs | ⟨hs, -⟩⟩ <;> rw [hm] at hs <;> cases hs
  | _ => cases ha'

/-! ### Exits -/

@[simp] lemma wants_signal (pid : Int32) (a : Actor) : wants c (a.signal pid) = wants c a := by
  cases a with
  | inst i => simp only [Actor.signal]; split_ifs <;> rfl
  | _ => rfl

@[simp] lemma exited_signal (pid : Int32) (a : Actor) : exited c (a.signal pid) = exited c a := by
  cases a with
  | inst i => simp only [Actor.signal]; split_ifs <;> rfl
  | _ => rfl

lemma claims_of_wants (h : wants c a) : claims true c a := by
  cases a with
  | inst i =>
    obtain ⟨hid, ha⟩ : i.info.id = c ∧ i.init.alive = true := by simpa [wants] using h
    exact claims_inst.mpr ⟨hid, Or.inr ha⟩
  | starting explicit info =>
    cases explicit with
    | true => cases h
    | false => simpa [claims, opens, attached, wants] using h
  | startContainer explicit name =>
    cases explicit with
    | true => cases h
    | false => simpa [claims, opens, attached, wants] using h
  | restarting info => simpa [claims, opens, attached, wants] using h
  | _ => cases h

lemma halted_die (h : (die sh i).1.halted c = true) :
    sh.halted c = true ∨
      i.info.id = c ∧ (i.monitor.alive = true ∨ i.signalled = true) := by
  simp only [die] at h
  split_ifs at h with hd
  · by_cases hid : c = i.info.id
    · exact Or.inr ⟨hid.symm, by simpa using hd⟩
    · rw [Function.update_of_ne hid] at h
      exact Or.inl h
  · exact Or.inl h

/-- A container comes to rest when a process of it exits; one that was at rest has not been
started by a command. -/
lemma halted_turn (ht : Turn env proc sh a l sh' a') (h : sh'.halted c = true) :
    (sh.halted c = true ∧ ∀ info i, a = .starting true info → a' = .inst i → i.info.id ≠ c) ∨
      ∃ i, a = .inst i ∧ i.info.id = c ∧ i.init.alive = true ∧
        (i.monitor.alive = true ∨ i.signalled = true) ∧
        a' = .inst { i with init := .zombie } := by
  cases ht with
  | quits _ hq => exact Or.inl ⟨hq.halted ▸ h, by simp⟩
  | starts hl => exact Or.inl ⟨hl.halted ▸ h, by simp⟩
  | @launches explicit info pid =>
    cases explicit with
    | true =>
      by_cases hid : c = info.id
      · subst hid
        simp [launch] at h
      · simp only [launch, if_true, Function.update_of_ne hid] at h
        refine Or.inl ⟨h, fun _ i _ hi => ?_⟩
        cases hi
        exact fun heq => hid heq.symm
    | false => exact Or.inl ⟨h, fun _ _ hs => by cases hs⟩
  | stopMisses hq => exact Or.inl ⟨hq.halted ▸ h, by simp⟩
  | stopFinds hl => exact Or.inl ⟨hl.halted ▸ h, by simp⟩
  | removeStops hq => exact Or.inl ⟨hq.halted ▸ h, by simp⟩
  | removes hq => exact Or.inl ⟨hq.halted ▸ h, by simp⟩
  | deletes _ _ hh => exact Or.inl ⟨hh ▸ h, by simp⟩
  | restarts hs => exact Or.inl ⟨hs.halted ▸ h, by simp⟩
  | @fails j _ _ _ _ hi =>
    rcases halted_die h with h | ⟨hid, hm⟩
    · exact Or.inl ⟨h, by simp⟩
    · exact Or.inr ⟨j, rfl, hid, by simp [hi, InitState.alive], hm, rfl⟩
  | @exits j _ ha =>
    rcases halted_die h with h | ⟨hid, hm⟩
    · exact Or.inl ⟨h, by simp⟩
    · exact Or.inr ⟨j, rfl, hid, ha, hm, rfl⟩
  | callsBack _ _ _ hh => exact Or.inl ⟨hh ▸ h, by simp⟩
  | umountsVolumes _ hl => exact Or.inl ⟨hl.halted ▸ h, by simp⟩
  | umountsUndefined _ hl => exact Or.inl ⟨hl.halted ▸ h, by simp⟩
  | umountsNoVolumes _ hl => exact Or.inl ⟨hl.halted ▸ h, by simp⟩
  | marks _ hs => exact Or.inl ⟨hs.halted ▸ h, by simp⟩
  | marksNone _ hs => exact Or.inl ⟨hs.halted ▸ h, by simp⟩
  | _ => exact Or.inl ⟨h, by simp⟩

/-- Nothing is recorded as running. -/
def NotRunning (file : DataFile) (c : Str) : Prop :=
  ∀ info, recordOf file c = some info → info.status ≠ .running

lemma exited_turn (hno : NoAlias bs) (hst : Stores bs sh.file) (hok : Ok bs a)
    (hc : Timely w l a)
    (ht : Turn env proc sh a l sh' a') (h : exited c a = true) :
    exited c a' = true ∨ NotRunning sh'.file c := by
  cases a with
  | inst i =>
    obtain ⟨hid, ha, hm⟩ : i.info.id = c ∧ i.init.alive = false ∧ i.monitor.alive = true := by
      simpa [exited, and_assoc] using h
    subst hid
    cases ht with
    | quits hne => exact absurd rfl (hne i)
    | mounts hi => simp [hi, InitState.alive] at ha
    | execs hi => simp [hi, InitState.alive] at ha
    | fails hi => simp [hi, InitState.alive] at ha
    | exits hi => rw [hi] at ha; cases ha
    | monitorDies => rw [hc.1] at ha; cases ha
    | reapsOrphan _ hm' => rw [hm] at hm'; cases hm'
    | callsBack => exact Or.inl (by simp [exited, ha, MonitorState.alive])
    | reaps => exact Or.inl (by simp [exited, InitState.alive, MonitorState.alive])
    | umountsTable => exact Or.inl (by simp [exited, ha, MonitorState.alive])
    | umountsNoTable => exact Or.inl (by simp [exited, ha, MonitorState.alive])
    | umountsVolumes => exact Or.inl (by simp [exited, ha, MonitorState.alive])
    | umountsUndefined => exact Or.inl (by simp [exited, ha, MonitorState.alive])
    | umountsNoVolumes _ hl =>
      refine Or.inr fun info hinfo => ?_
      rw [hl.none_id hst] at hinfo
      cases hinfo
    | marks _ hs =>
      refine Or.inr fun info hinfo => ?_
      obtain ⟨info₀, hrec⟩ := hs.stopped_id hno hst ⟨_, hok.1, rfl⟩
      rw [hrec] at hinfo
      cases hinfo
      simp [RecordMap.stop]
    | marksNone _ hs =>
      refine Or.inr fun info hinfo => ?_
      rw [hs.none_id hst] at hinfo
      cases hinfo
  | _ => cases h

/-- A step comes to want a container only by the test of a thread of the supervisor, or by a
start command. -/
lemma wants_turn (hno : NoAlias bs) (hst : Stores bs sh.file) (hok : Ok bs a)
    (ht : Turn env proc sh a l sh' a') (h : wants c a' = true) :
    wants c a = true ∨
      (∃ info time ok, a = .rechecking info ∧ l = .next time ok ∧ proc info.pid = false ∧
        info.id = c) ∨
      ∃ info i, a = .starting true info ∧ a' = .inst i ∧ i.info.id = c := by
  cases ht with
  | quits => cases h
  | @starts explicit _ _ _ info _ hl =>
    cases explicit with
    | true => cases h
    | false =>
      have hid := lookup_id hno hst (hok rfl) (congrArg Prod.snd hl.run)
      exact Or.inl (by simpa [wants, hid] using h)
  | @launches explicit info pid =>
    cases explicit with
    | true =>
      refine Or.inr (Or.inr ⟨_, _, rfl, rfl, ?_⟩)
      simpa [wants, launch, InitState.alive] using h
    | false => exact Or.inl (by simpa [wants, launch, InitState.alive] using h)
  | stopMisses => cases ‹Option ContainerInfo› <;> cases h
  | stopEnds => cases ‹Option ContainerInfo› <;> cases h
  | tests hp => exact Or.inr (Or.inl ⟨_, _, _, rfl, rfl, hp, by simpa [wants] using h⟩)
  | restarts => exact Or.inl h
  | mounts hi => exact Or.inl (by simpa [wants, hi, InitState.alive] using h)
  | execs hi => exact Or.inl (by simpa [wants, hi, InitState.alive] using h)
  | fails => simp [wants, die, InitState.alive] at h
  | exits => simp [wants, die, InitState.alive] at h
  | reapsOrphan => simp [wants, InitState.alive] at h
  | reaps => simp [wants, InitState.alive] at h
  | monitorDies | callsBack | umountsTable | umountsNoTable | umountsVolumes | umountsUndefined
  | umountsNoVolumes | marks | marksNone => exact Or.inl h
  | _ => cases h

/-! ### Orderly moves -/

/-- The claims stay exclusive, a thread of the supervisor counted from its test on. -/
lemma excl_move (he : Excl true w) (hno : NoAlias bs) (hw : Sound bs w)
    (hm : Move env w act w') (hc : Orderly w act) : Excl true w' := by
  have hmove := hm
  cases hm with
  | @turn n l a a' sh' ha ht =>
    have hmem := List.mem_of_getElem? ha
    have hok := hw.ok a hmem
    refine he.turn ha ht ?_ ?_ ?_
    · rintro explicit name time ok info rfl rfl hl hs
      cases explicit with
      | true => exact Or.inr (hc _ ha info (by rw [hl.run]; rfl) hs)
      | false =>
        have hid := lookup_id hno hw.stores (hok rfl) (congrArg Prod.snd hl.run)
        exact Or.inl (by simp [claims, opens, hid])
    · rintro - info time ok rfl rfl hp b hb
      obtain ⟨hrec, hothers⟩ := hc _ ha hp
      have hat : attached info.id b = false := by
        by_contra hat
        cases b with
        | inst i =>
          obtain ⟨hid, hr, hi⟩ : i.info.id = info.id ∧ i.recorded = true ∧
              i.init.alive = true := by simpa [attached] using hat
          rw [← hid] at hrec
          rw [(he.record i hb hr hi info hrec).2, proc_of_alive hb hi] at hp
          cases hp
        | _ => exact hat rfl
      rw [claims, (hothers b hb).1, hat]
      rfl
    · rintro time ok value rfl (⟨info, rfl, rfl⟩ | ⟨i, rfl, hmon, rfl⟩) info' hinfo' b hb
      · have hid : info'.id = info.id := lookup_id hno hw.stores ⟨_, hok, rfl⟩ hinfo'
        rw [hid]
        by_contra hat
        have hclaim : claims true info.id b := by
          rw [Bool.not_eq_false] at hat
          simp [claims, hat]
        have hsame := (he.one info.id).eq hmem hb (by simp [claims, opens]) hclaim
        rw [← hsame] at hat
        exact hat rfl
      · have hid : info'.id = i.info.id := lookup_id hno hw.stores ⟨_, hok.1, rfl⟩ hinfo'
        rw [hid]
        exact hc _ ha hmon b hb
  | _ => exact he.other hmove fun _ _ h => by cases h

/-- Claims are exclusive, monitors mind their processes, and what has come to rest is wanted by
nobody, its exit still to be reported or its record not running. -/
structure Rest (w : World) : Prop where
  excl : Excl true w
  minded : ∀ i, .inst i ∈ w.actors → Minded i
  wanted : ∀ c, w.halted c = true → ∀ a ∈ w.actors, wants c a = false
  reported : ∀ c, w.halted c = true →
    (∃ a ∈ w.actors, exited c a = true) ∨ NotRunning w.file c

lemma Rest.boot (file : DataFile) : Rest (World.boot file) where
  excl := .boot file
  minded i hi := by simp [World.boot] at hi
  wanted c h := by simp [World.boot] at h
  reported c h := by simp [World.boot] at h

lemma Rest.minded_move (h : Rest w) (hm : Move env w act w') (hc : Orderly w act) :
    ∀ i, .inst i ∈ w'.actors → Minded i := by
  cases hm with
  | command c =>
    intro i hi
    rcases List.mem_append.mp hi with hi | hi
    · exact h.minded i hi
    · cases c <;> simp [Command.actor] at hi
  | @turn n l a a' sh' ha ht =>
    intro i hi
    have hca := hc _ ha
    rcases List.mem_or_eq_of_mem_set hi with hi | rfl
    · obtain ⟨j, hj, rfl | ⟨rfl, pid, hk, hp⟩⟩ := inst_mem_signalled hi
      · exact h.minded _ hj
      · obtain ⟨_, _, _, _, _, rfl, rfl, rfl⟩ := kills_eq_some hk
        exact (h.minded j hj).signalled (hca _ hj hp)
    · exact Minded.turn (fun j hj => h.minded j (hj ▸ List.mem_of_getElem? ha)) hca ht
  | scanNext listed hs =>
    intro i hi
    rcases List.mem_append.mp hi with hi | hi
    · exact h.minded i hi
    · obtain ⟨id, heq⟩ := hs _ hi
      cases heq
  | reboot => intro i hi; simp at hi
  | _ => exact h.minded

lemma NotRunning.turn (h : NotRunning sh.file c) (ht : Turn env proc sh a l sh' a') :
    NotRunning sh'.file c ∨ ∃ i, a = .inst i ∧ i.monitor = .starting ∧ i.info.id = c := by
  cases touches_turn ht c with
  | kept heq => exact Or.inl fun info hinfo => h info (heq ▸ hinfo)
  | repaired h₀ h' =>
    refine Or.inl fun info hinfo hs => ?_
    rw [h'] at hinfo
    cases hinfo
    exact h _ h₀ (repair_running hs).2.1
  | deleted h' => exact Or.inl fun info hinfo => by rw [h'] at hinfo; cases hinfo
  | written ha hm hid => exact Or.inr ⟨_, ha, hm, hid⟩
  | stopped _ _ _ _ _ _ h' =>
    refine Or.inl fun info hinfo hs => ?_
    rw [h'] at hinfo
    cases hinfo
    cases hs

lemma Rest.wanted_turn (h : Rest w) (hno : NoAlias bs) (hw : Sound bs w) {n : ℕ}
    (ha : w.actors[n]? = some a) (ht : Turn env w.proc w.toShared a l sh' a')
    (hc : Timely w l a) (hh : sh'.halted c = true) :
    ∀ b ∈ (w.signalled (a.kills l)).set n a', wants c b = false := by
  have hmem := List.mem_of_getElem? ha
  rcases halted_turn ht hh with ⟨hold, hstart⟩ | ⟨i, rfl, hid, hi, -, rfl⟩
  · refine Pool.forall_set (forall_signalled (P := fun b => wants c b = false)
      (fun pid b hb => by rw [wants_signal]; exact hb) (h.wanted c hold) _) ?_
    by_contra hwant
    rw [Bool.not_eq_false] at hwant
    rcases wants_turn hno hw.stores (hw.ok a hmem) ht hwant with hwa |
        ⟨info, time, ok, rfl, rfl, hp, rfl⟩ | ⟨info, i, rfl, rfl, hid⟩
    · rw [h.wanted c hold a hmem] at hwa
      cases hwa
    · -- the test comes while the exit is still to be reported, or after the report
      obtain ⟨hrec, hothers⟩ := hc hp
      rcases h.reported _ hold with ⟨b, hb, hex⟩ | hnot
      · rw [(hothers b hb).2] at hex
        cases hex
      · exact hnot info hrec (hw.ok _ hmem).2
    · exact hstart info i rfl rfl hid
  · -- another one that wants the container would have claimed it
    intro b hb
    by_contra hwant
    rw [Bool.not_eq_false] at hwant
    have hone : Pool.AtMostOne (claims true c) (w.signalled ((Actor.inst i).kills l)) :=
      h.excl.one c
    have hself := hone.eq_of_mem_set (getElem?_signalled ha l)
      (claims_inst.mpr ⟨hid, Or.inr hi⟩) hb (claims_of_wants hwant)
    rw [hself] at hwant
    simp [wants, InitState.alive] at hwant

lemma Rest.reported_turn (h : Rest w) (hno : NoAlias bs)
    (hw : Sound bs w) {n : ℕ}
    (ha : w.actors[n]? = some a) (ht : Turn env w.proc w.toShared a l sh' a')
    (hc : Timely w l a) (hh : sh'.halted c = true) :
    (∃ b ∈ (w.signalled (a.kills l)).set n a', exited c b = true) ∨ NotRunning sh'.file c := by
  have hmem := List.mem_of_getElem? ha
  have ha' := getElem?_signalled ha l
  rcases halted_turn ht hh with ⟨hold, -⟩ | ⟨i, rfl, rfl, hi, hm, rfl⟩
  · rcases h.reported c hold with ⟨b, hb, hex⟩ | hnot
    · obtain ⟨b', hb', hex'⟩ : ∃ b' ∈ w.signalled (a.kills l), exited c b' = true := by
        rcases hk : a.kills l with _ | pid
        · exact ⟨b, hb, hex⟩
        · exact ⟨_, List.mem_map_of_mem hb, by rw [exited_signal]; exact hex⟩
      rcases Pool.mem_set_of_mem (x := a') ha' hb' with rfl | hb'
      · exact (exited_turn hno hw.stores (hw.ok _ hmem) hc ht hex').imp_left
          fun hex => ⟨a', Pool.mem_set_self ha', hex⟩
      · exact Or.inl ⟨b', hb', hex'⟩
    · rcases hnot.turn ht with hnot | ⟨i, rfl, hmon, rfl⟩
      · exact Or.inr hnot
      · -- the callback of a process that has exited already
        rcases hi : i.init.alive with _ | _
        · have hex : exited i.info.id (.inst i) = true := by
            simp [exited, hi, hmon, MonitorState.alive]
          exact (exited_turn hno hw.stores (hw.ok _ hmem) hc ht hex).imp_left
            fun hex => ⟨a', Pool.mem_set_self ha', hex⟩
        · have hwant := h.wanted _ hold _ hmem
          simp [wants, hi] at hwant
  · refine Or.inl ⟨_, Pool.mem_set_self ha', ?_⟩
    have hmon : i.monitor.alive = true :=
      hm.elim id fun hs => (h.minded i hmem).monitor_alive hi hs
    simp [exited, hmon, InitState.alive]

lemma Rest.move (h : Rest w) (hno : NoAlias bs)
    (hw : Sound bs w)
    (hm : Move env w act w') (hc : Orderly w act) : Rest w' := by
  refine ⟨excl_move h.excl hno hw hm hc, h.minded_move hm hc, ?_, ?_⟩
  · intro c hh
    cases hm with
    | command cmd =>
      refine Pool.forall_append (h.wanted c hh) fun b hb => ?_
      rw [List.mem_singleton.mp hb]
      cases cmd <;> rfl
    | turn ha ht => exact h.wanted_turn hno hw ha ht (hc _ ha) hh
    | scanNext listed hs =>
      refine Pool.forall_append (h.wanted c hh) fun b hb => ?_
      obtain ⟨id, rfl⟩ := hs b hb
      rfl
    | reboot => intro b hb; simp at hb
    | _ => exact h.wanted c hh
  · intro c hh
    cases hm with
    | command cmd =>
      exact (h.reported c hh).imp_left fun ⟨b, hb, hex⟩ =>
        ⟨b, List.mem_append_left _ hb, hex⟩
    | turn ha ht => exact h.reported_turn hno hw ha ht (hc _ ha) hh
    | scanNext listed hs =>
      exact (h.reported c hh).imp_left fun ⟨b, hb, hex⟩ =>
        ⟨b, List.mem_append_left _ hb, hex⟩
    | reboot =>
      rcases h.reported c hh with ⟨b, hb, hex⟩ | hnot
      · cases b with
        | inst i =>
          have hrep := hc _ hb
          obtain ⟨-, hi, hmon⟩ : i.info.id = c ∧ i.init.alive = false ∧
              i.monitor.alive = true := by simpa [exited, and_assoc] using hex
          simp [noneDue, hi, hmon] at hrep
        | _ => cases hex
      · exact Or.inr hnot
    | _ => exact h.reported c hh

/-- **A stopped container stays stopped**: where every process waits for what it has to wait
for, the supervisor is never about to start a container that has come to rest, and when
nothing is left to do no container with a live process is recorded as stopped. -/
theorem stays_stopped (hno : NoAlias bs)
    (h : (machine env bs).Reach Orderly w) :
    (∀ info, .starting false info ∈ w.actors → w.halted info.id = false) ∧
      ((∀ a ∈ w.actors, settled a = true) → ∀ i, .inst i ∈ w.actors → i.init.alive = true →
        ∀ info, recordOf w.file i.info.id = some info → info.status ≠ .stoped) := by
  obtain ⟨-, hrest⟩ := reach_invariant (I := Rest) (fun file _ => .boot file)
    (fun _ _ _ _ hw hi hc hm => hi.move hno hw hm hc) h
  refine ⟨fun info hmem => ?_, fun hsettled i hi ha info hinfo => ?_⟩
  · by_contra hh
    rw [Bool.not_eq_false] at hh
    have := hrest.wanted _ hh _ hmem
    simp [wants] at this
  · have hset := hsettled _ hi
    have hr : i.recorded = true := by
      rcases hrest.minded i hi ha with hm | ⟨hr, -⟩
      · simp [settled, hm] at hset
      · exact hr
    rw [(hrest.excl.record i hi hr ha info hinfo).1]
    simp

/-- A container is started and stopped, its exit is reported, and the supervisor looks. -/
def stoppedAndReported : List Action :=
  [.command (.start "web".toList), .turn 0 (.next 1700000100 true), .turn 0 (.launch 4711),
    .turn 0 (.next 1700000101 true), .scan, .command (.stop "web".toList),
    .turn 1 (.next 1700000110 true), .turn 1 (.next 1700000110 true), .turn 0 .exit,
    .turn 0 (.next 1700000111 true), .turn 0 (.next 1700000112 true),
    .turn 0 (.next 1700000113 true), .turn 0 (.next 1700000114 true), .scanNext,
    .turn 2 (.next 1700000116 true), .turn 1 (.next 1700000113 true)]

theorem stays_stopped_reported :
    ∃ w, (machine fullHost oneBirth).runs (World.boot oneContainer) stoppedAndReported = some w ∧
      w.halted "c1".toList = true ∧
      ∀ info, .starting false info ∈ w.actors → w.halted info.id = false := by
  obtain ⟨w, hw, hhalted⟩ : ∃ w, (machine fullHost oneBirth).runs (World.boot oneContainer)
      stoppedAndReported = some w ∧ w.halted "c1".toList = true :=
    Option.map_eq_some_iff.mp (by decide :
      ((machine fullHost oneBirth).runs (World.boot oneContainer) stoppedAndReported).map
        (fun w => w.halted "c1".toList) = some true)
  have hstays := stays_stopped (by decide)
    (boot_one.runs (Machine.meets_of_check (by decide)) hw)
  exact ⟨w, hw, hhalted, hstays.1⟩

/-- The supervisor is about to start a container that has come to rest. -/
def disturbs (w : World) : Bool :=
  w.actors.any fun
    | .starting false info => w.halted info.id
    | _ => false

/-- The exit is not reported before a thread of the supervisor has tested the process. -/
def reportedLate : List Action :=
  [.command (.start "web".toList), .turn 0 (.next 1700000100 true), .turn 0 (.launch 4711),
    .turn 0 (.next 1700000101 true), .turn 0 .exit, .turn 0 (.next 1700000110 true), .scan,
    .scanNext, .turn 1 (.next 1700000113 true), .turn 1 (.next 1700000113 true),
    .turn 1 (.next 1700000113 true), .turn 1 (.next 1700000113 true)]

theorem restarts_stopped :
    ¬ ∀ w, (machine fullHost oneBirth).Reach (fun _ _ => True) w →
      ∀ info, .starting false info ∈ w.actors → w.halted info.id = false := by
  intro h
  obtain ⟨w, hw, hdist⟩ : ∃ w, (machine fullHost oneBirth).runs (World.boot oneContainer)
      reportedLate = some w ∧ disturbs w = true :=
    Option.map_eq_some_iff.mp (by decide :
      ((machine fullHost oneBirth).runs (World.boot oneContainer) reportedLate).map disturbs =
        some true)
  obtain ⟨a, ha, hdist⟩ := List.any_eq_true.mp hdist
  split at hdist
  · rw [h w (boot_one.runs (Machine.meets_true _ _) hw) _ ha] at hdist
    cases hdist
  · cases hdist

end Hoststack.StaysStopped
