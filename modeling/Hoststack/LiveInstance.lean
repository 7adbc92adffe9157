import Hoststack.Moves

/-!
How many live processes a container has.

A start looks the record up, finds it not running, and writes it as running after the clone,
in the callback. Between the two it claims the container, and a live process that has been
recorded claims it as well. Where no start begins while another is under way, and no status
is changed behind the back of a live process, a container is claimed once at most.
-/

namespace Hoststack.LiveInstance

open ContainerFs StoreInv RecordMap Lifecycle Moves

/-- A live process of the container. -/
def live (c : Str) : Actor → Bool
  | .inst i => i.info.id = c && i.init.alive
  | _ => false

/-- A live process of the container that the callback has recorded. -/
def attached (c : Str) : Actor → Bool
  | .inst i => i.info.id = c && i.recorded && i.init.alive
  | _ => false

/-- A start of the container is under way. A thread of the supervisor counts from its lookup
on, or, for `windows`, from its test of the process on. -/
def opens (windows : Bool) (c : Str) : Actor → Bool
  | .starting _ info => info.id = c
  | .inst i => i.info.id = c && (i.monitor = .starting || !i.recorded && i.init.alive)
  | .restarting info => windows && info.id = c
  | .startContainer false id => windows && id = c
  | _ => false

def claims (windows : Bool) (c : Str) (a : Actor) : Bool := opens windows c a || attached c a

/-- No container that the value resolves to has a live process that is recorded. -/
def Unattached (w : World) (time : Int64) (value : Str) : Prop :=
  ∀ info ∈ (w.lookup ⟨w.proc, time⟩ value).2, ∀ a ∈ w.actors, attached info.id a = false

/-- A start goes on with a container only if no other start of it is under way, and the status
is changed to stopped only for containers without a live process that is recorded. -/
def Alone (w : World) (time : Int64) : Actor → Prop
  | .startContainer _ containerName =>
    ∀ info ∈ (w.lookup ⟨w.proc, time⟩ containerName).2, info.status ≠ .running →
      ∀ a ∈ w.actors, opens false info.id a = false
  | .restarting info => Unattached w time info.id
  | .inst i => i.monitor = .unmounted → Unattached w time i.info.id
  | _ => True

/-- Every process that moves meets the condition. -/
def Exclusive (w : World) : Action → Prop
  | .turn n (.next time _) => ∀ a ∈ w.actors[n]?, Alone w time a
  | _ => True

instance (w : World) (time : Int64) (value : Str) : Decidable (Unattached w time value) :=
  inferInstanceAs (Decidable (∀ info ∈ (w.lookup ⟨w.proc, time⟩ value).2, _))

instance (w : World) (time : Int64) (a : Actor) : Decidable (Alone w time a) :=
  match a with
  | .startContainer _ containerName =>
    inferInstanceAs (Decidable (∀ info ∈ (w.lookup ⟨w.proc, time⟩ containerName).2, _))
  | .restarting info => inferInstanceAs (Decidable (Unattached w time info.id))
  | .inst i => inferInstanceAs (Decidable (i.monitor = .unmounted → Unattached w time i.info.id))
  | .starting _ _ | .stop _ _ | .stopping _ _ _ | .removeContainer _ _ | .removing _ _
  | .resolving _ | .asleep _ | .rechecking _ | .done => inferInstanceAs (Decidable True)

instance (w : World) (act : Action) : Decidable (Exclusive w act) :=
  match act with
  | .turn n (.next time _) => inferInstanceAs (Decidable (∀ a ∈ w.actors[n]?, Alone w time a))
  | .turn _ (.launch _) | .turn _ (.init _) | .turn _ .exit | .turn _ .killed | .turn _ .orphan
  | .command _ | .scan | .scanNext | .newProcess _ | .endProcess _ | .reboot =>
    inferInstanceAs (Decidable True)

/-! ### Claims -/

variable {bs : List Birth} {env : Env} {proc : Int32 → Bool} {sh sh' : Shared} {a a' : Actor}
  {l : Label} {i j : Instance} {info : ContainerInfo} {windows : Bool} {c : Str} {w w' : World}

@[simp] lemma claims_signal (pid : Int32) (a : Actor) :
    claims windows c (a.signal pid) = claims windows c a := by
  cases a with
  | inst i => simp only [Actor.signal]; split_ifs <;> rfl
  | _ => rfl

lemma live_le_claims (h : live c a) : claims windows c a := by
  cases a with
  | inst i =>
    simp only [live, Bool.and_eq_true, decide_eq_true_eq] at h
    rcases hr : i.recorded with _ | _ <;> simp [claims, opens, attached, h, hr]
  | _ => cases h

lemma claims_inst :
    claims windows c (.inst i) ↔
      i.info.id = c ∧ (i.monitor = .starting ∨ i.init.alive = true) := by
  rcases hr : i.recorded with _ | _ <;> by_cases hm : i.monitor = .starting <;>
    simp +contextual [claims, opens, attached, hr, hm]

lemma claims_afterStop {caller : Option ContainerInfo} :
    claims windows c (afterStop caller) = false := by
  cases caller <;> rfl

/-- A step comes to claim a container only by the lookup of a start, or by the test of a
thread of the supervisor. -/
lemma claims_turn (ht : Turn env proc sh a l sh' a') (h : claims windows c a') :
    claims windows c a ∨
      (∃ explicit name time ok info, a = .startContainer explicit name ∧
        l = .next time ok ∧ Looks proc sh time name (some info) sh' ∧
        info.status ≠ .running ∧ info.id = c) ∨
      (windows = true ∧ ∃ info time ok, a = .rechecking info ∧ l = .next time ok ∧
        proc info.pid = false ∧ info.id = c) := by
  cases ht with
  | quits => cases h
  | starts hl hs =>
    have hid : claims windows c (.starting _ _) := h
    exact Or.inr (Or.inl ⟨_, _, _, _, _, rfl, rfl, hl, hs,
      by simpa [claims, opens, attached] using hid⟩)
  | launches => exact Or.inl (by simpa [claims, opens, attached] using (claims_inst.mp h).1)
  | stopMisses | stopEnds =>
    rw [claims_afterStop] at h
    cases h
  | stopFinds | terminates | removeStops | removes | removesContainers | removesLayer | deletes
  | reads => cases h
  | tests hp =>
    obtain ⟨rfl, hid⟩ : windows = true ∧ _ = c := by simpa [claims, opens, attached] using h
    exact Or.inr (Or.inr ⟨rfl, _, _, _, rfl, rfl, hp, hid⟩)
  | restarts => exact Or.inl h
  | mounts hi | execs hi | fails hi =>
    refine Or.inl (claims_inst.mpr ⟨(claims_inst.mp h).1, Or.inr ?_⟩)
    rw [hi]
    rfl
  | exits ha => exact Or.inl (claims_inst.mpr ⟨(claims_inst.mp h).1, Or.inr ha⟩)
  | monitorDies =>
    obtain ⟨hid, hm | ha⟩ := claims_inst.mp h
    · cases hm
    · exact Or.inl (claims_inst.mpr ⟨hid, Or.inr ha⟩)
  | reapsOrphan =>
    obtain ⟨hid, hm | ha⟩ := claims_inst.mp h
    · exact Or.inl (claims_inst.mpr ⟨hid, Or.inl hm⟩)
    · cases ha
  | callsBack hm => exact Or.inl (claims_inst.mpr ⟨(claims_inst.mp h).1, Or.inl hm⟩)
  | reaps =>
    obtain ⟨hid, hm | ha⟩ := claims_inst.mp h
    · cases hm
    · cases ha
  | umountsTable | umountsNoTable | umountsVolumes | umountsUndefined | umountsNoVolumes | marks
  | marksNone =>
    obtain ⟨hid, hm | ha⟩ := claims_inst.mp h
    · cases hm
    · exact Or.inl (claims_inst.mpr ⟨hid, Or.inr ha⟩)

/-! ### Records of live processes -/

/-- The record, if there is one, is that of the process. -/
def RecordedAs (file : DataFile) (i : Instance) : Prop :=
  ∀ info, recordOf file i.info.id = some info → info.status = .running ∧ info.pid = i.pid

/-- A live process that is recorded after a step was live before it, and was recorded then or
has been right now. -/
lemma attached_turn (ht : Turn env proc sh a l sh' a') (h : a' = .inst i)
    (hr : i.recorded = true) (hi : i.init.alive = true) :
    ∃ j, a = .inst j ∧ i.info = j.info ∧ i.pid = j.pid ∧ j.init.alive = true ∧
      (j.recorded = true ∨ RecordedAs sh'.file i) := by
  cases ht with
  | launches => cases h; cases hr
  | stopMisses => cases ‹Option ContainerInfo› <;> cases h
  | stopEnds => cases ‹Option ContainerInfo› <;> cases h
  | mounts hm => cases h; exact ⟨_, rfl, rfl, rfl, by simp [hm, InitState.alive], Or.inl hr⟩
  | execs hm => cases h; exact ⟨_, rfl, rfl, rfl, by simp [hm, InitState.alive], Or.inl hr⟩
  | fails => cases h; cases hi
  | exits => cases h; cases hi
  | reapsOrphan => cases h; cases hi
  | reaps => cases h; cases hi
  | callsBack hm hrec =>
    cases h
    refine ⟨_, rfl, rfl, rfl, hi, Or.inr fun info hinfo => ?_⟩
    rw [hrec, Function.update_self] at hinfo
    obtain ⟨_, -, rfl⟩ := Option.map_eq_some_iff.mp hinfo
    exact ⟨rfl, rfl⟩
  | monitorDies => cases h; exact ⟨_, rfl, rfl, rfl, hi, Or.inl hr⟩
  | umountsTable | umountsNoTable | umountsVolumes | umountsUndefined | umountsNoVolumes | marks
  | marksNone =>
    cases h; exact ⟨_, rfl, rfl, rfl, hi, Or.inl hr⟩
  | _ => cases h

/-- A container is claimed once at most, and the record of a live process that is recorded says
so. -/
structure Excl (windows : Bool) (w : World) : Prop where
  one : ∀ c, Pool.AtMostOne (claims windows c) w.actors
  record : ∀ i, .inst i ∈ w.actors → i.recorded = true → i.init.alive = true →
    RecordedAs w.file i

/-- A lookup does not find a container startable that has a live process which is recorded. -/
lemma Excl.unattached_of_looks (he : Excl windows w) {time : Int64} {value : Str}
    {sh' : Shared} (hl : Looks w.proc w.toShared time value (some info) sh')
    (hs : info.status ≠ .running) : ∀ b ∈ w.actors, attached info.id b = false := by
  obtain ⟨-, info₀, hrec, rfl, -⟩ := hl.found
  intro b hb
  by_contra hat
  cases b with
  | inst i =>
    obtain ⟨hid, hr, ha⟩ : i.info.id = info₀.id ∧ i.recorded = true ∧ i.init.alive = true := by
      simpa [attached] using hat
    rw [repair_id, ← hid] at hrec
    obtain ⟨hrun, hpid⟩ := he.record i hb hr ha _ hrec
    refine hs ?_
    rw [repair_of_proc (by rw [hpid]; exact proc_of_alive hb ha)]
    exact hrun
  | _ => exact hat rfl

lemma Excl.record_turn (he : Excl windows w) {n : ℕ} (hn : w.actors[n]? = some a)
    (ht : Turn env w.proc w.toShared a l sh' a')
    (hmark : ∀ time ok value, l = .next time ok → Marking a value → Unattached w time value)
    (hi : .inst i ∈ w.actors) (hr : i.recorded = true) (ha : i.init.alive = true) :
    RecordedAs sh'.file i := by
  have hold := he.record i hi hr ha
  have hat : attached i.info.id (.inst i) = true := by simp [attached, hr, ha]
  intro info hinfo
  cases touches_turn ht i.info.id with
  | kept h => exact hold info (h ▸ hinfo)
  | repaired h h' =>
    obtain ⟨hrun, hpid⟩ := hold _ h
    rw [repair_of_proc (by rw [hpid]; exact proc_of_alive hi ha), hinfo] at h'
    cases h'
    exact ⟨hrun, hpid⟩
  | deleted h => rw [hinfo] at h; cases h
  | @written j _ _ haj hm hid _ h' hs hp =>
    rw [hinfo] at h'
    cases h'
    -- the process whose callback runs has a claim, so it is this one
    have hsame : a = .inst i := (he.one i.info.id).eq (List.mem_of_getElem? hn) hi
      (by rw [haj]; exact claims_inst.mpr ⟨hid, Or.inl hm⟩)
      (claims_inst.mpr ⟨rfl, Or.inr ha⟩)
    rw [haj] at hsame
    cases hsame
    exact ⟨hs, hp⟩
  | stopped hl hmk hf hid =>
    have := hmark _ _ _ hl hmk _ hf _ hi
    rw [hid, hat] at this
    cases this

lemma Excl.turn (he : Excl windows w) {n : ℕ} (hn : w.actors[n]? = some a)
    (ht : Turn env w.proc w.toShared a l sh' a')
    (hstart : ∀ explicit name time ok info, a = .startContainer explicit name →
      l = .next time ok → Looks w.proc w.toShared time name (some info) sh' →
      info.status ≠ .running →
      claims windows info.id a ∨ ∀ b ∈ w.actors, opens windows info.id b = false)
    (htest : windows = true → ∀ info time ok, a = .rechecking info → l = .next time ok →
      w.proc info.pid = false → ∀ b ∈ w.actors, claims windows info.id b = false)
    (hmark : ∀ time ok value, l = .next time ok → Marking a value → Unattached w time value) :
    Excl windows
      { w with toShared := sh', actors := (w.signalled (a.kills l)).set n a' } := by
  have hn' := getElem?_signalled hn l
  have hone : ∀ c, Pool.AtMostOne (claims windows c) (w.signalled (a.kills l)) := fun c => by
    rcases a.kills l with _ | pid
    · exact he.one c
    · exact (he.one c).map fun b => claims_signal pid b
  have hnone : ∀ c, (∀ b ∈ w.actors, claims windows c b = false) →
      ∀ b ∈ w.signalled (a.kills l), claims windows c b = false := fun c h =>
    forall_signalled (P := fun b => claims windows c b = false)
      (fun pid b hb => by rw [claims_signal]; exact hb) h _
  refine ⟨fun c => ?_, fun i hi hr ha => ?_⟩
  · by_cases hc : claims windows c a' → claims windows c a
    · exact (hone c).set hn' hc
    · obtain ⟨hc', hca⟩ := Classical.not_imp.mp hc
      rcases claims_turn ht hc' with h | ⟨_, _, _, _, info, rfl, rfl, hl, hs, rfl⟩ |
          ⟨rfl, info, _, _, rfl, rfl, hp, rfl⟩
      · exact absurd h hca
      · rcases hstart _ _ _ _ info rfl rfl hl hs with h | h
        · exact absurd h hca
        · refine .set_of_none (hnone _ fun b hb => ?_)
          rw [claims, h b hb, he.unattached_of_looks hl hs b hb]
          rfl
      · exact .set_of_none (hnone _ (htest rfl info _ _ rfl rfl hp))
  · rcases List.mem_or_eq_of_mem_set hi with hi | rfl
    · obtain ⟨j, hj, rfl | ⟨rfl, -⟩⟩ := inst_mem_signalled hi
      · exact he.record_turn hn ht hmark hj hr ha
      · have hrec : RecordedAs sh'.file j := he.record_turn hn ht hmark hj hr ha
        exact hrec
    · obtain ⟨j, rfl, hinfo, hpid, haj, hrj | hrec⟩ := attached_turn ht rfl hr ha
      · have := he.record_turn hn ht hmark (List.mem_of_getElem? hn) hrj haj
        intro info hinfo'
        rw [hinfo] at hinfo'
        rw [hpid]
        exact this info hinfo'
      · exact hrec

lemma Excl.of_actors (he : Excl windows w) (hfile : w'.file = w.file)
    {actors : List Actor} (hw' : w'.actors = w.actors ++ actors)
    (hnew : ∀ b ∈ actors, (∀ c, claims windows c b = false) ∧ ∀ i, b ≠ .inst i) :
    Excl windows w' := by
  refine ⟨fun c => ?_, fun i hi hr ha => ?_⟩
  · rw [hw']
    exact (he.one c).append fun b hb => (hnew b hb).1 c
  · rw [hfile]
    rw [hw'] at hi
    rcases List.mem_append.mp hi with hi | hi
    · exact he.record i hi hr ha
    · exact absurd rfl ((hnew _ hi).2 i)

lemma Excl.boot (file : DataFile) : Excl windows (World.boot file) :=
  ⟨fun _ => Nat.zero_le 1, fun i hi => by simp [World.boot] at hi⟩

lemma Excl.other (he : Excl windows w) {act : Action} (hm : Move env w act w')
    (hact : ∀ n l, act ≠ .turn n l) : Excl windows w' := by
  cases hm with
  | command c =>
    refine he.of_actors rfl rfl fun b hb => ?_
    rw [List.mem_singleton.mp hb]
    cases c <;> exact ⟨fun _ => rfl, fun _ h => by cases h⟩
  | turn => exact absurd rfl (hact _ _)
  | scan => exact ⟨he.one, he.record⟩
  | scanNext listed hs =>
    refine he.of_actors rfl rfl fun b hb => ?_
    obtain ⟨id, rfl⟩ := hs b hb
    exact ⟨fun _ => rfl, fun _ h => by cases h⟩
  | newProcess => exact ⟨he.one, he.record⟩
  | endProcess => exact ⟨he.one, he.record⟩
  | reboot => exact ⟨fun _ => Nat.zero_le 1, fun i hi => by simp at hi⟩

lemma Excl.step (he : Excl false w) {act : Action} (hm : Move env w act w')
    (hc : Exclusive w act) : Excl false w' := by
  have hmove := hm
  cases hm with
  | @turn n l a a' sh' ha ht =>
    refine he.turn ha ht ?_ (fun h => by cases h) ?_
    · rintro explicit name time ok info rfl rfl hl hs
      exact Or.inr (hc _ ha info (by rw [hl.run]; rfl) hs)
    · rintro time ok value rfl (⟨info, rfl, rfl⟩ | ⟨i, rfl, hmon, rfl⟩)
      · exact hc _ ha
      · exact hc _ ha hmon
  | _ => exact he.other hmove fun _ _ h => by cases h

/-- **One live process**: as long as no start goes on while another start of the container is
under way, and no status is changed to stopped while a recorded process lives, no container
has two live processes. -/
theorem one_live (h : (machine env bs).Reach Exclusive w) (c : Str) :
    w.actors.countP (live c) ≤ 1 := by
  obtain ⟨-, he⟩ := reach_invariant (I := Excl false) (fun file _ => .boot file)
    (fun _ _ _ _ _ hi hc hm => hi.step hm hc) h
  exact (he.one c).mono fun _ => live_le_claims

/-- A container is started, and once more while it runs; it exits and is started again. -/
def startedTwice : List Action :=
  [.command (.start "web".toList), .turn 0 (.next 1700000100 true), .turn 0 (.launch 4711),
    .turn 0 (.next 1700000101 true), .command (.start "c1".toList),
    .turn 1 (.next 1700000110 true), .turn 0 .exit, .turn 0 (.next 1700000120 true),
    .turn 0 (.next 1700000121 true), .turn 0 (.next 1700000122 true),
    .turn 0 (.next 1700000123 true), .command (.start "web".toList),
    .turn 2 (.next 1700000130 true), .turn 2 (.launch 4720)]

theorem one_live_startedTwice :
    ∃ w, (machine fullHost oneBirth).runs (World.boot oneContainer) startedTwice = some w ∧
      w.actors.countP (live "c1".toList) ≤ 1 := by
  obtain ⟨w, hw⟩ : ∃ w, (machine fullHost oneBirth).runs (World.boot oneContainer)
      startedTwice = some w := Option.isSome_iff_exists.mp (by decide)
  exact ⟨w, hw, one_live (boot_one.runs (Machine.meets_of_check (by decide)) hw) "c1".toList⟩

/-- Two starts that both find the container stopped. -/
def startedAtOnce : List Action :=
  [.command (.start "web".toList), .command (.start "web".toList),
    .turn 0 (.next 1700000100 true), .turn 1 (.next 1700000100 true), .turn 0 (.launch 4711),
    .turn 1 (.launch 4720)]

theorem two_live : ¬ ∀ w, (machine fullHost oneBirth).Reach (fun _ _ => True) w →
    ∀ c, w.actors.countP (live c) ≤ 1 := by
  intro h
  obtain ⟨w, hw, hcount⟩ : ∃ w, (machine fullHost oneBirth).runs (World.boot oneContainer)
      startedAtOnce = some w ∧ w.actors.countP (live "c1".toList) = 2 :=
    Option.map_eq_some_iff.mp (by decide :
      ((machine fullHost oneBirth).runs (World.boot oneContainer) startedAtOnce).map
        (fun w => w.actors.countP (live "c1".toList)) = some 2)
  have hle := h w (boot_one.runs (Machine.meets_true _ _) hw) "c1".toList
  omega

end Hoststack.LiveInstance
