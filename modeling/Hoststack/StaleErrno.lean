import Hoststack.RelaySteps

/-!
When the relay of the monitor goes by a value of `errno` that none of its calls of `read` and
`write` in the pass has set.
-/

namespace Hoststack.StaleErrno

open SocketIo PtyExecUtil RelaySteps

/-- What is compared: all but `errno`. -/
def outcome (s : Pass) : Pool × Bytes × List (ℤ × Bytes) × Point :=
  (s.pool, s.toMaster, s.toClients, s.point)

/-- The step takes its result as the end: a client is closed, taken out of the set of descriptors
to read and its slot freed, and a failure of the terminal is returned. -/
def Ended (s s' : Pass) : Prop :=
  match s.point with
  | .readClient i | .write (.client i _) _ =>
    fdAt s'.pool i = -1 ∧ fdAt s.pool i ∉ s'.pool.readSet
  | .readMaster | .write (.master _) _ => s'.point = .returned 1
  | .returned _ => True

/-- What `errno` was on entry does not matter, and each result of zero is taken as the end. -/
structure Indifferent (p : Pool) (results : List Answer) : Prop where
  same : ∀ e e', (run p e results).map outcome = (run p e' results).map outcome
  ended : ∀ e l a s s', l ++ [a] <+: results → a.isZero = true → run p e l = some s →
    s.step a = some s' → Ended s s'

/-- No result of zero comes while `errno` says that a call was interrupted. -/
def Fresh : ℤ → List Answer → Prop
  | _, [] => True
  | errno, a :: results => (a.isZero = true → errno ≠ eintr) ∧ Fresh (a.errno errno) results

variable {p : Pool} {s s' : Pass} {a : Answer} {e e' : ℤ} {results : List Answer}

/-! ### What a step looks at -/

@[simp] lemma outcome_withErrno (s : Pass) (e : ℤ) : outcome (s.withErrno e) = outcome s := rfl

@[simp] lemma point_withErrno (s : Pass) (e : ℤ) : (s.withErrno e).point = s.point := rfl

lemma fromMaster_withErrno (s : Pass) (e : ℤ) :
    (s.withErrno e).fromMaster = s.fromMaster.withErrno e := by
  unfold Pass.fromMaster
  change (if s.pool.masterfd ≠ -1 ∧ s.pool.masterfd ∈ s.pool.readySet then _ else _) = _
  split_ifs
  · rfl
  · rfl

lemma fromClient_withErrno (s : Pass) (e : ℤ) (i : ℕ) :
    (s.withErrno e).fromClient i = (s.fromClient i).withErrno e := by
  have hpool : (s.withErrno e).pool = s.pool := rfl
  unfold Pass.fromClient
  rw [hpool]
  cases nextReady s.pool (s.pool.slots.drop i) i with
  | some j => rfl
  | none => exact fromMaster_withErrno s e

lemma fromBroadcast_withErrno (s : Pass) (e : ℤ) (buf : Bytes) (i : ℕ) :
    (s.withErrno e).fromBroadcast buf i = (s.fromBroadcast buf i).withErrno e := by
  have hpool : (s.withErrno e).pool = s.pool := rfl
  unfold Pass.fromBroadcast
  rw [hpool]
  cases nextOpen (s.pool.slots.drop i) i with
  | some j => rfl
  | none => rfl

lemma resume_withErrno (s : Pass) (e : ℤ) (dest : Target) :
    (s.withErrno e).resume dest = (s.resume dest).withErrno e := by
  cases dest with
  | master i => exact fromClient_withErrno s e (i + 1)
  | client i buf => exact fromBroadcast_withErrno s e buf (i + 1)

lemma write_withErrno (s : Pass) (e : ℤ) (dest : Target) (left : Bytes) :
    (s.withErrno e).write dest left = (s.write dest left).withErrno e := by
  cases left with
  | nil => exact resume_withErrno s e dest
  | cons b left => rfl

lemma sent_withErrno (s : Pass) (e : ℤ) (dest : Target) (bytes : Bytes) :
    (s.withErrno e).sent dest bytes = (s.sent dest bytes).withErrno e := by
  cases dest <;> rfl

lemma begin_withErrno (p : Pool) (e e' : ℤ) : begin p e' = (begin p e).withErrno e' :=
  fromClient_withErrno ⟨p, e, [], [], .returned 0⟩ e' 0

lemma interrupted_withErrno (s : Pass) (e : ℤ) :
    (s.withErrno e).interrupted = s.interrupted.withErrno e := by
  unfold Pass.interrupted
  rw [point_withErrno]
  cases s.point with
  | readClient i => exact fromClient_withErrno s e (i + 1)
  | _ => rfl

lemma giveUp_withErrno (s : Pass) (e : ℤ) : (s.withErrno e).giveUp = s.giveUp.withErrno e := by
  unfold Pass.giveUp
  rw [point_withErrno]
  rcases s.point with i | - | ⟨i | ⟨i, buf⟩, left⟩ | ret
  · exact fromClient_withErrno (s.close i) e (i + 1)
  · rfl
  · rfl
  · exact fromBroadcast_withErrno (s.close i) e buf (i + 1)
  · rfl

lemma nothing_withErrno (h : s.errno = eintr ↔ e = eintr) :
    (s.withErrno e).nothing = s.nothing.withErrno e := by
  unfold Pass.nothing
  change (if e = eintr then _ else _) = _
  by_cases he : e = eintr
  · rw [if_pos he, if_pos (h.mpr he)]
    exact interrupted_withErrno s e
  · rw [if_neg he, if_neg fun hs => he (h.mp hs)]
    exact giveUp_withErrno s e

/-- What a pass makes of a result depends on `errno` only where the call gave nothing. -/
lemma react_withErrno (h : a.gaveNothing = true → (s.errno = eintr ↔ e = eintr)) :
    (s.withErrno e).react a = (s.react a).map (·.withErrno e) := by
  have hnothing : a.gaveNothing = true →
      some (s.withErrno e).nothing = some (s.nothing.withErrno e) :=
    fun ha => congrArg some (nothing_withErrno (h ha))
  unfold Pass.react
  rw [point_withErrno]
  rcases a with (⟨_ | ⟨b, buf⟩⟩ | - | e') | (more | - | e')
  · cases s.point <;> rfl
  · cases s.point with
    | readClient i => exact congrArg some (write_withErrno s e (.master i) _)
    | readMaster => exact congrArg some (fromBroadcast_withErrno s e _ 0)
    | _ => rfl
  · cases s.point with
    | readClient | readMaster => exact hnothing rfl
    | _ => rfl
  · cases s.point with
    | readClient | readMaster => exact hnothing rfl
    | _ => rfl
  · cases s.point with
    | write dest left =>
      dsimp only
      rw [sent_withErrno, write_withErrno]
      rfl
    | _ => rfl
  · cases s.point with
    | write => exact hnothing rfl
    | _ => rfl
  · cases s.point with
    | write => exact hnothing rfl
    | _ => rfl

lemma errno_of_react (h : s.react a = some s') : s'.errno = s.errno := by
  have hmap : s.react a = (s.react a).map (·.withErrno s.errno) := react_withErrno fun _ => Iff.rfl
  rw [h] at hmap
  have hsame : s' = s'.withErrno s.errno := Option.some.inj hmap
  rw [hsame]
  rfl

lemma errno_of_step (h : s.step a = some s') : s'.errno = a.errno s.errno := errno_of_react h

lemma errno_cases (a : Answer) : (∃ e, ∀ e', a.errno e' = e) ∨ ∀ e', a.errno e' = e' := by
  rcases a with (_ | - | e) | (_ | - | e)
  · exact Or.inr fun _ => rfl
  · exact Or.inr fun _ => rfl
  · exact Or.inl ⟨e, fun _ => rfl⟩
  · exact Or.inr fun _ => rfl
  · exact Or.inr fun _ => rfl
  · exact Or.inl ⟨e, fun _ => rfl⟩

lemma errno_of_isZero (h : a.isZero = true) (e : ℤ) : a.errno e = e := by
  rcases a with (_ | - | _) | (_ | - | _)
  · cases h
  · rfl
  · cases h
  · cases h
  · rfl
  · cases h

lemma errno_of_nonzero (h : a.isZero = false) (hn : a.gaveNothing = true) (e e' : ℤ) :
    a.errno e = a.errno e' := by
  rcases a with (_ | - | _) | (_ | - | _)
  · cases hn
  · cases h
  · rfl
  · cases hn
  · cases h
  · rfl

/-- One step goes by the old `errno` only where the result is zero. -/
lemma step_withErrno (h : a.isZero = true → s.errno ≠ eintr ∧ e ≠ eintr) :
    (s.withErrno e).step a = (s.step a).map (·.withErrno (a.errno e)) := by
  refine react_withErrno (s := s.withErrno (a.errno s.errno)) fun hn => ?_
  change a.errno s.errno = eintr ↔ a.errno e = eintr
  cases hz : a.isZero with
  | false => rw [errno_of_nonzero hz hn s.errno e]
  | true =>
    rw [errno_of_isZero hz, errno_of_isZero hz]
    exact iff_of_false (h hz).1 (h hz).2

/-! ### Runs -/

/-- The value of `errno` after results. -/
def errnoAfter (e : ℤ) (results : List Answer) : ℤ := results.foldl (fun e a => a.errno e) e

lemma fresh_append (e : ℤ) (l l' : List Answer) :
    Fresh e (l ++ l') ↔ Fresh e l ∧ Fresh (errnoAfter e l) l' := by
  induction l generalizing e with
  | nil => exact (and_iff_right trivial).symm
  | cons a l ih =>
    change (_ ∧ Fresh (a.errno e) (l ++ l')) ↔ (_ ∧ Fresh (a.errno e) l) ∧ _
    rw [ih, and_assoc]
    rfl

/-- The worst value to begin with is the one that says that a call was interrupted. -/
lemma Fresh.of_eintr (h : Fresh eintr results) (e : ℤ) : Fresh e results := by
  induction results with
  | nil => trivial
  | cons a results ih =>
    obtain ⟨hz, hrest⟩ := h
    refine ⟨fun hzero => absurd rfl (hz hzero), ?_⟩
    rcases errno_cases a with ⟨c, hc⟩ | hkeep
    · rw [hc] at hrest ⊢
      exact hrest
    · rw [hkeep] at hrest ⊢
      exact ih hrest

/-- The first result at which the results stop being fresh. -/
lemma exists_of_not_fresh (h : ¬ Fresh e results) :
    ∃ l a r, results = l ++ a :: r ∧ Fresh e l ∧ a.isZero = true ∧ errnoAfter e l = eintr := by
  induction results generalizing e with
  | nil => exact absurd trivial h
  | cons a results ih =>
    by_cases hz : a.isZero = true → e ≠ eintr
    · obtain ⟨l, b, r, rfl, hl, hb, he⟩ := ih fun hrest => h ⟨hz, hrest⟩
      exact ⟨a :: l, b, r, rfl, ⟨hz, hl⟩, hb, he⟩
    · obtain ⟨hzero, he⟩ := Classical.not_imp.mp hz
      exact ⟨[], a, results, rfl, trivial, hzero, not_not.mp he⟩

lemma errno_of_runs (h : relay.runs s results = some s') :
    s'.errno = errnoAfter s.errno results := by
  induction results generalizing s with
  | nil => cases h; rfl
  | cons a results ih =>
    obtain ⟨t, ht, hrest⟩ := Option.bind_eq_some_iff.mp h
    rw [ih hrest, errno_of_step ht]
    rfl

/-- Two runs that differ in `errno` at the beginning differ in nothing else later. -/
lemma runs_withErrno (hs : Fresh s.errno results) (he : Fresh e results) :
    relay.runs (s.withErrno e) results =
      (relay.runs s results).map (·.withErrno (errnoAfter e results)) := by
  induction results generalizing s e with
  | nil => rfl
  | cons a results ih =>
    have hstep : (s.withErrno e).step a = (s.step a).map (·.withErrno (a.errno e)) :=
      step_withErrno fun hz => ⟨hs.1 hz, he.1 hz⟩
    change ((s.withErrno e).step a).bind _ = ((s.step a).bind _).map _
    rw [hstep]
    cases ht : s.step a with
    | none => rfl
    | some t =>
      have ht' : Fresh t.errno results := by
        rw [errno_of_step ht]
        exact hs.2
      exact ih ht' he.2

lemma run_outcome (h : Fresh eintr results) (e e' : ℤ) :
    (run p e results).map outcome = (run p e' results).map outcome := by
  have hrun : run p e' results =
      (run p e results).map (·.withErrno (errnoAfter e' results)) := by
    unfold run
    rw [begin_withErrno p e e']
    exact runs_withErrno (h.of_eintr _) (h.of_eintr e')
  rw [hrun, Option.map_map]
  rfl

/-! ### What a result of zero leads to -/

/-- A client in a call of the pass has a descriptor. -/
def Connected (s : Pass) : Prop :=
  match s.point with
  | .readClient i | .write (.client i _) _ => 0 < fdAt s.pool i
  | _ => True

lemma fdAt_of_found {p : Pool} {i k : ℕ} {fd : ℤ} (h : (p.slots.drop i)[k]? = some fd)
    (hpos : 0 < fd) : 0 < fdAt p (i + k) := by
  rw [List.getElem?_drop] at h
  have hslot : p.clientfd[i + k]? = some fd := by
    unfold Pool.slots at h
    rw [List.getElem?_take] at h
    split_ifs at h
    exact h
  unfold fdAt
  rw [List.getD_eq_getElem?_getD, hslot]
  exact hpos

lemma nextReady_found {l : List ℤ} {i j : ℕ} (h : nextReady p l i = some j) :
    ∃ k fd, j = i + k ∧ l[k]? = some fd ∧ 0 < fd := by
  induction l generalizing i with
  | nil => cases h
  | cons connfd rest ih =>
    unfold nextReady at h
    split_ifs at h with hleft hready
    · cases h
      exact ⟨0, connfd, rfl, rfl, hready.1⟩
    · obtain ⟨k, fd, rfl, hk, hpos⟩ := ih h
      exact ⟨k + 1, fd, by omega, hk, hpos⟩

lemma nextOpen_found {l : List ℤ} {i j : ℕ} (h : nextOpen l i = some j) :
    ∃ k fd, j = i + k ∧ l[k]? = some fd ∧ 0 < fd := by
  induction l generalizing i with
  | nil => cases h
  | cons connfd rest ih =>
    unfold nextOpen at h
    split_ifs at h with hpos
    · cases h
      exact ⟨0, connfd, rfl, rfl, hpos⟩
    · obtain ⟨k, fd, rfl, hk, hfd⟩ := ih h
      exact ⟨k + 1, fd, by omega, hk, hfd⟩

lemma connected_fromMaster (s : Pass) : Connected s.fromMaster := by
  unfold Pass.fromMaster
  split_ifs
  · trivial
  · trivial

lemma connected_fromClient (s : Pass) (i : ℕ) : Connected (s.fromClient i) := by
  unfold Pass.fromClient
  rcases hn : nextReady s.pool (s.pool.slots.drop i) i with _ | j
  · exact connected_fromMaster s
  · obtain ⟨k, fd, rfl, hk, hpos⟩ := nextReady_found hn
    exact fdAt_of_found hk hpos

lemma connected_fromBroadcast (s : Pass) (buf : Bytes) (i : ℕ) :
    Connected (s.fromBroadcast buf i) := by
  unfold Pass.fromBroadcast
  rcases hn : nextOpen (s.pool.slots.drop i) i with _ | j
  · trivial
  · obtain ⟨k, fd, rfl, hk, hpos⟩ := nextOpen_found hn
    exact fdAt_of_found hk hpos

lemma connected_resume (s : Pass) (dest : Target) : Connected (s.resume dest) := by
  cases dest with
  | master i => exact connected_fromClient s (i + 1)
  | client i buf => exact connected_fromBroadcast s buf (i + 1)

lemma connected_nothing (h : Connected s) : Connected s.nothing := by
  unfold Connected at h
  unfold Pass.nothing Pass.interrupted Pass.giveUp
  rcases hp : s.point with i | - | ⟨i | ⟨i, buf⟩, left⟩ | ret
  · split_ifs
    · exact connected_fromClient s (i + 1)
    · exact connected_fromClient (s.close i) (i + 1)
  · split_ifs
    · trivial
    · trivial
  · split_ifs
    · unfold Connected
      rw [hp]
      trivial
    · trivial
  · split_ifs
    · unfold Connected
      rw [hp] at h ⊢
      exact h
    · exact connected_fromBroadcast (s.close i) buf (i + 1)
  · split_ifs <;>
    · unfold Connected
      rw [hp]
      trivial

lemma connected_write {dest : Target} {left : Bytes}
    (h : Connected { s with point := .write dest [] }) : Connected (s.write dest left) := by
  cases left with
  | nil => exact connected_resume s dest
  | cons b left => cases dest <;> exact h

lemma connected_react (h : Connected s) (hs : s.react a = some s') : Connected s' := by
  unfold Pass.react at hs
  split at hs
  · split at hs
    · cases hs
    · cases hs
      exact connected_write trivial
    · cases hs
      exact connected_nothing h
  · split at hs
    · cases hs
    · cases hs
      exact connected_fromBroadcast _ _ _
    · cases hs
      exact connected_nothing h
  · rename_i dest left r hp
    split at hs
    · cases hs
      refine connected_write ?_
      unfold Connected at h
      rw [hp] at h
      cases dest <;> exact h
    · cases hs
      exact connected_nothing h
  · cases hs

lemma connected_runs (h : Connected s) (hr : relay.runs s results = some s') : Connected s' := by
  induction results generalizing s with
  | nil => cases hr; exact h
  | cons a results ih =>
    obtain ⟨t, ht, hrest⟩ := Option.bind_eq_some_iff.mp hr
    refine ih ?_ hrest
    exact connected_react (s := s.withErrno (a.errno s.errno)) h ht

lemma react_of_isZero (hz : a.isZero = true) (hs : s.react a = some s') : s' = s.nothing := by
  unfold Pass.react at hs
  rcases a with (_ | - | _) | (_ | - | _)
  · cases hz
  · cases hp : s.point with
    | readClient | readMaster => rw [hp] at hs; cases hs; rfl
    | _ => rw [hp] at hs; cases hs
  · cases hz
  · cases hz
  · cases hp : s.point with
    | write => rw [hp] at hs; cases hs; rfl
    | _ => rw [hp] at hs; cases hs
  · cases hz

lemma fdAt_close (s : Pass) (i : ℕ) : fdAt (s.close i).pool i = -1 := by
  unfold fdAt Pass.close
  rcases Nat.lt_or_ge i s.pool.clientfd.length with hlt | hge
  · simp [hlt]
  · simp [hge]

lemma fromMaster_pool (s : Pass) : s.fromMaster.pool.clientfd = s.pool.clientfd ∧
    s.fromMaster.pool.readSet = s.pool.readSet := by
  unfold Pass.fromMaster
  split_ifs
  · exact ⟨rfl, rfl⟩
  · exact ⟨rfl, rfl⟩

lemma fromClient_pool (s : Pass) (i : ℕ) : (s.fromClient i).pool.clientfd = s.pool.clientfd ∧
    (s.fromClient i).pool.readSet = s.pool.readSet := by
  unfold Pass.fromClient
  split
  · exact ⟨rfl, rfl⟩
  · exact fromMaster_pool s

lemma fromBroadcast_pool (s : Pass) (buf : Bytes) (i : ℕ) :
    (s.fromBroadcast buf i).pool.clientfd = s.pool.clientfd ∧
      (s.fromBroadcast buf i).pool.readSet = s.pool.readSet := by
  unfold Pass.fromBroadcast
  split
  · exact ⟨rfl, rfl⟩
  · exact ⟨rfl, rfl⟩

lemma fdAt_congr {p p' : Pool} (h : p.clientfd = p'.clientfd) (i : ℕ) : fdAt p i = fdAt p' i := by
  unfold fdAt
  rw [h]

lemma ended_giveUp (s : Pass) : Ended s s.giveUp := by
  unfold Ended Pass.giveUp
  rcases s.point with i | - | ⟨i | ⟨i, buf⟩, left⟩ | ret
  · obtain ⟨hfd, hset⟩ := fromClient_pool (s.close i) (i + 1)
    refine ⟨(fdAt_congr hfd i).trans (fdAt_close s i), ?_⟩
    rw [hset]
    exact Finset.notMem_erase _ _
  · rfl
  · rfl
  · obtain ⟨hfd, hset⟩ := fromBroadcast_pool (s.close i) buf (i + 1)
    refine ⟨(fdAt_congr hfd i).trans (fdAt_close s i), ?_⟩
    rw [hset]
    exact Finset.notMem_erase _ _
  · trivial

lemma not_ended_interrupted (h : Connected s) (hp : ∀ ret, s.point ≠ .returned ret) :
    ¬ Ended s s.interrupted := by
  unfold Connected at h
  unfold Ended Pass.interrupted
  rcases hpoint : s.point with i | - | ⟨i | ⟨i, buf⟩, left⟩ | ret
  · rw [hpoint] at h
    rintro ⟨hfd, -⟩
    have hpos : 0 < fdAt s.pool i := h
    have hkept : fdAt (s.fromClient (i + 1)).pool i = fdAt s.pool i :=
      fdAt_congr (fromClient_pool s (i + 1)).1 i
    have hclosed : fdAt (s.fromClient (i + 1)).pool i = -1 := hfd
    omega
  · exact fun hend => absurd (Point.returned.inj hend) (by decide)
  · exact hp 1
  · rw [hpoint] at h
    rintro ⟨hfd, -⟩
    have hpos : 0 < fdAt s.pool i := h
    have hkept : fdAt s.pool i = -1 := hfd
    omega
  · exact absurd hpoint (hp ret)

lemma ended_iff (h : Connected s) (hz : a.isZero = true) (hs : s.step a = some s') :
    Ended s s' ↔ s.errno ≠ eintr := by
  have hkeep : s.withErrno (a.errno s.errno) = s := by
    rw [errno_of_isZero hz]
    rfl
  unfold Pass.step at hs
  rw [hkeep] at hs
  have hreturned : ∀ ret, s.point ≠ .returned ret := by
    intro ret hp
    unfold Pass.react at hs
    rw [hp] at hs
    rcases a with _ | _ <;> cases hs
  rw [react_of_isZero hz hs]
  unfold Pass.nothing
  by_cases he : s.errno = eintr
  · rw [if_pos he]
    exact iff_of_false (not_ended_interrupted h hreturned) fun hne => hne he
  · rw [if_neg he]
    exact iff_of_true (ended_giveUp s) he

/-! ### The condition -/

lemma begin_errno (p : Pool) (e : ℤ) : (begin p e).errno = e := by
  rw [begin_withErrno p e e]
  rfl

lemma run_prefix {l r : List Answer} (h : (run p e (l ++ a :: r)).isSome) :
    ∃ s s', run p e l = some s ∧ s.step a = some s' := by
  obtain ⟨t, ht⟩ := Option.isSome_iff_exists.mp h
  unfold run at ht
  rw [runs_append] at ht
  obtain ⟨s, hs, hrest⟩ := Option.bind_eq_some_iff.mp ht
  obtain ⟨s', hs', -⟩ := Option.bind_eq_some_iff.mp hrest
  exact ⟨s, s', hs, hs'⟩

lemma run_facts (h : run p e results = some s) : Connected s ∧ s.errno = errnoAfter e results := by
  refine ⟨connected_runs (connected_fromClient _ 0) h, ?_⟩
  rw [errno_of_runs h, begin_errno]

lemma Indifferent.of_fresh (h : Fresh eintr results) : Indifferent p results := by
  refine ⟨run_outcome h, ?_⟩
  rintro e l a s s' ⟨r, rfl⟩ hz hrun hstep
  obtain ⟨hconn, herrno⟩ := run_facts hrun
  have hfresh : Fresh e (l ++ [a] ++ r) := h.of_eintr e
  rw [List.append_assoc, fresh_append] at hfresh
  refine (ended_iff hconn hz hstep).mpr ?_
  rw [herrno]
  exact hfresh.2.1 hz

/-- **Stale `errno`**: for the results that a pass gets, it does not matter what `errno` was on
entry, and each result of zero is taken as the end, exactly when no result of zero comes while
`errno`, taken to be `EINTR` at first, says that a call was interrupted. -/
theorem indifferent_iff (p : Pool) (e : ℤ) (results : List Answer)
    (hrun : (run p e results).isSome) : Indifferent p results ↔ Fresh eintr results := by
  refine ⟨fun h => ?_, Indifferent.of_fresh⟩
  by_contra hstale
  obtain ⟨l, a, r, rfl, hfresh, hz, he⟩ := exists_of_not_fresh hstale
  have hsame : (run p eintr (l ++ a :: r)).isSome := by
    have hout := congrArg Option.isSome (h.same eintr e)
    rw [Option.isSome_map, Option.isSome_map] at hout
    exact hout.trans hrun
  obtain ⟨s, s', hs, hstep⟩ := run_prefix hsame
  obtain ⟨hconn, herrno⟩ := run_facts hs
  have hended : Ended s s' := h.ended eintr l a s s' ⟨r, by simp⟩ hz hs hstep
  exact (ended_iff hconn hz hstep).mp hended (herrno.trans he)

/-- A pool with one client, which is ready. -/
def oneClient : Pool where
  maxfd := 7
  readSet := {4, 5, 7}
  readySet := {7}
  nready := 1
  maxi := 0
  clientfd := 7 :: List.replicate (fdSetSize - 1) (-1)
  masterfd := 5

/-- The client sends a byte, and the write of it to the terminal is interrupted at first. -/
theorem indifferent_byte :
    Indifferent oneClient
      [.read (.data [104]), .write (.error eintr), .write (.wrote 0)] :=
  (indifferent_iff oneClient 0 _ rfl).mpr
    ⟨fun h => (by cases h), fun h => (by cases h), fun h => (by cases h), trivial⟩

/-- A client that has closed its end stays if a signal came before. -/
theorem stale_eof : ¬ Indifferent oneClient [.read .eof] := by
  intro h
  have hsame := h.same 0 eintr
  have hfd := congrArg (Option.map fun out => fdAt out.1 0) hsame
  exact absurd hfd (by decide)

end Hoststack.StaleErrno
