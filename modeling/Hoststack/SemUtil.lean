import Hoststack.Lib.Machine
import Hoststack.Lib.Pool
import Mathlib.Data.Int.Order.Basic
import Mathlib.Tactic.SplitIfs

/-!
Semaphores that processes find by a key.

The process that creates the set of a key initialises it and then makes a call of `semop`, which
the others wait to see before they use the set. A unit that a process has taken goes back when it
ends, wherever it is. The calls of all processes come in any order.
-/

namespace Hoststack.SemUtil

/-- `MAX_TRIES` -/
def maxTries : ℕ := 10

/-- A set of one semaphore: its value, whether `sem_otime` is other than zero, what is undone when
a process ends, whether the set has been removed, and the value its creator asked for. -/
structure Sem where
  val : ℤ
  otime : Bool
  adj : ℕ → ℤ
  removed : Bool
  made : UInt32

/-- The sets by their identifiers, and the one of the key. -/
structure Kernel where
  sems : List Sem
  key : Option ℕ

/-- The conversion of the value to the type of `sem_op`. -/
def semOp (value : UInt32) : ℤ := value.toUInt16.toInt16.toInt

namespace Sem

/-- `semop` by a process, unless it has to wait. -/
def semop (p : ℕ) (op : ℤ) (undo : Bool) (s : Sem) : Option Sem :=
  if s.val + op < 0 ∨ op = 0 ∧ s.val ≠ 0 then none
  else some { s with
    val := s.val + op
    otime := true
    adj := if undo then Function.update s.adj p (s.adj p - op) else s.adj }

/-- `SETVAL` with zero, after which nothing is undone. -/
def clear (s : Sem) : Sem := { s with val := 0, adj := fun _ => 0 }

/-- A process ends: what it has done is undone, as far as the value does not become negative. -/
def undo (p : ℕ) (s : Sem) : Sem :=
  if s.removed then s
  else { s with val := max 0 (s.val + s.adj p), adj := Function.update s.adj p 0 }

end Sem

namespace Kernel

/-- The set, if it has not been removed. -/
def live (k : Kernel) (semid : ℕ) : Option Sem := k.sems[semid]?.filter fun s => !s.removed

def put (k : Kernel) (semid : ℕ) (s : Sem) : Kernel := { k with sems := k.sems.set semid s }

/-- A new set, the value of which may be any. -/
def create (k : Kernel) (val : ℕ) (value : UInt32) : Kernel where
  sems := k.sems ++ [⟨val, false, fun _ => 0, false, value⟩]
  key := some k.sems.length

def remove (k : Kernel) (semid : ℕ) : Kernel :=
  match k.live semid with
  | none => k
  | some s => ⟨k.sems.set semid { s with removed := true }, none⟩

def ends (k : Kernel) (p : ℕ) : Kernel := { k with sems := k.sems.map (Sem.undo p) }

end Kernel

/-- How `dec`, `dec_nowait` and `dec_timeout` wait. -/
inductive Wait where
  | block | nowait | timeout
  deriving DecidableEq

/-- Where a process is: before `get`, at a call of it, with the set, in `dec`, or with a unit. -/
inductive At where
  | idle
  | semget (value : UInt32)
  | setval (semid : ℕ) (value : UInt32)
  | semop (semid : ℕ) (value : UInt32)
  | semgetAgain
  | stat (semid j : ℕ)
  | has (semid : ℕ)
  | dec (semid : ℕ) (wait : Wait)
  | held (semid : ℕ)
  | exited

/-- What a process does: it calls `get`, makes the next call there, which may fail, takes and
returns a unit, removes the set, or ends. -/
inductive Call where
  | get (value : UInt32)
  | go (val : ℕ)
  | fails
  | dec (wait : Wait)
  | interrupted
  | expires
  | inc
  | remove
  | ends

/-- The process ends. -/
def quit (k : Kernel) (p : ℕ) : At × Kernel := (.exited, k.ends p)

/-- The next call of `get`; `val` is what a new set holds. A caller that finds the set looks
`MAX_TRIES` times whether its creator is done. -/
def get (k : Kernel) (p val : ℕ) : At → Option (At × Kernel)
  | .semget value =>
    match k.key with
    | none => some (.setval k.sems.length value, k.create val value)
    | some _ => some (.semgetAgain, k)
  | .setval semid value =>
    match k.live semid with
    | none => some (quit k p)
    | some s => some (.semop semid value, k.put semid s.clear)
  | .semop semid value =>
    match k.live semid with
    | none => some (quit k p)
    | some s => (s.semop p (semOp value) false).map fun s => (.has semid, k.put semid s)
  | .semgetAgain =>
    match k.key with
    | none => some (quit k p)
    | some semid => some (.stat semid 0, k)
  | .stat semid j =>
    match k.live semid with
    | none => some (quit k p)
    | some s =>
      if s.otime then some (.has semid, k)
      else if j + 1 < maxTries then some (.stat semid (j + 1), k)
      else some (quit k p)
  | _ => none

/-- The call in the loop of `dec`. -/
def dec (k : Kernel) (p semid : ℕ) (wait : Wait) : Option (At × Kernel) :=
  match k.live semid with
  | none => some (.has semid, k)
  | some s =>
    match s.semop p (-1) true with
    | some s => some (.held semid, k.put semid s)
    | none => if wait = .nowait then some (.has semid, k) else none

def inc (k : Kernel) (p semid : ℕ) : Option (At × Kernel) :=
  match k.live semid with
  | none => some (.has semid, k)
  | some s => (s.semop p 1 true).map fun s => (.has semid, k.put semid s)

/-- A turn of a process. -/
def turn (k : Kernel) (p : ℕ) : At → Call → Option (At × Kernel)
  | .exited, _ => none
  | _, .ends => some (quit k p)
  | .idle, .get value => some (.semget value, k)
  | .has semid, .dec wait => some (.dec semid wait, k)
  | .has semid, .remove => some (.has semid, k.remove semid)
  | .dec semid wait, .go _ => dec k p semid wait
  | .dec semid wait, .interrupted =>
    some (if wait = .nowait then .has semid else .dec semid wait, k)
  | .dec semid .timeout, .expires => some (.has semid, k)
  | .dec semid _, .fails => some (.has semid, k)
  | .held semid, .inc => inc k p semid
  | a, .go val => get k p val a
  | .semget _, .fails | .setval _ _, .fails | .semop _ _, .fails | .semgetAgain, .fails
  | .stat _ _, .fails => some (quit k p)
  | _, _ => none

/-- The processes and the kernel. -/
structure State where
  procs : List At
  kernel : Kernel

/-- Any number of processes, before there is a set. -/
def machine : Machine State (ℕ × Call) where
  init s := (∀ a ∈ s.procs, a = .idle) ∧ s.kernel = ⟨[], none⟩
  step s
    | (p, call) => do
      let a ← s.procs[p]?
      let (a, kernel) ← turn s.kernel p a call
      some ⟨s.procs.set p a, kernel⟩

/-! ### One set -/

/-- What a process is to a set: nothing, its creator in the course of `get`, a user of it, or a
user that has taken a unit. -/
inductive Role where
  | other
  | setval (value : UInt32)
  | semop (value : UInt32)
  | user
  | holder
  deriving DecidableEq

namespace Role

def creates : Role → Bool
  | .setval _ | .semop _ => true
  | _ => false

def uses : Role → Bool
  | .user | .holder => true
  | _ => false

def holds : Role → Bool
  | .holder => true
  | _ => false

end Role

def role (semid : ℕ) : At → Role
  | .setval n value => if n = semid then .setval value else .other
  | .semop n value => if n = semid then .semop value else .other
  | .has n | .dec n _ => if n = semid then .user else .other
  | .held n => if n = semid then .holder else .other
  | _ => .other

/-- What a turn of a process may do to a set. -/
inductive Move (p : ℕ) : Role → Role → Sem → Sem → Prop
  | keep {r : Role} {s : Sem} : Move p r r s s
  | clear {value : UInt32} {s : Sem} : Move p (.setval value) (.semop value) s s.clear
  | made {value : UInt32} {s s' : Sem} (h : s.semop p (semOp value) false = some s') :
      Move p (.semop value) .user s s'
  | found {s : Sem} (h : s.otime = true) : Move p .other .user s s
  | take {s s' : Sem} (hlive : s.removed = false) (h : s.semop p (-1) true = some s') :
      Move p .user .holder s s'
  | give {s s' : Sem} (hlive : s.removed = false) (h : s.semop p 1 true = some s') :
      Move p .holder .user s s'
  | lose {s : Sem} (h : s.removed = true) : Move p .holder .user s s
  | remove {r : Role} {s : Sem} : Move p r r s { s with removed := true }
  | ends {r : Role} {s : Sem} : Move p r .other s (s.undo p)

/-- What a set is, given what the processes are to it. -/
structure SemOk (rs : List Role) (s : Sem) : Prop where
  creators : Pool.AtMostOne Role.creates rs
  made : ∀ value, .setval value ∈ rs ∨ .semop value ∈ rs → value = s.made
  fresh : ∀ r ∈ rs, r.creates → s.otime = false
  unused : s.otime = false → ∀ r ∈ rs, r.uses = false
  cleared : ∀ value, .semop value ∈ rs → s.val = 0
  adj : s.removed = false → ∀ p, s.adj p = if rs[p]? = some .holder then 1 else 0
  nonneg : 0 ≤ s.val
  bound : s.otime = true → s.val + rs.countP Role.holds ≤ semOp s.made
  total : s.otime = true → s.removed = false →
    s.val + rs.countP Role.holds = semOp s.made

variable {rs : List Role} {r r' : Role} {s s' : Sem} {p n semid : ℕ} {value : UInt32}
  {a a' : At} {k k' : Kernel} {wait : Wait} {call : Call}

lemma semop_eq_some {op : ℤ} {undo : Bool} :
    s.semop p op undo = some s' ↔ 0 ≤ s.val + op ∧ (op = 0 → s.val = 0) ∧ s' = { s with
      val := s.val + op
      otime := true
      adj := if undo then Function.update s.adj p (s.adj p - op) else s.adj } := by
  unfold Sem.semop
  by_cases h : s.val + op < 0 ∨ op = 0 ∧ s.val ≠ 0
  · rw [if_pos h]
    refine iff_of_false (by simp) ?_
    rintro ⟨hval, hzero, -⟩
    rcases h with h | ⟨h, hne⟩
    · omega
    · exact hne (hzero h)
  · have hval : 0 ≤ s.val + op := by omega
    have hzero : op = 0 → s.val = 0 := by omega
    rw [if_neg h, Option.some.injEq, eq_comm]
    exact ⟨fun heq => ⟨hval, hzero, heq⟩, fun hall => hall.2.2⟩

lemma holds_iff : r.holds = true ↔ r = .holder := by
  cases r <;> simp [Role.holds]

lemma holders_set (hr : rs[p]? = some r) (r' : Role) :
    (rs.set p r').countP Role.holds + (if r.holds then 1 else 0) =
      rs.countP Role.holds + if r'.holds then 1 else 0 :=
  Pool.countP_set hr

lemma holder_set_self (hr : rs[p]? = some r) :
    (rs.set p r')[p]? = some .holder ↔ r' = .holder := by
  rw [List.getElem?_set_self (List.getElem?_eq_some_iff.mp hr).1, Option.some.injEq]

lemma adj_set {f g : ℕ → ℤ} (hr : rs[p]? = some r)
    (hf : ∀ q, f q = if rs[q]? = some .holder then 1 else 0)
    (hp : g p = if r' = .holder then 1 else 0) (hne : ∀ q, q ≠ p → g q = f q) (q : ℕ) :
    g q = if (rs.set p r')[q]? = some .holder then 1 else 0 := by
  by_cases hq : q = p
  · subst hq
    simp only [hp, holder_set_self hr]
  · rw [hne q hq, hf q, List.getElem?_set_ne (Ne.symm hq)]

lemma SemOk.keep (h : SemOk rs s) (hr : rs[p]? = some r) : SemOk (rs.set p r) s := by
  have hsame : rs.set p r = rs := by
    obtain ⟨hlt, rfl⟩ := List.getElem?_eq_some_iff.mp hr
    exact List.set_getElem_self hlt
  rwa [hsame]

/-- What holds of a set that is initialised, where no process creates it any more. -/
lemma SemOk.of_done (hnone : ∀ x ∈ rs, x.creates = false) (hotime : s.otime = true)
    (hadj : s.removed = false → ∀ p, s.adj p = if rs[p]? = some .holder then 1 else 0)
    (hnonneg : 0 ≤ s.val) (hbound : s.val + rs.countP Role.holds ≤ semOp s.made)
    (htotal : s.removed = false → s.val + rs.countP Role.holds = semOp s.made) :
    SemOk rs s := by
  refine ⟨?_, ?_, ?_, ?_, ?_, hadj, hnonneg, fun _ => hbound, fun _ => htotal⟩
  · unfold Pool.AtMostOne
    rw [List.countP_eq_zero.mpr fun x hx => by simp [hnone x hx]]
    exact Nat.zero_le 1
  · rintro value (hv | hv)
    · simpa [Role.creates] using hnone _ hv
    · simpa [Role.creates] using hnone _ hv
  · intro x hx hc
    rw [hnone x hx] at hc
    cases hc
  · intro hf
    rw [hotime] at hf
    cases hf
  · intro value hv
    simpa [Role.creates] using hnone _ hv

lemma SemOk.done (h : SemOk rs s) (hotime : s.otime = true) : ∀ x ∈ rs, x.creates = false := by
  intro x hx
  by_contra hc
  have hfresh := h.fresh x hx (by simpa using hc)
  rw [hotime] at hfresh
  cases hfresh

lemma SemOk.used (h : SemOk rs s) (hr : r ∈ rs) (huse : r.uses = true) : s.otime = true := by
  by_contra hf
  have hno := h.unused (by simpa using hf) r hr
  rw [huse] at hno
  cases hno

lemma SemOk.no_holder (h : SemOk rs s) (hf : s.otime = false) :
    rs.countP Role.holds = 0 ∧ ∀ q : ℕ, rs[q]? ≠ some .holder := by
  have hnone : ∀ x ∈ rs, x ≠ Role.holder := by
    rintro x hx rfl
    have := h.unused hf _ hx
    cases this
  refine ⟨List.countP_eq_zero.mpr fun x hx hh => hnone x hx (holds_iff.mp hh), fun q hq => ?_⟩
  exact hnone _ (List.mem_of_getElem? hq) rfl

lemma SemOk.clear (h : SemOk rs s) (hr : rs[p]? = some (.setval value)) :
    SemOk (rs.set p (.semop value)) s.clear := by
  have hmem := List.mem_of_getElem? hr
  have hf : s.otime = false := h.fresh _ hmem rfl
  have hno := (h.no_holder hf).2
  refine ⟨h.creators.set hr fun _ => rfl, ?_, fun _ _ _ => hf, ?_, fun _ _ => rfl, ?_, le_rfl, ?_,
    ?_⟩
  · intro v hv
    have hcases : (.setval v ∈ rs ∨ .semop v ∈ rs) ∨ v = value := by
      rcases hv with hv | hv
      · rcases List.mem_or_eq_of_mem_set hv with hv | hv
        · exact Or.inl (Or.inl hv)
        · cases hv
      · rcases List.mem_or_eq_of_mem_set hv with hv | hv
        · exact Or.inl (Or.inr hv)
        · cases hv
          exact Or.inr rfl
    rcases hcases with hv | rfl
    · exact h.made v hv
    · exact h.made v (Or.inl hmem)
  · exact fun _ => Pool.forall_set (h.unused hf) rfl
  · intro hl
    have hzero (q : ℕ) : s.adj q = 0 := (h.adj hl q).trans (if_neg (hno q))
    exact adj_set hr (h.adj hl) rfl fun q _ => (hzero q).symm
  · intro hotime
    rw [show s.clear.otime = s.otime from rfl, hf] at hotime
    cases hotime
  · intro hotime
    rw [show s.clear.otime = s.otime from rfl, hf] at hotime
    cases hotime

lemma SemOk.initialise (h : SemOk rs s) (hr : rs[p]? = some (.semop value))
    (hs : s.semop p (semOp value) false = some s') : SemOk (rs.set p .user) s' := by
  obtain ⟨hval, -, rfl⟩ := semop_eq_some.mp hs
  have hmem := List.mem_of_getElem? hr
  have hf : s.otime = false := h.fresh _ hmem rfl
  obtain ⟨hcount, hno⟩ := h.no_holder hf
  have hzero := h.cleared value hmem
  obtain rfl := h.made value (Or.inr hmem)
  have hholders := holders_set hr .user
  have hcreators : (rs.set p .user).countP Role.creates + 1 = rs.countP Role.creates + 0 :=
    Pool.countP_set hr
  have hone := h.creators
  unfold Pool.AtMostOne at hone
  simp only [Role.holds, Bool.false_eq_true, if_false] at hholders
  refine .of_done ?_ rfl (fun hl => ?_) hval ?_ fun _ => ?_
  · intro x hx
    have hall := List.countP_eq_zero.mp (show (rs.set p .user).countP Role.creates = 0 by omega)
    simpa using hall x hx
  · exact adj_set hr (h.adj hl) ((h.adj hl p).trans (by simp [hr])) fun _ _ => rfl
  · dsimp only
    omega
  · dsimp only
    omega

lemma SemOk.found (h : SemOk rs s) (hr : rs[p]? = some .other) (hotime : s.otime = true) :
    SemOk (rs.set p .user) s := by
  have hholders := holders_set hr .user
  simp only [Role.holds, Bool.false_eq_true, if_false] at hholders
  have hbound := h.bound hotime
  refine .of_done (Pool.forall_set (h.done hotime) rfl) hotime (fun hl => ?_) h.nonneg (by omega)
    fun hl => ?_
  · exact adj_set hr (h.adj hl) ((h.adj hl p).trans (by simp [hr])) fun _ _ => rfl
  · have := h.total hotime hl
    omega

lemma SemOk.take (h : SemOk rs s) (hr : rs[p]? = some .user) (hl : s.removed = false)
    (hs : s.semop p (-1) true = some s') : SemOk (rs.set p .holder) s' := by
  obtain ⟨hval, -, rfl⟩ := semop_eq_some.mp hs
  have hotime := h.used (List.mem_of_getElem? hr) rfl
  have hholders := holders_set hr .holder
  simp only [Role.holds, Bool.false_eq_true, if_false, if_true] at hholders
  have htotal := h.total hotime hl
  have hadj : s.adj p = _ := h.adj hl p
  refine .of_done (Pool.forall_set (h.done hotime) rfl) rfl (fun _ => ?_) hval ?_ fun _ => ?_
  · exact adj_set hr (h.adj hl) (by simp [hadj, hr]) fun q hq => by simp [hq]
  · dsimp only
    omega
  · dsimp only
    omega

lemma SemOk.give (h : SemOk rs s) (hr : rs[p]? = some .holder) (hl : s.removed = false)
    (hs : s.semop p 1 true = some s') : SemOk (rs.set p .user) s' := by
  obtain ⟨hval, -, rfl⟩ := semop_eq_some.mp hs
  have hotime := h.used (List.mem_of_getElem? hr) rfl
  have hholders := holders_set hr .user
  simp only [Role.holds, Bool.false_eq_true, if_false, if_true] at hholders
  have htotal := h.total hotime hl
  have hadj : s.adj p = _ := h.adj hl p
  refine .of_done (Pool.forall_set (h.done hotime) rfl) rfl (fun _ => ?_) hval ?_ fun _ => ?_
  · exact adj_set hr (h.adj hl) (by simp [hadj, hr]) fun q hq => by simp [hq]
  · dsimp only
    omega
  · dsimp only
    omega

lemma SemOk.lose (h : SemOk rs s) (hr : rs[p]? = some .holder) (hl : s.removed = true) :
    SemOk (rs.set p .user) s := by
  have hotime := h.used (List.mem_of_getElem? hr) rfl
  have hholders := holders_set hr .user
  simp only [Role.holds, Bool.false_eq_true, if_false, if_true] at hholders
  have hbound := h.bound hotime
  refine .of_done (Pool.forall_set (h.done hotime) rfl) hotime (by simp [hl]) h.nonneg (by omega) ?_
  simp [hl]

lemma SemOk.remove (h : SemOk rs s) : SemOk rs { s with removed := true } :=
  ⟨h.creators, h.made, h.fresh, h.unused, h.cleared, fun hl => (by cases hl), h.nonneg, h.bound,
    fun _ hl => (by cases hl)⟩

lemma SemOk.ends (h : SemOk rs s) (hr : rs[p]? = some r) : SemOk (rs.set p .other) (s.undo p) := by
  have hholders : (rs.set p .other).countP Role.holds + (if r.holds then 1 else 0) =
      rs.countP Role.holds := holders_set hr .other
  have hcreators : Pool.AtMostOne Role.creates (rs.set p .other) :=
    h.creators.set hr fun hc => by cases hc
  have hmade : ∀ v, .setval v ∈ rs.set p .other ∨ .semop v ∈ rs.set p .other → v = s.made := by
    intro v hv
    refine h.made v (hv.imp (fun hv => ?_) fun hv => ?_)
    · exact (List.mem_or_eq_of_mem_set hv).resolve_right (by simp)
    · exact (List.mem_or_eq_of_mem_set hv).resolve_right (by simp)
  have hfresh : ∀ x ∈ rs.set p .other, x.creates → s.otime = false :=
    Pool.forall_set h.fresh fun hc => by cases hc
  have hunused : s.otime = false → ∀ x ∈ rs.set p .other, x.uses = false := fun hf =>
    Pool.forall_set (h.unused hf) rfl
  have hcleared : ∀ v, .semop v ∈ rs.set p .other → s.val = 0 := fun v hv =>
    h.cleared v ((List.mem_or_eq_of_mem_set hv).resolve_right (by simp))
  have hnonneg := h.nonneg
  unfold Sem.undo
  rcases hl : s.removed with _ | _
  · rw [if_neg (by simp)]
    have hunit : s.adj p = if r.holds then 1 else 0 := by
      rw [h.adj hl p, hr]
      simp [holds_iff]
    have hleft : max 0 (s.val + s.adj p) = s.val + s.adj p := by
      refine max_eq_right ?_
      rw [hunit]
      split_ifs <;> omega
    refine ⟨hcreators, hmade, hfresh, hunused, fun v hv => ?_, fun _ q => ?_, le_max_left _ _, ?_,
      ?_⟩
    · have hmem := (List.mem_or_eq_of_mem_set hv).resolve_right (by simp)
      have hunit' : s.adj p = 0 :=
        (h.adj hl p).trans (if_neg ((h.no_holder (h.fresh _ hmem rfl)).2 p))
      simp [hcleared v hv, hunit']
    · exact adj_set hr (h.adj hl) (by simp) (fun q hq => by simp [hq]) q
    · intro hotime
      have htotal := h.total hotime hl
      dsimp only
      rw [hleft, hunit]
      split_ifs at hholders ⊢ <;> omega
    · intro hotime _
      have htotal := h.total hotime hl
      dsimp only
      rw [hleft, hunit]
      split_ifs at hholders ⊢ <;> omega
  · rw [if_pos rfl]
    refine ⟨hcreators, hmade, hfresh, hunused, hcleared, by simp [hl], h.nonneg, fun hotime => ?_,
      by simp [hl]⟩
    have hbound := h.bound hotime
    split_ifs at hholders <;> omega

lemma SemOk.move (h : SemOk rs s) (hr : rs[p]? = some r) (hm : Move p r r' s s') :
    SemOk (rs.set p r') s' := by
  cases hm with
  | keep => exact h.keep hr
  | clear => exact h.clear hr
  | made hs => exact h.initialise hr hs
  | found hotime => exact h.found hr hotime
  | take hl hs => exact h.take hr hl hs
  | give hl hs => exact h.give hr hl hs
  | lose hl => exact h.lose hr hl
  | remove => exact (h.keep hr).remove
  | ends => exact h.ends hr

/-! ### A turn -/

/-- The set of the key is the one that has not been removed, if there is one. -/
def KeyOk (k : Kernel) : Prop := ∀ semid, k.key = some semid ↔ (k.live semid).isSome

/-- What a turn of a process does that does not create a set. -/
structure Turned (p : ℕ) (a a' : At) (k k' : Kernel) : Prop where
  length : k'.sems.length = k.sems.length
  sems : ∀ semid s, k.sems[semid]? = some s →
    ∃ s', k'.sems[semid]? = some s' ∧ Move p (role semid a) (role semid a') s s'
  beyond : ∀ semid, k.sems.length ≤ semid → role semid a = .other → role semid a' = .other
  key : KeyOk k → KeyOk k'

lemma live_eq_some : k.live semid = some s ↔ k.sems[semid]? = some s ∧ s.removed = false := by
  simp [Kernel.live, Option.filter_eq_some_iff]

lemma lt_of_live (h : k.live semid = some s) : semid < k.sems.length :=
  (List.getElem?_eq_some_iff.mp (live_eq_some.mp h).1).1

lemma keyOk_put (h : k.live semid = some s) (hl : s'.removed = false) (hk : KeyOk k) :
    KeyOk (k.put semid s') := by
  intro m
  rw [show (k.put semid s').key = k.key from rfl, hk m]
  by_cases hm : m = semid
  · subst hm
    have hput : (k.put m s').live m = some s' :=
      live_eq_some.mpr ⟨List.getElem?_set_self (lt_of_live h), hl⟩
    simp [h, hput]
  · have hput : (k.put semid s').live m = k.live m := by
      unfold Kernel.live Kernel.put
      rw [List.getElem?_set_ne (Ne.symm hm)]
    rw [hput]

lemma turned_put (h : k.live semid = some s) (hl : s'.removed = false)
    (hother : ∀ m, m ≠ semid → role m a' = role m a)
    (hm : Move p (role semid a) (role semid a') s s') : Turned p a a' k (k.put semid s') := by
  refine ⟨by simp [Kernel.put], fun m x hx => ?_, fun m hle hrole => ?_, keyOk_put h hl⟩
  · by_cases heq : m = semid
    · subst heq
      obtain rfl : s = x := Option.some.inj ((live_eq_some.mp h).1.symm.trans hx)
      exact ⟨s', List.getElem?_set_self (lt_of_live h), hm⟩
    · refine ⟨x, ?_, ?_⟩
      · exact (List.getElem?_set_ne (Ne.symm heq)).trans hx
      · rw [hother m heq]
        exact .keep
  · have hlt := lt_of_live h
    rw [hother m (by omega), hrole]

lemma turned_same (semid : ℕ) (hother : ∀ m, m ≠ semid → role m a' = role m a)
    (hm : ∀ s, k.sems[semid]? = some s → Move p (role semid a) (role semid a') s s)
    (hbeyond : k.sems.length ≤ semid → role semid a = .other → role semid a' = .other) :
    Turned p a a' k k := by
  refine ⟨rfl, fun m s hs => ⟨s, hs, ?_⟩, fun m hle hrole => ?_, id⟩
  · by_cases heq : m = semid
    · subst heq
      exact hm s hs
    · rw [hother m heq]
      exact .keep
  · by_cases heq : m = semid
    · subst heq
      exact hbeyond hle hrole
    · rw [hother m heq, hrole]

lemma turned_still (h : ∀ m, role m a' = role m a) : Turned p a a' k k :=
  ⟨rfl, fun m s hs => ⟨s, hs, h m ▸ .keep⟩, fun m _ hrole => (h m).trans hrole, id⟩

lemma undo_removed (p : ℕ) (s : Sem) : (s.undo p).removed = s.removed := by
  unfold Sem.undo
  split_ifs <;> rfl

lemma turned_quit (p : ℕ) (a : At) (k : Kernel) : Turned p a .exited k (k.ends p) := by
  refine ⟨by simp [Kernel.ends], fun m s hs => ?_, fun _ _ _ => rfl, fun hk m => ?_⟩
  · exact ⟨s.undo p, by simp [Kernel.ends, hs], .ends⟩
  · rw [show (k.ends p).key = k.key from rfl, hk m]
    have hlive : (k.ends p).live m = (k.live m).map (Sem.undo p) := by
      unfold Kernel.live Kernel.ends
      rw [List.getElem?_map]
      rcases k.sems[m]? with _ | s
      · rfl
      · rcases hr : s.removed <;> simp [Option.filter, undo_removed, hr]
    rw [hlive, Option.isSome_map]

lemma turned_remove (p semid : ℕ) (k : Kernel) :
    Turned p (.has semid) (.has semid) k (k.remove semid) := by
  unfold Kernel.remove
  rcases hlive : k.live semid with _ | s
  · exact turned_still fun _ => rfl
  · obtain ⟨hs, hl⟩ := live_eq_some.mp hlive
    refine ⟨by simp, fun m x hx => ?_, fun m _ hrole => hrole, fun hk m => ?_⟩
    · by_cases heq : m = semid
      · subst heq
        obtain rfl : s = x := Option.some.inj (hs.symm.trans hx)
        exact ⟨_, List.getElem?_set_self (lt_of_live hlive), .remove⟩
      · exact ⟨x, (List.getElem?_set_ne (Ne.symm heq)).trans hx, .keep⟩
    · -- there was one set that had not been removed
      have hkey : k.key = some semid := (hk semid).mpr (by simp [hlive])
      refine iff_of_false (by simp) ?_
      rw [Bool.not_eq_true, Option.isSome_eq_false_iff, Option.isNone_iff_eq_none]
      by_cases heq : m = semid
      · subst heq
        simp [Kernel.live, Option.filter, List.getElem?_set_self (lt_of_live hlive)]
      · have hother : k.live m = none := by
          by_contra hne
          have hm := (hk m).mpr (Option.isSome_iff_ne_none.mpr hne)
          rw [hkey] at hm
          exact heq (Option.some.inj hm).symm
        unfold Kernel.live at hother ⊢
        rwa [List.getElem?_set_ne (Ne.symm heq)]

lemma semop_removed {op : ℤ} {undo : Bool} (h : s.semop p op undo = some s') :
    s'.removed = s.removed := by
  obtain ⟨-, -, rfl⟩ := semop_eq_some.mp h
  rfl

lemma get_cases {val : ℕ} (h : get k p val a = some (a', k')) :
    Turned p a a' k k' ∨ ∃ value, a = .semget value ∧ k.key = none ∧
      a' = .setval k.sems.length value ∧ k' = k.create val value := by
  cases a with
  | semget value =>
    simp only [get] at h
    rcases hk : k.key with _ | semid
    · rw [hk] at h
      cases h
      exact Or.inr ⟨value, rfl, rfl, rfl, rfl⟩
    · rw [hk] at h
      cases h
      exact Or.inl (turned_still fun _ => rfl)
  | setval semid value =>
    simp only [get] at h
    rcases hlive : k.live semid with _ | s
    · rw [hlive] at h
      cases h
      exact Or.inl (turned_quit _ _ _)
    · rw [hlive] at h
      cases h
      refine Or.inl (turned_put hlive (live_eq_some.mp hlive).2 (fun m hm => ?_) ?_)
      · simp [role, Ne.symm hm]
      · simpa [role] using Move.clear
  | semop semid value =>
    simp only [get] at h
    rcases hlive : k.live semid with _ | s
    · rw [hlive] at h
      cases h
      exact Or.inl (turned_quit _ _ _)
    · rw [hlive] at h
      obtain ⟨s', hs', heq⟩ := Option.map_eq_some_iff.mp h
      cases heq
      have hl := (semop_removed hs').trans (live_eq_some.mp hlive).2
      refine Or.inl (turned_put hlive hl (fun m hm => ?_) ?_)
      · simp [role, Ne.symm hm]
      · simpa [role] using Move.made hs'
  | semgetAgain =>
    simp only [get] at h
    rcases hk : k.key with _ | semid
    · rw [hk] at h
      cases h
      exact Or.inl (turned_quit _ _ _)
    · rw [hk] at h
      cases h
      exact Or.inl (turned_still fun _ => rfl)
  | stat semid j =>
    simp only [get] at h
    rcases hlive : k.live semid with _ | s
    · rw [hlive] at h
      cases h
      exact Or.inl (turned_quit _ _ _)
    · rw [hlive] at h
      dsimp only at h
      split_ifs at h with hotime
      · cases h
        refine Or.inl (turned_same semid (fun m hm => ?_) (fun x hx => ?_)
          fun hle => ?_)
        · simp [role, Ne.symm hm]
        · obtain rfl : s = x := Option.some.inj ((live_eq_some.mp hlive).1.symm.trans hx)
          simpa [role] using Move.found hotime
        · have hlt := lt_of_live hlive
          omega
      · cases h
        exact Or.inl (turned_still fun _ => rfl)
      · cases h
        exact Or.inl (turned_quit _ _ _)
  | idle | has | dec | held | exited => cases h

lemma dec_turned (h : dec k p semid wait = some (a', k')) :
    Turned p (.dec semid wait) a' k k' := by
  unfold dec at h
  rcases hlive : k.live semid with _ | s
  · rw [hlive] at h
    cases h
    exact turned_still fun _ => rfl
  · rw [hlive] at h
    dsimp only at h
    rcases hs : s.semop p (-1) true with _ | s'
    · rw [hs] at h
      dsimp only at h
      split_ifs at h
      cases h
      exact turned_still fun _ => rfl
    · rw [hs] at h
      cases h
      obtain ⟨hsem, hl⟩ := live_eq_some.mp hlive
      refine turned_put hlive ((semop_removed hs).trans hl) (fun m hm => ?_) ?_
      · simp [role, Ne.symm hm]
      · simpa [role] using Move.take hl hs

lemma inc_turned (h : inc k p semid = some (a', k')) : Turned p (.held semid) a' k k' := by
  unfold inc at h
  rcases hlive : k.live semid with _ | s
  · rw [hlive] at h
    cases h
    refine turned_same semid (fun m hm => ?_) (fun x hx => ?_) fun _ hrole => ?_
    · simp [role, Ne.symm hm]
    · have hgone : x.removed = true := by
        by_contra hr
        rw [live_eq_some.mpr ⟨hx, by simpa using hr⟩] at hlive
        cases hlive
      simpa [role] using Move.lose hgone
    · simp [role] at hrole
  · rw [hlive] at h
    obtain ⟨s', hs', heq⟩ := Option.map_eq_some_iff.mp h
    cases heq
    obtain ⟨hsem, hl⟩ := live_eq_some.mp hlive
    refine turned_put hlive ((semop_removed hs').trans hl) (fun m hm => ?_) ?_
    · simp [role, Ne.symm hm]
    · simpa [role] using Move.give hl hs'

/-- A turn moves what the process is to each set, and may create one. -/
lemma turn_cases (h : turn k p a call = some (a', k')) :
    Turned p a a' k k' ∨ ∃ value val, a = .semget value ∧ k.key = none ∧
      a' = .setval k.sems.length value ∧ k' = k.create val value := by
  cases call with
  | go val =>
    cases a with
    | dec semid wait => exact Or.inl (dec_turned h)
    | semget | setval | semop | semgetAgain | stat =>
      simp only [turn] at h
      obtain hturned | ⟨value, heq⟩ := get_cases h
      · exact Or.inl hturned
      · exact Or.inr ⟨value, val, heq⟩
    | idle | has | held | exited => cases h
  | inc =>
    cases a <;> try cases h
    exact Or.inl (inc_turned h)
  | remove =>
    cases a <;> try cases h
    exact Or.inl (turned_remove _ _ _)
  | ends =>
    cases a <;> cases h <;> exact Or.inl (turned_quit _ _ _)
  | fails =>
    cases a <;> cases h
    case fails.dec.refl => exact Or.inl (turned_still fun _ => rfl)
    all_goals exact Or.inl (turned_quit _ _ _)
  | get value =>
    cases a <;> cases h
    exact Or.inl (turned_still fun _ => rfl)
  | dec wait =>
    cases a <;> cases h
    exact Or.inl (turned_still fun _ => rfl)
  | interrupted =>
    cases a <;> cases h
    refine Or.inl (turned_still fun m => ?_)
    split_ifs <;> rfl
  | expires =>
    rcases a with _ | _ | _ | _ | _ | _ | _ | ⟨semid, _ | _ | _⟩ | _ | _ <;> cases h
    exact Or.inl (turned_still fun _ => rfl)

/-! ### Any order -/

/-- **The invariant**: each set is in order, and nobody knows one that is still to come. -/
structure Inv (s : State) : Prop where
  sems : ∀ semid sem, s.kernel.sems[semid]? = some sem →
    SemOk (s.procs.map (role semid)) sem
  beyond : ∀ semid, s.kernel.sems.length ≤ semid → ∀ a ∈ s.procs, role semid a = .other
  key : KeyOk s.kernel

variable {st st' : State} {procs : List At}

lemma Inv.turned (h : Inv ⟨procs, k⟩) (ha : procs[p]? = some a) (ht : Turned p a a' k k') :
    Inv ⟨procs.set p a', k'⟩ := by
  refine ⟨fun semid sem' hsem' => ?_, fun semid hle => ?_, ht.key h.key⟩
  · have hlt : semid < k.sems.length :=
      ht.length ▸ (List.getElem?_eq_some_iff.mp hsem').1
    obtain ⟨sem₁, hsem₁, hmove⟩ := ht.sems semid _ (List.getElem?_eq_getElem hlt)
    obtain rfl : sem₁ = sem' := Option.some.inj (hsem₁.symm.trans hsem')
    have hok := h.sems semid _ (List.getElem?_eq_getElem hlt)
    rw [List.map_set]
    exact hok.move (by simp [ha]) hmove
  · replace hle : k.sems.length ≤ semid := ht.length ▸ hle
    refine Pool.forall_set (h.beyond semid hle) (ht.beyond semid hle ?_)
    exact h.beyond semid hle a (List.mem_of_getElem? ha)

lemma semOk_new (h : ∀ r ∈ rs, r = .other) (p val : ℕ) (value : UInt32) :
    SemOk (rs.set p (.setval value)) ⟨val, false, fun _ => 0, false, value⟩ := by
  have hmem : ∀ x ∈ rs.set p (.setval value), x = .other ∨ x = .setval value := fun x hx =>
    (List.mem_or_eq_of_mem_set hx).imp (h x) id
  refine ⟨?_, ?_, fun _ _ _ => rfl, ?_, ?_, fun _ q => ?_, by simp, by simp, by simp⟩
  · exact Pool.AtMostOne.set_of_none fun x hx => by simp [h x hx, Role.creates]
  · rintro v (hv | hv)
    · simpa using hmem _ hv
    · simpa using hmem _ hv
  · intro _ x hx
    rcases hmem x hx with rfl | rfl <;> rfl
  · intro v hv
    simpa using hmem _ hv
  · rw [if_neg]
    intro hq
    simpa using hmem _ (List.mem_of_getElem? hq)

lemma Inv.create (h : Inv ⟨procs, k⟩) (ha : procs[p]? = some (.semget value))
    (hk : k.key = none) (val : ℕ) :
    Inv ⟨procs.set p (.setval k.sems.length value), k.create val value⟩ := by
  have hlen : (k.create val value).sems.length = k.sems.length + 1 := by simp [Kernel.create]
  refine ⟨fun semid sem hsem => ?_, fun semid hle => ?_, fun semid => ?_⟩
  · rw [List.map_set]
    rcases Nat.lt_or_ge semid k.sems.length with hlt | hge
    · have hold : k.sems[semid]? = some sem := by
        rwa [Kernel.create, List.getElem?_append_left hlt] at hsem
      have hrole : role semid (.setval k.sems.length value) = role semid (.semget value) := by
        simp [role, Nat.ne_of_gt hlt]
      rw [hrole]
      exact (h.sems semid sem hold).keep (by simp [ha])
    · obtain rfl : semid = k.sems.length := by
        have hlt : semid < (k.create val value).sems.length :=
          (List.getElem?_eq_some_iff.mp hsem).1
        omega
      obtain rfl : (⟨val, false, fun _ => 0, false, value⟩ : Sem) = sem := by
        simpa [Kernel.create] using hsem
      have hnobody : ∀ r ∈ procs.map (role k.sems.length), r = .other := by
        simpa using h.beyond k.sems.length (Nat.le_refl _)
      simpa [role] using semOk_new hnobody p val value
  · replace hle : k.sems.length + 1 ≤ semid := hlen ▸ hle
    have hbefore : k.sems.length ≤ semid := by omega
    have hne : k.sems.length ≠ semid := by omega
    exact Pool.forall_set (h.beyond semid hbefore) (by simp [role, hne])
  · have hnone : ∀ m, k.live m = none := by
      intro m
      by_contra hne
      have hm := (h.key m).mpr (Option.isSome_iff_ne_none.mpr hne)
      rw [hk] at hm
      cases hm
    have hlive : (k.create val value).live semid =
        if semid = k.sems.length then some ⟨val, false, fun _ => 0, false, value⟩ else none := by
      rcases Nat.lt_trichotomy semid k.sems.length with hlt | rfl | hgt
      · rw [if_neg (by omega), ← hnone semid]
        unfold Kernel.live Kernel.create
        rw [List.getElem?_append_left hlt]
      · simp [Kernel.live, Kernel.create, Option.filter]
      · rw [if_neg (by omega)]
        unfold Kernel.live Kernel.create
        rw [List.getElem?_eq_none (by simp; omega)]
        rfl
    rw [hlive]
    unfold Kernel.create
    split_ifs with heq
    · simp [heq]
    · simp [Ne.symm heq]

lemma inv_step {act : ℕ × Call} (h : Inv st) (hs : machine.step st act = some st') : Inv st' := by
  obtain ⟨p, call⟩ := act
  obtain ⟨a, ha, hs⟩ := Option.bind_eq_some_iff.mp hs
  obtain ⟨⟨a', k'⟩, hturn, heq⟩ := Option.bind_eq_some_iff.mp hs
  cases heq
  obtain hturned | ⟨value, val, rfl, hk, rfl, rfl⟩ := turn_cases hturn
  · exact h.turned ha hturned
  · exact h.create ha hk val

lemma inv_reach (h : machine.Reach (fun _ _ => True) st) : Inv st := by
  refine h.invariant (fun s hs => ?_) fun s act s' hi _ hs => inv_step hi hs
  obtain ⟨hidle, hkernel⟩ := hs
  refine ⟨fun semid sem hsem => ?_, fun semid _ a ha => ?_, fun semid => ?_⟩
  · rw [hkernel] at hsem
    cases hsem
  · rw [hidle a ha]
    rfl
  · simp [hkernel, Kernel.live]

/-- The processes that have taken a unit of the set and not returned it. -/
def holders (semid : ℕ) (procs : List At) : ℕ := (procs.map (role semid)).countP Role.holds

variable {sem : Sem}

/-- **Finding a semaphore**: of the sets that were created under the key at most one has not been
removed; each has one creator, and whoever has come out of `get` with it, the creator or another
one, has it initialised, with a value that the type of `sem_op` does not make negative. -/
theorem get_initialised (h : machine.Reach (fun _ _ => True) st)
    (hsem : st.kernel.sems[semid]? = some sem) :
    (∀ semid' sem', st.kernel.sems[semid']? = some sem' → sem.removed = false →
      sem'.removed = false → semid' = semid) ∧
    (st.procs.map (role semid)).countP Role.creates ≤ 1 ∧
    (∀ a ∈ st.procs, (role semid a).creates → sem.otime = false) ∧
    ∀ a ∈ st.procs, (role semid a).uses → sem.otime = true ∧ 0 ≤ semOp sem.made := by
  have hinv := inv_reach h
  have hok := hinv.sems semid sem hsem
  refine ⟨fun semid' sem' hsem' hl hl' => ?_, hok.creators, fun a ha => ?_, fun a ha huse => ?_⟩
  · have hkey := (hinv.key semid).mpr (by simp [live_eq_some.mpr ⟨hsem, hl⟩])
    have hkey' := (hinv.key semid').mpr (by simp [live_eq_some.mpr ⟨hsem', hl'⟩])
    exact Option.some.inj (hkey'.symm.trans hkey)
  · exact hok.fresh _ (List.mem_map_of_mem ha)
  · have hotime := hok.used (List.mem_map_of_mem ha) huse
    have hbound := hok.bound hotime
    have hnonneg := hok.nonneg
    exact ⟨hotime, by omega⟩

/-- Three processes, and no set. -/
def three : State := ⟨[.idle, .idle, .idle], ⟨[], none⟩⟩

lemma three_reach : machine.Reach (fun _ _ => True) three := .start ⟨by simp [three], rfl⟩

/-- A process makes a semaphore of one unit, which another takes before it is killed; a third one
then takes it. -/
def handedOn : List (ℕ × Call) :=
  [(0, .get 1), (0, .go 7), (1, .get 1), (1, .go 0), (1, .go 0), (1, .go 0), (0, .go 0), (0, .go 0),
    (1, .go 0), (1, .dec .block), (1, .go 0), (2, .get 1), (2, .go 0), (2, .go 0), (2, .go 0),
    (2, .dec .nowait), (2, .go 0), (1, .ends), (2, .dec .timeout), (2, .go 0)]

theorem get_initialised_three : ∃ st sem, machine.runs three handedOn = some st ∧
    st.kernel.sems[0]? = some sem ∧
    (∀ semid' sem', st.kernel.sems[semid']? = some sem' → sem.removed = false →
      sem'.removed = false → semid' = 0) ∧
    (st.procs.map (role 0)).countP Role.creates ≤ 1 ∧
    (∀ a ∈ st.procs, (role 0 a).creates → sem.otime = false) ∧
    ∀ a ∈ st.procs, (role 0 a).uses → sem.otime = true ∧ 0 ≤ semOp sem.made := by
  let st := (machine.runs three handedOn).get (by decide +kernel)
  have hrun : machine.runs three handedOn = some st := (Option.some_get _).symm
  let sem := (st.kernel.sems[0]?).get (by decide +kernel)
  have hsem : st.kernel.sems[0]? = some sem := (Option.some_get _).symm
  have hreach := three_reach.runs (Machine.meets_true _ _) hrun
  exact ⟨st, sem, hrun, hsem, get_initialised hreach hsem⟩

/-- **Taking units**: no more processes have taken a unit than the creator has asked for; and what
is left is the rest of it, whichever processes have ended with a unit or without. -/
theorem units_conserved (h : machine.Reach (fun _ _ => True) st)
    (hsem : st.kernel.sems[semid]? = some sem) (hotime : sem.otime = true) :
    0 ≤ sem.val ∧ holders semid st.procs ≤ semOp sem.made ∧
      (sem.removed = false → sem.val = semOp sem.made - holders semid st.procs) ∧
      ∀ p, st.procs[p]? = some (.held semid) → sem.removed = false → sem.adj p = 1 := by
  have hok := (inv_reach h).sems semid sem hsem
  have hnonneg := hok.nonneg
  have hbound := hok.bound hotime
  unfold holders
  refine ⟨hnonneg, by omega, fun hl => ?_, fun p hp hl => ?_⟩
  · have htotal := hok.total hotime hl
    omega
  · rw [hok.adj hl p, if_pos]
    simp [hp, role]

theorem units_conserved_three : ∃ st sem, machine.runs three handedOn = some st ∧
    st.kernel.sems[0]? = some sem ∧ sem.val = 0 ∧ holders 0 st.procs = 1 ∧
    0 ≤ sem.val ∧ holders 0 st.procs ≤ semOp sem.made ∧
      (sem.removed = false → sem.val = semOp sem.made - holders 0 st.procs) ∧
      ∀ p, st.procs[p]? = some (.held 0) → sem.removed = false → sem.adj p = 1 := by
  let st := (machine.runs three handedOn).get (by decide +kernel)
  have hrun : machine.runs three handedOn = some st := (Option.some_get _).symm
  let sem := (st.kernel.sems[0]?).get (by decide +kernel)
  have hsem : st.kernel.sems[0]? = some sem := (Option.some_get _).symm
  have hreach := three_reach.runs (Machine.meets_true _ _) hrun
  exact ⟨st, sem, hrun, hsem, by decide +kernel, by decide +kernel,
    units_conserved hreach hsem (by decide +kernel)⟩

/-! ### A creator that does not come to its end -/

/-- The number of turns of a process in a run. -/
def turns (p : ℕ) (acts : List (ℕ × Call)) : ℕ := acts.countP fun act => act.1 = p

/-- Nobody creates the set or uses it, and it is not initialised. -/
structure Abandoned (st : State) (semid : ℕ) : Prop where
  sem : ∃ sem, st.kernel.sems[semid]? = some sem ∧ sem.otime = false
  roles : ∀ a ∈ st.procs, role semid a = .other

/-- Nothing can be done with it but to remove it. -/
lemma Move.abandoned (h : Move p .other r' s s') (hf : s.otime = false) :
    r' = .other ∧ s'.otime = false := by
  cases h with
  | keep => exact ⟨rfl, hf⟩
  | found hotime =>
    rw [hf] at hotime
    cases hotime
  | remove => exact ⟨rfl, hf⟩
  | ends =>
    refine ⟨rfl, ?_⟩
    unfold Sem.undo
    split_ifs <;> exact hf

lemma stat_turn {j : ℕ} (hsem : k.sems[semid]? = some s) (hf : s.otime = false)
    (h : turn k p (.stat semid j) call = some (a', k')) :
    a' = .exited ∨ a' = .stat semid (j + 1) ∧ j + 1 < maxTries := by
  cases call with
  | go val =>
    simp only [turn, get] at h
    rcases hlive : k.live semid with _ | s'
    · rw [hlive] at h
      cases h
      exact Or.inl rfl
    · rw [hlive] at h
      obtain rfl : s = s' := Option.some.inj (hsem.symm.trans (live_eq_some.mp hlive).1)
      dsimp only at h
      split_ifs at h with hotime hlt
      · rw [hf] at hotime
        cases hotime
      · cases h
        exact Or.inr ⟨rfl, hlt⟩
      · cases h
        exact Or.inl rfl
  | fails | ends =>
    cases h
    exact Or.inl rfl
  | get | dec | interrupted | expires | inc | remove => cases h

lemma abandoned_step {act : ℕ × Call} (h : Abandoned st semid)
    (hs : machine.step st act = some st') : Abandoned st' semid := by
  obtain ⟨⟨sem, hsem, hf⟩, hroles⟩ := h
  obtain ⟨p, call⟩ := act
  obtain ⟨a, ha, hs⟩ := Option.bind_eq_some_iff.mp hs
  obtain ⟨⟨a', k'⟩, hturn, heq⟩ := Option.bind_eq_some_iff.mp hs
  cases heq
  have hlt := (List.getElem?_eq_some_iff.mp hsem).1
  obtain hturned | ⟨value, val, rfl, -, rfl, rfl⟩ := turn_cases hturn
  · obtain ⟨sem', hsem', hmove⟩ := hturned.sems semid sem hsem
    rw [hroles a (List.mem_of_getElem? ha)] at hmove
    obtain ⟨hrole, hf'⟩ := hmove.abandoned hf
    exact ⟨⟨sem', hsem', hf'⟩, Pool.forall_set hroles hrole⟩
  · have hne : st.kernel.sems.length ≠ semid := by omega
    refine ⟨⟨sem, ?_, hf⟩, Pool.forall_set hroles (by simp [role, hne])⟩
    simp only [Kernel.create]
    rwa [List.getElem?_append_left hlt]

/-- Where a process is that looks at an abandoned set, after some turns of its own. -/
def Looks (st : State) (semid p j turns : ℕ) : Prop :=
  st.procs[p]? = some .exited ∨ st.procs[p]? = some (.stat semid (j + turns)) ∧
    (turns = 0 ∨ j + turns < maxTries)

lemma looks_step {act : ℕ × Call} {j n : ℕ} (h : Abandoned st semid)
    (hlooks : Looks st semid p j n) (hs : machine.step st act = some st') :
    Looks st' semid p j (n + turns p [act]) := by
  obtain ⟨⟨sem, hsem, hf⟩, -⟩ := h
  obtain ⟨q, call⟩ := act
  obtain ⟨a, ha, hs⟩ := Option.bind_eq_some_iff.mp hs
  obtain ⟨⟨a', k'⟩, hturn, heq⟩ := Option.bind_eq_some_iff.mp hs
  cases heq
  unfold Looks turns at *
  by_cases hq : q = p
  · subst hq
    have hself : (st.procs.set q a')[q]? = some a' :=
      List.getElem?_set_self (List.getElem?_eq_some_iff.mp ha).1
    have hone : List.countP (fun act : ℕ × Call => act.1 = q) [(q, call)] = 1 := by simp
    simp only [hself, hone]
    rcases hlooks with hexit | ⟨hstat, -⟩
    · obtain rfl : a = .exited := Option.some.inj (ha.symm.trans hexit)
      cases hturn
    · obtain rfl : a = .stat semid (j + n) := Option.some.inj (ha.symm.trans hstat)
      rcases stat_turn hsem hf hturn with rfl | ⟨rfl, hlt⟩
      · exact Or.inl rfl
      · exact Or.inr ⟨rfl, Or.inr hlt⟩
  · have hnone : List.countP (fun act : ℕ × Call => act.1 = p) [(q, call)] = 0 := by simp [hq]
    simpa [hnone, List.getElem?_set_ne hq] using hlooks

lemma abandoned_runs {acts : List (ℕ × Call)} (h : Abandoned st semid)
    (hrun : machine.runs st acts = some st') :
    Abandoned st' semid ∧ ∀ p j n, Looks st semid p j n →
      Looks st' semid p j (n + turns p acts) := by
  induction acts generalizing st with
  | nil =>
    cases hrun
    exact ⟨h, fun _ _ _ hlooks => hlooks⟩
  | cons act acts ih =>
    obtain ⟨st₁, hs, hrest⟩ := Option.bind_eq_some_iff.mp hrun
    obtain ⟨hend, hlater⟩ := ih (abandoned_step h hs) hrest
    refine ⟨hend, fun p j n hlooks => ?_⟩
    have hsum : turns p (act :: acts) = turns p [act] + turns p acts := by
      unfold turns
      rw [List.countP_cons, List.countP_singleton, Nat.add_comm]
    rw [hsum, ← Nat.add_assoc]
    exact hlater p j _ (looks_step h hlooks hs)

/-- **An abandoned set**: where the creator has ended before it is done, nobody comes out of `get`
with the set in any run from there, and who waits for it exits after `MAX_TRIES` looks at most. -/
theorem abandoned_set (h : machine.Reach (fun _ _ => True) st)
    (hsem : st.kernel.sems[semid]? = some sem) (hotime : sem.otime = false)
    (hdead : ∀ a ∈ st.procs, (role semid a).creates = false) {acts : List (ℕ × Call)}
    (hrun : machine.runs st acts = some st') :
    (∀ a ∈ st'.procs, (role semid a).uses = false) ∧
    ∀ p j, st.procs[p]? = some (.stat semid j) → Looks st' semid p j (turns p acts) := by
  have hstart : Abandoned st semid := by
    refine ⟨⟨sem, hsem, hotime⟩, fun a ha => ?_⟩
    have hunused := ((inv_reach h).sems semid sem hsem).unused hotime _ (List.mem_map_of_mem ha)
    have hnot := hdead a ha
    rcases hr : role semid a with _ | _ | _ | _ | _ <;> simp_all [Role.creates, Role.uses]
  obtain ⟨hend, hlooks⟩ := abandoned_runs hstart hrun
  refine ⟨fun a ha => ?_, fun p j hp => ?_⟩
  · rw [hend.roles a ha]
    rfl
  · rw [← Nat.zero_add (turns p acts)]
    exact hlooks p j 0 (Or.inr ⟨hp, Or.inl rfl⟩)

/-- A process is killed after it has created the set; another one waits for it. -/
def killed : List (ℕ × Call) :=
  [(0, .get 1), (0, .go 7), (1, .get 1), (1, .go 0), (1, .go 0), (0, .go 0), (0, .ends)]

theorem abandoned_set_three : ∃ st st', machine.runs three killed = some st ∧
    machine.runs st (List.replicate 10 (1, .go 0)) = some st' ∧
    (∀ a ∈ st'.procs, (role 0 a).uses = false) ∧
    ∀ p j, st.procs[p]? = some (.stat 0 j) →
      Looks st' 0 p j (turns p (List.replicate 10 (1, .go 0))) := by
  let st := (machine.runs three killed).get (by decide +kernel)
  have hrun : machine.runs three killed = some st := (Option.some_get _).symm
  let sem := (st.kernel.sems[0]?).get (by decide +kernel)
  have hsem : st.kernel.sems[0]? = some sem := (Option.some_get _).symm
  let st' := (machine.runs st (List.replicate 10 (1, .go 0))).get (by decide +kernel)
  have hrun' : machine.runs st (List.replicate 10 (1, .go 0)) = some st' :=
    (Option.some_get _).symm
  have hreach := three_reach.runs (Machine.meets_true _ _) hrun
  exact ⟨st, st', hrun, hrun',
    abandoned_set hreach hsem (by decide +kernel) (by decide +kernel) hrun'⟩

end Hoststack.SemUtil
