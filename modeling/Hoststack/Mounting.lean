import Hoststack.Unmounting

/-!
Which entries of the mount table are mounted, and how often.

The mounting loop holds a pointer to the entry of its turn and an index that it moves on after
the pointer; both are kept here, so that it can be said where the loop ends.
-/

namespace Hoststack.Mounting

open Hoststack.Path PathAssembler ContainerFs Unmounting

/-- The loop of `mount_container`, with its pointer and its index: what it leaves, where the
pointer is then, and whether the process goes on. Behind the table is the null source. -/
def walk (env : Env) (containerId : Str) : ℕ → ℕ → ℕ → FsState → Option (ℕ × FsState × Bool)
  | 0, _, _, _ => none
  | fuel + 1, mntDir, i, s =>
    match env.table[mntDir]? with
    | none => some (mntDir, s, true)
    | some entry =>
      match mountEntry env containerId entry s with
      | (s, false) => some (mntDir, s, false)
      | (s, true) => walk env containerId fuel i (i + 1) s

/-- The call of `mount` for an entry. -/
def entryMount (containerId : Str) (mntDir : MntDir) : FsCall :=
  let subdiff := snprintf 1024 (getDiffDir containerId ++ mntDir.target)
  let subwork := snprintf 1024 (getWorkDir containerId ++ mntDir.target)
  let target := snprintf 1024 (getMergedDir containerId ++ mntDir.target)
  if mntDir.type = "aufs".toList then
    let data := snprintf 1024
      ("dirs=".toList ++ subdiff ++ "=rw:".toList ++ mntDir.src ++ "=ro".toList)
    .mount "none".toList target "aufs".toList false (some data)
  else if mntDir.type = fsType then
    let data := snprintf 1024 ("lowerdir=".toList ++ mntDir.src ++ ",upperdir=".toList ++
      subdiff ++ ",workdir=".toList ++ subwork)
    .mount "overlay".toList target "overlay".toList false (some data)
  else .mount mntDir.src target mntDir.type false none

def isMount : FsCall → Bool
  | .mount .. => true
  | _ => false

/-- The calls of `mount` so far. -/
def mountCalls (s : FsState) : List FsCall := s.calls.filter isMount

/-- The calls for entries in order, without those for overlays that the host does not have. -/
def entryCalls (env : Env) (containerId : Str) (entries : List MntDir) : List FsCall :=
  (entries.filter (mounted env)).map (entryMount containerId)

/-- No mount fails. -/
def unfailing (table : List MntDir) (exist : List Str → Bool) : Env :=
  ⟨table, exist, fun _ => true, fun _ => true⟩

/-- The loop ends at the null source and has mounted each entry once, in order. -/
def MountsOnce (table : List MntDir) (exist : List Str → Bool) (containerId : Str) : Prop :=
  ∀ s, ∃ fuel s', walk (unfailing table exist) containerId fuel 0 0 s =
      some (table.length, s', true) ∧
    mountCalls s' = mountCalls s ++ entryCalls (unfailing table exist) containerId table

variable {env : Env} {containerId : Str} {s : FsState} {e : MntDir} {l : List MntDir}

/-! ### One turn -/

lemma mountCalls_call {c : FsCall} :
    mountCalls (s.call c) = mountCalls s ++ if isMount c then [c] else [] := by
  unfold mountCalls FsState.call
  rw [List.filter_append, List.filter_singleton, Bool.cond_eq_ite]

lemma mountCalls_mount (source target type : Str) (bind : Bool) (data : Option Str) :
    mountCalls (s.mount env source target type bind data).1 =
      mountCalls s ++ [.mount source target type bind data] := by
  have hcall : mountCalls (s.call (.mount source target type bind data)) =
      mountCalls s ++ [.mount source target type bind data] := mountCalls_call
  unfold FsState.mount
  dsimp only
  split_ifs
  · exact hcall
  · exact hcall

@[simp] lemma mountCalls_mkdirR (path : Str) :
    mountCalls (s.call (.mkdirR path)) = mountCalls s := by
  rw [mountCalls_call]
  exact List.append_nil _

lemma entryCalls_append (l l' : List MntDir) :
    entryCalls env containerId (l ++ l') =
      entryCalls env containerId l ++ entryCalls env containerId l' := by
  simp [entryCalls]

lemma entryCalls_cons :
    entryCalls env containerId (e :: l) =
      entryCalls env containerId [e] ++ entryCalls env containerId l :=
  entryCalls_append [e] l

lemma mounted_of_ne (h : e.type ≠ fsType) : mounted env e = true := by
  unfold mounted
  rw [decide_eq_true h, Bool.true_or]

lemma mountCalls_mountEntry (e : MntDir) (s : FsState) :
    mountCalls (mountEntry env containerId e s).1 =
      mountCalls s ++ entryCalls env containerId [e] := by
  unfold mountEntry entryCalls entryMount
  by_cases haufs : e.type = "aufs".toList
  · have hm : mounted env e = true := mounted_of_ne (by rw [haufs]; decide)
    rw [List.filter_cons_of_pos hm, if_pos haufs]
    dsimp only
    rw [mountCalls_mount, mountCalls_mkdirR, List.filter_nil, List.map_singleton, if_pos haufs]
  · by_cases hover : e.type = fsType
    · rcases hex : env.exist (resolve e.target) with _ | _
      · have hm : ¬ mounted env e = true := by simp [mounted, onHost, hover, hex]
        rw [List.filter_cons_of_neg hm, if_neg haufs, if_pos hover, if_neg (by simp)]
        dsimp only
        rw [mountCalls_mkdirR, mountCalls_mkdirR, List.filter_nil, List.map_nil, List.append_nil]
      · have hm : mounted env e = true := by simp [mounted, onHost, hex]
        rw [List.filter_cons_of_pos hm, if_neg haufs, if_pos hover, if_pos rfl]
        dsimp only
        rw [mountCalls_mount, mountCalls_mkdirR, mountCalls_mkdirR, List.filter_nil,
          List.map_singleton, if_neg haufs, if_pos hover]
    · have hm : mounted env e = true := mounted_of_ne hover
      rw [List.filter_cons_of_pos hm, if_neg haufs, if_neg hover]
      dsimp only
      rw [mountCalls_mount, List.filter_nil, List.map_singleton, if_neg haufs, if_neg hover]

lemma mount_unfailing (hok : ∀ n, env.mountOk n = true) (source target type : Str) (bind : Bool)
    (data : Option Str) : (s.mount env source target type bind data).2 = true := by
  unfold FsState.mount
  rw [if_pos (hok _)]

lemma mountEntry_unfailing (hok : ∀ n, env.mountOk n = true) (e : MntDir) (s : FsState) :
    (mountEntry env containerId e s).2 = true := by
  unfold mountEntry
  dsimp only
  split_ifs
  · exact mount_unfailing hok ..
  · exact mount_unfailing hok ..
  · rfl
  · rfl

/-! ### The loop -/

lemma walk_entry (hok : ∀ n, env.mountOk n = true) {mntDir i fuel : ℕ}
    (he : env.table[mntDir]? = some e) :
    walk env containerId (fuel + 1) mntDir i s =
      walk env containerId fuel i (i + 1) (mountEntry env containerId e s).1 := by
  have hgo : (mountEntry env containerId e s).2 = true := mountEntry_unfailing hok e s
  conv_lhs => unfold walk
  rw [he]
  dsimp only
  rcases hr : mountEntry env containerId e s with ⟨s', ok⟩
  rw [hr] at hgo
  cases hgo
  rfl

variable (containerId) in
/-- Once the index is ahead of the pointer, the loop takes the entries that are left, each
once, and ends behind them. The induction is on their number. -/
lemma walk_ahead (hok : ∀ n, env.mountOk n = true) (k : ℕ) {mntDir : ℕ} (s : FsState)
    (hk : mntDir + k = env.table.length) :
    ∃ s', walk env containerId (k + 1) mntDir (mntDir + 1) s =
        some (env.table.length, s', true) ∧
      mountCalls s' = mountCalls s ++ entryCalls env containerId (env.table.drop mntDir) := by
  induction k generalizing mntDir s with
  | zero =>
    have hend : mntDir = env.table.length := by omega
    refine ⟨s, ?_, ?_⟩
    · unfold walk
      rw [List.getElem?_eq_none (by omega), hend]
    · rw [List.drop_eq_nil_of_le (by omega)]
      simp [entryCalls]
  | succ k ih =>
    have hlt : mntDir < env.table.length := by omega
    have he : env.table[mntDir]? = some env.table[mntDir] := List.getElem?_eq_getElem hlt
    obtain ⟨s', hrun, hcalls⟩ := ih (mountEntry env containerId env.table[mntDir] s).1
      (show mntDir + 1 + k = _ by omega)
    refine ⟨s', ?_, ?_⟩
    · rw [walk_entry hok he]
      exact hrun
    · rw [hcalls, mountCalls_mountEntry, List.append_assoc, ← entryCalls_cons,
        List.getElem_cons_drop]

variable (containerId) in
/-- The whole loop: at first the index is not ahead, and the first entry is taken twice. -/
lemma walk_calls (hok : ∀ n, env.mountOk n = true) (s : FsState) :
    ∃ s', walk env containerId (env.table.length + 2) 0 0 s = some (env.table.length, s', true) ∧
      mountCalls s' =
        mountCalls s ++ entryCalls env containerId (env.table.take 1 ++ env.table) := by
  rcases ht : env.table with _ | ⟨first, rest⟩
  · refine ⟨s, ?_, ?_⟩
    · unfold walk
      simp [ht]
    · simp [entryCalls]
  · have hfirst : env.table[0]? = some first := by rw [ht]; rfl
    obtain ⟨s', hrun, hcalls⟩ := walk_ahead containerId hok env.table.length
      (mountEntry env containerId first s).1 (Nat.zero_add _)
    rw [ht] at hrun hcalls
    refine ⟨s', ?_, ?_⟩
    · rw [walk_entry hok hfirst]
      exact hrun
    · rw [hcalls, mountCalls_mountEntry, List.drop_zero, List.append_assoc, ← entryCalls_append]
      rfl

lemma walk_mountLoop {rest : List MntDir} {mntDir i : ℕ} (s : FsState)
    (he : env.table[mntDir]? = some e) (hrest : env.table.drop i = rest) :
    ∃ k, walk env containerId (rest.length + 2) mntDir i s =
      some (k, mountLoop env containerId rest e s) := by
  induction rest generalizing mntDir i e s with
  | nil =>
    have hend : env.table.length ≤ i := List.drop_eq_nil_iff.mp hrest
    unfold walk mountLoop
    rw [he]
    dsimp only
    rcases hr : mountEntry env containerId e s with ⟨s', _ | _⟩
    · exact ⟨mntDir, rfl⟩
    · refine ⟨i, ?_⟩
      unfold walk
      rw [List.getElem?_eq_none hend]
  | cons next rest ih =>
    have hnext : env.table[i]? = some next := by
      rw [← List.head?_drop, hrest]
      rfl
    have hdrop : env.table.drop (i + 1) = rest := by
      rw [← List.tail_drop, hrest]
      rfl
    unfold walk mountLoop
    rw [he]
    dsimp only
    rcases hr : mountEntry env containerId e s with ⟨s', _ | _⟩
    · exact ⟨mntDir, rfl⟩
    · exact ih s' hnext hdrop

/-- **The pointer and the index** are what the model of the loop over the list leaves out. -/
theorem walk_eq_mountContainer (env : Env) (containerId : Str) (s : FsState) :
    ∃ fuel k, walk env containerId fuel 0 0 s = some (k, mountContainer env containerId s) := by
  unfold mountContainer
  rcases ht : env.table with _ | ⟨first, rest⟩
  · refine ⟨1, 0, ?_⟩
    unfold walk
    rw [ht]
    rfl
  · have hfirst : env.table[0]? = some first := by rw [ht]; rfl
    exact ⟨_, walk_mountLoop s hfirst ht⟩

/-! ### Once -/

variable {table : List MntDir} {exist : List Str → Bool}

lemma walk_mono {fuel fuel' mntDir i : ℕ} {out : ℕ × FsState × Bool} (hle : fuel ≤ fuel')
    (h : walk env containerId fuel mntDir i s = some out) :
    walk env containerId fuel' mntDir i s = some out := by
  induction fuel generalizing fuel' mntDir i s with
  | zero => cases h
  | succ fuel ih =>
    obtain ⟨n, rfl⟩ : ∃ n, fuel' = n + 1 := ⟨fuel' - 1, by omega⟩
    unfold walk at h ⊢
    rcases he : env.table[mntDir]? with _ | e
    · rw [he] at h
      exact h
    · rw [he] at h
      dsimp only at h ⊢
      rcases hr : mountEntry env containerId e s with ⟨s', _ | _⟩
      · rw [hr] at h
        exact h
      · rw [hr] at h
        exact ih (by omega) h

variable (containerId table exist) in
lemma walk_unfailing (s : FsState) :
    ∃ s', walk (unfailing table exist) containerId (table.length + 2) 0 0 s =
        some (table.length, s', true) ∧
      mountCalls s' = mountCalls s ++
        (entryCalls (unfailing table exist) containerId (table.take 1) ++
          entryCalls (unfailing table exist) containerId table) := by
  have hok : ∀ n, (unfailing table exist).mountOk n = true := fun _ => rfl
  obtain ⟨s', hrun, hcalls⟩ := walk_calls containerId hok s
  rw [entryCalls_append] at hcalls
  exact ⟨s', hrun, hcalls⟩

lemma mountsOnce_iff_calls :
    MountsOnce table exist containerId ↔
      entryCalls (unfailing table exist) containerId (table.take 1) = [] := by
  constructor
  · intro h
    obtain ⟨fuel, s₁, hrun₁, hcalls₁⟩ := h ⟨[], []⟩
    obtain ⟨s₂, hrun₂, hcalls₂⟩ := walk_unfailing containerId table exist ⟨[], []⟩
    have hsame : some (table.length, s₁, true) = some (table.length, s₂, true) := by
      rcases Nat.le_total fuel (table.length + 2) with hle | hle
      · exact (walk_mono hle hrun₁).symm.trans hrun₂
      · exact hrun₁.symm.trans (walk_mono hle hrun₂)
    cases hsame
    rw [hcalls₁, ← List.append_assoc] at hcalls₂
    exact List.append_right_eq_self.mp (List.append_cancel_right hcalls₂).symm
  · intro hnil s
    obtain ⟨s', hrun, hcalls⟩ := walk_unfailing containerId table exist s
    refine ⟨_, s', hrun, ?_⟩
    rw [hcalls, hnil, List.nil_append]

/-- **Each entry is mounted once**, and the loop ends at the null source, exactly when the first
entry, if there is one, is an overlay that the host does not have. -/
theorem mountsOnce_iff (table : List MntDir) (exist : List Str → Bool) (containerId : Str) :
    MountsOnce table exist containerId ↔
      ∀ first ∈ table.head?, first.type = fsType ∧ exist (resolve first.target) = false := by
  rw [mountsOnce_iff_calls]
  rcases table with _ | ⟨first, rest⟩
  · simp [entryCalls]
  · simp [entryCalls, mounted, onHost, unfailing]

/-- With the table of the source on a host that has its paths, the first overlay is mounted
over itself. -/
theorem mounted_twice : ¬ MountsOnce mntDirArr (fun _ => true) "c1".toList := by
  rw [mountsOnce_iff_calls]
  exact List.cons_ne_nil _ _

end Hoststack.Mounting
