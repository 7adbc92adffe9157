import Hoststack.ContainerFs

/-!
Whether unmounting undoes mounting.

The mounting loop takes the first entry of the table twice, and the unmounting loop tries the
first existing entry twice; an entry is mounted when it is not an overlay or exists on the
host, and unmounted when it exists. The path of a mount is cut off where it does not fit its
buffer, the path of an attempt to unmount is not. What is left is counted path by path; the
volumes are unmounted from a set that is gone, so that there may be none.
-/

namespace Hoststack.Unmounting

open MountStack Hoststack.Path UsgCommon PathAssembler ContainerFs

/-- The targets are absolute, do not go up, and come before what is below them. -/
structure TableOk (table : List MntDir) : Prop where
  absolute : ∀ e ∈ table, e.target.head? = some '/'
  descending : ∀ e ∈ table, Descending e.target
  parentsFirst : table.Pairwise fun a b => ¬ Below (resolve b.target) (resolve a.target)

variable {env : Env} {containerId : Str} {s : FsState} {e : MntDir} {l : List MntDir}
  {volumeList : OrdSet Str} {p q : List Str}

/-- The target of the entry exists on the host. -/
def onHost (env : Env) (e : MntDir) : Bool := env.exist (resolve e.target)

/-- The mounting loop mounts the entry. -/
def mounted (env : Env) (e : MntDir) : Bool := e.type ≠ fsType || onHost env e

/-- The mounting loop mounts the entry and the unmounting loop does not try it. -/
def stray (env : Env) (e : MntDir) : Bool := e.type ≠ fsType && !onHost env e

/-- Where an entry is mounted, seen from the host; the buffer may cut the path off. -/
def mountPath (containerId : Str) (e : MntDir) : List Str :=
  resolve (snprintf 1024 (getMergedDir containerId ++ e.target))

/-- A path below the merged directory, seen from the host. -/
def inside (containerId : Str) (p : List Str) : List Str := resolve (getMergedDir containerId) ++ p

/-- The turns of the mounting loop, which takes the first entry twice. -/
def turns (env : Env) : List MntDir := env.table.take 1 ++ env.table

/-- The paths at which the table is mounted, in order. -/
def tableMounts (env : Env) (containerId : Str) : List (List Str) :=
  ((turns env).filter (mounted env)).map (mountPath containerId)

/-- Those of them that are never tried to unmount. -/
def strayPaths (env : Env) (containerId : Str) : List (List Str) :=
  ((turns env).filter (stray env)).map (mountPath containerId)

/-- The paths of the entries that exist, in the order of the table. -/
def tablePaths (env : Env) : List (List Str) :=
  (env.table.filter (onHost env)).map fun e => resolve e.target

/-- The path of the entry fits the buffer it is printed into. -/
def Fits (containerId : Str) (e : MntDir) : Prop :=
  (getMergedDir containerId ++ e.target).length < 1024

instance (containerId : Str) (e : MntDir) : Decidable (Fits containerId e) :=
  inferInstanceAs (Decidable (_ < _))

/-! ### What is mounted -/

/-- A step mounts at most the paths `l`, and all of them if no mount fails. -/
structure Pushes (env : Env) (l : List (List Str)) (s : FsState) (out : FsState × Bool) :
    Prop where
  le : ∀ q, times out.1.mounts q ≤ times s.mounts q + times l q
  full : (∀ n, env.mountOk n = true) →
    out.2 = true ∧ ∀ q, times out.1.mounts q = times s.mounts q + times l q

lemma pushes_nil : Pushes env [] s (s, true) := ⟨by simp, by simp⟩

lemma Pushes.call {l : List (List Str)} {out : FsState × Bool} {c : FsCall}
    (h : Pushes env l (s.call c) out) : Pushes env l s out :=
  ⟨h.le, h.full⟩

lemma pushes_mount (source target type : Str) (bind : Bool) (data : Option Str) :
    Pushes env [resolve target] s (s.mount env source target type bind data) := by
  unfold FsState.mount
  dsimp only
  split_ifs with hok
  · refine ⟨fun q => ?_, fun _ => ⟨rfl, fun q => ?_⟩⟩ <;>
      simp [times_cons]
  · exact ⟨fun q => Nat.le_add_right _ _, fun hall => absurd (hall _) hok⟩

lemma Pushes.ignore {l : List (List Str)} {out : FsState × Bool} (h : Pushes env l s out) :
    Pushes env l s (out.1, true) :=
  ⟨h.le, fun hall => ⟨rfl, (h.full hall).2⟩⟩

lemma Pushes.bind {l l' : List (List Str)} {out out' : FsState × Bool} (h : Pushes env l s out)
    (hstop : out.2 = false → out' = out) (hgo : out.2 = true → Pushes env l' out.1 out') :
    Pushes env (l ++ l') s out' := by
  rcases hout : out.2 with _ | _
  · rw [hstop hout]
    refine ⟨fun q => ?_, fun hall => ?_⟩
    · have := h.le q
      rw [times_append]; omega
    · rw [(h.full hall).1] at hout; cases hout
  · have h' := hgo hout
    refine ⟨fun q => ?_, fun hall => ⟨(h'.full hall).1, fun q => ?_⟩⟩
    · have h1 := h.le q
      have h2 := h'.le q
      rw [times_append]; omega
    · rw [times_append, (h'.full hall).2 q, (h.full hall).2 q, Nat.add_assoc]

variable (env containerId s) in
lemma mountEntry_pushes (e : MntDir) :
    Pushes env (if mounted env e then [mountPath containerId e] else []) s
      (mountEntry env containerId e s) := by
  unfold mountEntry mountPath
  dsimp only
  by_cases hover : e.type = fsType
  · have haufs : e.type ≠ "aufs".toList := by rw [hover]; decide
    rw [if_neg haufs, if_pos hover]
    rcases hex : env.exist (resolve e.target) with _ | _
    · rw [if_neg (by simp [mounted, onHost, hover, hex]), if_neg (by simp)]
      exact pushes_nil.call.call
    · rw [if_pos (by simp [mounted, onHost, hex]), if_pos rfl]
      exact (pushes_mount _ _ _ _ _).call.call
  · rw [if_pos (by simp [mounted, hover]), if_neg hover]
    split_ifs
    · exact (pushes_mount _ _ _ _ _).call
    · exact (pushes_mount _ _ _ _ _).ignore

lemma mountLoop_pushes {rest : List MntDir} :
    Pushes env (((e :: rest).filter (mounted env)).map (mountPath containerId)) s
      (mountLoop env containerId rest e s) := by
  induction rest generalizing e s with
  | nil =>
    have he := mountEntry_pushes env containerId s e
    unfold mountLoop
    rcases hm : mounted env e with _ | _ <;> simpa [hm] using he
  | cons next rest ih =>
    have he := mountEntry_pushes env containerId s e
    have hsplit : ((e :: next :: rest).filter (mounted env)).map (mountPath containerId) =
        (if mounted env e then [mountPath containerId e] else []) ++
          ((next :: rest).filter (mounted env)).map (mountPath containerId) := by
      rw [List.filter_cons]
      split_ifs <;> rfl
    rw [hsplit]
    refine he.bind (fun hf => ?_) fun hg => ?_
    · unfold mountLoop
      rcases hr : mountEntry env containerId e s with ⟨s', ok⟩
      rw [hr] at hf
      cases hf
      rfl
    · unfold mountLoop
      rcases hr : mountEntry env containerId e s with ⟨s', ok⟩
      rw [hr] at hg
      cases hg
      exact ih

variable (env containerId s) in
lemma mountContainer_pushes :
    Pushes env (tableMounts env containerId) s (mountContainer env containerId s) := by
  unfold mountContainer tableMounts turns
  rcases env.table with _ | ⟨first, rest⟩
  · exact pushes_nil
  · exact mountLoop_pushes

variable (env containerId s) in
/-- **Mounting** without volumes mounts at most the paths of the table, and all of them if no
mount fails. -/
theorem mountAll_pushes (hv : volumeList.elems = []) :
    ∃ out, mountAll env containerId volumeList s = some out ∧
      Pushes env (tableMounts env containerId) s out := by
  have htable := mountContainer_pushes env containerId s
  unfold mountAll mountVolumeList
  rw [hv]
  rcases hr : mountContainer env containerId s with ⟨s', _ | _⟩
  · exact ⟨_, rfl, hr ▸ htable⟩
  · exact ⟨_, rfl, hr ▸ htable⟩

/-! ### What is tried to unmount -/

/-- The attempts, with the path `last` tried once more after the table. -/
def tableAttempts (env : Env) (last : List Str) : List (List Str) :=
  (tablePaths env).reverse ++ [last]

/-- The first entry that exists on the host, whose path the unmounting loop prints last. -/
def firstExisting (env : Env) : Option MntDir := env.table.find? (onHost env)

lemma resolve_target (ha : e.target.head? = some '/') (hd : Descending e.target) :
    resolve (getMergedDir containerId ++ e.target) = inside containerId (resolve e.target) := by
  obtain ⟨x, hx⟩ := List.head?_eq_some_iff.mp ha
  refine resolve_of_components hd ?_
  rw [hx, components_append, components_slash]

lemma umountEntry_of_fits (hf : onHost env e → Fits containerId e) (s : FsState)
    (line : Option Str) :
    umountEntry env containerId (s, line) e =
      some (if onHost env e then
        (s.umount2 (getMergedDir containerId ++ e.target),
          some (getMergedDir containerId ++ e.target))
      else (s, line)) := by
  unfold onHost at hf ⊢
  unfold umountEntry sprintf
  by_cases he : env.exist (resolve e.target)
  · have hfit : (getMergedDir containerId ++ e.target).length < 1024 := hf he
    rw [if_pos he, if_pos hfit, if_pos he]
    rfl
  · rw [if_neg he, if_neg he]

lemma umountEntry_of_not_fits (he : onHost env e) (hf : ¬ Fits containerId e)
    (out : FsState × Option Str) : umountEntry env containerId out e = none := by
  have hfit : ¬ (getMergedDir containerId ++ e.target).length < 1024 := hf
  unfold onHost at he
  unfold umountEntry sprintf
  rw [if_pos he, if_neg hfit]
  rfl

variable (s) in
lemma umountEntries
    (h : ∀ e ∈ l, e.target.head? = some '/' ∧ Descending e.target)
    (hf : ∀ e ∈ l, onHost env e → Fits containerId e) (line : Option Str) :
    ∃ s', l.foldlM (umountEntry env containerId) (s, line) =
        some (s', ((l.filter (onHost env)).getLast?.map fun e =>
          getMergedDir containerId ++ e.target).or line) ∧
      s'.mounts = umountAll s.mounts
        (((l.filter (onHost env)).map fun e => resolve e.target).map (inside containerId)) := by
  induction l generalizing s line with
  | nil => exact ⟨s, rfl, rfl⟩
  | cons e l ih =>
    obtain ⟨ha, hd⟩ := h e (by simp)
    have hrest := fun x hx => h x (List.mem_cons_of_mem _ hx)
    have hfrest := fun x hx => hf x (List.mem_cons_of_mem _ hx)
    rw [List.foldlM_cons, umountEntry_of_fits (hf e (by simp)), Option.bind_eq_bind,
      Option.bind_some]
    by_cases hex : onHost env e
    · rw [if_pos hex, List.filter_cons_of_pos hex]
      obtain ⟨s', hrun, hm⟩ := ih (s.umount2 (getMergedDir containerId ++ e.target)) hrest hfrest
        (some (getMergedDir containerId ++ e.target))
      refine ⟨s', ?_, ?_⟩
      · rw [hrun]
        rcases (l.filter (onHost env)).eq_nil_or_concat with hnil | ⟨l', x, hl⟩
        · simp [hnil]
        · simp [hl, List.getLast?_cons]
      · rw [hm, List.map_cons, List.map_cons, umountAll_cons, ← resolve_target ha hd]
        rfl
    · rw [if_neg hex, List.filter_cons_of_neg hex]
      exact ih s hrest hfrest line

lemma umountEntries_none (he : e ∈ l) (hex : onHost env e) (hf : ¬ Fits containerId e)
    (out : FsState × Option Str) : l.foldlM (umountEntry env containerId) out = none := by
  induction l generalizing out with
  | nil => cases he
  | cons x l ih =>
    rw [List.foldlM_cons]
    rcases List.mem_cons.mp he with rfl | he
    · rw [umountEntry_of_not_fits hex hf]
      rfl
    · rcases umountEntry env containerId out x with _ | out'
      · rfl
      · exact ih he out'

variable (s) in
lemma umountLoop_run (h : TableOk env.table)
    (hf : ∀ e ∈ env.table, onHost env e → Fits containerId e) :
    ∃ s', env.table.reverse.foldlM (umountEntry env containerId) (s, none) =
        some (s', (firstExisting env).map fun e => getMergedDir containerId ++ e.target) ∧
      s'.mounts = umountAll s.mounts ((tablePaths env).reverse.map (inside containerId)) := by
  obtain ⟨s', hrun, hm⟩ := umountEntries (l := env.table.reverse) s
    (fun x hx => ⟨h.absolute x (List.mem_reverse.mp hx), h.descending x (List.mem_reverse.mp hx)⟩)
    (fun x hx => hf x (List.mem_reverse.mp hx)) none
  refine ⟨s', ?_, ?_⟩
  · rw [hrun, List.filter_reverse, List.getLast?_reverse, List.head?_filter, Option.or_none]
    rfl
  · rw [hm, List.filter_reverse, tablePaths, ← List.map_reverse]

variable (env s) in
lemma umountTable_run (h : TableOk env.table)
    (hf : ∀ e ∈ env.table, onHost env e → Fits containerId e) (he : firstExisting env = some e) :
    ∃ s', umountTable env containerId s = some s' ∧
      s'.mounts = umountAll s.mounts
        ((tableAttempts env (resolve e.target)).map (inside containerId)) := by
  obtain ⟨s₁, hrun, hm⟩ := umountLoop_run s h hf
  rw [he] at hrun
  have hmem : e ∈ env.table := List.mem_of_find?_eq_some he
  refine ⟨s₁.umount2 (getMergedDir containerId ++ e.target), ?_, ?_⟩
  · simp [umountTable, hrun]
  · rw [tableAttempts, List.map_append, umountAll_append, ← hm, List.map_singleton,
      umountAll_cons, ← resolve_target (h.absolute e hmem) (h.descending e hmem)]
    rfl

variable (env) in
lemma of_umountTable {s' : FsState} (h : TableOk env.table)
    (hr : umountTable env containerId s = some s') :
    (∃ e, firstExisting env = some e) ∧ ∀ e ∈ env.table, onHost env e → Fits containerId e := by
  have hf : ∀ e ∈ env.table, onHost env e → Fits containerId e := by
    intro e he hex
    by_contra hno
    unfold umountTable at hr
    rw [umountEntries_none (List.mem_reverse.mpr he) hex hno] at hr
    cases hr
  refine ⟨Option.isSome_iff_exists.mp ?_, hf⟩
  obtain ⟨s₁, hrun, -⟩ := umountLoop_run s h hf
  rcases he : firstExisting env with _ | e
  · simp [umountTable, hrun, he] at hr
  · rfl

/-! ### Counting -/

/-- The attempts at `q` that are to spare: the retry is one where the path printed last is not
that of the first entry, which is mounted twice. -/
def spare (env : Env) (q : List Str) : ℕ :=
  match firstExisting env with
  | none => 0
  | some e =>
    if resolve e.target = q ∧ env.table.head?.any (onHost env) = false then 1 else 0

/-- The condition under which unmounting undoes mounting. -/
structure Undoable (env : Env) (containerId : Str) (volumeList : OrdSet Str) : Prop where
  noVolumes : volumeList.elems = []
  someExists : ∃ e ∈ env.table, onHost env e
  fits : ∀ e ∈ env.table, onHost env e → Fits containerId e
  strays : ∀ q, times (strayPaths env containerId) (inside containerId q) ≤ spare env q

/-- How often the first entry is tried to mount where it exists. -/
def first (env : Env) (q : List Str) : ℕ :=
  times (((env.table.take 1).filter (onHost env)).map fun e => resolve e.target) q

lemma tablePaths_of_first (he : firstExisting env = some e) :
    ∃ rest, tablePaths env = resolve e.target :: rest := by
  have hhead : (env.table.filter (onHost env)).head? = some e := by
    rw [List.head?_filter]; exact he
  obtain ⟨rest, hrest⟩ := List.head?_eq_some_iff.mp hhead
  exact ⟨_, by rw [tablePaths, hrest, List.map_cons]⟩

lemma tablePaths_pairwise (h : TableOk env.table) :
    (tablePaths env).Pairwise fun a b => ¬ Below b a :=
  List.pairwise_map.mpr (h.parentsFirst.filter _)

lemma not_below_first (h : TableOk env.table) (he : firstExisting env = some e)
    (hp : p ∈ tablePaths env) : ¬ Below p (resolve e.target) := by
  obtain ⟨rest, hrest⟩ := tablePaths_of_first he
  have hpair := tablePaths_pairwise h
  rw [hrest] at hp hpair
  rcases List.mem_cons.mp hp with rfl | hp
  · exact fun hb => hb.2 rfl
  · exact List.rel_of_pairwise_cons hpair hp

/-- The second attempt at the first existing path makes up for the first entry, or is to
spare. -/
lemma first_add_spare (he : firstExisting env = some e) (q : List Str) :
    first env q + spare env q = if resolve e.target = q then 1 else 0 := by
  unfold first spare
  rw [he]
  unfold firstExisting at he
  rcases ht : env.table with _ | ⟨a, rest⟩
  · rw [ht] at he; cases he
  · rw [ht] at he
    by_cases ha : onHost env a
    · rw [List.find?_cons_of_pos ha] at he
      cases he
      simp [ha, times_cons]
    · simp [ha]

/-- Entries that exist and fit are mounted where they are tried to unmount; the others that are
mounted are strays. -/
lemma times_mountPaths (h : ∀ e ∈ l, e.target.head? = some '/' ∧ Descending e.target)
    (hf : ∀ e ∈ l, onHost env e → Fits containerId e) (q : List Str) :
    times ((l.filter (mounted env)).map (mountPath containerId)) (inside containerId q) =
      times ((l.filter (onHost env)).map fun e => resolve e.target) q +
        times ((l.filter (stray env)).map (mountPath containerId)) (inside containerId q) := by
  induction l with
  | nil => rfl
  | cons e l ih =>
    have hl := ih (fun x hx => h x (List.mem_cons_of_mem _ hx))
      fun x hx => hf x (List.mem_cons_of_mem _ hx)
    by_cases hex : onHost env e
    · have hfit : (getMergedDir containerId ++ e.target).length < 1024 := hf e (by simp) hex
      have hpath : mountPath containerId e = inside containerId (resolve e.target) := by
        obtain ⟨ha, hd⟩ := h e (by simp)
        rw [← resolve_target ha hd]
        exact congrArg resolve (List.take_of_length_le (by omega))
      rw [List.filter_cons_of_pos (by simp [mounted, hex]), List.filter_cons_of_pos hex,
        List.filter_cons_of_neg (by simp [stray, hex]), List.map_cons, List.map_cons, times_cons,
        times_cons, hl, hpath]
      simp only [inside, List.append_cancel_left_eq]
      omega
    · rw [List.filter_cons_of_neg (p := onHost env) hex]
      by_cases hover : e.type = fsType
      · rw [List.filter_cons_of_neg (by simp [mounted, hover, hex]),
          List.filter_cons_of_neg (by simp [stray, hover])]
        exact hl
      · rw [List.filter_cons_of_pos (by simp [mounted, hover]),
          List.filter_cons_of_pos (by simp [stray, hover, hex]), List.map_cons, List.map_cons,
          times_cons, times_cons, hl]
        omega

lemma times_tableMounts (h : TableOk env.table)
    (hf : ∀ e ∈ env.table, onHost env e → Fits containerId e) (q : List Str) :
    times (tableMounts env containerId) (inside containerId q) =
      first env q + times (tablePaths env) q +
        times (strayPaths env containerId) (inside containerId q) := by
  have hmem : ∀ e ∈ turns env, e ∈ env.table := by
    intro e he
    rcases List.mem_append.mp he with he | he
    · exact List.mem_of_mem_take he
    · exact he
  have htimes := times_mountPaths (l := turns env)
    (fun e he => ⟨h.absolute e (hmem e he), h.descending e (hmem e he)⟩)
    (fun e he => hf e (hmem e he)) q
  rw [tableMounts, htimes, strayPaths, turns, List.filter_append, List.map_append, times_append]
  rfl

lemma times_tableAttempts (he : firstExisting env = some e) (q : List Str) :
    times (tableAttempts env (resolve e.target)) q =
      times (tablePaths env) q + (first env q + spare env q) := by
  rw [tableAttempts, times_append, times_cons, times_nil, times_reverse, first_add_spare he]
  omega

lemma first_of_below (h : TableOk env.table) (he : firstExisting env = some e)
    (hp : p ∈ tablePaths env) (hq : Below p q) : first env q + spare env q = 0 := by
  rw [first_add_spare he, if_neg]
  rintro rfl
  exact not_below_first h he hp hq

lemma free_attempts (h : TableOk env.table) (hu : Undoable env containerId volumeList)
    (he : firstExisting env = some e) :
    Free (tableMounts env containerId)
      ((tableAttempts env (resolve e.target)).map (inside containerId)) := by
  have hbelow : ∀ {p q}, p ∈ tablePaths env → Below p q →
      times (tableMounts env containerId) (inside containerId q) = times (tablePaths env) q := by
    intro p q hp hq
    have hfirst := first_of_below h he hp hq
    have hstray := hu.strays q
    rw [times_tableMounts h hu.fits]
    omega
  rw [tableAttempts, List.map_append]
  refine Free.append (.inside ?_) ?_
  · -- the last entry of the table first: what is below an entry comes after it there
    intro l p l' hl q hq
    have htable : tablePaths env = l'.reverse ++ p :: l.reverse := by
      rw [← List.reverse_reverse (tablePaths env), hl]; simp
    have hearlier : times l' q = 0 := by
      refine times_eq_zero.mpr fun hmem => ?_
      have hpair := tablePaths_pairwise h
      rw [htable, List.pairwise_append] at hpair
      exact hpair.2.2 q (List.mem_reverse.mpr hmem) p (by simp) hq
    have hmounts := hbelow (by rw [htable]; simp) hq
    rw [inside] at hmounts
    rw [hmounts, htable, times_append, times_cons, times_reverse, times_reverse, hearlier,
      if_neg hq.2]
    omega
  · -- the path printed last, once more
    intro l p l' hl q hq
    obtain ⟨rfl, rfl, -⟩ : l = [] ∧ p = inside containerId (resolve e.target) ∧ l' = [] := by
      rcases l with _ | ⟨x, l⟩
      · simpa [eq_comm] using hl
      · simp at hl
    obtain ⟨x, rfl, hx⟩ := below_append_iff.mp hq
    obtain ⟨rest, hrest⟩ := tablePaths_of_first he
    have hmounts := hbelow (by rw [hrest]; simp) hx
    have hmap : times ((tablePaths env).reverse.map (inside containerId))
        (inside containerId x) = times (tablePaths env).reverse x := times_map_append _
    rw [times_reverse] at hmap
    exact Nat.le_add_right_of_le (hmounts.trans hmap.symm).le

/-- Enough: under the condition the attempts take every mount away. -/
lemma nothing_left (h : TableOk env.table) (hu : Undoable env containerId volumeList)
    (he : firstExisting env = some e) (q : List Str) :
    times (umountAll (tableMounts env containerId)
      ((tableAttempts env (resolve e.target)).map (inside containerId)))
        (inside containerId q) = 0 := by
  have hmap : times ((tableAttempts env (resolve e.target)).map (inside containerId))
      (inside containerId q) = times (tableAttempts env (resolve e.target)) q :=
    times_map_append _
  have hstray := hu.strays q
  rw [(free_attempts h hu he).times_umountAll, hmap, times_tableMounts h hu.fits,
    times_tableAttempts he]
  omega

/-- Necessary: a stray mount is taken away only by an attempt that is to spare. -/
lemma strays_of_nothing_left (h : TableOk env.table)
    (hf : ∀ e ∈ env.table, onHost env e → Fits containerId e) (he : firstExisting env = some e)
    (hn : times (umountAll (tableMounts env containerId)
      ((tableAttempts env (resolve e.target)).map (inside containerId)))
        (inside containerId q) = 0) :
    times (strayPaths env containerId) (inside containerId q) ≤ spare env q := by
  have hmap : times ((tableAttempts env (resolve e.target)).map (inside containerId))
      (inside containerId q) = times (tableAttempts env (resolve e.target)) q :=
    times_map_append _
  have hle := le_times_umountAll (tableMounts env containerId) (inside containerId q)
    ((tableAttempts env (resolve e.target)).map (inside containerId))
  rw [hn, hmap, times_tableMounts h hf, times_tableAttempts he] at hle
  omega

/-! ### Any run -/

/-- Whichever mounts succeed, mounting and then unmounting leaves nothing at or below the
merged directory if there was nothing before. -/
def Undone (env : Env) (containerId : Str) (info : ContainerInfo) : Prop :=
  ∀ (mountOk : ℕ → Bool) (s : FsState), Clear (resolve (getMergedDir containerId)) s.mounts →
    ∃ out s', mountAll { env with mountOk } containerId info.volumeList s = some out ∧
      umountContainer { env with mountOk } containerId (some info) out.1 = some s' ∧
      Clear (resolve (getMergedDir containerId)) s'.mounts

variable {info : ContainerInfo}

lemma umountVolumeList_eq_some {s' : FsState} :
    umountVolumeList (some info) s = some s' ↔ info.volumeList.elems = [] ∧ s = s' := by
  unfold umountVolumeList
  simp

lemma umountContainer_eq_some {s' : FsState} :
    umountContainer env containerId (some info) s = some s' ↔
      info.volumeList.elems = [] ∧ umountTable env containerId s = some s' := by
  unfold umountContainer
  rcases umountTable env containerId s with _ | s₁
  · simp
  · simp [umountVolumeList_eq_some]

lemma undone_of_undoable (h : TableOk env.table) (hu : Undoable env containerId info.volumeList) :
    Undone env containerId info := by
  intro mountOk s hs
  obtain ⟨e, he⟩ : ∃ e, firstExisting env = some e :=
    Option.isSome_iff_exists.mp (List.find?_isSome.mpr hu.someExists)
  obtain ⟨out, hmount, hpush⟩ := mountAll_pushes { env with mountOk } containerId s hu.noVolumes
  obtain ⟨s', humount, hm⟩ :=
    umountTable_run { env with mountOk } out.1 h hu.fits he
  refine ⟨out, s', hmount, umountContainer_eq_some.mpr ⟨hu.noVolumes, humount⟩, ?_⟩
  -- at most what a run without a failure mounts
  have hle : ∀ x, times out.1.mounts (resolve (getMergedDir containerId) ++ x) ≤
      times (tableMounts env containerId) (resolve (getMergedDir containerId) ++ x) := by
    intro x
    have hx := hpush.le (resolve (getMergedDir containerId) ++ x)
    rwa [clear_iff_inside.mp hs x, Nat.zero_add] at hx
  refine clear_iff_inside.mpr fun x => Nat.le_zero.mp ?_
  rw [hm]
  exact (times_umountAll_inside_le hle x).trans_eq (nothing_left h hu he x)

lemma undoable_of_undone (h : TableOk env.table) (hd : Undone env containerId info) :
    Undoable env containerId info.volumeList := by
  obtain ⟨out, s', hmount, humount, hclear⟩ := hd (fun _ => true) ⟨[], []⟩ (by simp [Clear])
  obtain ⟨hv, htable⟩ := umountContainer_eq_some.mp humount
  obtain ⟨out', hmount', hpush⟩ := mountAll_pushes { env with mountOk := fun _ => true }
    containerId ⟨[], []⟩ hv
  rw [hmount] at hmount'
  cases hmount'
  obtain ⟨⟨e, he⟩, hf⟩ := of_umountTable { env with mountOk := fun _ => true } h htable
  obtain ⟨s'', hrun, hm⟩ :=
    umountTable_run { env with mountOk := fun _ => true } out.1 h hf he
  rw [htable] at hrun
  cases hrun
  refine ⟨hv, ⟨e, List.mem_of_find?_eq_some he, List.find?_some he⟩, hf, fun q => ?_⟩
  refine strays_of_nothing_left h hf he (Nat.le_zero.mp ?_)
  -- a run without a failure mounts all of it
  have hge : ∀ x, times (tableMounts env containerId) (resolve (getMergedDir containerId) ++ x) ≤
      times out.1.mounts (resolve (getMergedDir containerId) ++ x) := by
    intro x
    have hx := (hpush.full fun _ => rfl).2 (resolve (getMergedDir containerId) ++ x)
    rw [times_nil, Nat.zero_add] at hx
    exact hx.ge
  refine (times_umountAll_inside_le hge q).trans_eq ?_
  rw [hm] at hclear
  exact clear_iff_inside.mp hclear q

/-- **Unmounting undoes mounting** exactly when there are no volumes, some entry of the table
exists on the host, the paths of those that do fit the buffer, and nothing that is mounted
without being an overlay or existing on the host is left below the merged directory, but for
one mount at the first existing entry if that is not the first of the table. -/
theorem undone_iff (env : Env) (containerId : Str) (info : ContainerInfo)
    (h : TableOk env.table) :
    Undone env containerId info ↔ Undoable env containerId info.volumeList :=
  ⟨undoable_of_undone h, undone_of_undoable h⟩

lemma tableOk_mntDirArr : TableOk mntDirArr := ⟨by decide, by decide, by decide⟩

lemma undoable_fullHost (hv : volumeList.elems = []) : Undoable fullHost "c1".toList volumeList :=
  ⟨hv, by decide, by decide, fun _ => Nat.zero_le _⟩

/-- A container without volumes. -/
def plainInfo : ContainerInfo := { ranInfo with volumeList := OrdSet.ofList [] }

theorem undone_plain : Undone fullHost "c1".toList plainInfo :=
  (undone_iff fullHost "c1".toList plainInfo tableOk_mntDirArr).mpr (undoable_fullHost rfl)

/-- A host that has no directory for what is mounted at `/tmp`. -/
def noTmpHost : Env := { fullHost with exist := fun p => p ≠ ["tmp".toList] }

/-- A single volume is one too many, and what the host does not have stays mounted. -/
theorem left_mounted :
    ¬ Undone fullHost "c1".toList
        { plainInfo with volumeList := OrdSet.ofList ["/srv/data:/app/data".toList] } ∧
      ¬ Undone noTmpHost "c1".toList plainInfo := by
  constructor
  · intro hd
    exact absurd (undoable_of_undone tableOk_mntDirArr hd).noVolumes (by decide)
  · intro hd
    have hstray := (undoable_of_undone tableOk_mntDirArr hd).strays ["tmp".toList]
    exact absurd hstray (by decide)

end Hoststack.Unmounting
