import Hoststack.Mkdir
import Hoststack.Unmounting
import Hoststack.Lib.Machine

/-!
The directories of the containers.

`create_repo` and `create_container` make directories with `mkdir_r` and only log where one cannot
be made; `remove_container` has the shell remove the two directories of a container, and gives up
after the first that it cannot remove. In between the container and its monitor write into these
directories.
-/

namespace Hoststack.Directories

open FileTree Mkdir UsgCommon ContainerFs PathAssembler

def containersDir : Str := hoststackRepo ++ "/containers".toList

def containerDir (containerId : Str) : Str := containersDir ++ "/".toList ++ containerId

/-- The directories made below the merged one. -/
def fslist : List Str :=
  ["bin".toList, "dev/pts".toList, "dev/shm".toList, "etc".toList, "home".toList, "lib".toList,
    "lib64".toList, "mnt".toList, "opt".toList, "proc".toList, "root".toList, "run".toList,
    "sbin".toList, "sys".toList, "tmp".toList, "usr".toList, "var".toList]

/-- Calls of `mkdir_r`, in each of which other directories may be refused, and whether all have
returned zero. A failure is only logged. -/
def mkdirs (refused : Str → List Str → Bool) (cwd : List Str) :
    List Str → FileTree Str → Option (FileTree Str × Bool)
  | [], t => some (t, true)
  | pathname :: rest, t => do
    let (ret, t) ← mkdirR (refused pathname) cwd (pathname.length + 1) pathname t
    let (t, ok) ← mkdirs refused cwd rest t
    some (t, ret = 0 && ok)

def createRepo (refused : Str → List Str → Bool) (cwd : List Str) (t : FileTree Str) :
    Option (FileTree Str × Bool) :=
  mkdirs refused cwd [containersDir, getUnionFS] t

def createContainer (refused : Str → List Str → Bool) (cwd : List Str) (containerId : Str)
    (t : FileTree Str) : Option (FileTree Str × Bool) :=
  mkdirs refused cwd
    ([containerDir containerId, getDiffDir containerId, getWorkDir containerId,
        getMergedDir containerId] ++
      fslist.map fun dir => getMergedDir containerId ++ "/".toList ++ dir) t

/-- `rm -rf`, and whether it has succeeded. Where it fails, the paths given have been removed. -/
def rmRf (failed : Option (List Str → Bool)) (cwd : List Str) (pathname : Str)
    (t : FileTree Str) : FileTree Str × Bool :=
  match lookUp cwd pathname with
  | none => (t, failed.isNone)
  | some x => (t.prune (failed.getD fun _ => true) x, failed.isNone)

def removeContainer (failed failed' : Option (List Str → Bool)) (cwd : List Str)
    (containerId : Str) (t : FileTree Str) : ℤ × FileTree Str :=
  match rmRf failed cwd (containerDir containerId) t with
  | (t, false) => (-1, t)
  | (t, true) =>
    match rmRf failed' cwd (getLayerDir containerId) t with
    | (t, false) => (-1, t)
    | (t, true) => (0, t)

/-! ### Their paths -/

def repo : List Str := ["data".toList, "hoststack".toList]

def containersPath : List Str := repo ++ ["containers".toList]

def unionPath : List Str := repo ++ [fsType]

/-- The directories made for a container. -/
def layout (containerId : Str) : List (List Str) :=
  [containersPath ++ [containerId], unionPath ++ [containerId, "diff".toList],
      unionPath ++ [containerId, "work".toList], unionPath ++ [containerId, "merged".toList]] ++
    fslist.map fun dir => unionPath ++ [containerId, "merged".toList] ++ Path.components dir

/-- A path at or below one of the two directories of a container. -/
def Under (containerId : Str) (x : List Str) : Prop :=
  containersPath ++ [containerId] <+: x ∨ unionPath ++ [containerId] <+: x

/-- A path on the way to the two directories of all containers. -/
def Above (x : List Str) : Prop := x <+: containersPath ∨ x <+: unionPath

/-- What `gen_id` makes: letters, digits and hyphens. -/
def IdOk (containerId : Str) : Prop :=
  containerId ≠ [] ∧ ∀ c ∈ containerId, c.isAlphanum = true ∨ c = '-'

instance (containerId : Str) : Decidable (IdOk containerId) :=
  @instDecidableAnd _ _ _ (List.decidableBAll _ _)

variable {containerId containerId' : Str} {xs ys x p : List Str}

lemma comps_id (h : IdOk containerId) : Comps [containerId] := by
  intro c hc
  obtain rfl : c = containerId := by simpa using hc
  obtain ⟨hne, hall⟩ := h
  have hslash : '/' ∉ c := fun hmem => absurd (hall _ hmem) (by decide)
  have hdot : '.' ∉ c := fun hmem => absurd (hall _ hmem) (by decide)
  refine ⟨hne, hslash, ?_, ?_⟩
  · rintro rfl
    exact hdot (by simp)
  · rintro rfl
    exact hdot (by simp)

lemma comps_append (h : Comps xs) (h' : Comps ys) : Comps (xs ++ ys) := fun c hc =>
  (List.mem_append.mp hc).elim (h c) (h' c)

lemma layout_cases (hp : p ∈ layout containerId) :
    p = containersPath ++ [containerId] ∨
      ∃ ys, Comps ys ∧ ys ≠ [] ∧ p = unionPath ++ [containerId] ++ ys := by
  have hfslist : ∀ dir ∈ fslist, Comps (Path.components dir) := by decide
  rcases List.mem_append.mp hp with hp | hp
  · simp only [List.mem_cons, List.not_mem_nil, or_false] at hp
    rcases hp with rfl | rfl | rfl | rfl
    · exact Or.inl rfl
    · exact Or.inr ⟨["diff".toList], by decide, by decide, rfl⟩
    · exact Or.inr ⟨["work".toList], by decide, by decide, rfl⟩
    · exact Or.inr ⟨["merged".toList], by decide, by decide, rfl⟩
  · obtain ⟨dir, hdir, rfl⟩ := List.mem_map.mp hp
    exact Or.inr ⟨"merged".toList :: Path.components dir,
      comps_append (by decide : Comps ["merged".toList]) (hfslist dir hdir), by simp, rfl⟩

lemma comps_layout (h : IdOk containerId) (hp : p ∈ layout containerId) :
    Comps p ∧ p ≠ [] := by
  rcases layout_cases hp with rfl | ⟨ys, hys, -, rfl⟩
  · exact ⟨comps_append (by decide) (comps_id h), by simp⟩
  · exact ⟨comps_append (comps_append (by decide) (comps_id h)) hys, by simp⟩

lemma intercalate_append (hx : xs ≠ []) (hy : ys ≠ []) :
    ['/'].intercalate (xs ++ ys) = ['/'].intercalate xs ++ '/' :: ['/'].intercalate ys := by
  induction ys using List.reverseRecOn with
  | nil => exact absurd rfl hy
  | append_singleton ys c ih =>
    rw [← List.append_assoc, intercalate_concat (by simp [hx])]
    rcases ys with _ | ⟨y, ys⟩
    · simp [List.intercalate]
    · rw [ih (List.cons_ne_nil y ys), intercalate_concat (List.cons_ne_nil y ys)]
      simp

lemma render_append (hx : xs ≠ []) (hy : ys ≠ []) :
    render true (xs ++ ys) = render true xs ++ '/' :: ['/'].intercalate ys := by
  unfold render
  rw [intercalate_append hx hy, List.append_assoc]

lemma slash_append (a b : Str) : a ++ "/".toList ++ b = a ++ '/' :: b := by
  rw [List.append_assoc]
  rfl

lemma containerDir_eq (containerId : Str) :
    containerDir containerId = render true (containersPath ++ [containerId]) := by
  rw [render_concat (by decide), containerDir, slash_append]
  rfl

lemma getLayerDir_eq (containerId : Str) :
    getLayerDir containerId = render true (unionPath ++ [containerId]) := by
  rw [render_concat (by decide), getLayerDir, slash_append]
  rfl

lemma layout_strings (containerId : Str) :
    [containerDir containerId, getDiffDir containerId, getWorkDir containerId,
        getMergedDir containerId] ++
      (fslist.map fun dir => getMergedDir containerId ++ "/".toList ++ dir) =
    (layout containerId).map (render true) := by
  have hdirs : ∀ dir ∈ fslist, Path.components dir ≠ [] ∧
      dir = ['/'].intercalate (Path.components dir) := by decide
  have hmerged : getMergedDir containerId =
      render true (unionPath ++ [containerId, "merged".toList]) := by rfl
  unfold layout
  rw [List.map_append, List.map_map, List.map_cons, ← containerDir_eq]
  refine congrArg₂ _ rfl (List.map_congr_left fun dir hdir => ?_)
  obtain ⟨hne, heq⟩ := hdirs dir hdir
  rw [Function.comp_apply, render_append (by simp) hne, ← heq, hmerged, slash_append]

lemma repo_strings :
    [containersDir, getUnionFS] = [containersPath, unionPath].map (render true) := by
  rfl

/-! ### Making and removing them -/

variable {refused : List Str → Bool} {t t' : FileTree Str}

lemma mkdirR_grown (refused : List Str → Bool) (cwd : List Str) (t : FileTree Str)
    (h : Comps p) (hne : p ≠ []) :
    ∃ ret t', mkdirR refused cwd ((render true p).length + 1) (render true p) t = some (ret, t') ∧
      Grown [p] t t' ∧ (ret = 0 → t'.kind p ≠ none) := by
  obtain ⟨n, hn⟩ : ∃ n, p.length = n + 1 :=
    Nat.exists_eq_add_one_of_ne_zero fun hzero => hne (List.eq_nil_of_length_eq_zero hzero)
  have hruns : Runs refused cwd true p t (n + 1) (render true (p.take (n + 1))) :=
    runs_all h (by omega)
  rw [← hn, List.take_length] at hruns
  obtain ⟨ok, t', hrun, hmade⟩ := hruns
  refine ⟨code ok, t', hrun _ (Nat.lt_succ_self _), hmade.grown, fun hret => ?_⟩
  cases ok with
  | false => exact absurd hret (by decide)
  | true =>
    rw [hn] at hmade
    have hthere := hmade.there
    rwa [way, ← hn, List.take_length] at hthere

lemma mkdirs_grown (refused : Str → List Str → Bool) (cwd : List Str) (t : FileTree Str)
    (ps : List (List Str)) (h : ∀ p ∈ ps, Comps p ∧ p ≠ []) :
    ∃ t' ok, mkdirs refused cwd (ps.map (render true)) t = some (t', ok) ∧ Grown ps t t' ∧
      (ok = true → ∀ p ∈ ps, t'.kind p ≠ none) := by
  induction ps generalizing t with
  | nil => exact ⟨t, true, rfl, fun x => Or.inl rfl, by simp⟩
  | cons p ps ih =>
    obtain ⟨hp, hps⟩ := List.forall_mem_cons.mp h
    obtain ⟨ret, t₁, hrun, hgrown, hthere⟩ :=
      mkdirR_grown (refused (render true p)) cwd t hp.1 hp.2
    obtain ⟨t', ok, hrest, hgrown', hthere'⟩ := ih t₁ hps
    refine ⟨t', ret = 0 && ok, ?_, hgrown.trans hgrown', fun hok => ?_⟩
    · rw [List.map_cons, mkdirs, hrun, Option.bind_eq_bind, Option.bind_some]
      dsimp only
      rw [hrest]
      rfl
    · obtain ⟨hret, hok⟩ := (Bool.and_eq_true ..).mp hok
      have hkind := hthere (of_decide_eq_true hret)
      refine List.forall_mem_cons.mpr ⟨?_, hthere' hok⟩
      rwa [hgrown'.kept hkind]

/-- What `rm -rf` has left. -/
structure Removed (p : List Str) (ok : Bool) (t t' : FileTree Str) : Prop where
  kind : ∀ x, t'.kind x = t.kind x ∨ t'.kind x = none ∧ p <+: x
  gone : ok = true → ∀ x, p <+: x → t'.kind x = none

lemma rmRf_removed (failed : Option (List Str → Bool)) (cwd : List Str) (t : FileTree Str)
    (h : Comps p) (hne : p ≠ []) :
    Removed p (rmRf failed cwd (render true p) t).2 t (rmRf failed cwd (render true p) t).1 := by
  unfold rmRf
  rw [lookUp_render cwd h hne]
  refine ⟨fun x => t.kind_prune _ p x, fun hok x hx => ?_⟩
  cases failed with
  | none => exact kind_prune_of_prefix hne rfl hx
  | some gone => cases hok

lemma removeContainer_spec (failed failed' : Option (List Str → Bool)) (cwd : List Str)
    (t : FileTree Str) (h : IdOk containerId) {ret : ℤ}
    (hrun : removeContainer failed failed' cwd containerId t = (ret, t')) :
    (∀ x, t'.kind x = t.kind x ∨ t'.kind x = none ∧ Under containerId x) ∧
      (ret = 0 → ∀ x, Under containerId x → t'.kind x = none) := by
  have hid := comps_id h
  unfold removeContainer at hrun
  rw [containerDir_eq, getLayerDir_eq] at hrun
  have hfirst := rmRf_removed failed cwd t
    (comps_append (by decide : Comps containersPath) hid) (by simp)
  rcases hrm : rmRf failed cwd (render true (containersPath ++ [containerId])) t with ⟨t₁, _ | _⟩
  · rw [hrm] at hrun hfirst
    cases hrun
    exact ⟨fun x => (hfirst.kind x).imp_right (And.imp_right Or.inl), fun hret => by cases hret⟩
  · rw [hrm] at hrun hfirst
    dsimp only at hrun
    have hsecond := rmRf_removed failed' cwd t₁
      (comps_append (by decide : Comps unionPath) hid) (by simp)
    rcases hrm' : rmRf failed' cwd (render true (unionPath ++ [containerId])) t₁ with ⟨t₂, ok⟩
    rw [hrm'] at hrun hsecond
    have hkind : ∀ x, t₂.kind x = t.kind x ∨ t₂.kind x = none ∧ Under containerId x := fun x => by
      rcases hsecond.kind x with hsame | ⟨hnone, hx⟩
      · exact (hfirst.kind x).imp hsame.trans fun hx => ⟨hsame.trans hx.1, Or.inl hx.2⟩
      · exact Or.inr ⟨hnone, Or.inr hx⟩
    cases ok with
    | false =>
      cases hrun
      exact ⟨hkind, fun hret => by cases hret⟩
    | true =>
      cases hrun
      refine ⟨hkind, fun _ x hx => ?_⟩
      rcases hx with hx | hx
      · rcases hsecond.kind x with hsame | ⟨hnone, -⟩
        · exact hsame.trans (hfirst.gone rfl x hx)
        · exact hnone
      · exact hsecond.gone rfl x hx

/-! ### Any sequence of calls -/

/-- The tree, the containers created, those of them that have been removed, and those with all
their directories: none could not be made, and no removal has begun. -/
structure State where
  tree : FileTree Str
  created : List Str
  removed : List Str
  whole : List Str

/-- A call, or what a container and its monitor do in its directories. -/
inductive Op where
  | createRepo (refused : Str → List Str → Bool)
  | createContainer (refused : Str → List Str → Bool) (containerId : Str)
  | removeContainer (failed failed' : Option (List Str → Bool)) (containerId : Str)
  | inside (containerId : Str) (tree : FileTree Str)

/-- The calls in any order, from a tree on. -/
def dirs (cwd : List Str) (tree : FileTree Str) : Machine State Op where
  init s := s = ⟨tree, [], [], []⟩
  step s
    | .createRepo refused =>
      (createRepo refused cwd s.tree).map fun (tree, _) => { s with tree }
    | .createContainer refused containerId =>
      (createContainer refused cwd containerId s.tree).map fun (tree, ok) =>
        { s with
          tree
          created := containerId :: s.created
          whole := if ok then containerId :: s.whole else s.whole }
    | .removeContainer failed failed' containerId =>
      let (ret, tree) := removeContainer failed failed' cwd containerId s.tree
      some { s with
        tree
        removed := if ret = 0 then containerId :: s.removed else s.removed
        whole := s.whole.filter fun id => id ≠ containerId }
    | .inside _ tree => some { s with tree }

/-- What is relied on: an id is made of what `gen_id` makes, is a new one, and there is nothing of
it yet; only containers that were created are removed; and what goes on in the directories of a
container, while it has not been removed, changes nothing outside and removes no directory. -/
def Admits (s : State) : Op → Prop
  | .createRepo _ => True
  | .createContainer _ containerId =>
    IdOk containerId ∧ containerId ∉ s.created ∧ ∀ x, Under containerId x → s.tree.kind x = none
  | .removeContainer _ _ containerId => containerId ∈ s.created
  | .inside containerId tree =>
    containerId ∈ s.created ∧ containerId ∉ s.removed ∧
      (∀ x, ¬ Under containerId x → tree.kind x = s.tree.kind x) ∧
      ∀ x, s.tree.kind x = some .dir → tree.kind x = some .dir

/-- **The invariant**: nothing of the tree before is gone, and what is new lies in the directories
of a container that is not removed, or is a directory on the way to them. -/
structure Inv (tree : FileTree Str) (s : State) : Prop where
  ids : ∀ id ∈ s.created, IdOk id
  fresh : ∀ id ∈ s.created, ∀ x, Under id x → tree.kind x = none
  removed : s.removed ⊆ s.created
  kept : ∀ x, tree.kind x ≠ none → s.tree.kind x = tree.kind x
  new : ∀ x, tree.kind x = none → s.tree.kind x ≠ none →
    s.tree.kind x = some .dir ∧ Above x ∨ ∃ id ∈ s.created, id ∉ s.removed ∧ Under id x
  whole : ∀ id ∈ s.whole, id ∈ s.created ∧ ∀ p ∈ layout id, s.tree.kind p = some .dir

variable {tree : FileTree Str} {s s' : State} {cwd : List Str}

lemma prefix_unique {a b : List Str} (ha : a <+: x) (hb : b <+: x) (hlen : a.length = b.length) :
    a = b :=
  (List.prefix_of_prefix_length_le ha hb (Nat.le_of_eq hlen)).eq_of_length hlen

lemma under_unique (h : Under containerId x) (h' : Under containerId' x) :
    containerId = containerId' := by
  have hne : containersPath ≠ unionPath := by decide
  have hsplit : ∀ {a b : List Str}, a.length = b.length →
      a ++ [containerId] <+: x → b ++ [containerId'] <+: x →
        a = b ∧ containerId = containerId' := by
    intro a b hlen ha hb
    have heq := prefix_unique ha hb (by simp [hlen])
    obtain ⟨hab, hid⟩ := List.append_inj heq hlen
    exact ⟨hab, by simpa using hid⟩
  rcases h with h | h <;> rcases h' with h' | h'
  · exact (hsplit rfl h h').2
  · exact absurd (hsplit (a := containersPath) (b := unionPath) rfl h h').1 hne
  · exact absurd (hsplit (a := unionPath) (b := containersPath) rfl h h').1 hne.symm
  · exact (hsplit rfl h h').2

/-- What is on the way to a directory of a container is one of its own, or on the way to those of
all containers. -/
lemma under_or_above (hp : p ∈ layout containerId) (hx : x <+: p) :
    Under containerId x ∨ Above x := by
  have hcases : ∀ base ys : List Str, x <+: base ++ [containerId] ++ ys →
      base ++ [containerId] <+: x ∨ x <+: base := by
    intro base ys hx
    rcases List.prefix_or_prefix_of_prefix hx (List.prefix_append _ ys) with hle | hge
    · rcases List.prefix_concat_iff.mp hle with rfl | hbase
      · exact Or.inl List.prefix_rfl
      · exact Or.inr hbase
    · exact Or.inl hge
  rcases layout_cases hp with rfl | ⟨ys, -, -, rfl⟩
  · exact (hcases _ [] (by simpa using hx)).imp Or.inl Or.inl
  · exact (hcases _ _ hx).imp Or.inr Or.inr

lemma under_layout (hp : p ∈ layout containerId) : Under containerId p := by
  rcases layout_cases hp with rfl | ⟨ys, -, -, rfl⟩
  · exact Or.inl List.prefix_rfl
  · exact Or.inr (List.prefix_append _ _)

lemma Inv.grow (h : Inv tree s) {ps : List (List Str)} (hgrown : Grown ps s.tree t')
    (hs : s'.tree = t') (hcreated : s.created ⊆ s'.created) (hremoved : s'.removed = s.removed)
    (hids : ∀ id ∈ s'.created, IdOk id) (hfresh : ∀ id ∈ s'.created, ∀ x,
      Under id x → tree.kind x = none)
    (hps : ∀ p ∈ ps, ∀ x, x <+: p →
      Above x ∨ ∃ id ∈ s'.created, id ∉ s'.removed ∧ Under id x)
    (hwhole : ∀ id ∈ s'.whole, id ∈ s'.created ∧
      (id ∈ s.whole ∨ ∀ p ∈ layout id, t'.kind p = some .dir)) : Inv tree s' := by
  subst hs
  refine ⟨hids, hfresh, fun id hid => hcreated (h.removed (hremoved ▸ hid)), fun x hx => ?_,
    fun x hbefore hx => ?_, fun id hid => ?_⟩
  · have hsame := h.kept x hx
    rw [hgrown.kept (by rwa [hsame]), hsame]
  · rcases hgrown x with hsame | ⟨-, hdir, p, hp, hpx⟩
    · rw [hsame] at hx ⊢
      refine (h.new x hbefore hx).imp_right ?_
      rintro ⟨id, hid, hout, hunder⟩
      exact ⟨id, hcreated hid, hremoved ▸ hout, hunder⟩
    · exact (hps p hp x hpx).imp_left fun habove => ⟨hdir, habove⟩
  · obtain ⟨hmem, hdirs⟩ := hwhole id hid
    refine ⟨hmem, fun p hp => ?_⟩
    rcases hdirs with hold | hnew
    · have hdir := (h.whole id hold).2 p hp
      rw [hgrown.kept (by rw [hdir]; simp), hdir]
    · exact hnew p hp

lemma Inv.createRepo (h : Inv tree s) {refused : Str → List Str → Bool}
    (hs : (dirs cwd tree).step s (.createRepo refused) = some s') : Inv tree s' := by
  obtain ⟨⟨t', ok⟩, hrun, rfl⟩ := Option.map_eq_some_iff.mp hs
  have hps : ∀ p ∈ [containersPath, unionPath], Comps p ∧ p ≠ [] := by decide
  obtain ⟨t'', ok', hrun', hgrown, -⟩ := mkdirs_grown refused cwd s.tree _ hps
  unfold Directories.createRepo at hrun
  rw [repo_strings] at hrun
  cases hrun.symm.trans hrun'
  refine h.grow hgrown rfl (List.Subset.refl _) rfl h.ids h.fresh (fun p hp x hx => Or.inl ?_)
    fun id hid => ⟨(h.whole id hid).1, Or.inl hid⟩
  simp only [List.mem_cons, List.not_mem_nil, or_false] at hp
  rcases hp with rfl | rfl
  · exact Or.inl hx
  · exact Or.inr hx

lemma Inv.createContainer (h : Inv tree s) {refused : Str → List Str → Bool}
    (ha : Admits s (.createContainer refused containerId))
    (hs : (dirs cwd tree).step s (.createContainer refused containerId) = some s') :
    Inv tree s' := by
  obtain ⟨hok, hnew, hnothing⟩ := ha
  obtain ⟨⟨t', ok⟩, hrun, rfl⟩ := Option.map_eq_some_iff.mp hs
  obtain ⟨t'', ok', hrun', hgrown, hthere⟩ := mkdirs_grown refused cwd s.tree _
    fun p hp => comps_layout hok hp
  unfold Directories.createContainer at hrun
  rw [layout_strings] at hrun
  cases hrun.symm.trans hrun'
  have hfresh : ∀ x, Under containerId x → tree.kind x = none := fun x hx => by
    by_contra hbefore
    exact hbefore ((h.kept x hbefore).symm.trans (hnothing x hx))
  refine h.grow hgrown rfl (List.subset_cons_self _ _) rfl
    (List.forall_mem_cons.mpr ⟨hok, h.ids⟩) (List.forall_mem_cons.mpr ⟨hfresh, h.fresh⟩)
    (fun p hp x hx => ?_) fun id hid => ?_
  · refine (under_or_above hp hx).symm.imp_right fun hunder => ?_
    exact ⟨containerId, List.mem_cons_self, fun hmem => hnew (h.removed hmem), hunder⟩
  · dsimp only at hid
    by_cases hmem : id ∈ s.whole
    · exact ⟨List.mem_cons_of_mem _ (h.whole id hmem).1, Or.inl hmem⟩
    · split_ifs at hid with hall
      · obtain rfl : id = containerId := (List.mem_cons.mp hid).resolve_right hmem
        refine ⟨List.mem_cons_self, Or.inr fun p hp => ?_⟩
        -- nothing was there, so what is there now is a directory that was made
        rcases hgrown p with hsame | ⟨-, hdir, -⟩
        · exact absurd (hsame.trans (hnothing p (under_layout hp))) (hthere hall p hp)
        · exact hdir
      · exact absurd hid hmem

lemma Inv.removeContainer (h : Inv tree s) {failed failed' : Option (List Str → Bool)}
    (ha : containerId ∈ s.created)
    (hs : (dirs cwd tree).step s (.removeContainer failed failed' containerId) = some s') :
    Inv tree s' := by
  rcases hrun : Directories.removeContainer failed failed' cwd containerId s.tree with ⟨ret, t'⟩
  obtain ⟨hkind, hgone⟩ := removeContainer_spec failed failed' cwd s.tree (h.ids _ ha) hrun
  have hs' : s' = { s with
      tree := t'
      removed := if ret = 0 then containerId :: s.removed else s.removed
      whole := s.whole.filter fun id => id ≠ containerId } := by
    simp only [dirs, hrun] at hs
    exact (Option.some.inj hs).symm
  subst hs'
  have houtside : ∀ x, ¬ Under containerId x → t'.kind x = s.tree.kind x := fun x hx =>
    (hkind x).resolve_right fun hpruned => hx hpruned.2
  refine ⟨h.ids, h.fresh, ?_, fun x hx => ?_, fun x hbefore hx => ?_, fun id hid => ?_⟩
  · dsimp only
    split_ifs
    · exact List.cons_subset.mpr ⟨ha, h.removed⟩
    · exact h.removed
  · have hout : ¬ Under containerId x := fun hunder => hx (h.fresh _ ha x hunder)
    exact (houtside x hout).trans (h.kept x hx)
  · have hsame : t'.kind x = s.tree.kind x := (hkind x).resolve_right fun hnone => hx hnone.1
    rw [hsame] at hx
    dsimp only
    rw [hsame]
    refine (h.new x hbefore hx).imp_right ?_
    rintro ⟨id, hid, hout, hunder⟩
    refine ⟨id, hid, fun hmem => ?_, hunder⟩
    split_ifs at hmem with hret
    · rcases List.mem_cons.mp hmem with rfl | hmem
      · exact hx (hsame.symm.trans (hgone hret x hunder))
      · exact hout hmem
    · exact hout hmem
  · obtain ⟨hmem, hne⟩ := List.mem_filter.mp hid
    obtain ⟨hcreated, hdirs⟩ := h.whole id hmem
    refine ⟨hcreated, fun p hp => ?_⟩
    have hout : ¬ Under containerId p := fun hunder =>
      of_decide_eq_true hne (under_unique (under_layout hp) hunder)
    exact (houtside p hout).trans (hdirs p hp)

lemma Inv.inside (h : Inv tree s) (ha : Admits s (.inside containerId t')) :
    Inv tree { s with tree := t' } := by
  obtain ⟨hcreated, hpresent, houtside, hdirs⟩ := ha
  refine ⟨h.ids, h.fresh, h.removed, fun x hx => ?_, fun x hbefore hx => ?_, fun id hid => ?_⟩
  · have hout : ¬ Under containerId x := fun hunder => hx (h.fresh _ hcreated x hunder)
    exact (houtside x hout).trans (h.kept x hx)
  · by_cases hunder : Under containerId x
    · exact Or.inr ⟨containerId, hcreated, hpresent, hunder⟩
    · have hsame := houtside x hunder
      dsimp only at hx ⊢
      rw [hsame] at hx ⊢
      exact h.new x hbefore hx
  · exact ⟨(h.whole id hid).1, fun p hp => hdirs p ((h.whole id hid).2 p hp)⟩

lemma inv_reach (h : (dirs cwd tree).Reach Admits s) : Inv tree s := by
  refine h.invariant (fun s hs => ?_) fun s op s' hinv ha hs => ?_
  · cases hs
    exact ⟨by simp, by simp, by simp, fun _ _ => rfl, fun x hnone hx => absurd hnone hx, by simp⟩
  · cases op with
    | createRepo refused => exact hinv.createRepo hs
    | createContainer refused containerId => exact hinv.createContainer ha hs
    | removeContainer failed failed' containerId => exact hinv.removeContainer ha hs
    | inside containerId tree =>
      cases hs
      exact hinv.inside ha

lemma resolve_getMergedDir (h : IdOk containerId) :
    Path.resolve (getMergedDir containerId) = unionPath ++ [containerId, "merged".toList] := by
  have hcomps : Comps (unionPath ++ [containerId] ++ ["merged".toList]) :=
    comps_append (comps_append (by decide) (comps_id h)) (by decide)
  have hstring : getMergedDir containerId =
      render true (unionPath ++ [containerId] ++ ["merged".toList]) := by rfl
  have hdescending : Path.Descending (getMergedDir containerId) := by
    unfold Path.Descending
    rw [hstring, components_render hcomps]
    exact fun hup => (hcomps _ hup).2.2.2 rfl
  rw [Path.resolve_of_descending hdescending, hstring, components_render hcomps]
  refine (List.filter_eq_self.mpr fun c hc => decide_eq_true (hcomps c hc).2.2.1).trans ?_
  simp

/-- **The directories of the containers**: in every tree reached, all that was there before any
container is as it was; what is new lies in the directories of a container that has not been
removed, or is one of the directories above those of all containers; and each container that got
all its directories, and that no removal has been begun for, has them, and so a directory for
every entry of the mount table. -/
theorem directories_of_containers (h : (dirs cwd tree).Reach Admits s) :
    (∀ x, tree.kind x ≠ none → s.tree.kind x = tree.kind x) ∧
    (∀ x, tree.kind x = none → s.tree.kind x ≠ none →
      s.tree.kind x = some .dir ∧ Above x ∨ ∃ id ∈ s.created, id ∉ s.removed ∧ Under id x) ∧
    ∀ id ∈ s.whole, (∀ p ∈ layout id, s.tree.kind p = some .dir) ∧
      ∀ e ∈ mntDirArr, s.tree.kind (Path.resolve (getMergedDir id ++ e.target)) = some .dir := by
  have hinv := inv_reach h
  refine ⟨hinv.kept, hinv.new, fun id hid => ?_⟩
  obtain ⟨hcreated, hdirs⟩ := hinv.whole id hid
  refine ⟨hdirs, fun e he => ?_⟩
  have htargets : ∀ e ∈ mntDirArr, e.target.head? = some '/' ∧ Path.Descending e.target ∧
      ∃ dir ∈ fslist, Path.resolve e.target <+: Path.components dir := by decide
  obtain ⟨habs, hdescending, dir, hdir, hprefix⟩ := htargets e he
  rw [Unmounting.resolve_target habs hdescending, Unmounting.inside,
    resolve_getMergedDir (hinv.ids id hcreated)]
  refine dir_above ((List.prefix_append_right_inj _).mpr hprefix) (hdirs _ ?_)
  exact List.mem_append_right _ (List.mem_map.mpr ⟨dir, hdir, rfl⟩)

theorem directories_of_containers_first :
    ∃ s, (dirs [] rootOnly).step ⟨rootOnly, [], [], []⟩
        (.createContainer (fun _ _ => false) "c1".toList) = some s ∧
      (∀ x, rootOnly.kind x ≠ none → s.tree.kind x = rootOnly.kind x) ∧
      (∀ x, rootOnly.kind x = none → s.tree.kind x ≠ none → s.tree.kind x = some .dir ∧ Above x ∨
        ∃ id ∈ s.created, id ∉ s.removed ∧ Under id x) ∧
      (∀ p ∈ layout "c1".toList, s.tree.kind p = some .dir) ∧
      ∀ e ∈ mntDirArr,
        s.tree.kind (Path.resolve (getMergedDir "c1".toList ++ e.target)) = some .dir := by
  have hrun : ((dirs [] rootOnly).step ⟨rootOnly, [], [], []⟩
      (.createContainer (fun _ _ => false) "c1".toList)).any
        (fun s => "c1".toList ∈ s.whole) = true := by decide +kernel
  obtain ⟨s, hs, hwhole⟩ := (Option.any_eq_true ..).mp hrun
  have hnothing : ∀ x, Under "c1".toList x → rootOnly.kind x = none := by
    intro x hx
    refine if_neg ?_
    rintro rfl
    rcases hx with hx | hx
    · simpa using List.prefix_nil.mp hx
    · simpa using List.prefix_nil.mp hx
  have hadmits : Admits ⟨rootOnly, [], [], []⟩
      (.createContainer (fun _ _ => false) "c1".toList) :=
    ⟨by decide, by simp, hnothing⟩
  have hreach : (dirs [] rootOnly).Reach Admits s := .step (.start rfl) hadmits hs
  obtain ⟨hkept, hnew, hdirs⟩ := directories_of_containers hreach
  exact ⟨s, hs, hkept, hnew, hdirs _ (of_decide_eq_true hwhole)⟩

end Hoststack.Directories
