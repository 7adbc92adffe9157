import Mathlib.Data.List.Induction
import Mathlib.Data.List.Infix

/-!
Trees of files and directories, by the components of their paths, and the directories missing on
the way to a path.
-/

namespace Hoststack

inductive FileKind | file | dir
  deriving DecidableEq

/-- What there is at each path; what there is lies in a directory. -/
structure FileTree (α : Type*) where
  kind : List α → Option FileKind
  root : kind [] = some .dir
  closed : ∀ n, kind n ≠ none → kind n.dropLast = some .dir

namespace FileTree

variable {α : Type*} {t t' : FileTree α} {base comps : List α} {k : ℕ}

lemma kind_above {a b : List α} (h : a <+: b) (hb : t.kind b ≠ none) : t.kind a ≠ none := by
  obtain ⟨r, rfl⟩ := h
  induction r using List.reverseRecOn with
  | nil => rwa [List.append_nil] at hb
  | append_singleton r c ih =>
    refine ih fun hnone => ?_
    have hdir := t.closed _ hb
    rw [← List.append_assoc, List.dropLast_concat, hnone] at hdir
    cases hdir

lemma dir_above {a b : List α} (h : a <+: b) (hb : t.kind b = some .dir) :
    t.kind a = some .dir := by
  obtain ⟨r, rfl⟩ := h
  rcases r with _ | ⟨c, r⟩
  · rwa [List.append_nil] at hb
  · rw [← List.singleton_append, ← List.append_assoc] at hb
    have hthere : t.kind (a ++ [c] ++ r) ≠ none := hb ▸ Option.some_ne_none _
    have hnext : t.kind (a ++ [c]) ≠ none := kind_above (List.prefix_append _ r) hthere
    simpa using t.closed _ hnext

/-- The first `k` components behind a path. -/
def way (base comps : List α) (k : ℕ) : List α := base ++ comps.take k

/-- The paths on the way, up to the first `k` components. -/
def ways (base comps : List α) (k : ℕ) : List (List α) :=
  (List.range k).map fun i => way base comps (i + 1)

lemma way_mono {j : ℕ} (h : j ≤ k) : way base comps j <+: way base comps k :=
  (List.prefix_append_right_inj base).mpr (List.take_prefix_take_left h)

lemma ways_succ : ways base comps (k + 1) = ways base comps k ++ [way base comps (k + 1)] := by
  unfold ways
  rw [List.range_succ, List.map_append, List.map_singleton]

/-! ### What grows -/

/-- What is in the second tree and not in the first are directories on the way to some paths. -/
def Grown (ps : List (List α)) (t t' : FileTree α) : Prop :=
  ∀ x, t'.kind x = t.kind x ∨ t.kind x = none ∧ t'.kind x = some .dir ∧ ∃ p ∈ ps, x <+: p

lemma Grown.trans {ps qs : List (List α)} {t'' : FileTree α} (h : Grown ps t t')
    (h' : Grown qs t' t'') : Grown (ps ++ qs) t t'' := by
  intro x
  rcases h' x with hsame | ⟨hnone, hdir, p, hp, hx⟩
  · rcases h x with hsame' | ⟨hnone, hdir, p, hp, hx⟩
    · exact Or.inl (hsame.trans hsame')
    · exact Or.inr ⟨hnone, hsame.trans hdir, p, List.mem_append_left _ hp, hx⟩
  · rcases h x with hsame' | ⟨-, hdir', -⟩
    · exact Or.inr ⟨hsame' ▸ hnone, hdir, p, List.mem_append_right _ hp, hx⟩
    · cases hnone.symm.trans hdir'

lemma Grown.kept {ps : List (List α)} {x : List α} (h : Grown ps t t') (hx : t.kind x ≠ none) :
    t'.kind x = t.kind x :=
  (h x).resolve_right fun hnew => hx hnew.1

/-! ### Making directories -/

variable [DecidableEq α] {refused : List α → Bool}

/-- A directory can be made at a path: the path is free, in a directory, and not refused. -/
def Creatable (refused : List α → Bool) (kind : List α → Option FileKind) (n : List α) : Prop :=
  kind n.dropLast = some .dir ∧ kind n = none ∧ refused n = false

instance (refused : List α → Bool) (kind : List α → Option FileKind) (n : List α) :
    Decidable (Creatable refused kind n) :=
  inferInstanceAs (Decidable (_ ∧ _ ∧ _))

/-- The tree with one directory more. -/
def addDir (t : FileTree α) (n : List α) (h : t.kind n.dropLast = some .dir) : FileTree α where
  kind x := if x = n then some .dir else t.kind x
  root := by
    split_ifs
    · rfl
    · exact t.root
  closed x hx := by
    by_cases hxn : x = n
    · rw [hxn, h]
      split_ifs <;> rfl
    · rw [if_neg hxn] at hx
      rw [t.closed x hx]
      split_ifs <;> rfl

/-- Make one directory. -/
def mkdir (refused : List α → Bool) (t : FileTree α) (n : List α) : Option (FileTree α) :=
  if h : Creatable refused t.kind n then some (t.addDir n h.1) else none

/-- The kinds of a tree with directories at those of the paths where there is nothing. -/
def added (t : FileTree α) (ns : List (List α)) (x : List α) : Option FileKind :=
  if t.kind x = none ∧ x ∈ ns then some .dir else t.kind x

lemma added_of_kind {ns : List (List α)} {x : List α} (h : t.kind x ≠ none) :
    t.added ns x = t.kind x :=
  if_neg fun hnone => h hnone.1

/-! ### Making what is missing -/

/-- The next path on the way is there, or can be made once all before it are. -/
def CanMake (refused : List α → Bool) (t : FileTree α) (base comps : List α) (j : ℕ) : Prop :=
  t.kind (way base comps (j + 1)) = none →
    Creatable refused (t.added (ways base comps j)) (way base comps (j + 1))

/-- What is left when the missing directories on the way are made, the shortest first: all of
them, or those before the first that cannot be made. -/
inductive Made (refused : List α → Bool) (t : FileTree α) (base comps : List α) (k : ℕ) :
    Bool → FileTree α → Prop
  | all {t' : FileTree α} (can : ∀ j < k, CanMake refused t base comps j)
      (kind : t'.kind = t.added (ways base comps k)) : Made refused t base comps k true t'
  | stopped {t' : FileTree α} {j : ℕ} (lt : j < k)
      (can : ∀ i < j, CanMake refused t base comps i) (cannot : ¬ CanMake refused t base comps j)
      (kind : t'.kind = t.added (ways base comps j)) : Made refused t base comps k false t'

lemma canMake_of_kind (h : t.kind (way base comps k) ≠ none) :
    ∀ j < k, CanMake refused t base comps j := fun _ hj hnone =>
  absurd hnone (kind_above (way_mono hj) h)

lemma made_zero : Made refused t base comps 0 true t := by
  refine .all (fun j hj => absurd hj (Nat.not_lt_zero j)) ?_
  funext x
  exact (if_neg fun h => by simp [ways] at h).symm

lemma made_of_kind (h : t.kind (way base comps k) ≠ none) :
    Made refused t base comps k true t := by
  refine .all (canMake_of_kind h) ?_
  funext x
  refine (if_neg ?_).symm
  rintro ⟨hnone, hx⟩
  obtain ⟨i, hi, rfl⟩ := List.mem_map.mp hx
  exact kind_above (way_mono (List.mem_range.mp hi)) h hnone

lemma Made.stopped_succ (h : Made refused t base comps k false t') :
    Made refused t base comps (k + 1) false t' := by
  cases h with
  | stopped lt can cannot kind => exact .stopped (Nat.lt_succ_of_lt lt) can cannot kind

/-- One directory more on the way: it is made, or it is the first that cannot be. -/
lemma Made.mkdir (h : Made refused t base comps k true t')
    (hmissing : t.kind (way base comps (k + 1)) = none) :
    (∃ t'', t'.mkdir refused (way base comps (k + 1)) = some t'' ∧
        Made refused t base comps (k + 1) true t'') ∨
      (t'.mkdir refused (way base comps (k + 1)) = none ∧
        Made refused t base comps (k + 1) false t') := by
  cases h with
  | all can kind =>
    unfold FileTree.mkdir
    by_cases hcan : Creatable refused t'.kind (way base comps (k + 1))
    · left
      rw [dif_pos hcan]
      refine ⟨_, rfl, .all (fun j hj => ?_) ?_⟩
      · rcases Nat.lt_succ_iff_lt_or_eq.mp hj with hj | rfl
        · exact can j hj
        · exact fun _ => kind ▸ hcan
      · funext x
        change (if x = way base comps (k + 1) then some .dir else t'.kind x) = _
        unfold added
        rw [kind, ways_succ]
        by_cases hx : x = way base comps (k + 1)
        · rw [if_pos hx, if_pos ⟨hx ▸ hmissing, by simp [hx]⟩]
        · rw [if_neg hx]
          unfold added
          simp only [List.mem_append, List.mem_singleton, hx, or_false]
    · right
      rw [dif_neg hcan]
      refine ⟨rfl, .stopped (Nat.lt_succ_self k) can (fun hmake => hcan ?_) kind⟩
      rw [kind]
      exact hmake hmissing

lemma Made.kept {ok : Bool} (h : Made refused t base comps k ok t') {x : List α}
    (hx : t.kind x ≠ none) : t'.kind x = t.kind x := by
  cases h with
  | all _ kind => rw [kind, added_of_kind hx]
  | stopped _ _ _ kind => rw [kind, added_of_kind hx]

lemma Made.grown {ok : Bool} (h : Made refused t base comps k ok t') :
    Grown [base ++ comps] t t' := by
  have hadded : ∀ j x, t.added (ways base comps j) x = t.kind x ∨
      t.kind x = none ∧ t.added (ways base comps j) x = some .dir ∧
        ∃ p ∈ [base ++ comps], x <+: p := by
    intro j x
    unfold added
    split_ifs with hx
    · obtain ⟨hnone, hmem⟩ := hx
      obtain ⟨i, -, rfl⟩ := List.mem_map.mp hmem
      refine Or.inr ⟨hnone, rfl, _, List.mem_singleton_self _, ?_⟩
      exact (List.prefix_append_right_inj base).mpr (List.take_prefix _ comps)
    · exact Or.inl rfl
  intro x
  cases h with
  | all _ kind => rw [kind]; exact hadded _ x
  | stopped _ _ _ kind => rw [kind]; exact hadded _ x

lemma Made.there (h : Made refused t base comps (k + 1) true t') :
    t'.kind (way base comps (k + 1)) ≠ none := by
  cases h with
  | all _ kind =>
    rw [kind]
    unfold added
    split_ifs with hx
    · exact Option.some_ne_none _
    · intro hnone
      refine hx ⟨hnone, ?_⟩
      rw [ways_succ]
      exact List.mem_append_right _ (List.mem_singleton_self _)

/-! ### What is removed -/

/-- One of the paths at or below `x` that are removed is at or above `y`. -/
def removes (gone : List α → Bool) (x y : List α) : Bool :=
  y.inits.any fun p => x <+: p ∧ p ≠ [] ∧ gone p = true

/-- The tree without some paths at or below `x`, and without all that is below them. The root
stays. -/
def prune (t : FileTree α) (gone : List α → Bool) (x : List α) : FileTree α where
  kind y := if removes gone x y then none else t.kind y
  root := by
    have hroot : removes gone x [] = false := by simp [removes]
    rw [hroot, if_neg Bool.false_ne_true]
    exact t.root
  closed y hy := by
    split_ifs at hy with hgone
    · exact absurd rfl hy
    · have hup : removes gone x y.dropLast = false := by
        refine Bool.eq_false_iff.mpr fun hgone' => hgone ?_
        obtain ⟨p, hp, hcond⟩ := List.any_eq_true.mp hgone'
        refine List.any_eq_true.mpr ⟨p, ?_, hcond⟩
        rw [List.mem_inits] at hp ⊢
        exact hp.trans (List.dropLast_prefix y)
      rw [hup, if_neg Bool.false_ne_true]
      exact t.closed y hy

variable {gone : List α → Bool} {x y : List α}

lemma kind_prune (t : FileTree α) (gone : List α → Bool) (x y : List α) :
    (t.prune gone x).kind y = t.kind y ∨ (t.prune gone x).kind y = none ∧ x <+: y := by
  unfold prune
  dsimp only
  split_ifs with hgone
  · obtain ⟨p, hp, hcond⟩ := List.any_eq_true.mp hgone
    exact Or.inr ⟨rfl, (of_decide_eq_true hcond).1.trans ((List.mem_inits p y).mp hp)⟩
  · exact Or.inl rfl

lemma kind_prune_of_prefix (hx : x ≠ []) (hgone : gone x = true) (hxy : x <+: y) :
    (t.prune gone x).kind y = none := by
  have hremoves : removes gone x y = true :=
    List.any_eq_true.mpr
      ⟨x, (List.mem_inits x y).mpr hxy, decide_eq_true ⟨List.prefix_rfl, hx, hgone⟩⟩
  exact if_pos hremoves

end FileTree

end Hoststack
