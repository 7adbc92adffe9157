import Hoststack.Lib.Tokens

/-!
Paths as their components.

The components of a path are its nonempty parts between slashes. Resolving a path drops the
components that stand for the directory they are in, and goes up one directory at a double
dot; links are not followed.
-/

namespace Hoststack.Path

def components (path : List Char) : List (List Char) := tokens (· == '/') path

/-- One component further down, nowhere, or one up. -/
def descend (stack : List (List Char)) (c : List Char) : List (List Char) :=
  if c = ['.'] then stack else if c = ['.', '.'] then stack.dropLast else stack ++ [c]

def resolve (path : List Char) : List (List Char) := (components path).foldl descend []

/-- The path never goes up. -/
def Descending (path : List Char) : Prop := ['.', '.'] ∉ components path

instance (path : List Char) : Decidable (Descending path) :=
  inferInstanceAs (Decidable (['.', '.'] ∉ components path))

variable {a b : List Char}

lemma components_append (a b : List Char) :
    components (a ++ '/' :: b) = components a ++ components b :=
  tokens_append_sep a b rfl

@[simp] lemma components_slash (b : List Char) : components ('/' :: b) = components b :=
  tokens_sep_cons b rfl

lemma components_dropWhile (b : List Char) :
    components (b.dropWhile (· == '/')) = components b :=
  tokens_dropWhile b

lemma foldl_descend (stack : List (List Char)) {l : List (List Char)} (h : ['.', '.'] ∉ l) :
    l.foldl descend stack = stack ++ l.filter (· ≠ ['.']) := by
  induction l generalizing stack with
  | nil => simp
  | cons c l ih =>
    rw [List.mem_cons, not_or] at h
    rw [List.foldl_cons, ih _ h.2, List.filter_cons]
    unfold descend
    by_cases hc : c = ['.']
    · simp [hc]
    · simp [hc, Ne.symm h.1]

lemma resolve_of_descending (h : Descending a) :
    resolve a = (components a).filter (· ≠ ['.']) := by
  unfold resolve
  rw [foldl_descend [] h, List.nil_append]

lemma resolve_of_components {p : List Char} (h : Descending b)
    (hp : components p = components a ++ components b) : resolve p = resolve a ++ resolve b := by
  unfold resolve
  rw [hp, List.foldl_append, foldl_descend _ h]
  exact congrArg _ (resolve_of_descending h).symm

/-! ### Going up -/

/-- A way from some directory: how far it goes up from there, and where it goes down then. -/
structure Walk where
  ups : ℕ
  downs : List (List Char)

namespace Walk

/-- One component further. A double dot takes back the last step down, if there is one. -/
def step (w : Walk) (c : List Char) : Walk :=
  if c = ['.'] then w
  else if c = ['.', '.'] then
    if w.downs = [] then ⟨w.ups + 1, []⟩ else ⟨w.ups, w.downs.dropLast⟩
  else ⟨w.ups, w.downs ++ [c]⟩

/-- Where the way ends that starts in `base`; above the root there is nothing. -/
def arrive (w : Walk) (base : List (List Char)) : List (List Char) :=
  base.take (base.length - w.ups) ++ w.downs

lemma descend_arrive (w : Walk) (base : List (List Char)) (c : List Char) :
    descend (w.arrive base) c = (w.step c).arrive base := by
  obtain ⟨ups, downs⟩ := w
  unfold descend step arrive
  split_ifs with hdot hup hdowns
  · rfl
  · -- one level further up
    simp only at hdowns ⊢
    rw [hdowns, List.append_nil, List.append_nil, List.dropLast_eq_take, List.length_take,
      List.take_take]
    congr 1
    omega
  · simp only at hdowns ⊢
    rw [List.dropLast_append_of_ne_nil hdowns]
  · simp only [List.append_assoc]

lemma foldl_descend_arrive (base : List (List Char)) (l : List (List Char)) (w : Walk) :
    l.foldl descend (w.arrive base) = (l.foldl step w).arrive base := by
  induction l generalizing w with
  | nil => rfl
  | cons c l ih => rw [List.foldl_cons, List.foldl_cons, descend_arrive, ih]

/-- The way ends at or below its start exactly when it goes down again what it has gone up. -/
lemma prefix_arrive_iff (w : Walk) (base : List (List Char)) :
    base <+: w.arrive base ↔ base.drop (base.length - w.ups) <+: w.downs := by
  have hinj : base.take (base.length - w.ups) ++ base.drop (base.length - w.ups) <+: w.arrive base ↔
      base.drop (base.length - w.ups) <+: w.downs := List.prefix_append_right_inj _
  rwa [List.take_append_drop] at hinj

end Walk

/-- The way a path describes. -/
def walk (path : List Char) : Walk := (components path).foldl Walk.step ⟨0, []⟩

lemma resolve_eq_arrive {p : List Char} (hp : components p = components a ++ components b) :
    resolve p = (walk b).arrive (resolve a) := by
  have hstart : resolve a = (Walk.mk 0 []).arrive (resolve a) := by simp [Walk.arrive]
  unfold walk
  rw [← Walk.foldl_descend_arrive, ← hstart]
  unfold resolve
  rw [hp, List.foldl_append]

end Hoststack.Path
