import Hoststack.Lib.FileTree
import Hoststack.UsgCommon

/-!
Making a directory and those above it.

`mkdir_r` cuts its path at the last separator, makes what is before it first, and then the
directory itself. A path is taken apart into its components where the system looks it up; paths
with single or double dots are not looked up here.
-/

namespace Hoststack.Mkdir

open FileTree

def pathSeperator : Str := ['/']

/-- The loop of `strstr_r`, whose `end` is one less than the argument. -/
def strstrRLoop (str needle : Str) : ℕ → Option ℕ
  | 0 => none
  | pos + 1 =>
    if (str.drop pos).take needle.length = needle then some pos else strstrRLoop str needle pos

/-- The last occurrence of a string. -/
def strstrR (str needle : Str) : Option ℕ :=
  strstrRLoop str needle (str.length + 1 - needle.length)

/-- Where the system finds a path, from the working directory or the root; an empty path is
found nowhere. -/
def lookUp (cwd : List Str) (pathname : Str) : Option (List Str) :=
  if pathname = [] then none
  else if pathname.head? = some '/' then some (Path.components pathname)
  else some (cwd ++ Path.components pathname)

/-- `access` with `F_OK`. -/
def access (cwd : List Str) (pathname : Str) (t : FileTree Str) : Bool :=
  ((lookUp cwd pathname).bind t.kind).isSome

/-- `mkdir`: the value it returns and the tree. -/
def mkdir (refused : List Str → Bool) (cwd : List Str) (pathname : Str) (t : FileTree Str) :
    ℤ × FileTree Str :=
  match (lookUp cwd pathname).bind (t.mkdir refused) with
  | some t => (0, t)
  | none => (-1, t)

/-- What follows when the parent is there. -/
def mkdirLast (refused : List Str → Bool) (cwd : List Str) (pathname : Str) (t : FileTree Str) :
    ℤ × FileTree Str :=
  if pathname.length = 0 then (0, t)
  else
    let (ret, t) := mkdir refused cwd pathname t
    if ret ≠ 0 then (-1, t) else (0, t)

/-- `mkdir_r`; without enough fuel it has no result. -/
def mkdirR (refused : List Str → Bool) (cwd : List Str) :
    ℕ → Str → FileTree Str → Option (ℤ × FileTree Str)
  | 0, _, _ => none
  | fuel + 1, pathname, t =>
    if access cwd pathname t then some (0, t)
    else if pathname = pathSeperator then
      let (ret, t) := mkdir refused cwd pathname t
      if ret ≠ 0 then some (-1, t) else some (0, t)
    else
      match strstrR pathname pathSeperator with
      | none => some (mkdirLast refused cwd pathname t)
      | some parentEnd =>
        match mkdirR refused cwd fuel (pathname.take parentEnd) t with
        | none => none
        | some (ret, t) =>
          if ret = -1 then some (-1, t) else some (mkdirLast refused cwd pathname t)

/-! ### Paths -/

/-- The string of a path, with or without a separator in front. -/
def render (absolute : Bool) (comps : List Str) : Str :=
  (if absolute then ['/'] else []) ++ ['/'].intercalate comps

/-- Components of a path: not empty, without separators, and neither a single dot nor a double
one. -/
def Comps (comps : List Str) : Prop :=
  ∀ c ∈ comps, c ≠ [] ∧ '/' ∉ c ∧ c ≠ ['.'] ∧ c ≠ ['.', '.']

instance (comps : List Str) : Decidable (Comps comps) :=
  inferInstanceAs (Decidable (∀ c ∈ comps, _))

variable {absolute : Bool} {comps : List Str} {c : Str}

/-- Where the components are looked up from. -/
def base (cwd : List Str) (absolute : Bool) : List Str := if absolute then [] else cwd

lemma intercalate_concat {xs : List Str} (hne : xs ≠ []) (c : Str) :
    ['/'].intercalate (xs ++ [c]) = ['/'].intercalate xs ++ '/' :: c := by
  induction xs with
  | nil => exact absurd rfl hne
  | cons x xs ih =>
    rcases xs with _ | ⟨y, xs⟩
    · simp [List.intercalate]
    · have hcons : ∀ l : List Str, ['/'].intercalate (x :: y :: l) =
          x ++ '/' :: ['/'].intercalate (y :: l) := fun l => by
        simp [List.intercalate, List.intersperse]
      have hrest := ih (List.cons_ne_nil y xs)
      rw [List.cons_append] at hrest
      rw [List.cons_append, List.cons_append, hcons, hcons, hrest, List.append_assoc]
      rfl

lemma render_concat {xs : List Str} (hne : xs ≠ []) (c : Str) :
    render absolute (xs ++ [c]) = render absolute xs ++ '/' :: c := by
  unfold render
  rw [intercalate_concat hne, List.append_assoc]

lemma components_render (h : Comps comps) : Path.components (render absolute comps) = comps := by
  have hcomps : Path.components (['/'].intercalate comps) = comps := by
    refine (tokens_intercalate_eq_iff (p := (· == '/')) rfl comps).mpr fun a ha => ?_
    exact ⟨(h a ha).1, fun x hx => beq_eq_false_iff_ne.mpr fun heq => (h a ha).2.1 (heq ▸ hx)⟩
  unfold render
  rcases absolute with _ | _
  · exact hcomps
  · exact (Path.components_slash _).trans hcomps

lemma lookUp_render (cwd : List Str) (h : Comps comps) (hne : comps ≠ []) :
    lookUp cwd (render absolute comps) = some (base cwd absolute ++ comps) := by
  unfold lookUp
  rw [components_render h]
  obtain ⟨c, cs, rfl⟩ := List.exists_cons_of_ne_nil hne
  rcases absolute with _ | _
  · obtain ⟨hc, hslash, -⟩ := h c (by simp)
    obtain ⟨x, rest, rfl⟩ := List.exists_cons_of_ne_nil hc
    have hx : x ≠ '/' := fun heq => hslash (by simp [heq])
    obtain ⟨r, hr⟩ : ∃ r, render false ((x :: rest) :: cs) = x :: r := by
      rcases cs with _ | ⟨d, cs⟩
      · exact ⟨rest, by simp [render, List.intercalate]⟩
      · exact ⟨_, by simp [render, List.intercalate, List.intersperse]; rfl⟩
    rw [hr, if_neg (List.cons_ne_nil x r), if_neg (by simpa using hx)]
    rfl
  · rw [if_neg (by simp [render]), if_pos (by simp [render])]
    rfl

/-! ### The last separator -/

lemma strstrRLoop_clean {s : Str} (hc : '/' ∉ c) (j : ℕ) (hj : j ≤ c.length) :
    strstrRLoop (s ++ c) pathSeperator (s.length + j) =
      strstrRLoop (s ++ c) pathSeperator s.length := by
  induction j with
  | zero => rfl
  | succ j ih =>
    have hne : ¬ ((s ++ c).drop (s.length + j)).take pathSeperator.length = pathSeperator := by
      have hdrop : (s ++ c).drop (s.length + j) = c.drop j := by
        rw [← List.drop_drop, List.drop_left]
      intro heq
      rw [hdrop] at heq
      have hmem : '/' ∈ (c.drop j).take pathSeperator.length := by
        rw [heq]
        exact List.mem_singleton_self _
      exact hc (List.mem_of_mem_drop (List.mem_of_mem_take hmem))
    rw [← Nat.add_assoc, strstrRLoop, if_neg hne]
    exact ih (by omega)

lemma strstrR_clean (hc : '/' ∉ c) : strstrR c pathSeperator = none := by
  have hlen : c.length + 1 - pathSeperator.length = ([] : Str).length + c.length := by
    change c.length + 1 - 1 = 0 + c.length
    omega
  unfold strstrR
  rw [hlen]
  exact strstrRLoop_clean (s := []) hc c.length (Nat.le_refl _)

lemma strstrR_append (hc : '/' ∉ c) (s : Str) :
    strstrR (s ++ '/' :: c) pathSeperator = some s.length := by
  have hlen : (s ++ '/' :: c).length + 1 - pathSeperator.length =
      (s ++ ['/']).length + c.length := by
    rw [List.length_append, List.length_append, List.length_cons, List.length_singleton]
    change _ + 1 - 1 = _
    omega
  have hstr : s ++ '/' :: c = (s ++ ['/']) ++ c := by simp
  unfold strstrR
  rw [hlen, hstr, strstrRLoop_clean hc c.length (Nat.le_refl _), List.length_append,
    List.length_singleton, strstrRLoop, if_pos]
  rw [List.append_assoc, List.drop_left]
  rfl

/-! ### Runs -/

variable {refused : List Str → Bool} {cwd : List Str} {t t' : FileTree Str} {fuel k : ℕ}

/-- The value returned. -/
def code (ok : Bool) : ℤ := if ok then 0 else -1

lemma Comps.take (h : Comps comps) (k : ℕ) : Comps (comps.take k) := fun c hc =>
  h c (List.mem_of_mem_take hc)

/-- The string before the last separator of an absolute path with one component: there is no
directory to make. -/
lemma mkdirR_nil (refused : List Str → Bool) (cwd : List Str) (fuel : ℕ) (t : FileTree Str) :
    mkdirR refused cwd (fuel + 1) [] t = some (0, t) := rfl

lemma lookUp_way (cwd : List Str) (absolute : Bool) (h : Comps comps) (hk : k < comps.length) :
    lookUp cwd (render absolute (comps.take (k + 1))) =
      some (way (base cwd absolute) comps (k + 1)) := by
  refine lookUp_render cwd (h.take _) fun hnil => ?_
  have hlen := congrArg List.length hnil
  rw [List.length_take_of_le (by omega), List.length_nil] at hlen
  omega

lemma mkdirLast_made (h : Comps comps) (hk : k < comps.length)
    (hmade : Made refused t (base cwd absolute) comps k true t')
    (hmissing : t.kind (way (base cwd absolute) comps (k + 1)) = none) :
    ∃ ok t'', mkdirLast refused cwd (render absolute (comps.take (k + 1))) t' = (code ok, t'') ∧
      Made refused t (base cwd absolute) comps (k + 1) ok t'' := by
  have hlook := lookUp_way cwd absolute h hk
  have hne : ¬ (render absolute (comps.take (k + 1))).length = 0 := fun hzero => by
    rw [List.eq_nil_of_length_eq_zero hzero] at hlook
    cases hlook
  unfold mkdirLast mkdir
  rw [if_neg hne, hlook]
  dsimp only [Option.bind_some]
  rcases hmade.mkdir hmissing with ⟨t'', hmk, hmade'⟩ | ⟨hmk, hmade'⟩
  · rw [hmk]
    exact ⟨true, t'', rfl, hmade'⟩
  · rw [hmk]
    exact ⟨false, t', rfl, hmade'⟩

/-- What `mkdir_r` does for a path up to its first `k` components, if it has enough fuel. -/
def Runs (refused : List Str → Bool) (cwd : List Str) (absolute : Bool) (comps : List Str)
    (t : FileTree Str) (k : ℕ) (pathname : Str) : Prop :=
  ∃ ok t', (∀ fuel, pathname.length < fuel →
      mkdirR refused cwd fuel pathname t = some (code ok, t')) ∧
    Made refused t (base cwd absolute) comps k ok t'

lemma parent_cases (h : Comps comps) (hk : k < comps.length)
    (hruns : k ≠ 0 → Runs refused cwd absolute comps t k (render absolute (comps.take k))) :
    let pathname := render absolute (comps.take (k + 1))
    (k = 0 ∧ strstrR pathname pathSeperator = none) ∨
      ∃ i, strstrR pathname pathSeperator = some i ∧ i < pathname.length ∧
        Runs refused cwd absolute comps t k (pathname.take i) := by
  intro pathname
  obtain ⟨c, hc, hsplit⟩ : ∃ c ∈ comps, comps.take (k + 1) = comps.take k ++ [c] :=
    ⟨comps[k], List.getElem_mem hk, List.take_succ_eq_append_getElem hk⟩
  obtain ⟨-, hslash, -⟩ := h c hc
  by_cases hzero : k = 0
  · have hone : comps.take (k + 1) = [c] := by
      rw [hsplit, hzero, List.take_zero, List.nil_append]
    rcases absolute with _ | _
    · have hpath : pathname = c := by simp [pathname, hone, render, List.intercalate]
      rw [hpath]
      exact Or.inl ⟨hzero, strstrR_clean hslash⟩
    · -- the string in front of the leading separator is empty
      have hpath : pathname = [] ++ '/' :: c := by
        simp [pathname, hone, render, List.intercalate]
      rw [hpath]
      refine Or.inr ⟨0, strstrR_append hslash [], by simp, true, t, fun fuel hfuel => ?_, ?_⟩
      · obtain ⟨f, rfl⟩ := Nat.exists_eq_add_one_of_ne_zero (Nat.ne_of_gt hfuel)
        exact mkdirR_nil refused cwd f t
      · rw [hzero]
        exact made_zero
  · have hne : comps.take k ≠ [] := fun hnil => hzero <| by
      have hlen := congrArg List.length hnil
      rwa [List.length_take_of_le (by omega), List.length_nil] at hlen
    have hpath : pathname = render absolute (comps.take k) ++ '/' :: c := by
      rw [← render_concat hne, ← hsplit]
    rw [hpath]
    refine Or.inr ⟨_, strstrR_append hslash _, by simp, ?_⟩
    rw [List.take_left]
    exact hruns hzero

/-- One level of the recursion: the path is there, or the last directory is made behind what
is made before it. -/
lemma runs_succ (h : Comps comps) (hk : k < comps.length)
    (hruns : k ≠ 0 → Runs refused cwd absolute comps t k (render absolute (comps.take k))) :
    Runs refused cwd absolute comps t (k + 1) (render absolute (comps.take (k + 1))) := by
  have hlook := lookUp_way cwd absolute h hk
  have hparent := parent_cases h hk hruns
  have hsep : render absolute (comps.take (k + 1)) ≠ pathSeperator := fun heq => by
    have hcomps : Path.components (render absolute (comps.take (k + 1))) = comps.take (k + 1) :=
      components_render (h.take (k + 1))
    rw [heq, show Path.components pathSeperator = [] from rfl] at hcomps
    have hlen := congrArg List.length hcomps
    rw [List.length_take_of_le (by omega), List.length_nil] at hlen
    omega
  dsimp only at hparent
  generalize hpath : render absolute (comps.take (k + 1)) = pathname at hlook hparent hsep ⊢
  by_cases hmissing : t.kind (way (base cwd absolute) comps (k + 1)) = none
  · have haccess : ¬ access cwd pathname t = true := by
      unfold access
      rw [hlook, Option.bind_some, hmissing]
      exact Bool.false_ne_true
    have hlast : ∀ {t'}, Made refused t (base cwd absolute) comps k true t' →
        ∃ ok t'', mkdirLast refused cwd pathname t' = (code ok, t'') ∧
          Made refused t (base cwd absolute) comps (k + 1) ok t'' := fun hmade => by
      rw [← hpath]
      exact mkdirLast_made h hk hmade hmissing
    rcases hparent with ⟨hzero, hstr⟩ | ⟨i, hstr, hi, ok, t', hrun, hmade⟩
    · obtain ⟨ok, t'', hmk, hmade⟩ := hlast (hzero ▸ made_zero)
      refine ⟨ok, t'', fun fuel hfuel => ?_, hmade⟩
      obtain ⟨f, rfl⟩ := Nat.exists_eq_add_one_of_ne_zero (Nat.ne_of_gt (Nat.zero_lt_of_lt hfuel))
      rw [mkdirR, if_neg haccess, if_neg hsep, hstr, ← hmk]
    · have htake : (pathname.take i).length = i := List.length_take_of_le (Nat.le_of_lt hi)
      rcases ok with _ | _
      · refine ⟨false, t', fun fuel hfuel => ?_, hmade.stopped_succ⟩
        obtain ⟨f, rfl⟩ := Nat.exists_eq_add_one_of_ne_zero (Nat.ne_of_gt (Nat.zero_lt_of_lt hfuel))
        rw [mkdirR, if_neg haccess, if_neg hsep, hstr]
        dsimp only
        rw [hrun f (by omega)]
        rfl
      · obtain ⟨ok, t'', hmk, hmade'⟩ := hlast hmade
        refine ⟨ok, t'', fun fuel hfuel => ?_, hmade'⟩
        obtain ⟨f, rfl⟩ := Nat.exists_eq_add_one_of_ne_zero (Nat.ne_of_gt (Nat.zero_lt_of_lt hfuel))
        rw [mkdirR, if_neg haccess, if_neg hsep, hstr]
        dsimp only
        rw [hrun f (by omega), ← hmk]
        rfl
  · refine ⟨true, t, fun fuel hfuel => ?_, made_of_kind hmissing⟩
    obtain ⟨f, rfl⟩ := Nat.exists_eq_add_one_of_ne_zero (Nat.ne_of_gt (Nat.zero_lt_of_lt hfuel))
    have haccess : access cwd pathname t = true := by
      unfold access
      rw [hlook, Option.bind_some]
      exact Option.isSome_iff_ne_none.mpr hmissing
    rw [mkdirR, if_pos haccess]
    rfl

lemma runs_all (h : Comps comps) (hk : k < comps.length) :
    Runs refused cwd absolute comps t (k + 1) (render absolute (comps.take (k + 1))) := by
  induction k with
  | zero => exact runs_succ h hk fun hzero => absurd rfl hzero
  | succ k ih => exact runs_succ h hk fun _ => ih (by omega)

/-- What `mkdir_r` is for: it returns 0 if the path is there or all that is missing on the way can
be made; the missing directories are made, or those before the first that cannot be. -/
structure MakesDirs (refused : List Str → Bool) (t : FileTree Str) (base comps : List Str) (ret : ℤ)
    (t' : FileTree Str) : Prop where
  returned : ret = 0 ↔ t.kind (way base comps comps.length) ≠ none ∨
    ∀ j < comps.length, CanMake refused t base comps j
  made : ret = 0 → t'.kind = t.added (ways base comps comps.length)
  stopped : ret ≠ 0 → ret = -1 ∧ ∃ j < comps.length, ¬ CanMake refused t base comps j ∧
    (∀ i < j, CanMake refused t base comps i) ∧ t'.kind = t.added (ways base comps j)
  kept : ∀ x, t.kind x ≠ none → t'.kind x = t.kind x

/-- **mkdir_r** returns, for every path and tree, and makes the directories that are missing. -/
theorem mkdirR_spec (refused : List Str → Bool) (cwd : List Str) (t : FileTree Str)
    (absolute : Bool) (comps : List Str) (h : Comps comps) (hne : comps ≠ []) :
    ∃ ret t', (∀ fuel, (render absolute comps).length < fuel →
        mkdirR refused cwd fuel (render absolute comps) t = some (ret, t')) ∧
      MakesDirs refused t (base cwd absolute) comps ret t' := by
  obtain ⟨n, hn⟩ : ∃ n, comps.length = n + 1 :=
    Nat.exists_eq_add_one_of_ne_zero fun hzero => hne (List.eq_nil_of_length_eq_zero hzero)
  have hruns : Runs refused cwd absolute comps t (n + 1) (render absolute (comps.take (n + 1))) :=
    runs_all h (by omega)
  rw [← hn, List.take_length] at hruns
  obtain ⟨ok, t', hrun, hmade⟩ := hruns
  refine ⟨code ok, t', hrun, ?_, fun hret => ?_, fun hret => ?_, fun x hx => hmade.kept hx⟩
  · cases hmade with
    | all can _ => exact iff_of_true rfl (Or.inr can)
    | stopped lt _ cannot _ =>
      refine iff_of_false (by decide) ?_
      rintro (hthere | hall)
      · exact cannot (canMake_of_kind hthere _ lt)
      · exact cannot (hall _ lt)
  · cases hmade with
    | all _ kind => exact kind
    | stopped => exact absurd hret (by decide)
  · cases hmade with
    | all => exact absurd rfl hret
    | stopped lt can cannot kind => exact ⟨rfl, _, lt, cannot, can, kind⟩

/-- Nothing but the root directory. -/
def rootOnly : FileTree Str where
  kind x := if x = [] then some .dir else none
  root := rfl
  closed x hx := by
    rcases x with _ | ⟨c, x⟩
    · rfl
    · exact absurd rfl hx

theorem mkdirR_spec_opt :
    ∃ ret t', (∀ fuel, (render true ["opt".toList, "run".toList]).length < fuel →
        mkdirR (· == ["opt".toList, "run".toList]) [] fuel
          (render true ["opt".toList, "run".toList]) rootOnly = some (ret, t')) ∧
      MakesDirs (· == ["opt".toList, "run".toList]) rootOnly (base [] true)
        ["opt".toList, "run".toList] ret t' :=
  mkdirR_spec (· == ["opt".toList, "run".toList]) [] rootOnly true ["opt".toList, "run".toList]
    (by decide) (by decide)

example : ((mkdirR (fun _ => false) [] 9 "/opt/run".toList rootOnly).map fun out =>
    (out.1, out.2.kind ["opt".toList], out.2.kind ["opt".toList, "run".toList])) =
      some (0, some .dir, some .dir) := by
  decide

end Hoststack.Mkdir
