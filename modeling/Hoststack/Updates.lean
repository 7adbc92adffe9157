import Hoststack.FileIds
import Hoststack.Store

/-!
`update` on a data file of any content without real numbers.

Where there is no record to write over, the code inserts the container and goes on, up to three
times, and at the end it writes what it has read at the beginning; so the container is not in
the file.
-/

namespace Hoststack.Updates

open Cell Cell.Prog ContainerDao ContainerInfo FileIds Store

variable {info : ContainerInfo} {file file' : DataFile} {l l' : List Json} {j j' : Json}

/-- The file is missing, does not parse, or is null or an empty array. -/
def NoRecord : DataFile → Prop
  | .missing | .garbled _ => True
  | .parsed root => root = .null ∨ root = .arr []

/-- What `update` is for: the first record with the id is written over and the others are left
alone; a container that is put into a file without records is the only one there. -/
structure Updated (info : ContainerInfo) (file : DataFile) : Prop where
  records : ∀ l, file = .parsed (.arr l) → (∀ j ∈ l, ∃ r : Record, r.Holds j) →
    some info.id ∈ l.map idOf →
    ∃ l₁ j l₂ j', l = l₁ ++ j :: l₂ ∧ (∀ x ∈ l₁, idOf x ≠ some info.id) ∧
      idOf j = some info.id ∧ info.record.Holds j' ∧
      (update info).run file = (.parsed (.arr (l₁ ++ j' :: l₂)), some ())
  noRecord : NoRecord file → ∃ j, info.record.Holds j ∧
    (update info).run file = (.parsed (.arr [j]), some ())

/-- The file has something else in it than null and the empty array; where it does not parse,
what has been read of it is just one element with the id. -/
def Placed (info : ContainerInfo) : DataFile → Prop
  | .missing => False
  | .garbled root => ∃ j, root = .arr [j] ∧ idOf j = some info.id
  | .parsed root => root ≠ .null ∧ root ≠ .arr []

/-! ### One element -/

lemma idOf_of_holds {r : Record} (h : r.Holds j) : idOf j = some r.id := by
  have hid : j.member "id" = some (.str r.id) := h.member (by simp [Record.members])
  unfold idOf
  rw [hid]
  rfl

lemma demand_of_idOf {s : Str} (h : idOf j = some s) :
    ∃ v j₁, j.demand "id" = some (v, j₁) ∧ v.asString = some s ∧ j₁.IsRecord := by
  obtain ⟨v, hv, hs⟩ := Option.bind_eq_some_iff.mp h
  cases j with
  | null =>
    cases hv
    exact ⟨.null, _, rfl, hs, trivial⟩
  | obj m =>
    rcases hl : m.lookup "id" with _ | w
    · have hnull : v = .null := by simpa [Json.member, hl] using hv.symm
      exact ⟨.null, .obj (m ++ [("id", .null)]), by simp [Json.demand, hl], hnull ▸ hs, trivial⟩
    · have hw : v = w := by simpa [Json.member, hl] using hv.symm
      exact ⟨w, .obj m, Json.demand_of_lookup hl, hw ▸ hs, trivial⟩
  | bool b | int n | str t | arr l => cases hv

lemma updateLoop_cons_of_idOf (h : idOf j = some info.id) (l : List Json) :
    ∃ j', updateLoop info (j :: l) = some (j' :: l) ∧ info.record.Holds j' := by
  obtain ⟨v, j₁, hdemand, hs, hj₁⟩ := demand_of_idOf h
  obtain ⟨j', hwrite, hholds, -⟩ := dePack_spec hj₁ info
  refine ⟨j', ?_, hholds⟩
  simp [updateLoop, hdemand, hs, hwrite]

/-! ### Files with records -/

lemma updateLoop_records (h : ∀ j ∈ l, ∃ r : Record, r.Holds j)
    (hmem : some info.id ∈ l.map idOf) :
    ∃ l₁ j l₂ j', l = l₁ ++ j :: l₂ ∧ (∀ x ∈ l₁, idOf x ≠ some info.id) ∧
      idOf j = some info.id ∧ info.record.Holds j' ∧
      updateLoop info l = some (l₁ ++ j' :: l₂) := by
  induction l with
  | nil => cases hmem
  | cons j l ih =>
    obtain ⟨⟨r, hr⟩, hl⟩ := List.forall_mem_cons.mp h
    by_cases hid : idOf j = some info.id
    · obtain ⟨j', hrun, hholds⟩ := updateLoop_cons_of_idOf hid l
      exact ⟨[], j, l, j', rfl, by simp, hid, hholds, hrun⟩
    · have hrest : some info.id ∈ l.map idOf := by
        rcases List.mem_cons.mp hmem with heq | hrest
        · exact absurd heq.symm hid
        · exact hrest
      have hne : r.id ≠ info.id := by
        rw [idOf_of_holds hr] at hid
        exact fun heq => hid (congrArg some heq)
      obtain ⟨l₁, j₁, l₂, j', rfl, hfirst, hj₁, hholds, hrun⟩ := ih hl hrest
      refine ⟨j :: l₁, j₁, l₂, j', rfl, List.forall_mem_cons.mpr ⟨hid, hfirst⟩, hj₁, hholds, ?_⟩
      simp [updateLoop, holds_id hr, hne, hrun]

lemma run_update_arr (hne : l ≠ []) (h : updateLoop info l = some l') :
    (update info).run (.parsed (.arr l)) = (.parsed (.arr l'), some ()) := by
  simp [update, run_bind, DataFile.isMissing, DataFile.parses, DataFile.root, Json.size, hne,
    Json.elems, h]

lemma updated_of_records (h : ∀ j ∈ l, ∃ r : Record, r.Holds j)
    (hmem : some info.id ∈ l.map idOf) :
    ∃ l₁ j l₂ j', l = l₁ ++ j :: l₂ ∧ (∀ x ∈ l₁, idOf x ≠ some info.id) ∧
      idOf j = some info.id ∧ info.record.Holds j' ∧
      (update info).run (.parsed (.arr l)) = (.parsed (.arr (l₁ ++ j' :: l₂)), some ()) := by
  have hne : l ≠ [] := by
    rintro rfl
    cases hmem
  obtain ⟨l₁, j, l₂, j', heq, hfirst, hid, hholds, hrun⟩ := updateLoop_records h hmem
  exact ⟨l₁, j, l₂, j', heq, hfirst, hid, hholds, run_update_arr hne hrun⟩

/-! ### Files without records -/

lemma not_single_of_represents (h : Represents file []) :
    ¬ ∃ j, info.record.Holds j ∧ (update info).run file = (.parsed (.arr [j]), some ()) := by
  rintro ⟨j, -, hrun⟩
  obtain ⟨file', hrun', h'⟩ := update_run h info
  have hfile : file' = .parsed (.arr [j]) := congrArg Prod.fst (hrun'.symm.trans hrun)
  rw [hfile] at h'
  cases h' with
  | arr hl => cases hl

variable (info) in
/-- The container is inserted into what could be read of the file, and then the file is written
as `update` itself has read it, its first element with the id written over. -/
lemma run_update_garbled (hne : l ≠ []) :
    ∃ file₁, (update info).run (.garbled (.arr l)) =
      match updateLoop info l with
      | some l' => (.parsed (.arr l'), some ())
      | none => (file₁, none) := by
  obtain ⟨j, hwrite, -, -⟩ := dePack_spec (j := .null) trivial info
  refine ⟨.parsed (.arr (l ++ [j])), ?_⟩
  rcases hloop : updateLoop info l with _ | l'
  · simp [update, ContainerDao.insert, run_bind, DataFile.isMissing, DataFile.parses,
      DataFile.root, Json.size, Json.append, hwrite, hne, Json.elems, hloop]
  · simp [update, ContainerDao.insert, run_bind, DataFile.isMissing, DataFile.parses,
      DataFile.root, Json.size, Json.append, hwrite, hne, Json.elems, hloop]

lemma run_update_garbled_nil :
    (update info).run (.garbled (.arr [])) = (.parsed (.arr []), some ()) := by
  obtain ⟨j, hwrite, -, -⟩ := dePack_spec (j := .null) trivial info
  simp [update, ContainerDao.insert, run_bind, DataFile.isMissing, DataFile.parses,
    DataFile.root, Json.size, Json.append, hwrite]

variable (info) in
lemma run_update_garbled_none {root : Json} (h : ∀ j, root.append j = none) :
    ((update info).run (.garbled root)).2 = none := by
  obtain ⟨j, hwrite, -, -⟩ := dePack_spec (j := .null) trivial info
  simp [update, ContainerDao.insert, run_bind, DataFile.isMissing, DataFile.parses,
    DataFile.root, h, hwrite]

lemma single_garbled_iff (root : Json) :
    (∃ j, info.record.Holds j ∧
        (update info).run (.garbled root) = (.parsed (.arr [j]), some ())) ↔
      ∃ j, root = .arr [j] ∧ idOf j = some info.id := by
  have hthrows : (∀ j, root.append j = none) → ¬ ∃ j, info.record.Holds j ∧
      (update info).run (.garbled root) = (.parsed (.arr [j]), some ()) := by
    rintro happend ⟨j, -, hrun⟩
    have hnone := run_update_garbled_none info happend
    rw [hrun] at hnone
    cases hnone
  cases root with
  | null =>
    refine iff_of_false (not_single_of_represents .empty) ?_
    rintro ⟨j, hj, -⟩
    cases hj
  | bool b | int n | str s | obj m =>
    refine iff_of_false (hthrows fun _ => rfl) ?_
    rintro ⟨j, hj, -⟩
    cases hj
  | arr l =>
    by_cases hnil : l = []
    · subst hnil
      refine iff_of_false ?_ ?_
      · rintro ⟨j, -, hrun⟩
        rw [run_update_garbled_nil] at hrun
        cases hrun
      · rintro ⟨j, hj, -⟩
        cases hj
    · obtain ⟨file₁, hrun⟩ := run_update_garbled info hnil
      constructor
      · rintro ⟨j', hholds, hrun'⟩
        rw [hrun] at hrun'
        rcases hloop : updateLoop info l with _ | l'
        · rw [hloop] at hrun'
          cases hrun'
        · rw [hloop] at hrun'
          cases hrun'
          -- the loop keeps the ids, so there was one element, with the id of what is there now
          have hids : [j'].map idOf = l.map idOf := updateLoop_ids hloop
          rw [List.map_singleton, idOf_of_holds hholds] at hids
          obtain ⟨j, rfl, hid⟩ := List.map_eq_singleton_iff.mp hids.symm
          exact ⟨j, rfl, hid⟩
      · rintro ⟨j, hj, hid⟩
        cases hj
        obtain ⟨j', hloop, hholds⟩ := updateLoop_cons_of_idOf hid []
        rw [hloop] at hrun
        exact ⟨j', hholds, hrun⟩

/-- **update on every kind of file**: it does what it is for exactly where the file parses to
something else than null and the empty array, or does not parse and what has been read of it is
just one element with the id of the container. Files with real numbers are left out. -/
theorem updated_iff (info : ContainerInfo) (file : DataFile) :
    Updated info file ↔ Placed info file := by
  cases file with
  | missing =>
    refine iff_of_false (fun h => ?_) id
    exact not_single_of_represents .missing (h.noRecord trivial)
  | garbled root =>
    refine ⟨fun h => (single_garbled_iff root).mp (h.noRecord trivial), fun h => ⟨?_, ?_⟩⟩
    · intro l hl
      cases hl
    · exact fun _ => (single_garbled_iff root).mpr h
  | parsed root =>
    constructor
    · intro h
      refine ⟨?_, ?_⟩
      · rintro rfl
        exact not_single_of_represents .null (h.noRecord (Or.inl rfl))
      · rintro rfl
        exact not_single_of_represents (.arr .nil) (h.noRecord (Or.inr rfl))
    · rintro ⟨hnull, hempty⟩
      refine ⟨?_, fun h => ?_⟩
      · rintro l hl hrecords hmem
        cases hl
        exact updated_of_records hrecords hmem
      · exact h.elim (fun h => absurd h hnull) fun h => absurd h hempty

/-- A container that is to be recorded as running, and is lost with the file. -/
theorem update_loses : ¬ ∀ info file, Updated info file := by
  intro hall
  have hone := (hall ranInfo .missing).noRecord trivial
  exact not_single_of_represents .missing hone

end Hoststack.Updates
