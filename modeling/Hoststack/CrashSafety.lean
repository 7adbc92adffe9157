import Hoststack.Interleaving
import Hoststack.Lib.Crash

/-!
The data file after a process was cut off while it wrote it.

The file is opened, which empties it, and its text is written in pieces; the only copy is
overwritten in place. A reader that comes in between, or after a crash, has a text before it
that is cut off, which does not parse. The printer and the parser are those of a library that
is not here; what is asked of them is asked of arrays and of null, as no operation writes
anything else.
-/

namespace Hoststack.CrashSafety

open Cell Cell.Prog ContainerDao ContainerInfo Store Interleaving

/-- What the operations write as the root of the file. -/
def IsRoot : Json → Prop
  | .null | .arr _ => True
  | _ => False

/-- The text of a value, and what a reader makes of its first characters: of none it makes null;
of all of a root the value, and of fewer the value, if what is missing is blank, or else what
the parser leaves where it fails, which is a root again. -/
structure StyledText where
  text : Json → Str
  upTo : Json → ℕ → DataFile
  upTo_zero (v : Json) : upTo v 0 = .garbled .null
  upTo_length {v : Json} (h : IsRoot v) : upTo v (text v).length = .parsed v
  upTo_lt {v : Json} {n : ℕ} (h : IsRoot v) (hn : n < (text v).length) :
    upTo v n = .parsed v ∨ ∃ root, IsRoot root ∧ upTo v n = .garbled root

/-- What is left of a write that is cut off after some of its characters. -/
def StyledText.Cut (text : StyledText) (file file' : DataFile) : Prop :=
  ∃ v n, file = .parsed v ∧ n ≤ (text.text v).length ∧ file' = text.upTo v n

/-- The records that an operation returns. -/
def returned : Operation → Dao (List ContainerInfo)
  | .getContainerByIdOrName sys value => do
    return (← ContainerDao.getContainerByIdOrName sys value).toList
  | .getContainerById value => do return (← ContainerDao.getContainerById value).toList
  | .getContainerByName value => do return (← ContainerDao.getContainerByName value).toList
  | .list => do return (← ContainerDao.list).getD []
  | o => do
    o.program
    return []

/-- The operation may add a record to a file that does not parse. -/
def Adds : Operation → Prop
  | .insert _ | .update _ => True
  | _ => False

/-- The file after the lookup that an operation starts with, if any. -/
def lookedUpFile (o : Operation) (file : DataFile) : DataFile :=
  match o with
  | .deleteById sys name | .changeStatusToStop sys _ name | .getContainerByIdOrName sys name =>
    (ContainerDao.getContainerByIdOrName sys name).exec file
  | _ => file

/-! ### What is written -/

variable {file file' : DataFile} {rs : List Record}

lemma writes_ignore {α : Type} (p : Dao α) (file : DataFile) :
    (do let _ ← p : Dao Unit).writes file = p.writes file := by
  simp

lemma writes_insert (info : ContainerInfo) (file : DataFile) :
    ∀ f ∈ (insert info).writes file, f = (insert info).exec file := by
  unfold ContainerDao.insert exec
  simp only [writes_bind, run_bind, run_get, writes_get, writes_ofOption, List.nil_append]
  rcases dePackContainerInfo .null info with _ | infojson
  · simp
  · rcases hroot : file.root.append infojson with _ | root
    · simp [hroot]
    · simp [hroot]

lemma writes_lookup (sys : Sys) (value : Str) (file : DataFile) :
    ∀ f ∈ (getContainerByIdOrName sys value).writes file,
      f = (getContainerByIdOrName sys value).exec file := by
  unfold getContainerByIdOrName exec
  simp only [writes_bind, run_bind, run_get, writes_get, List.nil_append]
  split_ifs with hparses hsize
  · simp
  · simp
  · rcases file.root.elems >>= lookupLoop sys value with _ | ⟨records, record, dead⟩
    · simp
    · rcases hpack : record.mapM packContainerInfo with _ | info
      · cases dead <;> simp [hpack, writes_bind, run_bind]
      · cases dead <;> simp [hpack]

lemma writes_getContainerBy (key : String) (value : Str) (file : DataFile) :
    (getContainerBy key value).writes file = [] := by
  unfold getContainerBy
  simp only [writes_bind, run_get, writes_get, List.nil_append]
  split_ifs <;> simp

lemma writes_list (file : DataFile) : ContainerDao.list.writes file = [] := by
  unfold ContainerDao.list
  simp only [writes_bind, run_get, writes_get, List.nil_append]
  split_ifs
  · simp
  · simp
  · rcases file.root.elems >>= fun l => l.mapM packContainerInfo with _ | infos
    · simp
    · simp

lemma writes_update (h : Represents file rs) (hne : rs ≠ []) (info : ContainerInfo) :
    ∀ f ∈ (update info).writes file, f = (update info).exec file := by
  rcases h.cases_nil with ⟨rfl, -⟩ | ⟨l, rfl, hl, -⟩
  · exact absurd rfl hne
  · have hparses : (DataFile.parsed (.arr l)).parses = true := rfl
    have hmissing : (DataFile.parsed (.arr l)).isMissing = false := rfl
    have hsize : ¬ (DataFile.parsed (.arr l)).root.size = 0 := by
      simpa [DataFile.root, Json.size] using hl
    unfold update exec
    simp only [writes_bind, run_bind, run_get, writes_get, hparses, hmissing, hsize,
      List.nil_append]
    rcases (DataFile.parsed (.arr l)).root.elems >>= updateLoop info with _ | records
    · simp
    · simp

lemma writes_deleteById (sys : Sys) (name : Str) (file : DataFile) :
    ∀ f ∈ (deleteById sys name).writes file,
      f = (getContainerByIdOrName sys name).exec file ∨ f = (deleteById sys name).exec file := by
  intro f hf
  unfold deleteById at hf ⊢
  rcases hrun : (getContainerByIdOrName sys name).run file with ⟨file₁, _ | info⟩
  · rw [writes_bind_none hrun] at hf
    exact Or.inl (writes_lookup sys name file f hf)
  · rw [writes_bind_some hrun] at hf
    rcases List.mem_append.mp hf with hf | hf
    · exact Or.inl (writes_lookup sys name file f hf)
    · right
      unfold exec
      rw [run_bind_some hrun]
      simp only [writes_bind, run_bind, run_get, writes_get, List.nil_append] at hf ⊢
      split_ifs at hf ⊢ with hparses hsize
      · simp at hf
      · simp at hf
      · rcases hloop : file₁.root.elems >>= fun l => deleteLoop info l .null with _ | root
        · simp [hloop] at hf
        · simpa [hloop] using hf

lemma writes_changeStatusToStop (h : Represents file rs) (hne : rs ≠ []) (sys : Sys)
    (now : Int64) (name : Str) : ∀ f ∈ (changeStatusToStop sys now name).writes file,
      f = (getContainerByIdOrName sys name).exec file ∨
        f = (changeStatusToStop sys now name).exec file := by
  intro f hf
  obtain ⟨file₁, hrun, h₁⟩ := lookup_run h sys name
  unfold changeStatusToStop at hf ⊢
  rw [writes_bind_some hrun] at hf
  rcases List.mem_append.mp hf with hf | hf
  · exact Or.inl (writes_lookup sys name file f hf)
  · right
    unfold exec
    rw [run_bind_some hrun]
    rcases hfound : found sys name rs with _ | r
    · rw [hfound] at hf
      cases hf
    · rw [hfound] at hf
      exact writes_update h₁ (lookedUp_eq_nil_iff.not.mpr hne) _ f hf

lemma writes_program (h : Represents file rs) (hne : rs ≠ []) (o : Operation) :
    ∀ f ∈ o.program.writes file, f = lookedUpFile o file ∨ f = o.program.exec file := by
  intro f hf
  cases o with
  | insert info => exact Or.inr (writes_insert info file f hf)
  | deleteById sys name => exact writes_deleteById sys name file f hf
  | update info => exact Or.inr (writes_update h hne info f hf)
  | changeStatusToStop sys now name => exact writes_changeStatusToStop h hne sys now name f hf
  | getContainerByIdOrName sys value =>
    rw [Operation.program, writes_ignore] at hf
    exact Or.inl (writes_lookup sys value file f hf)
  | getContainerById value =>
    rw [Operation.program, writes_ignore, getContainerById, writes_getContainerBy] at hf
    cases hf
  | getContainerByName value =>
    rw [Operation.program, writes_ignore, getContainerByName, writes_getContainerBy] at hf
    cases hf
  | list =>
    rw [Operation.program, writes_ignore, writes_list] at hf
    cases hf

/-! ### A file that is cut off -/

lemma represents_of_writes (h : Represents file rs) (hne : rs ≠ []) (o : Operation) :
    ∀ f ∈ o.program.writes file, ∃ rs', Represents f rs' := by
  intro f hf
  rcases writes_program h hne o f hf with rfl | rfl
  · have hlookup : ∀ sys value,
        ∃ rs', Represents ((getContainerByIdOrName sys value).exec file) rs' := by
      intro sys value
      obtain ⟨file₁, hrun, h₁⟩ := lookup_run h sys value
      exact ⟨_, by simpa [exec, hrun] using h₁⟩
    cases o with
    | deleteById sys name => exact hlookup sys name
    | changeStatusToStop sys now name => exact hlookup sys name
    | getContainerByIdOrName sys value => exact hlookup sys value
    | _ => exact ⟨rs, h⟩
  · exact ⟨_, exec_represents h o⟩

lemma Represents.isRoot {v : Json} (h : Represents (.parsed v) rs) : IsRoot v := by
  cases h with
  | null => trivial
  | arr => trivial

lemma cut_cases {text : StyledText} (hrep : Represents file rs) (h : text.Cut file file') :
    file' = file ∨ ∃ root, IsRoot root ∧ file' = .garbled root := by
  obtain ⟨v, n, rfl, hle, rfl⟩ := h
  rcases hle.lt_or_eq with hlt | rfl
  · exact text.upTo_lt (Represents.isRoot hrep) hlt
  · exact Or.inl (text.upTo_length (Represents.isRoot hrep))

/-- On a file that does not parse an operation that adds nothing changes nothing, and
returns no record if it returns at all. -/
lemma returned_garbled (root : Json) {o : Operation} (ho : ¬ Adds o) :
    ((returned o).run (.garbled root)).1 = .garbled root ∧
      ∀ infos ∈ ((returned o).run (.garbled root)).2, infos = [] := by
  have hparses : (DataFile.garbled root).parses = false := rfl
  have hlookup : ∀ sys value, (getContainerByIdOrName sys value).run (.garbled root) =
      (.garbled root, some none) := fun sys value => by
    simp [getContainerByIdOrName, run_bind, hparses]
  have hby : ∀ key value, (getContainerBy key value).run (.garbled root) =
      (.garbled root, some none) := fun key value => by
    simp [getContainerBy, run_bind, hparses]
  cases o with
  | insert info => exact absurd trivial ho
  | update info => exact absurd trivial ho
  | deleteById sys name =>
    simp [returned, Operation.program, deleteById, run_bind, hlookup, hparses]
  | changeStatusToStop sys now name =>
    simp [returned, Operation.program, changeStatusToStop, run_bind, hlookup]
  | getContainerByIdOrName sys value => simp [returned, hlookup]
  | getContainerById value => simp [returned, getContainerById, hby]
  | getContainerByName value => simp [returned, getContainerByName, hby]
  | list => simp [returned, ContainerDao.list, run_bind, hparses]

/-- The file after a sequence of operations. -/
def afterAll (os : List Operation) (file : DataFile) : DataFile :=
  os.foldl (fun file o => ((returned o).run file).1) file

lemma afterAll_garbled (root : Json) {os : List Operation} (hos : ∀ o ∈ os, ¬ Adds o) :
    afterAll os (.garbled root) = .garbled root := by
  induction os with
  | nil => rfl
  | cons o os ih =>
    have hfirst := (returned_garbled root (hos o List.mem_cons_self)).1
    change afterAll os ((returned o).run (.garbled root)).1 = _
    rw [hfirst]
    exact ih fun o ho => hos o (List.mem_cons_of_mem _ ho)

lemma insert_root (file : DataFile) (hroot : IsRoot file.root) (info : ContainerInfo) :
    ∃ j root', info.record.Holds j ∧ file.root.append j = some root' ∧ IsRoot root' ∧
      (insert info).run file = (.parsed root', some ()) := by
  obtain ⟨j, hw, hj, -⟩ := dePack_spec (j := .null) trivial info
  obtain ⟨root', happend, hroot'⟩ : ∃ root', file.root.append j = some root' ∧ IsRoot root' := by
    cases hr : file.root with
    | null => exact ⟨_, rfl, trivial⟩
    | arr l => exact ⟨_, rfl, trivial⟩
    | _ =>
      rw [hr] at hroot
      exact hroot.elim
  refine ⟨j, root', hj, happend, hroot', ?_⟩
  simp [ContainerDao.insert, run_bind, hw, happend]

/-- An update inserts first, and then writes over what it has inserted: with what the parser has
left, as it is where that has no elements, else with the record of its id replaced. -/
lemma update_garbled {root : Json} (hroot : IsRoot root) (info : ContainerInfo) :
    (update info).exec (.garbled root) =
      if root.size = 0 then .parsed root
      else
        match root.elems >>= updateLoop info with
        | some records => .parsed (.arr records)
        | none => (insert info).exec (.garbled root) := by
  obtain ⟨j, root', -, -, hroot', hrun⟩ := insert_root (.garbled root) hroot info
  obtain ⟨j₂, root₂, -, -, -, hrun₂⟩ := insert_root (.parsed root') hroot' info
  have hleft : (DataFile.garbled root).root = root := rfl
  have hmissing : (DataFile.garbled root).isMissing = false := rfl
  have hparses : (DataFile.garbled root).parses = false := rfl
  unfold update exec
  by_cases hsize : root.size = 0
  · simp [run_bind, hleft, hmissing, hparses, hsize, hrun, hrun₂]
  · simp only [run_bind, run_get, hleft, hmissing, hparses, hsize, hrun]
    rcases root.elems >>= updateLoop info with _ | records
    · simp [run_bind, hrun]
    · simp [run_bind, hrun]

/-- **A crash within an operation** on a file of records leaves the file as it was before, as
the operation's lookup leaves it, or as the operation leaves it, or else with a text that does
not parse. Then no operation but `insert` and `update` finds or changes anything, an insertion
appends to what the parser has left, and an update writes that back without its own record,
unless there was one with its id. -/
theorem crash_outcomes (text : StyledText) (h : Represents file rs) (hne : rs ≠ [])
    (o : Operation) (hcrash : o.program.Torn text.Cut file file') :
    file' = file ∨ file' = lookedUpFile o file ∨ file' = o.program.exec file ∨
    ∃ root, IsRoot root ∧ file' = .garbled root ∧
      ∀ os : List Operation, (∀ o ∈ os, ¬ Adds o) →
        (∀ o ∈ os, ∀ infos ∈ ((returned o).run file').2, infos = []) ∧
        afterAll os file' = file' ∧
        ∀ info,
          (∃ j root', info.record.Holds j ∧ root.append j = some root' ∧
            (insert info).exec (afterAll os file') = .parsed root') ∧
          (update info).exec (afterAll os file') =
            if root.size = 0 then .parsed root
            else
              match root.elems >>= updateLoop info with
              | some records => .parsed (.arr records)
              | none => (insert info).exec file' := by
  rcases torn_iff.mp hcrash with rfl | hmem | ⟨f, hmem, hcut⟩
  · exact Or.inl rfl
  · exact Or.inr ((writes_program h hne o file' hmem).imp_right Or.inl)
  · obtain ⟨rs', hrep⟩ := represents_of_writes h hne o f hmem
    rcases cut_cases hrep hcut with rfl | ⟨root, hroot, rfl⟩
    · exact Or.inr ((writes_program h hne o file' hmem).imp_right Or.inl)
    · refine Or.inr (Or.inr (Or.inr ⟨root, hroot, rfl, fun os hos => ?_⟩))
      have hsame := afterAll_garbled root hos
      refine ⟨fun o ho => (returned_garbled root (hos o ho)).2, hsame, fun info => ?_⟩
      rw [hsame]
      obtain ⟨j, root', hj, happend, -, hrun⟩ := insert_root (.garbled root) hroot info
      exact ⟨⟨j, root', hj, happend, congrArg Prod.fst hrun⟩, update_garbled hroot info⟩

lemma ids_holds {l : List Json} {rs' : List Record} (h : List.Forall₂ Record.Holds rs l)
    (h' : List.Forall₂ Record.Holds rs' l) : rs.map Record.id = rs'.map Record.id := by
  induction h generalizing rs' with
  | nil =>
    cases h'
    rfl
  | cons hr _ ih =>
    cases h' with
    | cons hr' hl' =>
      have hid := (holds_id hr).symm.trans (holds_id hr')
      simp only [Option.some.injEq, Prod.mk.injEq, Json.str.injEq, and_true] at hid
      rw [List.map_cons, List.map_cons, hid, ih hl']

lemma ids_represents {rs' : List Record} (h : Represents file rs) (h' : Represents file rs') :
    rs.map Record.id = rs'.map Record.id := by
  cases h with
  | missing | empty | null =>
    cases h'
    rfl
  | arr hl =>
    cases h' with
    | arr hl' => exact ids_holds hl hl'

/-! ### The text of the library -/

/-- A string in quotes; of what is escaped there are only the quote and the backslash. -/
def quoted (s : Str) : Str :=
  '"' :: s.flatMap (fun c => if c = '"' || c = '\\' then ['\\', c] else [c]) ++ ['"']

def newline (depth : ℕ) : Str := '\n' :: List.replicate depth '\t'

/-- Pieces, each on a line of its own, between brackets. -/
def bracketed (left right : Char) (depth : ℕ) (pieces : List Str) : Str :=
  left :: [','].intercalate (pieces.map fun piece => newline (depth + 1) ++ piece) ++
    newline depth ++ [right]

/-- The members of an object come in the order of their names. -/
def inOrder (members : List (Str × Str)) : List Str :=
  (members.insertionSort fun a b => a.1 ≤ b.1).map Prod.snd

mutual

/-- A value at a depth, without the end of its line. -/
def styled (depth : ℕ) : Json → Str
  | .null => "null".toList
  | .bool b => if b then "true".toList else "false".toList
  | .int n => (toString n).toList
  | .str s => quoted s
  | .arr l => if l.isEmpty then "[]".toList else bracketed '[' ']' depth (styledElems depth l)
  | .obj m =>
    if m.isEmpty then "{}".toList
    else bracketed '{' '}' depth (inOrder (styledMembers depth m))

def styledElems (depth : ℕ) : List Json → List Str
  | [] => []
  | v :: l => styled (depth + 1) v :: styledElems depth l

/-- An array or object that is not empty begins on a line of its own. -/
def styledMembers (depth : ℕ) : List (String × Json) → List (Str × Str)
  | [] => []
  | (key, v) :: m =>
    (key.toList, quoted key.toList ++ " : ".toList ++
        (if v.size = 0 then [] else newline (depth + 1)) ++ styled (depth + 1) v) ::
      styledMembers depth m

end

/-- How many of the elements of an array there are in the first `n` characters of its text; in
front of each stands a bracket or a comma, and a new line. -/
def whole : List Str → ℕ → ℕ
  | [], _ => 0
  | piece :: pieces, n =>
    if piece.length + 3 ≤ n then whole pieces (n - (piece.length + 3)) + 1 else 0

/-- What the parser leaves of a text that is cut off behind an element of an array; of an element
that is cut off itself it would leave some members more. -/
def leftover (n : ℕ) : Json → Json
  | .arr l => .arr (l.take (whole (styledElems 0 l) n))
  | _ => .null

/-- The text of `toStyledString`. -/
def toStyledString : StyledText where
  text v := styled 0 v ++ ['\n']
  upTo v n :=
    if n = 0 then .garbled .null
    else if (styled 0 v).length ≤ n then .parsed v
    else .garbled (leftover n v)
  upTo_zero _ := if_pos rfl
  upTo_length {v} _ := by simp
  upTo_lt {v n} _ hn := by
    split_ifs
    · exact Or.inr ⟨.null, trivial, rfl⟩
    · exact Or.inl rfl
    · refine Or.inr ⟨_, ?_, rfl⟩
      cases v <;> trivial

lemma upTo_first (a b : Json) (l : List Json) :
    toStyledString.upTo (.arr (a :: b :: l)) ((styled 1 a).length + 3) = .garbled (.arr [a]) := by
  have hlong : ¬ (styled 0 (.arr (a :: b :: l))).length ≤ (styled 1 a).length + 3 := by
    have htext : styled 0 (.arr (a :: b :: l)) =
        bracketed '[' ']' 0 (styled 1 a :: styled 1 b :: styledElems 0 l) := rfl
    rw [htext]
    simp [bracketed, newline, List.intercalate]
  have hwhole : whole (styledElems 0 (a :: b :: l)) ((styled 1 a).length + 3) = 1 := by
    change whole (styled 1 a :: styled 1 b :: styledElems 0 l) _ = 1
    simp [whole]
  unfold toStyledString
  dsimp only
  rw [if_neg (by omega), if_neg hlong, leftover, hwhole]
  rfl

/-! ### Forgotten records -/

def webJson : Json := .obj ranInfo.record.members
def dbJson : Json := .obj otherInfo.record.members

/-- A file with two running containers. -/
def twoContainers : DataFile := .parsed (.arr [webJson, dbJson])

lemma represents_twoContainers :
    Represents twoContainers [ranInfo.record, otherInfo.record] :=
  .arr (.cons ranInfo.record.holds_members (.cons otherInfo.record.holds_members .nil))

/-- A container that is recorded with a crash. -/
def thirdInfo : ContainerInfo := { ranInfo with id := "c3".toList, name := "log".toList }

lemma insert_torn : (Operation.insert thirdInfo).program.Torn toStyledString.Cut twoContainers
    (.garbled (.arr [webJson])) := by
  have hlen : (styled 1 webJson).length + 3 ≤
      (toStyledString.text (.arr [webJson, dbJson, .obj thirdInfo.record.members])).length := by
    have htext : toStyledString.text (.arr [webJson, dbJson, .obj thirdInfo.record.members]) =
        bracketed '[' ']' 0 (styledElems 0 [webJson, dbJson, .obj thirdInfo.record.members]) ++
          ['\n'] := rfl
    rw [htext]
    simp [bracketed, newline, styledElems, List.intercalate]
  refine .read (.cut ⟨.arr [webJson, dbJson, .obj thirdInfo.record.members], _, rfl, hlen, ?_⟩)
  exact (upTo_first _ _ _).symm

theorem crash_outcomes_cut :
    (Operation.insert thirdInfo).program.Torn toStyledString.Cut twoContainers
        (.garbled (.arr [webJson])) ∧
      ∀ os : List Operation, (∀ o ∈ os, ¬ Adds o) →
        (∀ o ∈ os, ∀ infos ∈ ((returned o).run (.garbled (.arr [webJson]))).2, infos = []) ∧
        afterAll os (.garbled (.arr [webJson])) = .garbled (.arr [webJson]) ∧
        ∀ info,
          (∃ j root', info.record.Holds j ∧ (Json.arr [webJson]).append j = some root' ∧
            (insert info).exec (afterAll os (.garbled (.arr [webJson]))) = .parsed root') ∧
          (update info).exec (afterAll os (.garbled (.arr [webJson]))) =
            match updateLoop info [webJson] with
            | some records => .parsed (.arr records)
            | none => (insert info).exec (.garbled (.arr [webJson])) := by
  refine ⟨insert_torn, ?_⟩
  rcases crash_outcomes toStyledString represents_twoContainers (by simp) _ insert_torn with
    hsame | hsame | hsame | ⟨root, -, hroot, hquiet⟩
  · cases hsame
  · cases hsame
  · have hrep := exec_insert represents_twoContainers thirdInfo
    rw [← hsame] at hrep
    cases hrep
  · cases hroot
    exact hquiet

/-- A process dies while it records a third container, and then a fourth one is recorded: the
second is forgotten. -/
theorem insert_forgets : ¬ ∀ (text : StyledText) (file file' : DataFile) (rs : List Record)
    (o : Operation) (info : ContainerInfo), Represents file rs → rs ≠ [] →
    o.program.Torn text.Cut file file' →
    ∃ rs', Represents ((insert info).exec file') rs' ∧
      ∀ r ∈ rs, ∃ r' ∈ rs', r'.id = r.id := by
  intro hall
  let fourth : ContainerInfo := { ranInfo with id := "c4".toList }
  obtain ⟨rs', hrep, hkept⟩ := hall toStyledString twoContainers _ _ _ fourth
    represents_twoContainers (by simp) insert_torn
  obtain ⟨j, root', hj, happend, -, hrun⟩ :=
    insert_root (.garbled (.arr [webJson])) trivial fourth
  cases happend
  have hexec : (insert fourth).exec (.garbled (.arr [webJson])) = .parsed (.arr [webJson, j]) :=
    congrArg Prod.fst hrun
  have hnew : Represents (.parsed (.arr [webJson, j])) [ranInfo.record, fourth.record] :=
    .arr (.cons ranInfo.record.holds_members (.cons hj .nil))
  rw [hexec] at hrep
  have hids := ids_represents hrep hnew
  obtain ⟨r', hmem, hid⟩ := hkept otherInfo.record (by simp)
  have hother : r'.id ∈ rs'.map Record.id := List.mem_map_of_mem hmem
  rw [hids, hid] at hother
  exact absurd hother (by decide)

end Hoststack.CrashSafety
