import Hoststack.Json
import Hoststack.Lib.Path
import Mathlib.Data.List.TakeWhile

/-!
Joining and splitting of strings, and what becomes of the command of a container on the way
from `run` through the data file to the next start: it is joined with single spaces and
taken apart again at every blank.
-/

namespace Hoststack.UsgCommon

/-- The delimiters of `BLANK`. -/
def blank : Str := ['\t', '\n', '\x0b', '\x0c', '\r', ' ']

/-- A value converted to an `int`. -/
def toInt (n : ℤ) : ℤ := n.bmod (2 ^ 32)

/-- `array_join` on a vector given without its closing null. -/
def arrayJoin (arr : List Str) (seperator : Str) : Option Str :=
  let size := arr.foldl (fun size s => size + s.length) 0
  match arr with
  | [] => none
  | first :: rest =>
    if size = 0 then none
    else some (rest.foldl (fun buf s => buf ++ seperator ++ s) first)

/-- The character is one of the delimiters. -/
def isDelim (delim : Str) (c : Char) : Bool := decide (c ∈ delim)

/-- One call of `strtok`: the next token, and the text behind the delimiter that ends it. -/
def strtok (delim text : Str) : Option (Str × Str) :=
  match text.dropWhile (isDelim delim) with
  | [] => none
  | c :: cs =>
    some (c :: cs.takeWhile (!isDelim delim ·), (cs.dropWhile (!isDelim delim ·)).tail)

/-- The growing array of `str_split`: how many slots are allocated, what has been written from
the first slot on, and for each write its index and the slots there were. -/
structure SplitArr where
  len : ℕ
  slots : List (Option Str)
  writes : List (ℕ × ℕ)

namespace SplitArr

def store (a : SplitArr) (s : Option Str) : SplitArr :=
  { a with slots := a.slots ++ [s], writes := a.writes ++ [(a.slots.length, a.len)] }

/-- The vector up to its first null. -/
def vector : List (Option Str) → List Str
  | some s :: l => s :: vector l
  | _ => []

end SplitArr

/-- The loop of `str_split`; every turn consumes a character of the text at least. -/
def splitLoop (delim : Str) : ℕ → Str → SplitArr → SplitArr
  | 0, _, arr => arr
  | fuel + 1, text, arr =>
    match strtok delim text with
    | none => arr
    | some (token, rest) =>
      let arr := if arr.slots.length ≥ arr.len then { arr with len := arr.len * 2 } else arr
      splitLoop delim fuel rest (arr.store (some token))

/-- The number of tokens and the array, when the allocations succeed. -/
def strSplit (str delim : Str) : ℕ × SplitArr :=
  let arr := splitLoop delim (str.length + 1) str ⟨64, [], []⟩
  let i := arr.slots.length
  let arr := if i ≥ arr.len then { arr with len := arr.len + 1 } else arr
  (i, arr.store none)

/-- The buffer of `path_join`: the string in it, the length kept of it, the size allocated, and
for each copy into it the length of the string afterwards and the size at that time. -/
structure JoinBuf where
  buf : Str
  len : ℕ
  size : ℕ
  writes : List (ℕ × ℕ)

namespace JoinBuf

def grow (b : JoinBuf) : JoinBuf := if b.len ≥ b.size then { b with size := b.len * 2 } else b

def strcat (b : JoinBuf) (s : Str) : JoinBuf :=
  { b with buf := b.buf ++ s, writes := b.writes ++ [((b.buf ++ s).length, b.size)] }

/-- The separator at the end of the string is cut off. -/
def trimEnd (b : JoinBuf) : JoinBuf :=
  if b.buf.drop (b.len - 1) = ['/'] then
    { b with buf := b.buf.take (b.len - 1), len := b.len - 1 }
  else b

/-- One turn of the loop. -/
def join (b : JoinBuf) (str : Str) : JoinBuf :=
  let b := b.trimEnd
  let str := str.dropWhile (· == '/')
  let b := ({ b with len := b.len + 1 } : JoinBuf).grow.strcat ['/']
  ({ b with len := b.len + str.length } : JoinBuf).grow.strcat str

end JoinBuf

/-- The buffer of `path_join` after its loop. -/
def joinLoop (path : Str) (strs : List Str) : JoinBuf :=
  let size := if path.length ≥ 1024 then path.length * 2 else 1024
  strs.foldl JoinBuf.join ⟨path, path.length, size, [(path.length, size)]⟩

def pathJoin (path : Str) (strs : List Str) : Str :=
  let b := joinLoop path strs
  b.buf.take b.len

/-! ### What they compute -/

variable {delim : Str}

@[simp] lemma store_slots (a : SplitArr) (s : Option Str) :
    (a.store s).slots = a.slots ++ [s] := rfl

lemma foldl_eq_intercalate (sep first : Str) (rest : List Str) :
    rest.foldl (fun buf s => buf ++ sep ++ s) first = sep.intercalate (first :: rest) := by
  induction rest generalizing first with
  | nil => simp [List.intercalate]
  | cons s rest ih =>
    rw [List.foldl_cons, ih]
    rcases rest with _ | ⟨t, rest⟩ <;> simp [List.intercalate, List.intersperse]

lemma foldl_length (arr : List Str) (n : ℕ) :
    arr.foldl (fun size s => size + s.length) n = n + (arr.map List.length).sum := by
  induction arr generalizing n with
  | nil => rfl
  | cons s arr ih => rw [List.foldl_cons, ih]; simp [Nat.add_assoc]

lemma sum_length_eq_zero_iff (arr : List Str) :
    (arr.map List.length).sum = 0 ↔ ∀ s ∈ arr, s = [] := by
  induction arr with
  | nil => simp
  | cons s arr ih => simp [ih]

lemma arrayJoin_eq (arr : List Str) (sep : Str) :
    arrayJoin arr sep =
      if ∀ s ∈ arr, s = [] then none else some (sep.intercalate arr) := by
  unfold arrayJoin
  simp only [foldl_length, Nat.zero_add]
  rcases arr with _ | ⟨first, rest⟩
  · simp
  · simp only [foldl_eq_intercalate, sum_length_eq_zero_iff]

lemma strtok_spec (delim text : Str) :
    (strtok delim text = none ∧ tokens (isDelim delim) text = []) ∨
      ∃ token rest, strtok delim text = some (token, rest) ∧
        tokens (isDelim delim) text = token :: tokens (isDelim delim) rest ∧
        rest.length < text.length := by
  unfold strtok
  rw [← tokens_dropWhile text]
  have hlen := (List.dropWhile_sublist (isDelim delim) (l := text)).length_le
  rcases hd : text.dropWhile (isDelim delim) with _ | ⟨c, cs⟩
  · exact Or.inl ⟨rfl, tokens_nil⟩
  · have hc : isDelim delim c = false := by
      have := List.head?_dropWhile_not (isDelim delim) text
      rw [hd] at this; simpa using this
    refine Or.inr ⟨_, _, rfl, tokens_cons_run hc, ?_⟩
    have h1 := (List.dropWhile_sublist (!isDelim delim ·) (l := cs)).length_le
    have h2 := (List.tail_sublist (cs.dropWhile (!isDelim delim ·))).length_le
    rw [hd, List.length_cons] at hlen
    omega

lemma splitLoop_slots (delim : Str) (fuel : ℕ) (text : Str) (arr : SplitArr)
    (h : text.length < fuel) :
    (splitLoop delim fuel text arr).slots =
      arr.slots ++ (tokens (isDelim delim) text).map some := by
  induction fuel generalizing text arr with
  | zero => omega
  | succ fuel ih =>
    unfold splitLoop
    rcases strtok_spec delim text with ⟨hs, ht⟩ | ⟨token, rest, hs, ht, hlt⟩
    · rw [hs, ht]; simp
    · rw [hs, ht]
      dsimp only
      rw [ih _ _ (by omega)]
      split_ifs <;> simp

lemma vector_map_some (l : List Str) : SplitArr.vector (l.map some ++ [none]) = l := by
  induction l with
  | nil => rfl
  | cons s l ih => simp [SplitArr.vector, ih]

/-- **str_split** gives the tokens of the string. -/
theorem strSplit_vector (str : Str) :
    SplitArr.vector (strSplit str delim).2.slots = tokens (isDelim delim) str := by
  have h := splitLoop_slots delim (str.length + 1) str ⟨64, [], []⟩ (by omega)
  unfold strSplit
  dsimp only
  split_ifs <;> simp [h, vector_map_some]

/-- The length kept is the length of the string. -/
def JoinBuf.Exact (b : JoinBuf) : Prop := b.len = b.buf.length

lemma trimEnd_exact {b : JoinBuf} (h : b.Exact) : b.trimEnd.Exact := by
  unfold JoinBuf.Exact at h
  unfold JoinBuf.trimEnd
  split_ifs
  · simp [JoinBuf.Exact, h]
  · exact h

lemma components_trimEnd {b : JoinBuf} :
    Path.components b.trimEnd.buf = Path.components b.buf := by
  unfold JoinBuf.trimEnd
  split_ifs with h
  · conv_rhs => rw [← List.take_append_drop (b.len - 1) b.buf, h, Path.components_append]
    simp [Path.components]
  · rfl

@[simp] lemma grow_buf (b : JoinBuf) : b.grow.buf = b.buf := by
  unfold JoinBuf.grow; split_ifs <;> rfl

@[simp] lemma grow_len (b : JoinBuf) : b.grow.len = b.len := by
  unfold JoinBuf.grow; split_ifs <;> rfl

@[simp] lemma strcat_buf (b : JoinBuf) (s : Str) : (b.strcat s).buf = b.buf ++ s := rfl
@[simp] lemma strcat_len (b : JoinBuf) (s : Str) : (b.strcat s).len = b.len := rfl

lemma join_exact {b : JoinBuf} (h : b.Exact) (str : Str) : (b.join str).Exact := by
  have ht : b.trimEnd.len = b.trimEnd.buf.length := trimEnd_exact h
  simp only [JoinBuf.Exact, JoinBuf.join, strcat_len, strcat_buf, grow_len, grow_buf,
    List.length_append, List.length_singleton, ht]

lemma components_join (b : JoinBuf) (str : Str) :
    Path.components (b.join str).buf = Path.components b.buf ++ Path.components str := by
  simp only [JoinBuf.join, strcat_buf, grow_buf]
  rw [List.append_assoc, List.singleton_append, Path.components_append, components_trimEnd,
    Path.components_dropWhile]

lemma foldl_join (strs : List Str) (b : JoinBuf) (h : b.Exact) :
    (strs.foldl JoinBuf.join b).Exact ∧
      Path.components (strs.foldl JoinBuf.join b).buf =
        Path.components b.buf ++ strs.flatMap Path.components := by
  induction strs generalizing b with
  | nil => simpa using h
  | cons s strs ih =>
    obtain ⟨hexact, hcomp⟩ := ih (b.join s) (join_exact h s)
    refine ⟨hexact, hcomp.trans ?_⟩
    rw [components_join, List.flatMap_cons, List.append_assoc]

/-- **path_join** appends components. -/
theorem components_pathJoin (path : Str) (strs : List Str) :
    Path.components (pathJoin path strs) =
      Path.components path ++ strs.flatMap Path.components := by
  obtain ⟨hexact, hcomp⟩ : (joinLoop path strs).Exact ∧
      Path.components (joinLoop path strs).buf =
        Path.components path ++ strs.flatMap Path.components := foldl_join strs _ rfl
  unfold JoinBuf.Exact at hexact
  unfold pathJoin
  dsimp only
  rw [hexact, List.take_length, hcomp]

/-! ### The command of a container -/

/-- The string `run` records as the command. -/
def commandOf (argv : List Str) : Option Str := arrayJoin argv [' ']

/-- The vector a later start passes to `execvp`. -/
def startVector (command : Str) : List Str := SplitArr.vector (strSplit command blank).2.slots

/-- **A restart runs the same command** exactly when no argument is empty or holds a blank. -/
theorem restart_same_iff (argv : List Str) (hne : argv ≠ []) :
    (∃ command, commandOf argv = some command ∧ startVector command = argv) ↔
      ∀ a ∈ argv, a ≠ [] ∧ ∀ c ∈ a, c ∉ blank := by
  have hsp : isDelim blank ' ' = true := by decide
  have hiff := tokens_intercalate_eq_iff hsp argv
  have hdelim : ∀ c, isDelim blank c = false ↔ c ∉ blank := by simp [isDelim]
  simp only [hdelim] at hiff
  rw [← hiff]
  unfold commandOf startVector
  rw [arrayJoin_eq]
  constructor
  · rintro ⟨command, hc, hv⟩
    split_ifs at hc with hall
    cases hc
    rwa [strSplit_vector] at hv
  · intro h
    have hfull : ¬ ∀ s ∈ argv, s = [] := by
      obtain ⟨a, rest, rfl⟩ := List.exists_cons_of_ne_nil hne
      exact fun hall => (hiff.mp h a (by simp)).1 (hall a (by simp))
    exact ⟨_, if_neg hfull, by rw [strSplit_vector]; exact h⟩

theorem restart_same_ls :
    ∃ command, commandOf ["ls".toList, "-l".toList] = some command ∧
      startVector command = ["ls".toList, "-l".toList] :=
  (restart_same_iff ["ls".toList, "-l".toList] (by decide)).mpr (by simp [blank])

/-- An argument with a blank comes back as two. -/
theorem restart_splits_argument :
    ¬ ∃ command, commandOf ["sh".toList, "-c".toList, "echo hi".toList] = some command ∧
      startVector command = ["sh".toList, "-c".toList, "echo hi".toList] := by
  rintro ⟨command, hc, hv⟩
  have hcommand : commandOf ["sh".toList, "-c".toList, "echo hi".toList] =
      some "sh -c echo hi".toList := by decide
  rw [hcommand] at hc
  cases hc
  revert hv
  decide

end Hoststack.UsgCommon
