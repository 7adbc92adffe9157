import Hoststack.UsgCommon
import Mathlib.Data.List.Chain

/-!
Where `array_join`, `path_join` and `str_split` write, and how much they have allocated. What
`array_join` computes is taken modulo `2 ^ 64`, since its strings may be one string many times;
the other sizes are natural numbers, of what lies in memory.
-/

namespace Hoststack.StringBuffers

open UsgCommon

/-! ### `array_join` -/

/-- The array of `array_join`: what is allocated, the string in it, and for each copy the first
position it writes and the one behind the last. -/
structure JoinArr where
  alloc : ℕ
  buf : Str
  writes : List (ℕ × ℕ)

namespace JoinArr

/-- `strcpy` or `strcat`, which close the string. -/
def copy (a : JoinArr) (s : Str) : JoinArr :=
  { a with
    buf := a.buf ++ s
    writes := a.writes ++ [(a.buf.length, a.buf.length + s.length + 1)] }

/-- The position is written by some copy. -/
def Written (a : JoinArr) (i : ℕ) : Prop := ∃ w ∈ a.writes, w.1 ≤ i ∧ i < w.2

end JoinArr

/-- A value of the type `size_t`. -/
def sizeT (n : ℕ) : ℕ := n % 2 ^ 64

/-- `array_join` with its array, where `malloc` gives it what it asks for. -/
def arrayJoinArr (arr : List Str) (seperator : Str) : Option JoinArr :=
  let size := arr.foldl (fun size s => sizeT (size + s.length)) 0
  match arr with
  | [] => none
  | first :: rest =>
    if size = 0 then none
    else
      let buf : JoinArr := ⟨sizeT (size + seperator.length * (arr.length - 1) + 1), [], []⟩
      some (rest.foldl (fun buf s => (buf.copy seperator).copy s) (buf.copy first))

/-- The strings come in order with one separator between neighbours, and the bytes written are
those allocated. -/
def JoinsExactly (arr : List Str) (seperator : Str) : Prop :=
  ∃ a, arrayJoinArr arr seperator = some a ∧ a.buf = seperator.intercalate arr ∧
    ∀ i, a.Written i ↔ i < a.alloc

/-- The bytes that the strings, the separators between them and the terminator take. -/
def joinSize (arr : List Str) (seperator : Str) : ℕ :=
  (arr.map List.length).sum + seperator.length * (arr.length - 1) + 1

variable {a : JoinArr}

/-- The bytes of the string and its end have been written, and no others. -/
structure JoinArr.Tight (a : JoinArr) : Prop where
  written : ∀ i, a.Written i ↔ i < a.buf.length + 1

lemma written_copy (a : JoinArr) (s : Str) (i : ℕ) :
    (a.copy s).Written i ↔
      a.Written i ∨ (a.buf.length ≤ i ∧ i < a.buf.length + s.length + 1) := by
  unfold JoinArr.Written JoinArr.copy
  simp only [List.mem_append, List.mem_singleton]
  constructor
  · rintro ⟨w, hw | rfl, hi⟩
    · exact Or.inl ⟨w, hw, hi⟩
    · exact Or.inr hi
  · rintro (⟨w, hw, hi⟩ | hi)
    · exact ⟨w, Or.inl hw, hi⟩
    · exact ⟨_, Or.inr rfl, hi⟩

lemma tight_first (alloc : ℕ) (s : Str) : (JoinArr.copy ⟨alloc, [], []⟩ s).Tight := by
  refine ⟨fun i => ?_⟩
  have hnone : ¬ JoinArr.Written ⟨alloc, [], []⟩ i := by rintro ⟨w, hw, -⟩; cases hw
  rw [written_copy, or_iff_right hnone]
  change 0 ≤ i ∧ i < 0 + s.length + 1 ↔ i < s.length + 1
  omega

lemma JoinArr.Tight.copy (h : a.Tight) (s : Str) : (a.copy s).Tight := by
  refine ⟨fun i => ?_⟩
  have hlen : (a.copy s).buf.length = a.buf.length + s.length := List.length_append
  rw [written_copy, h.written, hlen]
  omega

lemma foldl_copy (seperator : Str) (rest : List Str) (h : a.Tight) :
    let out := rest.foldl (fun buf s => (buf.copy seperator).copy s) a
    out.Tight ∧ out.alloc = a.alloc ∧
      out.buf = rest.foldl (fun buf s => buf ++ seperator ++ s) a.buf ∧
      out.buf.length =
        a.buf.length + (rest.map List.length).sum + seperator.length * rest.length := by
  induction rest generalizing a with
  | nil => exact ⟨h, rfl, rfl, by simp⟩
  | cons s rest ih =>
    obtain ⟨htight, halloc, hbuf, hlen⟩ := ih ((h.copy seperator).copy s)
    refine ⟨htight, halloc, hbuf, hlen.trans ?_⟩
    have hcopied : ((a.copy seperator).copy s).buf.length =
        a.buf.length + seperator.length + s.length := by
      simp [JoinArr.copy, Nat.add_assoc]
    rw [hcopied, List.map_cons, List.sum_cons, List.length_cons, Nat.mul_succ]
    omega

lemma sizeT_eq {n : ℕ} (h : n < 2 ^ 64) : sizeT n = n := Nat.mod_eq_of_lt h

lemma foldl_sizeT (arr : List Str) (n : ℕ) :
    sizeT (arr.foldl (fun size s => sizeT (size + s.length)) n) =
      sizeT (n + (arr.map List.length).sum) := by
  induction arr generalizing n with
  | nil => rfl
  | cons s arr ih =>
    rw [List.foldl_cons, ih, List.map_cons, List.sum_cons, ← Nat.add_assoc]
    simp [sizeT]

lemma foldl_sizeT_lt (arr : List Str) {n : ℕ} (h : n < 2 ^ 64) :
    arr.foldl (fun size s => sizeT (size + s.length)) n < 2 ^ 64 := by
  induction arr generalizing n with
  | nil => exact h
  | cons s arr ih => exact ih (Nat.mod_lt _ (by decide))

lemma foldl_sizeT_eq (arr : List Str) :
    arr.foldl (fun size s => sizeT (size + s.length)) 0 =
      sizeT (arr.map List.length).sum := by
  have hfold := foldl_sizeT arr 0
  rwa [Nat.zero_add, sizeT_eq (foldl_sizeT_lt arr (by decide))] at hfold

lemma arrayJoinArr_cons (first : Str) (rest : List Str) (seperator : Str)
    (hne : sizeT ((first :: rest).map List.length).sum ≠ 0) :
    ∃ a, arrayJoinArr (first :: rest) seperator = some a ∧
      a.buf = seperator.intercalate (first :: rest) ∧
      a.alloc = sizeT (joinSize (first :: rest) seperator) ∧
      ∀ i, a.Written i ↔ i < joinSize (first :: rest) seperator := by
  obtain ⟨htight, halloc, hbuf, hlen⟩ := foldl_copy seperator rest
    (tight_first (sizeT (sizeT ((first :: rest).map List.length).sum +
      seperator.length * ((first :: rest).length - 1) + 1)) first)
  refine ⟨_, ?_, hbuf.trans (foldl_eq_intercalate _ _ _), halloc.trans ?_, fun i => ?_⟩
  · unfold arrayJoinArr
    dsimp only
    rw [foldl_sizeT_eq, if_neg hne]
  · change sizeT (sizeT _ + _ + 1) = sizeT (_ + _ + 1)
    simp [sizeT, Nat.add_assoc]
  · rw [htight.written, hlen]
    change i < first.length + (rest.map List.length).sum + seperator.length * rest.length + 1 ↔
      i < ((first :: rest).map List.length).sum + seperator.length * rest.length + 1
    rw [List.map_cons, List.sum_cons]

/-- **array_join** puts exactly one separator between neighbours and writes exactly the bytes
it has allocated, as long as their number is a `size_t`. -/
theorem joinsExactly_iff (arr : List Str) (seperator : Str)
    (hpos : 0 < (arr.map List.length).sum) :
    JoinsExactly arr seperator ↔ joinSize arr seperator < 2 ^ 64 := by
  obtain ⟨first, rest, rfl⟩ : ∃ first rest, arr = first :: rest :=
    List.exists_cons_of_ne_nil (by rintro rfl; simp at hpos)
  constructor
  · rintro ⟨a, ha, -, hwritten⟩
    by_contra hlarge
    by_cases hzero : sizeT ((first :: rest).map List.length).sum = 0
    · -- the strings alone have come to zero
      unfold arrayJoinArr at ha
      dsimp only at ha
      rw [foldl_sizeT_eq, if_pos hzero] at ha
      cases ha
    · obtain ⟨a', ha', -, halloc, hall⟩ := arrayJoinArr_cons first rest seperator hzero
      cases ha.symm.trans ha'
      have hlt : a.alloc < 2 ^ 64 := halloc ▸ Nat.mod_lt _ (by decide)
      exact absurd ((hwritten a.alloc).mp ((hall a.alloc).mpr (by omega))) (lt_irrefl _)
  · intro hsize
    have hsum : sizeT ((first :: rest).map List.length).sum =
        ((first :: rest).map List.length).sum := sizeT_eq (by unfold joinSize at hsize; omega)
    obtain ⟨a, ha, hbuf, halloc, hall⟩ := arrayJoinArr_cons first rest seperator (by omega)
    exact ⟨a, ha, hbuf, fun i => by rw [hall, halloc, sizeT_eq hsize]⟩

theorem joinsExactly_abc : JoinsExactly ["ab".toList, [], "c".toList] ", ".toList :=
  (joinsExactly_iff ["ab".toList, [], "c".toList] ", ".toList (by decide)).mpr (by decide)

/-- One short string many times, with a long separator: what is allocated is a few bytes of
what is written. -/
theorem joins_beyond : ¬ ∀ (arr : List Str) (seperator : Str), 0 < (arr.map List.length).sum →
    JoinsExactly arr seperator := by
  intro hall
  let arr : List Str := List.replicate (2 ^ 31 + 1) ['a']
  let seperator : Str := List.replicate (2 ^ 33) ','
  have hsum : (arr.map List.length).sum = 2 ^ 31 + 1 := by
    rw [List.map_replicate, List.sum_replicate_nat]
    rfl
  have hsize : joinSize arr seperator = 2 ^ 31 + 1 + 2 ^ 33 * 2 ^ 31 + 1 := by
    unfold joinSize
    rw [hsum, List.length_replicate, List.length_replicate, Nat.add_sub_cancel]
  have hfits := (joinsExactly_iff arr seperator (by omega)).mp (hall arr seperator (by omega))
  omega

lemma arrayJoin_of_joinsExactly {arr : List Str} {seperator : Str}
    (h : joinSize arr seperator < 2 ^ 64) :
    arrayJoin arr seperator = (arrayJoinArr arr seperator).map JoinArr.buf := by
  rcases arr with _ | ⟨first, rest⟩
  · rfl
  · have hsum : sizeT ((first :: rest).map List.length).sum =
        ((first :: rest).map List.length).sum := sizeT_eq (by unfold joinSize at h; omega)
    unfold arrayJoin arrayJoinArr
    dsimp only
    rw [foldl_sizeT_eq, hsum, foldl_length, Nat.zero_add]
    split_ifs
    · rfl
    · rw [Option.map_some, (foldl_copy seperator rest (tight_first _ first)).2.2.1]
      rfl

/-! ### `path_join` -/

/-- The buffer of `path_join` before its loop. -/
def joinStart (path : Str) : JoinBuf :=
  let size := if path.length ≥ 1024 then path.length * 2 else 1024
  ⟨path, path.length, size, [(path.length, size)]⟩

/-- The buffer after the separator is copied in a turn of the loop. -/
def joinSlash (b : JoinBuf) : JoinBuf :=
  let b := b.trimEnd
  ({ b with len := b.len + 1 } : JoinBuf).grow.strcat ['/']

/-- The buffer after each copy of the loop. -/
def joinCopies : JoinBuf → List Str → List JoinBuf
  | _, [] => []
  | b, str :: strs => joinSlash b :: b.join str :: joinCopies (b.join str) strs

/-- No two adjacent slashes. -/
def SingleSlashes (s : Str) : Prop := s.IsChain fun a b => ¬ (a = '/' ∧ b = '/')

/-- The length kept is that of the string, positive and smaller than what is allocated. -/
structure InBounds (b : JoinBuf) : Prop where
  len : b.len = b.buf.length
  pos : 0 < b.len
  size : b.len < b.size

variable {b : JoinBuf} {path str : Str}

lemma inBounds_start (hne : path ≠ []) : InBounds (joinStart path) := by
  have hpos : 0 < path.length := List.length_pos_of_ne_nil hne
  refine ⟨rfl, hpos, ?_⟩
  change path.length < if path.length ≥ 1024 then path.length * 2 else 1024
  split_ifs
  · omega
  · omega

lemma lt_size_grow (b : JoinBuf) (hpos : 0 < b.len) : b.len < b.grow.size := by
  unfold JoinBuf.grow
  split_ifs with h
  · change b.len < b.len * 2
    omega
  · omega

@[simp] lemma strcat_size (b : JoinBuf) (s : Str) : (b.strcat s).size = b.size := rfl

lemma inBounds_copy (h : b.len = b.buf.length) {s : Str} (hpos : 0 < b.len + s.length) :
    InBounds (({ b with len := b.len + s.length } : JoinBuf).grow.strcat s) := by
  refine ⟨?_, ?_, ?_⟩
  · rw [strcat_len, strcat_buf, grow_len, grow_buf, List.length_append, ← h]
  · rw [strcat_len, grow_len]
    exact hpos
  · rw [strcat_len, strcat_size, grow_len]
    exact lt_size_grow _ hpos

lemma inBounds_slash (h : InBounds b) : InBounds (joinSlash b) :=
  inBounds_copy (s := ['/']) (trimEnd_exact h.len) (Nat.succ_pos _)

lemma join_eq (b : JoinBuf) (str : Str) :
    b.join str = ({ joinSlash b with
      len := (joinSlash b).len + (str.dropWhile (· == '/')).length } : JoinBuf).grow.strcat
        (str.dropWhile (· == '/')) := by
  unfold JoinBuf.join joinSlash
  rfl

@[simp] lemma trimEnd_writes (b : JoinBuf) : b.trimEnd.writes = b.writes := by
  unfold JoinBuf.trimEnd
  split_ifs <;> rfl

@[simp] lemma grow_writes (b : JoinBuf) : b.grow.writes = b.writes := by
  unfold JoinBuf.grow
  split_ifs <;> rfl

/-- A copy as it is recorded: the length of the string then, and the size. -/
def recorded (b : JoinBuf) : ℕ × ℕ := (b.buf.length, b.size)

lemma strcat_writes (b : JoinBuf) (s : Str) :
    (b.strcat s).writes = b.writes ++ [recorded (b.strcat s)] := rfl

lemma join_writes (b : JoinBuf) (str : Str) :
    (b.join str).writes = b.writes ++ [recorded (joinSlash b), recorded (b.join str)] := by
  have hslash : (joinSlash b).writes = b.writes ++ [recorded (joinSlash b)] := by
    unfold joinSlash
    dsimp only
    rw [strcat_writes, grow_writes, trimEnd_writes]
  rw [join_eq, strcat_writes, grow_writes]
  change (joinSlash b).writes ++ _ = _
  rw [hslash, List.append_assoc]
  rfl

lemma joinLoop_writes (path : Str) (strs : List Str) :
    (joinLoop path strs).writes =
      (joinStart path :: joinCopies (joinStart path) strs).map recorded := by
  have hloop : ∀ b : JoinBuf, (strs.foldl JoinBuf.join b).writes =
      b.writes ++ (joinCopies b strs).map recorded := by
    induction strs with
    | nil => simp [joinCopies]
    | cons str strs ih =>
      intro b
      rw [List.foldl_cons, ih, join_writes, joinCopies, List.append_assoc]
      rfl
  exact hloop (joinStart path)

lemma inBounds_join (h : InBounds b) (str : Str) : InBounds (b.join str) := by
  rw [join_eq]
  have hslash : InBounds (joinSlash b) := inBounds_slash h
  exact inBounds_copy hslash.len (Nat.add_pos_left hslash.pos _)

lemma inBounds_copies (h : InBounds b) (strs : List Str) :
    ∀ c ∈ joinCopies b strs, InBounds c := by
  induction strs generalizing b with
  | nil => simp [joinCopies]
  | cons str strs ih =>
    have hjoin : InBounds (b.join str) := inBounds_join h str
    exact List.forall_mem_cons.mpr
      ⟨inBounds_slash h, List.forall_mem_cons.mpr ⟨hjoin, ih hjoin⟩⟩

lemma join_buf (b : JoinBuf) (str : Str) :
    (b.join str).buf = b.trimEnd.buf ++ '/' :: str.dropWhile (· == '/') := by
  simp [JoinBuf.join]

lemma trimEnd_cases (h : InBounds b) :
    b.buf = b.trimEnd.buf ++ ['/'] ∨
      (b.trimEnd.buf = b.buf ∧ b.buf.getLast? ≠ some '/') := by
  unfold JoinBuf.trimEnd
  split_ifs with hend
  · left
    dsimp only
    rw [← hend, List.take_append_drop]
  · right
    refine ⟨rfl, fun hlast => hend ?_⟩
    obtain ⟨front, hfront⟩ := List.getLast?_eq_some_iff.mp hlast
    rw [h.len, hfront]
    simp

lemma head_join (h : InBounds b) (str : Str) : (b.join str).buf.head? = b.buf.head? := by
  have hne : b.buf ≠ [] := by
    have hpos := h.pos
    rw [h.len] at hpos
    exact List.ne_nil_of_length_pos hpos
  rw [join_buf]
  rcases trimEnd_cases h with hcut | ⟨hsame, -⟩
  · conv_rhs => rw [hcut]
    cases b.trimEnd.buf <;> rfl
  · rw [hsame]
    obtain ⟨c, cs, hc⟩ := List.exists_cons_of_ne_nil hne
    rw [hc]
    rfl

lemma singleSlashes_join (h : InBounds b) (hb : SingleSlashes b.buf) (hs : SingleSlashes str) :
    SingleSlashes (b.join str).buf := by
  have hrest : SingleSlashes (str.dropWhile (· == '/')) :=
    hs.suffix (List.dropWhile_suffix _)
  -- behind the slash that is put there is none
  have hslash : SingleSlashes ('/' :: str.dropWhile (· == '/')) := by
    refine List.isChain_cons.mpr ⟨fun c hc heq => ?_, hrest⟩
    have hnot := List.head?_dropWhile_not (· == '/') str
    rw [hc] at hnot
    simp [heq.2] at hnot
  -- before it there is none either
  have hfront : SingleSlashes b.trimEnd.buf ∧ b.trimEnd.buf.getLast? ≠ some '/' := by
    rcases trimEnd_cases h with hcut | ⟨hsame, hlast⟩
    · rw [hcut] at hb
      obtain ⟨hfront, -, hjoint⟩ := List.isChain_append.mp hb
      exact ⟨hfront, fun hlast => hjoint '/' hlast '/' rfl ⟨rfl, rfl⟩⟩
    · rw [hsame]
      exact ⟨hb, hlast⟩
  rw [join_buf]
  refine List.isChain_append.mpr ⟨hfront.1, hslash, ?_⟩
  rintro x hx y - ⟨rfl, -⟩
  exact hfront.2 hx

lemma foldl_join_facts (h : InBounds b) (strs : List Str) :
    InBounds (strs.foldl JoinBuf.join b) ∧
      (strs.foldl JoinBuf.join b).buf.head? = b.buf.head? ∧
      (SingleSlashes b.buf → (∀ s ∈ strs, SingleSlashes s) →
        SingleSlashes (strs.foldl JoinBuf.join b).buf) := by
  induction strs generalizing b with
  | nil => exact ⟨h, rfl, fun hb _ => hb⟩
  | cons str strs ih =>
    obtain ⟨hbounds, hhead, hsingle⟩ := ih (inBounds_join h str)
    refine ⟨hbounds, hhead.trans (head_join h str), fun hb hs => ?_⟩
    obtain ⟨hstr, hstrs⟩ := List.forall_mem_cons.mp hs
    exact hsingle (singleSlashes_join h hb hstr) hstrs

/-- **path_join** appends components, keeps whether the path is absolute, doubles no slash, and
at each copy keeps the length of the string, smaller than what is allocated. -/
theorem pathJoin_spec (path : Str) (strs : List Str) (hne : path ≠ []) :
    Path.components (pathJoin path strs) =
        Path.components path ++ strs.flatMap Path.components ∧
      ((pathJoin path strs).head? = some '/' ↔ path.head? = some '/') ∧
      ((∀ s ∈ path :: strs, SingleSlashes s) → SingleSlashes (pathJoin path strs)) ∧
      ∀ b ∈ joinStart path :: joinCopies (joinStart path) strs,
        b.len = b.buf.length ∧ b.len < b.size := by
  have hstart : InBounds (joinStart path) := inBounds_start hne
  obtain ⟨hbounds, hhead, hsingle⟩ := foldl_join_facts hstart strs
  have hresult : pathJoin path strs = (strs.foldl JoinBuf.join (joinStart path)).buf := by
    change (strs.foldl JoinBuf.join (joinStart path)).buf.take
      (strs.foldl JoinBuf.join (joinStart path)).len = _
    rw [hbounds.len, List.take_length]
  refine ⟨components_pathJoin path strs, ?_, fun hs => ?_, ?_⟩
  · rw [hresult, hhead]
    rfl
  · obtain ⟨hpath, hstrs⟩ := List.forall_mem_cons.mp hs
    rw [hresult]
    exact hsingle hpath hstrs
  · have hall : ∀ b ∈ joinStart path :: joinCopies (joinStart path) strs, InBounds b :=
      List.forall_mem_cons.mpr ⟨hstart, inBounds_copies hstart strs⟩
    exact fun b hb => ⟨(hall b hb).len, (hall b hb).size⟩

theorem pathJoin_spec_slashes :
    Path.components (pathJoin "/a/".toList ["//b".toList, [], "c/".toList]) =
        Path.components "/a/".toList ++
          ["//b".toList, [], "c/".toList].flatMap Path.components ∧
      ((pathJoin "/a/".toList ["//b".toList, [], "c/".toList]).head? = some '/' ↔
        "/a/".toList.head? = some '/') ∧
      ((∀ s ∈ ["/a/".toList, "//b".toList, [], "c/".toList], SingleSlashes s) →
        SingleSlashes (pathJoin "/a/".toList ["//b".toList, [], "c/".toList])) ∧
      ∀ b ∈ joinStart "/a/".toList ::
          joinCopies (joinStart "/a/".toList) ["//b".toList, [], "c/".toList],
        b.len = b.buf.length ∧ b.len < b.size :=
  pathJoin_spec "/a/".toList ["//b".toList, [], "c/".toList] (by decide)

/-! ### `str_split` -/

/-- The string that `strtok` cuts up, where the next call goes on. -/
structure Scanner where
  buf : Str
  pos : ℕ

namespace Scanner

/-- What the next call has before it. -/
def rest (s : Scanner) : Str := s.buf.drop s.pos

/-- One call of `strtok`, which ends the token in the string. -/
def strtok (delim : Str) (s : Scanner) : Option Str × Scanner :=
  let start := s.pos + (s.rest.takeWhile (isDelim delim)).length
  let token := (s.buf.drop start).takeWhile (!isDelim delim ·)
  if start ≥ s.buf.length then (none, { s with pos := s.buf.length })
  else if start + token.length < s.buf.length then
    (some token, ⟨s.buf.set (start + token.length) '\x00', start + token.length + 1⟩)
  else (some token, { s with pos := s.buf.length })

end Scanner

/-- The memory of `str_split`: its argument, the copy that is cut up and the array. -/
structure SplitMem where
  input : Str
  copy : Scanner
  arr : SplitArr

/-- The loop of `str_split`. -/
def splitMemLoop (delim : Str) : ℕ → SplitMem → SplitMem
  | 0, m => m
  | fuel + 1, m =>
    match m.copy.strtok delim with
    | (none, copy) => { m with copy }
    | (some token, copy) =>
      let arr :=
        if m.arr.slots.length ≥ m.arr.len then { m.arr with len := m.arr.len * 2 } else m.arr
      splitMemLoop delim fuel { m with copy, arr := arr.store (some token) }

/-- `str_split` with its memory, and the `int` it returns. -/
def strSplitMem (str delim : Str) : ℤ × SplitMem :=
  let m := splitMemLoop delim (str.length + 1) ⟨str, ⟨str, 0⟩, ⟨64, [], []⟩⟩
  let i := m.arr.slots.length
  let arr := if i ≥ m.arr.len then { m.arr with len := m.arr.len + 1 } else m.arr
  (toInt i, { m with arr := arr.store none })

variable {delim : Str}

lemma drop_takeWhile_length (p : Char → Bool) (l : Str) :
    l.drop (l.takeWhile p).length = l.dropWhile p := by
  induction l with
  | nil => rfl
  | cons c l ih =>
    by_cases hc : p c
    · rw [List.takeWhile_cons_of_pos hc, List.dropWhile_cons_of_pos hc]
      exact ih
    · rw [List.takeWhile_cons_of_neg hc, List.dropWhile_cons_of_neg hc]
      rfl

lemma strtok_eq (delim text : Str) :
    strtok delim text =
      if text.dropWhile (isDelim delim) = [] then none
      else some ((text.dropWhile (isDelim delim)).takeWhile (!isDelim delim ·),
        ((text.dropWhile (isDelim delim)).dropWhile (!isDelim delim ·)).tail) := by
  unfold strtok
  rcases hd : text.dropWhile (isDelim delim) with _ | ⟨c, cs⟩
  · rfl
  · have hc : (!isDelim delim c) = true := by
      have hnot := List.head?_dropWhile_not (isDelim delim) text
      rw [hd] at hnot
      simpa using hnot
    rw [if_neg (List.cons_ne_nil c cs),
      List.takeWhile_cons_of_pos (p := fun c => !isDelim delim c) hc,
      List.dropWhile_cons_of_pos (p := fun c => !isDelim delim c) hc]

/-- A call that cuts the copy finds what a call on the rest of the text finds, and has before
it what that call leaves. -/
lemma scanner_strtok (delim : Str) (s : Scanner) :
    (strtok delim s.rest = none ∧ (s.strtok delim).1 = none) ∨
      ∃ token rest, strtok delim s.rest = some (token, rest) ∧
        (s.strtok delim).1 = some token ∧ (s.strtok delim).2.rest = rest := by
  have hstart : s.buf.drop (s.pos + (s.rest.takeWhile (isDelim delim)).length) =
      s.rest.dropWhile (isDelim delim) := by
    rw [← List.drop_drop]
    exact drop_takeWhile_length _ s.rest
  rw [strtok_eq]
  unfold Scanner.strtok
  dsimp only
  rw [hstart]
  generalize s.pos + (s.rest.takeWhile (isDelim delim)).length = start at hstart ⊢
  generalize s.rest.dropWhile (isDelim delim) = text at hstart ⊢
  by_cases hend : start ≥ s.buf.length
  · have hnil : text = [] := by
      rw [← hstart]
      exact List.drop_eq_nil_of_le hend
    exact Or.inl ⟨if_pos hnil, by rw [if_pos hend]⟩
  · have hne : text ≠ [] := by
      rw [← hstart]
      exact fun hnil => hend (List.drop_eq_nil_iff.mp hnil)
    refine Or.inr ⟨_, _, if_neg hne, ?_, ?_⟩
    · rw [if_neg hend]
      split_ifs
      · rfl
      · rfl
    · -- what is behind the token in the copy
      have hbehind : s.buf.drop (start + (text.takeWhile (!isDelim delim ·)).length) =
          text.dropWhile (!isDelim delim ·) := by
        rw [← List.drop_drop, hstart]
        exact drop_takeWhile_length _ text
      rw [if_neg hend, ← hbehind, List.tail_drop]
      split_ifs with hcut
      · exact List.drop_set_of_lt (Nat.lt_succ_self _)
      · change s.buf.drop s.buf.length = _
        rw [List.drop_length, List.drop_eq_nil_of_le (by omega)]

lemma splitMemLoop_eq (delim : Str) (fuel : ℕ) (m : SplitMem) :
    (splitMemLoop delim fuel m).input = m.input ∧
      (splitMemLoop delim fuel m).arr = splitLoop delim fuel m.copy.rest m.arr := by
  induction fuel generalizing m with
  | zero => exact ⟨rfl, rfl⟩
  | succ fuel ih =>
    unfold splitMemLoop splitLoop
    rcases scanner_strtok delim m.copy with ⟨hnone, hcall⟩ | ⟨token, rest, hsome, hcall, hrest⟩
    · rcases hs : m.copy.strtok delim with ⟨found, copy⟩
      rw [hs] at hcall
      cases hcall
      rw [hnone]
      exact ⟨rfl, rfl⟩
    · rcases hs : m.copy.strtok delim with ⟨found, copy⟩
      rw [hs] at hcall hrest
      cases hcall
      rw [hsome, ← hrest]
      exact ih _

/-- There is room for all that is stored, and what has been stored had room. -/
structure HasRoom (a : SplitArr) : Prop where
  pos : 0 < a.len
  slots : a.slots.length ≤ a.len
  indices : a.writes.map Prod.fst = List.range a.slots.length
  writes : ∀ w ∈ a.writes, w.1 < w.2

lemma HasRoom.store {a : SplitArr} (h : HasRoom a) {len : ℕ} (hlen : a.slots.length < len)
    (s : Option Str) : HasRoom (({ a with len } : SplitArr).store s) := by
  have hslots : (({ a with len } : SplitArr).store s).slots.length = a.slots.length + 1 := by
    simp
  refine ⟨show 0 < len by omega, ?_, ?_, ?_⟩
  · rw [hslots]
    change a.slots.length + 1 ≤ len
    omega
  · rw [hslots, List.range_succ, ← h.indices]
    exact List.map_append
  · exact List.forall_mem_append.mpr ⟨h.writes, List.forall_mem_singleton.mpr hlen⟩

lemma hasRoom_splitLoop (delim : Str) (fuel : ℕ) (text : Str) {a : SplitArr} (h : HasRoom a) :
    HasRoom (splitLoop delim fuel text a) := by
  induction fuel generalizing text a with
  | zero => exact h
  | succ fuel ih =>
    have hpos := h.pos
    have hslots := h.slots
    unfold splitLoop
    rcases strtok delim text with _ | ⟨token, rest⟩
    · exact h
    · dsimp only
      split_ifs with hfull
      · exact ih rest (h.store (show a.slots.length < a.len * 2 by omega) (some token))
      · exact ih rest (h.store (show a.slots.length < a.len by omega) (some token))

lemma strSplitMem_eq (str delim : Str) :
    (strSplitMem str delim).1 = toInt (strSplit str delim).1 ∧
      (strSplitMem str delim).2.input = str ∧
      (strSplitMem str delim).2.arr = (strSplit str delim).2 := by
  obtain ⟨hinput, harr⟩ := splitMemLoop_eq delim (str.length + 1) ⟨str, ⟨str, 0⟩, ⟨64, [], []⟩⟩
  rw [show Scanner.rest ⟨str, 0⟩ = str from rfl] at harr
  unfold strSplitMem strSplit
  dsimp only
  rw [harr]
  exact ⟨rfl, hinput, rfl⟩

/-- The tokens are stored in order with a null behind them, each at an index smaller than the
number of slots at that time. -/
lemma strSplit_facts (str delim : Str) :
    (strSplit str delim).1 = (tokens (isDelim delim) str).length ∧
      (strSplit str delim).2.slots = (tokens (isDelim delim) str).map some ++ [none] ∧
      (strSplit str delim).2.writes.map Prod.fst =
        List.range ((tokens (isDelim delim) str).length + 1) ∧
      ∀ w ∈ (strSplit str delim).2.writes, w.1 < w.2 := by
  have hslots := splitLoop_slots delim (str.length + 1) str ⟨64, [], []⟩ (by omega)
  have hroom : HasRoom (splitLoop delim (str.length + 1) str ⟨64, [], []⟩) :=
    hasRoom_splitLoop delim _ str ⟨by decide, by decide, rfl, by simp⟩
  unfold strSplit
  dsimp only
  generalize splitLoop delim (str.length + 1) str ⟨64, [], []⟩ = arr at hslots hroom ⊢
  rw [List.nil_append] at hslots
  have hcount : arr.slots.length = (tokens (isDelim delim) str).length := by
    rw [hslots, List.length_map]
  -- the null goes behind the tokens, after another test for room
  obtain ⟨len, hlen, hgrown⟩ : ∃ len, arr.slots.length < len ∧
      (if arr.slots.length ≥ arr.len then { arr with len := arr.len + 1 } else arr) =
        { arr with len } := by
    have hle := hroom.slots
    split_ifs with hfull
    · exact ⟨arr.len + 1, by omega, rfl⟩
    · exact ⟨arr.len, by omega, rfl⟩
  have hstored : HasRoom (({ arr with len } : SplitArr).store none) := hroom.store hlen none
  rw [hgrown]
  refine ⟨hcount, ?_, ?_, hstored.writes⟩
  · rw [store_slots, ← hslots]
  · rw [hstored.indices, store_slots, List.length_append]
    change List.range (arr.slots.length + 1) = _
    rw [hcount]

/-- What `str_split` is for: it returns the number of tokens and stores them in order with a null
behind them, within the array at each store, and its argument is as it was. -/
structure SplitsCompletely (str delim : Str) : Prop where
  returned : (strSplitMem str delim).1 = (tokens (isDelim delim) str).length
  slots : (strSplitMem str delim).2.arr.slots = (tokens (isDelim delim) str).map some ++ [none]
  nonempty : ∀ t ∈ tokens (isDelim delim) str, t ≠ []
  input : (strSplitMem str delim).2.input = str
  indices : (strSplitMem str delim).2.arr.writes.map Prod.fst =
    List.range ((tokens (isDelim delim) str).length + 1)
  inBounds : ∀ w ∈ (strSplitMem str delim).2.arr.writes, w.1 < w.2

lemma toInt_eq_self_iff (n : ℕ) : toInt n = n ↔ n < 2 ^ 31 := by
  unfold toInt
  rw [Int.bmod_def]
  split_ifs <;> omega

/-- **str_split** splits completely exactly when the number of tokens is an `int`. -/
theorem splitsCompletely_iff (str delim : Str) :
    SplitsCompletely str delim ↔ (tokens (isDelim delim) str).length < 2 ^ 31 := by
  obtain ⟨hreturned, hinput, harr⟩ := strSplitMem_eq str delim
  obtain ⟨hcount, hslots, hindices, hwrites⟩ := strSplit_facts str delim
  rw [hcount] at hreturned
  rw [← harr] at hslots hindices hwrites
  rw [← toInt_eq_self_iff, ← hreturned]
  constructor
  · exact fun h => h.returned
  · exact fun h => ⟨h, hslots, fun t ht => (of_mem_tokens ht).1, hinput, hindices, hwrites⟩

example :
    SplitArr.vector (strSplitMem "- This, a sample string.".toList " ,.-".toList).2.arr.slots =
      ["This".toList, "a".toList, "sample".toList, "string".toList] := by
  decide

/-- A text of words of one letter, with a blank behind each. -/
def letters (k : ℕ) : Str := (List.replicate k "a ".toList).flatten

lemma tokens_letters (k : ℕ) : tokens (isDelim [' ']) (letters k) = List.replicate k ['a'] := by
  induction k with
  | zero => exact tokens_nil
  | succ k ih =>
    have hletter : ∀ c ∈ ['a'], isDelim [' '] c = false := List.forall_mem_singleton.mpr rfl
    have hcut : letters (k + 1) = ['a'] ++ ' ' :: letters k := by
      unfold letters
      rw [List.replicate_succ, List.flatten_cons]
      rfl
    rw [hcut, tokens_run_sep hletter (by decide) _ (by decide), ih, List.replicate_succ]

/-- More words than an `int` counts. -/
theorem letters_miscounted : ¬ SplitsCompletely (letters (2 ^ 31)) [' '] := by
  intro h
  have hreturned := h.returned
  rw [(strSplitMem_eq (letters (2 ^ 31)) [' ']).1, (strSplit_facts (letters (2 ^ 31)) [' ']).1,
    toInt_eq_self_iff, tokens_letters, List.length_replicate] at hreturned
  exact Nat.lt_irrefl _ hreturned

end Hoststack.StringBuffers
