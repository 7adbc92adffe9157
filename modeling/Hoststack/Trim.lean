import Hoststack.UsgCommon
import Mathlib.Data.List.DropRight

/-!
Trimming a string in place.

A string is what is in memory from its first byte to the first null; the positions that are
read or written are recorded. `rtrim` keeps its index in an `int`, which is the last position
of a string of at most `2 ^ 31` characters only.
-/

namespace Hoststack.Trim

open UsgCommon

/-- The memory from the first byte of a string on, and the positions touched so far. -/
structure Mem where
  bytes : List Char
  touched : List ℕ

/-- The string in memory. -/
def cstr (bytes : List Char) : Str := bytes.takeWhile (· ≠ '\x00')

namespace Mem

def touch (m : Mem) (positions : List ℕ) : Mem := { m with touched := m.touched ++ positions }

def write (m : Mem) (i : ℕ) (c : Char) : Mem := { m.touch [i] with bytes := m.bytes.set i c }

/-- `memmove` to the first byte. -/
def memmove (m : Mem) (src n : ℕ) : Mem :=
  { m.touch (List.range' src n ++ List.range n) with
    bytes := (m.bytes.drop src).take n ++ m.bytes.drop n }

/-- `strlen`, which reads up to the null. -/
def strlen (m : Mem) : ℕ × Mem :=
  let len := (cstr m.bytes).length
  (len, m.touch (List.range (len + 1)))

/-- `strspn`, which reads up to the first character that is not one of those given. -/
def strspn (m : Mem) (seps : Str) : ℕ × Mem :=
  let spn := ((cstr m.bytes).takeWhile (isDelim seps)).length
  (spn, m.touch (List.range (spn + 1)))

end Mem

/-- `strchr` finds the character, which it does for the null too. -/
def strchr (seps : Str) (c : Char) : Bool := c = '\x00' || isDelim seps c

def ltrim (seps : Option Str) (m : Mem) : Mem :=
  let seps := seps.getD blank
  let (totrim, m) := m.strspn seps
  if totrim > 0 then
    let (len, m) := m.strlen
    if totrim = len then m.write 0 '\x00' else m.memmove totrim (len + 1 - totrim)
  else m

/-- The loop of `rtrim`, whose index is one less than the argument. -/
def rtrimLoop (seps : Str) : ℕ → Mem → Mem
  | 0, m => m
  | i + 1, m =>
    let m := m.touch [i]
    if strchr seps (m.bytes.getD i '\x00') then rtrimLoop seps i (m.write i '\x00') else m

def rtrim (seps : Option Str) (m : Mem) : Mem :=
  let seps := seps.getD blank
  let (len, m) := m.strlen
  let i := toInt (len - 1)
  rtrimLoop seps (i + 1).toNat m

def trim (seps : Option Str) (m : Mem) : Mem := ltrim seps (rtrim seps m)

/-! ### Dropping from both ends -/

variable {p : Char → Bool}

lemma rdropWhile_append {a b : Str} (h : b.rdropWhile p ≠ []) :
    (a ++ b).rdropWhile p = a ++ b.rdropWhile p := by
  unfold List.rdropWhile at h ⊢
  rw [List.reverse_append, List.dropWhile_append, if_neg, List.reverse_append, List.reverse_reverse]
  simpa using h

lemma rdropWhile_append_of_pos {a b : Str} (h : ∀ c ∈ b, p c) :
    (a ++ b).rdropWhile p = a.rdropWhile p := by
  have hrev : ∀ c ∈ b.reverse, p c := fun c hc => h c (List.mem_reverse.mp hc)
  unfold List.rdropWhile
  rw [List.reverse_append, List.dropWhile_append_of_pos hrev]

lemma rdropWhile_append_cons {c : Char} (hc : ¬ p c) (a r : Str) :
    (a ++ c :: r).rdropWhile p = a ++ c :: r.rdropWhile p := by
  by_cases hr : r.rdropWhile p = []
  · rw [List.append_cons, rdropWhile_append_of_pos (List.rdropWhile_eq_nil_iff.mp hr),
      List.rdropWhile_concat_neg _ _ _ hc, hr]
  · rw [List.append_cons, rdropWhile_append hr, ← List.append_cons]

lemma cut_append {c : Char} {a : Str} (h : c ∉ a) (r : Str) :
    (a ++ c :: r).takeWhile (fun x => decide (x ≠ c)) = a ∧
      (a ++ c :: r).dropWhile (fun x => decide (x ≠ c)) = c :: r := by
  have hall : ∀ x ∈ a, decide (x ≠ c) = true := fun x hx =>
    decide_eq_true fun heq => h (heq ▸ hx)
  constructor
  · rw [List.takeWhile_append_of_pos hall, List.takeWhile_cons_of_neg (by simp), List.append_nil]
  · rw [List.dropWhile_append_of_pos hall, List.dropWhile_cons_of_neg (by simp)]

/-- The ends do not depend on each other. -/
lemma rdropWhile_dropWhile (s : Str) :
    (s.dropWhile p).rdropWhile p = (s.rdropWhile p).dropWhile p := by
  conv_rhs => rw [← List.takeWhile_append_dropWhile (p := p) (l := s)]
  rcases hd : s.dropWhile p with _ | ⟨c, d⟩
  · -- nothing but what is dropped
    have hall : ∀ x ∈ s.takeWhile p, p x := List.all_eq_true.mp List.all_takeWhile
    rw [List.append_nil, List.rdropWhile_eq_nil_iff.mpr hall]
    rfl
  · have hc : ¬ p c = true := by
      have hnot := List.head?_dropWhile_not p s
      rw [hd] at hnot
      simpa using hnot
    have hne : (c :: d).rdropWhile p ≠ [] := fun hnil =>
      hc (List.rdropWhile_eq_nil_iff.mp hnil c (by simp))
    -- the first character that stays is the same before and behind
    obtain ⟨d', hd'⟩ : ∃ d', (c :: d).rdropWhile p = c :: d' := by
      obtain ⟨r, hr⟩ := List.rdropWhile_prefix p (l := c :: d)
      obtain ⟨x, d', hx⟩ := List.exists_cons_of_ne_nil hne
      rw [hx] at hr
      cases hr
      exact ⟨d', hx⟩
    have hall : ∀ x ∈ s.takeWhile p, p x := List.all_eq_true.mp List.all_takeWhile
    rw [rdropWhile_append hne, List.dropWhile_append_of_pos hall, hd',
      List.dropWhile_cons_of_neg hc]

lemma countP_dropWhile (s : Str) : (s.dropWhile p).countP (!p ·) = s.countP (!p ·) := by
  induction s with
  | nil => rfl
  | cons c s ih =>
    by_cases hc : p c
    · rw [List.dropWhile_cons_of_pos hc, ih, List.countP_cons_of_neg (by simpa using hc)]
    · rw [List.dropWhile_cons_of_neg hc]

lemma countP_rdropWhile (s : Str) : (s.rdropWhile p).countP (!p ·) = s.countP (!p ·) := by
  unfold List.rdropWhile
  rw [List.countP_reverse, countP_dropWhile, List.countP_reverse]

lemma rdropWhile_eq_self (s : Str) : s.rdropWhile p = s ↔ ¬ ∃ c ∈ s.getLast?, p c := by
  rw [List.rdropWhile_eq_self_iff]
  rcases s.eq_nil_or_concat with rfl | ⟨s, c, rfl⟩
  · simp
  · simp

lemma dropWhile_front {s t : Str} (hs : s.dropWhile p = s) (ht : t <+: s) :
    t.dropWhile p = t := by
  rcases t with _ | ⟨c, t⟩
  · rfl
  · obtain ⟨r, rfl⟩ := ht
    have hc : ¬ p c = true := fun hc => by
      rw [List.cons_append, List.dropWhile_cons_of_pos hc] at hs
      have hle := (List.dropWhile_sublist p (l := t ++ r)).length_le
      rw [hs, List.length_cons] at hle
      omega
    rw [List.dropWhile_cons_of_neg hc]

/-! ### The memory -/

/-- The memory holds the string, and nothing has been touched from position `n + 1` on. -/
structure Holds (n : ℕ) (m : Mem) (s : Str) : Prop where
  nul : '\x00' ∉ s
  bytes : ∃ r, m.bytes = s ++ '\x00' :: r
  fits : s.length ≤ n
  touched : ∀ i ∈ m.touched, i ≤ n

variable {n : ℕ} {m : Mem} {s : Str}

lemma cstr_append (h : '\x00' ∉ s) (r : List Char) : cstr (s ++ '\x00' :: r) = s :=
  (cut_append h r).1

lemma Holds.cstr_eq (h : Holds n m s) : cstr m.bytes = s := by
  obtain ⟨r, hr⟩ := h.bytes
  rw [hr]
  exact cstr_append h.nul r

lemma Holds.touch (h : Holds n m s) {positions : List ℕ} (hp : ∀ i ∈ positions, i ≤ n) :
    Holds n (m.touch positions) s := by
  refine ⟨h.nul, h.bytes, h.fits, fun i hi => ?_⟩
  rcases List.mem_append.mp hi with hi | hi
  · exact h.touched i hi
  · exact hp i hi

lemma Holds.touch_range (h : Holds n m s) {k : ℕ} (hk : k ≤ s.length) :
    Holds n (m.touch (List.range (k + 1))) s := by
  refine h.touch fun i hi => ?_
  have hlt : i < k + 1 := List.mem_range.mp hi
  have hfits := h.fits
  omega

lemma Holds.strlen_eq (h : Holds n m s) :
    m.strlen = (s.length, m.touch (List.range (s.length + 1))) := by
  unfold Mem.strlen
  rw [h.cstr_eq]

lemma Holds.strspn_eq (h : Holds n m s) (seps : Str) :
    m.strspn seps = ((s.takeWhile (isDelim seps)).length,
      m.touch (List.range ((s.takeWhile (isDelim seps)).length + 1))) := by
  unfold Mem.strspn
  rw [h.cstr_eq]

lemma Holds.touch_at {c : Char} {r : Str} (h : Holds n m (s ++ c :: r)) :
    Holds n (m.touch [s.length]) (s ++ c :: r) := by
  have hfits := h.fits
  rw [List.length_append, List.length_cons] at hfits
  refine h.touch fun i hi => ?_
  rw [List.mem_singleton.mp hi]
  omega

lemma Holds.strchr_eq {c : Char} {r : Str} (h : Holds n m (s ++ c :: r)) (seps : Str) :
    strchr seps (m.bytes.getD s.length '\x00') = isDelim seps c := by
  obtain ⟨rest, hrest⟩ := h.bytes
  have hread : m.bytes.getD s.length '\x00' = c := by
    rw [hrest, List.append_assoc]
    simp
  have hc : c ≠ '\x00' := fun heq => h.nul (heq ▸ by simp)
  rw [hread]
  unfold strchr
  rw [decide_eq_false hc, Bool.false_or]

lemma Holds.write {c : Char} {r : Str} (h : Holds n m (s ++ c :: r)) :
    Holds n (m.write s.length '\x00') s := by
  obtain ⟨rest, hrest⟩ := h.bytes
  have hfits := h.fits
  rw [List.length_append] at hfits
  refine ⟨fun hmem => h.nul (List.mem_append_left _ hmem), ⟨r ++ '\x00' :: rest, ?_⟩, by omega,
    h.touch_at.touched⟩
  change m.bytes.set s.length '\x00' = _
  rw [hrest, List.append_assoc, List.set_append_right _ _ (Nat.le_refl _), Nat.sub_self]
  rfl

lemma Holds.memmove {a b : Str} (h : Holds n m (a ++ b)) :
    Holds n (m.memmove a.length (b.length + 1)) b := by
  obtain ⟨r, hr⟩ := h.bytes
  have hfits := h.fits
  rw [List.length_append] at hfits
  have htouch : Holds n (m.touch (List.range' a.length (b.length + 1) ++
      List.range (b.length + 1))) (a ++ b) := by
    refine h.touch fun i hi => ?_
    rcases List.mem_append.mp hi with hi | hi
    · have hbound := List.mem_range'_1.mp hi
      omega
    · have hlt : i < b.length + 1 := List.mem_range.mp hi
      omega
  refine ⟨fun hmem => h.nul (List.mem_append_right _ hmem), ⟨m.bytes.drop (b.length + 1), ?_⟩,
    by omega, htouch.touched⟩
  change (m.bytes.drop a.length).take (b.length + 1) ++ m.bytes.drop (b.length + 1) = _
  have hdrop : m.bytes.drop a.length = (b ++ ['\x00']) ++ r := by
    rw [hr, List.append_assoc, List.drop_left', List.append_assoc]
    · rfl
    · rfl
  have htake : (m.bytes.drop a.length).take (b.length + 1) = b ++ ['\x00'] := by
    rw [hdrop]
    exact List.take_left' (by simp)
  rw [htake, List.append_assoc]
  rfl

/-! ### Both halves -/

lemma ltrim_holds (seps : Option Str) (h : Holds n m s) :
    Holds n (ltrim seps m) (s.dropWhile (isDelim (seps.getD blank))) := by
  unfold ltrim
  dsimp only
  rw [h.strspn_eq]
  dsimp only
  generalize isDelim (seps.getD blank) = p
  have hsplit : s.takeWhile p ++ s.dropWhile p = s := List.takeWhile_append_dropWhile
  have hlen : s.length = (s.takeWhile p).length + (s.dropWhile p).length := by
    rw [← List.length_append, hsplit]
  have hspn : Holds n (m.touch (List.range ((s.takeWhile p).length + 1))) s :=
    h.touch_range (by omega)
  rw [hspn.strlen_eq]
  dsimp only
  have hlong : Holds n ((m.touch (List.range ((s.takeWhile p).length + 1))).touch
      (List.range (s.length + 1))) s := hspn.touch_range (Nat.le_refl _)
  split_ifs with hpos hall
  · -- nothing but separators
    have hnil : s.dropWhile p = [] := List.eq_nil_of_length_eq_zero (by omega)
    obtain ⟨c, t, hs⟩ : ∃ c t, s = c :: t :=
      List.exists_cons_of_length_pos (by omega)
    rw [hnil]
    rw [hs] at hlong ⊢
    exact hlong.write (s := [])
  · have hn : s.length + 1 - (s.takeWhile p).length = (s.dropWhile p).length + 1 := by omega
    have hcut : Holds n ((m.touch (List.range ((s.takeWhile p).length + 1))).touch
        (List.range (s.length + 1))) (s.takeWhile p ++ s.dropWhile p) := by
      rw [hsplit]
      exact hlong
    rw [hn]
    exact hcut.memmove
  · have hnil : s.takeWhile p = [] := List.eq_nil_of_length_eq_zero (by omega)
    have hsame : s.dropWhile p = s := by
      rw [hnil] at hsplit
      exact hsplit
    rw [hsame]
    exact hspn

/-- What the loop of `rtrim` leaves of a string, when it starts behind `k` characters. -/
def cutEnd (p : Char → Bool) (k : ℕ) (s : Str) : Str :=
  if (s.take k).rdropWhile p = s.take k then s else (s.take k).rdropWhile p

lemma cutEnd_length (a : Str) : cutEnd p a.length a = a.rdropWhile p := by
  unfold cutEnd
  rw [List.take_length]
  split_ifs with hsame
  · exact hsame.symm
  · rfl

lemma cutEnd_pos {c : Char} (hc : p c) (a b : Str) :
    cutEnd p (a ++ [c]).length (a ++ [c] ++ b) = a.rdropWhile p := by
  have hne : ¬ a.rdropWhile p = a ++ [c] := fun heq => by
    have hle := (List.rdropWhile_prefix p a).length_le
    rw [heq, List.length_append, List.length_singleton] at hle
    omega
  unfold cutEnd
  rw [List.take_left' rfl, List.rdropWhile_concat_pos _ _ _ hc, if_neg hne]

lemma cutEnd_neg {c : Char} (hc : ¬ p c) (a b : Str) :
    cutEnd p (a ++ [c]).length (a ++ [c] ++ b) = a ++ [c] ++ b := by
  unfold cutEnd
  rw [List.take_left' rfl, List.rdropWhile_concat_neg _ _ _ hc, if_pos rfl]

lemma rtrimLoop_holds (seps a b : Str) (h : Holds n m (a ++ b)) :
    Holds n (rtrimLoop seps a.length m) (cutEnd (isDelim seps) a.length (a ++ b)) := by
  induction a using List.reverseRecOn generalizing m b with
  | nil => exact h
  | append_singleton a c ih =>
    have hat : Holds n m (a ++ c :: b) := by
      rw [List.append_cons]
      exact h
    have htouch := hat.touch_at
    have hloop : rtrimLoop seps (a ++ [c]).length m =
        if isDelim seps c then rtrimLoop seps a.length ((m.touch [a.length]).write a.length '\x00')
        else m.touch [a.length] := by
      rw [List.length_append, List.length_singleton, rtrimLoop, htouch.strchr_eq]
    by_cases hp : isDelim seps c
    · -- the loop goes on with what is before it
      have hcut : Holds n ((m.touch [a.length]).write a.length '\x00') (a ++ []) := by
        rw [List.append_nil]
        exact htouch.write
      have hrest := ih [] hcut
      rw [List.append_nil, cutEnd_length] at hrest
      rwa [hloop, if_pos hp, cutEnd_pos hp]
    · rw [List.append_cons] at htouch
      rwa [hloop, if_neg hp, cutEnd_neg hp]

/-- The number of characters before the point where the loop starts. -/
def startLen (len : ℕ) : ℕ := (toInt ((len : ℤ) - 1) + 1).toNat

lemma startLen_le (len : ℕ) : startLen len ≤ len := by
  unfold startLen toInt
  rw [Int.bmod_def]
  split_ifs <;> omega

/-- Up to `2 ^ 31` characters the loop starts at the last one. -/
lemma startLen_eq {len : ℕ} (h : len ≤ 2 ^ 31) : startLen len = len := by
  unfold startLen toInt
  rw [Int.bmod_def]
  split_ifs <;> omega

lemma rtrim_holds (seps : Option Str) (h : Holds n m s) :
    Holds n (rtrim seps m) (cutEnd (isDelim (seps.getD blank)) (startLen s.length) s) := by
  have hlen : Holds n (m.touch (List.range (s.length + 1))) s := h.touch_range (Nat.le_refl _)
  have hk : (s.take (startLen s.length)).length = startLen s.length :=
    List.length_take_of_le (startLen_le s.length)
  rw [← List.take_append_drop (startLen s.length) s] at hlen
  have hloop := rtrimLoop_holds (seps.getD blank) _ _ hlen
  rw [List.take_append_drop, hk] at hloop
  unfold rtrim
  rw [h.strlen_eq]
  exact hloop

lemma trim_holds (seps : Option Str) (h : Holds n m s) :
    Holds n (trim seps m) ((cutEnd (isDelim (seps.getD blank)) (startLen s.length) s).dropWhile
      (isDelim (seps.getD blank))) :=
  ltrim_holds seps (rtrim_holds seps h)

/-! ### Where the loop starts -/

/-- Where the loop of `rtrim` starts at a separator there are only separators behind it, and
elsewhere the string has none at its end or nothing else. -/
structure Suits (p : Char → Bool) (s : Str) : Prop where
  atSeparator : (∃ c ∈ (s.take (startLen s.length)).getLast?, p c) →
    ∀ c ∈ s.drop (startLen s.length), p c
  elsewhere : (¬ ∃ c ∈ (s.take (startLen s.length)).getLast?, p c) →
    (¬ ∃ c ∈ s.getLast?, p c) ∨ ∀ c ∈ s, p c

lemma suits_of_length_le (p : Char → Bool) (h : s.length ≤ 2 ^ 31) : Suits p s := by
  have hk : startLen s.length = s.length := startLen_eq h
  refine ⟨fun _ c hc => ?_, fun hlast => Or.inl ?_⟩
  · rw [hk, List.drop_length] at hc
    cases hc
  · rwa [hk, List.take_length] at hlast

lemma isPrefix_cutEnd (p : Char → Bool) (k : ℕ) (s : Str) : cutEnd p k s <+: s := by
  unfold cutEnd
  split_ifs
  · exact List.prefix_rfl
  · exact (List.rdropWhile_prefix p _).trans (List.take_prefix k s)

lemma dropWhile_cutEnd_iff (p : Char → Bool) (s : Str) :
    (cutEnd p (startLen s.length) s).dropWhile p = (s.dropWhile p).rdropWhile p ↔ Suits p s := by
  generalize hk : startLen s.length = k
  have hs : s = s.take k ++ s.drop k := (List.take_append_drop k s).symm
  rw [rdropWhile_dropWhile]
  unfold cutEnd
  by_cases hsep : ∃ c ∈ (s.take k).getLast?, p c
  · have hne : ¬ (s.take k).rdropWhile p = s.take k := fun heq =>
      (rdropWhile_eq_self _).mp heq hsep
    rw [if_neg hne]
    constructor
    · intro heq
      -- the characters that are no separators are counted
      have hcount : (s.take k).countP (!p ·) = s.countP (!p ·) := by
        have h := congrArg (List.countP (!p ·)) heq
        rwa [countP_dropWhile, countP_rdropWhile, countP_dropWhile, countP_rdropWhile] at h
      have hzero : (s.drop k).countP (!p ·) = 0 := by
        rw [hs, List.countP_append, ← hs] at hcount
        omega
      have hall : ∀ c ∈ s.drop k, p c := by simpa using hzero
      exact ⟨fun _ => hk ▸ hall, fun hnot => absurd hsep (hk ▸ hnot)⟩
    · intro hsuits
      have hall : ∀ c ∈ s.drop k, p c := hk ▸ hsuits.atSeparator (hk ▸ hsep)
      have hsame : s.rdropWhile p = (s.take k).rdropWhile p := by
        conv_lhs => rw [hs]
        exact rdropWhile_append_of_pos hall
      rw [hsame]
  · rw [if_pos ((rdropWhile_eq_self _).mpr hsep)]
    constructor
    · intro heq
      refine ⟨fun hyes => absurd (hk ▸ hyes) hsep, fun _ => ?_⟩
      rw [← rdropWhile_dropWhile] at heq
      have hlast : ¬ ∃ c ∈ (s.dropWhile p).getLast?, p c := (rdropWhile_eq_self _).mp heq.symm
      rcases hd : s.dropWhile p with _ | ⟨x, d⟩
      · exact Or.inr (List.dropWhile_eq_nil_iff.mp hd)
      · left
        obtain ⟨r, hr⟩ := List.dropWhile_suffix p (l := s)
        rw [← hr, List.getLast?_append_of_ne_nil _ (by rw [hd]; simp)]
        exact hlast
    · intro hsuits
      rcases hsuits.elsewhere (hk ▸ hsep) with hlast | hall
      · rw [(rdropWhile_eq_self _).mpr hlast]
      · rw [List.dropWhile_eq_nil_iff.mpr hall, List.rdropWhile_eq_nil_iff.mpr hall]
        rfl

lemma cutEnd_iff {s : Str} (hs : s.dropWhile p = s) :
    cutEnd p (startLen s.length) s = s.rdropWhile p ↔ Suits p s := by
  rw [← dropWhile_cutEnd_iff, dropWhile_front hs (isPrefix_cutEnd p _ s), hs]

/-! ### The whole string -/

/-- A string with its null and what is in memory behind it, before anything is touched. -/
def start (str : Str) (rest : List Char) : Mem := ⟨str ++ '\x00' :: rest, []⟩

/-- `trim` removes exactly the separators around the string, within the string. -/
structure TrimsExactly (seps : Option Str) (str : Str) (rest : List Char) : Prop where
  result : cstr (trim seps (start str rest)).bytes =
    (str.dropWhile (isDelim (seps.getD blank))).rdropWhile (isDelim (seps.getD blank))
  interior : ∃ a b, str = a ++ cstr (trim seps (start str rest)).bytes ++ b ∧
    ∀ c ∈ a ++ b, isDelim (seps.getD blank) c
  commute : cstr (ltrim seps (rtrim seps (start str rest))).bytes =
    cstr (rtrim seps (ltrim seps (start str rest))).bytes
  idempotent : cstr (trim seps (trim seps (start str rest))).bytes =
    cstr (trim seps (start str rest)).bytes
  touched : ∀ i ∈ (trim seps (start str rest)).touched, i ≤ str.length

variable {str : Str} {rest : List Char}

lemma holds_start (hnul : '\x00' ∉ str) : Holds str.length (start str rest) str :=
  ⟨hnul, ⟨rest, rfl⟩, Nat.le_refl _, fun i hi => by cases hi⟩

lemma exists_append_trimmed (p : Char → Bool) (s : Str) :
    ∃ a b, s = a ++ (s.dropWhile p).rdropWhile p ++ b ∧ ∀ c ∈ a ++ b, p c := by
  refine ⟨s.takeWhile p, (s.dropWhile p).rtakeWhile p, ?_, fun c hc => ?_⟩
  · rw [List.append_assoc, List.rdropWhile_append_rtakeWhile, List.takeWhile_append_dropWhile]
  · rcases List.mem_append.mp hc with hc | hc
    · exact List.mem_takeWhile_imp hc
    · exact List.mem_rtakeWhile_imp hc

/-- **trim** removes exactly the separators around a string if and only if the string suits, with
and without its leading separators, and without those at its end too. -/
theorem trimsExactly_iff (seps : Option Str) (str : Str) (rest : List Char)
    (hnul : '\x00' ∉ str) :
    let p := isDelim (seps.getD blank)
    TrimsExactly seps str rest ↔
      Suits p str ∧ Suits p (str.dropWhile p) ∧ Suits p ((str.dropWhile p).rdropWhile p) := by
  intro p
  have hstart : Holds str.length (start str rest) str := holds_start hnul
  have htrim := trim_holds seps hstart
  -- neither has leading separators
  have hd : (str.dropWhile p).dropWhile p = str.dropWhile p := List.dropWhile_idempotent _ _
  have ht : ((str.dropWhile p).rdropWhile p).dropWhile p = (str.dropWhile p).rdropWhile p :=
    dropWhile_front hd (List.rdropWhile_prefix p _)
  have hcommuted : cstr (rtrim seps (ltrim seps (start str rest))).bytes =
      cutEnd p (startLen (str.dropWhile p).length) (str.dropWhile p) :=
    (rtrim_holds seps (ltrim_holds seps hstart)).cstr_eq
  constructor
  · intro h
    have hresult := h.result
    rw [htrim.cstr_eq] at hresult
    have hagain := trim_holds seps htrim
    refine ⟨(dropWhile_cutEnd_iff p str).mp hresult, (cutEnd_iff hd).mp ?_,
      (dropWhile_cutEnd_iff p _).mp ?_⟩
    · rw [← hcommuted, ← h.commute]
      exact h.result
    · have htwice := h.idempotent
      rw [hagain.cstr_eq, htrim.cstr_eq, hresult] at htwice
      rw [htwice, ht, List.rdropWhile_idempotent]
  · rintro ⟨hstr, hleft, hboth⟩
    rw [(dropWhile_cutEnd_iff p str).mpr hstr] at htrim
    have hagain := trim_holds seps htrim
    rw [(dropWhile_cutEnd_iff p _).mpr hboth, ht, List.rdropWhile_idempotent] at hagain
    refine ⟨htrim.cstr_eq, ?_, ?_, hagain.cstr_eq.trans htrim.cstr_eq.symm, htrim.touched⟩
    · rw [htrim.cstr_eq]
      exact exists_append_trimmed p str
    · rw [hcommuted, (cutEnd_iff hd).mpr hleft]
      exact htrim.cstr_eq

theorem trimsExactly_iff_blanks :
    TrimsExactly none "\t ab c ".toList ['x'] ↔
      Suits (isDelim blank) "\t ab c ".toList ∧
      Suits (isDelim blank) ("\t ab c ".toList.dropWhile (isDelim blank)) ∧
      Suits (isDelim blank)
        (("\t ab c ".toList.dropWhile (isDelim blank)).rdropWhile (isDelim blank)) :=
  trimsExactly_iff none "\t ab c ".toList ['x'] (by decide)

/-- A string whose last position is no `int` keeps the blanks at its end. -/
lemma not_trimsExactly_of_long {k : ℕ} (hk : k = 2 ^ 31) (rest : List Char) :
    ¬ TrimsExactly none ('a' :: List.replicate k ' ') rest := by
  intro h
  have hnul : '\x00' ∉ 'a' :: List.replicate k ' ' := by
    rw [List.mem_cons, not_or]
    exact ⟨by decide, fun hmem => absurd (List.eq_of_mem_replicate hmem) (by decide)⟩
  have hresult := h.result
  rw [(trim_holds none (holds_start hnul)).cstr_eq] at hresult
  -- the loop is not entered
  have hlen : startLen ('a' :: List.replicate k ' ').length = 0 := by
    rw [List.length_cons, List.length_replicate, hk]
    decide
  have ha : ¬ isDelim ((none : Option Str).getD blank) 'a' = true := by decide
  have hblanks : ∀ c ∈ List.replicate k ' ', isDelim ((none : Option Str).getD blank) c := by
    intro c hc
    rw [List.eq_of_mem_replicate hc]
    decide
  have hcut : cutEnd (isDelim ((none : Option Str).getD blank)) 0 ('a' :: List.replicate k ' ') =
      'a' :: List.replicate k ' ' := if_pos (List.rdropWhile_nil _)
  have hright : ('a' :: List.replicate k ' ').rdropWhile
      (isDelim ((none : Option Str).getD blank)) = ['a'] := by
    rw [← List.singleton_append, rdropWhile_append_of_pos hblanks, List.rdropWhile_singleton,
      if_neg ha]
  rw [hlen, hcut, List.dropWhile_cons_of_neg ha, hright] at hresult
  have hcount := congrArg List.length hresult
  rw [List.length_cons, List.length_replicate, List.length_singleton] at hcount
  omega

theorem long_string_keeps_blanks :
    ¬ TrimsExactly none ('a' :: List.replicate (2 ^ 31) ' ') [] :=
  not_trimsExactly_of_long rfl []

end Hoststack.Trim
