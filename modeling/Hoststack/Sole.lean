import Hoststack.Directories
import Hoststack.Lib.Numeral

/-!
The identifiers of containers: the numbers of 128 bits of `sole.h`, their two notations, and the
ids that `gen_id` makes of them.

Text is read from a string stream, which has its own rules: blanks in front are skipped, a number
may have a sign and a prefix, and the stream remembers that it has failed or met its end.
-/

namespace Hoststack

/-! ### Digits -/

namespace Sole

/-- The digits a stream writes in base 16, and then those it also reads. -/
def hexDigits : Str := "0123456789abcdefABCDEF".toList

/-- The value of a digit in base 16. -/
def hexValue (c : Char) : Option ℕ :=
  (hexDigits.idxOf? c).map fun i => if i < 16 then i else i - 6

def hex : Alphabet Char 16 where
  digit d := hexDigits.getD d '0'
  value c := (hexValue c).getD 0
  value_digit := by decide
  one_lt := by decide

def base62Digits : Str :=
  "0123456789ABCDEFGHIJKLMNOPQRSTUVWXYZabcdefghijklmnopqrstuvwxyz".toList

/-- `strpos`: the position of a character in the digits, computed in `int`; `char` is signed. -/
def strpos (ch : Char) : UInt64 :=
  let ch : ℤ := if ch.toNat < 128 then ch.toNat else ch.toNat - 256
  UInt64.ofInt <|
    if 97 ≤ ch then ch - 97 + 10 + 26
    else if 65 ≤ ch then ch - 65 + 10
    else ch - 48

def base62 : Alphabet Char 62 where
  digit d := base62Digits.getD d '0'
  value c := (strpos c).toNat
  value_digit := by decide +kernel
  one_lt := by decide

/-! ### Streams -/

/-- What is left to read of a string stream, and the bits of its state. -/
structure IStream where
  rest : Str
  eof : Bool
  fail : Bool

def isSpace (c : Char) : Bool := c ∈ [' ', '\t', '\n', '\x0b', '\x0c', '\r']

namespace IStream

/-- Before an extraction blanks are skipped; a stream that is not good fails. -/
def sentry (s : IStream) : IStream :=
  if s.eof || s.fail then { s with fail := true }
  else
    let rest := s.rest.dropWhile isSpace
    if rest = [] then ⟨[], true, true⟩ else { s with rest }

/-- `>> sep`; nothing looks at the character. -/
def getChar (s : IStream) : IStream :=
  let s := s.sentry
  if s.fail then s else { s with rest := s.rest.tail }

/-- The sign of a number, and what follows it. -/
def sign : Str → Bool × Str
  | '-' :: rest => (true, rest)
  | '+' :: rest => (false, rest)
  | rest => (false, rest)

/-- What follows the prefix of a number in base 16, if there is one. -/
def skipPrefix : Str → Str
  | '0' :: 'x' :: rest => rest
  | '0' :: 'X' :: rest => rest
  | rest => rest

/-- `>> std::hex >> a` into 64 bits without a sign: as many digits as there are. A negative number
wraps; where there is no digit, or too large a number, the stream fails. -/
def getUInt64 (s : IStream) : UInt64 × IStream :=
  let s := s.sentry
  if s.fail then (0, s)
  else
    let (negative, text) := sign s.rest
    let text := skipPrefix text
    let digits := text.takeWhile fun c => (hexValue c).isSome
    let rest := text.dropWhile fun c => (hexValue c).isSome
    let n := hex.read digits
    if digits = [] then (0, ⟨rest, rest.isEmpty, true⟩)
    else if 2 ^ 64 ≤ n then (UInt64.ofNat (2 ^ 64 - 1), ⟨rest, rest.isEmpty, true⟩)
    else (if negative then 0 - UInt64.ofNat n else UInt64.ofNat n, ⟨rest, rest.isEmpty, false⟩)

end IStream

/-! ### Identifiers -/

structure Uuid where
  ab : UInt64
  cd : UInt64
  deriving DecidableEq

/-- `<< std::setw(w) << n`, in base 16 and filled with zeros. -/
def setw (w : ℕ) (n : UInt32) : Str := hex.padded w n.toNat

/-- `uuid::str` -/
def Uuid.str (u : Uuid) : Str :=
  let a := (u.ab >>> 32).toUInt32
  let b := (u.ab &&& 0xFFFFFFFF).toUInt32
  let c := (u.cd >>> 32).toUInt32
  let d := (u.cd &&& 0xFFFFFFFF).toUInt32
  setw 8 a ++ '-' :: (setw 4 (b >>> 16) ++ '-' :: (setw 4 (b &&& 0xFFFF) ++ '-' ::
    (setw 4 (c >>> 16) ++ '-' :: (setw 4 (c &&& 0xFFFF) ++ setw 8 d))))

/-- A loop of `uuid::base62`, which writes in front of what is written. -/
def base62Loop (n : UInt64) (text : Str) : Str :=
  let text := base62.digit (n % 62).toNat :: text
  if 0 < n / 62 then base62Loop (n / 62) text else text
termination_by n.toNat
decreasing_by
  rename_i h
  have hpos : 0 < n.toNat / 62 := by simpa [UInt64.lt_iff_toNat_lt] using h
  rw [UInt64.toNat_div]
  exact Nat.div_lt_self (Nat.pos_of_div_pos hpos) (by decide)

/-- `uuid::base62`, without the terminator at the end of `res`. -/
def Uuid.toBase62 (u : Uuid) : Str := base62Loop u.ab ('-' :: base62Loop u.cd [])

/-- `rebase62`; a string ends in a terminator, which is read where the limit is zero. -/
def rebase62 (input : Str) (limit : ℕ) : UInt64 :=
  ((input.take limit).drop 1).foldl (fun res ch => 62 * res + strpos ch)
    (strpos (input.headD (Char.ofNat 0)))

/-- The two branches of `rebuild` for text with separators. -/
def rebuildBase62 (uustr : Str) (idx : ℕ) : Uuid :=
  ⟨rebase62 uustr idx, rebase62 (uustr.drop (idx + 1)) (uustr.length - (idx + 1))⟩

def rebuildHex (uustr : Str) : Uuid :=
  let (a, ss) := IStream.getUInt64 ⟨uustr, false, false⟩
  let (b, ss) := ss.getChar.getUInt64
  let (c, ss) := ss.getChar.getUInt64
  let (d, ss) := ss.getChar.getUInt64
  let (e, ss) := ss.getChar.getUInt64
  if ss.fail then ⟨0, 0⟩
  else if ss.eof then ⟨(a <<< 32) ||| (b <<< 16) ||| c, (d <<< 48) ||| e⟩
  else ⟨0, 0⟩

/-- `rebuild`, of a string -/
def rebuild (uustr : Str) : Uuid :=
  match uustr.idxOf? '-' with
  | none => ⟨0, 0⟩
  | some idx =>
    match (uustr.drop (idx + 1)).idxOf? '-' with
    | none => rebuildBase62 uustr idx
    | some _ => rebuildHex uustr

/-- `uuid4`, from what the random device gives. -/
def uuid4 (ab cd : UInt64) : Uuid :=
  ⟨(ab &&& 0xFFFFFFFFFFFF0FFF) ||| 0x0000000000004000,
    (cd &&& 0x3FFFFFFFFFFFFFFF) ||| 0x8000000000000000⟩

/-! ### Reading back what a stream wrote -/

lemma hexDigit_spec : ∀ d < 16, (hexValue (hex.digit d)).isSome ∧ isSpace (hex.digit d) = false ∧
    hex.digit d ∉ ['-', '+', 'x', 'X'] := by decide

variable {s rest : Str} {c : Char}

lemma IsDigit.spec (h : hex.IsDigit c) :
    (hexValue c).isSome ∧ isSpace c = false ∧ c ∉ ['-', '+', 'x', 'X'] := by
  obtain ⟨d, hd, rfl⟩ := h
  exact hexDigit_spec d hd

lemma sign_of_ne (h : c ∉ ['-', '+', 'x', 'X']) :
    IStream.sign (c :: rest) = (false, c :: rest) := by
  unfold IStream.sign
  split <;> simp_all

lemma skipPrefix_of_ne (h : ∀ c ∈ rest.head?, c ∉ ['+', 'x', 'X']) :
    IStream.skipPrefix (c :: rest) = c :: rest := by
  unfold IStream.skipPrefix
  split <;> simp_all

lemma getUInt64_digits (h : ∀ c ∈ s, hex.IsDigit c) (hne : s ≠ []) (hlen : s.length ≤ 16)
    (hrest : ∀ c ∈ rest.head?, c = '-') :
    IStream.getUInt64 ⟨s ++ rest, false, false⟩ =
      (UInt64.ofNat (hex.read s), ⟨rest, rest.isEmpty, false⟩) := by
  obtain ⟨c, t, rfl⟩ := List.exists_cons_of_ne_nil hne
  have hc := IsDigit.spec (h c (by simp))
  have hsentry : IStream.sentry ⟨c :: (t ++ rest), false, false⟩ =
      ⟨c :: (t ++ rest), false, false⟩ := by
    simp [IStream.sentry, hc.2.1]
  have hskip : IStream.skipPrefix (c :: (t ++ rest)) = c :: (t ++ rest) := by
    refine skipPrefix_of_ne fun x hx => ?_
    rcases t with _ | ⟨y, t⟩
    · rw [hrest x hx]
      decide
    · obtain rfl : y = x := by simpa using hx
      have := (IsDigit.spec (h y (by simp))).2.2
      simp_all
  have hall : ∀ x ∈ c :: t, (hexValue x).isSome = true := fun x hx => (IsDigit.spec (h x hx)).1
  have hnone : rest.takeWhile (fun c => (hexValue c).isSome) = [] ∧
      rest.dropWhile (fun c => (hexValue c).isSome) = rest := by
    rcases rest with _ | ⟨x, rest⟩
    · exact ⟨rfl, rfl⟩
    · rw [hrest x rfl]
      exact ⟨rfl, rfl⟩
  have hread : ¬ 2 ^ 64 ≤ hex.read (c :: t) := by
    have hlt := hex.read_lt h
    have hpow : 16 ^ (c :: t).length ≤ 16 ^ 16 := Nat.pow_le_pow_right (by decide) hlen
    omega
  rw [List.cons_append, IStream.getUInt64]
  simp only [hsentry, Bool.false_eq_true, if_false, sign_of_ne hc.2.2, hskip]
  rw [← List.cons_append, List.takeWhile_append_of_pos hall, List.dropWhile_append_of_pos hall,
    hnone.1, hnone.2, List.append_nil, if_neg hne, if_neg hread]

lemma getChar_sep (rest : Str) :
    IStream.getChar ⟨'-' :: rest, false, false⟩ = ⟨rest, false, false⟩ := by
  simp [IStream.getChar, IStream.sentry, isSpace]

/-! ### The two notations -/

lemma toNat_high (x : UInt64) : (x >>> 32).toUInt32.toNat = x.toNat / 2 ^ 32 := by
  have hx := x.toNat_lt
  simp only [UInt64.toNat_toUInt32, UInt64.toNat_shiftRight, UInt64.reduceToNat, Nat.reduceMod,
    Nat.shiftRight_eq_div_pow]
  omega

lemma toNat_low (x : UInt64) : (x &&& 0xFFFFFFFF).toUInt32.toNat = x.toNat % 2 ^ 32 := by
  simp only [UInt64.toNat_toUInt32, UInt64.toNat_and, UInt64.reduceToNat]
  rw [Nat.and_two_pow_sub_one_eq_mod _ 32, Nat.mod_mod]

lemma toNat_shift (x : UInt32) : (x >>> 16).toNat = x.toNat / 2 ^ 16 := by
  simp [Nat.shiftRight_eq_div_pow]

lemma toNat_mask (x : UInt32) : (x &&& 0xFFFF).toNat = x.toNat % 2 ^ 16 := by
  simp only [UInt32.toNat_and, UInt32.reduceToNat]
  rw [Nat.and_two_pow_sub_one_eq_mod _ 16]

lemma str_eq (u : Uuid) :
    u.str = hex.padded 8 (u.ab.toNat / 2 ^ 32) ++ '-' ::
      (hex.padded 4 (u.ab.toNat % 2 ^ 32 / 2 ^ 16) ++ '-' ::
        (hex.padded 4 (u.ab.toNat % 2 ^ 32 % 2 ^ 16) ++ '-' ::
          (hex.padded 4 (u.cd.toNat / 2 ^ 32 / 2 ^ 16) ++ '-' ::
            (hex.padded 4 (u.cd.toNat / 2 ^ 32 % 2 ^ 16) ++
              hex.padded 8 (u.cd.toNat % 2 ^ 32))))) := by
  simp only [Uuid.str, setw, toNat_high, toNat_low, toNat_shift, toNat_mask]

lemma base62Loop_eq (n : UInt64) (text : Str) :
    base62Loop n text = base62.numeral n.toNat ++ text := by
  fun_induction base62Loop n text with
  | case1 n text text' h ih =>
    have hle : 62 ≤ n.toNat := by
      have hpos : 0 < n.toNat / 62 := by simpa [UInt64.lt_iff_toNat_lt] using h
      omega
    rw [ih, base62.numeral_of_le hle]
    simp [text']
  | case2 n text text' h =>
    have hlt : n.toNat < 62 := by
      have hnot : ¬ 0 < n.toNat / 62 := by simpa [UInt64.lt_iff_toNat_lt] using h
      omega
    rw [base62.numeral_of_lt hlt]
    simp [text', Nat.mod_eq_of_lt hlt]

lemma toNat_rebase62_foldl (text : Str) (res : UInt64) :
    (text.foldl (fun res ch => 62 * res + strpos ch) res).toNat =
      text.foldl (fun res c => 62 * res + base62.value c) res.toNat % 2 ^ 64 := by
  induction text generalizing res with
  | nil => exact (Nat.mod_eq_of_lt res.toNat_lt).symm
  | cons c text ih =>
    rw [List.foldl_cons, List.foldl_cons, ih, base62.read_foldl, base62.read_foldl]
    refine Nat.ModEq.add_right _ (Nat.ModEq.mul_right _ ?_)
    simp only [UInt64.toNat_add, UInt64.toNat_mul, UInt64.reduceToNat]
    exact (Nat.mod_modEq _ _).trans (Nat.ModEq.add_right _ (Nat.mod_modEq _ _))

lemma rebase62_numeral (n : UInt64) (rest : Str) :
    rebase62 (base62.numeral n.toNat ++ rest) (base62.numeral n.toNat).length = n := by
  obtain ⟨c, s, hs⟩ := List.exists_cons_of_ne_nil (base62.numeral_ne_nil n.toNat)
  have hread := base62.read_numeral n.toNat
  rw [hs, Alphabet.read, List.foldl_cons, Nat.mul_zero, Nat.zero_add] at hread
  refine UInt64.toNat_inj.mp ?_
  rw [rebase62, List.take_left', hs, List.drop_one, List.tail_cons, List.cons_append,
    List.headD_cons, toNat_rebase62_foldl]
  · exact (congrArg (· % 2 ^ 64) hread).trans (Nat.mod_eq_of_lt n.toNat_lt)
  · rfl

lemma sep_not_mem_base62 {n : ℕ} : '-' ∉ base62.numeral n := fun h => by
  have hdigit : ∀ d < 62, base62.digit d ≠ '-' := by decide +kernel
  obtain ⟨d, hd, heq⟩ := base62.isDigit_numeral '-' h
  exact hdigit d hd heq.symm

lemma sep_not_mem_hex (h : ∀ c ∈ s, hex.IsDigit c) : '-' ∉ s := fun hmem =>
  (IsDigit.spec (h '-' hmem)).2.2 (by decide)

lemma idxOf_sep (h : '-' ∉ s) : (s ++ '-' :: rest).idxOf? '-' = some s.length := by
  induction s with
  | nil => simp [List.idxOf?_cons]
  | cons c s ih =>
    have hne : (c == '-') = false := by simpa using fun heq : c = '-' => h (by simp [heq])
    have hs : '-' ∉ s := fun hmem => h (List.mem_cons_of_mem _ hmem)
    simp [List.idxOf?_cons, hne, ih hs]

lemma drop_sep : (s ++ '-' :: rest).drop (s.length + 1) = rest := by
  rw [← List.drop_drop, List.drop_left, List.drop_one, List.tail_cons]

lemma rebuild_base62 (u : Uuid) : rebuild u.toBase62 = u := by
  have htext : u.toBase62 = base62.numeral u.ab.toNat ++ '-' :: base62.numeral u.cd.toNat := by
    simp [Uuid.toBase62, base62Loop_eq]
  have hdrop : u.toBase62.drop ((base62.numeral u.ab.toNat).length + 1) =
      base62.numeral u.cd.toNat ++ [] := by
    simp [htext, List.drop_append]
  have hlen : u.toBase62.length - ((base62.numeral u.ab.toNat).length + 1) =
      (base62.numeral u.cd.toNat).length := by
    rw [htext, List.length_append, List.length_cons]
    omega
  have hlast : (u.toBase62.drop ((base62.numeral u.ab.toNat).length + 1)).idxOf? '-' = none := by
    rw [hdrop, List.append_nil]
    exact List.idxOf?_eq_none_iff.mpr sep_not_mem_base62
  have hfirst : u.toBase62.idxOf? '-' = some (base62.numeral u.ab.toNat).length := by
    rw [htext]
    exact idxOf_sep sep_not_mem_base62
  unfold rebuild
  simp only [hfirst, hlast]
  rw [rebuildBase62, hdrop, hlen, rebase62_numeral, htext, rebase62_numeral]

/-- Digits that a stream reads into 64 bits. -/
def Field (s : Str) : Prop := (∀ c ∈ s, hex.IsDigit c) ∧ s ≠ [] ∧ s.length ≤ 16

lemma field_padded {w n : ℕ} (hw : 0 < w) (hn : n < 16 ^ w) (hle : w ≤ 16) :
    Field (hex.padded w n) :=
  ⟨hex.isDigit_padded, hex.padded_ne_nil w n, (hex.length_padded hw hn).trans_le hle⟩

variable {a b c d e : Str}

lemma rebuild_hex (ha : Field a) (hb : Field b) (hc : Field c) (hd : Field d) (he : Field e) :
    rebuild (a ++ '-' :: (b ++ '-' :: (c ++ '-' :: (d ++ '-' :: e)))) =
      ⟨(UInt64.ofNat (hex.read a) <<< 32) ||| (UInt64.ofNat (hex.read b) <<< 16) |||
          UInt64.ofNat (hex.read c),
        (UInt64.ofNat (hex.read d) <<< 48) ||| UInt64.ofNat (hex.read e)⟩ := by
  have hnext : ∀ {s : Str} (rest : Str), Field s →
      IStream.getUInt64 ⟨s ++ '-' :: rest, false, false⟩ =
        (UInt64.ofNat (hex.read s), ⟨'-' :: rest, false, false⟩) :=
    fun rest hs => getUInt64_digits hs.1 hs.2.1 hs.2.2 (by simp)
  have hlast : IStream.getUInt64 ⟨e, false, false⟩ =
      (UInt64.ofNat (hex.read e), ⟨[], true, false⟩) := by
    rw [← List.append_nil e, getUInt64_digits he.1 he.2.1 he.2.2 (by simp), List.append_nil]
    rfl
  unfold rebuild
  simp only [idxOf_sep (sep_not_mem_hex ha.1), drop_sep, idxOf_sep (sep_not_mem_hex hb.1)]
  simp only [rebuildHex, hnext _ ha, hnext _ hb, hnext _ hc, hnext _ hd, hlast, getChar_sep,
    Bool.false_eq_true, if_false, if_true]

lemma toNat_glue {x y : ℕ} (k : ℕ) (hk : k < 64) (hx : x * 2 ^ k + y < 2 ^ 64) (hy : y < 2 ^ k) :
    (UInt64.ofNat x <<< UInt64.ofNat k ||| UInt64.ofNat y).toNat = x * 2 ^ k + y := by
  have hxle : x ≤ x * 2 ^ k := Nat.le_mul_of_pos_right x (Nat.two_pow_pos k)
  have hxmod : x % 2 ^ 64 = x := Nat.mod_eq_of_lt (by omega)
  have hymod : y % 2 ^ 64 = y := Nat.mod_eq_of_lt (by omega)
  have hkmod : (UInt64.ofNat k).toNat % 64 = k := by
    rw [UInt64.toNat_ofNat']
    omega
  have hshift : x <<< k % 2 ^ 64 = x <<< k :=
    Nat.mod_eq_of_lt (by rw [Nat.shiftLeft_eq]; omega)
  rw [UInt64.toNat_or, UInt64.toNat_shiftLeft, hkmod, UInt64.toNat_ofNat', UInt64.toNat_ofNat',
    hxmod, hymod, hshift, ← Nat.shiftLeft_add_eq_or_of_lt hy, Nat.shiftLeft_eq]

lemma toNat_glue₃ {x y z : ℕ} (hx : x < 2 ^ 32) (hy : y < 2 ^ 16) (hz : z < 2 ^ 16) :
    (UInt64.ofNat x <<< 32 ||| UInt64.ofNat y <<< 16 ||| UInt64.ofNat z).toNat =
      x * 2 ^ 32 + (y * 2 ^ 16 + z) := by
  have hlow : UInt64.ofNat y <<< 16 ||| UInt64.ofNat z = UInt64.ofNat (y * 2 ^ 16 + z) := by
    rw [← UInt64.toNat_inj, UInt64.toNat_ofNat', Nat.mod_eq_of_lt (by omega)]
    exact toNat_glue 16 (by decide) (by omega) hz
  rw [UInt64.or_assoc, hlow]
  exact toNat_glue 32 (by decide) (by omega) (by omega)

lemma rebuild_str (u : Uuid) : rebuild u.str = u := by
  have hab := u.ab.toNat_lt
  have hcd := u.cd.toNat_lt
  have hlow : u.cd.toNat % 2 ^ 32 < 16 ^ 8 := by omega
  have hlast : Field (hex.padded 4 (u.cd.toNat / 2 ^ 32 % 2 ^ 16) ++
      hex.padded 8 (u.cd.toNat % 2 ^ 32)) := by
    refine ⟨fun c hc => ?_, List.append_ne_nil_of_left_ne_nil (hex.padded_ne_nil _ _) _, ?_⟩
    · rcases List.mem_append.mp hc with h | h <;> exact hex.isDigit_padded c h
    · rw [List.length_append, hex.length_padded (by omega) (by omega),
        hex.length_padded (by omega) hlow]
      omega
  rw [str_eq, rebuild_hex (field_padded (by omega) (by omega) (by omega))
    (field_padded (by omega) (by omega) (by omega)) (field_padded (by omega) (by omega) (by omega))
    (field_padded (by omega) (by omega) (by omega)) hlast]
  simp only [hex.read_append, hex.read_padded, hex.length_padded (Nat.zero_lt_succ 7) hlow]
  rw [Uuid.mk.injEq, ← UInt64.toNat_inj, ← UInt64.toNat_inj]
  constructor
  · rw [toNat_glue₃ (by omega) (by omega) (by omega)]
    omega
  · refine (toNat_glue 48 (by decide) (by omega) (by omega)).trans ?_
    omega

/-- **Both notations of an identifier are read back**, and `base62` has room in its array. -/
theorem notations_round_trip (u : Uuid) :
    rebuild u.str = u ∧ rebuild u.toBase62 = u ∧ u.toBase62.length + 1 ≤ 24 := by
  refine ⟨rebuild_str u, rebuild_base62 u, ?_⟩
  have hlen : ∀ n : UInt64, (base62.numeral n.toNat).length ≤ 11 := fun n =>
    base62.length_numeral_le (by omega) (n.toNat_lt.trans (by decide))
  have hab := hlen u.ab
  have hcd := hlen u.cd
  simp only [Uuid.toBase62, base62Loop_eq, List.length_append, List.length_cons, List.length_nil]
  omega

/-! ### Bits that are set -/

/-- Some bits of a word, which are given a value, and the others, which are kept. -/
structure BitField where
  keep : UInt64
  bits : UInt64
  val : UInt64
  keep_or : keep.toNat ||| bits.toNat = 2 ^ 64 - 1
  keep_and : keep.toNat &&& bits.toNat = 0
  val_and : val.toNat &&& bits.toNat = val.toNat

namespace BitField

variable (F : BitField) {x y : UInt64}

def set (x : UInt64) : UInt64 := (x &&& F.keep) ||| F.val

lemma val_keep : F.val.toNat &&& F.keep.toNat = 0 := by
  rw [← F.val_and, Nat.and_assoc, Nat.and_comm F.bits.toNat, F.keep_and, Nat.and_zero]

@[simp] lemma set_bits (x : UInt64) : F.set x &&& F.bits = F.val := by
  rw [← UInt64.toNat_inj, set]
  simp only [UInt64.toNat_and, UInt64.toNat_or]
  rw [Nat.and_or_distrib_right, Nat.and_assoc, F.keep_and, F.val_and, Nat.and_zero, Nat.zero_or]

@[simp] lemma set_keep (x : UInt64) : F.set x &&& F.keep = x &&& F.keep := by
  rw [← UInt64.toNat_inj, set]
  simp only [UInt64.toNat_and, UInt64.toNat_or]
  rw [Nat.and_or_distrib_right, Nat.and_assoc, Nat.and_self, F.val_keep, Nat.or_zero]

lemma set_eq_self (h : x &&& F.bits = F.val) : F.set x = x := by
  have hx : x.toNat &&& (2 ^ 64 - 1) = x.toNat := by
    rw [Nat.and_two_pow_sub_one_eq_mod, Nat.mod_eq_of_lt x.toNat_lt]
  rw [← UInt64.toNat_inj, set, ← h]
  simp only [UInt64.toNat_and, UInt64.toNat_or]
  rw [← Nat.and_or_distrib_left, F.keep_or, hx]

lemma set_inj : F.set x = F.set y ↔ x &&& F.keep = y &&& F.keep := by
  constructor
  · intro h
    rw [← F.set_keep x, h, F.set_keep]
  · intro h
    rw [set, h, set]

end BitField

/-- The bits of the version, and those of the variant. -/
def version : BitField :=
  ⟨0xFFFFFFFFFFFF0FFF, 0xF000, 0x4000, by decide, by decide, by decide⟩

def variant : BitField :=
  ⟨0x3FFFFFFFFFFFFFFF, 0xC000000000000000, 0x8000000000000000, by decide, by decide, by decide⟩

lemma uuid4_eq (ab cd : UInt64) : uuid4 ab cd = ⟨version.set ab, variant.set cd⟩ := rfl

lemma and_row (n k w : ℕ) : n &&& ((2 ^ w - 1) <<< k) = n / 2 ^ k % 2 ^ w * 2 ^ k := by
  rw [← Nat.shiftLeft_eq, ← Nat.shiftRight_eq_div_pow]
  refine Nat.eq_of_testBit_eq fun i => ?_
  simp only [Nat.testBit_and, Nat.testBit_shiftLeft, Nat.testBit_two_pow_sub_one,
    Nat.testBit_mod_two_pow, Nat.testBit_shiftRight]
  by_cases h : k ≤ i
  · simp [h, Nat.add_sub_cancel' h, Bool.and_comm]
  · simp [h]

lemma version_iff (x : UInt64) : x &&& version.bits = version.val ↔ x.toNat / 2 ^ 12 % 16 = 4 := by
  have hrow := and_row x.toNat 12 4
  rw [← UInt64.toNat_inj, UInt64.toNat_and]
  change x.toNat &&& 0xF000 = 0x4000 ↔ _
  change x.toNat &&& 0xF000 = _ at hrow
  rw [hrow]
  omega

lemma variant_iff (x : UInt64) : x &&& variant.bits = variant.val ↔ x.toNat / 2 ^ 62 = 2 := by
  have hx := x.toNat_lt
  have hrow := and_row x.toNat 62 2
  rw [← UInt64.toNat_inj, UInt64.toNat_and]
  change x.toNat &&& 0xC000000000000000 = 0x8000000000000000 ↔ _
  change x.toNat &&& 0xC000000000000000 = _ at hrow
  rw [hrow]
  omega

end Sole

/-- `ContainerDao::gen_id` -/
def ContainerDao.genId (ab cd : UInt64) : Str := (Sole.uuid4 ab cd).str

namespace Sole

/-! ### The ids of containers -/

open ContainerDao (genId)

/-- The parts of an identifier of version 4: the last digits of the version's and the variant's
fields stand apart. -/
structure Version4 where
  timeLow : Str
  timeMid : Str
  timeHi : Str
  variant : Char
  clockSeq : Str
  node : Str
  digits : ∀ l ∈ [timeLow, timeMid, timeHi, clockSeq, node], ∀ c ∈ l, hex.IsDigit c
  lengths : [timeLow, timeMid, timeHi, clockSeq, node].map List.length = [8, 4, 3, 3, 12]
  variant_mem : variant ∈ ['8', '9', 'a', 'b']

def Version4.text (v : Version4) : Str :=
  v.timeLow ++ '-' :: (v.timeMid ++ '-' :: ('4' :: v.timeHi ++ '-' ::
    (v.variant :: v.clockSeq ++ '-' :: v.node)))

/-- The parts of an identifier whose version and variant are set. -/
def parts (u : Uuid) (hcd : u.cd.toNat / 2 ^ 62 = 2) : Version4 where
  timeLow := hex.padded 8 (u.ab.toNat / 2 ^ 32)
  timeMid := hex.padded 4 (u.ab.toNat % 2 ^ 32 / 2 ^ 16)
  timeHi := hex.padded 3 (u.ab.toNat % 2 ^ 12)
  variant := hex.digit (u.cd.toNat / 2 ^ 60)
  clockSeq := hex.padded 3 (u.cd.toNat / 2 ^ 48 % 2 ^ 12)
  node := hex.padded 4 (u.cd.toNat / 2 ^ 32 % 2 ^ 16) ++ hex.padded 8 (u.cd.toNat % 2 ^ 32)
  digits l hl c hc := by
    simp only [List.mem_cons, List.not_mem_nil, or_false] at hl
    rcases hl with rfl | rfl | rfl | rfl | rfl
    iterate 4 exact hex.isDigit_padded c hc
    rcases List.mem_append.mp hc with h | h <;> exact hex.isDigit_padded c h
  lengths := by
    have hab := u.ab.toNat_lt
    simp only [List.map_cons, List.map_nil, List.length_append]
    rw [hex.length_padded (by omega) (by omega), hex.length_padded (by omega) (by omega),
      hex.length_padded (by omega) (by omega), hex.length_padded (by omega) (by omega),
      hex.length_padded (by omega) (by omega), hex.length_padded (by omega) (by omega)]
  variant_mem := by
    have hcases : ∀ n, n = 8 ∨ n = 9 ∨ n = 10 ∨ n = 11 →
        hex.digit n ∈ ['8', '9', 'a', 'b'] := by
      rintro n (rfl | rfl | rfl | rfl) <;> decide
    exact hcases _ (by omega)

lemma text_parts {u : Uuid} (hab : u.ab.toNat / 2 ^ 12 % 16 = 4)
    (hcd : u.cd.toNat / 2 ^ 62 = 2) : (parts u hcd).text = u.str := by
  have hthird : hex.padded 4 (u.ab.toNat % 2 ^ 32 % 2 ^ 16) =
      '4' :: hex.padded 3 (u.ab.toNat % 2 ^ 12) := by
    rw [← show hex.digit 4 = '4' from rfl, ← hex.padded_succ (by omega) (by omega) (by omega)]
    congr 1
    omega
  have hfourth : hex.padded 4 (u.cd.toNat / 2 ^ 32 / 2 ^ 16) =
      hex.digit (u.cd.toNat / 2 ^ 60) :: hex.padded 3 (u.cd.toNat / 2 ^ 48 % 2 ^ 12) := by
    rw [← hex.padded_succ (by omega) (by omega) (by omega)]
    congr 1
    omega
  rw [str_eq, hthird, hfourth]
  rfl

lemma exists_str (v : Version4) :
    ∃ u : Uuid, u.ab.toNat / 2 ^ 12 % 16 = 4 ∧ u.cd.toNat / 2 ^ 62 = 2 ∧ u.str = v.text := by
  obtain ⟨a, b, c, x, d, e, hdigits, hlengths, hx⟩ := v
  simp only [List.forall_mem_cons, List.not_mem_nil, false_imp_iff, implies_true, and_true]
    at hdigits
  obtain ⟨ha, hb, hc, hd, he⟩ := hdigits
  simp only [List.map_cons, List.map_nil, List.cons.injEq, and_true] at hlengths
  obtain ⟨hla, hlb, hlc, hld, hle⟩ := hlengths
  have hreads : hex.read a < 16 ^ 8 ∧ hex.read b < 16 ^ 4 ∧ hex.read c < 16 ^ 3 ∧
      hex.read d < 16 ^ 3 ∧ hex.read e < 16 ^ 12 :=
    ⟨hla ▸ hex.read_lt ha, hlb ▸ hex.read_lt hb, hlc ▸ hex.read_lt hc, hld ▸ hex.read_lt hd,
      hle ▸ hex.read_lt he⟩
  obtain ⟨n, hn, hlow, rfl⟩ : ∃ n, 8 ≤ n ∧ n < 12 ∧ hex.digit n = x := by
    simp only [List.mem_cons, List.not_mem_nil, or_false] at hx
    rcases hx with rfl | rfl | rfl | rfl
    · exact ⟨8, by omega, by omega, rfl⟩
    · exact ⟨9, by omega, by omega, rfl⟩
    · exact ⟨10, by omega, by omega, rfl⟩
    · exact ⟨11, by omega, by omega, rfl⟩
  have hword : ∀ m < 2 ^ 64, ∃ w : UInt64, w.toNat = m := fun m hm =>
    ⟨UInt64.ofNat m, by rw [UInt64.toNat_ofNat', Nat.mod_eq_of_lt hm]⟩
  obtain ⟨ab, hab⟩ := hword
    (hex.read a * 2 ^ 32 + hex.read b * 2 ^ 16 + (4 * 16 ^ 3 + hex.read c)) (by omega)
  obtain ⟨cd, hcd⟩ := hword ((n * 16 ^ 3 + hex.read d) * 2 ^ 48 + hex.read e) (by omega)
  have hversion : ab.toNat / 2 ^ 12 % 16 = 4 := by omega
  have hvariant : cd.toNat / 2 ^ 62 = 2 := by omega
  refine ⟨⟨ab, cd⟩, hversion, hvariant, (text_parts hversion hvariant).symm.trans ?_⟩
  have hpadded : ∀ {s : Str} {k m : ℕ}, (∀ c ∈ s, hex.IsDigit c) → s.length = k → 0 < k →
      m = hex.read s → hex.padded k m = s := by
    rintro s k m hs rfl hk rfl
    exact hex.padded_read hs (List.length_pos_iff.mp hk)
  have hnode : hex.padded 4 (cd.toNat / 2 ^ 32 % 2 ^ 16) ++ hex.padded 8 (cd.toNat % 2 ^ 32) =
      e := by
    refine hex.eq_of_read_eq (fun c hc => ?_) he ?_ ?_
    · rcases List.mem_append.mp hc with h | h <;> exact hex.isDigit_padded c h
    · rw [List.length_append, hex.length_padded (by omega) (by omega),
        hex.length_padded (by omega) (by omega), hle]
    · rw [hex.read_append, hex.length_padded (by omega) (by omega), hex.read_padded,
        hex.read_padded]
      omega
  have hx' : cd.toNat / 2 ^ 60 = n := by omega
  simp only [Version4.text, parts, hpadded ha hla (by omega) (show ab.toNat / 2 ^ 32 = _ by omega),
    hpadded hb hlb (by omega) (show ab.toNat % 2 ^ 32 / 2 ^ 16 = _ by omega),
    hpadded hc hlc (by omega) (show ab.toNat % 2 ^ 12 = _ by omega), hx',
    hpadded hd hld (by omega) (show cd.toNat / 2 ^ 48 % 2 ^ 12 = _ by omega), hnode]

lemma uuid4_bits (ab cd : UInt64) :
    (uuid4 ab cd).ab.toNat / 2 ^ 12 % 16 = 4 ∧ (uuid4 ab cd).cd.toNat / 2 ^ 62 = 2 :=
  ⟨(version_iff _).mp (version.set_bits ab), (variant_iff _).mp (variant.set_bits cd)⟩

lemma uuid4_self {u : Uuid} (hab : u.ab.toNat / 2 ^ 12 % 16 = 4)
    (hcd : u.cd.toNat / 2 ^ 62 = 2) : uuid4 u.ab u.cd = u := by
  rw [uuid4_eq, version.set_eq_self ((version_iff _).mpr hab),
    variant.set_eq_self ((variant_iff _).mpr hcd)]

lemma length_text (v : Version4) : v.text.length = 36 := by
  have hlengths := v.lengths
  simp only [List.map_cons, List.map_nil, List.cons.injEq, and_true] at hlengths
  simp only [Version4.text, List.length_append, List.length_cons]
  omega

lemma idOk_text (v : Version4) : Directories.IdOk v.text := by
  have halnum : ∀ d < 16, (hex.digit d).isAlphanum = true := by decide
  have hdigit : ∀ l ∈ [v.timeLow, v.timeMid, v.timeHi, v.clockSeq, v.node], ∀ c ∈ l,
      c.isAlphanum = true ∨ c = '-' := by
    intro l hl c hc
    obtain ⟨d, hd, rfl⟩ := v.digits l hl c hc
    exact Or.inl (halnum d hd)
  simp only [List.forall_mem_cons, List.not_mem_nil, false_imp_iff, implies_true, and_true]
    at hdigit
  obtain ⟨ha, hb, hc, hd, he⟩ := hdigit
  have hfixed : ∀ c, c ∈ ['-', '4'] ++ ['8', '9', 'a', 'b'] → c.isAlphanum = true ∨ c = '-' := by
    intro c hc
    simp only [List.cons_append, List.nil_append, List.mem_cons, List.not_mem_nil, or_false] at hc
    rcases hc with rfl | rfl | rfl | rfl | rfl | rfl <;> decide
  have hvariant := hfixed v.variant (List.mem_append_right _ v.variant_mem)
  refine ⟨List.length_pos_iff.mp (by rw [length_text]; decide), fun c hmem => ?_⟩
  simp only [Version4.text, List.mem_append, List.mem_cons] at hmem
  rcases hmem with h | rfl | h | rfl | (rfl | h) | rfl | (rfl | h) | rfl | h
  · exact ha c h
  · exact hfixed '-' (by simp)
  · exact hb c h
  · exact hfixed '-' (by simp)
  · exact hfixed '4' (by simp)
  · exact hc c h
  · exact hfixed '-' (by simp)
  · exact hvariant
  · exact hd c h
  · exact hfixed '-' (by simp)
  · exact he c h

end Sole

/-- The path of a container's socket, as it is printed into `sun_path`, which has 108 bytes. -/
def PtyExecUtil.sunPath (containerId : Str) : Str :=
  (hoststackRepo ++ "/containers/".toList ++ containerId ++ "/hoststack.socket".toList).take
    (108 - 1 - 1)

namespace Sole

open ContainerDao PtyExecUtil

lemma genId_parts (ab cd : UInt64) : ∃ v : Version4, v.text = genId ab cd :=
  ⟨_, text_parts (uuid4_bits ab cd).1 (uuid4_bits ab cd).2⟩

lemma sunPath_text (v : Version4) :
    sunPath v.text =
      hoststackRepo ++ "/containers/".toList ++ v.text ++ "/hoststack.socket".toList := by
  refine List.take_of_length_le ?_
  rw [List.length_append, List.length_append, List.length_append, length_text]
  decide

/-- **The ids of containers**: `gen_id` makes the identifiers of version 4 and no others, two of
its ids are the same exactly when the random bits that are kept are, and containers with
different ids have different sockets. -/
theorem gen_id_ids (ab cd ab' cd' : UInt64) :
    (∀ s, (∃ r r', genId r r' = s) ↔ ∃ v : Version4, v.text = s) ∧
    (genId ab cd = genId ab' cd' ↔
      ab &&& 0xFFFFFFFFFFFF0FFF = ab' &&& 0xFFFFFFFFFFFF0FFF ∧
        cd &&& 0x3FFFFFFFFFFFFFFF = cd' &&& 0x3FFFFFFFFFFFFFFF) ∧
    Directories.IdOk (genId ab cd) ∧ (genId ab cd).length = 36 ∧
    sunPath (genId ab cd) =
      hoststackRepo ++ "/containers/".toList ++ genId ab cd ++ "/hoststack.socket".toList ∧
    (sunPath (genId ab cd) = sunPath (genId ab' cd') → genId ab cd = genId ab' cd') := by
  obtain ⟨v, hv⟩ := genId_parts ab cd
  obtain ⟨v', hv'⟩ := genId_parts ab' cd'
  refine ⟨fun s => ⟨?_, ?_⟩, ⟨fun h => ?_, fun ⟨h, h'⟩ => ?_⟩, hv ▸ idOk_text v, hv ▸ length_text v,
    hv ▸ sunPath_text v, fun h => ?_⟩
  · rintro ⟨r, r', rfl⟩
    exact genId_parts r r'
  · rintro ⟨w, rfl⟩
    obtain ⟨u, hab, hcd, hu⟩ := exists_str w
    exact ⟨u.ab, u.cd, (congrArg Uuid.str (uuid4_self hab hcd)).trans hu⟩
  · have hu : uuid4 ab cd = uuid4 ab' cd' := by
      rw [← rebuild_str (uuid4 ab cd), ← rebuild_str (uuid4 ab' cd')]
      exact congrArg rebuild h
    rw [uuid4_eq, uuid4_eq, Uuid.mk.injEq] at hu
    exact ⟨version.set_inj.mp hu.1, variant.set_inj.mp hu.2⟩
  · rw [genId, genId, uuid4_eq, uuid4_eq, version.set_inj.mpr h, variant.set_inj.mpr h']
  · rw [← hv, ← hv', sunPath_text, sunPath_text] at h
    rw [← hv, ← hv']
    exact List.append_cancel_left (List.append_cancel_right h)

end Sole

end Hoststack
