import Mathlib.Data.Nat.Digits.Lemmas

/-!
Numbers written with the digits of an alphabet, the first digit in front, and read back.
-/

namespace Hoststack

variable {α : Type*} {b : ℕ}

/-- The digits of a base, each of which can be told from its character. -/
structure Alphabet (α : Type*) (b : ℕ) where
  digit : ℕ → α
  value : α → ℕ
  value_digit : ∀ d < b, value (digit d) = d
  one_lt : 1 < b

namespace Alphabet

variable (A : Alphabet α b)

/-- The digits of a number; zero has one digit. -/
def numeral (n : ℕ) : List α :=
  (if n = 0 then [0] else Nat.digits b n).reverse.map A.digit

/-- A number in at least `w` digits. -/
def padded (w n : ℕ) : List α := (A.numeral n).leftpad w (A.digit 0)

/-- The number that a text denotes, read from its first character on. -/
def read (text : List α) : ℕ := text.foldl (fun res c => b * res + A.value c) 0

/-- A character that is a digit. -/
def IsDigit (c : α) : Prop := ∃ d < b, c = A.digit d

/-! ### Reading -/

lemma read_foldl (text : List α) (n : ℕ) :
    text.foldl (fun res c => b * res + A.value c) n = n * b ^ text.length + A.read text := by
  unfold read
  induction text generalizing n with
  | nil => simp
  | cons c text ih =>
    rw [List.foldl_cons, List.foldl_cons, ih, ih (b * 0 + A.value c), List.length_cons, pow_succ]
    ring

lemma read_append (s t : List α) : A.read (s ++ t) = A.read s * b ^ t.length + A.read t := by
  rw [read, List.foldl_append, A.read_foldl t, ← read]

lemma read_cons (c : α) (s : List α) :
    A.read (c :: s) = A.value c * b ^ s.length + A.read s := by
  rw [read, List.foldl_cons, read_foldl, Nat.mul_zero, Nat.zero_add]

@[simp] lemma read_nil : A.read [] = 0 := rfl

@[simp] lemma read_singleton (c : α) : A.read [c] = A.value c := by simp [read]

lemma read_digits {l : List ℕ} (h : ∀ d ∈ l, d < b) :
    A.read (l.reverse.map A.digit) = Nat.ofDigits b l := by
  induction l with
  | nil => rfl
  | cons d l ih =>
    obtain ⟨hd, hl⟩ := List.forall_mem_cons.mp h
    rw [List.reverse_cons, List.map_append, read_append, ih hl, Nat.ofDigits_cons]
    simp only [List.map_cons, List.map_nil, List.length_singleton, pow_one, read_singleton,
      A.value_digit d hd]
    ring

include A in
lemma digits_lt (n : ℕ) : ∀ d ∈ (if n = 0 then [0] else Nat.digits b n), d < b := by
  split_ifs
  · simpa using Nat.zero_lt_of_lt A.one_lt
  · exact fun d hd => Nat.digits_lt_base A.one_lt hd

lemma read_numeral (n : ℕ) : A.read (A.numeral n) = n := by
  rw [numeral, A.read_digits (A.digits_lt n)]
  split_ifs with hn
  · simp [hn]
  · exact Nat.ofDigits_digits b n

lemma read_replicate (k : ℕ) : A.read (List.replicate k (A.digit 0)) = 0 := by
  induction k with
  | zero => rfl
  | succ k ih =>
    rw [List.replicate_succ', read_append, ih, read_singleton,
      A.value_digit 0 (Nat.zero_lt_of_lt A.one_lt), Nat.zero_mul]

lemma read_padded (w n : ℕ) : A.read (A.padded w n) = n := by
  rw [padded, List.leftpad, read_append, read_replicate, read_numeral, Nat.zero_mul, Nat.zero_add]

/-! ### How long, and of which characters -/

lemma numeral_ne_nil (n : ℕ) : A.numeral n ≠ [] := by
  unfold numeral
  split_ifs with hn
  · simp
  · simpa [Nat.digits_eq_nil_iff_eq_zero] using hn

lemma length_numeral_le {w n : ℕ} (hw : 0 < w) (hn : n < b ^ w) : (A.numeral n).length ≤ w := by
  unfold numeral
  rw [List.length_map, List.length_reverse]
  split_ifs
  · exact hw
  · exact (Nat.digits_length_le_iff A.one_lt n).mpr hn

lemma length_padded {w n : ℕ} (hw : 0 < w) (hn : n < b ^ w) : (A.padded w n).length = w := by
  rw [padded, List.length_leftpad]
  exact Nat.max_eq_left (A.length_numeral_le hw hn)

lemma padded_ne_nil (w n : ℕ) : A.padded w n ≠ [] := by
  rw [padded, List.leftpad]
  exact List.append_ne_nil_of_right_ne_nil _ (A.numeral_ne_nil n)

lemma isDigit_numeral {n : ℕ} : ∀ c ∈ A.numeral n, A.IsDigit c := by
  intro c hc
  obtain ⟨d, hd, rfl⟩ := List.mem_map.mp hc
  exact ⟨d, A.digits_lt n d (List.mem_reverse.mp hd), rfl⟩

lemma isDigit_padded {w n : ℕ} : ∀ c ∈ A.padded w n, A.IsDigit c := by
  intro c hc
  rcases List.mem_append.mp hc with hpad | hnum
  · exact ⟨0, Nat.zero_lt_of_lt A.one_lt, List.eq_of_mem_replicate hpad⟩
  · exact A.isDigit_numeral c hnum

/-! ### Digits of a given number of places -/

lemma exists_digits {s : List α} (h : ∀ c ∈ s, A.IsDigit c) :
    ∃ l : List ℕ, (∀ d ∈ l, d < b) ∧ s = l.reverse.map A.digit := by
  induction s with
  | nil => exact ⟨[], by simp, rfl⟩
  | cons c s ih =>
    obtain ⟨⟨d, hd, rfl⟩, hs⟩ := List.forall_mem_cons.mp h
    obtain ⟨l, hl, rfl⟩ := ih hs
    refine ⟨l ++ [d], fun e he => ?_, by simp⟩
    rcases List.mem_append.mp he with hmem | hmem
    · exact hl e hmem
    · rwa [List.mem_singleton.mp hmem]

lemma read_lt {s : List α} (h : ∀ c ∈ s, A.IsDigit c) : A.read s < b ^ s.length := by
  obtain ⟨l, hl, rfl⟩ := A.exists_digits h
  rw [A.read_digits hl, List.length_map, List.length_reverse]
  exact Nat.ofDigits_lt_base_pow_length A.one_lt hl

lemma eq_of_read_eq {s t : List α} (hs : ∀ c ∈ s, A.IsDigit c) (ht : ∀ c ∈ t, A.IsDigit c)
    (hlen : s.length = t.length) (h : A.read s = A.read t) : s = t := by
  obtain ⟨l, hl, rfl⟩ := A.exists_digits hs
  obtain ⟨m, hm, rfl⟩ := A.exists_digits ht
  rw [A.read_digits hl, A.read_digits hm] at h
  simp only [List.length_map, List.length_reverse] at hlen
  rw [Nat.ofDigits_inj_of_len_eq A.one_lt hlen hl hm h]

lemma padded_succ {k d n : ℕ} (hk : 0 < k) (hd : d < b) (hn : n < b ^ k) :
    A.padded (k + 1) (d * b ^ k + n) = A.digit d :: A.padded k n := by
  have hlt : d * b ^ k + n < b ^ (k + 1) := by
    have hle : (d + 1) * b ^ k ≤ b * b ^ k := Nat.mul_le_mul_right _ hd
    rw [pow_succ']
    rw [Nat.add_mul, Nat.one_mul] at hle
    omega
  refine A.eq_of_read_eq A.isDigit_padded (fun c hc => ?_) ?_ ?_
  · rcases List.mem_cons.mp hc with rfl | hmem
    · exact ⟨d, hd, rfl⟩
    · exact A.isDigit_padded c hmem
  · rw [List.length_cons, A.length_padded hk hn, A.length_padded k.succ_pos hlt]
  · rw [A.read_cons, A.length_padded hk hn, A.value_digit d hd, A.read_padded, A.read_padded]

lemma padded_read {s : List α} (hs : ∀ c ∈ s, A.IsDigit c) (hne : s ≠ []) :
    A.padded s.length (A.read s) = s :=
  A.eq_of_read_eq A.isDigit_padded hs
    (A.length_padded (List.length_pos_iff.mpr hne) (A.read_lt hs)) (A.read_padded _ _)

/-! ### Writing from the last digit on -/

lemma numeral_of_lt {n : ℕ} (h : n < b) : A.numeral n = [A.digit n] := by
  unfold numeral
  split_ifs with hn
  · simp [hn]
  · simp [Nat.digits_of_lt b n hn h]

lemma numeral_of_le {n : ℕ} (h : b ≤ n) :
    A.numeral n = A.numeral (n / b) ++ [A.digit (n % b)] := by
  have hb := A.one_lt
  have hn : n ≠ 0 := by omega
  have hdiv : n / b ≠ 0 := Nat.div_ne_zero_iff.mpr ⟨by omega, h⟩
  rw [numeral, numeral, if_neg hn, if_neg hdiv, Nat.digits_def' hb (by omega)]
  simp

end Alphabet

end Hoststack
