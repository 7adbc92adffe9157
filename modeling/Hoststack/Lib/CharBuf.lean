import Mathlib.Algebra.Group.Int.Defs
import Mathlib.Algebra.Group.Nat.Defs
import Mathlib.Data.Int.Order.Basic
import Mathlib.Data.List.Basic
import Mathlib.Tactic.SplitIfs

/-!
Arrays of characters of a fixed capacity that are filled by appends.

A bounded append is given a size, writes at most one character less and closes the string. The
sizes are computed as signed numbers and passed as unsigned ones of 64 bits.
-/

namespace Hoststack

/-- A size as it is computed, and the room there is at the place it is passed for. -/
structure SizeArg where
  exact : ℤ
  room : ℕ

namespace SizeArg

/-- The size as it is passed. -/
def passed (a : SizeArg) : ℕ := (a.exact % 2 ^ 64).toNat

/-- The computation does not underflow, and the size is at least one and no larger than the
room. -/
structure Sound (a : SizeArg) : Prop where
  exact : 0 ≤ a.exact
  pos : 1 ≤ a.passed
  room : a.passed ≤ a.room

lemma passed_eq {a : SizeArg} (h0 : 0 ≤ a.exact) (h : a.exact < 2 ^ 64) :
    a.passed = a.exact.toNat := by
  unfold passed
  rw [Int.emod_eq_of_lt h0 h]

end SizeArg

/-- The string in an array of a capacity, and the sizes passed so far. -/
structure CharBuf where
  cap : ℕ
  text : List Char
  sizes : List SizeArg

namespace CharBuf

variable {b : CharBuf} {s : List Char} {n : ℕ}

def empty (cap : ℕ) : CharBuf := ⟨cap, [], []⟩

/-- A bounded append with a size. -/
def append (b : CharBuf) (size : ℤ) (s : List Char) : CharBuf :=
  let a : SizeArg := ⟨size, b.cap - b.text.length⟩
  { b with text := b.text ++ s.take (a.passed - 1), sizes := b.sizes ++ [a] }

/-- An append without a bound. -/
def strcat (b : CharBuf) (s : List Char) : CharBuf := { b with text := b.text ++ s }

/-- The size that leaves one byte besides the one for the end of the string. -/
def left (b : CharBuf) : ℤ := b.cap - b.text.length - 1

/-- The string and its end are in the array, and all sizes were right. -/
structure Fits (b : CharBuf) : Prop where
  sizes : ∀ a ∈ b.sizes, a.Sound
  text : b.text.length + 1 ≤ b.cap

/-- What has been appended has `n` characters, of which those are there that leave two bytes. -/
structure Filled (b : CharBuf) (n : ℕ) : Prop where
  cap : 2 ≤ b.cap ∧ b.cap < 2 ^ 64
  sizes : ∀ a ∈ b.sizes, a.Sound
  text : b.text.length = min n (b.cap - 2)

lemma sound_append (hsizes : ∀ a ∈ b.sizes, a.Sound) {size : ℤ} (hpos : 1 ≤ size)
    (hroom : size ≤ b.cap - b.text.length) (hcap : b.cap < 2 ^ 64) :
    ∀ a ∈ (b.append size s).sizes, a.Sound := by
  refine List.forall_mem_append.mpr ⟨hsizes, List.forall_mem_singleton.mpr ?_⟩
  have hpassed : (SizeArg.mk size (b.cap - b.text.length)).passed = size.toNat :=
    SizeArg.passed_eq (show 0 ≤ size by omega) (show size < 2 ^ 64 by omega)
  refine ⟨show 0 ≤ size by omega, ?_, ?_⟩
  · rw [hpassed]
    omega
  · rw [hpassed]
    change size.toNat ≤ b.cap - b.text.length
    omega

/-- One append of what is left keeps all sizes right and leaves two bytes. -/
lemma Filled.append (h : Filled b n) (s : List Char) :
    Filled (b.append b.left s) (n + s.length) := by
  obtain ⟨⟨hlow, hhigh⟩, hsizes, htext⟩ := h
  have hleft : b.left = b.cap - b.text.length - 1 := rfl
  refine ⟨⟨hlow, hhigh⟩, sound_append hsizes ?_ ?_ hhigh, ?_⟩
  · omega
  · omega
  · have hpassed : (SizeArg.mk b.left (b.cap - b.text.length)).passed = b.left.toNat :=
      SizeArg.passed_eq (show 0 ≤ b.left by omega) (show b.left < 2 ^ 64 by omega)
    change (b.text ++ s.take ((SizeArg.mk b.left (b.cap - b.text.length)).passed - 1)).length =
      min (n + s.length) (b.cap - 2)
    rw [hpassed, List.length_append, List.length_take]
    omega

lemma filled_first {cap : ℕ} {size : ℤ} (hcap : 2 ≤ cap ∧ cap < 2 ^ 64)
    (hlow : s.length < size) (hhigh : size < cap) :
    Filled ((empty cap).append size s) s.length := by
  have hpassed : (SizeArg.mk size cap).passed = size.toNat :=
    SizeArg.passed_eq (show 0 ≤ size by omega) (show size < 2 ^ 64 by omega)
  refine ⟨hcap, sound_append (fun a ha => by cases ha) (by omega) ?_ hcap.2, ?_⟩
  · simp only [empty, List.length_nil]
    omega
  · change ([] ++ s.take ((SizeArg.mk size cap).passed - 1)).length = min s.length (cap - 2)
    rw [hpassed, List.nil_append, List.length_take]
    omega

lemma Filled.fits_strcat_iff (h : Filled b n) (s : List Char) :
    (b.strcat s).Fits ↔ min n (b.cap - 2) + s.length + 1 ≤ b.cap := by
  obtain ⟨-, hsizes, htext⟩ := h
  have hlen : (b.strcat s).text.length = min n (b.cap - 2) + s.length := by
    rw [← htext]
    exact List.length_append
  constructor
  · intro hfits
    have hle : (b.strcat s).text.length + 1 ≤ b.cap := hfits.text
    omega
  · intro hle
    exact ⟨hsizes, show (b.strcat s).text.length + 1 ≤ b.cap by omega⟩

end CharBuf

end Hoststack
