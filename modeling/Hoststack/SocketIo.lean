import Mathlib.Data.List.Infix
import Mathlib.Tactic.SplitIfs

/-!
Writing a whole buffer to a descriptor that may take it piece by piece.

What the calls of `write` return is given as a list; a process whose next call has no result
is blocked in it.
-/

namespace Hoststack.SocketIo

abbrev Bytes := List UInt8

/-- The value of `errno` after a call was interrupted. -/
def eintr : ℤ := 4

/-- What a call of `write` returns: it takes one byte and up to `more` others, none, or fails. -/
inductive WriteResult where
  | wrote (more : ℕ)
  | zero
  | error (errno : ℤ)
  deriving DecidableEq

/-- What `rio_writen` returns, the bytes it got written, `errno`, and the results not used. -/
structure Written where
  ret : ℤ
  bytes : Bytes
  errno : ℤ
  rest : List WriteResult

/-- The loop of `rio_writen`, on the bytes that are left of `n`; a result of zero leaves `errno`
as it was. -/
def rioLoop (n : ℕ) : Bytes → ℤ → List WriteResult → Option Written
  | [], errno, results => some ⟨n, [], errno, results⟩
  | _ :: _, _, [] => none
  | b :: buf, errno, .wrote more :: results =>
    (rioLoop n (buf.drop more) errno results).map fun w =>
      { w with bytes := b :: buf.take more ++ w.bytes }
  | b :: buf, errno, .zero :: results =>
    if errno = eintr then rioLoop n (b :: buf) errno results
    else some ⟨-1, [], errno, results⟩
  | b :: buf, _, .error e :: results =>
    if e = eintr then rioLoop n (b :: buf) e results else some ⟨-1, [], e, results⟩

def rioWriten (buf : Bytes) (errno : ℤ) (results : List WriteResult) : Option Written :=
  rioLoop buf.length buf errno results

/-! ### What gets written -/

def WriteResult.isWrote : WriteResult → Bool
  | .wrote _ => true
  | _ => false

/-- The call has failed, and not because it was interrupted. -/
def WriteResult.fails : WriteResult → Bool
  | .wrote _ => false
  | .zero => true
  | .error e => e ≠ eintr

/-- Once a call has failed, no later one writes anything. -/
def FailsForGood (results : List WriteResult) : Prop :=
  results.Pairwise fun r r' => r.fails → r'.isWrote = false

/-- Nothing will be written any more. -/
def Broken (results : List WriteResult) : Prop := ∀ r ∈ results, r.isWrote = false

variable {n : ℕ} {buf : Bytes} {errno : ℤ} {results : List WriteResult} {w : Written}

/-- What a run of the loop has written: all and `n` is returned, or a prefix and a call has
failed. -/
structure Spec (n : ℕ) (buf : Bytes) (results : List WriteResult) (w : Written) : Prop where
  suffix : w.rest <:+ results
  written : w.bytes <+: buf
  outcome : (w.ret = n ∧ w.bytes = buf) ∨
    (w.ret = -1 ∧ ∃ l r, results = l ++ r :: w.rest ∧ r.fails = true)

lemma Spec.cons (h : Spec n buf results w) (r : WriteResult) : Spec n buf (r :: results) w := by
  refine ⟨h.suffix.trans (List.suffix_cons r results), h.written, h.outcome.imp id ?_⟩
  rintro ⟨hret, l, r', rfl, hr'⟩
  exact ⟨hret, r :: l, r', rfl, hr'⟩

lemma rioLoop_spec (h : rioLoop n buf errno results = some w) : Spec n buf results w := by
  induction results generalizing buf errno w with
  | nil =>
    rcases buf with _ | ⟨b, buf⟩
    · cases h
      exact ⟨List.suffix_rfl, List.prefix_rfl, Or.inl ⟨rfl, rfl⟩⟩
    · cases h
  | cons r results ih =>
    rcases buf with _ | ⟨b, buf⟩
    · cases h
      exact ⟨List.suffix_rfl, List.prefix_rfl, Or.inl ⟨rfl, rfl⟩⟩
    · cases r with
      | wrote more =>
        obtain ⟨w', hw', rfl⟩ := Option.map_eq_some_iff.mp h
        obtain ⟨hs, hp, ho⟩ := (ih hw').cons (.wrote more)
        have hsplit : b :: buf = b :: buf.take more ++ buf.drop more := by
          simp [List.take_append_drop]
        refine ⟨hs, ?_, ho.imp (fun hall => ⟨hall.1, ?_⟩) id⟩
        · rw [hsplit]
          exact List.prefix_append_right_inj _ |>.mpr hp
        · rw [hall.2]; exact hsplit.symm
      | zero =>
        unfold rioLoop at h
        split_ifs at h with he
        · exact (ih h).cons _
        · cases h
          exact ⟨List.suffix_cons _ _, List.nil_prefix, Or.inr ⟨rfl, [], .zero, rfl, rfl⟩⟩
      | error e =>
        unfold rioLoop at h
        split_ifs at h with he
        · exact (ih h).cons _
        · cases h
          exact ⟨List.suffix_cons _ _, List.nil_prefix,
            Or.inr ⟨rfl, [], .error e, rfl, by simp [WriteResult.fails, he]⟩⟩

/-- **rio_writen** writes the buffer and returns its length, or a prefix of it and returns
minus one, and then a call of `write` has failed. -/
theorem rioWriten_spec (h : rioWriten buf errno results = some w) :
    Spec buf.length buf results w :=
  rioLoop_spec h

lemma rioLoop_broken (hb : Broken results) (h : rioLoop n buf errno results = some w) :
    w.bytes = [] := by
  induction results generalizing buf errno w with
  | nil => rcases buf with _ | ⟨b, buf⟩ <;> cases h; rfl
  | cons r results ih =>
    have hrest : Broken results := fun x hx => hb x (List.mem_cons_of_mem _ hx)
    rcases buf with _ | ⟨b, buf⟩
    · cases h; rfl
    · cases r with
      | wrote more => exact absurd (hb (.wrote more) (by simp)) (by simp [WriteResult.isWrote])
      | zero =>
        unfold rioLoop at h
        split_ifs at h
        · exact ih hrest h
        · cases h; rfl
      | error e =>
        unfold rioLoop at h
        split_ifs at h
        · exact ih hrest h
        · cases h; rfl

lemma FailsForGood.of_suffix {l : List WriteResult} (h : FailsForGood results)
    (hs : l <:+ results) : FailsForGood l :=
  List.Pairwise.sublist hs.sublist h

lemma FailsForGood.broken {l : List WriteResult} {r : WriteResult} {rest : List WriteResult}
    (h : FailsForGood (l ++ r :: rest)) (hr : r.fails = true) : Broken rest := by
  have hpair := (List.pairwise_append.mp h).2.1
  exact fun x hx => List.rel_of_pairwise_cons hpair hx hr

end Hoststack.SocketIo
