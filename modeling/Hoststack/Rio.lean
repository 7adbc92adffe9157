import Hoststack.SocketIo
import Hoststack.Lib.Source
import Mathlib.Algebra.Order.Ring.Int
import Mathlib.Data.List.Forall2

/-!
Reading from a descriptor, with a buffer of its own and without.

What comes in at a descriptor arrives in pieces, and calls of `read` may be interrupted. The
readers hide both: whatever is asked for in whatever order, the answers are those of the plain
stream of bytes.
-/

namespace Hoststack.Rio

open SocketIo Source

/-- What comes in at a descriptor: a byte with `more` in one piece, an end of file, or a failure. -/
inductive Arrival where
  | bytes (b : UInt8) (more : Bytes)
  | eof
  | error (errno : ℤ)
  deriving DecidableEq

/-- What a call of `read` leaves of a piece that is longer than what is asked for. -/
def leave : Bytes → List Arrival → List Arrival
  | [], rest => rest
  | b :: more, rest => .bytes b more :: rest

/-! ### The functions -/

/-- What a reader returns, the bytes it has stored, `errno`, and what is still to come. -/
structure Got where
  ret : ℤ
  bytes : Bytes
  errno : ℤ
  coming : List Arrival

/-- The loop of `rio_readn`, with `nleft` bytes to go. -/
def rioReadnLoop (n : ℕ) : ℕ → ℤ → List Arrival → Option Got
  | 0, errno, coming => some ⟨n, [], errno, coming⟩
  | _ + 1, _, [] => none
  | nleft + 1, errno, .bytes b more :: rest =>
    -- where a piece is longer than what is asked for, the loop has all it wants
    if nleft < more.length then some ⟨n, b :: more.take nleft, errno, leave (more.drop nleft) rest⟩
    else (rioReadnLoop n (nleft - more.length) errno rest).map fun g =>
      { g with bytes := b :: more ++ g.bytes }
  | nleft + 1, errno, .eof :: rest => some ⟨(n : ℤ) - (nleft + 1 : ℕ), [], errno, rest⟩
  | nleft + 1, _, .error e :: rest =>
    if e = eintr then rioReadnLoop n (nleft + 1) e rest else some ⟨-1, [], e, rest⟩

def rioReadn (n : ℕ) (errno : ℤ) (coming : List Arrival) : Option Got :=
  rioReadnLoop n n errno coming

/-- `RIO_BUFSIZE` -/
def rioBufsize : ℕ := 8192

/-- `rio_t`, of which the internal buffer is what the last call of `read` has put there. -/
structure RioT where
  rioCnt : ℤ
  rioBufptr : ℕ
  rioBuf : Bytes

def rioReadinitb : RioT := ⟨0, 0, []⟩

/-- A descriptor with its read buffer. -/
structure Reader where
  rp : RioT
  errno : ℤ
  coming : List Arrival

/-- The end of `rio_read`, which copies from the internal buffer. -/
def RioT.copy (rp : RioT) (n : ℕ) : ℤ × Bytes × RioT :=
  let cnt : ℤ := if rp.rioCnt < n then rp.rioCnt else n
  (cnt, (rp.rioBuf.drop rp.rioBufptr).take cnt.toNat,
    { rp with rioBufptr := rp.rioBufptr + cnt.toNat, rioCnt := rp.rioCnt - cnt })

/-- The loop of `rio_read`, which refills the internal buffer where it is empty. -/
def rioReadLoop (n : ℕ) : List Arrival → RioT → ℤ → Option (ℤ × Bytes × Reader)
  | [], rp, errno =>
    if 0 < rp.rioCnt then
      let (cnt, bytes, rp) := rp.copy n
      some (cnt, bytes, ⟨rp, errno, []⟩)
    else none
  | a :: rest, rp, errno =>
    if 0 < rp.rioCnt then
      let (cnt, bytes, rp) := rp.copy n
      some (cnt, bytes, ⟨rp, errno, a :: rest⟩)
    else
      match a with
      | .bytes b more =>
        let buf := b :: more.take (rioBufsize - 1)
        let (cnt, bytes, rp) := RioT.copy ⟨buf.length, 0, buf⟩ n
        some (cnt, bytes, ⟨rp, errno, leave (more.drop (rioBufsize - 1)) rest⟩)
      | .eof => some (0, [], ⟨{ rp with rioCnt := 0 }, errno, rest⟩)
      | .error e =>
        if e ≠ eintr then some (-1, [], ⟨{ rp with rioCnt := -1 }, e, rest⟩)
        else rioReadLoop n rest { rp with rioCnt := -1 } e

def rioRead (n : ℕ) (r : Reader) : Option (ℤ × Bytes × Reader) :=
  rioReadLoop n r.coming r.rp r.errno

/-- The loop of `rio_readnb`, with `nleft` bytes to go. -/
def rioReadnbLoop (n nleft : ℕ) (r : Reader) : Option (ℤ × Bytes × Reader) :=
  if nleft = 0 then some (n, [], r)
  else
    match rioRead nleft r with
    | none => none
    | some (nread, bytes, r) =>
      if nread < 0 then some (-1, [], r)
      else if nread = 0 then some ((n : ℤ) - nleft, [], r)
      else (rioReadnbLoop n (nleft - nread.toNat) r).map fun (ret, bytes', r) =>
        (ret, bytes ++ bytes', r)
termination_by nleft

def rioReadnb (n : ℕ) (r : Reader) : Option (ℤ × Bytes × Reader) := rioReadnbLoop n n r

def newline : UInt8 := 10

/-- What `rio_readlineb` returns, the bytes it has stored, and whether a terminator is stored
behind them. -/
structure Line where
  ret : ℤ
  bytes : Bytes
  terminated : Bool

/-- The loop of `rio_readlineb` at `n`, with the calls that are left for `maxlen`. Counting beyond
what an `int` holds leaves the result undefined. -/
def rioReadlinebLoop : ℕ → ℕ → Reader → Option (Line × Reader)
  | 0, n, r => some (⟨(n : ℤ) - 1, [], true⟩, r)
  | left + 1, n, r =>
    match rioRead 1 r with
    | none => none
    | some (rc, c, r) =>
      if rc = 1 then
        if n + 1 = 2 ^ 31 then none
        else if c = [newline] then some (⟨(n : ℤ) + 1 - 1, c, true⟩, r)
        else (rioReadlinebLoop left (n + 1) r).map fun (l, r) =>
          ({ l with bytes := c ++ l.bytes }, r)
      else if rc = 0 then
        if n = 1 then some (⟨0, [], false⟩, r) else some (⟨(n : ℤ) - 1, [], true⟩, r)
      else some (⟨-1, [], false⟩, r)

def rioReadlineb (maxlen : ℕ) (r : Reader) : Option (Line × Reader) :=
  rioReadlinebLoop (maxlen - 1) 1 r

/-! ### The stream of bytes -/

/-- What comes in, byte by byte; an interruption is nothing. -/
def signs : List Arrival → List (Sign UInt8 ℤ)
  | [] => []
  | .bytes b more :: rest => .item b :: (more.map .item ++ signs rest)
  | .eof :: rest => .stop :: signs rest
  | .error e :: rest => if e = eintr then signs rest else .fail e :: signs rest

@[simp] lemma signs_leave (bytes : Bytes) (rest : List Arrival) :
    signs (leave bytes rest) = bytes.map .item ++ signs rest := by
  cases bytes <;> rfl

/-- What a reader returns that has `done` bytes already, for what it takes then. -/
def count (done : ℕ) (t : Taken UInt8 ℤ) : ℤ :=
  match t.ending with
  | .fail _ => -1
  | _ => done + t.items.length

/-- `errno` tells why the taking failed, if it did. -/
def Tells (errno : ℤ) (t : Taken UInt8 ℤ) : Prop := ∀ e, t.ending = .fail e → errno = e

/-- No byte is the last one that is wanted. -/
def anyByte : UInt8 → Bool := fun _ => false

variable {n nleft done : ℕ} {errno : ℤ} {coming : List Arrival} {rp : RioT} {r r' : Reader}
  {bytes : Bytes} {t : Taken UInt8 ℤ}

@[simp] lemma count_prepend (done : ℕ) (bytes : Bytes) (t : Taken UInt8 ℤ) :
    count done (t.prepend bytes) = count (done + bytes.length) t := by
  obtain ⟨items, ending, rest⟩ := t
  cases ending <;> simp [count, Taken.prepend, Int.add_assoc]

@[simp] lemma tells_prepend : Tells errno (t.prepend bytes) ↔ Tells errno t := Iff.rfl

lemma take_anyByte (bytes : Bytes) (hn : bytes.length ≤ n) (s : List (Sign UInt8 ℤ)) :
    take anyByte n (bytes.map .item ++ s) =
      (take anyByte (n - bytes.length) s).map (.prepend bytes) :=
  take_append (fun _ _ => rfl) hn s

/-- What `rio_readn` does for what there is to take. -/
def ReadsN (done : ℕ) : Option (Taken UInt8 ℤ) → Option Got → Prop
  | none, g => g = none
  | some t, g => ∃ g', g = some g' ∧ g'.bytes = t.items ∧ g'.ret = count done t ∧
      signs g'.coming = t.rest ∧ Tells g'.errno t

lemma rioReadnLoop_spec (n : ℕ) (hle : nleft ≤ n) (errno : ℤ) (coming : List Arrival) :
    ReadsN (n - nleft) (take anyByte nleft (signs coming)) (rioReadnLoop n nleft errno coming) := by
  induction coming generalizing nleft errno with
  | nil =>
    rcases nleft with _ | nleft
    · exact ⟨_, rfl, rfl, by simp [count], rfl, by simp [Tells]⟩
    · rfl
  | cons a rest ih =>
    rcases nleft with _ | nleft
    · exact ⟨_, rfl, rfl, by simp [count], rfl, by simp [Tells]⟩
    cases a with
    | bytes b more =>
      unfold rioReadnLoop
      split_ifs with hlt
      · have hsplit : signs (.bytes b more :: rest) =
            (b :: more.take nleft).map .item ++ ((more.drop nleft).map .item ++ signs rest) := by
          simp only [signs, List.map_cons, List.cons_append, ← List.append_assoc, ← List.map_append,
            List.take_append_drop]
        have hlen : (b :: more.take nleft).length = nleft + 1 := by
          rw [List.length_cons, List.length_take]
          omega
        rw [hsplit, take_anyByte _ hlen.le, hlen, Nat.sub_self, take_zero]
        refine ⟨_, rfl, by simp [Taken.prepend], ?_, by simp [Taken.prepend],
          by simp [Tells, Taken.prepend]⟩
        simp [count, Taken.prepend]
        omega
      · have hsplit : signs (.bytes b more :: rest) = (b :: more).map .item ++ signs rest := rfl
        have hlen : (b :: more).length ≤ nleft + 1 := by
          rw [List.length_cons]
          omega
        rw [hsplit, take_anyByte _ hlen]
        have hless : nleft - more.length ≤ n := by omega
        have hrest := ih hless errno
        have hleft : nleft + 1 - (b :: more).length = nleft - more.length := by simp
        rw [hleft]
        rcases htake : take anyByte (nleft - more.length) (signs rest) with _ | t
        · rw [htake] at hrest
          rw [show rioReadnLoop n (nleft - more.length) errno rest = none from hrest]
          rfl
        · rw [htake] at hrest
          obtain ⟨g, hg, hbytes, hret, hcoming, htells⟩ := hrest
          rw [hg]
          refine ⟨_, rfl, by simp [Taken.prepend, hbytes], ?_, hcoming, htells⟩
          rw [count_prepend, hret]
          congr 1
          simp
          omega
    | eof =>
      refine ⟨_, rfl, rfl, ?_, rfl, by simp [Tells]⟩
      simp [count]
      omega
    | error e =>
      unfold rioReadnLoop signs
      split_ifs with he
      · exact ih hle e
      · exact ⟨_, rfl, rfl, rfl, rfl, by simp [Tells]⟩

/-! ### The internal buffer -/

/-- The bytes of the internal buffer that nobody has got yet. -/
def RioT.unread (rp : RioT) : Bytes := (rp.rioBuf.drop rp.rioBufptr).take rp.rioCnt.toNat

/-- What is still to be got from a descriptor: what is unread, and what comes in. -/
def Reader.pending (r : Reader) : List (Sign UInt8 ℤ) := r.rp.unread.map .item ++ signs r.coming

/-- The unread bytes lie in what has been read, and that in the internal buffer. -/
structure RioT.InBounds (rp : RioT) : Prop where
  unread : rp.rioBufptr + rp.rioCnt.toNat ≤ rp.rioBuf.length
  size : rp.rioBuf.length ≤ rioBufsize

lemma unread_of_nonpos (h : ¬ 0 < rp.rioCnt) : rp.unread = [] := by
  have hzero : rp.rioCnt.toNat = 0 := by omega
  simp [RioT.unread, hzero]

lemma copy_spec (h : rp.InBounds) (hpos : 0 < rp.rioCnt) (hn : 0 < n) :
    ∃ bytes rp', rp.copy n = (bytes.length, bytes, rp') ∧ bytes ≠ [] ∧ bytes.length ≤ n ∧
      rp.unread = bytes ++ rp'.unread ∧ rp'.InBounds := by
  obtain ⟨k, hk, hkpos, hkn, hkcnt⟩ : ∃ k : ℕ, (if rp.rioCnt < n then rp.rioCnt else (n : ℤ)) = k ∧
      0 < k ∧ k ≤ n ∧ k ≤ rp.rioCnt.toNat := by
    split_ifs with hlt
    · exact ⟨rp.rioCnt.toNat, by omega, by omega, by omega, le_refl _⟩
    · exact ⟨n, rfl, hn, le_refl _, by omega⟩
  have hbound := h.unread
  have hlen : ((rp.rioBuf.drop rp.rioBufptr).take k).length = k := by simp; omega
  refine ⟨(rp.rioBuf.drop rp.rioBufptr).take k,
    { rp with rioBufptr := rp.rioBufptr + k, rioCnt := rp.rioCnt - k }, ?_, ?_, ?_, ?_, ?_, h.size⟩
  · simp only [RioT.copy, hk, Int.toNat_natCast, hlen]
  · exact List.ne_nil_of_length_pos (by omega)
  · omega
  · have hcnt : rp.rioCnt.toNat = k + (rp.rioCnt - k).toNat := by omega
    simp only [RioT.unread]
    conv_lhs => rw [hcnt, List.take_add, List.drop_drop]
  · change rp.rioBufptr + k + (rp.rioCnt - k).toNat ≤ rp.rioBuf.length
    omega

/-- What `rio_read` may do: wait, copy some bytes, find the end of the file, or fail. -/
inductive Fetched (n : ℕ) (pending : List (Sign UInt8 ℤ)) : Option (ℤ × Bytes × Reader) → Prop
  | waits (h : pending = []) : Fetched n pending none
  | got {bytes : Bytes} {r' : Reader} (hne : bytes ≠ []) (hlen : bytes.length ≤ n)
      (h : pending = bytes.map .item ++ r'.pending) (hin : r'.rp.InBounds) :
      Fetched n pending (some (bytes.length, bytes, r'))
  | eof {r' : Reader} (h : pending = .stop :: r'.pending) (hin : r'.rp.InBounds) :
      Fetched n pending (some (0, [], r'))
  | fails {r' : Reader} (h : pending = .fail r'.errno :: r'.pending) (hin : r'.rp.InBounds) :
      Fetched n pending (some (-1, [], r'))

lemma fetched_copy (h : rp.InBounds) (hpos : 0 < rp.rioCnt) (hn : 0 < n) (errno : ℤ)
    (coming : List Arrival) :
    Fetched n (rp.unread.map .item ++ signs coming)
      (some ((rp.copy n).1, (rp.copy n).2.1, ⟨(rp.copy n).2.2, errno, coming⟩)) := by
  obtain ⟨bytes, rp', hcopy, hne, hlen, hunread, hin⟩ := copy_spec h hpos hn
  rw [hcopy]
  refine .got hne hlen ?_ hin
  rw [hunread, List.map_append, List.append_assoc]
  rfl

lemma inBounds_filled (b : UInt8) (more : Bytes) :
    RioT.InBounds
      ⟨(b :: more.take (rioBufsize - 1)).length, 0, b :: more.take (rioBufsize - 1)⟩ := by
  refine ⟨by simp, ?_⟩
  simp only [List.length_cons, List.length_take, rioBufsize]
  omega

lemma rioReadLoop_spec (h : rp.InBounds) (hn : 0 < n) (errno : ℤ) (coming : List Arrival) :
    Fetched n (rp.unread.map .item ++ signs coming) (rioReadLoop n coming rp errno) := by
  induction coming generalizing rp errno with
  | nil =>
    unfold rioReadLoop
    split_ifs with hpos
    · exact fetched_copy h hpos hn errno []
    · exact .waits (by simp [unread_of_nonpos hpos, signs])
  | cons a rest ih =>
    unfold rioReadLoop
    split_ifs with hpos
    · exact fetched_copy h hpos hn errno (a :: rest)
    rw [unread_of_nonpos hpos, List.map_nil, List.nil_append]
    have hptr := h.unread
    cases a with
    | bytes b more =>
      have hfetched := fetched_copy (inBounds_filled b more) (by simp) hn errno
        (leave (more.drop (rioBufsize - 1)) rest)
      have hsigns : signs (.bytes b more :: rest) =
          (RioT.unread ⟨(b :: more.take (rioBufsize - 1)).length, 0,
            b :: more.take (rioBufsize - 1)⟩).map .item ++
            signs (leave (more.drop (rioBufsize - 1)) rest) := by
        simp only [RioT.unread, List.drop_zero, Int.toNat_natCast, List.take_length, signs_leave,
          ← List.append_assoc, ← List.map_append, List.cons_append, List.take_append_drop]
        rfl
      rw [hsigns]
      exact hfetched
    | eof => exact .eof (by simp [Reader.pending, RioT.unread, signs]) ⟨by simp; omega, h.size⟩
    | error e =>
      have hin : RioT.InBounds { rp with rioCnt := -1 } := ⟨by simp; omega, h.size⟩
      unfold signs
      by_cases he : e = eintr
      · rw [if_pos he]
        simpa [he, RioT.unread] using ih hin e
      · rw [if_neg he]
        simp only [ne_eq, he, not_false_eq_true, if_true]
        exact .fails (by simp [Reader.pending, RioT.unread]) hin

lemma rioRead_spec (h : r.rp.InBounds) (hn : 0 < n) : Fetched n r.pending (rioRead n r) :=
  rioReadLoop_spec h hn r.errno r.coming

/-! ### Any sequence of calls -/

/-- What a reader with a buffer does for what there is to take; it gives `f` of it. -/
def Gives {β : Type} (f : Taken UInt8 ℤ → β) : Option (Taken UInt8 ℤ) → Option (β × Reader) → Prop
  | none, out => out = none
  | some t, out =>
    ∃ r', out = some (f t, r') ∧ r'.pending = t.rest ∧ r'.rp.InBounds ∧ Tells r'.errno t

lemma rioReadnbLoop_spec (h : r.rp.InBounds) (hle : nleft ≤ n) :
    Gives (fun t => (count (n - nleft) t, t.items)) (take anyByte nleft r.pending)
      ((rioReadnbLoop n nleft r).map fun (ret, bytes, r) => ((ret, bytes), r)) := by
  induction nleft using Nat.strong_induction_on generalizing r with
  | _ nleft ih =>
    rw [rioReadnbLoop]
    split_ifs with hzero
    · subst hzero
      rw [take_zero]
      exact ⟨r, by simp [count], rfl, h, by simp [Tells]⟩
    obtain ⟨k, rfl⟩ := Nat.exists_eq_add_one_of_ne_zero hzero
    have hfetched := rioRead_spec h (Nat.succ_pos k)
    rcases hout : rioRead (k + 1) r with _ | ⟨ret, bytes, r'⟩
    · rw [hout] at hfetched
      cases hfetched with
      | waits hpending =>
        rw [hpending]
        rfl
    · rw [hout] at hfetched
      cases hfetched with
      | got hne hlen hpending hin =>
        have hpos : 0 < bytes.length := List.length_pos_of_ne_nil hne
        rw [hpending, take_anyByte bytes hlen]
        have hrest := ih (k + 1 - bytes.length) (by omega) hin (by omega)
        dsimp only
        rw [if_neg (by omega), if_neg (by omega), Int.toNat_natCast]
        rcases htake : take anyByte (k + 1 - bytes.length) r'.pending with _ | t
        · rw [htake] at hrest
          rw [Option.map_eq_none_iff.mp hrest]
          rfl
        · rw [htake] at hrest
          obtain ⟨r'', hloop, hpending', hin', htells⟩ := hrest
          obtain ⟨⟨ret', bytes', r₀⟩, hloop, heq⟩ := Option.map_eq_some_iff.mp hloop
          cases heq
          rw [hloop]
          refine ⟨r'', ?_, hpending', hin', htells⟩
          have hdone : n - (k + 1 - bytes.length) = n - (k + 1) + bytes.length := by omega
          rw [hdone, ← count_prepend]
          rfl
      | eof hpending hin =>
        rw [hpending]
        refine ⟨r', ?_, rfl, hin, by simp [Tells]⟩
        simp [count]
        omega
      | fails hpending hin =>
        rw [hpending]
        exact ⟨r', by simp [count], rfl, hin, by simp [Tells]⟩

/-- A byte that ends a line. -/
def endsLine (b : UInt8) : Bool := b = newline

/-- What `rio_readlineb` returns and stores, with `done` bytes already there, for what it takes. -/
def line (done : ℕ) (t : Taken UInt8 ℤ) : Line :=
  match t.ending with
  | .full => ⟨done + t.items.length, t.items, true⟩
  | .stop =>
    if done + t.items.length = 0 then ⟨0, [], false⟩
    else ⟨done + t.items.length, t.items, true⟩
  | .fail _ => ⟨-1, t.items, false⟩

lemma line_prepend (done : ℕ) (b : UInt8) (t : Taken UInt8 ℤ) :
    line done (t.prepend [b]) =
      { line (done + 1) t with bytes := b :: (line (done + 1) t).bytes } := by
  obtain ⟨items, ending, rest⟩ := t
  cases ending with
  | full => simp [line, Taken.prepend]; omega
  | stop => simp [line, Taken.prepend]; omega
  | fail e => rfl

/-- The loop of rio_readlineb takes bytes up to the end of a line, or counts too far. -/
lemma rioReadlinebLoop_cases (h : r.rp.InBounds) (left done : ℕ) :
    Gives (line done) (take endsLine left r.pending) (rioReadlinebLoop left (done + 1) r) ∨
      (2 ^ 31 ≤ done + 1 + left ∧ rioReadlinebLoop left (done + 1) r = none) := by
  induction left generalizing r done with
  | zero =>
    rw [take_zero]
    exact Or.inl ⟨r, by simp [rioReadlinebLoop, line], rfl, h, by simp [Tells]⟩
  | succ left ih =>
    unfold rioReadlinebLoop
    have hfetched := rioRead_spec h Nat.one_pos
    rcases hout : rioRead 1 r with _ | ⟨ret, c, r'⟩
    · rw [hout] at hfetched
      cases hfetched with
      | waits hpending =>
        rw [hpending]
        exact Or.inl rfl
    · rw [hout] at hfetched
      cases hfetched with
      | got hne hlen hpending hin =>
        obtain ⟨b, rfl⟩ : ∃ b, c = [b] := by
          rcases c with _ | ⟨b, _ | ⟨b', c⟩⟩
          · exact absurd rfl hne
          · exact ⟨b, rfl⟩
          · simp at hlen
        rw [hpending]
        simp only [List.length_singleton, show ((1 : ℕ) : ℤ) = 1 from rfl, if_true, List.map_cons,
          List.map_nil, List.cons_append, List.nil_append, take, List.cons.injEq, and_true]
        by_cases hcount : done + 1 + 1 = 2 ^ 31
        · rw [if_pos hcount]
          exact Or.inr ⟨by omega, rfl⟩
        rw [if_neg hcount]
        by_cases hb : b = newline
        · rw [if_pos hb, if_pos (by simp [endsLine, hb])]
          exact Or.inl ⟨r', by simp [line], rfl, hin, by simp [Tells]⟩
        · rw [if_neg hb, if_neg (by simp [endsLine, hb])]
          rcases ih hin (done + 1) with hrest | ⟨hfar, hloop⟩
          · left
            rcases htake : take endsLine left r'.pending with _ | t
            · rw [htake] at hrest
              rw [show rioReadlinebLoop left (done + 1 + 1) r' = none from hrest]
              rfl
            · rw [htake] at hrest
              obtain ⟨r'', hloop, hpending', hin', htells⟩ := hrest
              rw [hloop]
              refine ⟨r'', ?_, hpending', hin', htells⟩
              rw [line_prepend]
              rfl
          · rw [hloop]
            exact Or.inr ⟨by omega, rfl⟩
      | eof hpending hin =>
        rw [hpending]
        refine Or.inl ⟨r', ?_, rfl, hin, by simp [Tells]⟩
        by_cases hdone : done = 0 <;> simp [line, hdone]
      | fails hpending hin =>
        rw [hpending]
        exact Or.inl ⟨r', by simp [line], rfl, hin, by simp [Tells]⟩

/-- A call of one of the readers with a buffer. -/
inductive Request where
  | readnb (n : ℕ)
  | readlineb (maxlen : ℕ)
  deriving DecidableEq

/-- What a caller sees: what is returned, the bytes stored, whether a terminator is stored behind
them, and `errno` where the call has failed. -/
structure Reply where
  ret : ℤ
  bytes : Bytes
  terminated : Bool
  failure : Option ℤ
  deriving DecidableEq

def reply (ret : ℤ) (bytes : Bytes) (terminated : Bool) (errno : ℤ) : Reply :=
  ⟨ret, bytes, terminated, if ret = -1 then some errno else none⟩

def Request.serve : Request → Reader → Option (Reply × Reader)
  | .readnb n, r => (rioReadnb n r).map fun (ret, bytes, r) => (reply ret bytes false r.errno, r)
  | .readlineb maxlen, r => (rioReadlineb maxlen r).map fun (l, r) =>
    (reply l.ret l.bytes l.terminated r.errno, r)

/-- The replies to some calls, up to one that waits or counts too far, and the reader before that
one. -/
def serveAll : List Request → Reader → List Reply × Reader
  | [], r => ([], r)
  | q :: qs, r =>
    match q.serve r with
    | none => ([], r)
    | some (p, r) =>
      let (ps, r) := serveAll qs r
      (p :: ps, r)

/-- The same calls on the plain stream of bytes. -/
def Request.take : Request → List (Sign UInt8 ℤ) → Option (Taken UInt8 ℤ)
  | .readnb n, s => Source.take anyByte n s
  | .readlineb maxlen, s => Source.take endsLine (maxlen - 1) s

/-- Why a taking failed, if it did. -/
def failure (t : Taken UInt8 ℤ) : ℤ :=
  match t.ending with
  | .fail e => e
  | _ => 0

def Request.answer (t : Taken UInt8 ℤ) : Request → Reply
  | .readnb _ => reply (count 0 t) t.items false (failure t)
  | .readlineb _ => reply (line 0 t).ret (line 0 t).bytes (line 0 t).terminated (failure t)

def takeAll : List Request → List (Sign UInt8 ℤ) → List Reply × List (Sign UInt8 ℤ)
  | [], s => ([], s)
  | q :: qs, s =>
    match q.take s with
    | none => ([], s)
    | some t =>
      let (ps, s) := takeAll qs t.rest
      (q.answer t :: ps, s)

lemma count_eq_neg_one_iff : count done t = -1 ↔ ∃ e, t.ending = .fail e := by
  obtain ⟨items, ending, rest⟩ := t
  cases ending with
  | full => simp [count]; omega
  | stop => simp [count]; omega
  | fail e => simp [count]

lemma line_ret (done : ℕ) (t : Taken UInt8 ℤ) : (line done t).ret = count done t := by
  obtain ⟨items, ending, rest⟩ := t
  cases ending with
  | full => rfl
  | stop =>
    by_cases hzero : done + items.length = 0
    · simp only [line, count, if_pos hzero]
      omega
    · simp only [line, count, if_neg hzero]
  | fail e => rfl

lemma line_bytes (done : ℕ) (t : Taken UInt8 ℤ) : (line done t).bytes = t.items := by
  obtain ⟨items, ending, rest⟩ := t
  cases ending with
  | full => rfl
  | stop =>
    by_cases hzero : done + items.length = 0
    · have hnil : items = [] := List.eq_nil_of_length_eq_zero (by omega)
      subst hnil
      simp only [line]
      split_ifs
      rfl
    · simp only [line, if_neg hzero]
  | fail e => rfl

lemma reply_tells {ret : ℤ} (h : Tells errno t) (hret : ret = count done t) (bytes : Bytes)
    (terminated : Bool) :
    reply ret bytes terminated errno = reply ret bytes terminated (failure t) := by
  unfold reply
  by_cases hneg : ret = -1
  · obtain ⟨e, he⟩ := count_eq_neg_one_iff.mp (hret ▸ hneg)
    simp [hneg, failure, he, h e he]
  · simp [hneg]

/-- An `int` can count up to the room for a line. -/
def Request.Counts : Request → Prop
  | .readnb _ => True
  | .readlineb maxlen => maxlen < 2 ^ 31

/-- The reply to a call and what it leaves are those of the taking. -/
def Serves (q : Request) (r : Reader) : Option (Taken UInt8 ℤ) → Prop
  | none => q.serve r = none
  | some t => ∃ r', q.serve r = some (q.answer t, r') ∧ r'.pending = t.rest ∧ r'.rp.InBounds

lemma serve_cases (h : r.rp.InBounds) (q : Request) :
    Serves q r (q.take r.pending) ∨ (¬ q.Counts ∧ q.serve r = none) := by
  cases q with
  | readnb n =>
    have hspec := rioReadnbLoop_spec h (le_refl n)
    rw [Nat.sub_self] at hspec
    left
    unfold Serves Request.take Request.serve rioReadnb
    dsimp only
    rcases htake : Source.take anyByte n r.pending with _ | t
    · rw [htake] at hspec
      rw [Option.map_eq_none_iff.mp hspec]
      rfl
    · rw [htake] at hspec
      obtain ⟨r', hloop, hpending, hin, htells⟩ := hspec
      obtain ⟨⟨ret', bytes', r₀⟩, hloop, heq⟩ := Option.map_eq_some_iff.mp hloop
      cases heq
      rw [hloop]
      exact ⟨r', by rw [Option.map_some, reply_tells htells rfl]; rfl, hpending, hin⟩
  | readlineb maxlen =>
    unfold Serves Request.take Request.serve rioReadlineb
    dsimp only
    rcases rioReadlinebLoop_cases h (maxlen - 1) 0 with hspec | ⟨hfar, hnone⟩
    · left
      rcases htake : Source.take endsLine (maxlen - 1) r.pending with _ | t
      · rw [htake] at hspec
        rw [show rioReadlinebLoop (maxlen - 1) 1 r = none from hspec]
        rfl
      · rw [htake] at hspec
        obtain ⟨r', hloop, hpending, hin, htells⟩ := hspec
        rw [show rioReadlinebLoop (maxlen - 1) 1 r = some (line 0 t, r') from hloop]
        exact ⟨r', by rw [Option.map_some, reply_tells htells (line_ret 0 t)]; rfl, hpending, hin⟩
    · rw [show rioReadlinebLoop (maxlen - 1) 1 r = none from hnone]
      exact Or.inr ⟨by unfold Request.Counts; omega, rfl⟩

lemma serve_spec (h : r.rp.InBounds) {q : Request} (hq : q.Counts) :
    Serves q r (q.take r.pending) :=
  (serve_cases h q).resolve_right fun hnot => hnot.1 hq

lemma serveAll_spec (h : r.rp.InBounds) {qs : List Request} (hqs : ∀ q ∈ qs, q.Counts) :
    (serveAll qs r).1 = (takeAll qs r.pending).1 := by
  induction qs generalizing r with
  | nil => rfl
  | cons q qs ih =>
    have hspec := serve_spec h (hqs q List.mem_cons_self)
    unfold serveAll takeAll
    rcases htake : q.take r.pending with _ | t
    · rw [htake] at hspec
      rw [show q.serve r = none from hspec]
    · rw [htake] at hspec
      obtain ⟨r', hserve, hpending, hin⟩ := hspec
      have hreplies := ih hin fun q hq => hqs q (List.mem_cons_of_mem _ hq)
      rw [hserve]
      rw [hpending] at hreplies
      simp only [hreplies]

/-- A descriptor with a fresh buffer. -/
def fresh (errno : ℤ) (coming : List Arrival) : Reader := ⟨rioReadinitb, errno, coming⟩

lemma inBounds_fresh (errno : ℤ) (coming : List Arrival) : (fresh errno coming).rp.InBounds :=
  ⟨by simp [fresh, rioReadinitb], by simp [fresh, rioReadinitb]⟩

lemma pending_fresh (errno : ℤ) (coming : List Arrival) :
    (fresh errno coming).pending = signs coming := by
  simp [fresh, Reader.pending, RioT.unread, rioReadinitb]

/-- **Reading through a buffer** is reading the plain stream of bytes: whatever is asked for, in
whatever order, and however the bytes arrive and calls are interrupted, as long as an `int` can
count the room for each line. -/
theorem buffered_reads {qs : List Request} (hqs : ∀ q ∈ qs, q.Counts) (errno : ℤ)
    (coming : List Arrival) :
    (serveAll qs (fresh errno coming)).1 = (takeAll qs (signs coming)).1 := by
  rw [← pending_fresh errno coming]
  exact serveAll_spec (inBounds_fresh errno coming) hqs

/-- Two lines and some bytes are asked for; the first line is longer than its room. -/
theorem buffered_reads_lines :
    (serveAll [.readlineb 3, .readlineb 3, .readnb 2]
        (fresh 0 [.bytes 104 [105, 33, newline], .error eintr, .bytes 111 [107]])).1 =
      (takeAll [.readlineb 3, .readlineb 3, .readnb 2]
        (signs [.bytes 104 [105, 33, newline], .error eintr, .bytes 111 [107]])).1 :=
  buffered_reads (by simp [Request.Counts]) 0 _

/-- **Without a buffer** the same is read: the results are the same, and so is what is still to be
got. -/
theorem readn_eq_readnb (n : ℕ) (errno : ℤ) (coming : List Arrival) :
    (rioReadn n errno coming).map (fun g => (reply g.ret g.bytes false g.errno, signs g.coming)) =
      ((Request.readnb n).serve (fresh errno coming)).map fun (p, r) => (p, r.pending) := by
  have hn := rioReadnLoop_spec n (le_refl n) errno coming
  have hnb : Serves (.readnb n) _ _ := serve_spec (inBounds_fresh errno coming) trivial
  rw [pending_fresh] at hnb
  rw [Nat.sub_self] at hn
  change Serves _ _ (Source.take anyByte n (signs coming)) at hnb
  unfold rioReadn
  rcases htake : Source.take anyByte n (signs coming) with _ | t
  · rw [htake] at hn hnb
    rw [show rioReadnLoop n n errno coming = none from hn, hnb]
    rfl
  · rw [htake] at hn hnb
    obtain ⟨g, hg, hbytes, hret, hcoming, htells⟩ := hn
    obtain ⟨r, hr, hpending, -⟩ := hnb
    rw [hg, hr, Option.map_some, Option.map_some, reply_tells htells hret, hbytes, hret, hcoming,
      ← hpending]
    rfl

/-- How many bytes a call stores. -/
def Reply.stored (p : Reply) : ℕ := p.bytes.length + if p.terminated then 1 else 0

/-- How many bytes the caller has room for. -/
def Request.size : Request → ℕ
  | .readnb n => n
  | .readlineb maxlen => maxlen

lemma answer_bytes (q : Request) (t : Taken UInt8 ℤ) : (q.answer t).bytes = t.items := by
  cases q with
  | readnb n => rfl
  | readlineb maxlen => exact line_bytes 0 t

lemma stored_answer {q : Request} {s : List (Sign UInt8 ℤ)} (h : q.take s = some t) :
    (q.answer t).stored ≤ q.size ↔ q ≠ .readlineb 0 := by
  unfold Reply.stored
  rw [answer_bytes]
  cases q with
  | readnb n =>
    have hlen := length_take_le h
    simpa [Request.answer, reply, Request.size] using hlen
  | readlineb maxlen =>
    have hlen := length_take_le h
    rcases maxlen with _ | m
    · obtain rfl := Option.some.inj ((take_zero endsLine s).symm.trans h)
      simp [Request.answer, reply, Request.size, line]
    · simp only [Request.size, Request.answer, reply, Nat.add_sub_cancel] at hlen ⊢
      refine iff_of_true (Nat.add_le_add hlen ?_) (by simp)
      by_cases hterm : (line 0 t).terminated = true
      · simp [hterm]
      · simp [hterm]

/-- What the calls of a reader keep, of whatever length the lines are. -/
lemma serveAll_conserves (h : r.rp.InBounds) (qs : List Request) :
    items r.pending = (serveAll qs r).1.flatMap Reply.bytes ++ items (serveAll qs r).2.pending ∧
      (serveAll qs r).2.rp.InBounds ∧
      ∀ x ∈ qs.zip (serveAll qs r).1, x.2.stored ≤ x.1.size ↔ x.1 ≠ .readlineb 0 := by
  induction qs generalizing r with
  | nil => exact ⟨rfl, h, by simp⟩
  | cons q qs ih =>
    rcases hserve : q.serve r with _ | ⟨p, r'⟩
    · unfold serveAll
      rw [hserve]
      exact ⟨rfl, h, by simp⟩
    · have hspec := (serve_cases h q).resolve_right fun hnot => by
        rw [hserve] at hnot
        cases hnot.2
      rcases htake : q.take r.pending with _ | t
      · rw [htake] at hspec
        cases hserve.symm.trans hspec
      · rw [htake] at hspec
        obtain ⟨r₀, hserve', hpending, hin⟩ := hspec
        cases hserve.symm.trans hserve'
        obtain ⟨hitems, hin', hstored⟩ := ih hin
        have hfirst : items r.pending = t.items ++ items t.rest := by
          cases q <;> exact take_items htake
        unfold serveAll
        rw [hserve]
        refine ⟨?_, hin', fun x hx => ?_⟩
        · rw [hfirst, ← hpending, hitems]
          simp [answer_bytes]
        · rcases List.mem_cons.mp hx with rfl | hx
          · exact stored_answer htake
          · exact hstored x hx

/-- **No byte is lost**, doubled or moved: what the calls have stored, with what is unread, is what
has come in; and what they store fits where it goes, except that a line read into no room at all
still gets its terminator. -/
theorem reads_conserve (qs : List Request) (errno : ℤ) (coming : List Arrival) :
    items (signs coming) = (serveAll qs (fresh errno coming)).1.flatMap Reply.bytes ++
        items (serveAll qs (fresh errno coming)).2.pending ∧
      (serveAll qs (fresh errno coming)).2.rp.InBounds ∧
      ∀ x ∈ qs.zip (serveAll qs (fresh errno coming)).1,
        x.2.stored ≤ x.1.size ↔ x.1 ≠ .readlineb 0 := by
  have hconserves := serveAll_conserves (inBounds_fresh errno coming) qs
  rwa [pending_fresh] at hconserves

/-! ### Lines -/

/-- The reply to a call that reads a whole line. -/
def lineReply (l : Bytes) : Reply := ⟨l.length + 1, l ++ [newline], true, none⟩

/-- The reply at the end of the file. -/
def endReply : Reply := ⟨0, [], false, none⟩

lemma takeAll_line {l : Bytes} (hl : newline ∉ l) {maxlen : ℕ} (hfits : l.length + 2 ≤ maxlen)
    (qs : List Request) (s : List (Sign UInt8 ℤ)) :
    takeAll (.readlineb maxlen :: qs) ((l ++ [newline]).map .item ++ s) =
      (lineReply l :: (takeAll qs s).1, (takeAll qs s).2) := by
  have hnone : ∀ b ∈ l, endsLine b = false := fun b hb =>
    decide_eq_false fun heq => hl (heq ▸ hb)
  have htake : (Request.readlineb maxlen).take ((l ++ [newline]).map .item ++ s) =
      some ⟨l ++ [newline], .full, s⟩ := by
    rw [List.map_append, List.append_assoc]
    exact take_last hnone rfl (by omega) s
  have hanswer : (Request.readlineb maxlen).answer ⟨l ++ [newline], .full, s⟩ = lineReply l := by
    simp [Request.answer, line, reply, lineReply]
    omega
  conv_lhs => unfold takeAll
  rw [htake, ← hanswer]

lemma takeAll_lines_iff {ls : List Bytes} (hls : ∀ l ∈ ls, newline ∉ l) (maxlen : ℕ) :
    (takeAll (List.replicate (ls.length + 1) (.readlineb maxlen))
        ((ls.flatMap fun l => l ++ [newline]).map .item ++ [.stop])).1 =
      ls.map lineReply ++ [endReply] ↔ 2 ≤ maxlen ∧ ∀ l ∈ ls, l.length + 2 ≤ maxlen := by
  induction ls with
  | nil =>
    rcases maxlen with _ | _ | m
    · simp [takeAll, Request.take, Request.answer, line, reply, endReply]
    · simp [takeAll, Request.take, Request.answer, line, reply, endReply]
    · simp [takeAll, Request.take, take, Request.answer, line, reply, endReply]
  | cons l ls ih =>
    obtain ⟨hl, hls⟩ := List.forall_mem_cons.mp hls
    rw [List.flatMap_cons, List.map_append, List.append_assoc, List.length_cons,
      List.replicate_succ]
    by_cases hfits : l.length + 2 ≤ maxlen
    · rw [takeAll_line hl hfits, List.map_cons, List.cons_append, List.cons.injEq, ih hls]
      simp [hfits]
    · refine iff_of_false (fun heq => hfits ?_) fun hall => hfits (hall.2 l (by simp))
      -- the first reply has no more bytes than there is room for
      unfold takeAll at heq
      rcases htake : (Request.readlineb maxlen).take _ with _ | t
      · rw [htake] at heq
        cases heq
      · rw [htake] at heq
        have hbytes := congrArg Reply.bytes (List.cons.inj heq).1
        rw [answer_bytes] at hbytes
        have hlen := length_take_le htake
        have hlong : t.items.length = l.length + 1 := by
          rw [hbytes]
          simp [lineReply]
        omega

/-- A call of `rio_writen` for each line has written it. -/
def Sent (ls : List Bytes) (ws : List Written) : Prop :=
  List.Forall₂ (fun l w => (∃ errno results, rioWriten (l ++ [newline]) errno results = some w) ∧
    w.ret = (l ++ [newline]).length) ls ws

lemma sent_bytes {ls : List Bytes} {ws : List Written} (h : Sent ls ws) :
    ws.flatMap Written.bytes = ls.flatMap fun l => l ++ [newline] := by
  induction h with
  | nil => rfl
  | cons hw _ ih =>
    obtain ⟨⟨errno, results, hrun⟩, hret⟩ := hw
    rw [List.flatMap_cons, List.flatMap_cons, ih]
    congr 1
    rcases (rioWriten_spec hrun).outcome with ⟨-, hbytes⟩ | ⟨hfail, -⟩
    · exact hbytes
    · omega

/-- **Lines** written with `rio_writen`, in however many pieces, come back one by one from
`rio_readlineb`, in whatever pieces they arrive, and then the end of the file, exactly when each
fits in the room for it, which an `int` can count, together with its end and a terminator. -/
theorem lines_round_trip {ls : List Bytes} (hls : ∀ l ∈ ls, newline ∉ l) {ws : List Written}
    (hsent : Sent ls ws) {coming : List Arrival}
    (hcoming : signs coming = (ws.flatMap Written.bytes).map .item ++ [.stop]) {maxlen : ℕ}
    (hmax : maxlen < 2 ^ 31) (errno : ℤ) :
    (serveAll (List.replicate (ls.length + 1) (.readlineb maxlen)) (fresh errno coming)).1 =
      ls.map lineReply ++ [endReply] ↔ 2 ≤ maxlen ∧ ∀ l ∈ ls, l.length + 2 ≤ maxlen := by
  have hcounts : ∀ q ∈ List.replicate (ls.length + 1) (Request.readlineb maxlen), q.Counts := by
    intro q hq
    rw [List.eq_of_mem_replicate hq]
    exact hmax
  have hreads := serveAll_spec (inBounds_fresh errno coming) hcounts
  rw [pending_fresh, hcoming, sent_bytes hsent] at hreads
  rw [hreads]
  exact takeAll_lines_iff hls maxlen

/-- Two lines, of which the second arrives in two pieces with an interruption in between. -/
theorem lines_round_trip_two :
    (serveAll (List.replicate 3 (.readlineb 4)) (fresh 0
        [.bytes 104 [105, newline, 111], .error eintr, .bytes 107 [newline], .eof])).1 =
      [lineReply [104, 105], lineReply [111, 107], endReply] := by
  have hsent : Sent [[104, 105], [111, 107]]
      [⟨3, [104, 105, newline], 0, []⟩, ⟨3, [111, 107, newline], 0, []⟩] :=
    .cons ⟨⟨0, [.wrote 0, .wrote 5], rfl⟩, rfl⟩ (.cons ⟨⟨0, [.wrote 2], rfl⟩, rfl⟩ .nil)
  exact (lines_round_trip (by decide) hsent rfl (by decide) 0).mpr (by decide)

end Hoststack.Rio
