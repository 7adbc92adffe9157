import Hoststack.PtyExecUtil

/-!
A pass of the relay call by call.

A pass of `check_clients_and_master` stops at each call of `read` and `write` it makes and goes
on with the result; only a result of minus one sets `errno`. What the pass as a whole does is a
run of such steps.
-/

namespace Hoststack.RelaySteps

open SocketIo PtyExecUtil

/-- What a call of `read` or `write` returns. -/
inductive Answer where
  | read (r : ReadResult)
  | write (r : WriteResult)

namespace Answer

/-- The value of `errno` after the call. -/
def errno : Answer → ℤ → ℤ
  | .read (.error e), _ => e
  | .write (.error e), _ => e
  | _, errno => errno

/-- The call has returned zero. -/
def isZero : Answer → Bool
  | .read .eof => true
  | .write .zero => true
  | _ => false

/-- The call has returned zero, or failed. -/
def gaveNothing : Answer → Bool
  | .read (.data _) => false
  | .write (.wrote _) => false
  | _ => true

end Answer

/-- Whom `rio_writen` writes to: the terminal what the client in a slot has sent, or the client
in a slot what all clients are sent. -/
inductive Target where
  | master (i : ℕ)
  | client (i : ℕ) (buf : Bytes)

/-- Where a pass is: in a call of `read`, in a call of `write` that `rio_writen` makes with what
is left of the buffer, or back. -/
inductive Point where
  | readClient (i : ℕ)
  | readMaster
  | write (dest : Target) (left : Bytes)
  | returned (ret : ℤ)

/-- A pass, with what it has written to the terminal and to clients. -/
structure Pass where
  pool : Pool
  errno : ℤ
  toMaster : Bytes
  toClients : List (ℤ × Bytes)
  point : Point

/-- The descriptor in a slot. -/
def fdAt (p : Pool) (i : ℕ) : ℤ := p.clientfd.getD i (-1)

/-- The first of the slots from `i` on whose client the loop over the clients reads. -/
def nextReady (p : Pool) : List ℤ → ℕ → Option ℕ
  | [], _ => none
  | connfd :: rest, i =>
    if p.nready > 0 then
      if connfd > 0 ∧ connfd ∈ p.readySet then some i else nextReady p rest (i + 1)
    else none

/-- The first of the slots from `i` on that has a client. -/
def nextOpen : List ℤ → ℕ → Option ℕ
  | [], _ => none
  | connfd :: rest, i => if connfd > 0 then some i else nextOpen rest (i + 1)

namespace Pass

def close (s : Pass) (i : ℕ) : Pass :=
  { s with
    pool := { s.pool with
      clientfd := s.pool.clientfd.set i (-1)
      readSet := s.pool.readSet.erase (fdAt s.pool i) } }

/-- The read after which the pass goes on is about to be made. -/
def poll (s : Pass) (point : Point) : Pass :=
  { s with pool := { s.pool with nready := s.pool.nready - 1 }, point }

/-- The part for the terminal. -/
def fromMaster (s : Pass) : Pass :=
  if s.pool.masterfd ≠ -1 ∧ s.pool.masterfd ∈ s.pool.readySet then s.poll .readMaster
  else { s with point := .returned 0 }

/-- The loop over the clients from slot `i` on. -/
def fromClient (s : Pass) (i : ℕ) : Pass :=
  match nextReady s.pool (s.pool.slots.drop i) i with
  | some j => s.poll (.readClient j)
  | none => s.fromMaster

/-- The loop that sends to all clients, from slot `i` on. -/
def fromBroadcast (s : Pass) (buf : Bytes) (i : ℕ) : Pass :=
  match nextOpen (s.pool.slots.drop i) i with
  | some j => { s with point := .write (.client j buf) buf }
  | none => { s with point := .returned 0 }

/-- A call of `write` has taken the bytes. -/
def sent (s : Pass) (dest : Target) (bytes : Bytes) : Pass :=
  match dest with
  | .master _ => { s with toMaster := s.toMaster ++ bytes }
  | .client i _ => { s with toClients := s.toClients ++ [(fdAt s.pool i, bytes)] }

/-- `rio_writen` has written everything. -/
def resume (s : Pass) : Target → Pass
  | .master i => s.fromClient (i + 1)
  | .client i buf => s.fromBroadcast buf (i + 1)

/-- The loop of `rio_writen`, as long as something is left to write. -/
def write (s : Pass) (dest : Target) : Bytes → Pass
  | [] => s.resume dest
  | left => { s with point := .write dest left }

def withErrno (s : Pass) (errno : ℤ) : Pass := { s with errno }

/-- A client is closed, a failure of the terminal is returned. -/
def giveUp (s : Pass) : Pass :=
  match s.point with
  | .readClient i => (s.close i).fromClient (i + 1)
  | .write (.client i buf) _ => (s.close i).fromBroadcast buf (i + 1)
  | .readMaster | .write (.master _) _ => { s with point := .returned 1 }
  | .returned _ => s

/-- A call of `read` is left for the next pass, one of `write` is made again. -/
def interrupted (s : Pass) : Pass :=
  match s.point with
  | .readClient i => s.fromClient (i + 1)
  | .readMaster => { s with point := .returned 0 }
  | .write _ _ | .returned _ => s

/-- The call has given nothing. -/
def nothing (s : Pass) : Pass := if s.errno = eintr then s.interrupted else s.giveUp

/-- What the pass makes of a result. One that is not that of its call leads nowhere. -/
def react (s : Pass) (a : Answer) : Option Pass :=
  match s.point, a with
  | .readClient i, .read r =>
    match r with
    | .data [] => none
    | .data buf => some (s.write (.master i) buf)
    | _ => some s.nothing
  | .readMaster, .read r =>
    match r with
    | .data [] => none
    | .data buf => some (s.fromBroadcast buf 0)
    | _ => some s.nothing
  | .write dest left, .write r =>
    match r with
    | .wrote more => some ((s.sent dest (left.take (more + 1))).write dest (left.drop (more + 1)))
    | _ => some s.nothing
  | _, _ => none

/-- The call returns, which may set `errno`, and the pass goes on. -/
def step (s : Pass) (a : Answer) : Option Pass := (s.withErrno (a.errno s.errno)).react a

end Pass

/-- A pass begins. -/
def begin (p : Pool) (errno : ℤ) : Pass :=
  Pass.fromClient ⟨p, errno, [], [], .returned 0⟩ 0

/-- The passes of the relay. -/
def relay : Machine Pass Answer where
  init s := ∃ p errno, s = begin p errno
  step := Pass.step

/-- A pass with the results so far. -/
def run (p : Pool) (errno : ℤ) (results : List Answer) : Option Pass :=
  relay.runs (begin p errno) results

variable {s s' s'' : Pass} {dest : Target} {left buf : Bytes}

/-! ### Runs -/

/-- A run leads from one state of a pass to another. -/
def Leads (s s' : Pass) : Prop := ∃ results, relay.runs s results = some s'

lemma Leads.refl (s : Pass) : Leads s s := ⟨[], rfl⟩

lemma Leads.head {a : Answer} (hs : s.step a = some s') (h : Leads s' s'') : Leads s s'' := by
  obtain ⟨results, hrun⟩ := h
  refine ⟨a :: results, ?_⟩
  change (s.step a).bind _ = _
  rw [hs]
  exact hrun

lemma runs_append (s : Pass) (l l' : List Answer) :
    relay.runs s (l ++ l') = (relay.runs s l).bind fun t => relay.runs t l' := by
  induction l generalizing s with
  | nil => rfl
  | cons a l ih =>
    change (relay.step s a).bind _ = ((relay.step s a).bind _).bind _
    cases relay.step s a with
    | none => rfl
    | some t => exact ih t

lemma Leads.trans (h : Leads s s') (h' : Leads s' s'') : Leads s s'' := by
  obtain ⟨l, hl⟩ := h
  obtain ⟨l', hl'⟩ := h'
  refine ⟨l ++ l', ?_⟩
  rw [runs_append, hl]
  exact hl'

/-! ### `rio_writen` -/

/-- Where the pass has been does not matter for where it goes. -/
def Pass.at (s : Pass) (point : Point) : Pass := { s with point }

lemma fromClient_at (s : Pass) (point : Point) (i : ℕ) :
    (s.at point).fromClient i = s.fromClient i := by
  unfold Pass.fromClient
  change (match nextReady s.pool (s.pool.slots.drop i) i with | some j => _ | none => _) = _
  cases nextReady s.pool (s.pool.slots.drop i) i <;> rfl

lemma fromBroadcast_at (s : Pass) (point : Point) (buf : Bytes) (i : ℕ) :
    (s.at point).fromBroadcast buf i = s.fromBroadcast buf i := by
  unfold Pass.fromBroadcast
  change (match nextOpen (s.pool.slots.drop i) i with | some j => _ | none => _) = _
  cases nextOpen (s.pool.slots.drop i) i <;> rfl

lemma write_at (s : Pass) (point : Point) (dest : Target) (left : Bytes) :
    (s.at point).write dest left = s.write dest left := by
  cases left with
  | nil =>
    cases dest with
    | master i => exact fromClient_at s point (i + 1)
    | client i buf => exact fromBroadcast_at s point buf (i + 1)
  | cons b left => rfl

lemma sent_at (s : Pass) (point : Point) (dest : Target) (bytes : Bytes) :
    (s.at point).sent dest bytes = (s.sent dest bytes).at point := by
  cases dest <;> rfl

lemma giveUp_write (s : Pass) (i : ℕ) (buf left : Bytes) :
    (s.at (.write (.client i buf) left)).giveUp = (s.close i).fromBroadcast buf (i + 1) :=
  fromBroadcast_at (s.close i) _ buf (i + 1)

/-- What has been written is written in several calls. -/
def Pass.sentAll (s : Pass) (dest : Target) (chunks : List Bytes) : Pass :=
  chunks.foldl (fun s bytes => s.sent dest bytes) s

lemma sentAll_withErrno (s : Pass) (e : ℤ) (dest : Target) (chunks : List Bytes) :
    (s.withErrno e).sentAll dest chunks = (s.sentAll dest chunks).withErrno e := by
  induction chunks generalizing s with
  | nil => rfl
  | cons bytes chunks ih =>
    have hsent : (s.withErrno e).sent dest bytes = (s.sent dest bytes).withErrno e := by
      cases dest <;> rfl
    change ((s.withErrno e).sent dest bytes).sentAll dest chunks = _
    rw [hsent, ih]
    rfl

/-- One call of `rio_writen` is a run of the pass, which goes on as it should with what the
call returns. -/
lemma leads_write {n : ℕ} {errno : ℤ} {results : List WriteResult} {w : Written}
    (h : rioLoop n left errno results = some w) (s : Pass) (he : s.errno = errno)
    (dest : Target) :
    ∃ chunks, chunks.flatten = w.bytes ∧
      ((w.ret = n ∧ Leads (s.write dest left)
          (((s.sentAll dest chunks).withErrno w.errno).resume dest)) ∨
        (w.ret = -1 ∧ ∃ left', Leads (s.write dest left)
          ((((s.sentAll dest chunks).withErrno w.errno).at (.write dest left')).giveUp))) := by
  induction results generalizing left errno w s with
  | nil =>
    cases left with
    | nil =>
      cases h
      exact ⟨[], rfl, Or.inl ⟨rfl, he ▸ Leads.refl _⟩⟩
    | cons b left => cases h
  | cons r results ih =>
    cases left with
    | nil =>
      cases h
      exact ⟨[], rfl, Or.inl ⟨rfl, he ▸ Leads.refl _⟩⟩
    | cons b left =>
      cases r with
      | wrote more =>
        obtain ⟨w', hw', rfl⟩ := Option.map_eq_some_iff.mp h
        obtain ⟨chunks, hflat, hout⟩ := ih hw' (s.sent dest (b :: left.take more))
          (by cases dest <;> exact he)
        have hstep : (s.write dest (b :: left)).step (.write (.wrote more)) =
            some ((s.sent dest (b :: left.take more)).write dest (left.drop more)) := by
          change some (((s.at (.write dest (b :: left))).sent dest _).write dest _) = _
          rw [sent_at, write_at]
          rfl
        refine ⟨(b :: left.take more) :: chunks, by rw [← hflat]; rfl, ?_⟩
        rcases hout with ⟨hret, hleads⟩ | ⟨hret, left', hleads⟩
        · exact Or.inl ⟨hret, hleads.head hstep⟩
        · exact Or.inr ⟨hret, left', hleads.head hstep⟩
      | zero =>
        have hstep : (s.write dest (b :: left)).step (.write .zero) =
            some (s.at (.write dest (b :: left))).nothing := rfl
        unfold rioLoop at h
        unfold Pass.nothing at hstep
        change _ = some (if s.errno = eintr then _ else _) at hstep
        rw [he] at hstep
        split_ifs at h with heintr
        · rw [if_pos heintr] at hstep
          obtain ⟨chunks, hflat, hout⟩ := ih h s he
          refine ⟨chunks, hflat, ?_⟩
          rcases hout with ⟨hret, hleads⟩ | ⟨hret, left', hleads⟩
          · exact Or.inl ⟨hret, hleads.head hstep⟩
          · exact Or.inr ⟨hret, left', hleads.head hstep⟩
        · rw [if_neg heintr] at hstep
          cases h
          subst he
          exact ⟨[], rfl, Or.inr ⟨rfl, b :: left, (Leads.refl _).head hstep⟩⟩
      | error e =>
        have hstep : (s.write dest (b :: left)).step (.write (.error e)) =
            some ((s.withErrno e).at (.write dest (b :: left))).nothing := rfl
        unfold rioLoop at h
        unfold Pass.nothing at hstep
        change _ = some (if e = eintr then _ else _) at hstep
        split_ifs at h with heintr
        · rw [if_pos heintr] at hstep
          obtain ⟨chunks, hflat, hout⟩ := ih h (s.withErrno e) rfl
          refine ⟨chunks, hflat, ?_⟩
          rw [sentAll_withErrno] at hout
          rcases hout with ⟨hret, hleads⟩ | ⟨hret, left', hleads⟩
          · exact Or.inl ⟨hret, hleads.head hstep⟩
          · exact Or.inr ⟨hret, left', hleads.head hstep⟩
        · rw [if_neg heintr] at hstep
          cases h
          exact ⟨[], rfl, Or.inr ⟨rfl, b :: left, (Leads.refl _).head hstep⟩⟩

/-! ### The loops -/

/-- What the latest connection with a descriptor has received. -/
def received (conns : List Conn) (fd : ℤ) : Bytes :=
  ((conns.find? fun c => c.fd = fd).map Conn.received).getD []

/-- What a pass has written to a descriptor. -/
def sentTo (toClients : List (ℤ × Bytes)) (fd : ℤ) : Bytes :=
  (toClients.filter fun c => c.1 = fd).flatMap Prod.snd

/-- The pass has come as far as a scan of the slots that began with the monitor `m`. -/
structure Tracks (m : Monitor) (s : Pass) (clientfd : List ℤ) (sc : Scan) : Prop where
  pool : s.pool = { m.pool with clientfd, readSet := sc.readSet, nready := sc.nready }
  errno : s.errno = sc.io.errno
  toMaster : sc.io.toMaster = m.io.toMaster ++ s.toMaster
  toClients : ∀ fd, received sc.io.conns fd = received m.io.conns fd ++ sentTo s.toClients fd

variable {m : Monitor} {sc sc' : Scan} {done rest tail slots : List ℤ} {connfd : ℤ}

/-- The slots from the first to the highest one used, where a scan has done some of them. -/
def Layout (m : Monitor) (n : ℕ) (tail : List ℤ) : Prop :=
  ∀ l : List ℤ, l.length = n → (l ++ tail).take (m.pool.maxi + 1).toNat = l

lemma Tracks.pool_slots (h : Tracks m s (done ++ rest ++ tail) sc)
    (hl : Layout m (done.length + rest.length) tail) : s.pool.slots = done ++ rest := by
  unfold Pool.slots
  rw [h.pool]
  exact hl (done ++ rest) List.length_append

lemma Tracks.fdAt (h : Tracks m s (done ++ connfd :: rest ++ tail) sc) :
    fdAt s.pool done.length = connfd := by
  unfold RelaySteps.fdAt
  rw [h.pool]
  simp

lemma Tracks.fromClient (h : Tracks m s (done ++ connfd :: rest ++ tail) sc)
    (hl : Layout m (done.length + (connfd :: rest).length) tail) :
    s.fromClient done.length =
      if sc.nready > 0 then
        if connfd > 0 ∧ connfd ∈ m.pool.readySet then s.poll (.readClient done.length)
        else s.fromClient (done.length + 1)
      else s.fromMaster := by
  have hdrop : s.pool.slots.drop done.length = connfd :: rest := by
    rw [h.pool_slots hl, List.drop_left]
  have hdrop' : s.pool.slots.drop (done.length + 1) = rest := by
    rw [← List.tail_drop, hdrop]
    rfl
  unfold Pass.fromClient
  rw [hdrop, hdrop', nextReady]
  have hnready : s.pool.nready = sc.nready := by rw [h.pool]
  have hready : s.pool.readySet = m.pool.readySet := by rw [h.pool]
  rw [hnready, hready]
  split_ifs
  · rfl
  · rfl
  · rfl

lemma Tracks.fromBroadcast (h : Tracks m s (done ++ connfd :: rest ++ tail) sc)
    (hl : Layout m (done.length + (connfd :: rest).length) tail) (buf : Bytes) :
    s.fromBroadcast buf done.length =
      if connfd > 0 then s.at (.write (.client done.length buf) buf)
      else s.fromBroadcast buf (done.length + 1) := by
  have hdrop : s.pool.slots.drop done.length = connfd :: rest := by
    rw [h.pool_slots hl, List.drop_left]
  have hdrop' : s.pool.slots.drop (done.length + 1) = rest := by
    rw [← List.tail_drop, hdrop]
    rfl
  unfold Pass.fromBroadcast
  rw [hdrop, hdrop', nextOpen]
  split_ifs
  · rfl
  · rfl

lemma Tracks.keep (h : Tracks m s (done ++ connfd :: rest ++ tail) sc) :
    Tracks m s (done ++ [connfd] ++ rest ++ tail) sc := by
  rwa [List.append_assoc done, List.singleton_append]

lemma Tracks.close (h : Tracks m s (done ++ connfd :: rest ++ tail) sc) :
    Tracks m (s.close done.length) (done ++ [-1] ++ rest ++ tail)
      { sc with readSet := sc.readSet.erase connfd } := by
  refine ⟨?_, h.errno, h.toMaster, h.toClients⟩
  have hset : (done ++ connfd :: rest ++ tail).set done.length (-1) =
      done ++ [-1] ++ rest ++ tail := by
    simp
  unfold Pass.close
  rw [h.fdAt]
  dsimp only
  rw [h.pool]
  dsimp only
  rw [hset]

lemma sentAll_master (s : Pass) (i : ℕ) (chunks : List Bytes) :
    s.sentAll (.master i) chunks = { s with toMaster := s.toMaster ++ chunks.flatten } := by
  induction chunks generalizing s with
  | nil => simp [Pass.sentAll]
  | cons bytes chunks ih =>
    change (s.sent (.master i) bytes).sentAll (.master i) chunks = _
    rw [ih]
    simp [Pass.sent]

lemma sentAll_client (s : Pass) (i : ℕ) (buf : Bytes) (chunks : List Bytes) :
    s.sentAll (.client i buf) chunks =
      { s with toClients := s.toClients ++ chunks.map fun bytes => (fdAt s.pool i, bytes) } := by
  induction chunks generalizing s with
  | nil => simp [Pass.sentAll]
  | cons bytes chunks ih =>
    change (s.sent (.client i buf) bytes).sentAll (.client i buf) chunks = _
    rw [ih]
    simp [Pass.sent]

variable {reads : ℤ → ReadResult} {gone : Bool}

lemma Tracks.poll {clientfd : List ℤ} (h : Tracks m s clientfd sc) (i : ℕ) (connfd : ℤ) :
    Tracks m (s.poll (.readClient i)) clientfd (sc.poll connfd) := by
  refine ⟨?_, h.errno, h.toMaster, h.toClients⟩
  unfold Pass.poll Scan.poll
  dsimp only
  rw [h.pool]

lemma Tracks.setErrno {clientfd : List ℤ} (h : Tracks m s clientfd sc) (e : ℤ) :
    Tracks m (s.withErrno e) clientfd { sc with io := { sc.io with errno := e } } :=
  ⟨h.pool, rfl, h.toMaster, h.toClients⟩

lemma Tracks.sentMaster {clientfd : List ℤ} (h : Tracks m s clientfd sc) (io : Io) {w : Written}
    {chunks : List Bytes} (i : ℕ) (hflat : chunks.flatten = w.bytes)
    (herrno : io.errno = w.errno) (hmaster : io.toMaster = sc.io.toMaster ++ w.bytes)
    (hconns : io.conns = sc.io.conns) :
    Tracks m ((s.sentAll (.master i) chunks).withErrno w.errno) clientfd { sc with io } := by
  rw [sentAll_master, hflat]
  refine ⟨h.pool, herrno.symm, ?_, ?_⟩
  · calc io.toMaster = sc.io.toMaster ++ w.bytes := hmaster
      _ = m.io.toMaster ++ (s.toMaster ++ w.bytes) := by rw [h.toMaster, List.append_assoc]
  · intro fd
    rw [hconns]
    exact h.toClients fd

lemma leads_clients (hdata : ∀ fd, reads fd ≠ .data [])
    (h : checkClients m.pool.readySet reads rest sc = some (slots, sc', gone))
    (ht : Tracks m s (done ++ rest ++ tail) sc)
    (hl : Layout m (done.length + rest.length) tail) :
    ∃ s', Tracks m s' (done ++ slots ++ tail) sc' ∧ slots.length = rest.length ∧
      Leads (s.fromClient done.length) (if gone then s'.at (.returned 1) else s'.fromMaster) := by
  induction rest generalizing done s sc slots with
  | nil =>
    cases h
    refine ⟨s, ht, rfl, ?_⟩
    have hend : s.fromClient done.length = s.fromMaster := by
      unfold Pass.fromClient
      rw [ht.pool_slots hl, List.append_nil, List.drop_length]
      rfl
    rw [hend]
    exact Leads.refl _
  | cons connfd rest ih =>
    have hlen : ∀ v : ℤ, (done ++ [v]).length = done.length + 1 := fun v => by simp
    have hl' : ∀ v : ℤ, Layout m ((done ++ [v]).length + rest.length) tail := fun v => by
      rw [hlen, Nat.add_assoc, Nat.add_comm 1]
      exact hl
    -- the rest of the loop, from a state that has done the slot
    have hnext : ∀ {v : ℤ} {t : Pass} {sc₁ : Scan} {out : List ℤ × Scan × Bool},
        checkClients m.pool.readySet reads rest sc₁ = some out →
        (slots, sc', gone) = (v :: out.1, out.2.1, out.2.2) →
        Tracks m t (done ++ [v] ++ rest ++ tail) sc₁ →
        ∃ s', Tracks m s' (done ++ slots ++ tail) sc' ∧ slots.length = rest.length + 1 ∧
          Leads (t.fromClient (done.length + 1))
            (if gone then s'.at (.returned 1) else s'.fromMaster) := by
      rintro v t sc₁ ⟨slots₁, sc₂, gone₁⟩ hrest heq htr
      cases heq
      obtain ⟨s', htr', hlen', hleads⟩ := ih hrest htr (hl' v)
      refine ⟨s', ?_, by rw [List.length_cons, hlen'], ?_⟩
      · rwa [List.append_assoc done, List.singleton_append] at htr'
      · rwa [hlen] at hleads
    rw [ht.fromClient hl]
    unfold checkClients at h
    split_ifs at h with hleft hready
    · rw [if_pos hleft, if_pos hready]
      have hpoll := ht.poll done.length connfd
      -- a read that has given nothing, with the value of `errno` after it
      have hnothing : ∀ e : ℤ,
          (if e ≠ eintr then
              (checkClients m.pool.readySet reads rest { sc.poll connfd with
                io := { (sc.poll connfd).io with errno := e }
                readSet := (sc.poll connfd).readSet.erase connfd }).bind
                fun out => some (-1 :: out.1, out.2.1, out.2.2)
            else (checkClients m.pool.readySet reads rest { sc.poll connfd with
                io := { (sc.poll connfd).io with errno := e } }).bind
                fun out => some (connfd :: out.1, out.2.1, out.2.2)) = some (slots, sc', gone) →
          ∃ s', Tracks m s' (done ++ slots ++ tail) sc' ∧ slots.length = rest.length + 1 ∧
            Leads ((s.poll (.readClient done.length)).withErrno e).nothing
              (if gone then s'.at (.returned 1) else s'.fromMaster) := by
        intro e hrest
        have hset := hpoll.setErrno e
        unfold Pass.nothing
        by_cases he : e = eintr
        · rw [if_neg (not_not.mpr he)] at hrest
          obtain ⟨out, hout, heq⟩ := Option.bind_eq_some_iff.mp hrest
          rw [if_pos (show (Pass.withErrno _ e).errno = eintr from he)]
          exact hnext hout (Option.some.inj heq).symm hset.keep
        · rw [if_pos he] at hrest
          obtain ⟨out, hout, heq⟩ := Option.bind_eq_some_iff.mp hrest
          rw [if_neg (show ¬ (Pass.withErrno _ e).errno = eintr from he)]
          exact hnext hout (Option.some.inj heq).symm hset.close
      cases hread : reads connfd with
      | data buf =>
        rw [hread] at h
        obtain ⟨⟨io, ret⟩, hwrite, hrest⟩ := Option.bind_eq_some_iff.mp h
        obtain ⟨w, hw, heq⟩ := Option.bind_eq_some_iff.mp hwrite
        obtain ⟨hio, hret⟩ := Prod.mk.inj (Option.some.inj heq)
        obtain ⟨b, buf, rfl⟩ := List.exists_cons_of_ne_nil fun hnil => hdata connfd (hnil ▸ hread)
        have hstep : (s.poll (.readClient done.length)).step (.read (.data (b :: buf))) =
            some ((s.poll (.readClient done.length)).write (.master done.length) (b :: buf)) := rfl
        obtain ⟨chunks, hflat, hout⟩ := leads_write hw (s.poll (.readClient done.length)) ht.errno
          (.master done.length)
        have hsent := hpoll.sentMaster io done.length hflat (by rw [← hio])
          (by rw [← hio]) (by rw [← hio])
        have hrest : (if ret ≤ 0 then some (connfd :: rest, { sc.poll connfd with io }, true)
          else _) = some (slots, sc', gone) := hrest
        rcases hout with ⟨hw', hleads⟩ | ⟨hw', left', hleads⟩
        · have hpos : ¬ ret ≤ 0 := by
            have hcast : ((b :: buf).length : ℤ) = buf.length + 1 := by simp
            omega
          rw [if_neg hpos] at hrest
          obtain ⟨out, hout', heq'⟩ := Option.bind_eq_some_iff.mp hrest
          obtain ⟨s', htr, hlen', hleads'⟩ :=
            hnext hout' (Option.some.inj heq').symm hsent.keep
          exact ⟨s', htr, hlen', (hleads.trans hleads').head hstep⟩
        · rw [if_pos (show ret ≤ 0 by omega)] at hrest
          cases hrest
          exact ⟨_, hsent, rfl, hleads.head hstep⟩
      | eof =>
        rw [hread] at h
        obtain ⟨s', htr, hlen', hleads⟩ := hnothing sc.io.errno h
        refine ⟨s', htr, hlen', hleads.head (a := .read .eof) ?_⟩
        rw [← ht.errno]
        rfl
      | error e =>
        rw [hread] at h
        obtain ⟨s', htr, hlen', hleads⟩ := hnothing e h
        exact ⟨s', htr, hlen', hleads.head (a := .read (.error e)) rfl⟩
    · rw [if_pos hleft, if_neg hready]
      obtain ⟨out, hrest, hout⟩ := Option.bind_eq_some_iff.mp h
      exact hnext hrest (Option.some.inj hout).symm ht.keep
    · rw [if_neg hleft]
      cases h
      exact ⟨s, ht, rfl, Leads.refl _⟩

lemma received_updateFirst {conns : List Conn} {c : Conn} {w : Written}
    (hc : conns.find? (fun c => c.fd = connfd) = some c) (fd : ℤ) :
    received (updateFirst (fun c => c.fd = connfd) (fun c => c.sent w) conns) fd =
      received conns fd ++ if connfd = fd then w.bytes else [] := by
  unfold received
  split_ifs with hfd
  · subst hfd
    have hkeep : ∀ a : Conn, decide (a.fd = connfd) = true →
        decide ((a.sent w).fd = connfd) = true := fun _ ha => ha
    rw [find?_updateFirst_self hkeep, hc]
    rfl
  · rw [find?_updateFirst_ne, List.append_nil]
    intro a ha
    have hne : ¬ a.fd = fd := fun heq => hfd ((of_decide_eq_true ha).symm.trans heq)
    exact ⟨decide_eq_false hne, decide_eq_false hne⟩

lemma sentTo_append (l : List (ℤ × Bytes)) (chunks : List Bytes) (fd : ℤ) :
    sentTo (l ++ chunks.map fun bytes => (connfd, bytes)) fd =
      sentTo l fd ++ if connfd = fd then chunks.flatten else [] := by
  unfold sentTo
  rw [List.filter_append, List.flatMap_append]
  congr 1
  induction chunks with
  | nil => simp
  | cons bytes chunks ih =>
    rw [List.map_cons]
    by_cases hfd : connfd = fd
    · rw [if_pos hfd] at ih ⊢
      rw [List.filter_cons_of_pos (by simpa using hfd), List.flatMap_cons, ih, List.flatten_cons]
    · rw [if_neg hfd] at ih ⊢
      rw [List.filter_cons_of_neg (by simpa using hfd), ih]

lemma Tracks.sentClient (h : Tracks m s (done ++ connfd :: rest ++ tail) sc) (io : Io)
    {w : Written} {chunks : List Bytes} {c : Conn} (buf : Bytes)
    (hflat : chunks.flatten = w.bytes) (herrno : io.errno = w.errno)
    (hmaster : io.toMaster = sc.io.toMaster)
    (hc : sc.io.conns.find? (fun c => c.fd = connfd) = some c)
    (hconns : io.conns = updateFirst (fun c => c.fd = connfd) (fun c => c.sent w) sc.io.conns) :
    Tracks m ((s.sentAll (.client done.length buf) chunks).withErrno w.errno)
      (done ++ connfd :: rest ++ tail) { sc with io } := by
  rw [sentAll_client, h.fdAt]
  refine ⟨h.pool, herrno.symm, hmaster.trans h.toMaster, fun fd => ?_⟩
  change received io.conns fd = _ ++ sentTo (s.toClients ++ _) fd
  rw [hconns, received_updateFirst hc, h.toClients, sentTo_append, hflat, List.append_assoc]

lemma leads_broadcast (hne : buf ≠ []) (h : writeClients buf rest sc = some (slots, sc'))
    (ht : Tracks m s (done ++ rest ++ tail) sc)
    (hl : Layout m (done.length + rest.length) tail) :
    ∃ s', Tracks m s' (done ++ slots ++ tail) sc' ∧
      Leads (s.fromBroadcast buf done.length) (s'.at (.returned 0)) := by
  induction rest generalizing done s sc slots with
  | nil =>
    cases h
    refine ⟨s, ht, ?_⟩
    have hend : s.fromBroadcast buf done.length = s.at (.returned 0) := by
      unfold Pass.fromBroadcast
      rw [ht.pool_slots hl, List.append_nil, List.drop_length]
      rfl
    rw [hend]
    exact Leads.refl _
  | cons connfd rest ih =>
    have hlen : ∀ v : ℤ, (done ++ [v]).length = done.length + 1 := fun v => by simp
    have hl' : ∀ v : ℤ, Layout m ((done ++ [v]).length + rest.length) tail := fun v => by
      rw [hlen, Nat.add_assoc, Nat.add_comm 1]
      exact hl
    -- the rest of the loop, from a state that has done the slot
    have hnext : ∀ {v : ℤ} {t : Pass} {sc₁ : Scan} {out : List ℤ × Scan},
        writeClients buf rest sc₁ = some out → (slots, sc') = (v :: out.1, out.2) →
        Tracks m t (done ++ [v] ++ rest ++ tail) sc₁ →
        ∃ s', Tracks m s' (done ++ slots ++ tail) sc' ∧
          Leads (t.fromBroadcast buf (done.length + 1)) (s'.at (.returned 0)) := by
      rintro v t sc₁ ⟨slots₁, sc₂⟩ hrest heq htr
      cases heq
      obtain ⟨s', htr', hleads⟩ := ih hrest htr (hl' v)
      refine ⟨s', ?_, ?_⟩
      · rwa [List.append_assoc done, List.singleton_append] at htr'
      · rwa [hlen] at hleads
    rw [ht.fromBroadcast hl]
    unfold writeClients at h
    split_ifs at h with hpos
    · rw [if_pos hpos]
      obtain ⟨⟨io, ret⟩, hwrite, hrest⟩ := Option.bind_eq_some_iff.mp h
      obtain ⟨c, hc, hwrite⟩ := Option.bind_eq_some_iff.mp hwrite
      obtain ⟨w, hw, heq⟩ := Option.bind_eq_some_iff.mp hwrite
      obtain ⟨hio, hret⟩ := Prod.mk.inj (Option.some.inj heq)
      obtain ⟨chunks, hflat, hout⟩ := leads_write hw s ht.errno (.client done.length buf)
      have hstart : s.write (.client done.length buf) buf =
          s.at (.write (.client done.length buf) buf) := by
        cases buf with
        | nil => exact absurd rfl hne
        | cons b buf => rfl
      rw [hstart] at hout
      have hsent := ht.sentClient io buf hflat (by rw [← hio]) (by rw [← hio]) hc
        (by rw [← hio])
      rcases hout with ⟨hw', hleads⟩ | ⟨hw', left', hleads⟩
      · have hall : ¬ ret ≠ buf.length := not_not.mpr (hret.symm.trans hw')
        dsimp only at hrest
        rw [if_neg hall] at hrest
        obtain ⟨out, hout', heq'⟩ := Option.bind_eq_some_iff.mp hrest
        obtain ⟨s', htr, hleads'⟩ := hnext hout' (Option.some.inj heq').symm hsent.keep
        exact ⟨s', htr, hleads.trans hleads'⟩
      · have hsome : ret ≠ buf.length := by omega
        dsimp only at hrest
        rw [if_pos hsome] at hrest
        obtain ⟨out, hout', heq'⟩ := Option.bind_eq_some_iff.mp hrest
        obtain ⟨s', htr, hleads'⟩ := hnext hout' (Option.some.inj heq').symm hsent.close
        refine ⟨s', htr, hleads.trans ?_⟩
        rw [giveUp_write]
        exact hleads'
    · rw [if_neg hpos]
      obtain ⟨out, hrest, hout⟩ := Option.bind_eq_some_iff.mp h
      exact hnext hrest (Option.some.inj hout).symm ht.keep

/-! ### The pass -/

/-- The state of a pass is that of the monitor after it. -/
structure Agrees (m m' : Monitor) (s : Pass) : Prop where
  pool : s.pool = m'.pool
  errno : s.errno = m'.io.errno
  toMaster : m'.io.toMaster = m.io.toMaster ++ s.toMaster
  toClients : ∀ fd, received m'.io.conns fd = received m.io.conns fd ++ sentTo s.toClients fd

/-- The slots that a scan does not come to. -/
def tailOf (m : Monitor) : List ℤ := m.pool.clientfd.drop (m.pool.maxi + 1).toNat

lemma layout_slots (m : Monitor) : Layout m m.pool.slots.length (tailOf m) := by
  intro l hl
  unfold tailOf
  unfold Pool.slots at hl
  rw [List.length_take] at hl
  rcases Nat.le_total (m.pool.maxi + 1).toNat m.pool.clientfd.length with hle | hge
  · exact List.take_left' (by omega)
  · rw [List.drop_eq_nil_of_le hge, List.append_nil, List.take_of_length_le (by omega)]

lemma drop_of_layout {n : ℕ} (hl : Layout m n tail) {l : List ℤ} (hn : l.length = n) :
    (l ++ tail).drop (m.pool.maxi + 1).toNat = tail := by
  have hsplit : (l ++ tail).take (m.pool.maxi + 1).toNat ++
      (l ++ tail).drop (m.pool.maxi + 1).toNat = l ++ tail := List.take_append_drop _ _
  rw [hl l hn] at hsplit
  exact List.append_cancel_left hsplit

lemma Tracks.agrees {m₁ : Monitor} (h : Tracks m s (slots ++ tailOf m) sc)
    (hm : (m₁.scanned slots sc).pool =
      { m.pool with clientfd := slots ++ tailOf m, readSet := sc.readSet, nready := sc.nready })
    (point : Point) : Agrees m (m₁.scanned slots sc) (s.at point) :=
  ⟨h.pool.trans hm.symm, h.errno, h.toMaster, h.toClients⟩

lemma nothing_readMaster (s : Pass) (e : ℤ) :
    ((s.poll .readMaster).withErrno e).nothing =
      ((s.poll .readMaster).withErrno e).at (.returned (if e ≠ eintr then 1 else 0)) := by
  unfold Pass.nothing
  change (if e = eintr then _ else _) = _
  by_cases he : e = eintr
  · rw [if_pos he, if_neg (not_not.mpr he)]
    rfl
  · rw [if_neg he, if_pos he]
    rfl

lemma leads_checkMaster {m' : Monitor} {ret : ℤ} (hdata : ∀ fd, reads fd ≠ .data [])
    (hlen : slots.length = m.pool.slots.length) (ht : Tracks m s (slots ++ tailOf m) sc)
    (h : checkMaster reads (m.scanned slots sc) = some (m', ret)) :
    ∃ s' : Pass, Leads s.fromMaster (s'.at (.returned ret)) ∧
      Agrees m m' (s'.at (.returned ret)) := by
  unfold Pass.fromMaster
  unfold checkMaster at h
  have hmaster : s.pool.masterfd = m.pool.masterfd := by rw [ht.pool]
  have hready : s.pool.readySet = m.pool.readySet := by rw [ht.pool]
  rw [hmaster, hready]
  have hscanned : (m.scanned slots sc).pool.masterfd = m.pool.masterfd := rfl
  have hwatched : (m.scanned slots sc).pool.readySet = m.pool.readySet := rfl
  rw [hscanned, hwatched] at h
  split_ifs at h ⊢ with hcond
  · have hlayout := layout_slots m
    rw [← hlen] at hlayout
    cases hread : reads m.pool.masterfd with
    | data buf =>
      have hne : buf ≠ [] := fun hnil => hdata _ (hnil ▸ hread)
      obtain ⟨b, buf, rfl⟩ := List.exists_cons_of_ne_nil hne
      have hslots : (m.scanned slots sc).pool.slots = slots := hlayout slots rfl
      have hdrop : (slots ++ tailOf m).drop (m.pool.maxi + 1).toNat = tailOf m :=
        drop_of_layout hlayout rfl
      rw [hread] at h
      obtain ⟨⟨slots₂, sc₂⟩, hrest, heq⟩ := Option.bind_eq_some_iff.mp h
      rw [hslots] at hrest
      cases heq
      have hstep : (s.poll .readMaster).step (.read (.data (b :: buf))) =
          some ((s.poll .readMaster).fromBroadcast (b :: buf) 0) := rfl
      have hpoll : Tracks m (s.poll .readMaster) ([] ++ slots ++ tailOf m)
          ⟨sc.readSet, sc.nready - 1,
            { sc.io with fromMaster := sc.io.fromMaster ++ b :: buf }⟩ := by
        refine ⟨?_, ht.errno, ht.toMaster, ht.toClients⟩
        unfold Pass.poll
        dsimp only
        rw [ht.pool]
        rfl
      have hlayout' : Layout m (([] : List ℤ).length + slots.length) (tailOf m) := by
        rwa [List.length_nil, Nat.zero_add]
      obtain ⟨s', ht', hleads⟩ := leads_broadcast hne hrest hpoll hlayout'
      refine ⟨s', hleads.head hstep, ht'.agrees ?_ _⟩
      exact congrArg (fun l : List ℤ => { m.pool with
        clientfd := slots₂ ++ l
        readSet := sc₂.readSet
        nready := sc₂.nready }) hdrop
    | eof =>
      rw [hread] at h
      cases h
      have hstep : (s.poll .readMaster).step (.read .eof) =
          some ((s.poll .readMaster).withErrno s.errno).nothing := rfl
      rw [ht.errno, nothing_readMaster] at hstep
      refine ⟨(s.poll .readMaster).withErrno sc.io.errno, ?_, ?_, rfl, ht.toMaster, ht.toClients⟩
      · exact (Leads.refl _).head hstep
      · exact congrArg (fun p : Pool => { p with nready := p.nready - 1 }) ht.pool
    | error e =>
      rw [hread] at h
      cases h
      refine ⟨(s.poll .readMaster).withErrno e, ?_, ?_, rfl, ht.toMaster, ht.toClients⟩
      · exact (Leads.refl _).head (a := .read (.error e)) (congrArg some (nothing_readMaster s e))
      · exact congrArg (fun p : Pool => { p with nready := p.nready - 1 }) ht.pool
  · cases h
    exact ⟨s, Leads.refl _, ht.agrees rfl _⟩

/-- **A pass of the relay** is a run of its calls, which leaves the same pool, has written the
same and returns the same. -/
theorem run_of_checkClientsAndMaster {m m' : Monitor} {ret : ℤ} (hdata : ∀ fd, reads fd ≠ .data [])
    (h : checkClientsAndMaster reads m = some (m', ret)) :
    ∃ results s, run m.pool m.io.errno results = some s ∧ s.point = .returned ret ∧
      Agrees m m' s := by
  obtain ⟨⟨slots, sc, gone⟩, hclients, hrest⟩ := Option.bind_eq_some_iff.mp h
  have hstart : Tracks m ⟨m.pool, m.io.errno, [], [], .returned 0⟩
      ([] ++ m.pool.slots ++ tailOf m) ⟨m.pool.readSet, m.pool.nready, m.io⟩ := by
    have hslots : ([] : List ℤ) ++ m.pool.slots ++ tailOf m = m.pool.clientfd :=
      List.take_append_drop _ _
    rw [hslots]
    exact ⟨rfl, rfl, (List.append_nil _).symm, fun fd => (List.append_nil _).symm⟩
  have hlayout : Layout m (([] : List ℤ).length + m.pool.slots.length) (tailOf m) := by
    rw [List.length_nil, Nat.zero_add]
    exact layout_slots m
  obtain ⟨s, ht, hlen, hleads⟩ := leads_clients hdata hclients hstart hlayout
  dsimp only at hrest
  cases gone with
  | true =>
    cases hrest
    obtain ⟨results, hrun⟩ := hleads
    exact ⟨results, _, hrun, rfl, ht.agrees rfl _⟩
  | false =>
    obtain ⟨s', hmaster, hagrees⟩ := leads_checkMaster hdata hlen ht hrest
    obtain ⟨results, hrun⟩ := hleads.trans hmaster
    exact ⟨results, _, hrun, rfl, hagrees⟩

end Hoststack.RelaySteps
