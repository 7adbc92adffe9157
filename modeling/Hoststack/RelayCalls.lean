import Hoststack.Relay

/-!
The lengths that the relays pass to `write` and `rio_writen`.

A call of `read` returns a signed number, minus one where it fails, and a length is unsigned.
The monitor, the client and the relay of `exec` keep the number in a variable and pass it on;
each call is recorded with what was last read into the buffer it writes from.
-/

namespace Hoststack.RelayCalls

open SocketIo PtyExecUtil

/-- What a call of `read` returns. -/
def ret : ReadResult → ℤ
  | .data bytes => bytes.length
  | .eof => 0
  | .error _ => -1

/-- What a buffer holds after a call of `read` into it. -/
def fill (buf : Bytes) : ReadResult → Bytes
  | .data bytes => bytes
  | .eof => []
  | .error _ => buf

/-- A signed length as a `size_t`. -/
def sizeT (n : ℤ) : ℕ := (n % 2 ^ 64).toNat

/-- A call of `write` or `rio_writen`, with what was read into the buffer last. -/
structure WriteCall where
  fd : ℤ
  buf : Bytes
  length : ℕ

/-- The length is the number of bytes read last. -/
def WriteCall.Sound (c : WriteCall) : Prop := c.length = c.buf.length ∧ c.length ≤ bufSize

instance (c : WriteCall) : Decidable c.Sound := inferInstanceAs (Decidable (_ ∧ _))

/-- What a call of `read` gives is not empty, and fits in the buffer. -/
def Fits (r : ReadResult) : Prop := ∀ buf, r = .data buf → buf ≠ [] ∧ buf.length ≤ bufSize

/-! ### The monitor -/

/-- The header is sent to a client with the length that the first read returned. -/
def acceptCalls (header : ReadResult) (listenfd : ℤ) (accept : AcceptResult) (m : Monitor) :
    List WriteCall :=
  if listenfd ∈ m.pool.readySet then
    match accept with
    | .conn connfd _ => [⟨connfd, fill [] header, sizeT (ret header)⟩]
    | .error _ => []
  else []

/-- The calls of the loop over the slots. -/
def clientCalls (masterfd : ℤ) (ready : Finset ℤ) (reads : ℤ → ReadResult) :
    List ℤ → Scan → List WriteCall
  | [], _ => []
  | connfd :: rest, s =>
    if s.nready > 0 then
      if connfd > 0 ∧ connfd ∈ ready then
        let s := s.poll connfd
        match reads connfd with
        | .data buf =>
          let io := { s.io with chunks := s.io.chunks ++ [(connfd, buf)] }
          ⟨masterfd, buf, sizeT buf.length⟩ ::
            match io.writeMaster buf with
            | some (io, ret) =>
              if ret ≤ 0 then [] else clientCalls masterfd ready reads rest { s with io }
            | none => []
        | r =>
          let errno := r.errno s.io.errno
          let io := { s.io with errno }
          if errno ≠ eintr then
            clientCalls masterfd ready reads rest
              { s with io, readSet := s.readSet.erase connfd }
          else clientCalls masterfd ready reads rest { s with io }
      else clientCalls masterfd ready reads rest s
    else []

/-- The calls of the loop that sends to all clients. -/
def broadcastCalls (buf : Bytes) : List ℤ → Scan → List WriteCall
  | [], _ => []
  | connfd :: rest, s =>
    if connfd > 0 then
      ⟨connfd, buf, sizeT buf.length⟩ ::
        match s.io.writeConn connfd buf with
        | some (io, ret) =>
          if ret ≠ buf.length then
            broadcastCalls buf rest { s with io, readSet := s.readSet.erase connfd }
          else broadcastCalls buf rest { s with io }
        | none => []
    else broadcastCalls buf rest s

def masterCalls (reads : ℤ → ReadResult) (m : Monitor) : List WriteCall :=
  if m.pool.masterfd ≠ -1 ∧ m.pool.masterfd ∈ m.pool.readySet then
    match reads m.pool.masterfd with
    | .data buf =>
      let io := { m.io with fromMaster := m.io.fromMaster ++ buf }
      broadcastCalls buf m.pool.slots ⟨m.pool.readSet, m.pool.nready - 1, io⟩
    | _ => []
  else []

def checkCalls (reads : ℤ → ReadResult) (m : Monitor) : List WriteCall :=
  let s : Scan := ⟨m.pool.readSet, m.pool.nready, m.io⟩
  clientCalls m.pool.masterfd m.pool.readySet reads m.pool.slots s ++
    match checkClients m.pool.readySet reads m.pool.slots s with
    | some (slots, s, false) => masterCalls reads (m.scanned slots s)
    | _ => []

/-- The monitor as it goes on after `select`, unless that was interrupted. -/
def selected (ans : Answers) (m : Monitor) : Option Monitor :=
  let io := { m.io with polled := [] }
  match ans.select with
  | .ready fds => some ⟨{ m.pool with readySet := fds, nready := fds.card }, io⟩
  | .error e =>
    if e = eintr then none
    else some ⟨{ m.pool with readySet := m.pool.readSet, nready := -1 }, { io with errno := e }⟩

/-- The calls of a pass of the loop. Where the header has not been read, what follows its
sending is undefined. -/
def passCalls (header : ReadResult) (listenfd : ℤ) (ans : Answers) (m : Monitor) :
    List WriteCall :=
  match selected ans m with
  | none => []
  | some m =>
    let calls := acceptCalls header listenfd ans.accept m
    calls ++
      if calls ≠ [] ∧ ret header < 0 then []
      else
        match acceptReady (fill [] header) listenfd ans.accept m with
        | some m => checkCalls ans.reads m
        | none => []

/-- The monitor, which may have left its loop, and the calls so far. -/
structure Monitoring where
  monitor : Option Monitor
  calls : List WriteCall

/-- The loop of `pty_run_container`. -/
def monitoring (header : ReadResult) (listenfd masterfd : ℤ) : Machine Monitoring Answers where
  init s := s.calls = [] ∧
    ∃ m, s.monitor = some m ∧ (machine (fill [] header) listenfd masterfd).init m
  step s ans := do
    let m ← s.monitor
    let sent := (selected ans m).any fun m => acceptCalls header listenfd ans.accept m ≠ []
    some {
      monitor :=
        if sent ∧ ret header < 0 then none
        else (machine (fill [] header) listenfd masterfd).step m ans
      calls := s.calls ++ passCalls header listenfd ans m }

/-! ### The terminal of a user -/

/-- `STDIN_FILENO` -/
def stdin : ℤ := 0

/-- `STDOUT_FILENO` -/
def stdout : ℤ := 1

/-- A relay between a terminal and a descriptor: the buffer, the calls so far, what has been
read from standard input, what has been written to the descriptor, whether a call of
`rio_writen` to it has failed or not come back, and whether the loop goes on. -/
structure Terminal where
  errno : ℤ
  buf : Bytes
  calls : List WriteCall
  fromStdin : Bytes
  toPeer : Bytes
  failed : Bool
  running : Bool

def Terminal.initial : Terminal := ⟨0, [], [], [], [], false, true⟩

namespace Terminal

def stop (t : Terminal) : Terminal := { t with running := false }

def read (t : Terminal) (r : ReadResult) : Terminal :=
  { t with errno := r.errno t.errno, buf := fill t.buf r }

/-- The standard input is read into the buffer. -/
def readStdin (t : Terminal) (r : ReadResult) : Terminal :=
  { t.read r with fromStdin := t.fromStdin ++ fill [] r }

/-- A call with the length `n`. -/
def calling (t : Terminal) (fd n : ℤ) : Terminal :=
  { t with calls := t.calls ++ [⟨fd, t.buf, sizeT n⟩] }

/-- `rio_writen` to the peer, after which the loop goes on if all is written. What happens with
a negative length is undefined. -/
def writePeer (t : Terminal) (fd n : ℤ) (results : List WriteResult) : Terminal :=
  let t := t.calling fd n
  if n < 0 then { t.stop with failed := true }
  else
    match rioWriten t.buf t.errno results with
    | none => { t.stop with failed := true }
    | some w =>
      let t := { t with errno := w.errno, toPeer := t.toPeer ++ w.bytes, failed := w.ret < 0 }
      if w.ret ≤ 0 then t.stop else t

end Terminal

/-- What the system answers in a turn of the loop of `pty_client`. -/
structure ClientAnswers where
  select : SelectResult
  stdin : ReadResult
  toServer : List WriteResult
  server : ReadResult
  toStdout : List WriteResult

/-- A `select` that fails leaves the set as it was. -/
def clientReady (clientfd : ℤ) : SelectResult → Finset ℤ
  | .ready fds => fds
  | .error _ => {stdin, clientfd}

/-- The part from the terminal to the socket. -/
def clientInput (clientfd : ℤ) (ans : ClientAnswers) (t : Terminal) : Terminal :=
  if stdin ∈ clientReady clientfd ans.select then
    let t := t.readStdin ans.stdin
    if ret ans.stdin ≤ 0 then t.stop else t.writePeer clientfd (ret ans.stdin) ans.toServer
  else t

/-- The part from the socket to the terminal; a write that is not complete ends the process. -/
def clientOutput (clientfd : ℤ) (ans : ClientAnswers) (t : Terminal) : Terminal :=
  if clientfd ∈ clientReady clientfd ans.select then
    let t := t.read ans.server
    let n := ret ans.server
    if n ≤ 0 then t.stop
    else
      let t := t.calling stdout n
      match rioWriten t.buf t.errno ans.toStdout with
      | none => t.stop
      | some w => if w.ret ≠ n then t.stop else { t with errno := w.errno }
  else t

/-- The loop of `pty_client`. -/
def client (clientfd : ℤ) : Machine Terminal ClientAnswers where
  init t := t = .initial
  step t ans :=
    if t.running then
      let t := clientInput clientfd ans t
      some (if t.running then clientOutput clientfd ans t else t)
    else none

/-- What the system answers in a turn of the loop of `pty_exec`. -/
structure ExecAnswers where
  select : SelectResult
  stdin : ReadResult
  toMaster : List WriteResult
  master : ReadResult
  toStdout : WriteResult

/-- The descriptors that `pty_exec` waits for. -/
def execWatched (detach : Bool) (masterFd : ℤ) : Finset ℤ :=
  if detach then {masterFd} else {stdin, masterFd}

/-- What is ready after `select`, unless it was interrupted. -/
def execReady (detach : Bool) (masterFd : ℤ) : SelectResult → Option (Finset ℤ)
  | .ready fds => some fds
  | .error e => if e = eintr then none else some (execWatched detach masterFd)

/-- The part from the terminal to the pseudoterminal. A read that gives nothing ends the loop
unless `errno` says it was interrupted. -/
def execInput (masterFd : ℤ) (ready : Finset ℤ) (ans : ExecAnswers) (t : Terminal) : Terminal :=
  if stdin ∈ ready then
    let t := t.readStdin ans.stdin
    if ret ans.stdin ≤ 0 ∧ t.errno ≠ eintr then t.stop
    else t.writePeer masterFd (ret ans.stdin) ans.toMaster
  else t

/-- What a single call of `write` returns for `n` bytes. -/
def writeRet (n : ℤ) : WriteResult → ℤ
  | .wrote more => min (more + 1) n
  | .zero => 0
  | .error _ => -1

/-- The part from the pseudoterminal to the terminal. -/
def execOutput (masterFd : ℤ) (ready : Finset ℤ) (ans : ExecAnswers) (t : Terminal) : Terminal :=
  if masterFd ∈ ready then
    let t := t.read ans.master
    let n := ret ans.master
    if n ≤ 0 ∧ t.errno ≠ eintr then t.stop
    else
      let t := t.calling stdout n
      if n < 0 ∨ writeRet n ans.toStdout ≠ n then t.stop else t
  else t

/-- The loop of `pty_exec`. -/
def exec (detach : Bool) (masterFd : ℤ) : Machine Terminal ExecAnswers where
  init t := t = .initial
  step t ans :=
    if t.running then
      match execReady detach masterFd ans.select with
      | none => some { t with errno := eintr }
      | some ready =>
        let t := execInput masterFd ready ans t
        some (if t.running then execOutput masterFd ready ans t else t)
    else none

/-! ### One call -/

variable {r header : ReadResult} {buf : Bytes} {fd n : ℤ} {t t' : Terminal}

lemma sound_iff (h : Fits r) : WriteCall.Sound ⟨fd, fill buf r, sizeT (ret r)⟩ ↔ 0 ≤ ret r := by
  cases r with
  | data bytes =>
    have hle : bytes.length ≤ bufSize := (h bytes rfl).2
    have hsize : sizeT (bytes.length : ℤ) = bytes.length := by
      unfold bufSize at hle
      unfold sizeT
      omega
    exact iff_of_true ⟨hsize, hsize.trans_le hle⟩ (Int.natCast_nonneg _)
  | eof => exact iff_of_true ⟨rfl, Nat.zero_le _⟩ le_rfl
  | error e =>
    have hsize : ¬ sizeT (-1) ≤ bufSize := by decide
    exact iff_of_false (fun hs => hsize hs.2) (show ¬ (0 : ℤ) ≤ -1 by decide)

lemma sound_data (h : Fits (.data buf)) : WriteCall.Sound ⟨fd, buf, sizeT buf.length⟩ := by
  have hiff : WriteCall.Sound ⟨fd, fill [] (.data buf), _⟩ ↔ 0 ≤ ret (.data buf) := sound_iff h
  exact hiff.mpr (Int.natCast_nonneg _)

/-! ### The calls of the monitor -/

variable {reads : ℤ → ReadResult} {masterfd listenfd : ℤ} {ready : Finset ℤ}

lemma clientCalls_sound (hr : ∀ fd, Fits (reads fd)) (slots : List ℤ) (s : Scan) :
    ∀ c ∈ clientCalls masterfd ready reads slots s, c.Sound := by
  induction slots generalizing s with
  | nil => simp [clientCalls]
  | cons fd rest ih =>
    unfold clientCalls
    split_ifs with hleft hready
    · cases hread : reads fd with
      | data buf =>
        refine List.forall_mem_cons.mpr ⟨sound_data (hread ▸ hr fd), ?_⟩
        split
        · split_ifs
          · simp
          · exact ih _
        · simp
      | eof | error e =>
        dsimp only
        split_ifs
        · exact ih _
        · exact ih _
    · exact ih _
    · simp

lemma clientCalls_eq {slots slots' : List ℤ} {s s' : Scan} {gone : Bool}
    (h : checkClients ready reads slots s = some (slots', s', gone)) :
    ∃ l, s'.io.chunks = s.io.chunks ++ l ∧
      clientCalls masterfd ready reads slots s =
        l.map fun x => ⟨masterfd, x.2, sizeT x.2.length⟩ := by
  induction slots generalizing s slots' with
  | nil =>
    cases h
    exact ⟨[], by simp, rfl⟩
  | cons fd rest ih =>
    unfold checkClients at h
    unfold clientCalls
    split_ifs at h ⊢ with hleft hready
    · cases hr : reads fd with
      | data buf =>
        rw [hr] at h
        obtain ⟨⟨io, ret⟩, hwrite, hrest⟩ := Option.bind_eq_some_iff.mp h
        have hchunks : io.chunks = s.io.chunks ++ [(fd, buf)] := by
          obtain ⟨w, -, heq⟩ := Option.bind_eq_some_iff.mp hwrite
          cases heq
          rfl
        dsimp only at hrest ⊢
        rw [hwrite]
        dsimp only
        split_ifs at hrest ⊢ with hret
        · cases hrest
          exact ⟨[(fd, buf)], hchunks, rfl⟩
        · obtain ⟨⟨rest', s₁, gone⟩, hloop, heq⟩ := Option.bind_eq_some_iff.mp hrest
          cases heq
          obtain ⟨l, hl, hcalls⟩ := ih hloop
          refine ⟨(fd, buf) :: l, ?_, by rw [hcalls]; rfl⟩
          rw [hl]
          dsimp only
          rw [hchunks, List.append_assoc]
          rfl
      | eof | error e =>
        rw [hr] at h
        dsimp only at h ⊢
        split_ifs at h ⊢ with herrno
        · obtain ⟨⟨rest', s₁, gone⟩, hloop, heq⟩ := Option.bind_eq_some_iff.mp h
          cases heq
          exact ih hloop
        · obtain ⟨⟨rest', s₁, gone⟩, hloop, heq⟩ := Option.bind_eq_some_iff.mp h
          cases heq
          exact ih hloop
    · obtain ⟨⟨rest', s₁, gone⟩, hloop, heq⟩ := Option.bind_eq_some_iff.mp h
      cases heq
      exact ih hloop
    · cases h
      exact ⟨[], by simp, rfl⟩

lemma broadcastCalls_eq {slots slots' : List ℤ} {s s' : Scan}
    (h : writeClients buf slots s = some (slots', s')) :
    (broadcastCalls buf slots s).foldlM
      (fun io c => (io.writeConn c.fd c.buf).map Prod.fst) s.io = some s'.io := by
  induction slots generalizing s slots' with
  | nil =>
    cases h
    rfl
  | cons fd rest ih =>
    unfold writeClients at h
    unfold broadcastCalls
    split_ifs at h ⊢ with hpos
    · obtain ⟨⟨io, ret⟩, hwrite, hrest⟩ := Option.bind_eq_some_iff.mp h
      dsimp only at hrest ⊢
      rw [hwrite, List.foldlM_cons, hwrite]
      dsimp only [Option.map_some]
      split_ifs at hrest ⊢ with hret
      · obtain ⟨⟨rest', s₁⟩, hloop, heq⟩ := Option.bind_eq_some_iff.mp hrest
        cases heq
        exact ih hloop
      · obtain ⟨⟨rest', s₁⟩, hloop, heq⟩ := Option.bind_eq_some_iff.mp hrest
        cases heq
        exact ih hloop
    · obtain ⟨⟨rest', s₁⟩, hloop, heq⟩ := Option.bind_eq_some_iff.mp h
      cases heq
      exact ih hloop

lemma broadcastCalls_sound (h : Fits (.data buf)) (slots : List ℤ) (s : Scan) :
    ∀ c ∈ broadcastCalls buf slots s, c.Sound := by
  induction slots generalizing s with
  | nil => simp [broadcastCalls]
  | cons fd rest ih =>
    unfold broadcastCalls
    split_ifs with hpos
    · refine List.forall_mem_cons.mpr ⟨sound_data h, ?_⟩
      split
      · split_ifs
        · exact ih _
        · exact ih _
      · simp
    · exact ih _

lemma masterCalls_sound (hr : ∀ fd, Fits (reads fd)) (m : Monitor) :
    ∀ c ∈ masterCalls reads m, c.Sound := by
  unfold masterCalls
  split_ifs
  · cases hread : reads m.pool.masterfd with
    | data buf => exact broadcastCalls_sound (hread ▸ hr _) _ _
    | eof | error e => simp
  · simp

lemma checkCalls_sound (hr : ∀ fd, Fits (reads fd)) (m : Monitor) :
    ∀ c ∈ checkCalls reads m, c.Sound := by
  unfold checkCalls
  refine List.forall_mem_append.mpr ⟨clientCalls_sound hr _ _, ?_⟩
  split
  · exact masterCalls_sound hr _
  · simp

lemma acceptCalls_sound (hh : Fits header) (hret : 0 ≤ ret header) (accept : AcceptResult)
    (m : Monitor) : ∀ c ∈ acceptCalls header listenfd accept m, c.Sound := by
  unfold acceptCalls
  split_ifs
  · cases accept with
    | conn connfd writes => simpa using (sound_iff hh).mpr hret
    | error e => simp
  · simp

lemma passCalls_sound (hh : Fits header) (hret : 0 ≤ ret header) {ans : Answers}
    (hr : ∀ fd, Fits (ans.reads fd)) (m : Monitor) :
    ∀ c ∈ passCalls header listenfd ans m, c.Sound := by
  unfold passCalls
  split
  · simp
  · refine List.forall_mem_append.mpr ⟨acceptCalls_sound hh hret _ _, ?_⟩
    rw [if_neg fun h => absurd h.2 (by omega)]
    split
    · exact checkCalls_sound hr _
    · simp

/-- Every outcome of the reads is possible that a read can have. -/
def ReadsFit (_ : Monitoring) (ans : Answers) : Prop := ∀ fd, Fits (ans.reads fd)

lemma monitoring_sound (hh : Fits header) (hret : 0 ≤ ret header) {s : Monitoring}
    (h : (monitoring header listenfd masterfd).Reach ReadsFit s) : ∀ c ∈ s.calls, c.Sound := by
  refine h.invariant (I := fun s => ∀ c ∈ s.calls, c.Sound) (fun s hs => ?_) ?_
  · rw [hs.1]
    simp
  · intro s ans s' hi hr hs
    obtain ⟨m, -, hs⟩ := Option.bind_eq_some_iff.mp hs
    cases hs
    exact List.forall_mem_append.mpr ⟨hi, passCalls_sound hh hret hr m⟩

/-- Where the header has not been read, the first client is sent what is not there. -/
lemma monitoring_unsound (hh : Fits header) (hret : ret header < 0) (listenfd masterfd : ℤ) :
    ∃ s, (monitoring header listenfd masterfd).Reach ReadsFit s ∧ ¬ ∀ c ∈ s.calls, c.Sound := by
  let connfd := max listenfd masterfd + 1
  let m : Monitor := ⟨initPool listenfd masterfd, ⟨0, [], [], [], [], [], []⟩⟩
  let ans : Answers := ⟨.ready {listenfd}, .conn connfd [], fun _ => .eof⟩
  have hstart : (monitoring header listenfd masterfd).Reach ReadsFit ⟨some m, []⟩ :=
    .start ⟨rfl, m, rfl, rfl, rfl, rfl, rfl, rfl, rfl⟩
  refine ⟨_, hstart.step (a := ans) (fun fd buf h => by cases h) rfl, fun hall => ?_⟩
  have hcall : ⟨connfd, fill [] header, sizeT (ret header)⟩ ∈
      ([] ++ passCalls header listenfd ans m : List WriteCall) := by
    simp [passCalls, selected, acceptCalls, ans]
  exact absurd ((sound_iff hh).mp (hall _ hcall)) (by omega)

/-! ### The calls of a terminal -/

/-- All calls so far pass the number of bytes read last. -/
def AllSound (t : Terminal) : Prop := ∀ c ∈ t.calls, c.Sound

lemma allSound_calling (h : Fits r) (hb : t.buf = fill buf r) (hs : AllSound t) :
    AllSound (t.calling fd (ret r)) ↔ 0 ≤ ret r := by
  have hcall : WriteCall.Sound ⟨fd, fill buf r, sizeT (ret r)⟩ ↔ 0 ≤ ret r := sound_iff h
  rw [← hcall, ← hb]
  refine List.forall_mem_append.trans ?_
  simp only [List.forall_mem_singleton]
  exact and_iff_right hs

lemma calls_writePeer (results : List WriteResult) :
    (t.writePeer fd n results).calls = (t.calling fd n).calls := by
  unfold Terminal.writePeer
  dsimp only
  split_ifs
  · rfl
  · split
    · rfl
    · split_ifs <;> rfl

lemma allSound_writePeer (results : List WriteResult) :
    AllSound (t.writePeer fd n results) ↔ AllSound (t.calling fd n) := by
  unfold AllSound
  rw [calls_writePeer]

lemma errno_of_interrupted {e : ℤ} (hneg : ret r < 0) (he : r.errno e = eintr) :
    r = .error eintr := by
  cases r with
  | data bytes => exact absurd hneg (by simp [ret])
  | eof => exact absurd hneg (by simp [ret])
  | error e => exact congrArg _ he

lemma clientInput_sound {clientfd : ℤ} {ans : ClientAnswers} (hf : Fits ans.stdin)
    (hs : AllSound t) : AllSound (clientInput clientfd ans t) := by
  unfold clientInput
  split_ifs with hready hret
  · exact hs
  · refine (allSound_writePeer _).mpr ?_
    exact (allSound_calling (t := t.readStdin ans.stdin) hf rfl hs).mpr (by omega)
  · exact hs

lemma clientOutput_sound {clientfd : ℤ} {ans : ClientAnswers} (hf : Fits ans.server)
    (hs : AllSound t) : AllSound (clientOutput clientfd ans t) := by
  unfold clientOutput
  split_ifs with hready
  · dsimp only
    split_ifs with hret
    · exact hs
    · have hcall : AllSound ((t.read ans.server).calling stdout (ret ans.server)) :=
        (allSound_calling (t := t.read ans.server) hf rfl hs).mpr (by omega)
      split
      · exact hcall
      · split_ifs
        · exact hcall
        · exact hcall
  · exact hs

lemma client_sound {clientfd : ℤ}
    (h : (client clientfd).Reach (fun _ ans => Fits ans.stdin ∧ Fits ans.server) t) :
    AllSound t := by
  refine h.invariant (fun t ht => ?_) ?_
  · rw [ht]
    simp [AllSound, Terminal.initial]
  · intro t ans t' hi hf hs
    simp only [client] at hs
    split_ifs at hs with hrun hgo
    · cases hs
      exact clientOutput_sound hf.2 (clientInput_sound hf.1 hi)
    · cases hs
      exact clientInput_sound hf.1 hi

lemma nonneg_iff {p : Prop} (hp : p) {errno : ℤ}
    (hstop : ¬ (ret r ≤ 0 ∧ r.errno errno ≠ eintr)) :
    0 ≤ ret r ↔ (p → r ≠ .error eintr) := by
  constructor
  · rintro hret - rfl
    exact absurd hret (by decide)
  · intro hne
    by_contra hneg
    refine hne hp (errno_of_interrupted (by omega) (e := errno) ?_)
    by_contra he
    exact hstop ⟨by omega, he⟩

lemma execInput_sound_iff {ans : ExecAnswers} (hf : Fits ans.stdin) (hs : AllSound t) :
    AllSound (execInput masterfd ready ans t) ↔
      (stdin ∈ ready → ans.stdin ≠ .error eintr) := by
  unfold execInput
  split_ifs with hready
  · dsimp only
    split_ifs with hstop
    · refine iff_of_true hs fun _ heq => hstop.2 ?_
      rw [Terminal.readStdin, Terminal.read, heq]
      rfl
    · rw [allSound_writePeer, allSound_calling (t := t.readStdin ans.stdin) hf rfl hs]
      exact nonneg_iff hready hstop
  · exact iff_of_true hs fun h => absurd h hready

lemma execOutput_sound_iff {ans : ExecAnswers} (hf : Fits ans.master) (hs : AllSound t) :
    AllSound (execOutput masterfd ready ans t) ↔
      (masterfd ∈ ready → ans.master ≠ .error eintr) := by
  unfold execOutput
  split_ifs with hready
  · dsimp only
    split_ifs with hstop hwrite
    · refine iff_of_true hs fun _ heq => hstop.2 ?_
      rw [Terminal.read, heq]
      rfl
    · exact (allSound_calling (t := t.read ans.master) hf rfl hs).trans (nonneg_iff hready hstop)
    · exact (allSound_calling (t := t.read ans.master) hf rfl hs).trans (nonneg_iff hready hstop)
  · exact iff_of_true hs fun h => absurd h hready

lemma allSound_of_execOutput {ans : ExecAnswers} (h : AllSound (execOutput masterfd ready ans t)) :
    AllSound t := by
  unfold execOutput at h
  split_ifs at h
  · dsimp only at h
    split_ifs at h
    · exact h
    · exact (List.forall_mem_append.mp h).1
    · exact (List.forall_mem_append.mp h).1
  · exact h

/-- No read that the turn comes to is interrupted. -/
def Uninterrupted (detach : Bool) (masterFd : ℤ) (t : Terminal) (ans : ExecAnswers) : Prop :=
  ∀ ready ∈ execReady detach masterFd ans.select,
    (stdin ∈ ready → ans.stdin ≠ .error eintr) ∧
      ((execInput masterFd ready ans t).running = true → masterFd ∈ ready →
        ans.master ≠ .error eintr)

variable {detach : Bool} {ans : ExecAnswers}

lemma exec_step_iff (hin : Fits ans.stdin) (hout : Fits ans.master) (hs : AllSound t)
    (hstep : (exec detach masterfd).step t ans = some t') :
    AllSound t' ↔ Uninterrupted detach masterfd t ans := by
  simp only [exec] at hstep
  split_ifs at hstep
  unfold Uninterrupted
  rcases hready : execReady detach masterfd ans.select with _ | ready
  · rw [hready] at hstep
    cases hstep
    exact iff_of_true hs (by simp)
  · rw [hready] at hstep
    cases hstep
    simp only [Option.mem_some_iff, forall_eq']
    have hinput : AllSound (execInput masterfd ready ans t) ↔
        (stdin ∈ ready → ans.stdin ≠ .error eintr) := execInput_sound_iff hin hs
    by_cases hstdin : stdin ∈ ready → ans.stdin ≠ .error eintr
    · rw [and_iff_right hstdin]
      split_ifs with hgo
      · exact (execOutput_sound_iff hout (hinput.mpr hstdin)).trans (by simp [hgo])
      · exact iff_of_true (hinput.mpr hstdin) fun h => absurd h hgo
    · refine iff_of_false (fun hall => hstdin (hinput.mp ?_)) fun h => hstdin h.1
      split_ifs at hall
      · exact allSound_of_execOutput hall
      · exact hall

/-! ### What `exec` writes to the container -/

/-- What has been written is what was read, up to a call of `rio_writen` that failed, after
which the loop ends. -/
structure Streamed (t : Terminal) : Prop where
  written : t.toPeer <+: t.fromStdin
  whole : t.failed = false → t.toPeer = t.fromStdin
  running : t.running = true → t.failed = false

lemma Streamed.stop (h : Streamed t) : Streamed t.stop :=
  ⟨h.written, h.whole, fun hr => by cases hr⟩

lemma Streamed.writePeer (h : Streamed t) (hrun : t.running = true)
    (results : List WriteResult) :
    Streamed ((t.readStdin r).writePeer fd (ret r) results) := by
  have hwhole := h.whole (h.running hrun)
  have hfront : t.toPeer <+: t.fromStdin ++ fill [] r := by
    rw [hwhole]
    exact List.prefix_append _ _
  unfold Terminal.writePeer
  dsimp only
  split_ifs with hneg
  · exact ⟨hfront, fun hf => (by cases hf), fun hr => (by cases hr)⟩
  · have hfill : fill t.buf r = fill [] r := by
      cases r with
      | error e => exact absurd (show (-1 : ℤ) < 0 by decide) hneg
      | _ => rfl
    split
    · exact ⟨hfront, fun hf => (by cases hf), fun hr => (by cases hr)⟩
    · rename_i w hw
      obtain ⟨-, hbytes, hout⟩ := rioWriten_spec hw
      have hbytes : w.bytes <+: fill [] r := hfill ▸ hbytes
      have hwritten : t.toPeer ++ w.bytes <+: t.fromStdin ++ fill [] r := by
        rw [hwhole]
        exact (List.prefix_append_right_inj _).mpr hbytes
      have hall : decide (w.ret < 0) = false → t.toPeer ++ w.bytes = t.fromStdin ++ fill [] r := by
        intro hret
        rcases hout with ⟨-, heq⟩ | ⟨hret', -⟩
        · rw [hwhole, heq, ← hfill]
          rfl
        · rw [hret'] at hret
          cases hret
      split_ifs with hret
      · exact ⟨hwritten, hall, fun hr => by cases hr⟩
      · exact ⟨hwritten, hall, fun _ => decide_eq_false (by omega)⟩

lemma Streamed.input (h : Streamed t) (hrun : t.running = true) :
    Streamed (execInput masterfd ready ans t) := by
  unfold execInput
  split_ifs with hready
  · dsimp only
    split_ifs with hstop
    · have hfill : fill [] ans.stdin = [] := by
        rcases hr : ans.stdin with bytes | - | e
        · rw [hr] at hstop
          have : bytes.length = 0 := by
            have := hstop.1
            simp only [ret] at this
            omega
          exact List.eq_nil_of_length_eq_zero this
        · rfl
        · rfl
      refine ⟨?_, fun hf => ?_, fun hr => by cases hr⟩
      · change t.toPeer <+: t.fromStdin ++ fill [] ans.stdin
        rw [hfill, List.append_nil]
        exact h.written
      · change t.toPeer = t.fromStdin ++ fill [] ans.stdin
        rw [hfill, List.append_nil]
        exact h.whole hf
    · exact h.writePeer hrun _
  · exact h

lemma Streamed.output (h : Streamed t) : Streamed (execOutput masterfd ready ans t) := by
  unfold execOutput
  split_ifs
  · dsimp only
    split_ifs
    · exact ⟨h.written, h.whole, fun hr => by cases hr⟩
    · exact ⟨h.written, h.whole, fun hr => by cases hr⟩
    · exact ⟨h.written, h.whole, h.running⟩
  · exact h

lemma Streamed.step (h : Streamed t) (hs : (exec detach masterfd).step t ans = some t') :
    Streamed t' := by
  simp only [exec] at hs
  split_ifs at hs with hrun
  rcases hready : execReady detach masterfd ans.select with _ | ready
  · rw [hready] at hs
    cases hs
    exact ⟨h.written, h.whole, h.running⟩
  · rw [hready] at hs
    cases hs
    have hin : Streamed (execInput masterfd ready ans t) := h.input hrun
    split_ifs
    · exact hin.output
    · exact hin

/-- The reads of a turn give what a read can give, and none that is made is interrupted. -/
def Undisturbed (detach : Bool) (masterFd : ℤ) (t : Terminal) (ans : ExecAnswers) : Prop :=
  (Fits ans.stdin ∧ Fits ans.master) ∧ Uninterrupted detach masterFd t ans

lemma exec_sound (h : (exec detach masterfd).Reach (Undisturbed detach masterfd) t) :
    AllSound t ∧ Streamed t := by
  refine h.invariant (I := fun t => AllSound t ∧ Streamed t) (fun t ht => ?_) ?_
  · rw [ht]
    exact ⟨by simp [AllSound, Terminal.initial], List.prefix_rfl, fun _ => rfl, fun _ => rfl⟩
  · intro t ans t' hi hc hs
    exact ⟨(exec_step_iff hc.1.1 hc.1.2 hi.1 hs).mpr hc.2, hi.2.step hs⟩

/-- **Only what was read is written**: the monitor does so, whatever the outcomes are, exactly
when its first read has not failed; the client always does; and `exec` does as long as no read
it makes is interrupted, in which case what it has written to the container is what it has read
from its standard input, up to a write that failed, and no further. -/
theorem writes_what_was_read (header : ReadResult) (hh : Fits header)
    (listenfd masterfd clientfd execMaster : ℤ) (detach : Bool) :
    ((∀ s, (monitoring header listenfd masterfd).Reach ReadsFit s → ∀ c ∈ s.calls, c.Sound) ↔
      0 ≤ ret header) ∧
    (∀ t, (client clientfd).Reach (fun _ ans => Fits ans.stdin ∧ Fits ans.server) t →
      AllSound t) ∧
    (∀ t, (exec detach execMaster).Reach (Undisturbed detach execMaster) t →
      AllSound t ∧ t.toPeer <+: t.fromStdin ∧ (t.failed = false → t.toPeer = t.fromStdin) ∧
      ∀ ans t', Fits ans.stdin → Fits ans.master →
        (exec detach execMaster).step t ans = some t' →
        (AllSound t' ↔ Uninterrupted detach execMaster t ans)) := by
  refine ⟨⟨fun hall => ?_, fun hret s hs => monitoring_sound hh hret hs⟩,
    fun t ht => client_sound ht, fun t ht => ?_⟩
  · by_contra hneg
    obtain ⟨s, hs, hbad⟩ := monitoring_unsound hh (by omega) listenfd masterfd
    exact hbad (hall s hs)
  · obtain ⟨hsound, hstream⟩ := exec_sound ht
    exact ⟨hsound, hstream.written, hstream.whole,
      fun ans t' hin hout hs => exec_step_iff hin hout hsound hs⟩

/-- A user types two bytes, and the container prints one. -/
def echoed : ExecAnswers where
  select := .ready {0, 5}
  stdin := .data [104, 105]
  toMaster := [.wrote 1]
  master := .data [104]
  toStdout := .wrote 0

lemma fits_echoed : Fits echoed.stdin ∧ Fits echoed.master := by
  constructor <;> rintro buf ⟨⟩ <;> decide

theorem writes_what_was_read_echoed :
    ∃ t, (exec false 5).runs .initial [echoed] = some t ∧ AllSound t ∧
      t.toPeer = [104, 105] := by
  have hstart : (exec false 5).Reach (Undisturbed false 5) .initial := .start rfl
  have hrun : Uninterrupted false 5 .initial echoed :=
    fun ready _ => ⟨fun _ h => (by cases h), fun _ _ h => (by cases h)⟩
  have hheader : Fits (.data [36]) := by
    rintro buf ⟨⟩
    decide
  have hreach := hstart.step (a := echoed) ⟨fits_echoed, hrun⟩ rfl
  obtain ⟨hsound, -, hwhole, -⟩ :=
    (writes_what_was_read (.data [36]) hheader 4 5 3 5 false).2.2 _ hreach
  exact ⟨_, rfl, hsound, hwhole rfl⟩

/-- A signal comes while the standard input is read. -/
def disturbed : ExecAnswers := { echoed with stdin := .error eintr }

theorem writes_unread : ¬ ∀ t,
    (exec false 5).Reach (fun _ ans => Fits ans.stdin ∧ Fits ans.master) t → AllSound t := by
  intro h
  have hfits : Fits disturbed.stdin ∧ Fits disturbed.master :=
    ⟨fun buf hb => (by cases hb), fits_echoed.2⟩
  have hstart : (exec false 5).Reach (fun _ ans => Fits ans.stdin ∧ Fits ans.master) .initial :=
    .start rfl
  have hsound := h _ (hstart.step (a := disturbed) hfits rfl)
  have hcall : WriteCall.Sound ⟨5, [], 2 ^ 64 - 1⟩ := hsound _ (List.mem_singleton_self _)
  exact absurd hcall (by decide)

end Hoststack.RelayCalls
