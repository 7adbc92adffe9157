import Hoststack.RelayCalls

/-!
The terminals of users at a container, from end to end.

Each user has a process that hands on what is typed to the monitor over a connection of its own,
and shows what comes back. The monitor's passes and the turns of these processes come in any
order. What is on its way in a connection is what one side has written and the other has not read.
-/

namespace Hoststack.Sessions

open SocketIo PtyExecUtil Relay RelayCalls

/-! ### What a pass does to the connections -/

/-- A connection has received more, if anything. -/
structure Extends (c c' : Conn) : Prop where
  fd : c'.fd = c.fd
  since : c'.since = c.since
  received : c.received <+: c'.received

/-- There may be new connections in front, and the others have received more. -/
def Grown (conns conns' : List Conn) : Prop :=
  ∃ k, List.Forall₂ Extends conns (conns'.drop k)

/-- Clients have been polled, and chunks read from some of them. -/
structure Progress (reads : ℤ → ReadResult) (io io' : Io) : Prop where
  conns : Grown io.conns io'.conns
  chunks : ∃ polled new, io'.polled = io.polled ++ polled ∧ io'.chunks = io.chunks ++ new ∧
    (new.map Prod.fst).Sublist polled ∧ ∀ x ∈ new, reads x.1 = .data x.2

variable {reads : ℤ → ReadResult} {io io' io'' : Io} {conns conns' conns'' : List Conn}
  {buf header : Bytes} {fd n listenfd masterfd : ℤ} {m m' : Monitor} {ans : Answers}

lemma Extends.refl (c : Conn) : Extends c c := ⟨rfl, rfl, List.prefix_rfl⟩

lemma Extends.trans {a b c : Conn} (h : Extends a b) (h' : Extends b c) : Extends a c :=
  ⟨h'.fd.trans h.fd, h'.since.trans h.since, h.received.trans h'.received⟩

lemma Grown.of_forall₂ (h : List.Forall₂ Extends conns conns') : Grown conns conns' := ⟨0, h⟩

lemma Grown.refl (conns : List Conn) : Grown conns conns :=
  .of_forall₂ (List.forall₂_same.mpr fun c _ => .refl c)

lemma Grown.trans (h : Grown conns conns') (h' : Grown conns' conns'') : Grown conns conns'' := by
  obtain ⟨k, hk⟩ := h
  obtain ⟨k', hk'⟩ := h'
  refine ⟨k' + k, ?_⟩
  rw [← List.drop_drop]
  exact forall₂_comp hk (List.forall₂_drop k hk') fun _ _ _ => Extends.trans

/-- The connections that were there before are the last ones. -/
lemma Grown.old (h : Grown conns conns') :
    conns.length ≤ conns'.length ∧
      List.Forall₂ Extends conns (conns'.drop (conns'.length - conns.length)) := by
  obtain ⟨k, hk⟩ := h
  have hlen := hk.length_eq
  rw [List.length_drop] at hlen
  refine ⟨by omega, ?_⟩
  rcases Nat.le_total k conns'.length with hle | hle
  · have hsame : conns'.length - conns.length = k := by omega
    rwa [hsame]
  · rw [List.drop_eq_nil_of_le hle] at hk
    rwa [List.drop_eq_nil_of_le (by omega)]

lemma Progress.trans (h : Progress reads io io') (h' : Progress reads io' io'') :
    Progress reads io io'' := by
  obtain ⟨polled, new, hpolled, hchunks, hsub, hnew⟩ := h.chunks
  obtain ⟨polled', new', hpolled', hchunks', hsub', hnew'⟩ := h'.chunks
  refine ⟨h.conns.trans h'.conns, polled ++ polled', new ++ new', ?_, ?_, ?_, ?_⟩
  · rw [hpolled', hpolled, List.append_assoc]
  · rw [hchunks', hchunks, List.append_assoc]
  · rw [List.map_append]
    exact hsub.append hsub'
  · exact List.forall_mem_append.mpr ⟨hnew, hnew'⟩

lemma Progress.of_quiet (hconns : Grown io.conns io'.conns) (hchunks : io'.chunks = io.chunks)
    (hpolled : io'.polled = io.polled) : Progress reads io io' :=
  ⟨hconns, [], [], by simp [hpolled], by simp [hchunks], .slnil, by simp⟩

lemma Progress.refl (reads : ℤ → ReadResult) (io : Io) : Progress reads io io :=
  .of_quiet (.refl _) rfl rfl

lemma progress_writeConn (h : io.writeConn fd buf = some (io', n)) : Progress reads io io' := by
  obtain ⟨c, -, h⟩ := Option.bind_eq_some_iff.mp h
  obtain ⟨w, -, h⟩ := Option.bind_eq_some_iff.mp h
  cases h
  refine .of_quiet (.of_forall₂ (forall₂_updateFirst Extends.refl (fun c _ => ?_) _)) rfl rfl
  exact ⟨rfl, rfl, List.prefix_append _ _⟩

lemma progress_writeMaster (h : io.writeMaster buf = some (io', n)) : Progress reads io io' := by
  obtain ⟨w, -, h⟩ := Option.bind_eq_some_iff.mp h
  cases h
  exact .of_quiet (.refl _) rfl rfl

lemma progress_writeClients {slots slots' : List ℤ} {s s' : Scan}
    (h : writeClients buf slots s = some (slots', s')) : Progress reads s.io s'.io := by
  induction slots generalizing s slots' with
  | nil =>
    cases h
    exact .refl _ _
  | cons fd rest ih =>
    unfold writeClients at h
    split_ifs at h
    · obtain ⟨⟨io, n⟩, hwrite, h⟩ := Option.bind_eq_some_iff.mp h
      dsimp only at h
      split_ifs at h
      · obtain ⟨⟨rest', s₁⟩, hloop, heq⟩ := Option.bind_eq_some_iff.mp h
        cases heq
        exact (progress_writeConn hwrite).trans (ih hloop)
      · obtain ⟨⟨rest', s₁⟩, hloop, heq⟩ := Option.bind_eq_some_iff.mp h
        cases heq
        exact (progress_writeConn hwrite).trans (ih hloop)
    · obtain ⟨⟨rest', s₁⟩, hloop, heq⟩ := Option.bind_eq_some_iff.mp h
      cases heq
      exact ih hloop

lemma progress_checkClients {ready : Finset ℤ} {slots slots' : List ℤ} {s s' : Scan} {gone : Bool}
    (h : checkClients ready reads slots s = some (slots', s', gone)) :
    Progress reads s.io s'.io := by
  induction slots generalizing s slots' with
  | nil =>
    cases h
    exact .refl _ _
  | cons fd rest ih =>
    have hnodata : ∀ errno, Progress reads s.io { (s.poll fd).io with errno } := fun errno =>
      ⟨.refl _, [fd], [], rfl, by simp [Scan.poll], List.nil_sublist _, by simp⟩
    unfold checkClients at h
    split_ifs at h
    · cases hr : reads fd with
      | data buf =>
        rw [hr] at h
        have hdata : Progress reads s.io
            { (s.poll fd).io with chunks := (s.poll fd).io.chunks ++ [(fd, buf)] } :=
          ⟨.refl _, [fd], [(fd, buf)], rfl, rfl, List.Sublist.refl _, by simpa using hr⟩
        obtain ⟨⟨io, n⟩, hwrite, h⟩ := Option.bind_eq_some_iff.mp h
        have hwritten := hdata.trans (progress_writeMaster hwrite)
        dsimp only at h
        split_ifs at h
        · cases h
          exact hwritten
        · obtain ⟨⟨rest', s₁, gone₁⟩, hloop, heq⟩ := Option.bind_eq_some_iff.mp h
          cases heq
          exact hwritten.trans (ih hloop)
      | eof | error e =>
        rw [hr] at h
        dsimp only at h
        split_ifs at h
        · obtain ⟨⟨rest', s₁, gone₁⟩, hloop, heq⟩ := Option.bind_eq_some_iff.mp h
          cases heq
          have hrest := ih hloop
          exact Progress.trans (hnodata _) hrest
        · obtain ⟨⟨rest', s₁, gone₁⟩, hloop, heq⟩ := Option.bind_eq_some_iff.mp h
          cases heq
          have hrest := ih hloop
          exact Progress.trans (hnodata _) hrest
    · obtain ⟨⟨rest', s₁, gone₁⟩, hloop, heq⟩ := Option.bind_eq_some_iff.mp h
      cases heq
      exact ih hloop
    · cases h
      exact .refl _ _

lemma progress_checkMaster (h : checkMaster reads m = some (m', n)) :
    Progress reads m.io m'.io := by
  unfold checkMaster at h
  split_ifs at h
  · cases hr : reads m.pool.masterfd with
    | data buf =>
      rw [hr] at h
      obtain ⟨⟨slots, s⟩, hwrite, heq⟩ := Option.bind_eq_some_iff.mp h
      cases heq
      have hread : Progress reads m.io { m.io with fromMaster := m.io.fromMaster ++ buf } :=
        .of_quiet (.refl _) rfl rfl
      exact hread.trans (progress_writeClients hwrite)
    | eof | error e =>
      rw [hr] at h
      cases h
      exact .of_quiet (.refl _) rfl rfl
  · cases h
    exact .refl _ _

lemma progress_acceptReady (h : acceptReady header listenfd ans.accept m = some m') :
    Progress reads m.io m'.io := by
  unfold acceptReady at h
  split_ifs at h
  · cases ha : ans.accept with
    | conn connfd writes =>
      rw [ha] at h
      obtain ⟨⟨io, n⟩, hwrite, heq⟩ := Option.bind_eq_some_iff.mp h
      cases heq
      let conn : Conn := ⟨connfd, m.io.fromMaster.length, [], false, writes⟩
      have hconn : Progress reads m.io { m.io with conns := conn :: m.io.conns } :=
        .of_quiet ⟨1, List.forall₂_same.mpr fun c _ => .refl c⟩ rfl rfl
      exact hconn.trans (progress_writeConn hwrite)
    | error e =>
      rw [ha] at h
      cases h
      exact .of_quiet (.refl _) rfl rfl
  · cases h
    exact .refl _ _

lemma progress_serve (h : serve header listenfd ans m = some (m', 0)) :
    Progress ans.reads m.io m'.io := by
  obtain ⟨m₁, haccept, hcheck⟩ := Option.bind_eq_some_iff.mp h
  obtain ⟨⟨slots, s, gone⟩, hclients, hrest⟩ := Option.bind_eq_some_iff.mp hcheck
  have hread := (progress_acceptReady haccept).trans (progress_checkClients hclients)
  cases gone with
  | true => cases hrest
  | false => exact Progress.trans hread (progress_checkMaster hrest)

lemma progress_pass (h : PtyExecUtil.pass header listenfd ans m = some (m', 0)) :
    Progress ans.reads { m.io with polled := [] } m'.io := by
  unfold PtyExecUtil.pass at h
  cases hs : ans.select with
  | ready fds =>
    rw [hs] at h
    exact progress_serve h
  | error e =>
    rw [hs] at h
    have herrno : Progress ans.reads { m.io with polled := [] }
        { m.io with polled := [], errno := e } := .of_quiet (.refl _) rfl rfl
    dsimp only at h
    split_ifs at h
    · cases h
      exact herrno
    · exact herrno.trans (progress_serve h)

lemma pass_chunks (hinv : Inv header listenfd masterfd m) (ha : Admissible m ans)
    (h : PtyExecUtil.pass header listenfd ans m = some (m', 0)) :
    ∃ new, m'.io.chunks = m.io.chunks ++ new ∧ (new.map Prod.fst).Nodup ∧
      ∀ x ∈ new, ans.reads x.1 = .data x.2 ∧ x.1 ∈ clients m.pool.clientfd := by
  obtain ⟨polled, new, hpolled, hchunks, hsub, hnew⟩ := (progress_pass h).chunks
  obtain ⟨-, hnodup, hclients⟩ := pass_inv hinv ha h
  rw [show polled = m'.io.polled by simp [hpolled]] at hsub
  refine ⟨new, hchunks, hnodup.sublist hsub, fun x hx => ⟨hnew x hx, ?_⟩⟩
  exact ((hclients x.1).mp (hsub.subset (List.mem_map_of_mem hx))).2

/-! ### The process of a user -/

/-- What a call of `rio_writen` gets written, also where it does not come back. -/
def rioBytes : Bytes → ℤ → List WriteResult → Bytes
  | [], _, _ => []
  | _ :: _, _, [] => []
  | b :: buf, errno, .wrote more :: results =>
    b :: buf.take more ++ rioBytes (buf.drop more) errno results
  | b :: buf, errno, .zero :: results =>
    if errno = eintr then rioBytes (b :: buf) errno results else []
  | b :: buf, _, .error e :: results => if e = eintr then rioBytes (b :: buf) e results else []

@[simp] lemma rioBytes_nil (errno : ℤ) (results : List WriteResult) :
    rioBytes [] errno results = [] := by
  cases results <;> rfl

lemma rioBytes_front (buf : Bytes) (errno : ℤ) (results : List WriteResult) :
    rioBytes buf errno results <+: buf := by
  induction results generalizing buf errno with
  | nil => cases buf <;> simp [rioBytes]
  | cons r results ih =>
    rcases buf with _ | ⟨b, buf⟩
    · simp
    · cases r with
      | wrote more =>
        have hrest : b :: buf.take more ++ rioBytes (buf.drop more) errno results <+:
            b :: buf.take more ++ buf.drop more := (List.prefix_append_right_inj _).mpr (ih _ _)
        rwa [List.cons_append, List.cons_append, List.take_append_drop] at hrest
      | zero | error e =>
        unfold rioBytes
        split_ifs
        · exact ih _ _
        · exact List.nil_prefix

lemma rioBytes_eq {n : ℕ} {w : Written} {errno : ℤ} {results : List WriteResult}
    (h : rioLoop n buf errno results = some w) : rioBytes buf errno results = w.bytes := by
  induction results generalizing buf errno w with
  | nil => rcases buf with _ | ⟨b, buf⟩ <;> cases h; rfl
  | cons r results ih =>
    rcases buf with _ | ⟨b, buf⟩
    · cases h
      rfl
    · cases r with
      | wrote more =>
        obtain ⟨w', hw', rfl⟩ := Option.map_eq_some_iff.mp h
        simp [rioBytes, ih hw']
      | zero | error e =>
        unfold rioLoop at h
        unfold rioBytes
        split_ifs at h ⊢
        · exact ih h
        · cases h
          rfl

/-- What a turn of the client writes to its connection. -/
def typed (clientfd : ℤ) (ans : ClientAnswers) (t : Terminal) : Bytes :=
  if stdin ∈ clientReady clientfd ans.select ∧ 0 < ret ans.stdin then
    rioBytes (fill t.buf ans.stdin) (t.readStdin ans.stdin).errno ans.toServer
  else []

/-- What it reads from the connection. -/
def answered (clientfd : ℤ) (ans : ClientAnswers) (t : Terminal) : Bytes :=
  if (clientInput clientfd ans t).running ∧ clientfd ∈ clientReady clientfd ans.select then
    fill [] ans.server
  else []

/-- What it writes to its standard output. -/
def displayed (clientfd : ℤ) (ans : ClientAnswers) (t : Terminal) : Bytes :=
  rioBytes (answered clientfd ans t) ((clientInput clientfd ans t).read ans.server).errno
    ans.toStdout

/-- A user at the container: the monitor's descriptor of the connection, a number that no other
user has, the process, and what it has written to the connection, read from it and shown. -/
structure Session where
  fd : ℤ
  no : ℕ
  term : Terminal
  put : Bytes
  got : Bytes
  shown : Bytes

/-- A turn of the user's process. -/
def Session.turn (clientfd : ℤ) (ans : ClientAnswers) (u : Session) : Option Session := do
  let term ← (client clientfd).step u.term ans
  some { u with
    term
    put := u.put ++ typed clientfd ans u.term
    got := u.got ++ answered clientfd ans u.term
    shown := u.shown ++ displayed clientfd ans u.term }

/-- What a process that runs, or has just ended, has done with its bytes. -/
structure Session.Ok (u : Session) : Prop where
  put : u.put <+: u.term.fromStdin
  shown : u.shown <+: u.got
  running : u.term.running = true → u.put = u.term.fromStdin ∧ u.shown = u.got

variable {clientfd : ℤ} {cans : ClientAnswers} {t : Terminal} {put : Bytes} {u u' : Session}

lemma fromStdin_writePeer (results : List WriteResult) :
    (t.writePeer fd n results).fromStdin = t.fromStdin := by
  unfold Terminal.writePeer
  dsimp only
  split_ifs
  · rfl
  · split
    · rfl
    · split_ifs <;> rfl

lemma running_writePeer {results : List WriteResult}
    (hrun : (t.writePeer fd n results).running = true) :
    rioBytes t.buf t.errno results = t.buf := by
  unfold Terminal.writePeer at hrun
  dsimp only at hrun
  split_ifs at hrun with hneg
  · cases hrun
  · split at hrun
    · cases hrun
    · rename_i w hw
      have hw' : rioLoop t.buf.length t.buf t.errno results = some w := hw
      split_ifs at hrun with hret
      · cases hrun
      · rcases (rioLoop_spec hw').outcome with ⟨-, hall⟩ | ⟨hfail, -⟩
        · exact (rioBytes_eq hw').trans hall
        · omega

lemma input_spec (hput : put = t.fromStdin) :
    put ++ typed clientfd cans t <+: (clientInput clientfd cans t).fromStdin ∧
      ((clientInput clientfd cans t).running = true →
        put ++ typed clientfd cans t = (clientInput clientfd cans t).fromStdin) := by
  subst hput
  unfold typed clientInput
  by_cases hready : stdin ∈ clientReady clientfd cans.select
  · by_cases hret : 0 < RelayCalls.ret cans.stdin
    · rw [if_pos ⟨hready, hret⟩, if_pos hready]
      dsimp only
      rw [if_neg (not_le.mpr hret), fromStdin_writePeer]
      cases hr : cans.stdin with
      | eof | error e => simp [hr, RelayCalls.ret] at hret
      | data bytes =>
        refine ⟨(List.prefix_append_right_inj _).mpr (rioBytes_front ..), fun hrun => ?_⟩
        exact congrArg (t.fromStdin ++ ·) (running_writePeer hrun)
    · rw [if_neg fun h => hret h.2, if_pos hready, List.append_nil]
      dsimp only
      rw [if_pos (not_lt.mp hret)]
      exact ⟨List.prefix_append _ _, fun h => by cases h⟩
  · rw [if_neg fun h => hready h.1, if_neg hready, List.append_nil]
    exact ⟨List.prefix_rfl, fun _ => rfl⟩

lemma fromStdin_output :
    (clientOutput clientfd cans t).fromStdin = t.fromStdin := by
  unfold clientOutput
  split_ifs
  · dsimp only
    split_ifs
    · rfl
    · split
      · rfl
      · split_ifs <;> rfl
  · rfl

lemma output_spec (hrun : (clientInput clientfd cans t).running = true)
    (hout : (clientOutput clientfd cans (clientInput clientfd cans t)).running = true) :
    displayed clientfd cans t = answered clientfd cans t := by
  unfold displayed answered
  unfold clientOutput at hout
  by_cases hready : clientfd ∈ clientReady clientfd cans.select
  · rw [if_pos ⟨hrun, hready⟩]
    rw [if_pos hready] at hout
    dsimp only at hout
    split_ifs at hout with hret
    · cases hout
    · cases hr : cans.server with
      | eof | error e => simp [hr, RelayCalls.ret] at hret
      | data bytes =>
        rw [hr] at hout
        split at hout
        · cases hout
        · rename_i w hw
          split_ifs at hout with hfull
          · cases hout
          · have hbytes := rioBytes_eq (show rioLoop _ bytes _ cans.toStdout = some w from hw)
            rcases (rioWriten_spec hw).outcome with ⟨-, hall⟩ | ⟨hfail, -⟩
            · exact hbytes.trans hall
            · simp only [RelayCalls.ret] at hfull
              omega
  · rw [if_neg fun h => hready h.2, rioBytes_nil]

lemma Session.Ok.turn (h : u.Ok) (hs : u.turn clientfd cans = some u') :
    u'.Ok ∧ u'.fd = u.fd ∧ u'.no = u.no ∧ u.put <+: u'.put ∧
      ∃ bytes, u'.got = u.got ++ bytes ∧
        (bytes = [] ∨ bytes = fill [] cans.server) := by
  obtain ⟨term, hterm, heq⟩ := Option.bind_eq_some_iff.mp hs
  cases heq
  simp only [client] at hterm
  split_ifs at hterm with hrun hgo
  · cases hterm
    obtain ⟨hwhole, hshown⟩ := h.running hrun
    obtain ⟨hfront, hall⟩ := input_spec hwhole
    have hstdin : (clientOutput clientfd cans (clientInput clientfd cans u.term)).fromStdin =
        (clientInput clientfd cans u.term).fromStdin := fromStdin_output
    refine ⟨⟨?_, ?_, fun hout => ⟨?_, ?_⟩⟩, rfl, rfl, List.prefix_append _ _, _, rfl, ?_⟩
    · rwa [hstdin]
    · dsimp only
      rw [hshown]
      exact (List.prefix_append_right_inj _).mpr (rioBytes_front ..)
    · rw [hstdin]
      exact hall hgo
    · dsimp only
      rw [hshown, output_spec hgo hout]
    · unfold answered
      split_ifs <;> simp
  · cases hterm
    obtain ⟨hwhole, hshown⟩ := h.running hrun
    obtain ⟨hfront, -⟩ := input_spec hwhole
    have hnone : answered clientfd cans u.term = [] := if_neg fun h => hgo h.1
    refine ⟨⟨hfront, ?_, fun h => absurd h hgo⟩, rfl, rfl, List.prefix_append _ _, [], ?_,
      Or.inl rfl⟩
    · simp [displayed, hnone, hshown]
    · simp [hnone]

/-! ### The system -/

/-- The monitor, the users by their connections, and what the container has been sent, each
chunk with the number of the user it came from. -/
structure Net where
  monitor : Monitor
  sessions : List Session
  log : List (ℕ × Bytes)

/-- Each new connection is that of a new user. -/
def connect (sessions : List Session) : List Conn → List Session
  | [] => sessions
  | c :: conns =>
    if conns.length < sessions.length then sessions
    else
      let others := connect sessions conns
      ⟨c.fd, others.length, .initial, [], [], []⟩ :: others

/-- The user whose connection has the descriptor that a chunk was read from. -/
def credit (sessions : List Session) (x : ℤ × Bytes) : Option (ℕ × Bytes) :=
  (sessions.find? fun u => u.fd = x.1).map fun u => (u.no, x.2)

/-- What the container has been sent from the user. -/
def sent (no : ℕ) (log : List (ℕ × Bytes)) : Bytes :=
  ((log.filter fun x => x.1 = no).map Prod.snd).flatten

/-- A pass of the monitor, or a turn of the process of a user. -/
inductive Turn where
  | pass (ans : Answers)
  | client (no : ℕ) (ans : ClientAnswers)

/-- The monitor and the users, whose turns come in any order. -/
def net (header : Bytes) (listenfd masterfd : ℤ) (clientfd : ℕ → ℤ) : Machine Net Turn where
  init s := (machine header listenfd masterfd).init s.monitor ∧ s.sessions = [] ∧ s.log = []
  step s
    | .pass ans => do
      let monitor ← (machine header listenfd masterfd).step s.monitor ans
      let new := monitor.io.chunks.drop s.monitor.io.chunks.length
      some {
        monitor
        sessions := connect s.sessions monitor.io.conns
        log := s.log ++ new.filterMap (credit s.sessions) }
    | .client no ans => do
      let u ← s.sessions.find? fun u => u.no = no
      let u ← u.turn (clientfd no) ans
      some { s with sessions := updateFirst (fun u => u.no = no) (fun _ => u) s.sessions }

/-- A read gives what was written after the bytes that were read before. -/
def Delivers (before written : Bytes) : ReadResult → Prop
  | .data buf => before ++ buf <+: written
  | _ => True

instance (before written : Bytes) : DecidablePred (Delivers before written)
  | .data buf => inferInstanceAs (Decidable (before ++ buf <+: written))
  | .eof | .error _ => inferInstanceAs (Decidable True)

/-- What is relied on, besides what the monitor relies on: a connection hands on, from each side
to the other, what was written and in that order. -/
def Connected (s : Net) : Turn → Prop
  | .pass ans => Admissible s.monitor ans ∧ ∀ u ∈ s.sessions,
    s.sessions.find? (fun v => v.fd = u.fd) = some u →
      Delivers (sent u.no s.log) u.put (ans.reads u.fd)
  | .client no ans => ∀ p ∈ s.sessions.zip s.monitor.io.conns, p.1.no = no →
    Delivers p.1.got p.2.received ans.server

/-! ### What each user has sent and been shown -/

/-- A user, and what is kept of the connection. -/
structure Linked (log : List (ℕ × Bytes)) (u : Session) (c : Conn) : Prop where
  fd : c.fd = u.fd
  ok : u.Ok
  sent : sent u.no log <+: u.put
  got : u.got <+: c.received

variable {log log' : List (ℕ × Bytes)} {sessions : List Session} {no : ℕ}

lemma sent_append : sent no (log ++ log') = sent no log ++ sent no log' := by
  simp [sent]

lemma sent_eq_nil (h : ∀ x ∈ log, x.1 ≠ no) : sent no log = [] := by
  have hnone : log.filter (fun x => x.1 = no) = [] :=
    List.filter_eq_nil_iff.mpr fun x hx => by simpa using h x hx
  simp [sent, hnone]

lemma length_connect_le (sessions : List Session) (conns : List Conn)
    (h : sessions.length ≤ conns.length) : (connect sessions conns).length = conns.length := by
  induction conns with
  | nil => simpa [connect] using h
  | cons c conns ih =>
    unfold connect
    split_ifs with hlt
    · simp only [List.length_cons] at h ⊢
      omega
    · simp [ih (by omega)]

lemma no_connect (conns : List Conn)
    (h : sessions.map Session.no = (List.range sessions.length).reverse) :
    (connect sessions conns).map Session.no =
      (List.range (connect sessions conns).length).reverse := by
  induction conns with
  | nil => exact h
  | cons c conns ih =>
    unfold connect
    split_ifs
    · exact h
    · simp [ih, List.range_succ]

lemma forall₂_connect (h : List.Forall₂ (Linked log) sessions conns)
    (hno : ∀ x ∈ log, x.1 < sessions.length) (hgrown : List.Forall₂ Extends conns
      (conns'.drop (conns'.length - conns.length))) (hle : conns.length ≤ conns'.length) :
    List.Forall₂ (Linked log) (connect sessions conns') conns' := by
  have hlen := h.length_eq
  induction conns' with
  | nil =>
    have hnil : conns = [] := List.eq_nil_of_length_eq_zero (by simpa using hle)
    subst hnil
    exact h
  | cons c conns' ih =>
    unfold connect
    split_ifs with hlt
    · have hsame : (c :: conns').length - conns.length = 0 := by
        simp only [List.length_cons] at hle ⊢
        omega
      rw [hsame, List.drop_zero] at hgrown
      refine forall₂_comp h hgrown fun u c c' hl he => ?_
      exact ⟨he.fd.trans hl.fd, hl.ok, hl.sent, hl.got.trans he.received⟩
    · have hle' : conns.length ≤ conns'.length := by omega
      rw [List.length_cons, Nat.succ_sub hle', List.drop_succ_cons] at hgrown
      refine .cons ⟨rfl, ⟨List.prefix_rfl, List.prefix_rfl, fun _ => ⟨rfl, rfl⟩⟩, ?_,
        List.nil_prefix⟩ (ih hgrown hle')
      rw [sent_eq_nil]
      intro x hx
      have := hno x hx
      dsimp only
      rw [length_connect_le _ _ (by omega)]
      omega

lemma sent_credit {new : List (ℤ × Bytes)} (hnodup : (new.map Prod.fst).Nodup)
    (hno : ∀ v ∈ sessions, v.no = u.no → v = u) :
    sent u.no (new.filterMap (credit sessions)) = [] ∨
      ∃ x ∈ new, x.1 = u.fd ∧ sessions.find? (fun v => v.fd = u.fd) = some u ∧
        sent u.no (new.filterMap (credit sessions)) = x.2 := by
  induction new with
  | nil => exact Or.inl rfl
  | cons x new ih =>
    obtain ⟨hx, hnodup⟩ := List.nodup_cons.mp hnodup
    have hrest := ih hnodup
    cases hf : sessions.find? fun v => v.fd = x.1 with
    | none =>
      have hskip : credit sessions x = none := by simp [credit, hf]
      rw [List.filterMap_cons_none hskip]
      exact hrest.imp_right fun ⟨y, hy, h⟩ => ⟨y, List.mem_cons_of_mem _ hy, h⟩
    | some v =>
      have hcredit : credit sessions x = some (v.no, x.2) := by simp [credit, hf]
      have hvfd : v.fd = x.1 := by simpa using List.find?_some hf
      rw [List.filterMap_cons_some hcredit]
      by_cases hv : v.no = u.no
      · -- no other chunk was read from the descriptor
        obtain rfl := hno v (List.mem_of_find?_eq_some hf) hv
        have hnone : sent v.no (new.filterMap (credit sessions)) = [] := by
          refine hrest.resolve_right ?_
          rintro ⟨y, hy, hyfd, -⟩
          exact hx (List.mem_map.mpr ⟨y, hy, hyfd.trans hvfd⟩)
        refine Or.inr ⟨x, by simp, hvfd.symm, by rwa [hvfd], ?_⟩
        unfold sent at hnone ⊢
        simp [hnone]
      · have hother : sent u.no ((v.no, x.2) :: new.filterMap (credit sessions)) =
            sent u.no (new.filterMap (credit sessions)) := by simp [sent, hv]
        rw [hother]
        exact hrest.imp_right fun ⟨y, hy, h⟩ => ⟨y, List.mem_cons_of_mem _ hy, h⟩

lemma map_snd_credit {new : List (ℤ × Bytes)}
    (h : ∀ x ∈ new, ∃ u, sessions.find? (fun u => u.fd = x.1) = some u) :
    (new.filterMap (credit sessions)).map Prod.snd = new.map Prod.snd := by
  induction new with
  | nil => rfl
  | cons x new ih =>
    obtain ⟨⟨u, hu⟩, hrest⟩ := List.forall_mem_cons.mp h
    have hcredit : credit sessions x = some (u.no, x.2) := by simp [credit, hu]
    rw [List.filterMap_cons_some hcredit, List.map_cons, List.map_cons, ih hrest]

/-- **The invariant** of the monitor and the users. -/
structure NetInv (header : Bytes) (listenfd masterfd : ℤ) (s : Net) : Prop where
  monitor : (machine header listenfd masterfd).Reach Admissible s.monitor
  numbers : s.sessions.map Session.no = (List.range s.sessions.length).reverse
  known : ∀ x ∈ s.log, x.1 < s.sessions.length
  chunks : s.log.map Prod.snd = s.monitor.io.chunks.map Prod.snd
  linked : List.Forall₂ (Linked s.log) s.sessions s.monitor.io.conns

variable {s s' : Net} {clientfds : ℕ → ℤ}

lemma NetInv.nodup (h : NetInv header listenfd masterfd s) :
    (s.sessions.map Session.no).Nodup := by
  rw [h.numbers]
  exact List.nodup_reverse.mpr List.nodup_range

lemma NetInv.no_lt (h : NetInv header listenfd masterfd s) (hu : u ∈ s.sessions) :
    u.no < s.sessions.length := by
  have hmem : u.no ∈ s.sessions.map Session.no := List.mem_map_of_mem hu
  rw [h.numbers] at hmem
  simpa using hmem

lemma NetInv.no_inj (h : NetInv header listenfd masterfd s) {v : Session} (hu : u ∈ s.sessions)
    (hv : v ∈ s.sessions) (hno : v.no = u.no) : v = u :=
  List.inj_on_of_nodup_map h.nodup hv hu hno

lemma NetInv.find_session (h : NetInv header listenfd masterfd s)
    (hfd : fd ∈ clients s.monitor.pool.clientfd) :
    ∃ u c, s.sessions.find? (fun u => u.fd = fd) = some u ∧
      (u, c) ∈ s.sessions.zip s.monitor.io.conns ∧ Live header s.monitor.io.fromMaster c := by
  obtain ⟨c, hc, hlive⟩ := (inv_reach h.monitor).live fd hfd
  obtain ⟨u, hu, hmem⟩ := forall₂_find? (p := fun u => u.fd = fd) h.linked
    (fun u c hl => by rw [hl.fd]) hc
  exact ⟨u, c, hu, hmem, hlive⟩

lemma NetInv.pass (h : NetInv header listenfd masterfd s) {ans : Answers}
    (hok : Connected s (.pass ans))
    (hs : (net header listenfd masterfd clientfds).step s (.pass ans) = some s') :
    NetInv header listenfd masterfd s' := by
  obtain ⟨m, hm, heq⟩ := Option.bind_eq_some_iff.mp hs
  cases heq
  obtain ⟨ha, hdeliver⟩ := hok
  have hrun := pass_of_step hm
  obtain ⟨new, hchunks, hnodup, hnew⟩ := pass_chunks (inv_reach h.monitor) ha hrun
  have hdrop : m.io.chunks.drop s.monitor.io.chunks.length = new := by simp [hchunks]
  obtain ⟨hle, hgrown⟩ := (progress_pass hrun).conns.old
  have hfound : ∀ x ∈ new, ∃ u, s.sessions.find? (fun u => u.fd = x.1) = some u := by
    intro x hx
    obtain ⟨u, c, hu, -⟩ := h.find_session (hnew x hx).2
    exact ⟨u, hu⟩
  have hknown : ∀ x ∈ s.log ++ new.filterMap (credit s.sessions), x.1 < s.sessions.length := by
    refine List.forall_mem_append.mpr ⟨h.known, fun x hx => ?_⟩
    obtain ⟨y, hy, hcredit⟩ := List.mem_filterMap.mp hx
    obtain ⟨u, hu, rfl⟩ := Option.map_eq_some_iff.mp hcredit
    exact h.no_lt (List.mem_of_find?_eq_some hu)
  have hlen := length_connect_le s.sessions m.io.conns (h.linked.length_eq ▸ hle)
  have hlinked : List.Forall₂ (Linked (s.log ++ new.filterMap (credit s.sessions))) s.sessions
      s.monitor.io.conns := by
    obtain ⟨hsame, hall⟩ := List.forall₂_iff_zip.mp h.linked
    refine List.forall₂_iff_zip.mpr ⟨hsame, fun {u c} hmem => ?_⟩
    obtain ⟨hfd, huok, hsent, hgot⟩ := hall hmem
    have hu := (List.of_mem_zip hmem).1
    refine ⟨hfd, huok, ?_, hgot⟩
    rw [sent_append]
    rcases sent_credit hnodup fun v hv => h.no_inj hu hv with hnone | ⟨x, hx, hxfd, hfind, hbuf⟩
    · rwa [hnone, List.append_nil]
    · have hdata := hdeliver u hu hfind
      rw [← hxfd, (hnew x hx).1] at hdata
      rwa [hbuf]
  rw [hdrop]
  refine ⟨h.monitor.step ha hm, no_connect _ h.numbers, fun x hx => ?_, ?_,
    forall₂_connect hlinked hknown hgrown hle⟩
  · have hgrow : s.sessions.length ≤ m.io.conns.length := h.linked.length_eq ▸ hle
    exact (hknown x hx).trans_le (hgrow.trans hlen.ge)
  · simp only [List.map_append, map_snd_credit hfound, h.chunks, hchunks]

lemma NetInv.client (h : NetInv header listenfd masterfd s) {ans : ClientAnswers}
    (hok : Connected s (.client no ans))
    (hs : (net header listenfd masterfd clientfds).step s (.client no ans) = some s') :
    NetInv header listenfd masterfd s' := by
  obtain ⟨u, hu, hs⟩ := Option.bind_eq_some_iff.mp hs
  obtain ⟨u', hturn, heq⟩ := Option.bind_eq_some_iff.mp hs
  cases heq
  have hmem := List.mem_of_find?_eq_some hu
  have huno : u.no = no := by simpa using List.find?_some hu
  obtain ⟨hsame, hall⟩ := List.forall₂_iff_zip.mp h.linked
  have hzip : List.Forall₂ (fun v c => Linked s.log v c ∧ (v, c) ∈ s.sessions.zip
      s.monitor.io.conns) s.sessions s.monitor.io.conns :=
    List.forall₂_iff_zip.mpr ⟨hsame, fun {v c} hvc => ⟨hall hvc, hvc⟩⟩
  have hnumbers : (updateFirst (fun v => v.no = no) (fun _ => u') s.sessions).map Session.no =
      s.sessions.map Session.no := by
    refine map_updateFirst fun v hv hvno => ?_
    obtain ⟨term, -, heq⟩ := Option.bind_eq_some_iff.mp hturn
    cases heq
    exact huno.trans (of_decide_eq_true hvno).symm
  have hlen : (updateFirst (fun v => v.no = no) (fun _ => u') s.sessions).length =
      s.sessions.length := by simpa using congrArg List.length hnumbers
  refine ⟨h.monitor, ?_, ?_, h.chunks, ?_⟩
  · dsimp only
    rw [hnumbers, hlen, h.numbers]
  · dsimp only
    rw [hlen]
    exact h.known
  · refine forall₂_updateFirst_left hzip (fun v c hvc => hvc.1) fun v c hvc hvno => ?_
    obtain rfl := h.no_inj hmem (List.of_mem_zip hvc.2).1
      ((of_decide_eq_true hvno).trans huno.symm)
    obtain ⟨hfd, huok, hsent, hgot⟩ := hvc.1
    obtain ⟨hok', hfd', hno', hput, bytes, hbytes, hserver⟩ := huok.turn hturn
    refine ⟨hfd.trans hfd'.symm, hok', ?_, ?_⟩
    · rw [hno']
      exact hsent.trans hput
    · have hdeliver := hok (v, c) hvc.2 huno
      rw [hbytes]
      rcases hserver with rfl | rfl
      · rwa [List.append_nil]
      · cases hr : ans.server with
        | data buf =>
          rw [hr] at hdeliver
          exact hdeliver
        | eof | error e => rwa [fill, List.append_nil]

lemma netInv_reach (h : (net header listenfd masterfd clientfds).Reach Connected s) :
    NetInv header listenfd masterfd s := by
  refine h.invariant (fun s hs => ?_) fun s turn s' hi hok hs => ?_
  · obtain ⟨hinit, hsessions, hlog⟩ := hs
    obtain ⟨-, hconns, hchunks, -⟩ := id hinit
    refine ⟨.start hinit, by simp [hsessions], by simp [hlog], by simp [hlog, hchunks], ?_⟩
    rw [hsessions, hconns]
    exact .nil
  · cases turn with
    | pass ans => exact hi.pass hok hs
    | client no ans => exact hi.client hok hs

/-- **The users' terminals**: in every state reached, whatever the order of the turns, the
container has been sent chunks of known users, of each user a prefix of what was typed and in
that order; and the terminal of each user shows a prefix of the header and of what the container
has printed since the user came, and all of it where the user is still connected, the process
still runs and nothing is on its way. -/
theorem terminal_sessions (h : (net header listenfd masterfd clientfds).Reach Connected s) :
    s.monitor.io.toMaster = (s.log.map Prod.snd).flatten ∧
    (s.sessions.map Session.no).Nodup ∧ (∀ x ∈ s.log, x.1 ∈ s.sessions.map Session.no) ∧
    s.sessions.length = s.monitor.io.conns.length ∧
    (∀ p ∈ s.sessions.zip s.monitor.io.conns,
      sent p.1.no s.log <+: p.1.term.fromStdin ∧
      (p.1.term.running = true → sent p.1.no s.log = p.1.put →
        sent p.1.no s.log = p.1.term.fromStdin) ∧
      p.1.shown <+: header ++ s.monitor.io.fromMaster.drop p.2.since) ∧
    ∀ fd ∈ clients s.monitor.pool.clientfd, ∃ p ∈ s.sessions.zip s.monitor.io.conns,
      s.sessions.find? (fun u => u.fd = fd) = some p.1 ∧
      (p.2.failed = false → p.1.term.running = true → p.1.got = p.2.received →
        p.1.shown = header ++ s.monitor.io.fromMaster.drop p.2.since) := by
  have hinv := netInv_reach h
  have hmonitor := inv_reach hinv.monitor
  obtain ⟨hsame, hall⟩ := List.forall₂_iff_zip.mp hinv.linked
  refine ⟨?_, hinv.nodup, fun x hx => ?_, hsame, fun p hp => ?_, fun fd hfd => ?_⟩
  · rw [hinv.chunks]
    exact hmonitor.inStep
  · rw [hinv.numbers]
    simpa using hinv.known x hx
  · obtain ⟨-, huok, hsent, hgot⟩ := hall hp
    refine ⟨hsent.trans huok.put, fun hrun hput => hput.trans (huok.running hrun).1, ?_⟩
    exact huok.shown.trans (hgot.trans (hmonitor.ok p.2 (List.of_mem_zip hp).2).received)
  · obtain ⟨u, c, hu, hmem, hlive⟩ := hinv.find_session hfd
    refine ⟨(u, c), hmem, hu, fun hf hrun hgot => ?_⟩
    unfold Live Behind at hlive
    rw [hf, if_neg (by simp), List.append_nil] at hlive
    rw [((hall hmem).ok.running hrun).2, hgot]
    exact hlive

/-- A user types two bytes, and is shown the header and the prompt. -/
def firstTurn : ClientAnswers where
  select := .ready {0, 3}
  stdin := .data [108, 115]
  toServer := [.wrote 0, .error eintr, .wrote 0]
  server := .data [104, 105, 36, 32]
  toStdout := [.wrote 3]

/-- The monitor reads what the user has typed. -/
def secondAnswers : Answers where
  select := .ready {7}
  accept := .error 11
  reads fd := if fd = 7 then .data [108, 115] else .eof

/-- The monitor without clients. -/
def idle : Net := ⟨{ idleMonitor with io.masterWrites := [.wrote 100] }, [], []⟩

theorem terminal_sessions_first : ∃ s, (net [104, 105] 5 4 fun _ => 3).runs idle
      [.pass firstAnswers, .client 0 firstTurn, .pass secondAnswers] = some s ∧
    s.log = [(0, [108, 115])] ∧ s.monitor.io.toMaster = (s.log.map Prod.snd).flatten ∧
    (∀ p ∈ s.sessions.zip s.monitor.io.conns,
      sent p.1.no s.log <+: p.1.term.fromStdin ∧
      (p.1.term.running = true → sent p.1.no s.log = p.1.put →
        sent p.1.no s.log = p.1.term.fromStdin) ∧
      p.1.shown <+: [104, 105] ++ s.monitor.io.fromMaster.drop p.2.since) ∧
    ∀ fd ∈ clients s.monitor.pool.clientfd, ∃ p ∈ s.sessions.zip s.monitor.io.conns,
      s.sessions.find? (fun u => u.fd = fd) = some p.1 ∧
      (p.2.failed = false → p.1.term.running = true → p.1.got = p.2.received →
        p.1.shown = [104, 105] ++ s.monitor.io.fromMaster.drop p.2.since) := by
  have hdata (l : ℤ) (a : Bytes) (ha : a ≠ [] ∧ a.length ≤ bufSize) (fd : ℤ) (buf : Bytes)
      (hr : (if fd = l then ReadResult.data a else .eof) = .data buf) :
      buf ≠ [] ∧ buf.length ≤ bufSize := by
    split_ifs at hr
    cases hr
    exact ha
  have hstart : (net [104, 105] 5 4 fun _ => 3).Reach Connected idle :=
    .start ⟨⟨rfl, rfl, rfl, rfl, rfl, rfl⟩, rfl, rfl⟩
  have hfirst : Connected idle (.pass firstAnswers) := by
    refine ⟨⟨Finset.Subset.refl _, ?_, hdata 4 [36, 32] (by decide)⟩, by simp [idle]⟩
    rintro fd writes heq
    cases heq
    exact ⟨by decide, by decide, by decide, by unfold FailsForGood; decide⟩
  let s₁ := ((net [104, 105] 5 4 fun _ => 3).step idle (.pass firstAnswers)).get
    (by decide +kernel)
  have h₁ : (net [104, 105] 5 4 fun _ => 3).step idle (.pass firstAnswers) = some s₁ :=
    (Option.some_get _).symm
  have hsecond : Connected s₁ (.client 0 firstTurn) := by
    unfold Connected
    decide +kernel
  let s₂ := ((net [104, 105] 5 4 fun _ => 3).step s₁ (.client 0 firstTurn)).get
    (by decide +kernel)
  have h₂ : (net [104, 105] 5 4 fun _ => 3).step s₁ (.client 0 firstTurn) = some s₂ :=
    (Option.some_get _).symm
  have hthird : Connected s₂ (.pass secondAnswers) := by
    refine ⟨⟨?_, fun fd writes heq => (by cases heq), hdata 7 [108, 115] (by decide)⟩, ?_⟩
    · change ({7} : Finset ℤ) ⊆ _
      decide +kernel
    · have hall : ∀ u ∈ s₂.sessions,
          Delivers (sent u.no s₂.log) u.put (secondAnswers.reads u.fd) := by decide +kernel
      exact fun u hu _ => hall u hu
  let s₃ := ((net [104, 105] 5 4 fun _ => 3).step s₂ (.pass secondAnswers)).get
    (by decide +kernel)
  have h₃ : (net [104, 105] 5 4 fun _ => 3).step s₂ (.pass secondAnswers) = some s₃ :=
    (Option.some_get _).symm
  obtain ⟨hmaster, -, -, -, hsent, hshown⟩ :=
    terminal_sessions (((hstart.step hfirst h₁).step hsecond h₂).step hthird h₃)
  exact ⟨s₃, by simp [Machine.runs, h₁, h₂, h₃], by decide +kernel, hmaster, hsent, hshown⟩

end Hoststack.Sessions
