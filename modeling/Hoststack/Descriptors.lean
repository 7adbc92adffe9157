import Hoststack.ClientPool
import Hoststack.PtyFork

/-!
The descriptors of a monitor, from before it has a terminal to any pass of its loop.

`accept` gives the lowest descriptor that is not open, so which descriptors the clients get depends
on what is open, and the loop relies on them. Every other call of the loop that opens or closes a
descriptor is one of `close` on a client.
-/

namespace Hoststack.Descriptors

open SocketIo PtyExecUtil Relay ClientPool PtyFork

variable {limit : ℕ}

/-- What the calls answer before the loop: the `errno` of each that fails. -/
structure StartAnswers where
  clone : PtyFork.Answers
  socket : Option ℤ
  bind : Option ℤ
  listen : Option ℤ

/-- `pty_run_container` up to `init_pool`: the descriptors of the terminal and of the socket, and
the table. Where a call fails the monitor exits. -/
def startMonitor (s : Settings) (ans : StartAnswers) (p : Proc limit) :
    Option (ℕ × ℕ × FdTable File limit) := do
  let (p, forked) ← ptyClone s ans.clone p
  let forked ← forked
  let (p, listenfd) := p.openOn ans.socket .listener
  let listenfd ← listenfd
  if ans.bind.isSome ∨ ans.listen.isSome then none
  else some (forked.masterFd, listenfd, p.fds)

/-- What the system answers in a pass, but for the descriptor that `accept` gives. -/
structure Turn where
  select : SelectResult
  accept : Except ℤ (List WriteResult)
  reads : ℤ → ReadResult

/-- The monitor with its descriptors, and those it has closed that no client had. -/
structure Serving (limit : ℕ) where
  monitor : Monitor
  fds : FdTable File limit
  strays : List ℤ

/-- `accept` gives the lowest descriptor that is not open. -/
def Turn.answers (turn : Turn) (fds : FdTable File limit) : PtyExecUtil.Answers where
  select := turn.select
  accept :=
    match turn.accept with
    | .error e => .error e
    | .ok writes =>
      match fds.lowest with
      | none => .error emfile
      | some fd => .conn fd writes
  reads := turn.reads

/-- The monitor after `select`, unless it was interrupted. -/
def selected (turn : Turn) (m : Monitor) : Option Monitor :=
  let io := { m.io with polled := [] }
  match turn.select with
  | .ready fds => some ⟨{ m.pool with readySet := fds, nready := fds.card }, io⟩
  | .error e =>
    if e = eintr then none
    else some ⟨{ m.pool with readySet := m.pool.readSet, nready := -1 }, { io with errno := e }⟩

/-- The table after `accept`, where it is called. -/
def acceptFds (listenfd : ℤ) (turn : Turn) (m : Monitor) (fds : FdTable File limit) :
    FdTable File limit :=
  if listenfd ∈ m.pool.readySet then
    match turn.accept with
    | .error _ => fds
    | .ok _ =>
      match fds.openOn .client with
      | none => fds
      | some (_, fds) => fds
  else fds

def closeAll : List ℤ → FdTable File limit → FdTable File limit
  | [], fds => fds
  | fd :: rest, fds => closeAll rest (fds.close fd.toNat)

/-- The descriptors closed that are not open on a client. -/
def straysOf : List ℤ → FdTable File limit → List ℤ
  | [], _ => []
  | fd :: rest, fds =>
    (if fds.get fd.toNat = some .client then [] else [fd]) ++
      straysOf rest (fds.close fd.toNat)

/-- The passes of the loop until one returns one, on the descriptors. -/
def serving (header : Bytes) (listenfd masterfd : ℤ) (base : FdTable File limit) :
    Machine (Serving limit) Turn where
  init s := (machine header listenfd masterfd).init s.monitor ∧ s.fds = base ∧ s.strays = []
  step s turn := do
    let ans := turn.answers s.fds
    let monitor ← (machine header listenfd masterfd).step s.monitor ans
    match selected turn s.monitor with
    | none => some { s with monitor }
    | some m => do
      let fds := acceptFds listenfd turn m s.fds
      let m ← acceptReady header listenfd ans.accept m
      let closes := checkCloses turn.reads m
      some ⟨monitor, closeAll closes fds, s.strays ++ straysOf closes fds⟩

/-- What is relied on: `select` reports watched descriptors, or is interrupted; once a write to a
new connection fails all later ones do; what is read is neither empty nor longer than the
buffer. -/
structure Relies (s : Serving limit) (turn : Turn) : Prop where
  select : match turn.select with
    | .ready fds => fds ⊆ s.monitor.pool.readSet
    | .error e => e = eintr
  accept : ∀ writes, turn.accept = .ok writes → FailsForGood writes
  reads : ∀ fd buf, turn.reads fd = .data buf → buf ≠ [] ∧ buf.length ≤ bufSize

/-! ### The clients' descriptors -/

/-- The table is the one before the loop, and besides the clients are open. -/
structure Tracks (base fds : FdTable File limit) (conns : List ℤ) : Prop where
  get : ∀ fd : ℕ, fds.get fd = if (fd : ℤ) ∈ conns then some .client else base.get fd
  free : ∀ fd : ℕ, (fd : ℤ) ∈ conns → base.get fd = none

variable {base fds fds' : FdTable File limit} {conns conns' closes : List ℤ} {fd n : ℕ}

lemma Tracks.congr (h : Tracks base fds conns) (hmem : ∀ x, x ∈ conns ↔ x ∈ conns') :
    Tracks base fds conns' :=
  ⟨fun fd => by rw [h.get, if_congr (hmem _) rfl rfl], fun fd hfd => h.free fd ((hmem _).mpr hfd)⟩

lemma Tracks.filled (h : Tracks base fds conns) (hbase : base.Filled n) : fds.Filled n := by
  intro e he hnone
  rw [h.get] at hnone
  split_ifs at hnone
  exact hbase e he hnone

lemma Tracks.openOn (h : Tracks base fds conns) (hopen : fds.openOn .client = some (fd, fds')) :
    Tracks base fds' (fd :: conns) ∧ (fd : ℤ) ∉ conns := by
  obtain ⟨hlt, hnone, -, rfl⟩ := FdTable.openOn_spec hopen
  rw [h.get] at hnone
  split_ifs at hnone with hmem
  refine ⟨⟨fun e => ?_, fun e he => ?_⟩, hmem⟩
  · by_cases heq : e = fd
    · subst heq
      rw [FdTable.get_put_self hlt, if_pos List.mem_cons_self]
    · rw [FdTable.get_put_ne heq, h.get]
      refine if_congr ?_ rfl rfl
      simp [heq]
  · rcases List.mem_cons.mp he with heq | he
    · obtain rfl : e = fd := by omega
      exact hnone
    · exact h.free e he

lemma Tracks.close {x : ℤ} (h : Tracks base fds (x :: conns)) (hpos : 0 < x) (hx : x ∉ conns) :
    Tracks base (fds.close x.toNat) conns ∧ fds.get x.toNat = some .client := by
  have hnat : (x.toNat : ℤ) = x := Int.toNat_of_nonneg hpos.le
  have hget : fds.get x.toNat = some .client := by
    rw [h.get, hnat, if_pos List.mem_cons_self]
  have hlt : x.toNat < limit := by
    by_contra hge
    rw [fds.above _ (by omega)] at hget
    cases hget
  refine ⟨⟨fun e => ?_, fun e he => h.free e (List.mem_cons_of_mem _ he)⟩, hget⟩
  by_cases heq : e = x.toNat
  · subst heq
    rw [FdTable.close, FdTable.get_put_self hlt, hnat, if_neg hx]
    exact (h.free _ (by rw [hnat]; exact List.mem_cons_self)).symm
  · rw [FdTable.close, FdTable.get_put_ne heq, h.get]
    refine if_congr ?_ rfl rfl
    have hne : (e : ℤ) ≠ x := by omega
    simp [hne]

lemma Tracks.closeAll (h : Tracks base fds conns) (hperm : conns.Perm (closes ++ conns'))
    (hnodup : conns.Nodup) (hpos : ∀ x ∈ conns, 0 < x) :
    Tracks base (Descriptors.closeAll closes fds) conns' ∧ straysOf closes fds = [] := by
  induction closes generalizing fds conns with
  | nil => exact ⟨h.congr fun x => hperm.mem_iff, rfl⟩
  | cons x closes ih =>
    have hnodup' := List.nodup_cons.mp (hperm.nodup_iff.mp hnodup)
    have hx : x ∈ conns := hperm.mem_iff.mpr List.mem_cons_self
    obtain ⟨hrest, hget⟩ := (h.congr fun y => hperm.mem_iff).close (hpos x hx) hnodup'.1
    obtain ⟨htracks, hstrays⟩ := ih hrest (.refl _) hnodup'.2 fun y hy =>
      hpos y (hperm.mem_iff.mpr (List.mem_cons_of_mem _ hy))
    refine ⟨htracks, ?_⟩
    rw [straysOf, if_pos hget, hstrays]
    rfl

/-! ### A pass -/

/-- The highest descriptor bounds the others. -/
structure Bounded (listenfd : ℤ) (p : Pool) : Prop where
  listen : listenfd ≤ p.maxfd
  top : ∀ x ∈ clients p.clientfd, x ≤ p.maxfd

/-- **The invariant** of the loop, on the descriptors. -/
structure Inv (header : Bytes) (listenfd masterfd : ℤ) (base : FdTable File limit)
    (fds : FdTable File limit) (m : Monitor) : Prop where
  relay : Relay.Inv header listenfd masterfd m
  tracks : Tracks base fds (clients m.pool.clientfd)
  bounded : Bounded listenfd m.pool

variable {header : Bytes} {listenfd masterfd : ℕ} {turn : Turn} {m m' : Monitor} {ret : ℤ}

lemma accept_fresh (h : Inv header listenfd masterfd base fds m) (hmaster : masterfd < listenfd)
    (hbase : base.Filled (listenfd + 1)) (hlowest : fds.lowest = some fd) :
    listenfd < fd ∧ fd < limit ∧ (fd : ℤ) ∉ m.pool.readSet := by
  obtain ⟨hlt, hnone, -⟩ := FdTable.lowest_eq_some.mp hlowest
  have hlisten : listenfd < fd := by
    by_contra hle
    exact h.tracks.filled hbase fd (by omega) hnone
  refine ⟨hlisten, hlt, fun hmem => ?_⟩
  rcases (h.relay.pool.watched fd).mp hmem with heq | heq | hclient
  · omega
  · omega
  · rw [h.tracks.get, if_pos hclient] at hnone
    cases hnone

lemma maxfd_acceptClient (h : PoolInv listenfd masterfd m.pool) {x : ℤ}
    {writes : List WriteResult} (hrun : acceptClient header (.conn x writes) m = some m') :
    m'.pool.maxfd = max x m.pool.maxfd := by
  obtain ⟨⟨io, ret⟩, -, heq⟩ := Option.bind_eq_some_iff.mp hrun
  cases heq
  exact maxfd_addClient h x

lemma Inv.accept (h : Inv header listenfd masterfd base fds m) (hmaster : masterfd < listenfd)
    (hbase : base.Filled (listenfd + 1)) (hlimit : limit ≤ fdSetSize)
    (hwrites : ∀ writes, turn.accept = .ok writes → FailsForGood writes)
    (hrun : acceptReady header listenfd (turn.answers fds).accept m = some m') :
    Inv header listenfd masterfd base (acceptFds listenfd turn m fds) m' := by
  have hfailed : ∀ e, some { m with io := { m.io with errno := e } } = some m' →
      Inv header listenfd masterfd base fds m' := by
    intro e heq
    cases heq
    exact ⟨⟨h.relay.pool, h.relay.ok, h.relay.live, h.relay.inStep⟩, h.tracks, h.bounded⟩
  unfold acceptReady at hrun
  unfold acceptFds
  split_ifs at hrun ⊢ with hready
  · unfold Turn.answers at hrun
    cases ha : turn.accept with
    | error e =>
      rw [ha] at hrun
      exact hfailed e hrun
    | ok writes =>
      rw [ha] at hrun
      dsimp only at hrun ⊢
      cases hlowest : fds.lowest with
      | none =>
        rw [hlowest] at hrun
        rw [FdTable.openOn, hlowest]
        exact hfailed emfile hrun
      | some fd =>
        rw [hlowest] at hrun
        have hopen : fds.openOn .client = some (fd, fds.put fd (some .client)) :=
          FdTable.openOn_eq_some.mpr ⟨hlowest, rfl⟩
        obtain ⟨hlisten, hlt, hnew⟩ := accept_fresh h hmaster hbase hlowest
        obtain ⟨hrelay, -, -, -, hperm⟩ :=
          acceptClient_inv h.relay (by omega) (by omega) hnew (hwrites _ ha) hrun
        have hmax := maxfd_acceptClient h.relay.pool hrun
        have hbound := h.bounded.listen
        rw [hopen]
        refine ⟨hrelay, (h.tracks.openOn hopen).1.congr fun x => hperm.mem_iff.symm, ?_, ?_⟩
        · omega
        · intro x hx
          rcases List.mem_cons.mp (hperm.mem_iff.mp hx) with rfl | hx
          · omega
          · have := h.bounded.top x hx
            omega
  · cases hrun
    exact h

lemma Inv.check (h : Inv header listenfd masterfd base fds m) {reads : ℤ → ReadResult}
    (hrun : checkClientsAndMaster reads m = some (m', ret)) :
    Tracks base (closeAll (checkCloses reads m) fds) (clients m'.pool.clientfd) ∧
      straysOf (checkCloses reads m) fds = [] ∧ Bounded listenfd m'.pool := by
  obtain ⟨hpool, hmax, hperm⟩ := checkClientsAndMaster_checked h.relay.pool hrun
  obtain ⟨htracks, hstrays⟩ := h.tracks.closeAll hperm h.relay.pool.nodup fun x hx =>
    (mem_clients.mp hx).2
  refine ⟨htracks, hstrays, ?_, fun x hx => ?_⟩
  · rw [hmax]
    exact h.bounded.listen
  · rw [hmax]
    exact h.bounded.top x (hperm.mem_iff.mpr (List.mem_append_right _ hx))

lemma Inv.selected (h : Inv header listenfd masterfd base fds m)
    (hs : Descriptors.selected turn m = some m') : Inv header listenfd masterfd base fds m' := by
  obtain ⟨⟨⟨hlen, hent, hnodup, hwatched, hhigh, hmaster⟩, hok, hlive, hstep⟩, htracks, hbound⟩ := h
  unfold Descriptors.selected at hs
  cases hsel : turn.select with
  | ready ready =>
    rw [hsel] at hs
    cases hs
    exact ⟨⟨⟨hlen, hent, hnodup, hwatched, hhigh, hmaster⟩, hok, hlive, hstep⟩, htracks,
      hbound.1, hbound.2⟩
  | error e =>
    rw [hsel] at hs
    dsimp only at hs
    split_ifs at hs
    cases hs
    exact ⟨⟨⟨hlen, hent, hnodup, hwatched, hhigh, hmaster⟩, hok, hlive, hstep⟩, htracks,
      hbound.1, hbound.2⟩

lemma pass_of_selected (hrun : PtyExecUtil.pass header listenfd (turn.answers fds) m =
    some (m', ret)) :
    (selected turn m = none ∧ m'.pool.clientfd = m.pool.clientfd ∧
        m'.pool.maxfd = m.pool.maxfd) ∨
      ∃ m₀, selected turn m = some m₀ ∧
        serve header listenfd (turn.answers fds) m₀ = some (m', ret) := by
  have hanswers : (turn.answers fds).select = turn.select := rfl
  unfold PtyExecUtil.pass at hrun
  unfold selected
  rw [hanswers] at hrun
  cases hsel : turn.select with
  | ready ready =>
    rw [hsel] at hrun
    exact Or.inr ⟨_, rfl, hrun⟩
  | error e =>
    rw [hsel] at hrun
    dsimp only at hrun ⊢
    split_ifs at hrun ⊢
    · cases hrun
      exact Or.inl ⟨rfl, rfl, rfl⟩
    · exact Or.inr ⟨_, rfl, hrun⟩

/-- The monitor of a run on the descriptors is the one of a run of the loop. -/
structure ServingInv (header : Bytes) (listenfd masterfd : ℤ) (base : FdTable File limit)
    (t : Serving limit) : Prop where
  reach : (machine header listenfd masterfd).Reach Admissible t.monitor
  tracks : Tracks base t.fds (clients t.monitor.pool.clientfd)
  bounded : Bounded listenfd t.monitor.pool
  strays : t.strays = []

variable {t t' : Serving limit}

/-- What is relied on of the descriptors holds, since the table gives them. -/
lemma admissible (h : ServingInv header listenfd masterfd base t) (hmaster : masterfd < listenfd)
    (hbase : base.Filled (listenfd + 1)) (hlimit : limit ≤ fdSetSize) (hr : Relies t turn) :
    Admissible t.monitor (turn.answers t.fds) := by
  refine ⟨hr.select, fun x writes heq => ?_, hr.reads⟩
  have hinv : Inv header listenfd masterfd base t.fds t.monitor :=
    ⟨inv_reach h.reach, h.tracks, h.bounded⟩
  unfold Turn.answers at heq
  cases ha : turn.accept with
  | error e =>
    rw [ha] at heq
    cases heq
  | ok writes' =>
    rw [ha] at heq
    cases hlowest : t.fds.lowest with
    | none =>
      rw [hlowest] at heq
      cases heq
    | some fd =>
      rw [hlowest] at heq
      cases heq
      obtain ⟨hlisten, hlt, hnew⟩ := accept_fresh hinv hmaster hbase hlowest
      exact ⟨by omega, by omega, hnew, hr.accept _ ha⟩

lemma ServingInv.step (h : ServingInv header listenfd masterfd base t)
    (hmaster : masterfd < listenfd) (hbase : base.Filled (listenfd + 1))
    (hlimit : limit ≤ fdSetSize) (hr : Relies t turn)
    (hs : (serving header listenfd masterfd base).step t turn = some t') :
    ServingInv header listenfd masterfd base t' := by
  have ha := admissible h hmaster hbase hlimit hr
  obtain ⟨monitor, hstep, hrest⟩ := Option.bind_eq_some_iff.mp hs
  have hreach := h.reach.step ha hstep
  have hinv : Inv header listenfd masterfd base t.fds t.monitor :=
    ⟨inv_reach h.reach, h.tracks, h.bounded⟩
  rcases pass_of_selected (pass_of_step hstep) with ⟨hnone, hslots, hmax⟩ | ⟨m, hsome, hserve⟩
  · rw [hnone] at hrest
    cases hrest
    refine ⟨hreach, ?_, ⟨?_, ?_⟩, h.strays⟩
    · exact hslots.symm ▸ h.tracks
    · exact hmax.symm ▸ h.bounded.listen
    · exact hslots.symm ▸ hmax.symm ▸ h.bounded.top
  · rw [hsome] at hrest
    obtain ⟨m', haccept, hcheck⟩ := Option.bind_eq_some_iff.mp hserve
    obtain ⟨m'', haccept', heq⟩ := Option.bind_eq_some_iff.mp hrest
    obtain rfl : m'' = m' := Option.some.inj (haccept'.symm.trans haccept)
    cases heq
    obtain ⟨htracks, hstrays, hbounded⟩ :=
      ((hinv.selected hsome).accept hmaster hbase hlimit hr.accept haccept).check hcheck
    refine ⟨hreach, htracks, hbounded, ?_⟩
    dsimp only
    rw [h.strays]
    exact hstrays

/-! ### Any run -/

variable {s : Settings} {ans : StartAnswers} {p : Proc limit}

lemma startMonitor_spec (h : startMonitor s ans p = some (masterfd, listenfd, base)) :
    masterfd < listenfd ∧ base.Filled (listenfd + 1) ∧
      ∀ fd, base.get fd = if fd = listenfd then some .listener
        else if fd = masterfd then some .master else p.fds.get fd := by
  obtain ⟨⟨p₁, o⟩, hclone, hforked⟩ := Option.bind_eq_some_iff.mp h
  obtain ⟨forked, rfl, hrest⟩ := Option.bind_eq_some_iff.mp hforked
  obtain ⟨⟨-, -, hmaster⟩, -⟩ := ptyClone_spec hclone
  dsimp only at hrest
  rcases hsock : p₁.openOn ans.socket .listener with ⟨p₂, _ | fd⟩
  · rw [hsock] at hrest
    cases hrest
  · rw [hsock] at hrest
    obtain ⟨fd', hfd, hrest⟩ := Option.bind_eq_some_iff.mp hrest
    cases hfd
    split_ifs at hrest
    cases hrest
    have hopen := openOn_eq_some hsock
    obtain ⟨hlt, -, -, heq⟩ := FdTable.openOn_spec hmaster
    obtain ⟨hlt', -, -, hbase⟩ := FdTable.openOn_spec hopen
    refine ⟨(FdTable.filled_openOn hmaster).le hopen, FdTable.filled_openOn hopen, fun fd => ?_⟩
    rw [hbase, FdTable.get_put, heq, FdTable.get_put]
    simp only [hlt, hlt', and_true]

lemma servingInv_reach (hlimit : limit ≤ fdSetSize)
    (hstart : startMonitor s ans p = some (masterfd, listenfd, base))
    (h : (serving header listenfd masterfd base).Reach Relies t) :
    ServingInv header listenfd masterfd base t := by
  obtain ⟨hmaster, hbase, -⟩ := startMonitor_spec hstart
  refine h.invariant (fun t ht => ?_) fun t turn t' hinv hr hs =>
    hinv.step hmaster hbase hlimit hr hs
  obtain ⟨hinit, rfl, hstrays⟩ := ht
  have hnone : clients t.monitor.pool.clientfd = [] := by
    rw [hinit.1]
    exact List.filter_eq_nil_iff.mpr fun x hx => by
      rw [show x = -1 from List.eq_of_mem_replicate hx]
      decide
  refine ⟨.start hinit, ⟨fun fd => by simp [hnone], by simp [hnone]⟩, ⟨?_, by simp [hnone]⟩,
    hstrays⟩
  rw [hinit.1]
  exact Int.le_refl _

/-- **The descriptors of a monitor**: in every state reached, the descriptors that are open are
those open before it had a terminal, the terminal and above it the socket, and one for each client
in the slots, on what they are to be; every descriptor closed was a client's; each watched
descriptor is open and at most `maxfd`, and `add_client` finds a free slot. What the loop relies on
of the descriptors that `accept` gives thus holds in every run. -/
theorem monitor_descriptors (hlimit : limit ≤ fdSetSize)
    (hstart : startMonitor s ans p = some (masterfd, listenfd, base))
    (h : (serving header listenfd masterfd base).Reach Relies t) :
    (machine header listenfd masterfd).Reach Admissible t.monitor ∧ masterfd < listenfd ∧
      t.strays = [] ∧
      (∀ fd : ℕ, t.fds.get fd =
        if (fd : ℤ) ∈ clients t.monitor.pool.clientfd then some .client
        else if fd = listenfd then some .listener
        else if fd = masterfd then some .master
        else p.fds.get fd) ∧
      (∀ x ∈ t.monitor.pool.readSet,
        0 ≤ x ∧ x ≤ t.monitor.pool.maxfd ∧ t.fds.get x.toNat ≠ none) ∧
      ∃ i, t.monitor.pool.clientfd.findIdx? (fun x => x < 0) = some i := by
  obtain ⟨hmaster, -, hget⟩ := startMonitor_spec hstart
  have hinv := servingInv_reach hlimit hstart h
  have hpool := (inv_reach hinv.reach).pool
  have htable : ∀ fd : ℕ, t.fds.get fd =
      if (fd : ℤ) ∈ clients t.monitor.pool.clientfd then some .client
      else if fd = listenfd then some .listener
      else if fd = masterfd then some .master
      else p.fds.get fd := fun fd => by rw [hinv.tracks.get, hget]
  refine ⟨hinv.reach, hmaster, hinv.strays, htable, fun x hx => ?_, hpool.exists_free⟩
  have hlisten := hinv.bounded.listen
  rcases (hpool.watched x).mp hx with rfl | rfl | hclient
  · refine ⟨by omega, hlisten, ?_⟩
    rw [htable, Int.toNat_natCast, if_pos rfl]
    split_ifs <;> simp
  · refine ⟨by omega, by omega, ?_⟩
    rw [htable, Int.toNat_natCast, if_pos rfl]
    split_ifs <;> simp
  · have hpos := (mem_clients.mp hclient).2
    refine ⟨hpos.le, hinv.bounded.top x hclient, ?_⟩
    rw [htable, Int.toNat_of_nonneg hpos.le, if_pos hclient]
    simp

/-- A process with its three standard descriptors, and a child that comes through. -/
def shell : Proc 16 where
  fds :=
    { get := fun fd => if fd < 3 then some (.inherited fd) else none
      above := fun fd hfd => if_neg (by omega) }
  errno := 0

def allWell : StartAnswers where
  clone := ⟨⟨none, none, none, .ok [112, 116, 115], id⟩, .ok 42, id, true,
    ⟨none, none, none, none, none, fun _ => none⟩⟩
  socket := none
  bind := none
  listen := none

/-- A client connects while the container prints a prompt. -/
def firstTurn : Turn where
  select := .ready {4, 3}
  accept := .ok [.wrote 100, .wrote 0, .error eintr, .wrote 100]
  reads fd := if fd = 3 then .data [36, 32] else .eof

/-- The first client gets the descriptor above the terminal and the socket. -/
theorem monitor_descriptors_client :
    let base := (shell.fds.put 3 (some .master)).put 4 (some .listener)
    startMonitor ⟨true, true⟩ allWell shell = some (3, 4, base) ∧
      ∃ t, (serving [104, 105] 4 3 base).step ⟨⟨initPool 4 3, idleMonitor.io⟩, base, []⟩ firstTurn =
        some t ∧ 5 ∈ t.monitor.pool.readSet ∧ t.strays = [] ∧ t.fds.get 5 ≠ none := by
  intro base
  have hbase : startMonitor ⟨true, true⟩ allWell shell = some (3, 4, base) := by rfl
  have hstart : (serving [104, 105] 4 3 base).Reach Relies
      ⟨⟨initPool 4 3, idleMonitor.io⟩, base, []⟩ :=
    .start ⟨⟨rfl, rfl, rfl, rfl, rfl, rfl⟩, rfl, rfl⟩
  have hrelies : Relies ⟨⟨initPool 4 3, idleMonitor.io⟩, base, []⟩ firstTurn := by
    refine ⟨Finset.Subset.refl _, fun writes heq => ?_, fun fd buf hr => ?_⟩
    · cases heq
      unfold FailsForGood
      decide
    · by_cases hfd : fd = 3
      · cases hr.symm.trans (if_pos hfd)
        decide
      · cases hr.symm.trans (if_neg hfd)
  have hread : ((serving [104, 105] 4 3 base).step ⟨⟨initPool 4 3, idleMonitor.io⟩, base, []⟩
      firstTurn).any (fun t => 5 ∈ t.monitor.pool.readSet) = true := by decide +kernel
  obtain ⟨t, ht, hfive⟩ := (Option.any_eq_true ..).mp hread
  have hmem : (5 : ℤ) ∈ t.monitor.pool.readSet := of_decide_eq_true hfive
  obtain ⟨-, -, hstrays, -, hopen, -⟩ :=
    monitor_descriptors (by decide) hbase (hstart.step hrelies ht)
  exact ⟨hbase, t, ht, hmem, hstrays, (hopen 5 hmem).2.2⟩

end Hoststack.Descriptors
