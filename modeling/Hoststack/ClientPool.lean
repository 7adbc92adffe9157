import Hoststack.Relay

/-!
The pool of clients under any sequence of calls.

`add_client` and `check_clients_and_master` are called in any order, with any ready sets and
any outcomes of the reads and writes. A descriptor may be accepted again once it is closed, so
the descriptors are counted: each acceptance is answered by at most one `close`, and as long as
it is not, the descriptor is in one slot.
-/

namespace Hoststack.ClientPool

open SocketIo PtyExecUtil Relay

/-! ### What is closed -/

/-- The descriptors closed by the loop over the slots. -/
def clientCloses (ready : Finset ℤ) (reads : ℤ → ReadResult) : List ℤ → Scan → List ℤ
  | [], _ => []
  | connfd :: rest, s =>
    if s.nready > 0 then
      if connfd > 0 ∧ connfd ∈ ready then
        let s := s.poll connfd
        match reads connfd with
        | .data buf =>
          let io := { s.io with chunks := s.io.chunks ++ [(connfd, buf)] }
          match io.writeMaster buf with
          | some (io, ret) => if ret ≤ 0 then [] else clientCloses ready reads rest { s with io }
          | none => []
        | r =>
          let errno := r.errno s.io.errno
          let io := { s.io with errno }
          if errno ≠ eintr then
            connfd :: clientCloses ready reads rest
              { s with io, readSet := s.readSet.erase connfd }
          else clientCloses ready reads rest { s with io }
      else clientCloses ready reads rest s
    else []

/-- The descriptors closed by the loop that sends to all clients. -/
def broadcastCloses (buf : Bytes) : List ℤ → Scan → List ℤ
  | [], _ => []
  | connfd :: rest, s =>
    if connfd > 0 then
      match s.io.writeConn connfd buf with
      | some (io, ret) =>
        if ret ≠ buf.length then
          connfd :: broadcastCloses buf rest { s with io, readSet := s.readSet.erase connfd }
        else broadcastCloses buf rest { s with io }
      | none => []
    else broadcastCloses buf rest s

def masterCloses (reads : ℤ → ReadResult) (m : Monitor) : List ℤ :=
  if m.pool.masterfd ≠ -1 ∧ m.pool.masterfd ∈ m.pool.readySet then
    match reads m.pool.masterfd with
    | .data buf =>
      let io := { m.io with fromMaster := m.io.fromMaster ++ buf }
      broadcastCloses buf m.pool.slots ⟨m.pool.readSet, m.pool.nready - 1, io⟩
    | _ => []
  else []

def checkCloses (reads : ℤ → ReadResult) (m : Monitor) : List ℤ :=
  let s : Scan := ⟨m.pool.readSet, m.pool.nready, m.io⟩
  clientCloses m.pool.readySet reads m.pool.slots s ++
    match checkClients m.pool.readySet reads m.pool.slots s with
    | some (slots, s, false) => masterCloses reads (m.scanned slots s)
    | _ => []

/-! ### Any sequence of calls -/

/-- A call: a descriptor is added, of which it is known what the writes to it will return, or
the pool is checked with what `select` has left in it. -/
inductive PoolCall where
  | addClient (connfd : ℤ) (writes : List WriteResult)
  | checkClientsAndMaster (readySet : Finset ℤ) (nready : ℤ) (reads : ℤ → ReadResult)

/-- The monitor, with the descriptors accepted and those closed. -/
structure PoolRun where
  monitor : Monitor
  accepted : List ℤ
  closed : List ℤ

/-- The calls go on whatever `check_clients_and_master` returns. -/
def pooling (listenfd masterfd : ℤ) : Machine PoolRun PoolCall where
  init s := s.monitor.pool = initPool listenfd masterfd ∧ s.accepted = [] ∧ s.closed = []
  step s
    | .addClient connfd writes =>
      let conn : Conn := ⟨connfd, s.monitor.io.fromMaster.length, [], false, writes⟩
      let io := { s.monitor.io with conns := conn :: s.monitor.io.conns }
      let accepted := s.accepted ++ [connfd]
      some { s with monitor := ⟨addClient connfd s.monitor.pool, io⟩, accepted }
    | .checkClientsAndMaster readySet nready reads => do
      let m := { s.monitor with pool := { s.monitor.pool with readySet, nready } }
      let (monitor, _) ← checkClientsAndMaster reads m
      some { s with monitor, closed := s.closed ++ checkCloses reads m }

/-- A descriptor is open that has been accepted once more than it has been closed. -/
def PoolRun.Open (s : PoolRun) (fd : ℤ) : Prop := s.closed.count fd < s.accepted.count fd

instance (s : PoolRun) (fd : ℤ) : Decidable (s.Open fd) :=
  inferInstanceAs (Decidable (_ < _))

/-- What `accept` returns is positive, below `FD_SETSIZE` and not open. -/
def AcceptsFresh (listenfd masterfd : ℤ) (s : PoolRun) : PoolCall → Prop
  | .addClient connfd _ =>
    0 < connfd ∧ connfd < fdSetSize ∧ connfd ≠ listenfd ∧ connfd ≠ masterfd ∧ ¬ s.Open connfd
  | .checkClientsAndMaster .. => True

instance (listenfd masterfd : ℤ) :
    ∀ s call, Decidable (AcceptsFresh listenfd masterfd s call)
  | _, .addClient .. => inferInstanceAs (Decidable (_ ∧ _ ∧ _ ∧ _ ∧ _))
  | _, .checkClientsAndMaster .. => inferInstanceAs (Decidable True)

/-! ### The loops over the slots -/

/-- What was in the slots that are not as they were. -/
def changed (slots slots' : List ℤ) : List ℤ :=
  ((slots.zip slots').filter fun x => x.1 ≠ x.2).map Prod.fst

lemma changed_self (slots : List ℤ) : changed slots slots = [] := by
  induction slots with
  | nil => rfl
  | cons fd slots ih => simpa [changed] using ih

/-- A loop over slots has freed just those whose descriptors it has closed. -/
structure Closed (closes slots slots' : List ℤ) (watched watched' : Finset ℤ) : Prop where
  swept : Swept slots slots' watched watched'
  freed : closes = changed slots slots'
  perm : (clients slots).Perm (closes ++ clients slots')

variable {closes slots slots' rest rest' : List ℤ} {watched watched' : Finset ℤ} {fd : ℤ}

lemma Closed.refl (slots : List ℤ) (watched : Finset ℤ) :
    Closed [] slots slots watched watched :=
  ⟨Swept.refl slots watched, (changed_self slots).symm, .refl _⟩

lemma Closed.keep (h : Closed closes rest rest' watched watched') (hfd : fd ∉ clients rest) :
    Closed closes (fd :: rest) (fd :: rest') watched watched' := by
  refine ⟨h.swept.keep hfd, by simpa [changed] using h.freed, ?_⟩
  by_cases hpos : 0 < fd
  · rw [clients_cons_pos hpos, clients_cons_pos hpos]
    exact (h.perm.cons fd).trans List.perm_middle.symm
  · rw [clients_cons_neg hpos, clients_cons_neg hpos]
    exact h.perm

lemma Closed.free (h : Closed closes rest rest' (watched.erase fd) watched') (hpos : 0 < fd)
    (hfd : fd ∉ clients rest) :
    Closed (fd :: closes) (fd :: rest) (-1 :: rest') watched watched' := by
  have hne : fd ≠ -1 := by omega
  refine ⟨h.swept.free hpos hfd, by simpa [changed, hne] using h.freed, ?_⟩
  rw [clients_cons_pos hpos, clients_cons_neg (by omega)]
  exact h.perm.cons fd

lemma nodup_cons (hnodup : (clients (fd :: rest)).Nodup) :
    fd ∉ clients rest ∧ (clients rest).Nodup := by
  by_cases hpos : 0 < fd
  · rw [clients_cons_pos hpos] at hnodup
    exact List.nodup_cons.mp hnodup
  · rw [clients_cons_neg hpos] at hnodup
    exact ⟨fun hmem => hpos (mem_clients.mp hmem).2, hnodup⟩

variable {ready : Finset ℤ} {reads : ℤ → ReadResult} {buf : Bytes} {s s' : Scan} {gone : Bool}

/-- Reading the clients frees the slots of those it closes, also where it returns because
the terminal is gone. -/
lemma checkClients_closed (h : checkClients ready reads slots s = some (slots', s', gone))
    (hnodup : (clients slots).Nodup) :
    Closed (clientCloses ready reads slots s) slots slots' s.readSet s'.readSet := by
  induction slots generalizing s slots' with
  | nil =>
    cases h
    exact Closed.refl _ _
  | cons fd rest ih =>
    obtain ⟨hfd, hnodup⟩ := nodup_cons hnodup
    unfold checkClients at h
    unfold clientCloses
    split_ifs at h ⊢ with hleft hready
    · cases hr : reads fd with
      | data buf =>
        rw [hr] at h
        obtain ⟨⟨io, ret⟩, hwrite, hrest⟩ := Option.bind_eq_some_iff.mp h
        dsimp only at hrest ⊢
        rw [hwrite]
        dsimp only
        split_ifs at hrest ⊢ with hret
        · cases hrest
          exact Closed.refl _ _
        · obtain ⟨⟨rest', s₁, gone⟩, hloop, heq⟩ := Option.bind_eq_some_iff.mp hrest
          cases heq
          exact (ih hloop hnodup).keep hfd
      | eof | error e =>
        rw [hr] at h
        dsimp only at h ⊢
        split_ifs at h ⊢ with herrno
        · obtain ⟨⟨rest', s₁, gone⟩, hloop, heq⟩ := Option.bind_eq_some_iff.mp h
          cases heq
          exact (ih hloop hnodup).free hready.1 hfd
        · obtain ⟨⟨rest', s₁, gone⟩, hloop, heq⟩ := Option.bind_eq_some_iff.mp h
          cases heq
          exact (ih hloop hnodup).keep hfd
    · obtain ⟨⟨rest', s₁, gone⟩, hloop, heq⟩ := Option.bind_eq_some_iff.mp h
      cases heq
      exact (ih hloop hnodup).keep hfd
    · cases h
      exact Closed.refl _ _

lemma writeClients_closed (h : writeClients buf slots s = some (slots', s'))
    (hnodup : (clients slots).Nodup) :
    Closed (broadcastCloses buf slots s) slots slots' s.readSet s'.readSet := by
  induction slots generalizing s slots' with
  | nil =>
    cases h
    exact Closed.refl _ _
  | cons fd rest ih =>
    obtain ⟨hfd, hnodup⟩ := nodup_cons hnodup
    unfold writeClients at h
    unfold broadcastCloses
    split_ifs at h ⊢ with hpos
    · obtain ⟨⟨io, ret⟩, hwrite, hrest⟩ := Option.bind_eq_some_iff.mp h
      dsimp only at hrest ⊢
      rw [hwrite]
      dsimp only
      split_ifs at hrest ⊢ with hret
      · obtain ⟨⟨rest', s₁⟩, hloop, heq⟩ := Option.bind_eq_some_iff.mp hrest
        cases heq
        exact (ih hloop hnodup).free hpos hfd
      · obtain ⟨⟨rest', s₁⟩, hloop, heq⟩ := Option.bind_eq_some_iff.mp hrest
        cases heq
        exact (ih hloop hnodup).keep hfd
    · obtain ⟨⟨rest', s₁⟩, hloop, heq⟩ := Option.bind_eq_some_iff.mp h
      cases heq
      exact (ih hloop hnodup).keep hfd

/-! ### A call -/

/-- What a part of `check_clients_and_master` does to the pool. -/
structure Checked (listenfd masterfd : ℤ) (closes : List ℤ) (p p' : Pool) : Prop where
  inv : PoolInv listenfd masterfd p'
  maxfd : p'.maxfd = p.maxfd
  perm : (clients p.clientfd).Perm (closes ++ clients p'.clientfd)

variable {listenfd masterfd ret : ℤ} {m m' : Monitor}

lemma Checked.trans {closes' : List ℤ} {p p' p'' : Pool}
    (h : Checked listenfd masterfd closes p p') (h' : Checked listenfd masterfd closes' p' p'') :
    Checked listenfd masterfd (closes ++ closes') p p'' := by
  refine ⟨h'.inv, h'.maxfd.trans h.maxfd, h.perm.trans ?_⟩
  rw [List.append_assoc]
  exact h'.perm.append_left closes

lemma clients_scanned (h : PoolInv listenfd masterfd m.pool) (slots : List ℤ) (s : Scan) :
    clients (m.scanned slots s).pool.clientfd = clients slots := by
  have hhigh : clients (m.pool.clientfd.drop (m.pool.maxi + 1).toNat) = [] :=
    List.filter_eq_nil_iff.mpr fun x hx => by rw [h.high x hx]; decide
  unfold Monitor.scanned
  rw [clients_append, hhigh, List.append_nil]

lemma checked_scanned (h : PoolInv listenfd masterfd m.pool)
    (hc : Closed closes m.pool.slots slots m.pool.readSet s.readSet) :
    Checked listenfd masterfd closes m.pool (m.scanned slots s).pool := by
  refine ⟨h.scanned hc.swept, rfl, ?_⟩
  rw [clients_scanned h, ← h.clients_slots]
  exact hc.perm

lemma checkMaster_checked (h : PoolInv listenfd masterfd m.pool)
    (hrun : checkMaster reads m = some (m', ret)) :
    Checked listenfd masterfd (masterCloses reads m) m.pool m'.pool := by
  unfold checkMaster at hrun
  unfold masterCloses
  split_ifs at hrun ⊢ with hready
  · cases hr : reads m.pool.masterfd with
    | data buf =>
      rw [hr] at hrun
      obtain ⟨⟨slots, s⟩, hwrite, heq⟩ := Option.bind_eq_some_iff.mp hrun
      cases heq
      exact checked_scanned h (writeClients_closed hwrite (h.clients_slots.symm ▸ h.nodup))
    | eof | error e =>
      rw [hr] at hrun
      cases hrun
      exact ⟨⟨h.length, h.entries, h.nodup, h.watched, h.high, h.master⟩, rfl, .refl _⟩
  · cases hrun
    exact ⟨h, rfl, .refl _⟩

lemma checkClientsAndMaster_checked (h : PoolInv listenfd masterfd m.pool)
    (hrun : checkClientsAndMaster reads m = some (m', ret)) :
    Checked listenfd masterfd (checkCloses reads m) m.pool m'.pool := by
  obtain ⟨⟨slots, s, gone⟩, hcheck, hrest⟩ := Option.bind_eq_some_iff.mp hrun
  have hclosed := checkClients_closed hcheck (h.clients_slots.symm ▸ h.nodup)
  have hfirst := checked_scanned h hclosed
  unfold checkCloses
  dsimp only
  rw [hcheck]
  cases gone with
  | true =>
    cases hrest
    simpa using hfirst
  | false => exact hfirst.trans (checkMaster_checked hfirst.inv hrest)

/-- **The invariant** of the pool: the highest descriptor bounds the watched ones, and each
acceptance is answered by a close or holds a slot. -/
structure Inv (listenfd masterfd : ℤ) (s : PoolRun) : Prop where
  pool : PoolInv listenfd masterfd s.monitor.pool
  listen : listenfd ≤ s.monitor.pool.maxfd
  top : ∀ fd ∈ clients s.monitor.pool.clientfd, fd ≤ s.monitor.pool.maxfd
  count : ∀ fd, s.accepted.count fd =
    s.closed.count fd + (clients s.monitor.pool.clientfd).count fd

variable {t t' : PoolRun}

lemma Inv.not_watched (h : Inv listenfd masterfd t) (hlisten : fd ≠ listenfd)
    (hmaster : fd ≠ masterfd) (hopen : ¬ t.Open fd) : fd ∉ t.monitor.pool.readSet := by
  rw [h.pool.watched]
  rintro (heq | heq | hmem)
  · exact hlisten heq
  · exact hmaster heq
  · have hslot : 0 < (clients t.monitor.pool.clientfd).count fd := List.count_pos_iff.mpr hmem
    have hcount := h.count fd
    unfold PoolRun.Open at hopen
    omega

lemma maxfd_addClient {p : Pool} (h : PoolInv listenfd masterfd p) (fd : ℤ) :
    (addClient fd p).maxfd = max fd p.maxfd := by
  obtain ⟨i, hi⟩ := h.exists_free
  unfold addClient
  simp only [hi]
  split_ifs <;> omega

lemma Inv.addClient (h : Inv listenfd masterfd t) {writes : List WriteResult}
    (ha : AcceptsFresh listenfd masterfd t (.addClient fd writes))
    (hs : (pooling listenfd masterfd).step t (.addClient fd writes) = some t') :
    Inv listenfd masterfd t' := by
  obtain ⟨hpos, hlt, hlisten, hmaster, hopen⟩ := ha
  have hnew : fd ∉ t.monitor.pool.readSet := h.not_watched hlisten hmaster hopen
  obtain ⟨hpool, -, -, hperm⟩ := h.pool.addClient hpos hlt hnew
  have hmax : (PtyExecUtil.addClient fd t.monitor.pool).maxfd = max fd t.monitor.pool.maxfd :=
    maxfd_addClient h.pool fd
  cases hs
  refine ⟨hpool, ?_, fun x hx => ?_, fun x => ?_⟩
  · have := h.listen
    dsimp only
    omega
  · dsimp only
    rcases List.mem_cons.mp (hperm.mem_iff.mp hx) with rfl | hx
    · omega
    · have := h.top x hx
      omega
  · have hcount := h.count x
    have hslots := hperm.count_eq x
    rw [List.count_cons] at hslots
    rw [List.count_append, List.count_singleton]
    dsimp only
    omega

lemma Inv.check (h : Inv listenfd masterfd t) {readySet : Finset ℤ} {nready : ℤ}
    (hs : (pooling listenfd masterfd).step t (.checkClientsAndMaster readySet nready reads) =
      some t') : Inv listenfd masterfd t' := by
  obtain ⟨⟨m', ret⟩, hrun, heq⟩ := Option.bind_eq_some_iff.mp hs
  cases heq
  have hselected : PoolInv listenfd masterfd { t.monitor.pool with readySet, nready } :=
    ⟨h.pool.length, h.pool.entries, h.pool.nodup, h.pool.watched, h.pool.high, h.pool.master⟩
  obtain ⟨hpool, hmax, hperm⟩ := checkClientsAndMaster_checked hselected hrun
  dsimp only at hmax hperm
  refine ⟨hpool, ?_, fun x hx => ?_, fun x => ?_⟩
  · dsimp only
    rw [hmax]
    exact h.listen
  · dsimp only
    rw [hmax]
    exact h.top x (hperm.mem_iff.mpr (List.mem_append_right _ hx))
  · have hcount := h.count x
    have hslots := hperm.count_eq x
    rw [List.count_append] at hslots ⊢
    dsimp only
    omega

/-! ### Any run -/

lemma inv_init (hs : (pooling listenfd masterfd).init t) : Inv listenfd masterfd t := by
  obtain ⟨hpool, haccepted, hclosed⟩ := hs
  have hnone : clients (initPool listenfd masterfd).clientfd = [] :=
    List.filter_eq_nil_iff.mpr fun x hx => by
      rw [show x = -1 from List.eq_of_mem_replicate hx]
      decide
  refine ⟨hpool ▸ poolInv_init listenfd masterfd, ?_, ?_, ?_⟩
  · rw [hpool]
    exact le_rfl
  · rw [hpool, hnone]
    simp
  · rw [hpool, hnone, haccepted, hclosed]
    simp

lemma inv_reach (h : (pooling listenfd masterfd).Reach (AcceptsFresh listenfd masterfd) t) :
    Inv listenfd masterfd t := by
  refine h.invariant (fun t ht => inv_init ht) fun t call t' hinv hok hs => ?_
  cases call with
  | addClient fd writes => exact hinv.addClient hok hs
  | checkClientsAndMaster readySet nready reads => exact hinv.check hs

lemma filter_nonneg (h : PoolInv listenfd masterfd m.pool) :
    m.pool.clientfd.filter (fun fd => 0 ≤ fd) = clients m.pool.clientfd := by
  refine List.filter_congr fun x hx => ?_
  rcases h.entries x hx with hfree | htaken
  · simp [hfree]
  · simp [htaken.1, htaken.1.le]

/-- **The pool of clients**: in every state reached, exactly the two descriptors of the monitor
and those in the slots are watched, the latter are different from each other, at indices up to
`maxi`, and all are at most `maxfd`; `add_client` finds a free slot; and each descriptor is in
one slot if it has been accepted once more than it has been closed, and else in none. -/
theorem pool_invariant (hlt : masterfd < listenfd)
    (h : (pooling listenfd masterfd).Reach (AcceptsFresh listenfd masterfd) t) :
    (∀ fd, fd ∈ t.monitor.pool.readSet ↔
      fd = listenfd ∨ fd = masterfd ∨ fd ∈ t.monitor.pool.clientfd ∧ 0 ≤ fd) ∧
    (t.monitor.pool.clientfd.filter fun fd => 0 ≤ fd).Nodup ∧
    (∀ i (hi : i < t.monitor.pool.clientfd.length), 0 ≤ t.monitor.pool.clientfd[i] →
      (i : ℤ) ≤ t.monitor.pool.maxi) ∧
    (∀ fd ∈ t.monitor.pool.readSet, fd ≤ t.monitor.pool.maxfd) ∧
    (∃ i, t.monitor.pool.clientfd.findIdx? (fun fd => fd < 0) = some i) ∧
    (∀ fd, 0 ≤ fd → t.accepted.count fd = t.closed.count fd + t.monitor.pool.clientfd.count fd ∧
      t.monitor.pool.clientfd.count fd ≤ 1) := by
  have hinv := inv_reach h
  have hslots := filter_nonneg hinv.pool
  have hmem : ∀ fd, fd ∈ clients t.monitor.pool.clientfd ↔
      fd ∈ t.monitor.pool.clientfd ∧ 0 ≤ fd := fun fd => by
    rw [← hslots, List.mem_filter, decide_eq_true_iff]
  refine ⟨fun fd => ?_, ?_, fun i hi hpos => ?_, fun fd hfd => ?_, hinv.pool.exists_free,
    fun fd hpos => ?_⟩
  · rw [hinv.pool.watched, hmem]
  · rw [hslots]
    exact hinv.pool.nodup
  · by_contra hgt
    have hdrop : t.monitor.pool.clientfd[i] ∈
        t.monitor.pool.clientfd.drop (t.monitor.pool.maxi + 1).toNat :=
      List.mem_drop_iff_getElem.mpr ⟨i - (t.monitor.pool.maxi + 1).toNat, by omega, by
        congr 1
        omega⟩
    have := hinv.pool.high _ hdrop
    omega
  · have hlisten := hinv.listen
    rcases (hinv.pool.watched fd).mp hfd with rfl | rfl | hclient
    · exact hlisten
    · omega
    · exact hinv.top fd hclient
  · have hsame : (clients t.monitor.pool.clientfd).count fd =
        t.monitor.pool.clientfd.count fd := by
      rw [← hslots]
      exact List.count_filter (decide_eq_true hpos)
    refine ⟨hsame ▸ hinv.count fd, ?_⟩
    rw [← hsame]
    exact List.nodup_iff_count_le_one.mp hinv.pool.nodup fd

/-- A client leaves, and the next one is given its descriptor. -/
def reused : List PoolCall :=
  [.addClient 7 [], .checkClientsAndMaster {7} 1 fun _ => .eof, .addClient 7 []]

theorem pool_invariant_reused :
    ∃ t, (pooling 5 4).runs ⟨idleMonitor, [], []⟩ reused = some t ∧
      t.monitor.pool.clientfd.count 7 = 1 := by
  have hstart : (pooling 5 4).Reach (AcceptsFresh 5 4) ⟨idleMonitor, [], []⟩ :=
    .start ⟨rfl, rfl, rfl⟩
  have hmeets : (pooling 5 4).Meets (AcceptsFresh 5 4) ⟨idleMonitor, [], []⟩ reused :=
    Machine.meets_of_check (by decide +kernel)
  have hlogs : ((pooling 5 4).runs ⟨idleMonitor, [], []⟩ reused).map
      (fun t => (t.accepted, t.closed)) = some ([7, 7], [7]) := by decide +kernel
  obtain ⟨t, hrun, hlog⟩ := Option.map_eq_some_iff.mp hlogs
  obtain ⟨haccepted, hclosed⟩ := Prod.mk.inj hlog
  have hpool := pool_invariant (by decide) (hstart.runs hmeets hrun)
  have hcount := (hpool.2.2.2.2.2 7 (by decide)).1
  rw [haccepted, hclosed] at hcount
  have htwo : [7, 7].count (7 : ℤ) = 2 := by decide
  have hone : [7].count (7 : ℤ) = 1 := by decide
  exact ⟨t, hrun, by omega⟩

end Hoststack.ClientPool
