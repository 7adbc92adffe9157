import Hoststack.PtyExecUtil
import Mathlib.Data.Int.Interval
import Mathlib.Data.List.Dedup

/-!
What the relay loop of a monitor keeps.

The watched descriptors are the two of the monitor and those in the slots, which are
different from each other. A pass reads each ready client once, hands on what it has read
before it reads the next, and sends what the container prints to every client, so each
connection has received a prefix of the header and what was printed since it came.
-/

namespace Hoststack.Relay

open SocketIo PtyExecUtil

/-! ### The slots -/

/-- A loop over slots has freed some of them, and watches the others further on. -/
structure Swept (slots slots' : List ℤ) (watched watched' : Finset ℤ) : Prop where
  freed : List.Forall₂ (fun x y => y = x ∨ y = -1) slots slots'
  watch : ∀ x, x ∈ watched' ↔ x ∈ watched ∧ (0 < x → x ∈ slots → x ∈ slots')

/-- The clients in the slots. -/
def clients (slots : List ℤ) : List ℤ := slots.filter fun x => 0 < x

variable {slots slots' rest rest' : List ℤ} {watched watched' : Finset ℤ} {fd : ℤ}

lemma mem_clients : fd ∈ clients slots ↔ fd ∈ slots ∧ 0 < fd := by
  simp [clients]

lemma Swept.refl (slots : List ℤ) (watched : Finset ℤ) : Swept slots slots watched watched :=
  ⟨List.forall₂_same.mpr fun _ _ => Or.inl rfl, by simp⟩

lemma of_mem_freed (h : List.Forall₂ (fun x y => y = x ∨ y = -1) slots slots')
    (hmem : fd ∈ slots') : fd ∈ slots ∨ fd = -1 := by
  induction h with
  | nil => exact Or.inl hmem
  | @cons x y slots slots' hxy _ ih =>
    rcases List.mem_cons.mp hmem with rfl | hmem
    · exact hxy.imp (fun hx => by simp [hx]) id
    · exact (ih hmem).imp_left (List.mem_cons_of_mem _)

lemma mem_of_freed (h : List.Forall₂ (fun x y => y = x ∨ y = -1) slots slots') (hfd : 0 < fd)
    (hmem : fd ∈ slots') : fd ∈ slots :=
  (of_mem_freed h hmem).resolve_right (by omega)

lemma clients_freed (h : List.Forall₂ (fun x y => y = x ∨ y = -1) slots slots') :
    (clients slots').Sublist (clients slots) := by
  induction h with
  | nil => exact List.Sublist.refl _
  | @cons x y slots slots' hxy _ ih =>
    rcases hxy with rfl | rfl
    · by_cases hy : 0 < y
      · simpa [clients, hy] using ih
      · simpa [clients, hy] using ih
    · by_cases hx : 0 < x
      · simpa [clients, hx] using ih.trans (List.sublist_cons_self x _)
      · simpa [clients, hx] using ih

lemma Swept.keep (h : Swept rest rest' watched watched') (hfd : fd ∉ clients rest) :
    Swept (fd :: rest) (fd :: rest') watched watched' := by
  refine ⟨.cons (Or.inl rfl) h.freed, fun x => (h.watch x).trans (and_congr_right fun _ => ?_)⟩
  constructor
  · intro hx hpos hmem
    rcases List.mem_cons.mp hmem with rfl | hmem
    · simp
    · exact List.mem_cons_of_mem _ (hx hpos hmem)
  · intro hx hpos hmem
    rcases List.mem_cons.mp (hx hpos (List.mem_cons_of_mem _ hmem)) with rfl | hmem'
    · exact absurd (mem_clients.mpr ⟨hmem, hpos⟩) hfd
    · exact hmem'

lemma Swept.free (h : Swept rest rest' (watched.erase fd) watched') (hpos : 0 < fd)
    (hfd : fd ∉ clients rest) : Swept (fd :: rest) (-1 :: rest') watched watched' := by
  refine ⟨.cons (Or.inr rfl) h.freed, fun x => (h.watch x).trans ?_⟩
  rw [Finset.mem_erase, and_comm (a := x ≠ fd), and_assoc]
  refine and_congr_right fun _ => ?_
  by_cases hx : x = fd
  · subst hx
    have hgone : x ∉ -1 :: rest' := by
      intro hmem
      rcases List.mem_cons.mp hmem with rfl | hmem
      · omega
      · exact hfd (mem_clients.mpr ⟨mem_of_freed h.freed hpos hmem, hpos⟩)
    simp only [ne_eq, not_true_eq_false, false_and, List.mem_cons, true_or, forall_const,
      false_iff]
    exact fun hall => hgone (by simpa using hall hpos)
  · simp only [ne_eq, hx, not_false_eq_true, true_and, List.mem_cons, false_or]
    refine forall_congr' fun hp => ?_
    have : x ≠ -1 := by omega
    simp [this]

/-- What is watched, and what the slots hold. -/
structure PoolInv (listenfd masterfd : ℤ) (p : Pool) : Prop where
  length : p.clientfd.length = fdSetSize
  entries : ∀ x ∈ p.clientfd,
    x = -1 ∨ (0 < x ∧ x < fdSetSize ∧ x ≠ listenfd ∧ x ≠ masterfd)
  nodup : (clients p.clientfd).Nodup
  watched : ∀ x, x ∈ p.readSet ↔ x = listenfd ∨ x = masterfd ∨ x ∈ clients p.clientfd
  high : ∀ x ∈ p.clientfd.drop (p.maxi + 1).toNat, x = -1
  master : p.masterfd = masterfd

variable {listenfd masterfd : ℤ} {p : Pool}

lemma poolInv_init (listenfd masterfd : ℤ) :
    PoolInv listenfd masterfd (initPool listenfd masterfd) := by
  have hfree : ∀ x ∈ List.replicate fdSetSize (-1 : ℤ), x = -1 := fun x hx =>
    List.eq_of_mem_replicate hx
  have hnone : clients (List.replicate fdSetSize (-1)) = [] :=
    List.filter_eq_nil_iff.mpr fun x hx => by rw [hfree x hx]; decide
  refine ⟨List.length_replicate, fun x hx => Or.inl (hfree x hx), ?_, fun x => ?_, ?_, rfl⟩
  · exact hnone ▸ List.nodup_nil
  · show x ∈ ({listenfd, masterfd} : Finset ℤ) ↔ _
    rw [show (initPool listenfd masterfd).clientfd = List.replicate fdSetSize (-1) from rfl, hnone]
    simp
  · exact fun x hx => hfree x (List.mem_of_mem_drop hx)

lemma PoolInv.sweep (h : PoolInv listenfd masterfd p) {slots' : List ℤ} {watched' : Finset ℤ}
    (hs : Swept p.clientfd slots' p.readSet watched') (ready : Finset ℤ) (nready : ℤ) :
    PoolInv listenfd masterfd
      { p with clientfd := slots', readSet := watched', readySet := ready, nready := nready } := by
  have hentry : ∀ y ∈ slots', y = -1 ∨ (0 < y ∧ y < fdSetSize ∧ y ≠ listenfd ∧ y ≠ masterfd) := by
    intro y hy
    exact (of_mem_freed hs.freed hy).elim (h.entries y) Or.inl
  refine ⟨?_, hentry, ?_, fun x => ?_, ?_, h.master⟩
  · exact hs.freed.length_eq.symm.trans h.length
  · exact h.nodup.sublist (clients_freed hs.freed)
  · rw [hs.watch x, h.watched x, mem_clients, mem_clients]
    constructor
    · rintro ⟨rfl | rfl | ⟨hmem, hpos⟩, hkeep⟩
      · exact Or.inl rfl
      · exact Or.inr (Or.inl rfl)
      · exact Or.inr (Or.inr ⟨hkeep hpos hmem, hpos⟩)
    · rintro (rfl | rfl | ⟨hmem, hpos⟩)
      · refine ⟨Or.inl rfl, fun hpos hmem => ?_⟩
        rcases h.entries x hmem with hx | hx
        · omega
        · exact absurd rfl hx.2.2.1
      · refine ⟨Or.inr (Or.inl rfl), fun hpos hmem => ?_⟩
        rcases h.entries x hmem with hx | hx
        · omega
        · exact absurd rfl hx.2.2.2
      · exact ⟨Or.inr (Or.inr ⟨mem_of_freed hs.freed hpos hmem, hpos⟩), fun _ _ => hmem⟩
  · exact fun y hy => (of_mem_freed (List.forall₂_drop _ hs.freed) hy).elim (h.high y) id

lemma clients_append (a b : List ℤ) : clients (a ++ b) = clients a ++ clients b :=
  List.filter_append ..

lemma PoolInv.clients_slots (h : PoolInv listenfd masterfd p) :
    clients p.slots = clients p.clientfd := by
  have hhigh : clients (p.clientfd.drop (p.maxi + 1).toNat) = [] :=
    List.filter_eq_nil_iff.mpr fun x hx => by rw [h.high x hx]; decide
  conv_rhs => rw [← List.take_append_drop (p.maxi + 1).toNat p.clientfd, clients_append, hhigh,
    List.append_nil]
  rfl

lemma PoolInv.scanned {m : Monitor} (h : PoolInv listenfd masterfd m.pool) {slots' : List ℤ}
    {s : Scan} (hs : Swept m.pool.slots slots' m.pool.readSet s.readSet) :
    PoolInv listenfd masterfd (m.scanned slots' s).pool := by
  have hswept : Swept m.pool.clientfd (slots' ++ m.pool.clientfd.drop (m.pool.maxi + 1).toNat)
      m.pool.readSet s.readSet := by
    refine ⟨?_, fun x => ?_⟩
    · conv_lhs => rw [← List.take_append_drop (m.pool.maxi + 1).toNat m.pool.clientfd]
      exact List.rel_append hs.freed (List.forall₂_same.mpr fun _ _ => Or.inl rfl)
    · refine (hs.watch x).trans (and_congr_right fun _ => forall_congr' fun hpos => ?_)
      have hhigh : x ∉ m.pool.clientfd.drop (m.pool.maxi + 1).toNat := fun hx => by
        have := h.high x hx
        omega
      have hlow : x ∈ m.pool.clientfd ↔ x ∈ m.pool.slots := by
        conv_lhs => rw [← List.take_append_drop (m.pool.maxi + 1).toNat m.pool.clientfd]
        rw [List.mem_append, or_iff_left hhigh]
        rfl
      rw [hlow, List.mem_append, or_iff_left hhigh]
  exact h.sweep hswept m.pool.readySet s.nready

lemma PoolInv.of_mem_scanned {m : Monitor} (h : PoolInv listenfd masterfd m.pool)
    {slots' : List ℤ} {s : Scan} (hs : Swept m.pool.slots slots' m.pool.readSet s.readSet)
    (hmem : fd ∈ clients (m.scanned slots' s).pool.clientfd) : fd ∈ clients m.pool.slots := by
  obtain ⟨hmem, hpos⟩ := mem_clients.mp hmem
  rcases List.mem_append.mp hmem with hmem | hmem
  · exact mem_clients.mpr ⟨mem_of_freed hs.freed hpos hmem, hpos⟩
  · have := h.high fd hmem
    omega

/-- Fewer than `FD_SETSIZE` positive descriptors are below it, so a slot is free. -/
lemma PoolInv.exists_free (h : PoolInv listenfd masterfd p) :
    ∃ i, p.clientfd.findIdx? (fun x => x < 0) = some i := by
  rcases hf : p.clientfd.findIdx? (fun x => x < 0) with _ | i
  · have hall : ∀ x ∈ p.clientfd, ¬ x < 0 := by simpa using hf
    have hpos : ∀ x ∈ p.clientfd, 0 < x ∧ x < fdSetSize := fun x hx =>
      (h.entries x hx).elim (fun hx' => absurd hx' (by have := hall x hx; omega))
        fun hx' => ⟨hx'.1, hx'.2.1⟩
    have hclients : clients p.clientfd = p.clientfd :=
      List.filter_eq_self.mpr fun x hx => decide_eq_true (hpos x hx).1
    have hnodup := hclients ▸ h.nodup
    have hsub : p.clientfd.toFinset ⊆ Finset.Ioo 0 (fdSetSize : ℤ) := fun x hx =>
      Finset.mem_Ioo.mpr (hpos x (List.mem_toFinset.mp hx))
    have hcard := Finset.card_le_card hsub
    rw [List.toFinset_card_of_nodup hnodup, h.length, Int.card_Ioo] at hcard
    simp [fdSetSize] at hcard
  · exact ⟨i, hf⟩

lemma clients_set {slots : List ℤ} {i : ℕ} (hi : i < slots.length) (hfree : slots[i] < 0)
    (hfd : 0 < fd) : (clients (slots.set i fd)).Perm (fd :: clients slots) := by
  have hold : clients slots = clients (slots.take i) ++ clients (slots.drop (i + 1)) := by
    have hskip : clients (slots[i] :: slots.drop (i + 1)) = clients (slots.drop (i + 1)) :=
      List.filter_cons_of_neg (by simpa using hfree.le)
    rw [← hskip, ← List.drop_eq_getElem_cons hi, ← clients_append, List.take_append_drop]
  rw [hold, List.set_eq_take_append_cons_drop, if_pos hi, clients_append]
  have : clients (fd :: slots.drop (i + 1)) = fd :: clients (slots.drop (i + 1)) := by
    simp [clients, hfd]
  rw [this]
  exact List.perm_middle

lemma PoolInv.addClient (h : PoolInv listenfd masterfd p) (hpos : 0 < fd) (hlt : fd < fdSetSize)
    (hnew : fd ∉ p.readSet) :
    PoolInv listenfd masterfd (addClient fd p) ∧ (addClient fd p).readySet = p.readySet ∧
      (addClient fd p).nready = p.nready - 1 ∧
      (clients (addClient fd p).clientfd).Perm (fd :: clients p.clientfd) := by
  obtain ⟨i, hi⟩ := h.exists_free
  obtain ⟨hlen, hfree, -⟩ := List.findIdx?_eq_some_iff_getElem.mp hi
  have hneg : p.clientfd[i] < 0 := by simpa using hfree
  have hperm := clients_set hlen hneg hpos
  rw [h.watched] at hnew
  obtain ⟨hlisten, hmaster, hclient⟩ : fd ≠ listenfd ∧ fd ≠ masterfd ∧ fd ∉ clients p.clientfd := by
    simpa [not_or] using hnew
  unfold PtyExecUtil.addClient
  simp only [hi]
  refine ⟨⟨?_, ?_, ?_, ?_, ?_, h.master⟩, trivial, trivial, hperm⟩
  · simpa using h.length
  · intro x hx
    rcases List.mem_or_eq_of_mem_set hx with hx | rfl
    · exact h.entries x hx
    · exact Or.inr ⟨hpos, hlt, hlisten, hmaster⟩
  · exact hperm.nodup_iff.mpr (List.nodup_cons.mpr ⟨hclient, h.nodup⟩)
  · intro x
    rw [Finset.mem_insert, h.watched x, hperm.mem_iff, List.mem_cons]
    tauto
  · intro x hx
    have hbounds : (p.maxi + 1).toNat ≤ ((if (i : ℤ) > p.maxi then (i : ℤ) else p.maxi) + 1).toNat ∧
        i < ((if (i : ℤ) > p.maxi then (i : ℤ) else p.maxi) + 1).toNat := by
      split_ifs <;> omega
    rw [List.drop_set_of_lt hbounds.2] at hx
    exact h.high x (List.drop_subset_drop_left _ hbounds.1 hx)

/-! ### The connections -/

/-- What a connection is to be sent: the header, and what was printed since it came. -/
def expected (header out : Bytes) (c : Conn) : Bytes := header ++ out.drop c.since

/-- What a connection has received is a prefix of what it is to be sent. -/
structure ConnOk (header out : Bytes) (c : Conn) : Prop where
  received : c.received <+: expected header out c
  since : c.since ≤ out.length
  writes : FailsForGood c.writes

/-- The connection lacks just `buf`, unless it has failed and receives nothing any more. -/
def Behind (header out buf : Bytes) (c : Conn) : Prop :=
  if c.failed then Broken c.writes else c.received ++ buf = expected header out c

/-- The connection lacks nothing, unless it has failed. -/
def Live (header out : Bytes) (c : Conn) : Prop := Behind header out [] c

variable {header out buf : Bytes} {c : Conn} {w : Written} {errno : ℤ}

lemma sent_spec (hok : ConnOk header out c) (hb : Behind header out buf c)
    (hw : rioWriten buf errno c.writes = some w) :
    ConnOk header out (c.sent w) ∧ Live header out (c.sent w) := by
  obtain ⟨hsuffix, hprefix, houtcome⟩ := rioWriten_spec hw
  have hwrites := hok.writes.of_suffix hsuffix
  unfold Behind at hb
  unfold Live Behind
  rcases hf : c.failed with _ | _
  · rw [hf, if_neg (by simp)] at hb
    rcases houtcome with ⟨hret, hall⟩ | ⟨hret, l, r, hl, hr⟩
    · have hne : w.ret ≠ -1 := by rw [hret]; omega
      have hfailed : (c.sent w).failed = false := by simp [Conn.sent, hf, hne]
      have hlive : c.received ++ w.bytes = expected header out c := hall ▸ hb
      refine ⟨⟨hlive ▸ List.prefix_rfl, hok.since, hwrites⟩, ?_⟩
      rw [hfailed, if_neg (by simp), List.append_nil]
      exact hlive
    · have hfailed : (c.sent w).failed = true := by simp [Conn.sent, hret]
      have hbroken : Broken w.rest := by
        have hpair := hok.writes
        rw [hl] at hpair
        exact hpair.broken hr
      refine ⟨⟨?_, hok.since, hwrites⟩, ?_⟩
      · change c.received ++ w.bytes <+: expected header out c
        rw [← hb]
        exact (List.prefix_append_right_inj _).mpr hprefix
      · rw [hfailed, if_pos rfl]
        exact hbroken
  · rw [hf, if_pos rfl] at hb
    have hnone : w.bytes = [] := rioLoop_broken hb hw
    have hfailed : (c.sent w).failed = true := by simp [Conn.sent, hf]
    refine ⟨⟨?_, hok.since, hwrites⟩, ?_⟩
    · change c.received ++ w.bytes <+: expected header out c
      rw [hnone, List.append_nil]
      exact hok.received
    · rw [hfailed, if_pos rfl]
      exact fun x hx => hb x (hsuffix.subset hx)

/-- The latest connection with the descriptor. -/
def current (conns : List Conn) (fd : ℤ) : Option Conn := conns.find? fun c => c.fd = fd

variable {io io' : Io} {ret : ℤ}

/-- Nothing has been read, nor written to the terminal. -/
structure Quiet (io io' : Io) : Prop where
  fromMaster : io'.fromMaster = io.fromMaster
  toMaster : io'.toMaster = io.toMaster
  chunks : io'.chunks = io.chunks
  polled : io'.polled = io.polled

lemma Quiet.trans {io'' : Io} (h : Quiet io io') (h' : Quiet io' io'') : Quiet io io'' :=
  ⟨h'.1.trans h.1, h'.2.trans h.2, h'.3.trans h.3, h'.4.trans h.4⟩

lemma writeConn_spec (hok : ∀ c ∈ io.conns, ConnOk header io.fromMaster c)
    (hc : current io.conns fd = some c) (hb : Behind header io.fromMaster buf c)
    (hw : io.writeConn fd buf = some (io', ret)) :
    (∀ c ∈ io'.conns, ConnOk header io.fromMaster c) ∧
      (∃ c', current io'.conns fd = some c' ∧ Live header io.fromMaster c') ∧
      (∀ fd', fd' ≠ fd → current io'.conns fd' = current io.conns fd') ∧ Quiet io io' := by
  obtain ⟨c₀, hc₀, hrest⟩ := Option.bind_eq_some_iff.mp hw
  obtain rfl : c₀ = c := Option.some.inj (hc₀.symm.trans hc)
  obtain ⟨w, hwrite, heq⟩ := Option.bind_eq_some_iff.mp hrest
  cases heq
  obtain ⟨hok', hlive⟩ := sent_spec (hok c₀ (List.mem_of_find?_eq_some hc)) hb hwrite
  have hfd : ∀ a : Conn, decide (a.fd = fd) = true → decide ((a.sent w).fd = fd) = true :=
    fun a ha => ha
  refine ⟨?_, ⟨c₀.sent w, ?_, hlive⟩, fun fd' hne => ?_, ⟨rfl, rfl, rfl, rfl⟩⟩
  · refine forall_updateFirst_find hok fun a ha => ?_
    obtain rfl : a = c₀ := Option.some.inj (ha.symm.trans hc₀)
    exact hok'
  · exact (find?_updateFirst_self hfd).trans (by rw [hc₀]; rfl)
  · refine find?_updateFirst_ne fun a ha => ?_
    have ha' : a.fd = fd := of_decide_eq_true ha
    exact ⟨by simp [ha', hne.symm], by simp [Conn.sent, ha', hne.symm]⟩

/-- Each client of the slots has its connection, which lacks just `buf`. -/
def AllBehind (header out buf : Bytes) (slots : List ℤ) (conns : List Conn) : Prop :=
  ∀ fd ∈ clients slots, ∃ c, current conns fd = some c ∧ Behind header out buf c

lemma clients_cons_pos (hpos : 0 < fd) (rest : List ℤ) :
    clients (fd :: rest) = fd :: clients rest := by
  simp [clients, hpos]

lemma clients_cons_neg (hpos : ¬ 0 < fd) (rest : List ℤ) : clients (fd :: rest) = clients rest := by
  simp [clients, hpos]

/-- What sending to the clients of the slots does. -/
structure SentAll (header : Bytes) (slots slots' : List ℤ) (s s' : Scan) : Prop where
  swept : Swept slots slots' s.readSet s'.readSet
  ok : ∀ c ∈ s'.io.conns, ConnOk header s.io.fromMaster c
  live : AllBehind header s.io.fromMaster [] slots s'.io.conns
  others : ∀ fd ∉ clients slots, current s'.io.conns fd = current s.io.conns fd
  quiet : Quiet s.io s'.io

lemma SentAll.cons {s₀ s s' : Scan} (h : SentAll header rest rest' s s')
    (hpos : 0 < fd) (hfd : fd ∉ clients rest) (hquiet : Quiet s₀.io s.io)
    (hlive : ∃ c, current s.io.conns fd = some c ∧ Live header s₀.io.fromMaster c)
    (hothers : ∀ fd', fd' ≠ fd → current s.io.conns fd' = current s₀.io.conns fd')
    {x : ℤ} (hswept : Swept (fd :: rest) (x :: rest') s₀.readSet s'.readSet) :
    SentAll header (fd :: rest) (x :: rest') s₀ s' := by
  refine ⟨hswept, hquiet.fromMaster ▸ h.ok, ?_, ?_, hquiet.trans h.quiet⟩
  · intro fd' hmem
    rw [clients_cons_pos hpos] at hmem
    rcases List.mem_cons.mp hmem with rfl | hmem
    · rw [h.others fd' hfd]
      exact hlive
    · exact hquiet.fromMaster ▸ h.live fd' hmem
  · intro fd' hmem
    rw [clients_cons_pos hpos, List.mem_cons, not_or] at hmem
    rw [h.others fd' hmem.2, hothers fd' hmem.1]

lemma writeClients_spec {s s' : Scan} (h : writeClients buf slots s = some (slots', s'))
    (hnodup : (clients slots).Nodup) (hok : ∀ c ∈ s.io.conns, ConnOk header s.io.fromMaster c)
    (hbehind : AllBehind header s.io.fromMaster buf slots s.io.conns) :
    SentAll header slots slots' s s' := by
  induction slots generalizing s slots' with
  | nil =>
    cases h
    exact ⟨Swept.refl _ _, hok, by simp [AllBehind, clients], fun _ _ => rfl, ⟨rfl, rfl, rfl, rfl⟩⟩
  | cons fd rest ih =>
    unfold writeClients at h
    by_cases hpos : 0 < fd
    · rw [if_pos hpos] at h
      rw [clients_cons_pos hpos] at hnodup
      obtain ⟨hfd, hnodup⟩ := List.nodup_cons.mp hnodup
      obtain ⟨c, hc, hb⟩ := hbehind fd (by rw [clients_cons_pos hpos]; simp)
      obtain ⟨⟨io, ret⟩, hwrite, hrest⟩ := Option.bind_eq_some_iff.mp h
      obtain ⟨hok', hlive, hothers, hquiet⟩ := writeConn_spec hok hc hb hwrite
      -- the clients after this one are written to in the state it leaves
      have hbehind' : AllBehind header io.fromMaster buf rest io.conns := by
        intro fd' hmem
        have hne : fd' ≠ fd := fun heq => hfd (heq ▸ hmem)
        rw [hothers fd' hne, hquiet.fromMaster]
        exact hbehind fd' (by rw [clients_cons_pos hpos]; exact List.mem_cons_of_mem _ hmem)
      have hok'' : ∀ c ∈ io.conns, ConnOk header io.fromMaster c := hquiet.fromMaster.symm ▸ hok'
      dsimp only at hrest
      split_ifs at hrest with hret
      · obtain ⟨⟨rest', s₁⟩, hloop, heq⟩ := Option.bind_eq_some_iff.mp hrest
        cases heq
        have hsent := ih hloop hnodup hok'' hbehind'
        exact hsent.cons hpos hfd hquiet hlive hothers (hsent.swept.free hpos hfd)
      · obtain ⟨⟨rest', s₁⟩, hloop, heq⟩ := Option.bind_eq_some_iff.mp hrest
        cases heq
        have hsent := ih hloop hnodup hok'' hbehind'
        exact hsent.cons hpos hfd hquiet hlive hothers (hsent.swept.keep hfd)
    · rw [if_neg hpos] at h
      rw [clients_cons_neg hpos] at hnodup
      obtain ⟨⟨rest', s₁⟩, hloop, heq⟩ := Option.bind_eq_some_iff.mp h
      cases heq
      have hsent := ih hloop hnodup hok fun fd' hmem =>
        hbehind fd' (by rw [clients_cons_neg hpos]; exact hmem)
      refine ⟨hsent.swept.keep fun hmem => hpos (mem_clients.mp hmem).2, hsent.ok, ?_, ?_,
        hsent.quiet⟩
      · exact fun fd' hmem => hsent.live fd' (clients_cons_neg hpos rest ▸ hmem)
      · exact fun fd' hmem => hsent.others fd' (clients_cons_neg hpos rest ▸ hmem)

/-! ### Reading the clients -/

/-- The terminal has been written all chunks read, in order. -/
def InStep (io : Io) : Prop := io.toMaster = (io.chunks.map Prod.snd).flatten

/-- The clients that are ready. -/
def readyClients (ready : Finset ℤ) (slots : List ℤ) : List ℤ :=
  (clients slots).filter fun fd => fd ∈ ready

variable {ready : Finset ℤ} {reads : ℤ → ReadResult}

/-- What reading the clients of the slots does when the terminal is there. -/
structure Polled (ready : Finset ℤ) (slots slots' : List ℤ) (s s' : Scan) : Prop where
  swept : Swept slots slots' s.readSet s'.readSet
  conns : s'.io.conns = s.io.conns
  fromMaster : s'.io.fromMaster = s.io.fromMaster
  polled : s'.io.polled = s.io.polled ++ readyClients ready slots
  inStep : InStep s.io → InStep s'.io

lemma readyClients_nil_of_neg (hready : ¬ (0 < fd ∧ fd ∈ ready)) :
    readyClients ready (fd :: rest) = readyClients ready rest := by
  unfold readyClients
  by_cases hpos : 0 < fd
  · have hno : fd ∉ ready := fun hmem => hready ⟨hpos, hmem⟩
    simp [clients_cons_pos hpos, hno]
  · rw [clients_cons_neg hpos]

lemma readyClients_cons (hpos : 0 < fd) (hmem : fd ∈ ready) :
    readyClients ready (fd :: rest) = fd :: readyClients ready rest := by
  simp [readyClients, clients_cons_pos hpos, hmem]

lemma Polled.cons {s₀ s s' : Scan} (h : Polled ready rest rest' s s') (hpos : 0 < fd)
    (hmem : fd ∈ ready) (hconns : s.io.conns = s₀.io.conns)
    (hfrom : s.io.fromMaster = s₀.io.fromMaster) (hpolled : s.io.polled = s₀.io.polled ++ [fd])
    (hstep : InStep s₀.io → InStep s.io) {x : ℤ}
    (hswept : Swept (fd :: rest) (x :: rest') s₀.readSet s'.readSet) :
    Polled ready (fd :: rest) (x :: rest') s₀ s' := by
  refine ⟨hswept, h.conns.trans hconns, h.fromMaster.trans hfrom, ?_, h.inStep ∘ hstep⟩
  rw [h.polled, hpolled, readyClients_cons hpos hmem, List.append_assoc, List.singleton_append]

lemma writeMaster_spec {io io' : Io} (h : io.writeMaster buf = some (io', ret)) (hret : 0 < ret) :
    io' = { io with errno := io'.errno, toMaster := io.toMaster ++ buf,
                    masterWrites := io'.masterWrites } := by
  obtain ⟨w, hwrite, heq⟩ := Option.bind_eq_some_iff.mp h
  cases heq
  rcases (rioWriten_spec hwrite).outcome with ⟨-, hall⟩ | ⟨hfail, -⟩
  · rw [hall]
  · omega

/-- Reading the clients: as long as the counter is no smaller than the number of clients
still to be read, none of them is skipped. -/
lemma checkClients_spec {s s' : Scan}
    (h : checkClients ready reads slots s = some (slots', s', false))
    (hnodup : (clients slots).Nodup)
    (hcount : ((readyClients ready slots).length : ℤ) ≤ s.nready) :
    Polled ready slots slots' s s' := by
  induction slots generalizing s slots' with
  | nil =>
    cases h
    exact ⟨Swept.refl _ _, rfl, rfl, by simp [readyClients, clients], id⟩
  | cons fd rest ih =>
    unfold checkClients at h
    split_ifs at h with hleft hready
    · obtain ⟨hpos, hmem⟩ := hready
      rw [clients_cons_pos hpos] at hnodup
      obtain ⟨hfd, hnodup⟩ := List.nodup_cons.mp hnodup
      rw [readyClients_cons hpos hmem, List.length_cons] at hcount
      have hcount' : ((readyClients ready rest).length : ℤ) ≤ s.nready - 1 := by
        push_cast at hcount
        omega
      -- a client that gave no data keeps its slot, or is closed
      have hkeep : ∀ errno rest', checkClients ready reads rest
          { s.poll fd with io := { (s.poll fd).io with errno } } = some (rest', s', false) →
          Polled ready (fd :: rest) (fd :: rest') s s' := fun errno rest' hloop => by
        have hp := ih hloop hnodup hcount'
        exact hp.cons hpos hmem (by rfl) (by rfl) (by rfl) (by exact id) (hp.swept.keep hfd)
      have hfree : ∀ errno rest', checkClients ready reads rest
          { s.poll fd with
            io := { (s.poll fd).io with errno }
            readSet := (s.poll fd).readSet.erase fd } = some (rest', s', false) →
          Polled ready (fd :: rest) (-1 :: rest') s s' := fun errno rest' hloop => by
        have hp := ih hloop hnodup hcount'
        exact hp.cons hpos hmem (by rfl) (by rfl) (by rfl) (by exact id)
          (hp.swept.free hpos hfd)
      dsimp only at h
      cases hr : reads fd with
      | data buf =>
        rw [hr] at h
        obtain ⟨⟨io, ret⟩, hwrite, hrest⟩ := Option.bind_eq_some_iff.mp h
        dsimp only at hrest
        split_ifs at hrest with hret
        · cases hrest
        · obtain ⟨⟨rest', s₁, gone⟩, hloop, heq⟩ := Option.bind_eq_some_iff.mp hrest
          cases heq
          have hio := writeMaster_spec hwrite (by omega)
          have hp := ih hloop hnodup (by exact hcount')
          refine hp.cons hpos hmem ?_ ?_ ?_ ?_ (hp.swept.keep hfd)
          · rw [hio]; rfl
          · rw [hio]; rfl
          · rw [hio]; rfl
          · intro hstep
            have hto : s.io.toMaster = (s.io.chunks.map Prod.snd).flatten := hstep
            rw [hio]
            simp [InStep, Scan.poll, hto]
      | eof | error e =>
        rw [hr] at h
        dsimp only at h
        split_ifs at h
        · obtain ⟨⟨rest', s₁, gone⟩, hloop, heq⟩ := Option.bind_eq_some_iff.mp h
          cases heq
          exact hfree _ _ hloop
        · obtain ⟨⟨rest', s₁, gone⟩, hloop, heq⟩ := Option.bind_eq_some_iff.mp h
          cases heq
          exact hkeep _ _ hloop
    · rw [readyClients_nil_of_neg hready] at hcount
      have hnodup' : (clients rest).Nodup :=
        hnodup.sublist ((List.sublist_cons_self fd rest).filter _)
      obtain ⟨⟨rest', s₁, gone⟩, hloop, heq⟩ := Option.bind_eq_some_iff.mp h
      cases heq
      obtain ⟨hswept, hconns, hfrom, hpolled, hstep⟩ := ih hloop hnodup' hcount
      refine ⟨hswept.keep fun hc => ?_, hconns, hfrom, ?_, hstep⟩
      · rw [clients_cons_pos (mem_clients.mp hc).2] at hnodup
        exact (List.nodup_cons.mp hnodup).1 hc
      · rw [hpolled, readyClients_nil_of_neg hready]
    · -- the counter is used up, and so nothing is left to be read
      cases h
      have hnone : readyClients ready (fd :: rest) = [] := by
        refine List.eq_nil_of_length_eq_zero ?_
        omega
      exact ⟨Swept.refl _ _, rfl, rfl, by rw [hnone, List.append_nil], id⟩

/-! ### A pass -/

/-- **The invariant** of the loop. -/
structure Inv (header : Bytes) (listenfd masterfd : ℤ) (m : Monitor) : Prop where
  pool : PoolInv listenfd masterfd m.pool
  ok : ∀ c ∈ m.io.conns, ConnOk header m.io.fromMaster c
  live : AllBehind header m.io.fromMaster [] m.pool.clientfd m.io.conns
  inStep : InStep m.io

variable {m m' : Monitor}

lemma length_readyClients (h : PoolInv listenfd masterfd p) (ready : Finset ℤ) :
    (readyClients ready p.clientfd).length ≤ (ready.erase listenfd).card := by
  have hnodup : (readyClients ready p.clientfd).Nodup := h.nodup.filter _
  rw [← List.toFinset_card_of_nodup hnodup]
  refine Finset.card_le_card fun x hx => ?_
  obtain ⟨hclient, hready⟩ := List.mem_filter.mp (List.mem_toFinset.mp hx)
  obtain ⟨hmem, hpos⟩ := mem_clients.mp hclient
  have hne : x ≠ listenfd := by
    rcases h.entries x hmem with hx | hx
    · omega
    · exact hx.2.2.1
  exact Finset.mem_erase.mpr ⟨hne, by simpa using hready⟩

lemma acceptClient_inv (h : Inv header listenfd masterfd m) {writes : List WriteResult}
    (hpos : 0 < fd) (hlt : fd < fdSetSize) (hnew : fd ∉ m.pool.readSet)
    (hwrites : FailsForGood writes)
    (hrun : acceptClient header (.conn fd writes) m = some m') :
    Inv header listenfd masterfd m' ∧ Quiet m.io m'.io ∧
      m'.pool.readySet = m.pool.readySet ∧ m'.pool.nready = m.pool.nready - 1 ∧
      (clients m'.pool.clientfd).Perm (fd :: clients m.pool.clientfd) := by
  obtain ⟨⟨io, ret⟩, hwrite, heq⟩ := Option.bind_eq_some_iff.mp hrun
  cases heq
  obtain ⟨hpool, hready, hnready, hperm⟩ := h.pool.addClient hpos hlt hnew
  let conn : Conn := ⟨fd, m.io.fromMaster.length, [], false, writes⟩
  have hconn : expected header m.io.fromMaster conn = header := by simp [expected, conn]
  let io₀ : Io := { m.io with conns := conn :: m.io.conns }
  have hwrite' : io₀.writeConn fd header = some (io, ret) := hwrite
  have hok : ∀ c ∈ io₀.conns, ConnOk header io₀.fromMaster c := by
    refine List.forall_mem_cons.mpr ⟨⟨?_, le_refl _, hwrites⟩, h.ok⟩
    exact List.nil_prefix
  have hcurrent : current io₀.conns fd = some conn :=
    List.find?_cons_of_pos (decide_eq_true rfl)
  have hbehind : Behind header io₀.fromMaster header conn := by
    unfold Behind
    rw [if_neg (by simp [conn]), hconn]
    rfl
  obtain ⟨hok', hlive, hothers, hquiet₀⟩ := writeConn_spec hok hcurrent hbehind hwrite'
  have hquiet : Quiet m.io io := ⟨hquiet₀.1, hquiet₀.2, hquiet₀.3, hquiet₀.4⟩
  refine ⟨⟨hpool, ?_, ?_, ?_⟩, hquiet, hready, hnready, hperm⟩
  · exact hquiet.fromMaster.symm ▸ hok'
  · intro fd' hmem
    rcases List.mem_cons.mp (hperm.mem_iff.mp hmem) with rfl | hbefore
    · exact hquiet.fromMaster.symm ▸ hlive
    · have hne : fd' ≠ fd := by
        rintro rfl
        exact hnew ((h.pool.watched fd').mpr (Or.inr (Or.inr hbefore)))
      have hsame : current io₀.conns fd' = current m.io.conns fd' :=
        List.find?_cons_of_neg (by simpa [conn] using hne.symm)
      dsimp only
      rw [hothers fd' hne, hsame, hquiet.fromMaster]
      exact h.live fd' hbefore
  · have hstep := h.inStep
    unfold InStep at hstep ⊢
    rw [hquiet.toMaster, hquiet.chunks]
    exact hstep

lemma expected_append (hs : c.since ≤ out.length) (buf : Bytes) :
    expected header (out ++ buf) c = expected header out c ++ buf := by
  unfold expected
  rw [List.drop_append_of_le_length hs, List.append_assoc]

lemma ConnOk.print (hok : ConnOk header out c) (buf : Bytes) : ConnOk header (out ++ buf) c := by
  refine ⟨?_, ?_, hok.writes⟩
  · rw [expected_append hok.since]
    exact hok.received.trans (List.prefix_append ..)
  · rw [List.length_append]
    exact hok.since.trans (Nat.le_add_right ..)

lemma Live.print (hok : ConnOk header out c) (hl : Live header out c) (buf : Bytes) :
    Behind header (out ++ buf) buf c := by
  unfold Live Behind at hl
  unfold Behind
  split_ifs at hl ⊢ with hf
  · exact hl
  · rw [expected_append hok.since, ← hl, List.append_nil]

lemma checkMaster_inv (h : Inv header listenfd masterfd m)
    (hrun : checkMaster reads m = some (m', 0)) :
    Inv header listenfd masterfd m' ∧ m'.io.polled = m.io.polled := by
  have hnodata : ∀ errno, some (({ m with
        pool := { m.pool with nready := m.pool.nready - 1 }
        io := { m.io with errno } } : Monitor), if errno ≠ eintr then (1 : ℤ) else 0) =
      some (m', 0) → Inv header listenfd masterfd m' ∧ m'.io.polled = m.io.polled := by
    intro errno heq
    obtain ⟨rfl, -⟩ := Prod.mk.inj (Option.some.inj heq)
    exact ⟨⟨⟨h.pool.1, h.pool.2, h.pool.3, h.pool.4, h.pool.5, h.pool.6⟩, h.ok, h.live,
      h.inStep⟩, rfl⟩
  unfold checkMaster at hrun
  split_ifs at hrun
  · cases hr : reads m.pool.masterfd with
    | data buf =>
      rw [hr] at hrun
      obtain ⟨⟨slots, s⟩, hwrite, heq⟩ := Option.bind_eq_some_iff.mp hrun
      cases heq
      have hbehind : AllBehind header (m.io.fromMaster ++ buf) buf m.pool.slots m.io.conns := by
        intro fd hmem
        obtain ⟨c, hc, hlive⟩ := h.live fd (h.pool.clients_slots ▸ hmem)
        exact ⟨c, hc, Live.print (h.ok c (List.mem_of_find?_eq_some hc)) hlive buf⟩
      have hsent := writeClients_spec hwrite (h.pool.clients_slots.symm ▸ h.pool.nodup)
        (fun c hc => (h.ok c hc).print buf) hbehind
      have hpool : PoolInv listenfd masterfd (m.scanned slots s).pool := h.pool.scanned hsent.swept
      refine ⟨⟨hpool, ?_, ?_, ?_⟩, hsent.quiet.polled⟩
      · exact hsent.quiet.fromMaster.symm ▸ hsent.ok
      · intro fd hmem
        have hslot := h.pool.of_mem_scanned hsent.swept hmem
        exact hsent.quiet.fromMaster.symm ▸ hsent.live fd hslot
      · have hstep := h.inStep
        unfold InStep at hstep ⊢
        exact (hsent.quiet.toMaster.trans hstep).trans (by rw [← hsent.quiet.chunks]; rfl)
    | eof =>
      rw [hr] at hrun
      exact hnodata _ hrun
    | error e =>
      rw [hr] at hrun
      exact hnodata _ hrun
  · cases hrun
    exact ⟨h, rfl⟩

lemma checkClientsAndMaster_inv (h : Inv header listenfd masterfd m)
    (hcount : ((readyClients m.pool.readySet m.pool.clientfd).length : ℤ) ≤ m.pool.nready)
    (hrun : checkClientsAndMaster reads m = some (m', 0)) :
    Inv header listenfd masterfd m' ∧
      m'.io.polled = m.io.polled ++ readyClients m.pool.readySet m.pool.clientfd := by
  have hslots : readyClients m.pool.readySet m.pool.slots =
      readyClients m.pool.readySet m.pool.clientfd := by
    unfold readyClients
    rw [h.pool.clients_slots]
  obtain ⟨⟨slots, s, gone⟩, hcheck, hrest⟩ := Option.bind_eq_some_iff.mp hrun
  cases gone with
  | true => cases hrest
  | false =>
    obtain ⟨hswept, hconns, hfrom, hpolled, hstep⟩ := checkClients_spec hcheck
      (h.pool.clients_slots.symm ▸ h.pool.nodup) (hslots.symm ▸ hcount)
    have hinv : Inv header listenfd masterfd (m.scanned slots s) := by
      refine ⟨h.pool.scanned hswept, ?_, ?_, hstep h.inStep⟩
      · change ∀ c ∈ s.io.conns, ConnOk header s.io.fromMaster c
        rw [hconns, hfrom]
        exact h.ok
      · intro fd hmem
        have hslot := h.pool.of_mem_scanned hswept hmem
        change ∃ c, current s.io.conns fd = some c ∧ Behind header s.io.fromMaster [] c
        rw [hconns, hfrom]
        exact h.live fd (h.pool.clients_slots ▸ hslot)
    obtain ⟨hinv', hsame⟩ := checkMaster_inv hinv hrest
    exact ⟨hinv', by rw [hsame, ← hslots]; exact hpolled⟩

/-- The descriptors `select` has reported. -/
def reported (ans : Answers) : Finset ℤ :=
  match ans.select with
  | .ready fds => fds
  | .error _ => ∅

/-- A client may be accepted: the others are ready as before, and the counter is no smaller
than their number. -/
lemma acceptReady_inv {accept : AcceptResult} (h : Inv header listenfd masterfd m)
    (hready : m.pool.readySet ⊆ m.pool.readSet) (hn : m.pool.nready = m.pool.readySet.card)
    (ha : ∀ fd writes, accept = .conn fd writes →
      0 < fd ∧ fd < fdSetSize ∧ fd ∉ m.pool.readSet ∧ FailsForGood writes)
    (hrun : acceptReady header listenfd accept m = some m') :
    Inv header listenfd masterfd m' ∧ m'.pool.readySet = m.pool.readySet ∧
      m'.io.polled = m.io.polled ∧
      ((readyClients m.pool.readySet m'.pool.clientfd).length : ℤ) ≤ m'.pool.nready ∧
      (readyClients m.pool.readySet m'.pool.clientfd).Perm
        (readyClients m.pool.readySet m.pool.clientfd) := by
  have hcount := length_readyClients h.pool m.pool.readySet
  have herase : (m.pool.readySet.erase listenfd).card ≤ m.pool.readySet.card :=
    Finset.card_le_card (Finset.erase_subset ..)
  unfold acceptReady at hrun
  split_ifs at hrun with hlisten
  · cases accept with
    | conn fd writes =>
      obtain ⟨hpos, hlt, hnew, hwrites⟩ := ha fd writes rfl
      obtain ⟨hinv, hquiet, hsame, hless, hperm⟩ := acceptClient_inv h hpos hlt hnew hwrites hrun
      have hnot : fd ∉ m.pool.readySet := fun hmem => hnew (hready hmem)
      have hperm' : (readyClients m.pool.readySet m'.pool.clientfd).Perm
          (readyClients m.pool.readySet m.pool.clientfd) := by
        have hfilter := hperm.filter fun fd => decide (fd ∈ m.pool.readySet)
        rwa [List.filter_cons_of_neg (by simpa using hnot)] at hfilter
      refine ⟨hinv, hsame, hquiet.polled, ?_, hperm'⟩
      have hcard := Finset.card_erase_lt_of_mem hlisten
      rw [hperm'.length_eq, hless, hn]
      omega
    | error e =>
      cases hrun
      refine ⟨⟨h.pool, h.ok, h.live, h.inStep⟩, rfl, rfl, ?_, .refl _⟩
      change _ ≤ m.pool.nready
      rw [hn]
      exact_mod_cast hcount.trans herase
  · cases hrun
    refine ⟨h, rfl, rfl, ?_, .refl _⟩
    rw [hn]
    exact_mod_cast hcount.trans herase

lemma pass_inv {ans : Answers} (h : Inv header listenfd masterfd m) (ha : Admissible m ans)
    (hrun : PtyExecUtil.pass header listenfd ans m = some (m', 0)) :
    Inv header listenfd masterfd m' ∧ m'.io.polled.Nodup ∧
      ∀ fd, fd ∈ m'.io.polled ↔ fd ∈ reported ans ∧ fd ∈ clients m.pool.clientfd := by
  have hselect := ha.select
  unfold PtyExecUtil.pass at hrun
  unfold reported
  cases hs : ans.select with
  | error e =>
    rw [hs] at hrun hselect
    dsimp only at hrun hselect
    rw [if_pos hselect] at hrun
    cases hrun
    refine ⟨⟨⟨h.pool.1, h.pool.2, h.pool.3, h.pool.4, h.pool.5, h.pool.6⟩, h.ok, h.live,
      h.inStep⟩, List.nodup_nil, by simp⟩
  | ready fds =>
    rw [hs] at hrun hselect
    dsimp only at hrun hselect
    -- the monitor before anyone is accepted
    let m₀ : Monitor := ⟨{ m.pool with readySet := fds, nready := fds.card },
      { m.io with polled := [] }⟩
    have h₀ : Inv header listenfd masterfd m₀ :=
      ⟨⟨h.pool.1, h.pool.2, h.pool.3, h.pool.4, h.pool.5, h.pool.6⟩, h.ok, h.live, h.inStep⟩
    obtain ⟨m₁, haccept, hcheck⟩ := Option.bind_eq_some_iff.mp hrun
    obtain ⟨h₁, hready₁, hpolled₁, hcount₁, hperm₁⟩ :=
      acceptReady_inv h₀ hselect rfl ha.accept haccept
    replace hready₁ : m₁.pool.readySet = fds := hready₁
    replace hpolled₁ : m₁.io.polled = [] := hpolled₁
    replace hperm₁ : (readyClients fds m₁.pool.clientfd).Perm
      (readyClients fds m.pool.clientfd) := hperm₁
    obtain ⟨hinv, hpolled⟩ := checkClientsAndMaster_inv h₁
      (by rw [hready₁]; exact hcount₁) hcheck
    rw [hready₁, hpolled₁, List.nil_append] at hpolled
    refine ⟨hinv, ?_, fun fd => ?_⟩
    · rw [hpolled, hperm₁.nodup_iff]
      exact h.pool.nodup.filter _
    · rw [hpolled, hperm₁.mem_iff, readyClients, List.mem_filter, and_comm]
      simp

/-! ### Any run -/

lemma pass_of_step {ans : Answers}
    (h : (machine header listenfd masterfd).step m ans = some m') :
    PtyExecUtil.pass header listenfd ans m = some (m', 0) := by
  dsimp only [machine] at h
  split at h
  · cases h
    assumption
  · cases h

lemma inv_reach (h : (machine header listenfd masterfd).Reach Admissible m) :
    Inv header listenfd masterfd m := by
  refine h.invariant (fun m hm => ?_) fun m ans m' hinv ha hs =>
    (pass_inv hinv ha (pass_of_step hs)).1
  obtain ⟨hpool, hconns, hchunks, -, hto, -⟩ := hm
  refine ⟨hpool ▸ poolInv_init listenfd masterfd, by simp [hconns], ?_, ?_⟩
  · intro fd hmem
    obtain ⟨hfree, hpos⟩ := mem_clients.mp hmem
    rw [hpool] at hfree
    have : fd = -1 := List.eq_of_mem_replicate hfree
    omega
  · simp [InStep, hto, hchunks]

/-- **The terminal relay**: in every state reached before a pass reports that the container is
gone, the next pass reads each ready client of the pool exactly once; the terminal has been
written the chunks read from the clients, in the order of reading; and each connection has
received a prefix of the header and what was printed since it came, and all of it if it is in
the pool and no write to it has failed. -/
theorem relay_invariant (h : (machine header listenfd masterfd).Reach Admissible m) :
    (∀ ans m', Admissible m ans → (machine header listenfd masterfd).step m ans = some m' →
      m'.io.polled.Nodup ∧
        ∀ fd, fd ∈ m'.io.polled ↔ fd ∈ reported ans ∧ fd ∈ clients m.pool.clientfd) ∧
    m.io.toMaster = (m.io.chunks.map Prod.snd).flatten ∧
    (∀ c ∈ m.io.conns, c.received <+: header ++ m.io.fromMaster.drop c.since) ∧
    (∀ fd ∈ clients m.pool.clientfd, ∃ c, current m.io.conns fd = some c ∧
      (c.failed = false → c.received = header ++ m.io.fromMaster.drop c.since)) := by
  have hinv := inv_reach h
  refine ⟨fun ans m' ha hs => (pass_inv hinv ha (pass_of_step hs)).2, hinv.inStep,
    fun c hc => (hinv.ok c hc).received, fun fd hmem => ?_⟩
  obtain ⟨c, hc, hlive⟩ := hinv.live fd hmem
  refine ⟨c, hc, fun hf => ?_⟩
  unfold Behind at hlive
  rwa [hf, if_neg (by simp), List.append_nil] at hlive

/-- A monitor that has no client yet, with its terminal at 4 and listening at 5. -/
def idleMonitor : Monitor := ⟨initPool 5 4, ⟨0, [], [], [], [], [], []⟩⟩

/-- A client connects while the container prints a prompt. -/
def firstAnswers : Answers where
  select := .ready {5, 4}
  accept := .conn 7 [.wrote 100, .wrote 0, .error eintr, .wrote 100]
  reads fd := if fd = 4 then .data [36, 32] else .eof

theorem relay_invariant_client :
    ∃ m, (machine [104, 105] 5 4).step idleMonitor firstAnswers = some m ∧
      (∀ ans m', Admissible m ans → (machine [104, 105] 5 4).step m ans = some m' →
        m'.io.polled.Nodup ∧
          ∀ fd, fd ∈ m'.io.polled ↔ fd ∈ reported ans ∧ fd ∈ clients m.pool.clientfd) ∧
      m.io.toMaster = (m.io.chunks.map Prod.snd).flatten ∧
      (∀ c ∈ m.io.conns, c.received <+: [104, 105] ++ m.io.fromMaster.drop c.since) ∧
      ∀ fd ∈ clients m.pool.clientfd, ∃ c, current m.io.conns fd = some c ∧
        (c.failed = false → c.received = [104, 105] ++ m.io.fromMaster.drop c.since) := by
  have hstart : (machine [104, 105] 5 4).Reach Admissible idleMonitor :=
    .start ⟨rfl, rfl, rfl, rfl, rfl, rfl⟩
  have hok : Admissible idleMonitor firstAnswers := by
    refine ⟨Finset.Subset.refl _, ?_, fun fd buf hr => ?_⟩
    · rintro fd writes heq
      cases heq
      exact ⟨by decide, by decide, by decide, by unfold FailsForGood; decide⟩
    · by_cases hfd : fd = 4
      · cases hr.symm.trans (if_pos hfd)
        decide
      · cases hr.symm.trans (if_neg hfd)
  obtain ⟨m, hm⟩ : ∃ m, (machine [104, 105] 5 4).step idleMonitor firstAnswers = some m :=
    Option.isSome_iff_exists.mp (by decide +kernel)
  exact ⟨m, hm, relay_invariant (hstart.step hok hm)⟩

end Hoststack.Relay
