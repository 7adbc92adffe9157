import Hoststack.SocketIo
import Hoststack.Lib.FirstMatch
import Hoststack.Lib.Machine
import Mathlib.Data.Finset.Card
import Mathlib.Data.Int.Order.Basic

/-!
The relay loop of the monitor of a container: clients connect to a socket, what they send
goes to the terminal of the container, and what the container prints goes to all of them.

A pass of the loop is a function of what the system answers in it. The connections accepted
so far are kept with what each of them has received; descriptors are used again, so a
connection is not its descriptor.
-/

namespace Hoststack.PtyExecUtil

open SocketIo

/-- `FD_SETSIZE` -/
def fdSetSize : ℕ := 1024

/-- `BUF_SIZE` -/
def bufSize : ℕ := 4096

structure Pool where
  maxfd : ℤ
  readSet : Finset ℤ
  readySet : Finset ℤ
  nready : ℤ
  maxi : ℤ
  clientfd : List ℤ
  masterfd : ℤ

def initPool (listenfd masterfd : ℤ) : Pool where
  maxfd := listenfd
  readSet := {listenfd, masterfd}
  readySet := ∅
  nready := 0
  maxi := -1
  clientfd := List.replicate fdSetSize (-1)
  masterfd := masterfd

/-- What a call of `read` returns. -/
inductive ReadResult where
  | data (bytes : Bytes)
  | eof
  | error (errno : ℤ)

/-- What `select` returns: the ready descriptors, or an error. -/
inductive SelectResult where
  | ready (fds : Finset ℤ)
  | error (errno : ℤ)

/-- What `accept` returns: a descriptor, of which it is known what the writes to it will
return, or an error. -/
inductive AcceptResult where
  | conn (fd : ℤ) (writes : List WriteResult)
  | error (errno : ℤ)

/-- What the system answers in a pass. -/
structure Answers where
  select : SelectResult
  accept : AcceptResult
  reads : ℤ → ReadResult

/-- A connection: its descriptor, how much the container had printed before, what it has been
sent, whether a call of `rio_writen` to it has failed, and what further writes will return. -/
structure Conn where
  fd : ℤ
  since : ℕ
  received : Bytes
  failed : Bool
  writes : List WriteResult

/-- The outside: the connections, the latest first, the chunks read from clients, those of the
current pass by their descriptors, and what went in and out at the terminal. -/
structure Io where
  errno : ℤ
  conns : List Conn
  chunks : List (ℤ × Bytes)
  polled : List ℤ
  toMaster : Bytes
  masterWrites : List WriteResult
  fromMaster : Bytes

/-- The connection after a call of `rio_writen`. -/
def Conn.sent (c : Conn) (w : Written) : Conn :=
  { c with received := c.received ++ w.bytes, failed := c.failed || w.ret = -1, writes := w.rest }

namespace Io

/-- `rio_writen` to the terminal, and what it returns. -/
def writeMaster (io : Io) (buf : Bytes) : Option (Io × ℤ) := do
  let w ← rioWriten buf io.errno io.masterWrites
  some ({ io with errno := w.errno, toMaster := io.toMaster ++ w.bytes, masterWrites := w.rest },
    w.ret)

/-- `rio_writen` to the latest connection with the descriptor, and what it returns. -/
def writeConn (io : Io) (fd : ℤ) (buf : Bytes) : Option (Io × ℤ) := do
  let c ← io.conns.find? fun c => c.fd = fd
  let w ← rioWriten buf io.errno c.writes
  let conns := updateFirst (fun c => c.fd = fd) (fun c => c.sent w) io.conns
  some ({ io with errno := w.errno, conns }, w.ret)

end Io

/-- The value of `errno` after a call of `read` that gave no data; an end of file leaves it. -/
def ReadResult.errno : ReadResult → ℤ → ℤ
  | .error e, _ => e
  | _, errno => errno

def addClient (connfd : ℤ) (p : Pool) : Pool :=
  let p := { p with nready := p.nready - 1 }
  match p.clientfd.findIdx? fun x => x < 0 with
  | none => p
  | some i =>
    { p with
      clientfd := p.clientfd.set i connfd
      readSet := insert connfd p.readSet
      maxfd := if connfd > p.maxfd then connfd else p.maxfd
      maxi := if i > p.maxi then i else p.maxi }

/-- What the loops over the clients change besides their slots. -/
structure Scan where
  readSet : Finset ℤ
  nready : ℤ
  io : Io

/-- A client is about to be read. -/
def Scan.poll (s : Scan) (connfd : ℤ) : Scan :=
  { s with nready := s.nready - 1, io := { s.io with polled := s.io.polled ++ [connfd] } }

/-- The loop over the slots up to the highest one, with the slots as it leaves them, and
whether it returns because the terminal is gone. -/
def checkClients (ready : Finset ℤ) (reads : ℤ → ReadResult) :
    List ℤ → Scan → Option (List ℤ × Scan × Bool)
  | [], s => some ([], s, false)
  | connfd :: rest, s =>
    if s.nready > 0 then
      if connfd > 0 ∧ connfd ∈ ready then
        let s := s.poll connfd
        match reads connfd with
        | .data buf => do
          let io := { s.io with chunks := s.io.chunks ++ [(connfd, buf)] }
          let (io, ret) ← io.writeMaster buf
          if ret ≤ 0 then some (connfd :: rest, { s with io }, true)
          else do
            let (slots, s, gone) ← checkClients ready reads rest { s with io }
            some (connfd :: slots, s, gone)
        | r => do
          let errno := r.errno s.io.errno
          let io := { s.io with errno }
          if errno ≠ eintr then do
            let (slots, s, gone) ← checkClients ready reads rest
              { s with io, readSet := s.readSet.erase connfd }
            some (-1 :: slots, s, gone)
          else do
            let (slots, s, gone) ← checkClients ready reads rest { s with io }
            some (connfd :: slots, s, gone)
      else do
        let (slots, s, gone) ← checkClients ready reads rest s
        some (connfd :: slots, s, gone)
    else some (connfd :: rest, s, false)

/-- The loop that sends to all clients what was read from the terminal. -/
def writeClients (buf : Bytes) : List ℤ → Scan → Option (List ℤ × Scan)
  | [], s => some ([], s)
  | connfd :: rest, s =>
    if connfd > 0 then do
      let (io, ret) ← s.io.writeConn connfd buf
      if ret ≠ buf.length then do
        let (slots, s) ← writeClients buf rest
          { s with io, readSet := s.readSet.erase connfd }
        some (-1 :: slots, s)
      else do
        let (slots, s) ← writeClients buf rest { s with io }
        some (connfd :: slots, s)
    else do
      let (slots, s) ← writeClients buf rest s
      some (connfd :: slots, s)

/-- The monitor in its loop. -/
structure Monitor where
  pool : Pool
  io : Io

/-- The monitor with the slots up to the highest one, and the rest of a scan, put back. -/
def Monitor.scanned (m : Monitor) (slots : List ℤ) (s : Scan) : Monitor where
  pool :=
    { m.pool with
      clientfd := slots ++ m.pool.clientfd.drop (m.pool.maxi + 1).toNat
      readSet := s.readSet
      nready := s.nready }
  io := s.io

/-- The slots up to the highest one used. -/
def Pool.slots (p : Pool) : List ℤ := p.clientfd.take (p.maxi + 1).toNat

/-- The part for the terminal. -/
def checkMaster (reads : ℤ → ReadResult) (m : Monitor) : Option (Monitor × ℤ) :=
  if m.pool.masterfd ≠ -1 ∧ m.pool.masterfd ∈ m.pool.readySet then
    match reads m.pool.masterfd with
    | .data buf => do
      let io := { m.io with fromMaster := m.io.fromMaster ++ buf }
      let (slots, s) ← writeClients buf m.pool.slots ⟨m.pool.readSet, m.pool.nready - 1, io⟩
      some (m.scanned slots s, 0)
    | r =>
      let errno := r.errno m.io.errno
      some (⟨{ m.pool with nready := m.pool.nready - 1 }, { m.io with errno }⟩,
        if errno ≠ eintr then 1 else 0)
  else some (m, 0)

def checkClientsAndMaster (reads : ℤ → ReadResult) (m : Monitor) : Option (Monitor × ℤ) := do
  let (slots, s, gone) ← checkClients m.pool.readySet reads m.pool.slots
    ⟨m.pool.readSet, m.pool.nready, m.io⟩
  let m := m.scanned slots s
  if gone then some (m, 1) else checkMaster reads m

/-- A new client is added and sent the header, whatever becomes of it. -/
def acceptClient (header : Bytes) (accept : AcceptResult) (m : Monitor) : Option Monitor :=
  match accept with
  | .conn connfd writes => do
    let conn : Conn := ⟨connfd, m.io.fromMaster.length, [], false, writes⟩
    let pool := addClient connfd m.pool
    let (io, _) ← { m.io with conns := conn :: m.io.conns }.writeConn connfd header
    some ⟨pool, io⟩
  | .error e => some { m with io := { m.io with errno := e } }

/-- If the listening descriptor is ready, a client is accepted. -/
def acceptReady (header : Bytes) (listenfd : ℤ) (accept : AcceptResult) (m : Monitor) :
    Option Monitor :=
  if listenfd ∈ m.pool.readySet then acceptClient header accept m else some m

/-- The loop's body after `select`. -/
def serve (header : Bytes) (listenfd : ℤ) (ans : Answers) (m : Monitor) :
    Option (Monitor × ℤ) := do
  let m ← acceptReady header listenfd ans.accept m
  checkClientsAndMaster ans.reads m

/-- A pass of the loop, with what `check_clients_and_master` returns, or zero where it is not
called. -/
def pass (header : Bytes) (listenfd : ℤ) (ans : Answers) (m : Monitor) :
    Option (Monitor × ℤ) :=
  let io := { m.io with polled := [] }
  match ans.select with
  | .ready fds => serve header listenfd ans
      ⟨{ m.pool with readySet := fds, nready := fds.card }, io⟩
  | .error e =>
    let m : Monitor := ⟨{ m.pool with readySet := m.pool.readSet, nready := -1 },
      { io with errno := e }⟩
    if e = eintr then some (m, 0) else serve header listenfd ans m

/-- The monitor from the initialised pool on, until a pass returns one. -/
def machine (header : Bytes) (listenfd masterfd : ℤ) : Machine Monitor Answers where
  init m := m.pool = initPool listenfd masterfd ∧ m.io.conns = [] ∧ m.io.chunks = [] ∧
    m.io.polled = [] ∧ m.io.toMaster = [] ∧ m.io.fromMaster = []
  step m ans :=
    match pass header listenfd ans m with
    | some (m, 0) => some m
    | _ => none

/-- What is relied on: `select` reports watched descriptors, or is interrupted; a descriptor
accepted is positive, not watched and below `FD_SETSIZE`, and once a write to it fails all
later ones do; what is read is neither empty nor longer than the buffer. -/
structure Admissible (m : Monitor) (ans : Answers) : Prop where
  select : match ans.select with
    | .ready fds => fds ⊆ m.pool.readSet
    | .error e => e = eintr
  accept : ∀ fd writes, ans.accept = .conn fd writes →
    0 < fd ∧ fd < fdSetSize ∧ fd ∉ m.pool.readSet ∧ FailsForGood writes
  reads : ∀ fd buf, ans.reads fd = .data buf → buf ≠ [] ∧ buf.length ≤ bufSize

end Hoststack.PtyExecUtil
