import Phaethon.Common.GoMap
import Phaethon.Common.Lts
import Phaethon.Mesh.DnsPacket

/-!
# Forwarding DNS queries

`src/mesh/dns.go`: `forwardToRemoteAsync`, the listener that reads responses and sweeps the queries that have waited
too long, and `Stop`. A step is what a goroutine does between two points at which another one may go on; the label
says which goroutine goes on, and what the cache, the sockets and the clock give it.
-/

namespace DnsForward

open Dns GoMap Function

/-- The arguments of a call of `forwardToRemoteAsync`. -/
structure Query where
  query : List UInt8
  remoteAddr : ℕ
deriving DecidableEq, Repr

/-- `pendingQuery`, with the call that has registered it: the pointer that the call compares. -/
structure PendingQuery extends Query where
  id : ℕ
  registered : ℤ
deriving DecidableEq, Repr

/-- An attempt to write a reply to `udpEP`. -/
structure Reply where
  id : ℕ
  remoteAddr : ℕ
  packet : List UInt8
deriving DecidableEq, Repr

/-- `forwardTimeout`, in nanoseconds. -/
def forwardTimeout : ℤ := 5000000000

/-- What a response says: its domain and its address. -/
abbrev Response := List UInt8 × List UInt8

/-- Where a call of `forwardToRemoteAsync` stands. -/
inductive Handler where
  | idle
  /-- about to look into the cache -/
  | cache (q : Query)
  /-- about to read `forwarderSocket` -/
  | socket (q : Query)
  /-- about to add itself to `pendingQueries` -/
  | register (q : Query)
  /-- about to write the query to the socket -/
  | write (q : Query)
  /-- the write has failed: about to remove its entry -/
  | failed (q : Query)
  /-- in `answerRemote` or in `answerSERVFAIL` -/
  | answer (q : Query) (ip : Option (List UInt8))
  | returned
deriving DecidableEq, Repr

/-- Where `forwarderListener` stands. -/
inductive Listener where
  | off
  | idle
  /-- a packet has been read; `none` if it is no response -/
  | read (r : Option Response)
  /-- in `sweepPending`, with the expired queries to answer -/
  | sweeping (todo : List PendingQuery) (r : Option Response)
  | parsed (r : Option Response)
  | answering (ip : List UInt8) (todo : List PendingQuery)
deriving DecidableEq, Repr

/-- Where the call of `Stop` stands. -/
inductive Stop where
  | idle
  /-- the socket is closed: about to close `forwarderStopCh` -/
  | signal
  /-- about to take the remaining queries -/
  | sweep
  | answering (todo : List PendingQuery)
  | returned
deriving DecidableEq, Repr

/-- `forwarderSocket`: nil at first, and nil again once `Stop` has closed it. -/
inductive Socket where
  | unset | opened | closed
deriving DecidableEq, Repr

/-- `DNSHijacker`: the part the forwarder uses. `pending` lists the entries of `pendingQueries` with their keys, and
`begun` the calls so far. -/
structure State where
  socket : Socket
  stopped : Bool
  pending : List (List UInt8 × PendingQuery)
  handlers : ℕ → Handler
  listener : Listener
  stop : Stop
  begun : List (ℕ × Query)
  replies : List Reply

def State.init : State where
  socket := .unset
  stopped := false
  pending := []
  handlers := fun _ => .idle
  listener := .off
  stop := .idle
  begun := []
  replies := []

/-- What a call is given when it goes on. -/
inductive Choice where
  | next
  | hit (ip : List UInt8)
  | miss
  | now (time : ℤ)
  | sent
  | unsent
deriving DecidableEq, Repr

/-- What the listener is given when it goes on. -/
inductive Event where
  | next
  | receive (r : Option Response)
  | tick (clock : ℕ → ℤ) (order : Shuffle)
  | stop

inductive Label where
  | begin (u : ℕ) (q : Query) (subnetIPv4 : Bool)
  | handler (u : ℕ) (c : Choice)
  | startForwarder
  | listener (e : Event)
  | stop (order : Shuffle)

section Steps

-- `strings.ToLower`; nothing depends on which function it is.
variable (toLower : List UInt8 → List UInt8)

/-- The key of a query in `pendingQueries`. -/
def Query.key (q : Query) : List UInt8 := toLower (((parseDNSQueryDomain q.query).map Prod.fst).getD [])

/-- A reply is built and written; nothing is written if it cannot be built. -/
def State.reply (s : State) (id : ℕ) (q : Query) (ip : Option (List UInt8)) : State :=
  match buildReply q.query ip with
  | some packet => { s with replies := s.replies ++ [⟨id, q.remoteAddr, packet⟩] }
  | none => s

/-- The checks at the head of `forwardToRemoteAsync`. -/
def Handler.first (q : Query) (subnetIPv4 : Bool) : Handler :=
  if subnetIPv4 = false then .answer q none
  else if ((parseDNSQueryDomain q.query).map Prod.fst).getD [] = [] then .answer q none
  else .cache q

variable (s : State)

def handlerStep (u : ℕ) (c : Choice) : Option State :=
  let goto (pc : Handler) : State := { s with handlers := update s.handlers u pc }
  match s.handlers u, c with
  | .cache q, .hit ip => some (goto (.answer q (some ip)))
  | .cache q, .miss => some (goto (.socket q))
  | .socket q, .next => some (goto (if s.socket = .opened then .register q else .answer q none))
  | .register q, .now time =>
      some { goto (.write q) with pending := s.pending ++ [(q.key toLower, ⟨q, u, time⟩)] }
  -- a socket that `Stop` has closed takes no write
  | .write _, .sent => if s.socket = .opened then some (goto .returned) else none
  | .write q, .unsent => some (goto (.failed q))
  | .failed q, .next =>
      some { goto (.answer q none) with
        pending := s.pending.eraseP fun e => e.1 = q.key toLower ∧ e.2.id = u }
  | .answer q ip, .next => some { s.reply u q ip with handlers := update s.handlers u .returned }
  | _, _ => none

/-- `sweepPending`, to where it gives up the lock. -/
def sweepPending (clock : ℕ → ℤ) (order : Shuffle) (r : Option Response) : State :=
  let expired (e : List UInt8 × PendingQuery) : Bool := forwardTimeout < clock e.2.id - e.2.registered
  { s with
    pending := s.pending.filter fun e => !expired e
    listener := .sweeping ((order.run (s.pending.filter expired)).map Prod.snd) r }

def listenerStep (e : Event) : Option State :=
  match s.listener, e with
  | .idle, .receive r => some { s with listener := .read r }
  | .idle, .tick clock order => some (sweepPending s clock order none)
  | .idle, .stop => if s.stopped then some { s with listener := .off } else none
  | .read r, .next => some { s with listener := .parsed r }
  | .read r, .tick clock order => some (sweepPending s clock order r)
  | .sweeping [] r, .next => some { s with listener := .parsed r }
  | .sweeping (pq :: todo) r, .next => some { s.reply pq.id pq.toQuery none with listener := .sweeping todo r }
  | .parsed none, .next => some { s with listener := .idle }
  | .parsed (some (domain, ip)), .next =>
      some
        { s with
          pending := s.pending.filter fun e => !decide (e.1 = toLower domain)
          listener := .answering ip ((s.pending.filter fun e => decide (e.1 = toLower domain)).map Prod.snd) }
  | .answering _ [], .next => some { s with listener := .idle }
  | .answering ip (pq :: todo), .next =>
      some { s.reply pq.id pq.toQuery (some ip) with listener := .answering ip todo }
  | _, _ => none

def stopStep (order : Shuffle) : Option State :=
  match s.stop with
  | .idle => some { s with socket := if s.socket = .opened then .closed else s.socket, stop := .signal }
  | .signal => some { s with stopped := true, stop := .sweep }
  | .sweep => some { s with pending := [], stop := .answering ((order.run s.pending).map Prod.snd) }
  | .answering [] => some { s with stop := .returned }
  | .answering (pq :: todo) => some { s.reply pq.id pq.toQuery none with stop := .answering todo }
  | .returned => none

/-- A step. `processQuery` makes a call only if the query can be parsed. -/
def step : Label → Option State
  | .begin u q subnetIPv4 =>
      if s.handlers u = .idle ∧ (parseDNSQueryDomain q.query).isSome then
        some
          { s with
            handlers := update s.handlers u (.first q subnetIPv4)
            begun := s.begun ++ [(u, q)] }
      else none
  | .handler u c => handlerStep toLower s u c
  | .startForwarder =>
      if s.socket = .unset ∧ s.stop = .idle then some { s with socket := .opened, listener := .idle } else none
  | .listener e => listenerStep toLower s e
  | .stop order => stopStep s order

end Steps

end DnsForward
