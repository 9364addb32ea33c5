import Mathlib.Data.Int.Notation
import Phaethon.Common.Mutex

/-!
# The request handlers of an HTTP tunnel channel

`src/server/htunnel.go`: the goroutines that serve the requests of one non-mesh `htChannel`. A handler
runs in critical sections under `ch.mu` (`Section`) and in code outside the mutex (`Job`); `Pc` is its
program point. One goroutine serves one request; timers and `DELETE` run `closeChannel`.
-/

namespace HTunnel

open Function

/-- The bytes of a body. -/
abbrev Bytes := List UInt8

/-- The pending operations of a channel: `connPend`, `hbPend`, `readPend`, `writePend`. -/
inductive Slot where
  | conn | hb | read | write
  deriving DecidableEq, Repr

/-- The four handlers with a retry loop: `HEAD` (push), `PUT`, `GET` and `POST`. -/
inductive Kind where
  | push | heartbeat | read | write
  deriving DecidableEq, Repr

/-- A request on the channel. -/
structure Req where
  kind : Kind
  contentSeq : ℤ
  deriving DecidableEq, Repr

/-- `pendingOp`; `done` is the identity of the channel made last. -/
structure PendingOp where
  active : Bool
  done : Option ℕ
  deriving DecidableEq, Repr

/-- A byte slice kept for retries: a prefix of `rBuf`, or bytes of its own. -/
inductive Body where
  | rBuf (n : ℕ)
  | own (b : Bytes)
  deriving DecidableEq, Repr

/-- `sync.Once`. -/
inductive Once where
  | fresh | running | done
  deriving DecidableEq, Repr

/-- `htChannel`, with the entry of `s.channels` for it (`registered`). Connections are identities;
`closedDone` holds the `done` channels that were closed, `nextDone` and `nextConn` are the next fresh
identities. -/
structure HtChannel where
  connSeq : ℤ := 0
  readSeq : ℤ := 0
  writeSeq : ℤ := 0
  targetConn : Option ℕ := none
  revConn : Bool := false
  port : ℤ
  isReverse : Bool
  isUDP : Bool
  encrypted : Bool
  lastReadData : Option Body := none
  lastWriteOk : Bool := false
  pend : Slot → PendingOp := fun _ => ⟨false, none⟩
  connReadyClosed : Bool := false
  rBuf : Bytes := []
  closed : Bool := false
  closeOnce : Once := .fresh
  registered : Bool := true
  closedDone : List ℕ := []
  nextDone : ℕ := 0
  nextConn : ℕ := 0

/-- What a handler leaves behind: the status, if one was written, and the body. -/
structure Response where
  status : Option ℕ
  body : Bytes := []
  deriving DecidableEq, Repr

/-- What `readSource` returns. -/
inductive ReadResult where
  | data (b : Body)
  | eof
  | timeout
  deriving DecidableEq, Repr

/-- How a connection setup ended: the values of `connOk` and `failed`. -/
inductive Setup where
  | connOk | failed | neither
  deriving DecidableEq, Repr

/-- The fields that the push, read and write leaders copy under the mutex. -/
structure Snapshot where
  isReverse : Bool
  isUDP : Bool
  port : ℤ
  targetConn : Option ℕ
  revConn : Bool
  deriving DecidableEq, Repr

/-- The critical sections of the code. -/
inductive Section where
  | reset (r : Req)
  | loop (r : Req)
  | pushSnapshot (r : Req)
  | pushReverse (r : Req)
  | pushTarget (r : Req)
  | pushFinish (r : Req) (o : Setup)
  | heartbeatFinish (r : Req)
  | readSnapshot (r : Req)
  | readFinish (r : Req) (res : ReadResult)
  | writeFail (r : Req)
  | writeSnapshot (r : Req) (data : Bytes)
  | writeRecord (r : Req)
  | writeDrop (r : Req) (conn : ℕ)
  | writeFinish (r : Req) (ok : Bool)
  | closeClean (answer : Option Response)
  | connTimer
  deriving DecidableEq, Repr

/-- The code outside the mutex. -/
inductive Job where
  | load (r : Req)
  | awaitReady (r : Req)
  | pushSetup (r : Req) (s : Snapshot)
  | heartbeatSleep (r : Req)
  | heartbeatAnswer
  | readSource (r : Req) (s : Snapshot)
  | writeBody (r : Req)
  | writeSend (r : Req) (s : Snapshot) (data : Bytes)
  | writeUdp (r : Req)
  | answer (status : ℕ) (body : Body)
  | closeLoad (answer : Option Response)
  | closeOnce (answer : Option Response)
  | closeEnd (answer : Option Response)
  | closeDelete (answer : Option Response)
  deriving DecidableEq, Repr

/-- The program point of a goroutine: before `Lock`, in a critical section, before `Unlock`, at `<-d` in
`leaderOrWait`, before the second `Lock` of `leaderOrWait`, outside the mutex, or at its end. `crashed` is
a panic in a critical section, which the HTTP server recovers. -/
inductive Pc where
  | idle
  | enter (s : Section)
  | inside (s : Section)
  | leave (next : Pc)
  | await (d : Option ℕ) (next : Pc)
  | relock (next : Pc)
  | run (j : Job)
  | returned (resp : Response)
  | ended
  | crashed
  deriving DecidableEq, Repr

/-- What the environment does: requests and timers arrive, blocking calls come back. -/
inductive Event where
  | next
  | request (r : Req)
  | delete
  | reqTimer
  | connTimer
  | timeout
  | closed
  | fail
  | eof
  | data (b : Bytes)
  | known (b : Bool)
  deriving DecidableEq, Repr

/-- Writes a status and returns. -/
def Pc.status (code : ℕ) : Pc := .returned { status := some code }

/-- Where `closeChannel` returns to: the handler that called it answers, a timer is done. -/
def Pc.after : Option Response → Pc
  | some resp => .returned resp
  | none => .ended

/-! ## The pending operations -/

/-- `(*htChannel).leaderOrWait`: `lead` and `wait` are the code after it returned true or false. -/
def leaderOrWait (p : Slot) (lead wait : Pc) (ch : HtChannel) : HtChannel × Pc :=
  if (ch.pend p).active then (ch, .leave (.await (ch.pend p).done wait))
  else
    ({ ch with
        pend := update ch.pend p ⟨true, some ch.nextDone⟩
        nextDone := ch.nextDone + 1 }, .leave lead)

/-- `close(d)`: closing a nil or a closed channel panics. -/
def closeDone (d : Option ℕ) (ch : HtChannel) : Option HtChannel :=
  match d with
  | none => none
  | some i => if i ∈ ch.closedDone then none else some { ch with closedDone := i :: ch.closedDone }

/-- `(*htChannel).broadcast`; `none` is a panic. -/
def broadcast (p : Slot) (ch : HtChannel) : Option HtChannel :=
  closeDone (ch.pend p).done
    { ch with pend := update ch.pend p ⟨false, (ch.pend p).done⟩ }

/-- `broadcast` and then `next`, in a critical section. -/
def broadcastThen (p : Slot) (next : Pc) (ch : HtChannel) : HtChannel × Pc :=
  match broadcast p ch with
  | some ch' => (ch', .leave next)
  | none => (ch, .crashed)

/-! ## The retry loops -/

/-- The pending operation of a handler. -/
def Kind.slot : Kind → Slot
  | .push => .conn
  | .heartbeat => .hb
  | .read => .read
  | .write => .write

/-- The counter a handler compares its content sequence with. -/
def Kind.counter (ch : HtChannel) : Kind → ℤ
  | .push => ch.connSeq
  | .heartbeat => ch.connSeq
  | .read => ch.readSeq
  | .write => ch.writeSeq

variable (r : Req)

/-- `step := contentSeq - ch.connSeq` and its like. -/
def Req.step (ch : HtChannel) : ℤ := r.contentSeq - r.kind.counter ch

/-- Where a handler goes on once it leads its operation. -/
def Req.lead : Pc :=
  match r.kind with
  | .push => .enter (.pushSnapshot r)
  | .heartbeat => .run (.heartbeatSleep r)
  | .read => .enter (.readSnapshot r)
  | .write => .run (.writeBody r)

variable (ch : HtChannel)

/-- `leaderOrWait` followed by `Unlock` and `continue`: the loop's branches for `step ≠ 1`. -/
def waitAgain : HtChannel × Pc :=
  leaderOrWait r.kind.slot (.leave (.enter (.loop r))) (.leave (.enter (.loop r))) ch

/-- `if ch.leaderOrWait(..) { break }`: the loop's last statement, so that a waiter goes on at the head of
the loop. -/
def leadOrLoop : HtChannel × Pc :=
  leaderOrWait r.kind.slot r.lead (.enter (.loop r)) ch

/-- The answer of a duplicate (`step == 0`) whose operation is not in flight. -/
def duplicate : Pc :=
  match r.kind with
  | .push =>
      if ch.closed then .status 410
      else if ch.targetConn.isSome || ch.revConn || ch.isUDP then .status 200
      else .status 410
  | .heartbeat => if ch.closed then .status 410 else .status 200
  | .read =>
      match ch.lastReadData with
      | some b => .run (.answer 200 b)
      | none => .status 408
  | .write => if ch.lastWriteOk then .status 200 else .status 408

/-- One round of the `for` loop of `handleConnectionPush`. -/
def loopPush : HtChannel × Pc :=
  if r.step ch = 0 then
    if (ch.pend .conn).active then waitAgain r ch else (ch, .leave (duplicate r ch))
  else if r.step ch ≠ 1 then
    if (ch.pend .conn).active then waitAgain r ch else (ch, .leave (.run (.awaitReady r)))
  else leadOrLoop r ch

/-- One round of the `for` loop of `handleHeartbeat`, `handleRead` and `handleWrite`. -/
def loopOther : HtChannel × Pc :=
  if r.step ch = 0 then
    if (ch.pend r.kind.slot).active then waitAgain r ch else (ch, .leave (duplicate r ch))
  else if r.step ch ≠ 1 then (ch, .leave (.status 410))
  else leadOrLoop r ch

/-- One round of the retry loop, under the mutex. -/
def loopRound : HtChannel × Pc :=
  match r.kind with
  | .push => loopPush r ch
  | _ => loopOther r ch

/-! ## The critical sections -/

/-- The fields read at once by a leader. -/
def HtChannel.snapshot : Snapshot :=
  ⟨ch.isReverse, ch.isUDP, ch.port, ch.targetConn, ch.revConn⟩

/-- The answer of a push leader; a failed setup closes the channel first. -/
def Setup.answer : Setup → Pc
  | .connOk => .status 200
  | .failed => .run (.closeLoad (some { status := some 410 }))
  | .neither => .status 410

/-- The end of `handleConnectionPush`: the counter moves unless the setup did nothing, and the first push
closes `connReady`. -/
def pushFinish (r : Req) (o : Setup) (ch : HtChannel) : HtChannel × Pc :=
  let ch := if o = .neither then ch else { ch with connSeq := ch.connSeq + 1 }
  match broadcast .conn ch with
  | none => (ch, .crashed)
  | some ch =>
      if r.contentSeq = 1 then
        if ch.connReadyClosed then (ch, .crashed)
        else ({ ch with connReadyClosed := true }, .leave o.answer)
      else (ch, .leave o.answer)

/-- The end of `handleRead`; `resp` is the answer, which is kept for retries. -/
def readFinish (res : ReadResult) (resp : Option Body) (ch : HtChannel) : HtChannel × Pc :=
  let next : Pc :=
    match res, resp with
    | .data _, some b => .run (.answer 200 b)
    | .timeout, _ => .status 408
    | _, _ => .status 410
  broadcastThen .read next { ch with readSeq := ch.readSeq + 1, lastReadData := resp }

/-- The end of `handleWrite`, on each of its paths. -/
def writeFinish (ok : Bool) (ch : HtChannel) : HtChannel × Pc :=
  broadcastThen .write (.status (if ok then 200 else 410))
    { ch with writeSeq := ch.writeSeq + 1, lastWriteOk := ok }

/-- The body of a critical section. Without a password `SealBody` returns its argument, a slice of `rBuf`
when the data came from the target. -/
def body : Section → HtChannel → Event → Option (HtChannel × Pc)
  | .reset r, ch, .next => some (ch, .leave (.enter (.loop r)))
  | .loop r, ch, .next => some (loopRound r ch)
  | .pushSnapshot r, ch, .next => some (ch, .leave (.run (.pushSetup r ch.snapshot)))
  | .pushReverse r, ch, .next =>
      some ({ ch with revConn := true }, .leave (.enter (.pushFinish r .connOk)))
  | .pushTarget r, ch, .next =>
      some ({ ch with targetConn := some ch.nextConn, nextConn := ch.nextConn + 1 },
        .leave (.enter (.pushFinish r .connOk)))
  | .pushFinish r o, ch, .next => some (pushFinish r o ch)
  | .heartbeatFinish _, ch, .next =>
      some (broadcastThen .hb (.run .heartbeatAnswer) { ch with connSeq := ch.connSeq + 1 })
  | .readSnapshot r, ch, .next => some (ch, .leave (.run (.readSource r ch.snapshot)))
  | .readFinish _ (.data b), ch, .next =>
      if ch.encrypted then none else some (readFinish (.data b) (some b) ch)
  | .readFinish _ (.data b), ch, .data sealed =>
      if ch.encrypted then some (readFinish (.data b) (some (.own sealed)) ch) else none
  | .readFinish _ res, ch, .next => some (readFinish res none ch)
  | .writeFail _, ch, .next => some (writeFinish false ch)
  | .writeSnapshot r data, ch, .next => some (ch, .leave (.run (.writeSend r ch.snapshot data)))
  | .writeRecord r, ch, .next => some (ch, .leave (.run (.writeUdp r)))
  | .writeDrop r conn, ch, .next =>
      some (if ch.targetConn = some conn then { ch with targetConn := none } else ch,
        .leave (.enter (.writeFinish r false)))
  | .writeFinish _ ok, ch, .next => some (writeFinish ok ch)
  | .closeClean answer, ch, .next =>
      some ({ ch with targetConn := none, revConn := false }, .leave (.run (.closeEnd answer)))
  | .connTimer, ch, .next =>
      some (ch, .leave (if ch.targetConn.isSome || ch.revConn then .ended
        else .run (.closeLoad none)))
  | _, _, _ => none

/-! ## The code outside the mutex -/

/-- The setup of a push leader. A rejected reverse request returns without a status and without
completing its operation. -/
def pushSetup (r : Req) (s : Snapshot) (e : Event) : Option Pc :=
  if r.contentSeq = 1 then
    if s.isReverse then
      if 2 < s.port then some (.returned { status := none })
      else if s.port = 0 then
        match e with
        | .known true => some (.enter (.pushReverse r))
        | .known false => some (.returned { status := none })
        | _ => none
      else some (.enter (.pushReverse r))
    else if s.isUDP then some (.enter (.pushFinish r .connOk))
    else if s.targetConn.isSome then some (.enter (.pushFinish r .connOk))
    else
      match e with
      | .next => some (.enter (.pushTarget r))
      | .fail => some (.enter (.pushFinish r .failed))
      | _ => none
  else if r.contentSeq = 2 then
    some (.enter (.pushFinish r
      (if s.targetConn.isSome || s.revConn || s.isUDP then .connOk else .neither)))
  else some (.enter (.pushFinish r .neither))

/-- `(*htChannel).readSource` after its snapshot: the new `rBuf` and the result. -/
def readSource (s : Snapshot) (ch : HtChannel) (e : Event) : Option (Bytes × ReadResult) :=
  if s.isUDP || s.revConn then
    match e with
    | .data b => some (ch.rBuf, .data (.own b))
    | .eof => some (ch.rBuf, .eof)
    | .timeout => some (ch.rBuf, .timeout)
    | _ => none
  else if s.targetConn.isNone then some (ch.rBuf, .timeout)
  else
    match e with
    | .data b => some (b ++ ch.rBuf.drop b.length, .data (.rBuf b.length))
    | .eof => some (ch.rBuf, .eof)
    | .timeout => some (ch.rBuf, .timeout)
    | _ => none

/-- The delivery of a `POST` body by the write leader. -/
def writeSend (r : Req) (s : Snapshot) (data : Bytes) (e : Event) : Option Pc :=
  if s.revConn then some (.enter (.writeFinish r true))
  else if s.isUDP then
    if data = [] then some (.enter (.writeFinish r true))
    else
      match e with
      | .next => some (.enter (.writeRecord r))
      | .fail => some (.enter (.writeFinish r false))
      | _ => none
  else
    match s.targetConn with
    | none => some (.enter (.writeFinish r false))
    | some conn =>
        if data = [] then some (.enter (.writeFinish r true))
        else
          match e with
          | .next => some (.enter (.writeFinish r true))
          | .fail => some (.enter (.writeDrop r conn))
          | _ => none

/-- The bytes a kept body denotes when it is written to the response. -/
def Body.bytes (rBuf : Bytes) : Body → Bytes
  | .rBuf n => rBuf.take n
  | .own b => b

/-- One step of the code outside the mutex. -/
def job : Job → HtChannel → Event → Option (HtChannel × Pc)
  | .load r, ch, .next =>
      some (ch, if ch.registered then .enter (.reset r) else .status 410)
  | .awaitReady r, ch, .next =>
      if ch.connReadyClosed then some (ch, .enter (.loop r)) else none
  | .awaitReady _, ch, .closed => if ch.closed then some (ch, .status 410) else none
  | .awaitReady _, ch, .timeout => some (ch, .status 410)
  | .pushSetup r s, ch, e => (pushSetup r s e).map fun pc => (ch, pc)
  | .heartbeatSleep r, ch, .timeout => some (ch, .enter (.heartbeatFinish r))
  | .heartbeatSleep r, ch, .closed =>
      if ch.closed then some (ch, .enter (.heartbeatFinish r)) else none
  | .heartbeatAnswer, ch, .next => some (ch, if ch.closed then .status 410 else .status 200)
  | .readSource r s, ch, e =>
      (readSource s ch e).map fun p => ({ ch with rBuf := p.1 }, .enter (.readFinish r p.2))
  | .writeBody r, ch, .data b => some (ch, .enter (.writeSnapshot r b))
  | .writeBody r, ch, .fail => some (ch, .enter (.writeFail r))
  | .writeSend r s data, ch, e => (writeSend r s data e).map fun pc => (ch, pc)
  | .writeUdp r, ch, .next => some (ch, .enter (.writeFinish r true))
  | .writeUdp r, ch, .fail => some (ch, .enter (.writeFinish r false))
  | .answer status b, ch, .next =>
      some (ch, .returned { status := some status, body := b.bytes ch.rBuf })
  | .closeLoad answer, ch, .next =>
      some (ch, if ch.registered then .run (.closeOnce answer) else .after answer)
  | .closeOnce answer, ch, .next =>
      match ch.closeOnce with
      | .fresh =>
          some ({ ch with closeOnce := .running, closed := true }, .enter (.closeClean answer))
      | .running => none
      | .done => some (ch, .run (.closeDelete answer))
  | .closeEnd answer, ch, .next =>
      some ({ ch with closeOnce := .done }, .run (.closeDelete answer))
  | .closeDelete answer, ch, .next => some ({ ch with registered := false }, .after answer)
  | _, _, _ => none

/-- A goroutine starts: a request (`HEAD` with content sequence 0 is not a push) or a timer. -/
def start : Event → Option Pc
  | .request r =>
      if r.kind = .push ∧ r.contentSeq = 0 then none else some (.run (.load r))
  | .delete => some (.run (.closeLoad (some { status := some 410 })))
  | .reqTimer => some (.run (.closeLoad none))
  | .connTimer => some (.enter .connTimer)
  | _ => none

/-- `<-d`: it comes back once the channel was closed, never on a nil channel. -/
def awaitDone (d : Option ℕ) (next : Pc) (ch : HtChannel) (_ : Event) : Option (HtChannel × Pc) :=
  match d with
  | some i => if i ∈ ch.closedDone then some (ch, .relock next) else none
  | none => none

/-- What a goroutine does at a program point. -/
def code : Pc → Mutex.Op HtChannel Event Pc
  | .idle => .act fun ch e => (start e).map fun pc => (ch, pc)
  | .enter s => .lock (.inside s)
  | .inside s => .act (body s)
  | .leave next => .unlock next
  | .await d next => .act (awaitDone d next)
  | .relock next => .lock next
  | .run j => .act (job j)
  | .returned _ => .halt
  | .ended => .halt
  | .crashed => .halt

/-- The channel and its goroutines. -/
abbrev Config := Mutex.Config HtChannel Pc

/-- One goroutine runs one operation. -/
abbrev step : Config → ℕ × Event → Option Config := Mutex.step code

/-- A channel as `handleConnectionRequest` makes it. -/
def newChannel (port : ℤ) (isReverse isUDP encrypted : Bool) : HtChannel :=
  { port, isReverse, isUDP, encrypted }

/-- No request has arrived yet. -/
def init (ch : HtChannel) : Config := ⟨none, ch, fun _ => .idle⟩

end HTunnel
