import Phaethon.Common.Lts

/-!
# The registry of reverse connections

`src/reverse/registry.go`: a server registers the connections that come in for a reverse address, and a dialer
takes one of them by `Match`, which ends in a handshake. `Refresh` puts a new registry in the place of the old one.
The model is that of one address, with any number of connections and of calls of `Match`. Each connection has
its goroutines: the handler, the sender of heartbeats, the detector of idle readers, the watcher and the read loop.

One step is what a goroutine does between two points where others can interfere. A registry is locked across steps
only by `Register`, which looks at `cancelCh` first. The label of a step says which goroutine moves, and how the
connection and the clock answer it; whatever is read from a connection is such an answer.
-/

namespace Reverse

open Function

/-! ## Connections -/

/-- The frames that the server writes. -/
inductive Frame where
  | peng
  | heartbeat
  | pong
  deriving DecidableEq

/-- Where `HandleReverseConnection` is: it has the registry, holds its lock, is about to write PENG, to start the
sender, to start the watcher; or PENG failed, and it is about to unregister, to stop the read loop, to close. -/
inductive Handler where
  | absent
  | registering
  | checked
  | greeting
  | adding
  | watching
  | unregistering
  | stopping
  | closing
  | done
  deriving DecidableEq

/-- Where the sender is. -/
inductive Sender where
  | absent
  | waiting
  | ticked
  | done
  deriving DecidableEq

/-- Where the detector of idle readers is. -/
inductive Idler where
  | absent
  | waiting
  | closing
  | done
  deriving DecidableEq

/-- Where the watcher is: it saw the connection unmatched, found it unregistered already, or is about to close it. -/
inductive Watcher where
  | absent
  | waiting
  | unmatched
  | rechecking
  | closing
  | done
  deriving DecidableEq

/-- `ManagedConn`, with its goroutines, the registry that it is for, whether something failed on it while it was
open, and what the server wrote to it. -/
structure ManagedConn where
  registry : ℕ
  handler : Handler
  sender : Sender
  idler : Idler
  watcher : Watcher
  reading : Bool
  stopped : Bool
  stopPing : Bool
  senderWg : ℕ
  matched : Bool
  closed : Bool
  failed : Bool
  written : List Frame

namespace ManagedConn

/-- No connection yet. -/
def absent : ManagedConn := ⟨0, .absent, .absent, .absent, .absent, true, false, false, 0, false, false, false, []⟩

/-- `NewManagedConn`, for a handler that has got a registry. -/
def new (registry : ℕ) : ManagedConn := { absent with registry, handler := .registering }

variable (x : ManagedConn)

/-- An operation on the connection fails, as all do once it is closed. -/
def fail : ManagedConn := { x with failed := x.failed || !x.closed }

/-- The connection is closed. -/
def close : ManagedConn := { x with closed := true }

/-- The steps of `HandleReverseConnection` outside the registry. -/
def handle (ok : Bool) : Option ManagedConn :=
  match x.handler with
  | .greeting =>
      if ok && !x.closed then some { x with written := x.written ++ [.peng], handler := .adding }
      else some { x.fail with handler := .unregistering }
  | .adding => some { x with senderWg := x.senderWg + 1, sender := .waiting, handler := .watching }
  | .watching => some { x with idler := .waiting, watcher := .waiting, handler := .done }
  | .stopping => some { x with stopped := true, handler := .closing }
  | .closing => if x.reading then none else some { x.close with handler := .done }
  | .absent | .registering | .checked | .unregistering | .done => none

/-- The sender: a tick is chosen, although it may have been told to stop. -/
def tick : Option ManagedConn :=
  if x.sender = .waiting then some { x with sender := .ticked } else none

/-- The sender: a heartbeat is written after a tick. -/
def beat (ok : Bool) : Option ManagedConn :=
  if x.sender = .ticked then
    if ok && !x.closed then some { x with written := x.written ++ [.heartbeat], sender := .waiting }
    else some { x.fail.close with senderWg := x.senderWg - 1, sender := .done }
  else none

/-- The sender: it ends because of `stopPing` or `doneCh`. -/
def hush : Option ManagedConn :=
  if x.sender = .waiting ∧ (x.stopPing = true ∨ x.reading = false) then
    some { x with senderWg := x.senderWg - 1, sender := .done }
  else none

/-- The detector of idle readers; `stale` says that nothing was read for a minute. -/
def idle (stale : Bool) : Option ManagedConn :=
  match x.idler with
  | .waiting =>
      if x.matched then some { x with idler := .done }
      else if stale then some { x.fail with idler := .closing }
      else if x.stopPing = true ∨ x.reading = false then some { x with idler := .done }
      else none
  | .closing => some { x.close with idler := .done }
  | .absent | .done => none

/-- The read loop ends, because it was stopped or a read fails. -/
def readEnd : Option ManagedConn :=
  if x.reading then some { (if x.stopped then x else x.fail) with reading := false } else none

/-- The steps of the watcher outside the registry. -/
def watch : Option ManagedConn :=
  match x.watcher with
  | .waiting =>
      if x.reading then none
      else if x.matched then some { x with watcher := .done }
      else some { x with watcher := .unmatched }
  | .rechecking => if x.matched then some { x with watcher := .done } else some { x with watcher := .closing }
  | .closing => some { x.close with watcher := .done }
  | .absent | .unmatched | .done => none

end ManagedConn

/-! ## Calls of `Match` -/

/-- How a call came by its connection. -/
inductive Way where
  | listed
  | awaited
  | drained
  deriving DecidableEq

/-- Where a call is that has a connection: it is about to claim it, to close `stopPing`, to wait for the sender, to
write PONG, to stop the read loop, to read PENG; or that failed, and it is about to close, to unregister. -/
inductive Stage where
  | claim
  | stopPing
  | wait
  | pong
  | stop
  | peng
  | close
  | unregister
  deriving DecidableEq

/-- Where a call of `Match` is. Without a connection it is about to look at the idle list, waits, or was told to give
up and is about to remove its waiter. -/
inductive Progress where
  | absent
  | looking
  | waiting
  | leaving
  | removing (c : ℕ)
  | handshake (way : Way) (stage : Stage) (c : ℕ)
  | returned (result : Option ℕ)
  deriving DecidableEq

/-- A call of `Match` on a registry, with the channel of its waiter. -/
structure Call where
  registry : ℕ
  progress : Progress
  channel : Option ℕ

/-- What a stage of `reverseHandshake`, or of the failure behind it, does to the connection, and the stage behind it.
After the last stage the call has the connection, or nothing. -/
def ManagedConn.shake (x : ManagedConn) (ok : Bool) : Stage → Option (ManagedConn × Option Stage)
  | .claim => some ({ x with matched := true }, some .stopPing)
  | .stopPing => some ({ x with stopPing := true }, some .wait)
  | .wait => if x.senderWg = 0 then some (x, some .pong) else none
  | .pong =>
      if ok && !x.closed then some ({ x with written := x.written ++ [.pong] }, some .stop)
      else some (x.fail, some .close)
  | .stop => some ({ x with matched := true, stopped := true }, some .peng)
  | .peng => if x.reading then none else if ok then some (x, none) else some (x.fail, some .close)
  | .close => some (x.close, some .unregister)
  | .unregister => some (x, none)

/-! ## Registries -/

/-- `Registry`, of one address. Its lock is held by the `Register` of a connection, or free. -/
structure Registry where
  bottoms : List ℕ
  waiters : List ℕ
  cancelled : Bool
  holder : Option ℕ

/-- The registries so far, which one is the global one, how far `Refresh` is (the old registry is to be gone
through, or to be cancelled), the connections and the calls. -/
structure System where
  registries : ℕ → Registry
  current : ℕ
  refresh : Option Bool
  conns : ℕ → ManagedConn
  calls : ℕ → Call

/-- The first waiter that has room in its channel, and the waiters behind it. -/
def firstWaiter (calls : ℕ → Call) : List ℕ → Option ℕ × List ℕ
  | [] => (none, [])
  | m :: waiters => if (calls m).channel = none then (some m, waiters) else firstWaiter calls waiters

namespace System

/-- A connection is changed. -/
def setConn (s : System) (c : ℕ) (x : ManagedConn) : System := { s with conns := update s.conns c x }

/-- A registry is changed. -/
def setRegistry (s : System) (r : ℕ) (g : Registry) : System :=
  { s with registries := update s.registries r g }

/-- A call is changed. -/
def setCall (s : System) (m : ℕ) (k : Call) : System := { s with calls := update s.calls m k }

/-- A call goes on. -/
def goOn (s : System) (m : ℕ) (progress : Progress) : System := s.setCall m { s.calls m with progress }

section Fields

variable (s : System) (c d r q m n : ℕ) (x : ManagedConn) (g : Registry) (k : Call)

@[simp]
theorem conns_setConn : (s.setConn c x).conns c = x := update_self _ _ _

theorem conns_setConn_of_ne (h : d ≠ c) : (s.setConn c x).conns d = s.conns d := update_of_ne h _ _

@[simp]
theorem registries_setConn : (s.setConn c x).registries = s.registries := rfl

@[simp]
theorem calls_setConn : (s.setConn c x).calls = s.calls := rfl

@[simp]
theorem conns_setRegistry : (s.setRegistry r g).conns = s.conns := rfl

@[simp]
theorem registries_setRegistry : (s.setRegistry r g).registries r = g := update_self _ _ _

theorem registries_setRegistry_of_ne (h : q ≠ r) : (s.setRegistry r g).registries q = s.registries q :=
  update_of_ne h _ _

@[simp]
theorem calls_setRegistry : (s.setRegistry r g).calls = s.calls := rfl

@[simp]
theorem conns_setCall : (s.setCall m k).conns = s.conns := rfl

@[simp]
theorem registries_setCall : (s.setCall m k).registries = s.registries := rfl

@[simp]
theorem calls_setCall : (s.setCall m k).calls m = k := update_self _ _ _

theorem calls_setCall_of_ne (h : n ≠ m) : (s.setCall m k).calls n = s.calls n := update_of_ne h _ _

end Fields

variable (s : System)

/-- The lock of the registry is free. -/
def Free (r : ℕ) : Prop := (s.registries r).holder = none

instance (s : System) (r : ℕ) : Decidable (s.Free r) := inferInstanceAs (Decidable (_ = _))

/-- `Register`, up to the look at `cancelCh`. -/
def check (c : ℕ) : System :=
  let x := s.conns c
  let g := s.registries x.registry
  if g.cancelled then s.setConn c { x.close with handler := .greeting }
  else (s.setRegistry x.registry { g with holder := some c }).setConn c { x with handler := .checked }

/-- `Register`, from there on: the connection goes to the first waiter, or to the idle list. -/
def deliver (c : ℕ) : System :=
  let x := s.conns c
  let g := s.registries x.registry
  let s := s.setConn c { x with handler := .greeting }
  match firstWaiter s.calls g.waiters with
  | (some m, waiters) =>
      (s.setRegistry x.registry { g with waiters, holder := none }).setCall m { s.calls m with channel := some c }
  | (none, waiters) => s.setRegistry x.registry { g with waiters, bottoms := g.bottoms ++ [c], holder := none }

/-- `(*Registry).Unregister`. -/
def unregister (r c : ℕ) : System :=
  s.setRegistry r { s.registries r with bottoms := (s.registries r).bottoms.erase c }

/-- The handler of a connection. -/
def handler (c : ℕ) (ok : Bool) : Option System :=
  let x := s.conns c
  match x.handler with
  | .registering => if s.Free x.registry then some (s.check c) else none
  | .checked => some (s.deliver c)
  | .unregistering =>
      if s.Free x.registry then some ((s.unregister x.registry c).setConn c { x with handler := .stopping }) else none
  | _ => (x.handle ok).map (s.setConn c)

/-- The watcher of a connection. -/
def watcher (c : ℕ) : Option System :=
  let x := s.conns c
  match x.watcher with
  | .unmatched =>
      if s.Free x.registry then
        if c ∈ (s.registries x.registry).bottoms then
          some ((s.unregister x.registry c).setConn c { x with watcher := .closing })
        else some (s.setConn c { x with watcher := .rechecking })
      else none
  | _ => x.watch.map (s.setConn c)

variable (m : ℕ)

/-- `Match`, from the lock on: the first connection of the idle list is taken, or a waiter is added. -/
def look : System :=
  let k := s.calls m
  let g := s.registries k.registry
  match g.bottoms with
  | c :: bottoms => (s.setRegistry k.registry { g with bottoms }).goOn m (.handshake .listed .claim c)
  | [] =>
      (s.setRegistry k.registry { g with waiters := g.waiters ++ [m] }).setCall m
        { k with progress := .waiting, channel := none }

/-- The waiter of a call is removed. -/
def removeWaiter : System :=
  let g := s.registries (s.calls m).registry
  s.setRegistry (s.calls m).registry { g with waiters := g.waiters.erase m }

/-- What follows on a stage of a call. -/
def follow (way : Way) (stage : Stage) (c : ℕ) : Option Stage → Option System
  | some .unregister =>
      match way with
      | .drained => some (s.goOn m (.returned none))
      | _ => some (s.goOn m (.handshake way .unregister c))
  | some next => some (s.goOn m (.handshake way next c))
  | none =>
      match stage with
      | .unregister =>
          if s.Free (s.calls m).registry then
            some ((s.unregister (s.calls m).registry c).goOn m
              (if way = .listed then .looking else .returned none))
          else none
      | _ => some (s.goOn m (.returned (some c)))

/-- A call of `Match`, unless it waits. -/
def caller (ok : Bool) : Option System :=
  let k := s.calls m
  match k.progress with
  | .looking => if s.Free k.registry then some (s.look m) else none
  | .leaving => if s.Free k.registry then some ((s.removeWaiter m).goOn m (.returned none)) else none
  | .removing c =>
      if s.Free k.registry then some ((s.removeWaiter m).goOn m (.handshake .drained .claim c)) else none
  | .handshake way stage c =>
      match (s.conns c).shake ok stage with
      | some (x, next) => (s.setConn c x).follow m way stage c next
      | none => none
  | .absent | .waiting | .returned _ => none

/-- A call that waits takes what is in its channel. -/
def receive : Option System :=
  match (s.calls m).progress, (s.calls m).channel with
  | .waiting, some c => some (s.setCall m { s.calls m with progress := .handshake .awaited .claim c, channel := none })
  | _, _ => none

/-- A call that waits sees that the registry was refreshed, and looks at its channel once more. -/
def cancel : Option System :=
  if (s.calls m).progress = .waiting ∧ (s.registries (s.calls m).registry).cancelled = true then
    match (s.calls m).channel with
    | some c => some (s.setCall m { s.calls m with progress := .removing c, channel := none })
    | none => some (s.goOn m .leaving)
  else none

/-- A call that waits sees that its time is over. -/
def timeout : Option System :=
  if (s.calls m).progress = .waiting then some (s.goOn m .leaving) else none

/-- `Refresh`: there is a new registry, the unmatched connections of the old one are closed, it is cancelled. -/
def refreshStep : Option System :=
  match s.refresh with
  | none => some { s with current := s.current + 1, refresh := some false }
  | some false =>
      if s.Free (s.current - 1) then
        some { s with
          refresh := some true
          conns := fun c =>
            if c ∈ (s.registries (s.current - 1)).bottoms ∧ (s.conns c).matched = false then (s.conns c).close
            else s.conns c }
      else none
  | some true =>
      some { s.setRegistry (s.current - 1) { s.registries (s.current - 1) with cancelled := true } with
        refresh := none }

end System

/-! ## Steps -/

/-- Which goroutine moves, and how it is answered. -/
inductive Label where
  | arrive (c : ℕ)
  | handler (c : ℕ) (ok : Bool)
  | tick (c : ℕ)
  | beat (c : ℕ) (ok : Bool)
  | hush (c : ℕ)
  | idle (c : ℕ) (stale : Bool)
  | readEnd (c : ℕ)
  | watcher (c : ℕ)
  | call (m : ℕ)
  | caller (m : ℕ) (ok : Bool)
  | receive (m : ℕ)
  | cancel (m : ℕ)
  | timeout (m : ℕ)
  | refresh

/-- One step. `GlobalRegistry` waits for a `Refresh` to end. -/
def System.step (s : System) : Label → Option System
  | .arrive c =>
      if (s.conns c).handler = .absent ∧ s.refresh = none then some (s.setConn c (.new s.current)) else none
  | .handler c ok => s.handler c ok
  | .tick c => (s.conns c).tick.map (s.setConn c)
  | .beat c ok => ((s.conns c).beat ok).map (s.setConn c)
  | .hush c => (s.conns c).hush.map (s.setConn c)
  | .idle c stale => ((s.conns c).idle stale).map (s.setConn c)
  | .readEnd c => (s.conns c).readEnd.map (s.setConn c)
  | .watcher c => s.watcher c
  | .call m =>
      if (s.calls m).progress = .absent ∧ s.refresh = none then some (s.setCall m ⟨s.current, .looking, none⟩) else none
  | .caller m ok => s.caller m ok
  | .receive m => s.receive m
  | .cancel m => s.cancel m
  | .timeout m => s.timeout m
  | .refresh => s.refreshStep

/-- The first registry, without any connection. -/
def System.init : System where
  registries _ := ⟨[], [], false, none⟩
  current := 0
  refresh := none
  conns _ := .absent
  calls _ := ⟨0, .absent, none⟩

end Reverse
