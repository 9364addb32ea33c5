import Phaethon.Common.Lts
import Phaethon.Db.Matcher

/-!
# Periodic health checks

`startHealthChecks` and `checkGroupHealth` of `src/main.go`, with the part of `src/db` that a round runs
into. A round writes to the group object that was in the matcher when the checks were started. At its
end it stores the group, and the store notifies the matcher, which puts a freshly loaded object in place
of its own. The objects of one name are therefore told apart (`Obj`).
-/

namespace Health

open Config Function

/-- A health map; `nil` and an empty one read the same. -/
abbrev HealthMap := String → Option HealthStatus

/-- A group object: the one the matcher was built with, or one that a notification loaded. -/
inductive Obj where
  | built (name : String)
  | reloaded (n : ℕ)
  deriving DecidableEq, Repr

/-- The objects in the matcher's table, the health map of each object (`none` is a nil map) and the
number of notifications so far. -/
structure State where
  live : String → Obj
  health : Obj → Option HealthMap
  reloads : ℕ

/-- The result of one check. -/
structure Result where
  key : String
  alive : Bool
  latency : ℤ
  deriving DecidableEq, Repr

/-- One round: the group, the results of the probes in the order in which they came in (a probe that got
no slot in time is recorded as failed), and whether the group was stored. -/
structure Round where
  group : String
  probed : List Result
  persisted : Bool
  deriving DecidableEq, Repr

/-! ## A round -/

/-- What the first loop of `checkGroupHealth` decides about a member: a result, or a probe. -/
inductive Plan where
  | settled (alive : Bool)
  | probe
  deriving DecidableEq, Repr

/-- The tables of a group that was loaded without its lookup functions. -/
def barePool : Pool Proxy := .ofProxies (fun _ => none) rfl

/-- A proxy of a built-in type is not probed. -/
def planProxy (p : Option Proxy) : Plan :=
  match p with
  | none => .settled false
  | some p =>
      if Text.equalFold p.type "DIRECT" ∨ Text.equalFold p.type "REJECT" then .settled true else .probe

variable (pool : Pool Proxy)

variable (g : ProxyGroup)

/-- The first loop of `checkGroupHealth`. A nested group comes straight from the database. -/
def planMember (m : GroupMember) : Plan :=
  if m.isGroup then
    match pool.groups m.name with
    | none => .settled false
    | some inner => planProxy ((nextWithVisited barePool default 1 inner ⟨[], fun _ => 0⟩).1.map (·.1))
  else planProxy ((resolveMember pool g m).map (·.1))

/-- The results that need no probe. -/
def settledResults : List Result :=
  (computeMembers pool g).filterMap fun m =>
    match planMember pool g m with
    | .settled alive => some ⟨m.healthKey, alive, 0⟩
    | .probe => none

/-- The health keys of the members to probe. -/
def probeKeys : List String :=
  (computeMembers pool g).filterMap fun m =>
    if planMember pool g m = .probe then some m.healthKey else none

/-- `SetHealth`, for one result. -/
def record (h : HealthMap) (r : Result) : HealthMap :=
  (setHealth h r.key r.alive r.latency).1

/-- The results of a round, in the order in which they are recorded. -/
def roundResults (pool : Pool Proxy) (r : Round) : List Result :=
  match pool.groups r.group with
  | none => []
  | some g => settledResults pool g ++ r.probed

/-- `onConfigChange` for a stored group: a fresh object, without a health map, takes its place. -/
def State.reload (s : State) (name : String) : State where
  live := update s.live name (.reloaded s.reloads)
  health := update s.health (.reloaded s.reloads) none
  reloads := s.reloads + 1

/-- `checkGroupHealth` on the object that `startHealthChecks` took from the matcher. There is no step
for a group that is not checked, for probes other than the round's, and for a write to a nil map. -/
def step (pool : Pool Proxy) (interval : String → Bool) (s : State) (r : Round) : Option State :=
  match pool.groups r.group, s.health (.built r.group) with
  | some g, some h =>
      if g.enabled ∧ interval r.group ∧ (r.probed.map (·.key)).isPerm (probeKeys pool g) then
        let s := { s with
          health := update s.health (.built r.group)
            (some ((roundResults pool r).foldl record h)) }
        some (if r.persisted then s.reload r.group else s)
      else none
  | _, _ => none

/-- The matcher as it was built: `Init` gives the enabled groups an empty health map. -/
def start (pool : Pool Proxy) : State where
  live := .built
  health
    | .built name => if (pool.groups name).any (·.enabled) then some fun _ => none else none
    | .reloaded _ => none
  reloads := 0

/-- The health map that `ResolveMatch` consults for a group. -/
def liveHealth (s : State) (name : String) : HealthMap := fun key =>
  (s.health (s.live name)).bind (· key)

end Health
