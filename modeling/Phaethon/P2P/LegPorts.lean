import Mathlib.Data.Int.Notation
import Mathlib.Data.Nat.Notation
import Mathlib.Logic.Function.Basic

/-!
# The ports of UDP legs

`src/p2p/udp_leg_registry.go`: `allocate` makes an endpoint with the next port of the range that nobody has, and
`release` gives a port back and closes its endpoint, which it does after it has given up the lock. Each call is one
step here, and calls come one after the other.
-/

namespace LegPorts

open Function

/-- `udpLegEndpoint`: its port, and whether `done` is closed. -/
structure Endpoint where
  port : ℤ
  closed : Bool

/-- `udpLegRegistry`, with the endpoints made so far; a pointer is an index in that list. -/
structure Registry where
  ports : ℤ → Option ℕ
  next : ℤ
  endpoints : List Endpoint

/-- From `udpLegPortMin` to `udpLegPortMax`. -/
abbrev InRange (port : ℤ) : Prop := 40000 ≤ port ∧ port ≤ 40999

def newUDPLegRegistry : Registry := ⟨fun _ => none, 40000, []⟩

namespace Registry

variable (r : Registry)

/-- `r.next++`, from `udpLegPortMax` back to `udpLegPortMin`. -/
def advance : Registry := { r with next := if r.next + 1 > 40999 then 40000 else r.next + 1 }

/-- The loop of `allocate`, `n` rounds at most. -/
def search : ℕ → Registry → Option ℕ × Registry
  | 0, r => (none, r)
  | n + 1, r =>
      if (r.ports r.next).isSome then search n r.advance
      else
        let ep := r.endpoints.length
        (some ep, { r.advance with
          ports := update r.ports r.next (some ep)
          endpoints := r.endpoints ++ [⟨r.next, false⟩] })

/-- `(*udpLegRegistry).allocate`. -/
def allocate : Option ℕ × Registry := r.search 1000

/-- `(*udpLegRegistry).release`. -/
def release (port : ℤ) : Registry :=
  match r.ports port with
  | some ep => { r with
      ports := update r.ports port none
      endpoints := r.endpoints.modify ep fun e => { e with closed := true } }
  | none => r

/-- A call of the registry. -/
inductive Call where
  | allocate
  | release (port : ℤ)

def call : Call → Registry
  | .allocate => r.allocate.2
  | .release port => r.release port

/-- The endpoint has the port, and is not closed. -/
def Owns (ep : ℕ) (port : ℤ) : Prop := r.endpoints[ep]? = some ⟨port, false⟩

/-- The endpoint was made with a port of the range that nobody had. -/
def Granted (ep : ℕ) (r' : Registry) : Prop :=
  ∃ port, InRange port ∧ r'.Owns ep port ∧ ∀ ep', ¬ r.Owns ep' port

/-- No two endpoints have the same port, and `allocate` fails exactly if every port of the range has an owner. -/
structure Sound : Prop where
  exclusive : ∀ {port ep ep'}, r.Owns ep port → r.Owns ep' port → ep = ep'
  fails_iff : r.allocate.1 = none ↔ ∀ port, InRange port → ∃ ep, r.Owns ep port
  granted : ∀ ep, r.allocate.1 = some ep → r.Granted ep r.allocate.2

/-- The map has the endpoints that are not closed, and the cursor is in the range. -/
structure Kept : Prop where
  owner : ∀ port ep, r.ports port = some ep ↔ r.Owns ep port
  cursor : InRange r.next

variable {r} (h : r.Kept)

include h

theorem Kept.advance : r.advance.Kept := by
  refine ⟨h.owner, ?_⟩
  have := h.cursor
  dsimp only [Registry.advance]
  split <;> omega

/-- A search passes ports that have an owner, from the cursor on, or grants one that has none. -/
theorem Kept.search (n : ℕ) : (r.search n).2.Kept ∧
    ((r.search n).1 = none → ∀ port, InRange port → (port - r.next) % 1000 < n → ∃ ep, r.Owns ep port) ∧
    ∀ ep, (r.search n).1 = some ep → r.Granted ep (r.search n).2 := by
  induction n generalizing r with
  | zero => exact ⟨h, fun _ port _ hlt => by omega, nofun⟩
  | succ n ih =>
    by_cases hused : (r.ports r.next).isSome
    · obtain ⟨hkept, hpassed, hgranted⟩ := ih h.advance
      rw [Registry.search, if_pos hused]
      refine ⟨hkept, fun hnone port hport hlt => ?_, hgranted⟩
      by_cases hnext : port = r.next
      · obtain ⟨ep, hep⟩ := Option.isSome_iff_exists.mp hused
        exact ⟨ep, hnext ▸ (h.owner _ ep).mp hep⟩
      · refine hpassed hnone port hport ?_
        have := h.cursor
        dsimp only [Registry.advance]
        split <;> omega
    · have hfree : r.ports r.next = none := Option.not_isSome_iff_eq_none.mp hused
      rw [Registry.search, if_neg hused]
      refine ⟨⟨fun port ep => ?_, h.advance.cursor⟩, nofun, fun ep hep => ⟨r.next, h.cursor, ?_, fun ep' hep' => ?_⟩⟩
      · have := h.owner port ep
        grind [Owns, update_apply]
      · cases hep
        simp [Owns]
      · simp [(h.owner _ _).mpr hep'] at hfree

theorem Kept.release (port : ℤ) : (r.release port).Kept := by
  unfold Registry.release
  split
  case h_1 ep hport =>
    refine ⟨fun p e => ?_, h.cursor⟩
    have := h.owner p e
    have := (h.owner port ep).mp hport
    grind [Owns, update_apply]
  case h_2 => exact h

theorem Kept.run (calls : List Call) : (calls.foldl call r).Kept := by
  induction calls generalizing r with
  | nil => exact h
  | cons c calls ih =>
    cases c with
    | allocate => exact ih (h.search 1000).1
    | release port => exact ih (h.release port)

end Registry

/-- Whatever ports were allocated and released, in whatever order. -/
theorem sound_after_calls (calls : List Registry.Call) : (calls.foldl .call newUDPLegRegistry).Sound := by
  have h : (calls.foldl .call newUDPLegRegistry).Kept :=
    Registry.Kept.run ⟨by simp [newUDPLegRegistry, Registry.Owns], by decide⟩ calls
  obtain ⟨-, hpassed, hgranted⟩ := h.search 1000
  refine ⟨fun hep hep' => ?_, ⟨fun hnone port hport => hpassed hnone port hport (by omega), fun hall => ?_⟩, hgranted⟩
  · exact Option.some.inj (((h.owner _ _).mpr hep).symm.trans ((h.owner _ _).mpr hep'))
  · refine Option.eq_none_iff_forall_ne_some.mpr fun ep hep => ?_
    obtain ⟨port, hport, -, hfree⟩ := hgranted ep hep
    exact (hall port hport).elim hfree

end LegPorts
