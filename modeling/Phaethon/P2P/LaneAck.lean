import Phaethon.Common.Cumulative
import Phaethon.Common.Lts
import Phaethon.Common.SocksAddr
import Phaethon.P2P.LaneFlow

/-!
# Lane acknowledgements between two ends

`src/p2p/lane_flow.go`, `sendLaneAcks` and `handleLaneAck`, with the places of `src/p2p/stripe_transport.go` that
count bytes (`onSent` after the write, `onRecv` on arrival). One end sends on a fixed set of lanes, the other
reports what it received. A report visits the lanes one after the other and is then sent as one control frame,
which may fail; reports arrive in order.
-/

namespace Lane

open Function List LaneFlow SocksAddr Lts

open SocksAddr (toBytes ofBytes)

/-! ## Wire format -/

/-- `laneAckEntry`. -/
structure LaneAckEntry where
  laneID : UInt32
  rx : ℕ
  deriving DecidableEq, Repr

/-- `laneAckMaxEntries`. -/
def laneAckMaxEntries : ℕ := 64

/-- `laneAckEntrySize`. -/
def laneAckEntrySize : ℕ := 12

/-- `encodeLaneAck`. -/
def encodeLaneAck (entries : List LaneAckEntry) : List UInt8 :=
  entries.flatMap fun e => toBytes 4 e.laneID.toNat ++ toBytes 8 e.rx

/-- `decodeLaneAck`. -/
def decodeLaneAck (p : List UInt8) : List LaneAckEntry :=
  (List.range (p.length / laneAckEntrySize)).map fun i =>
    ⟨UInt32.ofNat (ofBytes ((p.drop (i * laneAckEntrySize)).take 4)),
      ofBytes ((p.drop (i * laneAckEntrySize + 4)).take 8)⟩

/-- The decoder takes one entry after the other. -/
theorem decodeLaneAck_append {id rx : List UInt8} (hid : id.length = 4) (hrx : rx.length = 8) (p : List UInt8) :
    decodeLaneAck (id ++ rx ++ p) = ⟨UInt32.ofNat (ofBytes id), ofBytes rx⟩ :: decodeLaneAck p := by
  have hlen : (id ++ rx).length = laneAckEntrySize := by rw [length_append, hid, hrx]; rfl
  have hcount : (id ++ rx ++ p).length / laneAckEntrySize = p.length / laneAckEntrySize + 1 := by
    rw [length_append, hlen, Nat.add_comm]
    exact Nat.add_div_right _ (by decide)
  have hskip (i k : ℕ) : (id ++ rx ++ p).drop ((i + 1) * laneAckEntrySize + k) =
      p.drop (i * laneAckEntrySize + k) := by
    rw [show (i + 1) * laneAckEntrySize + k = (id ++ rx).length + (i * laneAckEntrySize + k) by
      rw [hlen]; ring, drop_length_add_append]
  rw [decodeLaneAck, hcount, range_succ_eq_map, map_cons, map_map]
  congr 1
  · simp [drop_append, hid, hrx]
  · exact map_congr_left fun i _ => by
      simp only [comp_apply, Nat.succ_eq_add_one, hskip]
      rw [← Nat.add_zero ((i + 1) * laneAckEntrySize), hskip, Nat.add_zero]

theorem decodeLaneAck_encodeLaneAck {entries : List LaneAckEntry} (h : ∀ e ∈ entries, e.rx < 2 ^ 64) :
    decodeLaneAck (encodeLaneAck entries) = entries := by
  induction entries with
  | nil => rfl
  | cons e entries ih =>
    have hrx : e.rx < 256 ^ 8 := h e (by simp)
    have hid : e.laneID.toNat < 256 ^ 4 := e.laneID.toNat_lt
    rw [encodeLaneAck, flatMap_cons, ← encodeLaneAck,
      decodeLaneAck_append (length_toBytes ..) (length_toBytes ..),
      ih fun e he => h e (mem_cons_of_mem _ he), ofBytes_toBytes, ofBytes_toBytes,
      Nat.mod_eq_of_lt hid, Nat.mod_eq_of_lt hrx, UInt32.ofNat_toNat]

/-! ## The two ends -/

/-- Both ends of a session and what is between them. `wire` holds the sizes of the payloads that were
written on each lane and not read yet, and `uncounted` those whose `onSent` is still to come. -/
structure Ends where
  sender : UInt32 → LaneFlow
  receiver : UInt32 → LaneFlow
  wire : UInt32 → List ℕ
  uncounted : UInt32 → List ℕ
  /-- The lanes that `sendLaneAcks` has yet to visit, and its entries. -/
  report : Option (List UInt32 × List LaneAckEntry)
  /-- The payloads of the reports that were sent and not processed. -/
  acks : List (List UInt8)

/-- Who moves. -/
inductive Move where
  | write (lane : UInt32) (n : ℕ)
  | count (lane : UInt32) (i : ℕ) (now : ℤ)
  | receive (lane : UInt32)
  | tick
  | add
  | send (ok : Bool)
  | ack (now : ℤ)
  deriving DecidableEq, Repr

/-- The closure `add` of `sendLaneAcks`. -/
def addEntry (id : UInt32) (f : LaneFlow) (entries : List LaneAckEntry) : LaneFlow × List LaneAckEntry :=
  ({ f with rxReported := f.rx },
    if f.rx ≠ f.rxReported ∧ entries.length < laneAckMaxEntries then entries ++ [⟨id, f.rx⟩] else entries)

/-- One entry in `handleLaneAck`, with `flowByID`: that of an unknown lane is passed over. -/
def ackEntry (lanes : List UInt32) (now : ℤ) (flows : UInt32 → LaneFlow) (e : LaneAckEntry) :
    UInt32 → LaneFlow :=
  if e.laneID = 0 ∨ e.laneID ∈ lanes then
    update flows e.laneID ((flows e.laneID).onAck e.rx now)
  else flows

/-- `handleLaneAck`. -/
def handleLaneAck (lanes : List UInt32) (flows : UInt32 → LaneFlow) (payload : List UInt8) (now : ℤ) :
    UInt32 → LaneFlow :=
  (decodeLaneAck payload).foldl (ackEntry lanes now) flows

namespace Ends

/-- A new session. -/
def init : Ends where
  sender _ := .zero
  receiver _ := .zero
  wire _ := []
  uncounted _ := []
  report := none
  acks := []

/-- One move, with the primary lane `0` and the attached `lanes`. -/
def step (lanes : List UInt32) (s : Ends) : Move → Option Ends
  | .write lane n =>
      if lane = 0 ∨ lane ∈ lanes then
        some
          { s with
            wire := update s.wire lane (s.wire lane ++ [n])
            uncounted := update s.uncounted lane (s.uncounted lane ++ [n]) }
      else none
  | .count lane i now =>
      match (s.uncounted lane)[i]? with
      | some n =>
          some
            { s with
              sender := update s.sender lane ((s.sender lane).onSent n now)
              uncounted := update s.uncounted lane ((s.uncounted lane).eraseIdx i) }
      | none => none
  | .receive lane =>
      match s.wire lane with
      | n :: rest =>
          some
            { s with
              receiver := update s.receiver lane ((s.receiver lane).onRecv n)
              wire := update s.wire lane rest }
      | [] => none
  | .tick =>
      match s.report with
      | none => some { s with report := some (0 :: lanes, []) }
      | some _ => none
  | .add =>
      match s.report with
      | some (id :: rest, entries) =>
          some
            { s with
              receiver := update s.receiver id (addEntry id (s.receiver id) entries).1
              report := some (rest, (addEntry id (s.receiver id) entries).2) }
      | _ => none
  | .send ok =>
      match s.report with
      | some ([], entries) =>
          some
            { s with
              report := none
              acks := if entries ≠ [] ∧ ok then s.acks ++ [encodeLaneAck entries] else s.acks }
      | _ => none
  | .ack now =>
      match s.acks with
      | payload :: rest => some { s with sender := handleLaneAck lanes s.sender payload now, acks := rest }
      | [] => none

variable (s : Ends)

/-- The numbers of one lane. -/
def account (lane : UInt32) : Cumulative.Account where
  tx := (s.sender lane).tx
  uncounted := (s.uncounted lane).sum
  acked := (s.sender lane).acked
  rx := (s.receiver lane).rx
  reported := (s.receiver lane).rxReported
  coming := (s.wire lane).sum

/-- The lanes and the entries of the report in progress. -/
def toVisit : List UInt32 := s.report.elim [] Prod.fst

/-- The entries of the report in progress. -/
def entries : List LaneAckEntry := s.report.elim [] Prod.snd

/-- The entries that the sender is yet to process. -/
def pending : List LaneAckEntry := s.entries ++ s.acks.flatMap decodeLaneAck

end Ends

/-! ## Convergence -/

/-- Nothing is lost that no later report makes up for: the entries of a report whose sending fails, a changed
lane for which a report has no room, and a total ahead of the sender's own count are all followed by another
total of that lane. And the counters do not wrap. -/
def Orderly (s : Ends) : Move → Prop
  | .write lane n => (s.sender lane).tx + (s.uncounted lane).sum + n < 2 ^ 64
  | .add =>
      ∀ id ∈ s.toVisit.take 1,
        s.entries.length < laneAckMaxEntries ∨ (s.receiver id).rx = (s.receiver id).rxReported ∨
          (s.wire id).sum ≠ 0
  | .send ok => ok = true ∨ ∀ e ∈ s.entries, (s.account e.laneID).MoreToReport
  | .ack _ =>
      ∀ payload ∈ s.acks.take 1, ∀ e ∈ decodeLaneAck payload,
        e.rx ≤ (s.sender e.laneID).tx ∨ (s.account e.laneID).MoreToReport
  | _ => True

instance (s : Ends) : ∀ m, Decidable (Orderly s m)
  | .write .. => inferInstanceAs (Decidable (_ < _))
  -- named: lane ids are finitely many, and the search could find the instance that goes through them all
  | .add => decidableBAll (fun id => _ ∨ _ ∨ (s.wire id).sum ≠ 0) (s.toVisit.take 1)
  | .send _ => inferInstanceAs (Decidable (_ ∨ _))
  | .ack _ => inferInstanceAs (Decidable (∀ payload ∈ s.acks.take 1, ∀ e ∈ decodeLaneAck payload, _ ∨ _))
  | .count .. | .receive _ | .tick => .isTrue trivial

/-- If all bytes have been received when a report starts, none is written after that, every later report is
sent and processed, and every write is counted, then nothing is in flight on any lane. -/
def Converges (lanes : List UInt32) (ms : List Move) : Prop :=
  ∀ before later s u, ms = before ++ .tick :: later →
    exec (Ends.step lanes) .init before = some s → exec (Ends.step lanes) s (.tick :: later) = some u →
      (∀ lane, (s.wire lane).sum = 0) → (∀ lane n, .write lane n ∉ later) → .send false ∉ later →
        u.report = none → u.acks = [] → (∀ lane, u.uncounted lane = []) →
          ∀ lane, lane = 0 ∨ lane ∈ lanes → (u.sender lane).backlog = 0

/-- The totals of a lane among some entries. -/
def totals (entries : List LaneAckEntry) (lane : UInt32) : Set ℕ := {r | ⟨lane, r⟩ ∈ entries}

namespace Ends

open Cumulative

variable {lanes : List UInt32} {s t : Ends}

/-- The inductive invariant: every lane is covered. -/
structure Inv (lanes : List UInt32) (s : Ends) : Prop where
  bound : ∀ lane, (s.sender lane).tx + (s.uncounted lane).sum < 2 ^ 64
  covered : ∀ lane, Covered (s.account lane) (totals s.pending lane)
  known : ∀ e ∈ s.pending, e.laneID = 0 ∨ e.laneID ∈ lanes
  visits : ∀ id ∈ s.toVisit, id = 0 ∨ id ∈ lanes

theorem Inv.init : Inv lanes .init where
  bound _ := by simp [Ends.init, zero]
  covered _ := by
    refine ⟨rfl, le_rfl, le_rfl, ?_, .inr (.inr rfl)⟩
    simp [totals, pending, entries, Ends.init]
  known := by simp [pending, entries, Ends.init]
  visits := by simp [toVisit, Ends.init]

section

variable (h : s.Inv lanes)

include h

theorem Inv.write {lane : UInt32} {n : ℕ} (hok : Orderly s (.write lane n))
    (ht : s.step lanes (.write lane n) = some t) : t.Inv lanes := by
  simp only [step, Option.ite_none_right_eq_some, Option.some.injEq] at ht
  obtain ⟨-, rfl⟩ := ht
  refine { h with bound := fun l => ?_, covered := fun l => ?_ }
  · by_cases hl : l = lane
    · subst hl
      simpa [Orderly, Nat.add_assoc] using hok
    · simpa [hl] using h.bound l
  · by_cases hl : l = lane
    · subst hl
      simpa [account, totals, pending, entries] using (h.covered l).send n
    · simpa [account, hl, totals, pending, entries] using h.covered l

theorem Inv.count {lane : UInt32} {i : ℕ} {now : ℤ}
    (ht : s.step lanes (.count lane i now) = some t) : t.Inv lanes := by
  simp only [step] at ht
  split at ht
  case h_2 => simp at ht
  case h_1 n hn =>
    cases ht
    have hsum : (s.uncounted lane).sum = n + ((s.uncounted lane).eraseIdx i).sum := by
      obtain ⟨hi, rfl⟩ := List.getElem?_eq_some_iff.mp hn
      exact (getElem_cons_eraseIdx_perm hi).sum_nat.symm
    have htx : ((s.sender lane).onSent n now).tx = (s.sender lane).tx + n := by
      have := h.bound lane
      rw [tx_onSent, Nat.mod_eq_of_lt (by omega)]
    refine { h with bound := fun l => ?_, covered := fun l => ?_ }
    · by_cases hl : l = lane
      · subst hl
        have := h.bound l
        simp only [update_self, htx]
        omega
      · simpa [hl] using h.bound l
    · by_cases hl : l = lane
      · subst hl
        have hcount := (h.covered l).count hsum
        simpa [account, totals, pending, entries, htx, acked_onSent] using hcount
      · simpa [account, hl, totals, pending, entries] using h.covered l

theorem Inv.receive {lane : UInt32} (ht : s.step lanes (.receive lane) = some t) : t.Inv lanes := by
  simp only [step] at ht
  split at ht
  case h_2 => simp at ht
  case h_1 n rest hwire =>
    cases ht
    have hsum : (s.wire lane).sum = n + rest.sum := by rw [hwire, List.sum_cons]
    have hrx : ((s.receiver lane).onRecv n).rx = (s.receiver lane).rx + n := by
      have hbound := h.bound lane
      have hunits := (h.covered lane).units
      simp only [account] at hunits
      rw [onRecv, Nat.mod_eq_of_lt (by omega)]
    refine { h with covered := fun l => ?_ }
    by_cases hl : l = lane
    · subst hl
      have hreceive := (h.covered l).receive hsum
      have hreported : ((s.receiver l).onRecv n).rxReported = (s.receiver l).rxReported := rfl
      simpa [account, totals, pending, entries, hrx, hreported] using hreceive
    · simpa [account, hl, totals, pending, entries] using h.covered l

theorem Inv.tick (ht : s.step lanes .tick = some t) : t.Inv lanes := by
  simp only [step] at ht
  split at ht
  case h_2 => simp at ht
  case h_1 hidle =>
    cases ht
    have hpending : pending { s with report := some (0 :: lanes, []) } = s.pending := by
      simp [pending, entries, hidle]
    refine { h with covered := fun l => ?_, known := hpending ▸ h.known, visits := ?_ }
    · rw [hpending]
      exact h.covered l
    · simp [toVisit]

end

theorem mem_addEntry {id : UInt32} {f : LaneFlow} {entries : List LaneAckEntry} {e : LaneAckEntry} :
    e ∈ (addEntry id f entries).2 ↔
      e ∈ entries ∨ (f.rx ≠ f.rxReported ∧ entries.length < laneAckMaxEntries) ∧ e = ⟨id, f.rx⟩ := by
  unfold addEntry
  split
  case isTrue hnew => simp [hnew]
  case isFalse hnew => simp [hnew]

theorem Inv.add (h : s.Inv lanes) (hok : Orderly s .add) (ht : s.step lanes .add = some t) : t.Inv lanes := by
  simp only [step] at ht
  split at ht
  case h_2 => simp at ht
  case h_1 id rest entries hreport =>
    cases ht
    have hentries : s.entries = entries := by simp [Ends.entries, hreport]
    have hvisit : s.toVisit = id :: rest := by simp [toVisit, hreport]
    have hknown : id = 0 ∨ id ∈ lanes := h.visits id (by simp [hvisit])
    -- An entry that is pending now was pending before, or is the one added.
    have hmem (e : LaneAckEntry) :
        e ∈ (addEntry id (s.receiver id) entries).2 ++ s.acks.flatMap decodeLaneAck ↔
          e ∈ s.pending ∨
            ((s.receiver id).rx ≠ (s.receiver id).rxReported ∧ entries.length < laneAckMaxEntries) ∧
              e = ⟨id, (s.receiver id).rx⟩ := by
      rw [mem_append, mem_addEntry, pending, hentries, mem_append]
      tauto
    refine ⟨h.bound, fun l => ?_, fun e he => ?_, fun l hl => h.visits l ?_⟩
    · by_cases hl : l = id
      · subst hl
        have hreport : Covered { s.account l with reported := (s.account l).rx }
            (totals ((addEntry l (s.receiver l) entries).2 ++ s.acks.flatMap decodeLaneAck) l) := by
          refine (h.covered l).report (fun r hr => (hmem _).mpr (.inl hr)) (fun r hr => ?_) fun hchanged => ?_
          · refine ((hmem _).mp hr).imp_right fun hnew => ?_
            exact congrArg LaneAckEntry.rx hnew.2
          · rcases hok l (by simp [hvisit]) with hroom | hsame | hcoming
            · exact .inl ((hmem _).mpr (.inr ⟨⟨hchanged, hentries ▸ hroom⟩, rfl⟩))
            · exact absurd hsame hchanged
            · exact .inr hcoming
        simpa [account, addEntry, pending, Ends.entries] using hreport
      · have hsame : totals ((addEntry id (s.receiver id) entries).2 ++ s.acks.flatMap decodeLaneAck) l =
            totals s.pending l := by
          refine Set.ext fun r => (hmem _).trans (or_iff_left fun hnew => hl ?_)
          exact congrArg LaneAckEntry.laneID hnew.2
        have hother := h.covered l
        rw [← hsame] at hother
        simpa [account, hl, pending, Ends.entries] using hother
    · rcases (hmem e).mp he with hold | ⟨-, rfl⟩
      · exact h.known e hold
      · exact hknown
    · rw [hvisit]
      exact mem_cons_of_mem _ hl

theorem Inv.send (h : s.Inv lanes) {ok : Bool} (hok : Orderly s (.send ok))
    (ht : s.step lanes (.send ok) = some t) : t.Inv lanes := by
  simp only [step] at ht
  split at ht
  case h_2 => simp at ht
  case h_1 entries hreport =>
    cases ht
    have hentries : s.entries = entries := by simp [Ends.entries, hreport]
    have hpending : s.pending = entries ++ s.acks.flatMap decodeLaneAck := by rw [pending, hentries]
    split
    case isTrue hsent =>
      have hfit : ∀ e ∈ entries, e.rx < 2 ^ 64 := by
        intro e he
        have hcovered := h.covered e.laneID
        have hle : e.rx ≤ (s.receiver e.laneID).rx :=
          hcovered.onWay_le e.rx (hpending ▸ mem_append_left _ he)
        have hunits := hcovered.units
        have hbound := h.bound e.laneID
        simp only [account] at hunits
        omega
      have hmem (e : LaneAckEntry) :
          e ∈ (s.acks ++ [encodeLaneAck entries]).flatMap decodeLaneAck ↔ e ∈ s.pending := by
        rw [flatMap_append, flatMap_singleton, decodeLaneAck_encodeLaneAck hfit, hpending,
          mem_append, mem_append, or_comm]
      refine ⟨h.bound, fun l => ?_, fun e he => h.known e ((hmem e).mp he), by simp [toVisit]⟩
      have hsame : totals ((s.acks ++ [encodeLaneAck entries]).flatMap decodeLaneAck) l = totals s.pending l :=
        Set.ext fun r => hmem _
      have hcovered := h.covered l
      rw [← hsame] at hcovered
      exact hcovered
    case isFalse hlost =>
      have hsub : s.acks.flatMap decodeLaneAck ⊆ s.pending := fun e he => hpending ▸ mem_append_right _ he
      refine ⟨h.bound, fun l => ?_, fun e he => h.known e (hsub he), by simp [toVisit]⟩
      by_cases hentry : ∃ e ∈ entries, e.laneID = l
      · obtain ⟨e, he, rfl⟩ := hentry
        have hfailed : ok ≠ true := fun htrue => hlost ⟨ne_nil_of_mem he, htrue⟩
        have hmore := (hok.resolve_left hfailed) e (hentries ▸ he)
        exact (h.covered e.laneID).lose (fun r hr => hsub hr) hmore
      · have hsame : totals (s.acks.flatMap decodeLaneAck) l = totals s.pending l := by
          rw [hpending]
          refine Set.ext fun r => (mem_append.trans (or_iff_right fun he => hentry ⟨_, he, rfl⟩)).symm
        have hcovered := h.covered l
        rw [← hsame] at hcovered
        exact hcovered

variable (flows : UInt32 → LaneFlow)

theorem tx_ackEntry (now : ℤ) (e : LaneAckEntry) (l : UInt32) :
    (ackEntry lanes now flows e l).tx = (flows l).tx := by
  unfold ackEntry
  split
  · by_cases hl : l = e.laneID
    · subst hl
      rw [update_self, tx_onAck]
    · rw [update_of_ne hl]
  · rfl

theorem tx_foldl_ackEntry (now : ℤ) (es : List LaneAckEntry) (l : UInt32) :
    (es.foldl (ackEntry lanes now) flows l).tx = (flows l).tx := by
  induction es generalizing flows with
  | nil => rfl
  | cons e es ih => rw [foldl_cons, ih, tx_ackEntry]

/-- Processing one entry keeps every lane covered. -/
theorem covered_ackEntry {flows : UInt32 → LaneFlow} {now : ℤ} {e : LaneAckEntry} {others : List LaneAckEntry}
    (h : ∀ l, Covered (account { s with sender := flows } l) (totals (e :: others) l))
    (hknown : e.laneID = 0 ∨ e.laneID ∈ lanes)
    (hcount : e.rx ≤ (flows e.laneID).tx ∨ (s.account e.laneID).MoreToReport) (l : UInt32) :
    Covered (account { s with sender := ackEntry lanes now flows e } l) (totals others l) := by
  rw [ackEntry, if_pos hknown]
  by_cases hl : l = e.laneID
  · subst hl
    have hsub : totals others e.laneID ⊆ totals (e :: others) e.laneID := fun r hr => mem_cons_of_mem _ hr
    have hack := (h e.laneID).acknowledge (r := e.rx) mem_cons_self hsub
      (fun q hq => (mem_cons.mp hq).imp_left (congrArg LaneAckEntry.rx)) hcount
    simpa [account, tx_onAck, acked_onAck] using hack
  · have hsame : totals (e :: others) l = totals others l :=
      Set.ext fun r => mem_cons.trans (or_iff_right fun he => hl (congrArg LaneAckEntry.laneID he))
    simpa [account, hl] using hsame ▸ h l

/-- Processing a report, entry after entry. -/
theorem covered_foldl_ackEntry {flows : UInt32 → LaneFlow} {now : ℤ} {es others : List LaneAckEntry}
    (h : ∀ l, Covered (account { s with sender := flows } l) (totals (es ++ others) l))
    (hknown : ∀ e ∈ es, e.laneID = 0 ∨ e.laneID ∈ lanes)
    (hcount : ∀ e ∈ es, e.rx ≤ (flows e.laneID).tx ∨ (s.account e.laneID).MoreToReport) (l : UInt32) :
    Covered (account { s with sender := es.foldl (ackEntry lanes now) flows } l) (totals others l) := by
  induction es generalizing flows with
  | nil => exact h l
  | cons e es ih =>
    refine ih (covered_ackEntry h (hknown e (by simp)) (hcount e (by simp)))
      (fun e' he' => hknown e' (by simp [he'])) fun e' he' => ?_
    rw [tx_ackEntry]
    exact hcount e' (by simp [he'])

theorem Inv.ack (h : s.Inv lanes) {now : ℤ} (hok : Orderly s (.ack now))
    (ht : s.step lanes (.ack now) = some t) : t.Inv lanes := by
  simp only [step] at ht
  split at ht
  case h_2 => simp at ht
  case h_1 payload rest hacks =>
    cases ht
    have hmem (e : LaneAckEntry) :
        e ∈ s.pending ↔ e ∈ decodeLaneAck payload ++ (s.entries ++ rest.flatMap decodeLaneAck) := by
      simp only [pending, hacks, flatMap_cons, mem_append]
      tauto
    refine ⟨fun l => ?_, fun l => ?_, fun e he => h.known e ?_, h.visits⟩
    · rw [handleLaneAck, tx_foldl_ackEntry]
      exact h.bound l
    · refine covered_foldl_ackEntry (fun l => ?_) ?_ ?_ l
      · have hsame : totals s.pending l =
            totals (decodeLaneAck payload ++ (s.entries ++ rest.flatMap decodeLaneAck)) l :=
          Set.ext fun r => hmem _
        have hcovered := h.covered l
        rw [hsame] at hcovered
        exact hcovered
      · exact fun e he => h.known e ((hmem e).mpr (mem_append_left _ he))
      · exact hok payload (by simp [hacks])
    · exact (hmem e).mpr (mem_append_right _ he)

theorem Inv.step (h : s.Inv lanes) {m : Move} (hok : Orderly s m) (ht : s.step lanes m = some t) : t.Inv lanes := by
  cases m with
  | write lane n => exact h.write hok ht
  | count lane i now => exact h.count ht
  | receive lane => exact h.receive ht
  | tick => exact h.tick ht
  | add => exact h.add hok ht
  | send ok => exact h.send hok ht
  | ack now => exact h.ack hok ht

/-! ### After the last byte -/

/-- No bytes are coming, and the report in progress is the only one that can bring a new total. -/
structure Last (lanes : List UInt32) (s : Ends) : Prop where
  received : ∀ lane, (s.wire lane).sum = 0
  visited : ∀ lane, lane = 0 ∨ lane ∈ lanes →
    lane ∈ s.toVisit ∨ (s.receiver lane).rx = (s.receiver lane).rxReported

theorem Inv.rx_lt (h : s.Inv lanes) (lane : UInt32) : (s.receiver lane).rx < 2 ^ 64 := by
  have hbound := h.bound lane
  have hunits := (h.covered lane).units
  simp only [account] at hunits
  omega

theorem Last.step (h : s.Last lanes) (hinv : s.Inv lanes) {m : Move} (hquiet : ∀ lane n, m ≠ .write lane n)
    (ht : s.step lanes m = some t) : t.Last lanes := by
  cases m with
  | write lane n => exact absurd rfl (hquiet lane n)
  | count lane i now =>
    simp only [Ends.step] at ht
    split at ht
    case h_2 => simp at ht
    case h_1 n hn =>
      cases ht
      exact ⟨h.received, h.visited⟩
  | receive lane =>
    simp only [Ends.step] at ht
    split at ht
    case h_2 => simp at ht
    case h_1 n rest hwire =>
      cases ht
      have hzero := h.received lane
      rw [hwire, List.sum_cons] at hzero
      obtain ⟨rfl, hrest⟩ : n = 0 ∧ rest.sum = 0 := by omega
      have hrx : ((s.receiver lane).onRecv 0).rx = (s.receiver lane).rx := Nat.mod_eq_of_lt (hinv.rx_lt lane)
      refine ⟨fun l => ?_, fun l hl => (h.visited l hl).imp_right fun hsame => ?_⟩
      · by_cases hl : l = lane
        · subst hl
          simpa using hrest
        · simpa [hl] using h.received l
      · by_cases hl : l = lane
        · subst hl
          simp only [update_self, hrx]
          exact hsame
        · simpa [hl] using hsame
  | tick =>
    simp only [Ends.step] at ht
    split at ht
    case h_2 => simp at ht
    case h_1 hidle =>
      cases ht
      exact ⟨h.received, fun l hl => .inl (by simpa [toVisit] using hl)⟩
  | add =>
    simp only [Ends.step] at ht
    split at ht
    case h_2 => simp at ht
    case h_1 id rest entries hreport =>
      cases ht
      have hvisit : s.toVisit = id :: rest := by simp [toVisit, hreport]
      refine ⟨h.received, fun l hl => ?_⟩
      by_cases hid : l = id
      · subst hid
        exact .inr (by simp [addEntry])
      · refine (h.visited l hl).imp (fun hmem => ?_) fun hsame => by simpa [hid] using hsame
        rw [hvisit, mem_cons] at hmem
        exact hmem.resolve_left hid
  | send ok =>
    simp only [Ends.step] at ht
    split at ht
    case h_2 => simp at ht
    case h_1 entries hreport =>
      cases ht
      refine ⟨h.received, fun l hl => .inr ?_⟩
      exact (h.visited l hl).resolve_left (by simp [toVisit, hreport])
  | ack now =>
    simp only [Ends.step] at ht
    split at ht
    case h_2 => simp at ht
    case h_1 payload rest hacks =>
      cases ht
      exact ⟨h.received, h.visited⟩

end Ends

/-- In a run in which nothing is lost for good, the sender learns of every byte. -/
theorem converges_of_orderly (lanes : List UInt32) (ms : List Move)
    (horderly : Always (Ends.step lanes) Orderly .init ms) : Converges lanes ms := by
  rintro before later s u rfl hbefore hlater hreceived hwrites - hidle hacks hcounted lane hlane
  obtain ⟨t, htick, hlater⟩ := exec_cons_eq_some.mp hlater
  have hinv : s.Inv lanes :=
    exec_invariant (fun _ _ _ hs hok ht => hs.step hok ht) Ends.Inv.init horderly.append_left hbefore
  obtain ⟨-, hrest⟩ := horderly.append_right hbefore
  rw [htick] at hrest
  have hlast : t.Last lanes := by
    simp only [Ends.step] at htick
    split at htick
    case h_2 => simp at htick
    case h_1 =>
      cases htick
      exact ⟨hreceived, fun l hl => .inl (by simpa [Ends.toVisit] using hl)⟩
  have hquiet : ∀ m ∈ later, ∀ lane n, m ≠ .write lane n := by
    rintro m hm lane n rfl
    exact hwrites lane n hm
  have hstep (s : Ends) (m : Move) (t : Ends) (hs : s.Inv lanes ∧ s.Last lanes)
      (hok : Orderly s m ∧ ∀ lane n, m ≠ .write lane n) (ht : s.step lanes m = some t) :
      t.Inv lanes ∧ t.Last lanes :=
    ⟨hs.1.step hok.1 ht, hs.2.step hs.1 hok.2 ht⟩
  obtain ⟨hinv, hlast⟩ : u.Inv lanes ∧ u.Last lanes :=
    exec_invariant hstep ⟨hinv.tick htick, hlast⟩ (hrest.and_mem hquiet) hlater
  have hpending : u.pending = [] := by simp [Ends.pending, Ends.entries, hidle, hacks]
  have hreported : (u.receiver lane).rx = (u.receiver lane).rxReported :=
    (hlast.visited lane hlane).resolve_left (by simp [Ends.toVisit, hidle])
  have hacked : (u.sender lane).acked = (u.sender lane).tx := by
    refine (hinv.covered lane).settled (by simp [Ends.account, hcounted]) ?_ (by simp [totals, hpending])
    rintro (hchanged | hcoming)
    · exact hchanged hreported
    · exact hcoming (hlast.received lane)
  rw [backlog, hacked, Int.sub_self]
  rfl

/-- The report of the primary lane's 100 bytes is not sent, and the next one has nothing to tell. -/
def lostReport : List Move :=
  [.write 0 100, .count 0 0 1, .receive 0, .tick, .add, .send false, .tick, .add, .send true]

theorem lostReport_not_converges : ¬ Converges [] lostReport := by
  intro h
  have hreceived (lane : UInt32) :
      (update (update (fun _ => []) 0 [100]) 0 [] lane : List ℕ).sum = 0 := by
    by_cases hl : lane = 0 <;> simp [hl]
  have hcounted (lane : UInt32) :
      (update (update (fun _ => []) 0 [100]) 0 [] lane : List ℕ) = [] := by
    by_cases hl : lane = 0 <;> simp [hl]
  have hzero := h [.write 0 100, .count 0 0 1, .receive 0, .tick, .add, .send false] [.add, .send true] _ _
    rfl rfl rfl hreceived (by simp) (by simp) rfl rfl hcounted 0 (.inl rfl)
  exact absurd hzero (by decide)

/-- On two lanes, a report fails that a later one makes up for, and the total of the second lane arrives before
the sender has counted those bytes, while more are under way. -/
def madeUp : List Move :=
  [.write 0 100, .write 7 50, .receive 0, .tick, .add, .add, .write 0 20, .send false, .receive 0, .receive 7,
    .write 7 5, .tick, .add, .add, .send true, .count 0 1 1, .count 0 0 2, .ack 3, .count 7 0 4, .count 7 0 5,
    .receive 7, .tick, .add, .add, .send true, .ack 6]

theorem converges_of_orderly_madeUp : Always (Ends.step [7]) Orderly .init madeUp ∧ Converges [7] madeUp :=
  have horderly : Always (Ends.step [7]) Orderly .init madeUp := by decide +kernel
  ⟨horderly, converges_of_orderly [7] madeUp horderly⟩

end Lane
