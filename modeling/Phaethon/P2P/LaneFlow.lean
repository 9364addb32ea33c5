import Phaethon.Common.RingBuffer

/-!
# Flow accounting of one lane

`src/p2p/lane_flow.go`, `laneFlow`: the sender counts the payload bytes it wrote on a lane, the peer reports
how many it read, and the difference is what is in flight. Counters are `uint64`, so sums and differences
wrap. An instant is a number of nanoseconds from Go's zero time, and a difference of instants saturates as
`Time.Sub` does. Each call is one step.
-/

namespace Lane

open List RingBuffer Float

/-! ## The record -/

/-- `Time.Sub`. -/
def since (now t : ℤ) : ℤ := max (-2 ^ 63) (min (now - t) (2 ^ 63 - 1))

/-- `Duration.Seconds`. -/
def seconds (d : ℤ) : Float := ofInt (d.tdiv (10 ^ 9)) + ofInt (d.tmod (10 ^ 9)) / 1e9

/-- `laneRTTSampleGap`. -/
def laneRTTSampleGap : ℤ := 10 * 10 ^ 6

/-- `laneRTTRingCap`. -/
def laneRTTRingCap : ℕ := 256

/-- `laneRateWindow`. -/
def laneRateWindow : ℤ := 200 * 10 ^ 6

/-- `laneMinRTTBucket`. -/
def laneMinRTTBucket : ℤ := 60 * 10 ^ 9

/-- `laneMinRTTBuckets`. -/
def laneMinRTTBuckets : ℕ := 10

/-- `laneCapInitial`. -/
def laneCapInitial : ℤ := 256 * 2 ^ 10

/-- `laneCapMin`. -/
def laneCapMin : ℤ := 64 * 2 ^ 10

/-- `laneCapMax`. -/
def laneCapMax : ℤ := 8 * 2 ^ 20

/-- `laneQDTarget`. -/
def laneQDTarget : ℤ := 200 * 10 ^ 6

/-- `laneCapAdjustInterval`. -/
def laneCapAdjustInterval : ℤ := 200 * 10 ^ 6

/-- `laneNegQDResetRounds`. -/
def laneNegQDResetRounds : ℕ := 25

/-- `laneStallTimeout`. -/
def laneStallTimeout : ℤ := 10 * 10 ^ 9

/-- `laneTxSample`. -/
structure LaneTxSample where
  time : ℤ
  tx : ℕ
  deriving DecidableEq, Repr

/-- `laneFlow`. -/
structure LaneFlow where
  tx : ℕ
  rx : ℕ
  acked : ℕ
  gated : Bool
  samples : RingBuffer LaneTxSample laneRTTRingCap
  lastSample : ℤ
  srtt : ℤ
  lastRTT : ℤ
  minBuckets : List ℤ
  minBucketAt : ℤ
  rate : Float
  rateAcked : ℕ
  rateAt : ℤ
  lastAckAt : ℤ
  rxReported : ℕ
  capVal : ℤ
  lastAdjustAt : ℤ
  negQDRounds : ℕ
  ackedAdvancedAt : ℤ
  stallWarnedAt : ℤ

namespace LaneFlow

/-- Go's zero value of `laneFlow`. -/
def zero : LaneFlow where
  tx := 0
  rx := 0
  acked := 0
  gated := false
  samples := ⟨fun _ => ⟨0, 0⟩, ⟨0, by decide⟩, 0, Nat.zero_le _⟩
  lastSample := 0
  srtt := 0
  lastRTT := 0
  minBuckets := List.replicate laneMinRTTBuckets 0
  minBucketAt := 0
  rate := 0
  rateAcked := 0
  rateAt := 0
  lastAckAt := 0
  rxReported := 0
  capVal := 0
  lastAdjustAt := 0
  negQDRounds := 0
  ackedAdvancedAt := 0
  stallWarnedAt := 0

/-! ## The calls -/

variable (f : LaneFlow)

/-- `int64(tx - acked)`, the bytes in flight. -/
def backlog : ℤ := Int.bmod ((f.tx : ℤ) - f.acked) (2 ^ 64)

/-- `inflight`, `none` while the peer does not acknowledge. -/
def inflight : Option ℤ := if f.gated then some f.backlog else none

/-- `gateState`: the cap and the bytes in flight, `none` while the gate is open. -/
def gateState : Option (ℤ × ℤ) :=
  if f.gated then some (if f.capVal = 0 then laneCapInitial else f.capVal, f.backlog) else none

/-- `onSent`. -/
def onSent (n : ℕ) (now : ℤ) : LaneFlow :=
  let tx := (f.tx + n) % 2 ^ 64
  let f := { f with tx := tx }
  if laneRTTSampleGap ≤ since now f.lastSample then
    if h : f.samples.n < laneRTTRingCap then
      { f with samples := f.samples.push ⟨now, tx⟩ h, lastSample := now }
    else f
  else f

/-- `onRecv`. -/
def onRecv (n : ℕ) : LaneFlow := { f with rx := (f.rx + n) % 2 ^ 64 }

/-- `foldMinRTTLocked`. -/
def foldMinRTTLocked (rtt now : ℤ) : LaneFlow :=
  if f.minBucketAt = 0 ∨ laneMinRTTBucket ≤ since now f.minBucketAt then
    { f with minBuckets := rtt :: f.minBuckets.take (laneMinRTTBuckets - 1), minBucketAt := now }
  else
    { f with
      minBuckets :=
        match f.minBuckets with
        | b :: rest => (if rtt < b then rtt else b) :: rest
        | [] => [] }

/-- The round-trip estimates `onAck` keeps, from the age of the newest sample acknowledged. -/
def foldRTT (rtt now : ℤ) : LaneFlow :=
  if 0 < rtt then
    { f with
      lastRTT := rtt
      srtt := if f.srtt = 0 then rtt else f.srtt + (rtt - f.srtt).tdiv 8 }.foldMinRTTLocked rtt now
  else f

/-- The delivery rate `onAck` keeps, over windows of `laneRateWindow`. -/
def foldRate (rx : ℕ) (now : ℤ) : LaneFlow :=
  if f.rateAt = 0 then { f with rateAt := now, rateAcked := rx }
  else
    let dt := since now f.rateAt
    if laneRateWindow ≤ dt then
      let s := ofNat ((rx + (2 ^ 64 - f.rateAcked)) % 2 ^ 64) / seconds dt
      { f with
        rate := if f.rate ≤ s then s else f.rate + 0.25 * (s - f.rate)
        rateAt := now
        rateAcked := rx }
    else f

/-- `onAck`. -/
def onAck (rx : ℕ) (now : ℤ) : LaneFlow :=
  let rx := if f.tx < rx then f.tx else rx
  if rx < f.acked then f
  else
    let popped := popWhile (fun s => decide (s.tx ≤ rx)) f.samples.n f.samples none
    let f :=
      { f with
        ackedAdvancedAt := if f.acked < rx then now else f.ackedAdvancedAt
        acked := rx
        gated := true
        lastAckAt := now
        samples := popped.1 }
    (f.foldRTT (popped.2.elim 0 fun s => since now s.time) now).foldRate rx now

/-- `minRTTLocked`. -/
def minRTTLocked : ℤ :=
  f.minBuckets.foldl (fun m b => if 0 < b ∧ (m = 0 ∨ b < m) then b else m) 0

/-- The cap that `adjustCap` moves to before it is clamped. -/
def nextCap (cap qd backlog : ℤ) (neg : Bool) : ℤ :=
  if laneQDTarget < qd then
    let scale := ofInt laneQDTarget / ofInt qd
    (ofInt cap * if scale < 0.5 then 0.5 else scale).toInt64.toInt
  else if !neg ∧ qd < laneQDTarget.tdiv 2 ∧ cap.tdiv 2 ≤ backlog then cap + cap.tdiv 4
  else cap

/-- The two checks that end `adjustCap`'s choice. -/
def clampCap (cap : ℤ) : ℤ :=
  let cap := if cap < laneCapMin then laneCapMin else cap
  if laneCapMax < cap then laneCapMax else cap

/-- What `adjustCap` keeps about rounds with a negative queueing delay. -/
def countNegative (f : LaneFlow) (neg : Bool) (now : ℤ) : LaneFlow :=
  if neg then
    if laneNegQDResetRounds ≤ f.negQDRounds + 1 then
      { f with
        minBuckets := f.srtt :: List.replicate (laneMinRTTBuckets - 1) 0
        minBucketAt := now
        negQDRounds := 0 }
    else { f with negQDRounds := f.negQDRounds + 1 }
  else { f with negQDRounds := 0 }

/-- `adjustCap`. -/
def adjustCap (f : LaneFlow) (now : ℤ) : LaneFlow :=
  if !f.gated then f
  else if f.lastAdjustAt ≠ 0 ∧ since now f.lastAdjustAt < laneCapAdjustInterval then f
  else if f.minRTTLocked ≤ 0 ∨ f.srtt ≤ 0 then f
  else
    let neg := decide (f.srtt < f.minRTTLocked)
    let qd := if f.srtt - f.minRTTLocked < 0 then 0 else f.srtt - f.minRTTLocked
    let cap := if f.capVal = 0 then laneCapInitial else f.capVal
    { f with
      capVal := clampCap (nextCap cap qd f.backlog neg)
      lastAdjustAt := now }.countNegative neg now

/-- `stallCheck`. -/
def stallCheck (f : LaneFlow) (now : ℤ) : LaneFlow :=
  if !f.gated ∨ f.ackedAdvancedAt = 0 ∨ f.stallWarnedAt ≠ 0 then f
  else if f.backlog ≤ 0 then f
  else if since now f.ackedAdvancedAt < laneStallTimeout then f
  else { f with stallWarnedAt := now, gated := false }

end LaneFlow

/-! ## Sequences of calls -/

/-- A call, at the instant it reads from the clock. -/
inductive Call where
  | onSent (n : ℕ) (now : ℤ)
  | onRecv (n : ℕ)
  | onAck (rx : ℕ) (now : ℤ)
  | adjustCap (now : ℤ)
  | stallCheck (now : ℤ)
  deriving DecidableEq, Repr

/-- The bytes a call adds to what was sent. -/
def Call.sent : Call → ℕ
  | .onSent n _ => n
  | _ => 0

/-- One call. -/
def LaneFlow.call (f : LaneFlow) : Call → LaneFlow
  | .onSent n now => f.onSent n now
  | .onRecv n => f.onRecv n
  | .onAck rx now => f.onAck rx now
  | .adjustCap now => f.adjustCap now
  | .stallCheck now => f.stallCheck now

/-- The flow after a sequence of calls on a new lane. -/
def after (calls : List Call) : LaneFlow := calls.foldl LaneFlow.call .zero

/-- The bytes a sequence of calls sends. -/
def sentBytes (calls : List Call) : ℕ := (calls.map Call.sent).sum

/-! ## What holds after any calls -/

/-- The account a lane's users rely on. -/
structure LaneFlow.Sound (f : LaneFlow) : Prop where
  acked_le : f.acked ≤ f.tx
  inflight_nonneg : 0 ≤ f.backlog
  room : f.samples.toList.length ≤ 256
  ordered : f.samples.toList.Pairwise fun older newer => older.tx ≤ newer.tx
  fresh : ∀ s ∈ f.samples.toList, f.acked ≤ s.tx
  cap : f.capVal = 0 ∨ laneCapMin ≤ f.capVal ∧ f.capVal ≤ laneCapMax

namespace LaneFlow

/-- The inductive invariant after `total` bytes were sent: no sample is ahead of the counter. -/
structure Inv (total : ℕ) (f : LaneFlow) : Prop where
  tx : f.tx = total
  acked_le : f.acked ≤ total
  ordered : f.samples.toList.Pairwise fun older newer => older.tx ≤ newer.tx
  fresh : ∀ s ∈ f.samples.toList, f.acked ≤ s.tx
  counted : ∀ s ∈ f.samples.toList, s.tx ≤ total
  cap : f.capVal = 0 ∨ laneCapMin ≤ f.capVal ∧ f.capVal ≤ laneCapMax

/-- The fields the invariant is about. -/
def counts (f : LaneFlow) : ℕ × ℕ × RingBuffer LaneTxSample laneRTTRingCap × ℤ :=
  (f.tx, f.acked, f.samples, f.capVal)

variable {f g : LaneFlow} {total : ℕ}

theorem Inv.of_counts (h : f.Inv total) (hc : g.counts = f.counts) : g.Inv total := by
  simp only [counts, Prod.mk.injEq] at hc
  obtain ⟨htx, hacked, hsamples, hcap⟩ := hc
  exact ⟨htx ▸ h.tx, hacked ▸ h.acked_le, hsamples ▸ h.ordered, hacked ▸ hsamples ▸ h.fresh,
    hsamples ▸ h.counted, hcap ▸ h.cap⟩

section

variable (f : LaneFlow)

@[simp]
theorem counts_foldRTT (rtt now : ℤ) : (f.foldRTT rtt now).counts = f.counts := by
  unfold foldRTT foldMinRTTLocked
  split_ifs <;> rfl

@[simp]
theorem counts_foldRate (rx : ℕ) (now : ℤ) : (f.foldRate rx now).counts = f.counts := by
  unfold foldRate
  dsimp only
  split_ifs <;> rfl

@[simp]
theorem counts_countNegative (neg : Bool) (now : ℤ) : (f.countNegative neg now).counts = f.counts := by
  unfold countNegative
  split_ifs <;> rfl

theorem counts_stallCheck (now : ℤ) : (f.stallCheck now).counts = f.counts := by
  unfold stallCheck
  split_ifs <;> rfl

end

theorem clampCap_mem (cap : ℤ) : laneCapMin ≤ clampCap cap ∧ clampCap cap ≤ laneCapMax := by
  simp only [clampCap, laneCapMin, laneCapMax]
  split_ifs <;> omega

theorem Inv.onSent (h : f.Inv total) (n : ℕ) (hn : total + n < 2 ^ 63) (now : ℤ) :
    (f.onSent n now).Inv (total + n) := by
  have htx : (f.tx + n) % 2 ^ 64 = total + n := by rw [h.tx, Nat.mod_eq_of_lt (by omega)]
  have hcount : { f with tx := total + n }.Inv (total + n) :=
    { h with
      tx := rfl
      acked_le := h.acked_le.trans (Nat.le_add_right ..)
      counted := fun s hs => (h.counted s hs).trans (Nat.le_add_right ..) }
  simp only [LaneFlow.onSent, htx]
  split
  case isFalse hgap => exact hcount
  case isTrue hgap =>
    split
    case isFalse hfull => exact hcount
    case isTrue hroom =>
      refine { hcount with ordered := ?_, fresh := ?_, counted := ?_ }
      · rw [toList_push, pairwise_append]
        exact ⟨hcount.ordered, pairwise_singleton .., by simpa using hcount.counted⟩
      · simp only [toList_push, mem_append, mem_singleton]
        rintro s (hs | rfl)
        · exact hcount.fresh s hs
        · exact hcount.acked_le
      · simp only [toList_push, mem_append, mem_singleton]
        rintro s (hs | rfl)
        · exact hcount.counted s hs
        · exact le_rfl

/-- What is left of the samples once those up to `rx` are taken out. -/
theorem toList_samples_onAck (f : LaneFlow) (rx : ℕ) :
    (popWhile (fun s => decide (s.tx ≤ rx)) f.samples.n f.samples none).1.toList =
      f.samples.toList.dropWhile fun s => decide (s.tx ≤ rx) :=
  toList_popWhile _ _ _ _ le_rfl

/-- An acknowledgement is cut to what was sent. It is ignored if it goes back, and else takes out the
samples that it covers. -/
theorem counts_onAck (f : LaneFlow) (rx : ℕ) (now : ℤ) :
    min f.tx rx < f.acked ∧ (f.onAck rx now).counts = f.counts ∨
      f.acked ≤ min f.tx rx ∧
        ∃ samples : RingBuffer LaneTxSample laneRTTRingCap,
          samples.toList = f.samples.toList.dropWhile (fun s => decide (s.tx ≤ min f.tx rx)) ∧
            (f.onAck rx now).counts = (f.tx, min f.tx rx, samples, f.capVal) := by
  have hcut : (if f.tx < rx then f.tx else rx) = min f.tx rx := by
    split_ifs <;> omega
  simp only [LaneFlow.onAck, hcut]
  split
  case isTrue hback => exact .inl ⟨hback, rfl⟩
  case isFalse hfwd =>
    refine .inr ⟨by omega, _, f.toList_samples_onAck _, ?_⟩
    rw [counts_foldRate, counts_foldRTT]
    rfl

/-- Behind the samples that an acknowledgement covers there are only later ones. -/
theorem lt_of_mem_dropWhile {samples : List LaneTxSample}
    (h : samples.Pairwise fun older newer => older.tx ≤ newer.tx) {rx : ℕ} {s : LaneTxSample}
    (hs : s ∈ samples.dropWhile fun s => decide (s.tx ≤ rx)) : rx < s.tx := by
  induction samples with
  | nil => simp at hs
  | cons older rest ih =>
    obtain ⟨hfirst, hrest⟩ := pairwise_cons.mp h
    by_cases hcovered : older.tx ≤ rx
    · rw [dropWhile_cons_of_pos (by simpa using hcovered)] at hs
      exact ih hrest hs
    · rw [dropWhile_cons_of_neg (by simpa using hcovered)] at hs
      rcases mem_cons.mp hs with rfl | hs
      · omega
      · have := hfirst s hs
        omega

theorem tx_onAck (f : LaneFlow) (rx : ℕ) (now : ℤ) : (f.onAck rx now).tx = f.tx := by
  rcases f.counts_onAck rx now with ⟨-, hsame⟩ | ⟨-, samples, -, hcounts⟩
  · exact congrArg Prod.fst hsame
  · exact congrArg Prod.fst hcounts

theorem acked_onAck (f : LaneFlow) (rx : ℕ) (now : ℤ) : (f.onAck rx now).acked = max f.acked (min f.tx rx) := by
  rcases f.counts_onAck rx now with ⟨hback, hsame⟩ | ⟨hfwd, samples, -, hcounts⟩
  · rw [max_eq_left hback.le]
    exact congrArg (fun c => c.2.1) hsame
  · rw [max_eq_right hfwd]
    exact congrArg (fun c => c.2.1) hcounts

theorem Inv.onAck (h : f.Inv total) (rx : ℕ) (now : ℤ) :
    (f.onAck rx now).Inv total ∧ f.acked ≤ (f.onAck rx now).acked := by
  rcases f.counts_onAck rx now with ⟨-, hsame⟩ | ⟨hfwd, samples, hsamples, hcounts⟩
  · have hacked : (f.onAck rx now).acked = f.acked := congrArg (fun c => c.2.1) hsame
    exact ⟨h.of_counts hsame, hacked.ge⟩
  · have hacked : (f.onAck rx now).acked = min f.tx rx := congrArg (fun c => c.2.1) hcounts
    have hsub : samples.toList.Sublist f.samples.toList := hsamples ▸ dropWhile_sublist _
    have hcut : { f with acked := min f.tx rx, samples := samples }.Inv total :=
      { h with
        acked_le := (min_le_left ..).trans h.tx.le
        ordered := h.ordered.sublist hsub
        fresh := fun s hs => (lt_of_mem_dropWhile h.ordered (hsamples ▸ hs)).le
        counted := fun s hs => h.counted s (hsub.subset hs) }
    exact ⟨hcut.of_counts hcounts, hacked ▸ hfwd⟩

theorem counts_adjustCap (f : LaneFlow) (now : ℤ) :
    (f.adjustCap now).counts = f.counts ∨
      ∃ cap, (f.adjustCap now).counts = { f with capVal := clampCap cap }.counts := by
  unfold LaneFlow.adjustCap
  split
  · exact .inl rfl
  split
  · exact .inl rfl
  split
  · exact .inl rfl
  · exact .inr ⟨_, counts_countNegative ..⟩

theorem Inv.adjustCap (h : f.Inv total) (now : ℤ) : (f.adjustCap now).Inv total := by
  rcases f.counts_adjustCap now with hsame | ⟨cap, hcap⟩
  · exact h.of_counts hsame
  · have hclamped : { f with capVal := clampCap cap }.Inv total := { h with cap := .inr (clampCap_mem cap) }
    exact hclamped.of_counts hcap

theorem acked_adjustCap (f : LaneFlow) (now : ℤ) : (f.adjustCap now).acked = f.acked := by
  rcases f.counts_adjustCap now with hsame | ⟨cap, hcap⟩
  · exact congrArg (fun c => c.2.1) hsame
  · exact congrArg (fun c => c.2.1) hcap

theorem tx_onSent (f : LaneFlow) (n : ℕ) (now : ℤ) : (f.onSent n now).tx = (f.tx + n) % 2 ^ 64 := by
  unfold LaneFlow.onSent
  dsimp only
  split_ifs <;> rfl

theorem acked_onSent (f : LaneFlow) (n : ℕ) (now : ℤ) : (f.onSent n now).acked = f.acked := by
  unfold LaneFlow.onSent
  dsimp only
  split_ifs <;> rfl

theorem Inv.call (h : f.Inv total) (c : Call) (hc : total + c.sent < 2 ^ 63) :
    (f.call c).Inv (total + c.sent) ∧ f.acked ≤ (f.call c).acked := by
  cases c with
  | onSent n now => exact ⟨h.onSent n hc now, (f.acked_onSent n now).ge⟩
  | onRecv n => exact ⟨h.of_counts rfl, le_rfl⟩
  | onAck rx now => exact h.onAck rx now
  | adjustCap now => exact ⟨h.adjustCap now, (f.acked_adjustCap now).ge⟩
  | stallCheck now =>
    have hacked : (f.stallCheck now).acked = f.acked := congrArg (fun c => c.2.1) (f.counts_stallCheck now)
    exact ⟨h.of_counts (f.counts_stallCheck now), hacked.ge⟩

theorem Inv.calls (h : f.Inv total) (cs : List Call) (hcs : total + sentBytes cs < 2 ^ 63) :
    (cs.foldl LaneFlow.call f).Inv (total + sentBytes cs) ∧ f.acked ≤ (cs.foldl LaneFlow.call f).acked := by
  induction cs generalizing f total with
  | nil => exact ⟨h, le_rfl⟩
  | cons c cs ih =>
    simp only [sentBytes, map_cons, sum_cons] at hcs ⊢
    obtain ⟨hcall, hacked⟩ := h.call c (by omega)
    obtain ⟨hrest, hmore⟩ := ih hcall (by simpa only [sentBytes, Nat.add_assoc] using hcs)
    rw [sentBytes, Nat.add_assoc] at hrest
    exact ⟨hrest, hacked.trans hmore⟩

theorem Inv.zero : LaneFlow.zero.Inv 0 where
  tx := rfl
  acked_le := le_rfl
  ordered := Pairwise.nil
  fresh := by simp [LaneFlow.zero, toList]
  counted := by simp [LaneFlow.zero, toList]
  cap := .inl rfl

/-- Below `2 ^ 63` the difference of the counters is the bytes in flight. -/
theorem Inv.backlog (h : f.Inv total) (htotal : total < 2 ^ 63) : f.backlog = total - f.acked := by
  have hle := h.acked_le
  rw [LaneFlow.backlog, h.tx, Int.bmod_eq_of_le (by omega) (by omega)]

theorem Inv.sound (h : f.Inv total) (htotal : total < 2 ^ 63) : f.Sound where
  acked_le := h.tx ▸ h.acked_le
  inflight_nonneg := by
    have hle := h.acked_le
    rw [h.backlog htotal]
    omega
  room := f.samples.length_toList ▸ f.samples.le
  ordered := h.ordered
  fresh := h.fresh
  cap := h.cap

end LaneFlow

/-- After any calls that send less than `2 ^ 63` bytes, whatever the peer reports and whatever the clock
says, the account is sound, and no call took back an acknowledgement. -/
theorem account_sound (calls : List Call) (hbytes : sentBytes calls < 2 ^ 63) :
    (after calls).Sound ∧ ∀ earlier, earlier <+: calls → (after earlier).acked ≤ (after calls).acked := by
  have hall := LaneFlow.Inv.zero.calls calls (by simpa using hbytes)
  rw [Nat.zero_add] at hall
  refine ⟨hall.1.sound hbytes, ?_⟩
  rintro earlier ⟨later, rfl⟩
  have hsplit : sentBytes (earlier ++ later) = sentBytes earlier + sentBytes later := by simp [sentBytes]
  have hearlier := (LaneFlow.Inv.zero.calls earlier (by omega)).1
  rw [after, after, foldl_append]
  exact (hearlier.calls later (by omega)).2

/-- Three acknowledgements of 1000 bytes: one of a part, one that goes back and one of too much. -/
theorem account_sound_threeAcks :
    sentBytes [.onSent 1000 5, .onAck 700 6, .onAck 300 7, .onAck 5000 8] < 2 ^ 63 ∧
      (after [.onSent 1000 5, .onAck 700 6, .onAck 300 7, .onAck 5000 8]).Sound :=
  ⟨by decide, (account_sound _ (by decide)).1⟩

end Lane
