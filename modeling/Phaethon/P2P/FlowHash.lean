import Phaethon.P2P.Peer

/-!
# Which queue a packet goes to

`src/frame/flowkey.go`, `InnerPacket`, and `src/p2p/p2p.go`, `isDNSPacket` and `hashFlowWithSalt`: the classifiers of
`enqueueWriteReq` as they read an IPv4 packet. `flowOf` is the flow of a packet, its addresses, protocol and ports,
and packets of one flow are classified alike (`entry_of_flow`).
-/

namespace P2P

/-! ## The classifiers -/

variable (pkt : List UInt8)

/-- Byte `i` of a packet. The readers below check the length first. -/
def byteAt (i : ℕ) : UInt8 := pkt.getD i 0

/-- The length of the IPv4 header in bytes, as its first byte says. -/
def headerLength : ℕ := (byteAt pkt 0 &&& 0x0F).toNat * 4

/-- `InnerPacket`. -/
def innerPacket : List UInt8 :=
  if pkt.length < 20 ∨ byteAt pkt 0 >>> 4 ≠ 4 ∨ byteAt pkt 9 ≠ 4 then pkt
  else if byteAt pkt 6 &&& 0x20 ≠ 0 ∨ byteAt pkt 6 &&& 0x1F ≠ 0 ∨ byteAt pkt 7 ≠ 0 then pkt
  else if headerLength pkt < 20 ∨ pkt.length < headerLength pkt + 20 then pkt
  else if byteAt pkt (headerLength pkt) >>> 4 ≠ 4 then pkt
  else pkt.drop (headerLength pkt)

/-- Two bytes as a number. -/
def portAt (i : ℕ) : ℕ := (byteAt pkt i).toNat * 256 + (byteAt pkt (i + 1)).toNat

/-- `isDNSPacket`. -/
def isDNSPacket (data : List UInt8) : Bool :=
  let data := innerPacket data
  if data.length < 28 then false
  else if byteAt data 0 >>> 4 ≠ 4 then false
  else if byteAt data 9 ≠ 17 then false
  else if headerLength data < 20 ∨ data.length < headerLength data + 8 then false
  else portAt data (headerLength data) = 53 || portAt data (headerLength data + 2) = 53

/-- One byte into the hash. -/
def mix (h : UInt32) (b : UInt8) : UInt32 :=
  let h := h + b.toUInt32
  let h := h + (h <<< 10)
  h ^^^ (h >>> 6)

/-- The rounds that end the hash. -/
def finish (h : UInt32) : UInt32 :=
  let h := h + (h <<< 3)
  let h := h ^^^ (h >>> 11)
  h + (h <<< 15)

variable (salt : UInt32)

/-- `flowHash32`. -/
def flowHash32 (data : List UInt8) : UInt32 :=
  let data := innerPacket data
  if data.length < 20 then 0
  else if byteAt data 0 >>> 4 ≠ 4 then 0
  else
    let protocol := byteAt data 9
    let ihl := if headerLength data < 20 then 20 else headerLength data
    let h := mix (((data.drop 12).take 8).foldl mix salt) protocol
    finish
      (if (protocol = 6 ∨ protocol = 17) ∧ ihl + 4 ≤ data.length then ((data.drop ihl).take 4).foldl mix h
      else h)

/-- `hashFlowWithSalt`. -/
def hashFlowWithSalt (data : List UInt8) : Fin 256 :=
  ⟨(flowHash32 salt data).toNat % 256, Nat.mod_lt _ (by decide)⟩

/-- The classifiers of a peer whose scheduler has this salt. -/
def classifier : Classifier := ⟨isDNSPacket, hashFlowWithSalt salt⟩

/-! ## Flows -/

/-- Addresses, protocol and, for TCP and UDP, ports. -/
structure Flow where
  addresses : List UInt8
  protocol : UInt8
  ports : List UInt8
  deriving DecidableEq, Repr

/-- The flow of an IPv4 packet, or of the packet inside an IPIP datagram; none if the packet is cut off before its
ports or, for UDP, inside the UDP header. -/
def flowOf (data : List UInt8) : Option Flow :=
  let pkt := innerPacket data
  let ihl := headerLength pkt
  if pkt.length < 20 ∨ byteAt pkt 0 >>> 4 ≠ 4 ∨ ihl < 20 then none
  else if byteAt pkt 9 = 6 then
    if pkt.length < ihl + 4 then none else some ⟨(pkt.drop 12).take 8, 6, (pkt.drop ihl).take 4⟩
  else if byteAt pkt 9 = 17 then
    if pkt.length < ihl + 8 then none else some ⟨(pkt.drop 12).take 8, 17, (pkt.drop ihl).take 4⟩
  else some ⟨(pkt.drop 12).take 8, byteAt pkt 9, []⟩

/-- The flow of a request: of the packet, for a mesh packet. -/
def WriteReq.flow (req : WriteReq) : Option Flow :=
  if !req.isControl ∧ req.frameType = frameMeshPacket then flowOf req.data else none

/-- `flowHash32` of every packet of a flow. -/
def Flow.hash (salt : UInt32) (flow : Flow) : UInt32 :=
  finish (flow.ports.foldl mix (mix (flow.addresses.foldl mix salt) flow.protocol))

/-- `isDNSPacket` of every packet of a flow. -/
def Flow.isDNS (flow : Flow) : Bool :=
  flow.protocol = 17 && (portAt flow.ports 0 = 53 || portAt flow.ports 2 = 53)

/-- What a packet with a flow looks like. -/
structure Carries (pkt : List UInt8) (flow : Flow) : Prop where
  long : 20 ≤ pkt.length
  version : byteAt pkt 0 >>> 4 = 4
  header : 20 ≤ headerLength pkt
  addresses : flow.addresses = (pkt.drop 12).take 8
  protocol : flow.protocol = byteAt pkt 9
  ports : if flow.protocol = 6 ∨ flow.protocol = 17 then
      flow.ports = (pkt.drop (headerLength pkt)).take 4 ∧ headerLength pkt + 4 ≤ pkt.length
    else flow.ports = []
  datagram : flow.protocol = 17 → headerLength pkt + 8 ≤ pkt.length

variable {flow : Flow} {data : List UInt8}

theorem Carries.of_flowOf (h : flowOf data = some flow) : Carries (innerPacket data) flow := by
  simp only [flowOf] at h
  split at h
  · cases h
  case isFalse hhead =>
    simp only [not_or, Nat.not_lt, not_not] at hhead
    obtain ⟨hlong, hversion, hheader⟩ := hhead
    split at h
    case isTrue htcp =>
      split at h
      · cases h
      case isFalse hcut =>
        cases h
        exact ⟨hlong, hversion, hheader, rfl, htcp.symm, ⟨rfl, Nat.not_lt.mp hcut⟩, by simp⟩
    case isFalse htcp =>
      split at h
      case isTrue hudp =>
        split at h
        · cases h
        case isFalse hcut =>
          cases h
          exact ⟨hlong, hversion, hheader, rfl, hudp.symm, ⟨rfl, by omega⟩, fun _ => Nat.not_lt.mp hcut⟩
      case isFalse hudp =>
        cases h
        exact ⟨hlong, hversion, hheader, rfl, rfl, by simp [htcp, hudp], fun h => absurd h hudp⟩

theorem flowHash32_of_flow {salt : UInt32} (h : flowOf data = some flow) : flowHash32 salt data = flow.hash salt := by
  have hc := Carries.of_flowOf h
  have hports := hc.ports
  simp only [flowHash32]
  rw [if_neg (Nat.not_lt.mpr hc.long), if_neg (not_not.mpr hc.version), if_neg (Nat.not_lt.mpr hc.header),
    Flow.hash, hc.addresses, hc.protocol]
  rw [hc.protocol] at hports
  split at hports
  case isTrue htransport => rw [if_pos ⟨htransport, hports.2⟩, hports.1]
  case isFalse htransport =>
    rw [if_neg fun hall => htransport hall.1, hports]
    rfl

/-- The ports of a flow as they stand in the packet. -/
theorem byteAt_ports {pkt : List UInt8} {start i : ℕ} (hi : i < 4) :
    byteAt ((pkt.drop start).take 4) i = byteAt pkt (start + i) := by
  simp [byteAt, List.getD_eq_getElem?_getD, hi]

theorem isDNSPacket_of_flow (h : flowOf data = some flow) : isDNSPacket data = flow.isDNS := by
  have hc := Carries.of_flowOf h
  have hports := hc.ports
  simp only [isDNSPacket, Flow.isDNS]
  by_cases hudp : flow.protocol = 17
  · have hlong := hc.datagram hudp
    have hheader := hc.header
    rw [if_pos (.inr hudp)] at hports
    have hsrc : portAt flow.ports 0 = portAt (innerPacket data) (headerLength (innerPacket data)) := by
      simp [portAt, hports.1, byteAt_ports]
    have hdst : portAt flow.ports 2 = portAt (innerPacket data) (headerLength (innerPacket data) + 2) := by
      simp [portAt, hports.1, byteAt_ports]
    rw [if_neg (by omega), if_neg (not_not.mpr hc.version), if_neg (not_not.mpr (hc.protocol ▸ hudp)),
      if_neg (by omega), hsrc, hdst, decide_eq_true hudp, Bool.true_and]
  · have hother : byteAt (innerPacket data) 9 ≠ 17 := hc.protocol ▸ hudp
    simp [hother, hudp]

/-! ## Entries -/

/-- The channels that `enqueueWriteReq` inserts into. -/
inductive Entry where
  | control
  | dns
  | data (i : Fin 256)
  deriving DecidableEq, Repr

/-- The channel of an entry. -/
def Entry.place : Entry → Place
  | .control => .controlCh
  | .dns => .dnsQueue
  | .data i => .dataQueue i

/-- The entry of a request. -/
def WriteReq.entry (cls : Classifier) (req : WriteReq) : Entry :=
  if req.isControl then .control
  else if req.frameType = frameMeshPacket ∧ cls.isDNSPacket req.data then .dns
  else .data (cls.hashFlow req.data)

/-- The entry of every request of a flow. -/
def Flow.entry (salt : UInt32) (flow : Flow) : Entry :=
  if flow.isDNS then .dns else .data ⟨(flow.hash salt).toNat % 256, Nat.mod_lt _ (by decide)⟩

theorem entry_of_flow {salt : UInt32} {req : WriteReq} (h : req.flow = some flow) :
    req.entry (classifier salt) = flow.entry salt := by
  unfold WriteReq.flow at h
  split at h
  case isFalse => cases h
  case isTrue hmesh =>
    have hdata : req.isControl = false := by simpa using hmesh.1
    simp [WriteReq.entry, Flow.entry, classifier, hdata, hmesh.2, isDNSPacket_of_flow h, hashFlowWithSalt,
      flowHash32_of_flow h]

end P2P
