import Phaethon.Common.Json
import Phaethon.Common.SocksAddr

/-!
# Addresses in front of datagrams

`src/util/reverse_udp_frame.go` and `src/util/udpaddr.go`: a datagram travels behind the address it goes to or
comes from, in the format of SOCKS5, in reverse tunnels behind two zero bytes.

The parsers check lengths before they index. For a domain, `ParseReverseUDPFrame` forgets the byte that holds
the length, and reads the port one byte behind the end of a frame that is one byte short
(`codecLaws_iff_not_truncated`).
-/

namespace UdpFrame

open List SocksAddr

open NetIp (Ip)
open SocksAddr (toBytes ofBytes)

/-- A byte slice. -/
abbrev Bytes := List UInt8

/-- How a parser ends without a value: with an error, or with an index behind the end of its bytes. -/
inductive Fault where
  | error (text : String)
  | outOfRange
  deriving DecidableEq, Repr

/-- `data[low:high]`. -/
def slice (data : Bytes) (low high : ℕ) : Except Fault Bytes :=
  if low ≤ high ∧ high ≤ data.length then .ok ((data.take high).drop low) else .error .outOfRange

/-- `data[i]`. -/
def index (data : Bytes) (i : ℕ) : Except Fault UInt8 :=
  match data[i]? with
  | some b => .ok b
  | none => .error .outOfRange

/-- `net.UDPAddr` and `net.TCPAddr`, with an address of four or sixteen bytes. -/
structure UDPAddr where
  ip : Ip
  port : ℤ
  zone : String := ""
  deriving DecidableEq

/-- `net.Addr`; `other` has only its text. -/
inductive NetAddr where
  | udp (a : UDPAddr)
  | tcp (a : UDPAddr)
  | other (text : String)

/-! ## Building -/

/-- `uint16(port)`, most significant byte first. -/
def portBytes (port : ℤ) : Bytes := toBytes 2 (port % 65536).toNat

/-- The type, the address and the port. -/
def addrBytes (ip : Ip) (port : ℤ) : Bytes :=
  match ip.unmapped with
  | .v4 a => 0x01 :: (toBytes 4 a.toNat ++ portBytes port)
  | .v6 a => 0x04 :: (toBytes 16 a.toNat ++ portBytes port)

/-- `buildReverseAddr`. -/
def buildReverseAddr (ip : Ip) (port : ℤ) : Bytes := [0x00, 0x00] ++ addrBytes ip port

/-- `buildUDPAddr`. -/
def buildUDPAddr (ip : Ip) (port : ℤ) : Bytes := addrBytes ip port

/-- A domain with its length, and the port. -/
def domainBytes (host : Bytes) (port : ℤ) : Bytes :=
  0x03 :: host.length.toUInt8 :: (host ++ portBytes port)

/-- The number that `strconv.Atoi` returns whether or not it fails: zero for what is no number, the
nearest one for what is out of range. -/
def atoiValue (s : List Char) : ℤ :=
  match s with
  | '-' :: rest => (Text.digits rest).elim 0 fun n => max (-2 ^ 63) (-(n : ℤ))
  | '+' :: rest => (Text.digits rest).elim 0 fun n => min (2 ^ 63 - 1) (n : ℤ)
  | rest => (Text.digits rest).elim 0 fun n => min (2 ^ 63 - 1) (n : ℤ)

/-- `BuildReverseUDPFrame`; nil where the address has no such form. -/
def buildReverseUDPFrame (target : NetAddr) (payload : Bytes) : Bytes :=
  match target with
  | .udp a => buildReverseAddr a.ip a.port ++ payload
  | .tcp a => buildReverseAddr a.ip a.port ++ payload
  | .other text =>
      match NetIp.splitHostPort text.toList with
      | none => []
      | some (host, port) =>
          let port := atoiValue port
          match NetIp.parseIP (String.ofList host) with
          | some ip => buildReverseAddr ip port ++ payload
          | none =>
              let host := Json.bytes (String.ofList host)
              if 255 < host.length then [] else [0x00, 0x00] ++ domainBytes host port ++ payload

/-- `BuildReverseUDPHeartbeat`. -/
def buildReverseUDPHeartbeat : Bytes := [0x00, 0x00, 0xff]

/-- `BuildUDPAddrHeader`. -/
def buildUDPAddrHeader (addr : NetAddr) : Except String Bytes :=
  match addr with
  | .udp a => .ok (buildUDPAddr a.ip a.port)
  | .tcp a => .ok (buildUDPAddr a.ip a.port)
  | .other text =>
      match NetIp.splitHostPort text.toList with
      | none => .error s!"invalid address format: {text}"
      | some (host, portStr) =>
          match Text.atoi portStr with
          | none => .error s!"invalid port: {String.ofList portStr}"
          | some port =>
              match NetIp.parseIP (String.ofList host) with
              | some ip => .ok (buildUDPAddr ip port)
              | none =>
                  let host := Json.bytes (String.ofList host)
                  if 255 < host.length then .error s!"domain name too long: {host.length}"
                  else .ok (domainBytes host port)

/-! ## Parsing -/

/-- The address of `n` bytes at `off`, the port behind it and the rest. -/
def readIp (short : String) (off n : ℕ) (ip : ℕ → Ip) (data : Bytes) :
    Except Fault (Option UDPAddr × Bytes) :=
  if data.length < off + n + 2 then .error (.error short)
  else do
    let address ← slice data off (off + n)
    let port ← slice data (off + n) (off + n + 2)
    let rest ← slice data (off + n + 2) data.length
    return (some { ip := ip (ofBytes address), port := ofBytes port }, rest)

variable (resolve : Bytes → ℕ → Except String UDPAddr)

/-- The domain of `n` bytes at `off`, which is resolved, the port behind it and the rest. -/
def readDomain (off n : ℕ) (data : Bytes) :
    Except Fault (Option UDPAddr × Bytes) := do
  let host ← slice data off (off + n)
  let port ← slice data (off + n) (off + n + 2)
  match resolve host (ofBytes port) with
  | .error text => throw (.error text)
  | .ok addr =>
      let rest ← slice data (off + n + 2) data.length
      return (some addr, rest)

/-- `ParseReverseUDPFrame`; `resolve` is `net.ResolveUDPAddr`. A heartbeat has no address. -/
def parseReverseUDPFrame (data : Bytes) :
    Except Fault (Option UDPAddr × Bytes) :=
  if data.length < 3 then .error (.error s!"reverse_udp_frame: too short ({data.length} bytes)")
  else do
    let first ← index data 0
    let second ← index data 1
    if first ≠ 0x00 ∨ second ≠ 0x00 then .error (.error "reverse_udp_frame: invalid RSV")
    else do
      let atyp ← index data 2
      if atyp = 0xff then .ok (none, [])
      else if data.length < 5 then
        .error (.error s!"reverse_udp_frame: too short for data ({data.length} bytes)")
      else if atyp = 0x01 then
        readIp "reverse_udp_frame: short IPv4 address" 3 4 (fun n => .v4 (BitVec.ofNat 32 n)) data
      else if atyp = 0x03 then
        if data.length < 6 then .error (.error "reverse_udp_frame: short domain header")
        else do
          let domainLen ← index data 3
          if data.length < 3 + domainLen.toNat + 2 then
            .error (.error "reverse_udp_frame: short domain data")
          else readDomain resolve 4 domainLen.toNat data
      else if atyp = 0x04 then
        readIp "reverse_udp_frame: short IPv6 address" 3 16 (fun n => .v6 (BitVec.ofNat 128 n)) data
      else .error (.error s!"reverse_udp_frame: unknown address type: {atyp.toNat}")

/-- `ParseUDPAddrHeader`. -/
def parseUDPAddrHeader (b : Bytes) :
    Except Fault (Option UDPAddr × Bytes) :=
  if b.length < 1 then .error (.error "udpaddr: empty header")
  else do
    let atyp ← index b 0
    if atyp = 0x01 then
      readIp "udpaddr: short IPv4 header" 1 4 (fun n => .v4 (BitVec.ofNat 32 n)) b
    else if atyp = 0x03 then
      if b.length < 2 then .error (.error "udpaddr: short domain header")
      else do
        let domainLen ← index b 1
        if b.length < 2 + domainLen.toNat + 2 then .error (.error "udpaddr: short domain data")
        else readDomain resolve 2 domainLen.toNat b
    else if atyp = 0x04 then
      readIp "udpaddr: short IPv6 header" 1 16 (fun n => .v6 (BitVec.ofNat 128 n)) b
    else .error (.error s!"udpaddr: unknown address type: {atyp.toNat}")

/-! ## Bounds -/

variable {resolve : Bytes → ℕ → Except String UDPAddr}

theorem slice_of_le {data : Bytes} {low high : ℕ} (hle : low ≤ high) (hlen : high ≤ data.length) :
    slice data low high = .ok ((data.take high).drop low) := if_pos ⟨hle, hlen⟩

theorem index_of_lt {data : Bytes} {i : ℕ} (h : i < data.length) : index data i = .ok data[i] := by
  simp [index, h]

theorem readIp_ne_outOfRange {short : String} {off n : ℕ} {ip : ℕ → Ip} {data : Bytes} :
    readIp short off n ip data ≠ .error .outOfRange := by
  unfold readIp
  split
  · simp
  · rw [slice_of_le (by omega) (by omega), slice_of_le (by omega) (by omega),
      slice_of_le (by omega) (by omega)]
    simp [bind, Except.bind, pure, Except.pure]

/-- A domain is read without a fault of range exactly if its port is there. -/
theorem readDomain_ne_outOfRange_iff {off n : ℕ} {data : Bytes} (hhost : off + n ≤ data.length) :
    readDomain resolve off n data ≠ .error .outOfRange ↔ off + n + 2 ≤ data.length := by
  unfold readDomain
  rw [slice_of_le (by omega) hhost]
  by_cases hport : off + n + 2 ≤ data.length
  · rw [slice_of_le (by omega) hport, slice_of_le (by omega) (by omega)]
    simp only [hport, iff_true]
    cases hres : resolve ((data.take (off + n)).drop off) (ofBytes ((data.take (off + n + 2)).drop (off + n))) <;>
      simp [bind, Except.bind, pure, Except.pure, throw, throwThe, MonadExceptOf.throw, hres]
  · have hslice : slice data (off + n) (off + n + 2) = .error .outOfRange := if_neg (by omega)
    simp [hslice, hport, bind, Except.bind]

/-- A frame with a domain that is one byte short: the second byte of the port is missing. -/
def TruncatedDomain (data : Bytes) : Prop :=
  ∃ n rest, data = 0x00 :: 0x00 :: 0x03 :: n :: rest ∧ n ≠ 0 ∧ rest.length = n.toNat + 1

theorem ok_bind {α β : Type} (a : α) (f : α → Except Fault β) : (Except.ok a >>= f) = f a := rfl

private theorem error_ne {α : Type} (text : String) :
    (Except.error (.error text) : Except Fault α) ≠ .error .outOfRange := by simp

/-- A frame that is not for a domain. -/
private theorem parseReverse_other {data : Bytes} (h : ¬ [0x00, 0x00, 0x03] <+: data) :
    parseReverseUDPFrame resolve data ≠ .error .outOfRange := by
  unfold parseReverseUDPFrame
  by_cases h3 : data.length < 3
  · rw [if_pos h3]
    exact error_ne _
  obtain ⟨a, b, c, rest, rfl⟩ : ∃ a b c rest, data = a :: b :: c :: rest := by
    rcases data with _ | ⟨a, _ | ⟨b, _ | ⟨c, rest⟩⟩⟩
    all_goals first | exact ⟨_, _, _, _, rfl⟩ | simp at h3
  have hindex : index (a :: b :: c :: rest) 0 = .ok a ∧ index (a :: b :: c :: rest) 1 = .ok b ∧
      index (a :: b :: c :: rest) 2 = .ok c := ⟨rfl, rfl, rfl⟩
  simp only [if_neg h3, hindex, ok_bind]
  split
  · exact error_ne _
  next hrsv =>
    push Not at hrsv
    obtain ⟨rfl, rfl⟩ := hrsv
    have hdomain : c ≠ 0x03 := by
      rintro rfl
      exact h ⟨rest, rfl⟩
    split_ifs
    · simp
    · exact error_ne _
    · exact readIp_ne_outOfRange
    · exact readIp_ne_outOfRange
    · exact error_ne _

/-- A frame for a domain: the guard lets one byte too few pass. -/
private theorem parseReverse_domain (n : UInt8) (rest : Bytes) :
    parseReverseUDPFrame resolve (0x00 :: 0x00 :: 0x03 :: n :: rest) ≠ .error .outOfRange ↔
      ¬ (n ≠ 0 ∧ rest.length = n.toNat + 1) := by
  have hzero : n ≠ 0 ↔ n.toNat ≠ 0 := by simp [← UInt8.toNat_inj]
  have hparse : parseReverseUDPFrame resolve (0x00 :: 0x00 :: 0x03 :: n :: rest) =
      if rest.length + 4 < 5 then .error (.error s!"reverse_udp_frame: too short for data ({rest.length + 4} bytes)")
      else if rest.length + 4 < 6 then .error (.error "reverse_udp_frame: short domain header")
      else if rest.length + 4 < 3 + n.toNat + 2 then .error (.error "reverse_udp_frame: short domain data")
      else readDomain resolve 4 n.toNat (0x00 :: 0x00 :: 0x03 :: n :: rest) := by
    rfl
  rw [hparse, hzero]
  split
  · exact iff_of_true (error_ne _) (by omega)
  split
  · exact iff_of_true (error_ne _) (by omega)
  split
  · exact iff_of_true (error_ne _) (by omega)
  · rw [readDomain_ne_outOfRange_iff (by simp only [length_cons]; omega)]
    simp only [length_cons]
    omega

/-- `ParseReverseUDPFrame` indexes out of range exactly on those frames. -/
theorem parseReverse_ne_outOfRange_iff (data : Bytes) :
    parseReverseUDPFrame resolve data ≠ .error .outOfRange ↔ ¬ TruncatedDomain data := by
  by_cases hdomain : ∃ n rest, data = 0x00 :: 0x00 :: 0x03 :: n :: rest
  · obtain ⟨n, rest, rfl⟩ := hdomain
    rw [parseReverse_domain, not_iff_not]
    constructor
    · exact fun h => ⟨n, rest, rfl, h⟩
    · rintro ⟨n', rest', he, h⟩
      obtain ⟨rfl, rfl⟩ := he
      exact h
  · refine iff_of_true ?_ fun ⟨n, rest, he, _⟩ => hdomain ⟨n, rest, he⟩
    by_cases hpre : [0x00, 0x00, 0x03] <+: data
    · obtain ⟨rest, rfl⟩ := hpre
      cases rest with
      | nil => exact error_ne _
      | cons n rest => exact absurd ⟨n, rest, rfl⟩ hdomain
    · exact parseReverse_other hpre

/-- `ParseUDPAddrHeader` never indexes out of range. -/
theorem parseUDPAddrHeader_ne_outOfRange (b : Bytes) : parseUDPAddrHeader resolve b ≠ .error .outOfRange := by
  unfold parseUDPAddrHeader
  by_cases h1 : b.length < 1
  · rw [if_pos h1]
    exact error_ne _
  rw [if_neg h1, index_of_lt (by omega), ok_bind]
  split
  · exact readIp_ne_outOfRange
  split
  · by_cases h2 : b.length < 2
    · rw [if_pos h2]
      exact error_ne _
    · rw [if_neg h2, index_of_lt (by omega), ok_bind]
      split
      · exact error_ne _
      · next hlong => exact (readDomain_ne_outOfRange_iff (by omega)).mpr (by omega)
  split
  · exact readIp_ne_outOfRange
  · exact error_ne _

/-! ## Round trips -/

theorem ofBytes_portBytes {port : ℤ} (h : 0 ≤ port ∧ port ≤ 65535) : (ofBytes (portBytes port) : ℤ) = port := by
  rw [portBytes, ofBytes_toBytes]
  omega

theorem slice_append (a b c : Bytes) : slice (a ++ (b ++ c)) a.length (a.length + b.length) = .ok b := by
  rw [slice_of_le (Nat.le_add_right _ _) (by simp), take_append, drop_append]
  simp

/-- What stands behind `front` is read back. -/
private theorem readIp_append (short : String) (ip : ℕ → Ip) (front address payload : Bytes) {port : ℤ}
    (hport : 0 ≤ port ∧ port ≤ 65535) :
    readIp short front.length address.length ip (front ++ (address ++ (portBytes port ++ payload))) =
      .ok (some { ip := ip (ofBytes address), port := port }, payload) := by
  have hlen : (portBytes port).length = 2 := length_toBytes _ _
  set data := front ++ (address ++ (portBytes port ++ payload)) with hdata
  have hlength : data.length = front.length + address.length + 2 + payload.length := by
    simp only [hdata, length_append, hlen]
    omega
  have haddress : slice data front.length (front.length + address.length) = .ok address :=
    slice_append front address (portBytes port ++ payload)
  have hportBytes : slice data (front.length + address.length) (front.length + address.length + 2) =
      .ok (portBytes port) := by
    simpa [hdata, hlen] using slice_append (front ++ address) (portBytes port) payload
  have hrest : slice data (front.length + address.length + 2) data.length = .ok payload := by
    simpa [hdata, hlen, Nat.add_assoc] using slice_append (front ++ (address ++ portBytes port)) payload []
  rw [readIp, if_neg (by omega), haddress, hportBytes, hrest]
  simp only [ok_bind, ofBytes_portBytes hport]
  rfl

/-- The address that is read back: as it was sent, with the IPv4-mapped form undone and without a zone. -/
def UDPAddr.received (a : UDPAddr) : UDPAddr := { ip := a.ip.unmapped, port := a.port }

private theorem parseReverse_v4 {rest : Bytes} (h : 2 ≤ rest.length) :
    parseReverseUDPFrame resolve (0x00 :: 0x00 :: 0x01 :: rest) =
      readIp "reverse_udp_frame: short IPv4 address" 3 4 (fun n => .v4 (BitVec.ofNat 32 n))
        (0x00 :: 0x00 :: 0x01 :: rest) := by
  unfold parseReverseUDPFrame
  rw [if_neg (by simp only [length_cons]; omega)]
  exact if_neg (by simp only [length_cons]; omega)

private theorem parseReverse_v6 {rest : Bytes} (h : 2 ≤ rest.length) :
    parseReverseUDPFrame resolve (0x00 :: 0x00 :: 0x04 :: rest) =
      readIp "reverse_udp_frame: short IPv6 address" 3 16 (fun n => .v6 (BitVec.ofNat 128 n))
        (0x00 :: 0x00 :: 0x04 :: rest) := by
  unfold parseReverseUDPFrame
  rw [if_neg (by simp only [length_cons]; omega)]
  exact if_neg (by simp only [length_cons]; omega)

/-- `ParseReverseUDPFrame` reads what `BuildReverseUDPFrame` wrote. -/
theorem parseReverse_build {a : UDPAddr} (hport : 0 ≤ a.port ∧ a.port ≤ 65535) (payload : Bytes) :
    parseReverseUDPFrame resolve (buildReverseUDPFrame (.udp a) payload) = .ok (some a.received, payload) := by
  simp only [buildReverseUDPFrame, buildReverseAddr, addrBytes, UDPAddr.received]
  cases a.ip.unmapped with
  | v4 x =>
    simp only [cons_append, nil_append, append_assoc]
    rw [parseReverse_v4 (by simp only [length_append, length_toBytes]; omega)]
    have hread := readIp_append "reverse_udp_frame: short IPv4 address" (fun n => .v4 (BitVec.ofNat 32 n))
      [0x00, 0x00, 0x01] (toBytes 4 x.toNat) payload hport
    simpa [ofNat_ofBytes_toBytes] using hread
  | v6 x =>
    simp only [cons_append, nil_append, append_assoc]
    rw [parseReverse_v6 (by simp only [length_append, length_toBytes]; omega)]
    have hread := readIp_append "reverse_udp_frame: short IPv6 address" (fun n => .v6 (BitVec.ofNat 128 n))
      [0x00, 0x00, 0x04] (toBytes 16 x.toNat) payload hport
    simpa [ofNat_ofBytes_toBytes] using hread

private theorem parseHeader_v4 (rest : Bytes) :
    parseUDPAddrHeader resolve (0x01 :: rest) =
      readIp "udpaddr: short IPv4 header" 1 4 (fun n => .v4 (BitVec.ofNat 32 n)) (0x01 :: rest) := rfl

private theorem parseHeader_v6 (rest : Bytes) :
    parseUDPAddrHeader resolve (0x04 :: rest) =
      readIp "udpaddr: short IPv6 header" 1 16 (fun n => .v6 (BitVec.ofNat 128 n)) (0x04 :: rest) := rfl

/-- `ParseUDPAddrHeader` reads what `BuildUDPAddrHeader` wrote. -/
theorem parseUDPAddrHeader_build {a : UDPAddr} (hport : 0 ≤ a.port ∧ a.port ≤ 65535) (payload : Bytes) :
    ∃ header, buildUDPAddrHeader (.udp a) = .ok header ∧
      parseUDPAddrHeader resolve (header ++ payload) = .ok (some a.received, payload) := by
  refine ⟨buildUDPAddr a.ip a.port, rfl, ?_⟩
  simp only [buildUDPAddr, addrBytes, UDPAddr.received]
  cases a.ip.unmapped with
  | v4 x =>
    simp only [cons_append, append_assoc]
    rw [parseHeader_v4]
    have hread := readIp_append "udpaddr: short IPv4 header" (fun n => .v4 (BitVec.ofNat 32 n)) [0x01]
      (toBytes 4 x.toNat) payload hport
    simpa [ofNat_ofBytes_toBytes] using hread
  | v6 x =>
    simp only [cons_append, append_assoc]
    rw [parseHeader_v6]
    have hread := readIp_append "udpaddr: short IPv6 header" (fun n => .v6 (BitVec.ofNat 128 n)) [0x04]
      (toBytes 16 x.toNat) payload hport
    simpa [ofNat_ofBytes_toBytes] using hread

/-- The laws of the two codecs, at some bytes, an address and a payload: parsing does not index out of
range, and gives back the address up to its IPv4-mapped form, the port and the payload. -/
structure CodecLaws (resolve : Bytes → ℕ → Except String UDPAddr) (data : Bytes) (a : UDPAddr)
    (payload : Bytes) : Prop where
  frame_safe : parseReverseUDPFrame resolve data ≠ .error .outOfRange
  frame_roundtrip : ∃ b, parseReverseUDPFrame resolve (buildReverseUDPFrame (.udp a) payload) =
    .ok (some b, payload) ∧ b.ip.unmapped = a.ip.unmapped ∧ b.port = a.port
  header_safe : parseUDPAddrHeader resolve data ≠ .error .outOfRange
  header_roundtrip : ∃ header, buildUDPAddrHeader (.udp a) = .ok header ∧
    ∃ b, parseUDPAddrHeader resolve (header ++ payload) = .ok (some b, payload) ∧
      b.ip.unmapped = a.ip.unmapped ∧ b.port = a.port

theorem unmapped_unmapped (ip : Ip) : ip.unmapped.unmapped = ip.unmapped := by
  cases h : ip.to4 with
  | none => simp [Ip.unmapped, h]
  | some a =>
    have hv : ip.unmapped = .v4 a := by simp [Ip.unmapped, h]
    rw [hv]
    rfl

/-- For all bytes, addresses, ports and payloads, and whatever names resolve to: the laws hold exactly if
the bytes are not a frame with a domain that lacks its last byte. -/
theorem codecLaws_iff_not_truncated (resolve : Bytes → ℕ → Except String UDPAddr) (data : Bytes)
    (a : UDPAddr) (hport : 0 ≤ a.port ∧ a.port ≤ 65535) (payload : Bytes) :
    CodecLaws resolve data a payload ↔ ¬ TruncatedDomain data := by
  constructor
  · exact fun h => (parseReverse_ne_outOfRange_iff data).mp h.frame_safe
  · intro h
    obtain ⟨header, hbuild, hparse⟩ := @parseUDPAddrHeader_build resolve a hport payload
    exact
      { frame_safe := (parseReverse_ne_outOfRange_iff data).mpr h
        frame_roundtrip := ⟨a.received, parseReverse_build hport payload, unmapped_unmapped a.ip, rfl⟩
        header_safe := parseUDPAddrHeader_ne_outOfRange data
        header_roundtrip := ⟨header, hbuild, a.received, hparse, unmapped_unmapped a.ip, rfl⟩ }

/-- A resolver that knows no name. -/
def noNames (_ : Bytes) (_ : ℕ) : Except String UDPAddr := .error "no such host"

/-- A complete frame for the domain `a`. -/
theorem codecLaws_iff_not_truncated_complete :
    CodecLaws noNames [0x00, 0x00, 0x03, 0x01, 0x61, 0x00, 0x35] { ip := .v4 0x01020304, port := 53 } [0x78] := by
  refine (codecLaws_iff_not_truncated noNames _ _ (by decide) _).mpr ?_
  rintro ⟨n, rest, he, -, hlen⟩
  obtain ⟨rfl, rfl⟩ := he
  exact absurd hlen (by decide)

/-- The same frame without its last byte: the port is read one byte behind the end. -/
theorem truncated_domain_outOfRange :
    parseReverseUDPFrame noNames [0x00, 0x00, 0x03, 0x01, 0x61, 0x00] = .error .outOfRange ∧
      ¬ CodecLaws noNames [0x00, 0x00, 0x03, 0x01, 0x61, 0x00] { ip := .v4 0x01020304, port := 53 } [] := by
  have hparse : parseReverseUDPFrame noNames [0x00, 0x00, 0x03, 0x01, 0x61, 0x00] = .error .outOfRange := rfl
  exact ⟨hparse, fun h => h.frame_safe hparse⟩

end UdpFrame
