import Phaethon.Common.Reader
import Phaethon.Common.SocksAddr

/-!
# Frames on a stream

`src/frame/frame.go`, `src/frame/transport.go` and `src/frame/packet_leg.go`: the encoders of a frame
(`WriteFrame`, `Send`, `SendBatch`, `EncodeDatagram`), each with its own buffering, and the decoders `ReadFrame` and
`ParseDatagramFrame`. An encoder gives the writes it makes on the connection, all of which succeed here.
-/

namespace Framing

open Reader SocksAddr List

/-! ## Encoders -/

/-- `MaxPayload`. -/
def maxPayload : ℕ := 65535

/-- `FrameHeaderSize`. -/
def frameHeaderSize : ℕ := 3

/-- `Frame`. -/
structure Frame where
  type : UInt8
  payload : List UInt8
  deriving DecidableEq, Repr

/-- The errors of the codec. -/
inductive Error where
  | payloadTooLarge (n : ℕ)
  | readHeader (cause : Fault)
  | readPayload (cause : Fault)
  | datagramTooShort (n : ℕ)
  | datagramTooLong (declared : ℕ)
  | datagramMismatch (declared actual : ℕ)
  deriving DecidableEq, Repr

/-- A write on the connection, of one buffer or of several at once (`net.Buffers`). -/
inductive Write where
  | write (buf : List UInt8)
  | writev (bufs : List (List UInt8))
  deriving DecidableEq, Repr

open Write

/-- The bytes of a write. -/
def Write.bytes : Write → List UInt8
  | .write buf => buf
  | .writev bufs => bufs.flatten

/-- The header as the transport builds it. -/
def header (f : Frame) : List UInt8 :=
  [f.type, (f.payload.length / 2 ^ 8).toUInt8, f.payload.length.toUInt8]

/-- `WriteFrame`. -/
def writeFrame (f : Frame) : Except Error (List Write) :=
  if maxPayload < f.payload.length then .error (.payloadTooLarge f.payload.length)
  else
    let hdr := f.type :: toBytes 2 f.payload.length
    .ok (.write hdr :: if 0 < f.payload.length then [.write f.payload] else [])

/-- `Send` of a stream transport. -/
def send (tcp : Bool) (f : Frame) : Except Error (List Write) :=
  if maxPayload < f.payload.length then .error (.payloadTooLarge f.payload.length)
  else if tcp ∧ 0 < f.payload.length then .ok [.writev [header f, f.payload]]
  else writeFrame f

/-- `copy(buf[offset:], bs)`. -/
def copyAt (buf : List UInt8) (offset : ℕ) (bs : List UInt8) : List UInt8 :=
  buf.take offset ++ bs.take (buf.length - offset) ++ buf.drop (offset + bs.length)

/-- One frame into the single buffer of `SendBatch`, at its offset. -/
def pack (b : List UInt8 × ℕ) (f : Frame) : List UInt8 × ℕ :=
  let buf := copyAt b.1 b.2 (header f)
  let offset := b.2 + frameHeaderSize
  if 0 < f.payload.length then (copyAt buf offset f.payload, offset + f.payload.length) else (buf, offset)

/-- The size that `SendBatch` computes for its buffer. -/
def totalSize (frames : List Frame) : ℕ := (frames.map fun f => frameHeaderSize + f.payload.length).sum

/-- `SendBatch` of a stream transport. -/
def sendBatch (tcp : Bool) : List Frame → Except Error (List Write)
  | [] => .ok []
  | [f] => send tcp f
  | frames =>
      match frames.find? fun f => maxPayload < f.payload.length with
      | some f => .error (.payloadTooLarge f.payload.length)
      | none =>
          if tcp then
            .ok [.writev (frames.flatMap fun f => header f :: if 0 < f.payload.length then [f.payload] else [])]
          else .ok [.write (frames.foldl pack (List.replicate (totalSize frames) 0, 0)).1]

/-- `serializeFrame`. -/
def serializeFrame (f : Frame) : List UInt8 :=
  if f.payload.length = 0 then header f else header f ++ f.payload

/-- `EncodeDatagram`. -/
def encodeDatagram (f : Frame) : List UInt8 := serializeFrame f

/-- The bytes on the stream after an encoder was called for one item after the other. -/
def stream {α : Type*} (encode : α → Except Error (List Write)) : List α → Except Error (List UInt8)
  | [] => .ok []
  | x :: xs => do
      let writes ← encode x
      let rest ← stream encode xs
      return writes.flatMap bytes ++ rest

/-! ## Decoders -/

/-- `ReadFrame`, with what is left on the connection. -/
def readFrame (input : List (Event UInt8)) : Except Error Frame × List (Event UInt8) :=
  match readFull frameHeaderSize input [] with
  | (.error cause, rest) => (.error (.readHeader cause), rest)
  | (.ok hdr, rest) =>
      let frameType := hdr.headD 0
      let length := ofBytes (hdr.drop 1)
      if maxPayload < length then (.error (.payloadTooLarge length), rest)
      else if length = 0 then (.ok ⟨frameType, []⟩, rest)
      else
        match readFull length rest [] with
        | (.error cause, rest) => (.error (.readPayload cause), rest)
        | (.ok payload, rest) => (.ok ⟨frameType, payload⟩, rest)

/-- `ReadFrame` called until it fails, at most `fuel` times. -/
def readAll : ℕ → List (Event UInt8) → List Frame × Option Error
  | 0, _ => ([], none)
  | fuel + 1, input =>
      match readFrame input with
      | (.error e, _) => ([], some e)
      | (.ok f, rest) => ((f :: (readAll fuel rest).1), (readAll fuel rest).2)

/-- `ParseDatagramFrame`. -/
def parseDatagramFrame (datagram : List UInt8) : Except Error Frame :=
  if datagram.length < frameHeaderSize then .error (.datagramTooShort datagram.length)
  else
    let frameType := datagram.headD 0
    let length := ofBytes ((datagram.drop 1).take 2)
    if maxPayload < length then .error (.datagramTooLong length)
    else if length ≠ datagram.length - frameHeaderSize then
      .error (.datagramMismatch length (datagram.length - frameHeaderSize))
    else .ok ⟨frameType, datagram.drop frameHeaderSize⟩

/-! ## What the encoders write -/

variable (f : Frame)

theorem serializeFrame_eq : serializeFrame f = header f ++ f.payload := by
  unfold serializeFrame
  split
  case isTrue hempty => rw [length_eq_zero_iff.mp hempty, append_nil]
  case isFalse => rfl

theorem length_serializeFrame : (serializeFrame f).length = frameHeaderSize + f.payload.length := by
  rw [serializeFrame_eq, length_append]
  rfl

/-- A payload that is passed over when it is empty leaves no bytes out. -/
theorem flatten_payload : (if 0 < f.payload.length then [f.payload] else []).flatten = f.payload := by
  split
  case isTrue => simp
  case isFalse hempty => simpa using hempty

theorem header_eq : header f = f.type :: toBytes 2 f.payload.length := rfl

/-- An encoder writes these bytes for an item. -/
def Writes {α : Type*} (encode : α → Except Error (List Write)) (x : α) (bs : List UInt8) : Prop :=
  ∃ writes, encode x = .ok writes ∧ writes.flatMap bytes = bs

variable {f : Frame}

theorem writeFrame_writes (h : f.payload.length ≤ maxPayload) : Writes writeFrame f (serializeFrame f) := by
  refine ⟨_, if_neg (Nat.not_lt.mpr h), ?_⟩
  rw [serializeFrame_eq, header_eq]
  split
  case isTrue => simp [bytes]
  case isFalse hempty =>
    have hnil : f.payload = [] := by simpa using hempty
    simp [bytes, hnil]

theorem send_writes (h : f.payload.length ≤ maxPayload) (tcp : Bool) : Writes (send tcp) f (serializeFrame f) := by
  by_cases hv : tcp ∧ 0 < f.payload.length
  · refine ⟨[.writev [header f, f.payload]], ?_, ?_⟩
    · rw [send, if_neg (Nat.not_lt.mpr h), if_pos hv]
    · simp [bytes, serializeFrame_eq]
  · obtain ⟨writes, hwrites, hbytes⟩ := writeFrame_writes h
    refine ⟨writes, ?_, hbytes⟩
    rw [send, if_neg (Nat.not_lt.mpr h), if_neg hv, hwrites]

/-- Copying to where the written part ends makes it longer. -/
theorem copyAt_append (done room bs : List UInt8) (h : bs.length ≤ room.length) :
    copyAt (done ++ room) done.length bs = done ++ bs ++ room.drop bs.length := by
  have hroom : (done ++ room).length - done.length = room.length := by simp
  rw [copyAt, hroom, take_of_length_le h, take_left, drop_append]
  simp

theorem pack_append (done room : List UInt8) (f : Frame) (h : (serializeFrame f).length ≤ room.length) :
    pack (done ++ room, done.length) f =
      (done ++ serializeFrame f ++ room.drop (serializeFrame f).length,
        (done ++ serializeFrame f).length) := by
  rw [length_serializeFrame] at h
  have hheader : (header f).length = frameHeaderSize := rfl
  have hhdr := copyAt_append done room (header f) (by omega)
  have hoffset : done.length + frameHeaderSize = (done ++ header f).length := by rw [length_append, hheader]
  unfold pack
  dsimp only
  rw [hhdr, hoffset]
  split
  case isTrue =>
    rw [copyAt_append _ _ _ (by rw [length_drop]; omega), drop_drop]
    simp [serializeFrame_eq, hheader, Nat.add_assoc]
  case isFalse hempty =>
    have hnil : f.payload = [] := by simpa using hempty
    simp [serializeFrame_eq, hnil]

/-- The loop of `SendBatch` fills its buffer with the frames, one after the other. -/
theorem foldl_pack (frames : List Frame) (done room : List UInt8)
    (h : (frames.flatMap serializeFrame).length = room.length) :
    (frames.foldl pack (done ++ room, done.length)).1 = done ++ frames.flatMap serializeFrame := by
  induction frames generalizing done room with
  | nil => simpa using h.symm
  | cons f frames ih =>
    rw [flatMap_cons, length_append] at h
    rw [foldl_cons, pack_append done room f (by omega), ih _ _ (by rw [length_drop]; omega),
      flatMap_cons, append_assoc]

theorem length_flatMap_serializeFrame (frames : List Frame) :
    (frames.flatMap serializeFrame).length = totalSize frames := by
  rw [length_flatMap, totalSize]
  congr 1
  exact map_congr_left fun f _ => length_serializeFrame f

theorem sendBatch_writes {frames : List Frame} (h : ∀ f ∈ frames, f.payload.length ≤ maxPayload) (tcp : Bool) :
    Writes (sendBatch tcp) frames (frames.flatMap serializeFrame) := by
  match frames, h with
  | [], _ => exact ⟨[], rfl, rfl⟩
  | [f], h =>
    obtain ⟨writes, hwrites, hbytes⟩ := send_writes (h f (by simp)) tcp
    exact ⟨writes, hwrites, by rw [hbytes]; simp⟩
  | f :: g :: frames, h =>
    have hfind : ((f :: g :: frames).find? fun f => maxPayload < f.payload.length) = none := by
      simpa only [find?_eq_none, decide_eq_true_eq, Nat.not_lt] using h
    cases tcp with
    | true =>
      refine ⟨[.writev ((f :: g :: frames).flatMap fun f =>
        header f :: if 0 < f.payload.length then [f.payload] else [])], ?_, ?_⟩
      · simp only [sendBatch, hfind, if_true]
      · rw [flatMap_singleton, bytes, ← flatMap_id, flatMap_assoc]
        congr 1
        funext f
        rw [flatMap_id, flatten_cons, flatten_payload, serializeFrame_eq]
    | false =>
      have hbatch : sendBatch false (f :: g :: frames) = .ok [.write
          ((f :: g :: frames).foldl pack (List.replicate (totalSize (f :: g :: frames)) 0, 0)).1] := by
        simp only [sendBatch, hfind, Bool.false_eq_true, if_false]
      refine ⟨_, hbatch, ?_⟩
      have hpack := foldl_pack (f :: g :: frames) [] (List.replicate (totalSize (f :: g :: frames)) 0)
        (by rw [length_flatMap_serializeFrame, length_replicate])
      simpa [bytes] using hpack

theorem stream_eq {α : Type*} {encode : α → Except Error (List Write)} {bytes : α → List UInt8} {xs : List α}
    (h : ∀ x ∈ xs, Writes encode x (bytes x)) : stream encode xs = .ok (xs.flatMap bytes) := by
  induction xs with
  | nil => rfl
  | cons x xs ih =>
    obtain ⟨writes, hwrites, hbytes⟩ := h x (by simp)
    rw [stream, hwrites, ih fun y hy => h y (by simp [hy]), flatMap_cons, ← hbytes]
    rfl

/-! ## What the decoders read -/

theorem ofBytes_length (f : Frame) (h : f.payload.length ≤ maxPayload) :
    ofBytes (toBytes 2 f.payload.length) = f.payload.length := by
  rw [ofBytes_toBytes, Nat.mod_eq_of_lt (Nat.lt_of_le_of_lt h (by decide))]

theorem parseDatagramFrame_encodeDatagram (h : f.payload.length ≤ maxPayload) :
    parseDatagramFrame (encodeDatagram f) = .ok f := by
  have hlength := length_serializeFrame f
  have hdeclared : ofBytes (((serializeFrame f).drop 1).take 2) = f.payload.length := by
    rw [serializeFrame_eq, header_eq, cons_append, drop_succ_cons, drop_zero,
      take_left' (length_toBytes ..), ofBytes_length f h]
  have hhead : (serializeFrame f).headD 0 = f.type := by rw [serializeFrame_eq]; rfl
  have hrest : (serializeFrame f).drop frameHeaderSize = f.payload := by rw [serializeFrame_eq]; rfl
  rw [encodeDatagram, parseDatagramFrame, if_neg (by omega)]
  simp only [hdeclared, hhead, hrest]
  rw [if_neg (by omega), if_neg (by omega)]

/-- The start of a stream is the start of what was written. -/
theorem eq_of_append_isPrefix {xs ys as bs : List UInt8} (hlen : xs.length = as.length)
    (h : xs ++ ys <+: as ++ bs) : xs = as ∧ ys <+: bs := by
  obtain ⟨zs, hzs⟩ := h
  rw [append_assoc] at hzs
  obtain ⟨rfl, rfl⟩ := append_inj hzs hlen
  exact ⟨rfl, prefix_append ys zs⟩

variable {input : List (Event UInt8)}

/-- `ReadFrame` once it has the header of a frame. -/
theorem readFrame_of_header (hsize : f.payload.length ≤ maxPayload) {mid : List (Event UInt8)}
    (hhdr : readFull frameHeaderSize input [] = (.ok (header f), mid)) :
    readFrame input =
      if f.payload.length = 0 then (.ok ⟨f.type, []⟩, mid)
      else
        match readFull f.payload.length mid [] with
        | (.error cause, rest) => (.error (.readPayload cause), rest)
        | (.ok payload, rest) => (.ok ⟨f.type, payload⟩, rest) := by
  have hdeclared : ofBytes ((header f).drop 1) = f.payload.length := by
    rw [header_eq, drop_succ_cons, drop_zero, ofBytes_length f hsize]
  have htype : (header f).headD 0 = f.type := rfl
  simp only [readFrame, hhdr, hdeclared, htype]
  rw [if_neg (Nat.not_lt.mpr hsize)]

/-- Reading a frame that comes next on the stream, from position `pos`, when no deadline expires inside it. The
frame is read, or a deadline expires before its first byte, or the stream ends in it. -/
theorem readFrame_cases (hsize : f.payload.length ≤ maxPayload)
    {more : List UInt8} {pos : ℕ} (hbytes : delivered input <+: serializeFrame f ++ more)
    (hwhole : ∀ p ∈ expiries pos input, p ≤ pos ∨ pos + (serializeFrame f).length ≤ p) :
    (∃ rest, readFrame input = (.ok f, rest) ∧ Taken input (serializeFrame f) rest) ∨
      (∃ rest, readFrame input = (.error (.readHeader .timeout), rest) ∧ Taken input [] (.timeout :: rest)) ∨
      ∃ e bs, readFrame input = (.error e, []) ∧ bs.length < (serializeFrame f).length ∧ Taken input bs [] ∧
        (bs = [] → e = .readHeader .eof) := by
  have hlength := length_serializeFrame f
  have hout := readFull_outcome frameHeaderSize input []
  rcases hfull : readFull frameHeaderSize input [] with ⟨r, mid⟩
  rw [hfull] at hout
  cases hout with
  | @expired bs _ hlen htaken =>
    have hpos : pos + bs.length ∈ expiries pos input := by simp [htaken.expiries, expiries]
    have hnone : bs = [] := by
      have := hwhole _ hpos
      exact length_eq_zero_iff.mp (by omega)
    subst hnone
    exact .inr (.inl ⟨mid, by rw [readFrame, hfull], htaken⟩)
  | @ended bs hlen htaken =>
    refine .inr (.inr ⟨_, bs, by rw [readFrame, hfull], by omega, htaken, fun hnil => ?_⟩)
    rw [hnil]
    rfl
  | @filled bs _ hlen htaken =>
    -- The first three bytes are the header, so the rest begins with the payload.
    rw [htaken.delivered, serializeFrame_eq, append_assoc] at hbytes
    obtain ⟨rfl, hrest⟩ := eq_of_append_isPrefix (show bs.length = (header f).length from hlen) hbytes
    have hread := readFrame_of_header hsize hfull
    by_cases hempty : f.payload.length = 0
    · refine .inl ⟨mid, ?_, ?_⟩
      · rw [hread, if_pos hempty, ← length_eq_zero_iff.mp hempty]
      · rwa [serializeFrame, if_pos hempty]
    rw [if_neg hempty] at hread
    have hout := readFull_outcome f.payload.length mid []
    rcases hpay : readFull f.payload.length mid [] with ⟨r, rest⟩
    rw [hpay] at hout hread
    cases hout with
    | @filled bs _ hlen' htaken' =>
      rw [htaken'.delivered] at hrest
      obtain ⟨rfl, -⟩ := eq_of_append_isPrefix hlen' hrest
      exact .inl ⟨rest, hread, serializeFrame_eq f ▸ htaken.trans htaken'⟩
    | @expired bs _ hlen' htaken' =>
      -- A deadline in the payload would be inside the frame.
      have hpos : pos + frameHeaderSize + bs.length ∈ expiries pos input := by
        rw [htaken.expiries, htaken'.expiries, hlen]
        simp [expiries]
      have := hwhole _ hpos
      have : 0 < frameHeaderSize := by decide
      omega
    | @ended bs hlen' htaken' =>
      refine .inr (.inr ⟨_, header f ++ bs, hread, ?_, htaken.trans htaken', ?_⟩)
      · rw [length_append, hlength, hlen]
        omega
      · intro hnil
        exact absurd hnil (cons_ne_nil _ _)

/-- Reading where no bytes come any more: a deadline expires, or the stream has ended. -/
theorem readFrame_nothing (h : delivered input = []) :
    (∃ rest, readFrame input = (.error (.readHeader .timeout), rest) ∧ Taken input [] (.timeout :: rest)) ∨
      readFrame input = (.error (.readHeader .eof), []) ∧ Taken input [] [] := by
  have hout := readFull_outcome frameHeaderSize input []
  rcases hfull : readFull frameHeaderSize input [] with ⟨r, mid⟩
  rw [hfull] at hout
  cases hout with
  | @filled bs _ hlen htaken =>
    rw [htaken.delivered] at h
    obtain ⟨rfl, -⟩ := append_eq_nil_iff.mp h
    exact absurd hlen (by decide)
  | @expired bs _ hlen htaken =>
    rw [htaken.delivered] at h
    obtain ⟨rfl, -⟩ := append_eq_nil_iff.mp h
    exact .inl ⟨mid, by rw [readFrame, hfull], htaken⟩
  | @ended bs hlen htaken =>
    rw [htaken.delivered] at h
    obtain ⟨rfl, -⟩ := append_eq_nil_iff.mp h
    refine .inr ⟨?_, htaken⟩
    rw [readFrame, hfull]
    rfl

/-! ## Round trip -/

variable (fragments : List (List UInt8))

theorem delivered_map_data : delivered (fragments.map .data) = fragments.flatten := by
  induction fragments with
  | nil => rfl
  | cons bs fragments ih => rw [map_cons, delivered, ih, flatten_cons]

theorem expiries_map_data (pos : ℕ) : expiries pos (fragments.map .data) = [] := by
  induction fragments generalizing pos with
  | nil => rfl
  | cons bs fragments ih => rw [map_cons, expiries, ih]

/-- Without deadlines, the frames on a stream are read one after the other, and then its end. -/
theorem readAll_eq {frames : List Frame} (hsize : ∀ f ∈ frames, f.payload.length ≤ maxPayload) {pos : ℕ}
    (hbytes : delivered input = frames.flatMap serializeFrame)
    (hnever : expiries pos input = []) {fuel : ℕ} (hfuel : frames.length < fuel) :
    readAll fuel input = (frames, some (.readHeader .eof)) := by
  induction frames generalizing input pos fuel with
  | nil =>
    obtain ⟨fuel, rfl⟩ := Nat.exists_eq_succ_of_ne_zero (Nat.ne_zero_of_lt hfuel)
    rcases readFrame_nothing hbytes with ⟨rest, -, htaken⟩ | ⟨hread, -⟩
    · rw [htaken.expiries] at hnever
      exact absurd hnever (cons_ne_nil _ _)
    · rw [readAll, hread]
  | cons f frames ih =>
    obtain ⟨fuel, rfl⟩ := Nat.exists_eq_succ_of_ne_zero (Nat.ne_zero_of_lt hfuel)
    rw [flatMap_cons] at hbytes
    have hwhole : ∀ p ∈ expiries pos input, p ≤ pos ∨ pos + (serializeFrame f).length ≤ p := by simp [hnever]
    have hnext : delivered input <+: serializeFrame f ++ frames.flatMap serializeFrame := by rw [hbytes]
    rcases readFrame_cases (hsize f (by simp)) hnext hwhole with
      ⟨rest, hread, htaken⟩ | ⟨rest, -, htaken⟩ | ⟨e, bs, -, hlen, htaken, -⟩
    · rw [htaken.delivered] at hbytes
      rw [htaken.expiries] at hnever
      have hrest := ih (fun g hg => hsize g (by simp [hg])) (append_cancel_left hbytes) hnever
        (Nat.lt_of_succ_lt_succ hfuel)
      rw [readAll, hread]
      simp only [hrest]
    · rw [htaken.expiries] at hnever
      exact absurd hnever (cons_ne_nil _ _)
    · rw [htaken.delivered, delivered, append_nil] at hbytes
      rw [hbytes, length_append] at hlen
      omega

/-- All encoders put the same bytes on a stream, however the frames are split into batches, and the decoder gives the
frames back, however the bytes are split into reads, and then a clean end of the stream. One frame in a datagram is
given back too. -/
theorem roundTrip (frames : List Frame) (hsize : ∀ f ∈ frames, f.payload.length ≤ maxPayload) :
    ∃ bytes,
      stream writeFrame frames = .ok bytes ∧
      (∀ tcp, stream (send tcp) frames = .ok bytes) ∧
      (∀ tcp (batches : List (List Frame)), batches.flatten = frames →
        stream (sendBatch tcp) batches = .ok bytes) ∧
      (∀ (fragments : List (List UInt8)) (fuel : ℕ), fragments.flatten = bytes → frames.length < fuel →
        readAll fuel (fragments.map .data) = (frames, some (.readHeader .eof))) ∧
      ∀ f ∈ frames, parseDatagramFrame (encodeDatagram f) = .ok f := by
  refine ⟨frames.flatMap serializeFrame, stream_eq fun f hf => writeFrame_writes (hsize f hf),
    fun tcp => stream_eq fun f hf => send_writes (hsize f hf) tcp, ?_, ?_,
    fun f hf => parseDatagramFrame_encodeDatagram (hsize f hf)⟩
  · rintro tcp batches rfl
    have hbatches : ∀ batch ∈ batches, Writes (sendBatch tcp) batch (batch.flatMap serializeFrame) :=
      fun batch hbatch => sendBatch_writes (fun f hf => hsize f (mem_flatten_of_mem hbatch hf)) tcp
    rw [stream_eq hbatches, ← flatMap_id, flatMap_assoc]
    rfl
  · intro fragments fuel hbytes hfuel
    exact readAll_eq hsize ((delivered_map_data fragments).trans hbytes) (expiries_map_data fragments 0) hfuel

/-- Three frames, one of them empty. -/
def threeFrames : List Frame := [⟨0x12, [1, 2]⟩, ⟨0x20, []⟩, ⟨0x05, [7]⟩]

theorem roundTrip_threeFrames :
    (∀ f ∈ threeFrames, f.payload.length ≤ maxPayload) ∧ ∃ bytes, stream writeFrame threeFrames = .ok bytes ∧
      ∀ fragments : List (List UInt8), fragments.flatten = bytes →
        readAll 4 (fragments.map .data) = (threeFrames, some (.readHeader .eof)) := by
  have hsize : ∀ f ∈ threeFrames, f.payload.length ≤ maxPayload := by decide
  obtain ⟨bytes, hwrite, -, -, hread, -⟩ := roundTrip threeFrames hsize
  exact ⟨hsize, bytes, hwrite, fun fragments hbytes => hread fragments 4 hbytes (by decide)⟩

end Framing
