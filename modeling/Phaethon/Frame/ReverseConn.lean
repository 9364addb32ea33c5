import Phaethon.Frame.Codec

/-!
# The framed connection of a reverse proxy

`src/frame/frame.go`, `ReverseFramedConn`: `Write` sends data frames, with heartbeats between them, and `Read` takes
the data out of the frames that arrive. Underneath, the reader's connection gives fragments of the stream
and lets read deadlines expire (`Reader.Event`). A deadline that expires inside a frame loses the part of the frame
already read; `transparent_of_punctual` is about all other runs.
-/

namespace Framing

open Reader List

/-! ## The writing side -/

/-- `FrameHeartbeat`. -/
def frameHeartbeat : UInt8 := 0x01

/-- `FramePong`. -/
def framePong : UInt8 := 0x02

/-- `FramePeng`. -/
def framePeng : UInt8 := 0x03

/-- `FrameData`. -/
def frameData : UInt8 := 0x05

/-- What happens on the writing side, one at a time under `writeMu`. -/
inductive Op where
  | write (b : List UInt8)
  | heartbeat
  deriving DecidableEq, Repr

open Op

/-- The frame of a `Write` or of a round of `heartbeatSender`. -/
def Op.frame : Op → Frame
  | .write b => ⟨frameData, b⟩
  | .heartbeat => ⟨frameHeartbeat, []⟩

/-- `Write`, or a round of `heartbeatSender`: the bytes put on the stream, or the error. -/
def Op.run (op : Op) : Except Error (List UInt8) :=
  (writeFrame op.frame).map fun writes => writes.flatMap Write.bytes

/-- The stream after some operations; those that fail put nothing on it. -/
def wire (ops : List Op) : List UInt8 := ops.flatMap fun op => (op.run.toOption).getD []

/-- What a call of `Write` was given, if it succeeded. -/
def Op.accepted (op : Op) : List UInt8 :=
  match op with
  | .write b => if op.run.isOk then b else []
  | .heartbeat => []

/-- What the calls of `Write` that succeeded were given. -/
def written (ops : List Op) : List UInt8 := ops.flatMap accepted

/-! ## The reading side -/

/-- `bytesBuffer`. -/
structure BytesBuffer where
  buf : List UInt8
  pos : ℕ
  le : pos ≤ buf.length

namespace BytesBuffer

/-- `newBytesBuffer`. -/
def new : BytesBuffer := ⟨[], 0, Nat.le_refl 0⟩

variable (b : BytesBuffer)

/-- The bytes not read yet. -/
def unread : List UInt8 := b.buf.drop b.pos

/-- `bytesBuffer.Write`. -/
def write (p : List UInt8) : BytesBuffer where
  buf := b.buf ++ p
  pos := b.pos
  le := b.le.trans (by simp)

/-- `bytesBuffer.Read` into a buffer of `size` bytes. -/
def read (size : ℕ) : List UInt8 × BytesBuffer :=
  if b.buf.length ≤ b.pos then ([], b)
  else
    let p := (b.buf.drop b.pos).take size
    if h : b.pos + p.length < b.buf.length then (p, ⟨b.buf, b.pos + p.length, h.le⟩) else (p, new)

@[simp]
theorem unread_write (p : List UInt8) : (b.write p).unread = b.unread ++ p :=
  drop_append_of_le_length b.le

/-- A read takes bytes from the front, and none only if there are none or none are asked for. -/
theorem read_spec (size : ℕ) :
    b.unread = (b.read size).1 ++ (b.read size).2.unread ∧
      ((b.read size).1 = [] → b.unread = [] ∨ size = 0) := by
  unfold read
  split
  case isTrue hend => exact ⟨rfl, fun _ => .inl (drop_eq_nil_of_le hend)⟩
  case isFalse hmore =>
    have hnone : (b.buf.drop b.pos).take size = [] → b.unread = [] ∨ size = 0 := fun h =>
      (take_eq_nil_iff.mp h).symm
    have hsplit : b.unread = b.unread.take size ++ b.unread.drop (b.unread.take size).length := by
      rcases Nat.le_total size b.unread.length with hle | hle
      · rw [length_take_of_le hle, take_append_drop]
      · rw [take_of_length_le hle, drop_length, append_nil]
    dsimp only
    split
    case isTrue hpart =>
      refine ⟨?_, hnone⟩
      rw [unread, drop_drop] at hsplit
      exact hsplit
    case isFalse hall =>
      refine ⟨?_, hnone⟩
      have hrest : b.unread.drop (b.unread.take size).length = [] := by
        rw [unread, drop_drop]
        exact drop_eq_nil_of_le (Nat.not_lt.mp hall)
      rw [hrest] at hsplit
      exact hsplit

end BytesBuffer

/-- `ReverseFramedConn`, with what its connection is going to give. -/
structure ReverseFramedConn where
  input : List (Event UInt8)
  readBuf : BytesBuffer

open ReverseFramedConn

namespace ReverseFramedConn

/-- `NewReverseFramedConn`. -/
def new (input : List (Event UInt8)) : ReverseFramedConn := ⟨input, .new⟩

/-- What `Read` does with a frame: it keeps the payload of a data frame. -/
def accept (f : Frame) (b : BytesBuffer) : BytesBuffer :=
  if f.type = frameHeartbeat ∨ f.type = framePong ∨ f.type = framePeng then b
  else if f.type = frameData then if 0 < f.payload.length then b.write f.payload else b
  else b

/-- The loop of `Read`, for at most `fuel` rounds. -/
def readLoop : ℕ → ReverseFramedConn → ℕ → Option (Except Error (List UInt8) × ReverseFramedConn)
  | 0, _, _ => none
  | fuel + 1, c, size =>
      let (p, readBuf) := c.readBuf.read size
      if 0 < p.length then some (.ok p, { c with readBuf := readBuf })
      else
        match readFrame c.input with
        | (.error e, rest) => some (.error e, ⟨rest, readBuf⟩)
        | (.ok f, rest) => readLoop fuel ⟨rest, accept f readBuf⟩ size

/-- `Read`: every round takes at least a header from the connection. -/
def read (c : ReverseFramedConn) (size : ℕ) : Option (Except Error (List UInt8) × ReverseFramedConn) :=
  readLoop ((delivered c.input).length + 1) c size

/-- The results of one `Read` after the other, or `none` if one does not return. -/
def reads : ReverseFramedConn → List ℕ → Option (List (Except Error (List UInt8)))
  | _, [] => some []
  | c, size :: sizes => do
      let (r, c) ← c.read size
      let rs ← reads c sizes
      return r :: rs

end ReverseFramedConn

/-- The bytes of the reads that succeeded. -/
def received (rs : List (Except Error (List UInt8))) : List UInt8 := rs.flatMap fun r => r.toOption.getD []

/-! ## Transparency -/

/-- The positions between the frames on a stream. -/
def boundaries : ℕ → List Frame → List ℕ
  | pos, [] => [pos]
  | pos, f :: fs => pos :: boundaries (pos + (serializeFrame f).length) fs

variable (ops : List Op)

/-- The frames that some operations put on the stream. -/
def sent : List Frame := (ops.filter fun op => op.run.isOk).map frame

variable (input : List (Event UInt8))

/-- Reads give the bytes written, from the first on. If all of the stream arrives and a `Read` into a
buffer that is not empty meets its end, then the reads before gave all of them. -/
def Transparent (sizes : List ℕ) : Prop :=
  ∃ rs, (new input).reads sizes = some rs ∧ received rs <+: written ops ∧
    (delivered input = wire ops →
      ∀ (i : ℕ) (size : ℕ), sizes[i]? = some size → 0 < size → rs[i]? = some (.error (.readHeader .eof)) →
        received (rs.take i) = written ops)

/-- Every deadline expires between two frames. -/
def Punctual : Prop :=
  ∀ p ∈ expiries 0 input, p ∈ boundaries 0 (sent ops)

/-! ### The frames of the operations -/

/-- The data of a frame. -/
def Frame.data (f : Frame) : List UInt8 := if f.type = frameData then f.payload else []

theorem Op.run_eq (op : Op) :
    op.run =
      if op.frame.payload.length ≤ maxPayload then .ok (serializeFrame op.frame)
      else .error (.payloadTooLarge op.frame.payload.length) := by
  split
  case isTrue hsize =>
    obtain ⟨writes, hwrites, hbytes⟩ := writeFrame_writes hsize
    rw [run, hwrites, ← hbytes]
    rfl
  case isFalse hsize =>
    rw [run, writeFrame, if_pos (Nat.lt_of_not_le hsize)]
    rfl

theorem Op.isOk_run (op : Op) : op.run.isOk = true ↔ op.frame.payload.length ≤ maxPayload := by
  rw [run_eq]
  split <;> simp_all [Except.isOk, Except.toBool]

theorem mem_sent {ops : List Op} {f : Frame} (h : f ∈ sent ops) : f.payload.length ≤ maxPayload := by
  obtain ⟨op, hop, rfl⟩ := mem_map.mp h
  exact op.isOk_run.mp (mem_filter.mp hop).2

theorem sent_cons (op : Op) (ops : List Op) :
    sent (op :: ops) = (if op.run.isOk then [op.frame] else []) ++ sent ops := by
  unfold sent
  rw [filter_cons]
  split <;> simp

theorem wire_eq (ops : List Op) : wire ops = (sent ops).flatMap serializeFrame := by
  induction ops with
  | nil => rfl
  | cons op ops ih =>
    rw [sent_cons, flatMap_append, ← ih, wire, flatMap_cons, ← wire]
    congr 1
    rw [run_eq]
    split <;> simp [Except.isOk, Except.toBool, Except.toOption]

theorem written_eq (ops : List Op) : written ops = (sent ops).flatMap Frame.data := by
  induction ops with
  | nil => rfl
  | cons op ops ih =>
    rw [sent_cons, flatMap_append, ← ih, written, flatMap_cons, ← written]
    congr 1
    cases op with
    | write b =>
      rw [accepted]
      split <;> simp [Frame.data, frame]
    | heartbeat =>
      rw [accepted]
      split <;> simp [Frame.data, frame, frameData, frameHeartbeat]

theorem ReverseFramedConn.unread_accept (f : Frame) (b : BytesBuffer) : (accept f b).unread = b.unread ++ f.data := by
  unfold accept Frame.data
  split
  case isTrue hcontrol =>
    have hother : f.type ≠ frameData := by rcases hcontrol with h | h | h <;> rw [h] <;> decide
    rw [if_neg hother, append_nil]
  case isFalse =>
    split
    case isFalse => rw [append_nil]
    case isTrue hdata =>
      split
      case isTrue => rw [BytesBuffer.unread_write]
      case isFalse hempty => rw [length_eq_zero_iff.mp (Nat.le_zero.mp (Nat.not_lt.mp hempty)), append_nil]

/-! ### One read -/

theorem expiries_ge {pos p : ℕ} {input : List (Event UInt8)} (h : p ∈ expiries pos input) : pos ≤ p := by
  induction input generalizing pos with
  | nil => simp [expiries] at h
  | cons e input ih =>
    cases e with
    | data bs => exact (Nat.le_add_right ..).trans (ih h)
    | timeout =>
      rcases mem_cons.mp h with rfl | h
      · exact le_rfl
      · exact ih h

theorem boundaries_ge {pos p : ℕ} {fs : List Frame} (h : p ∈ boundaries pos fs) : pos ≤ p := by
  induction fs generalizing pos with
  | nil => exact (mem_singleton.mp h).ge
  | cons f fs ih =>
    rcases mem_cons.mp h with rfl | h
    · exact le_rfl
    · exact (Nat.le_add_right ..).trans (ih h)

/-- The reader is between two frames: what was read, what is buffered and the frames `fs` to come are together what
was written. If `whole` holds, all of those frames arrive. -/
structure Synced (whole : Prop) (total : List UInt8) (c : ReverseFramedConn) (done : List UInt8) (pos : ℕ)
    (fs : List Frame) : Prop where
  size : ∀ f ∈ fs, f.payload.length ≤ maxPayload
  bytes : delivered c.input <+: fs.flatMap serializeFrame
  whole : whole → delivered c.input = fs.flatMap serializeFrame
  punctual : ∀ p ∈ expiries pos c.input, p ∈ boundaries pos fs
  content : done ++ c.readBuf.unread ++ fs.flatMap Frame.data = total

namespace Synced

variable {whole : Prop} {total done : List UInt8} {c : ReverseFramedConn} {pos : ℕ} {fs : List Frame} {f : Frame}

/-- A read from the buffer. -/
theorem take (h : Synced whole total c done pos fs) (size : ℕ) :
    Synced whole total { c with readBuf := (c.readBuf.read size).2 } (done ++ (c.readBuf.read size).1) pos fs :=
  { h with
    content := by
      have hcontent := h.content
      rw [(c.readBuf.read_spec size).1] at hcontent
      simpa using hcontent }

/-- A whole frame is taken from the connection. -/
theorem frame (h : Synced whole total c done pos (f :: fs)) {rest : List (Event UInt8)}
    (htaken : Taken c.input (serializeFrame f) rest) :
    Synced whole total ⟨rest, accept f c.readBuf⟩ done (pos + (serializeFrame f).length) fs where
  size g hg := h.size g (mem_cons_of_mem _ hg)
  bytes := by
    have hbytes := h.bytes
    rw [htaken.delivered, flatMap_cons] at hbytes
    exact (prefix_append_right_inj _).mp hbytes
  whole hw := by
    have hbytes := h.whole hw
    rw [htaken.delivered, flatMap_cons] at hbytes
    exact append_cancel_left hbytes
  punctual p hp := by
    have hge := expiries_ge hp
    have hpos := length_serializeFrame f
    have hheader : 0 < frameHeaderSize := by decide
    rw [← htaken.expiries pos] at hp
    rcases mem_cons.mp (h.punctual p hp) with rfl | hp
    · omega
    · exact hp
  content := by
    have hcontent := h.content
    rw [unread_accept]
    simpa using hcontent

/-- A deadline expires. -/
theorem expire (h : Synced whole total c done pos fs) {rest : List (Event UInt8)}
    (htaken : Taken c.input [] (.timeout :: rest)) : Synced whole total ⟨rest, c.readBuf⟩ done pos fs :=
  have hsame : delivered c.input = delivered rest := htaken.delivered
  { h with
    bytes := hsame ▸ h.bytes
    whole := hsame ▸ h.whole
    punctual := fun p hp => h.punctual p (by
      rw [htaken.expiries]
      exact mem_cons_of_mem _ hp) }

/-- The stream ends, before the next frame is complete if there is one. -/
theorem finish (h : Synced whole total c done pos fs) (hfs : whole → fs = []) :
    Synced whole total ⟨[], c.readBuf⟩ done pos fs :=
  { h with
    bytes := nil_prefix
    whole := fun hw => by rw [hfs hw]; rfl
    punctual := by simp [expiries] }

/-- What a call of `Read` comes to. -/
def Result (whole : Prop) (total done : List UInt8) (size : ℕ) :
    Option (Except Error (List UInt8) × ReverseFramedConn) → Prop
  | none => False
  | some (.ok p, c) => ∃ pos fs, Synced whole total c (done ++ p) pos fs
  | some (.error e, c) =>
      (∃ pos fs, Synced whole total c done pos fs) ∧
        (whole → 0 < size → e = .readHeader .eof → done = total)

theorem readLoop (h : Synced whole total c done pos fs) (size : ℕ) {fuel : ℕ}
    (hfuel : (delivered c.input).length < fuel) : Result whole total done size (c.readLoop fuel size) := by
  induction fuel generalizing c pos fs with
  | zero => omega
  | succ fuel ih =>
    have htake := h.take size
    rw [readLoop]
    dsimp only
    split
    case isTrue hsome => exact ⟨pos, fs, htake⟩
    case isFalse hnone =>
      have hempty : (c.readBuf.read size).1 = [] := length_eq_zero_iff.mp (Nat.eq_zero_of_not_pos hnone)
      rw [hempty, append_nil] at htake
      cases fs with
      | nil =>
        have hnothing : delivered c.input = [] := prefix_nil.mp h.bytes
        rcases readFrame_nothing hnothing with ⟨rest, hread, htaken⟩ | ⟨hread, htaken⟩
        · rw [hread]
          exact ⟨⟨pos, [], htake.expire htaken⟩, by simp⟩
        · rw [hread]
          refine ⟨⟨pos, [], htake.finish fun _ => rfl⟩, fun _ hsize _ => ?_⟩
          have hunread := ((c.readBuf.read_spec size).2 hempty).resolve_right hsize.ne'
          have hcontent := h.content
          simpa [hunread] using hcontent
      | cons f fs =>
        have hwhole : ∀ p ∈ expiries pos c.input, p ≤ pos ∨ pos + (serializeFrame f).length ≤ p := fun p hp =>
          (mem_cons.mp (h.punctual p hp)).imp le_of_eq boundaries_ge
        have hbytes := h.bytes
        rcases readFrame_cases (h.size f mem_cons_self) hbytes hwhole with
          ⟨rest, hread, htaken⟩ | ⟨rest, hread, htaken⟩ | ⟨e, bs, hread, hlen, htaken, -⟩
        · rw [hread]
          refine ih (htake.frame htaken) ?_
          have hless := length_serializeFrame f
          have hheader : 0 < frameHeaderSize := by decide
          rw [htaken.delivered, length_append] at hfuel
          dsimp only
          omega
        · rw [hread]
          exact ⟨⟨pos, f :: fs, htake.expire htaken⟩, by simp⟩
        · rw [hread]
          -- Less than a frame arrives, so the stream is not whole.
          have hbroken : ¬ whole := fun hw => by
            have hall := h.whole hw
            rw [htaken.delivered, delivered, append_nil, flatMap_cons] at hall
            rw [hall, length_append] at hlen
            omega
          exact ⟨⟨pos, f :: fs, htake.finish fun hw => absurd hw hbroken⟩, fun hw => absurd hw hbroken⟩

/-- One `Read` after the other. -/
theorem reads (h : Synced whole total c done pos fs) (sizes : List ℕ) :
    ∃ rs, c.reads sizes = some rs ∧ done ++ received rs <+: total ∧
      (whole → ∀ (i : ℕ) (size : ℕ), sizes[i]? = some size → 0 < size →
        rs[i]? = some (.error (.readHeader .eof)) → done ++ received (rs.take i) = total) := by
  induction sizes generalizing c done pos fs with
  | nil =>
    refine ⟨[], rfl, ?_, by simp⟩
    have hcontent := h.content
    exact ⟨_, by simpa [received] using hcontent⟩
  | cons size sizes ih =>
    have hread := h.readLoop size (Nat.lt_succ_self _)
    rw [← ReverseFramedConn.read] at hread
    rcases hc : c.read size with _ | ⟨r, c'⟩
    · rw [hc] at hread
      exact hread.elim
    rw [hc] at hread
    cases r with
    | ok p =>
      obtain ⟨pos', fs', hnext⟩ := hread
      obtain ⟨rs, hrs, hpre, hend⟩ := ih hnext
      refine ⟨.ok p :: rs, ?_, ?_, ?_⟩
      · rw [reads, hc]
        simp [hrs]
      · simpa [received, Except.toOption] using hpre
      · intro hw i n hn hpos hr
        cases i with
        | zero => simp at hr
        | succ i => simpa [received, Except.toOption] using hend hw i n hn hpos hr
    | error e =>
      obtain ⟨⟨pos', fs', hnext⟩, heof⟩ := hread
      obtain ⟨rs, hrs, hpre, hend⟩ := ih hnext
      refine ⟨.error e :: rs, ?_, ?_, ?_⟩
      · rw [reads, hc]
        simp [hrs]
      · simpa [received, Except.toOption] using hpre
      · intro hw i n hn hpos hr
        cases i with
        | zero =>
          obtain rfl : size = n := by simpa using hn
          simpa [received] using heof hw hpos (by simpa using hr)
        | succ i => simpa [received, Except.toOption] using hend hw i n hn hpos hr

end Synced

/-- What all calls of `Write` were given. -/
def offered (ops : List Op) : List UInt8 := ops.flatMap fun op => op.frame.data

theorem written_eq_offered {ops : List Op} (h : ∀ b, .write b ∈ ops → b.length ≤ maxPayload) :
    written ops = offered ops := by
  have hall : ∀ op ∈ ops, op.run.isOk = true := by
    intro op hop
    rw [isOk_run]
    cases op with
    | write b => exact h b hop
    | heartbeat => exact Nat.zero_le _
  rw [written_eq, sent, filter_eq_self.mpr hall, offered, flatMap_map]

/-- If no deadline expires inside a frame, the reads give what the writes were given; a write of more than
`maxPayload` bytes is refused. -/
theorem transparent_of_punctual (ops : List Op) (input : List (Event UInt8)) (sizes : List ℕ)
    (harrive : delivered input <+: wire ops) (hpunctual : Punctual ops input) :
    Transparent ops input sizes ∧
      ((∀ b, .write b ∈ ops → b.length ≤ maxPayload) → written ops = offered ops) := by
  refine ⟨?_, written_eq_offered⟩
  have hstart : Synced (delivered input = wire ops) (written ops) (.new input) [] 0 (sent ops) :=
    { size := fun f hf => mem_sent hf
      bytes := wire_eq ops ▸ harrive
      whole := fun h => h.trans (wire_eq ops)
      punctual := hpunctual
      content := by simp [new, BytesBuffer.new, BytesBuffer.unread, written_eq] }
  exact hstart.reads sizes

/-- Two writes with a heartbeat between them. -/
def twoWrites : List Op := [.write [1, 2], .heartbeat, .write [3]]

/-- Their stream in three fragments, with a deadline that expires after the heartbeat. -/
def threeFragments : List (Event UInt8) :=
  [.data [5, 0], .data [2, 1, 2, 1, 0, 0], .timeout, .data [5, 0, 1, 3]]

theorem transparent_of_punctual_twoWrites :
    delivered threeFragments <+: wire twoWrites ∧ Punctual twoWrites threeFragments ∧
      Transparent twoWrites threeFragments [1, 4, 4, 4, 4] := by
  have harrive : delivered threeFragments <+: wire twoWrites := by decide +kernel
  have hpunctual : Punctual twoWrites threeFragments := by
    unfold Punctual
    decide +kernel
  exact ⟨harrive, hpunctual, (transparent_of_punctual twoWrites threeFragments _ harrive hpunctual).1⟩

/-- A deadline after the header of a frame: the next `Read` takes the payload for a frame of its own. -/
theorem deadline_shifts_frame :
    ¬ Transparent [.write [5, 0, 1, 9]] [.data [5, 0, 4], .timeout, .data [5, 0, 1, 9]] [10, 10] := by
  rintro ⟨rs, hrs, hpre, -⟩
  have hreads : (new [.data [5, 0, 4], .timeout, .data [5, 0, 1, 9]]).reads [10, 10] =
      some [.error (.readPayload .timeout), .ok [9]] := by rfl
  obtain rfl := Option.some.inj (hreads.symm.trans hrs)
  exact absurd hpre (by decide +kernel)

end Framing
