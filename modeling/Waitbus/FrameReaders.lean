import Waitbus.FrameCodec

/-! The three readers of length-prefixed frames. A source holds the bytes a peer has written,
cut into the pieces in which reads will return them, and then the end of the stream. Each reader
refines `nextFrame`, which looks at the bytes alone. -/

namespace Waitbus.FrameReaders
open Python FrameCodec

/-- `struct.unpack(">I", prefix)`. -/
def unpackLength (header : Bytes) : Nat :=
  header.foldl (fun n byte => n * 256 + byte.toNat) 0

theorem unpackLength_packLength {n : Nat} (h : n ≤ maxFrameBytes) :
    unpackLength (packLength n) = n := by
  simp only [maxFrameBytes] at h
  simp only [unpackLength, packLength, List.foldl_cons, List.foldl_nil, UInt8.toNat_ofNat']
  omega

section Sources

abbrev Chunk := { c : Bytes // c ≠ [] }

abbrev Source := List Chunk

namespace Source

def bytes (s : Source) : Bytes :=
  (s.map Subtype.val).flatten

@[simp] theorem bytes_nil : bytes [] = [] := rfl

@[simp] theorem bytes_cons (c : Chunk) (s : Source) : bytes (c :: s) = c.val ++ bytes s := rfl

/-- One read of up to `n` bytes. It returns nothing at the end of the stream only. -/
def recv (n : Nat) : Source → Bytes × Source
  | [] => ([], [])
  | c :: rest =>
    if h : c.val.drop n = [] then (c.val, rest) else (c.val.take n, ⟨c.val.drop n, h⟩ :: rest)

theorem recv_bytes (n : Nat) (s : Source) : (recv n s).1 ++ bytes (recv n s).2 = bytes s := by
  cases s with
  | nil => rfl
  | cons c rest =>
    rw [recv]
    split
    · rfl
    · simp only [bytes_cons, ← List.append_assoc, List.take_append_drop]

theorem recv_length_le (n : Nat) (s : Source) : (recv n s).1.length ≤ n := by
  cases s with
  | nil => exact Nat.zero_le n
  | cons c rest =>
    rw [recv]
    split
    · rename_i h
      exact List.drop_eq_nil_iff.mp h
    · exact List.length_take_le n c.val

theorem recv_eq_nil {n : Nat} (hn : 0 < n) {s : Source} (h : (recv n s).1 = []) : s = [] := by
  cases s with
  | nil => rfl
  | cons c rest =>
    rw [recv] at h
    split at h
    · exact absurd h c.property
    · rcases List.take_eq_nil_iff.mp h with h0 | h0
      · omega
      · exact absurd h0 c.property

end Source

end Sources

section BlockingReaders

def midFrame (received expected : Nat) : String :=
  "connection closed mid-frame after " ++ toString received ++ " of " ++ toString expected ++
    " bytes"

def outOfBounds (length : Nat) : String :=
  "frame length " ++ toString length ++ " out of bounds (1.." ++ toString maxFrameBytes ++ ")"

/-- The loop of `readExactly` and `sockRecvExactly`; `none` is the end of the stream. -/
def recvExactly (n : Nat) (buf : Bytes) (s : Source) : Except String (Option Bytes) × Source :=
  if buf.length < n then
    if _hchunk : (s.recv (n - buf.length)).1 = [] then
      if buf = [] then (.ok none, (s.recv (n - buf.length)).2)
      else (.error (midFrame buf.length n), (s.recv (n - buf.length)).2)
    else recvExactly n (buf ++ (s.recv (n - buf.length)).1) (s.recv (n - buf.length)).2
  else (.ok (some buf), s)
termination_by n - buf.length
decreasing_by
  have := List.length_pos_iff.mpr _hchunk
  rw [List.length_append]
  omega

def readExactly (sock : Source) (n : Nat) : Except String (Option Bytes) × Source :=
  recvExactly n [] sock

def sockRecvExactly (sock : Source) (n : Nat) : Except String (Option Bytes) × Source :=
  recvExactly n [] sock

/-- What `n` bytes read off a stream come to. -/
def exactly (n : Nat) (buf stream : Bytes) : Except String (Option Bytes) :=
  if n ≤ (buf ++ stream).length then .ok (some ((buf ++ stream).take n))
  else if buf ++ stream = [] then .ok none
  else .error (midFrame (buf ++ stream).length n)

theorem recvExactly_eq (n : Nat) (buf : Bytes) (s : Source) (h : buf.length ≤ n) :
    (recvExactly n buf s).1 = exactly n buf s.bytes ∧
      Source.bytes (recvExactly n buf s).2 = (buf ++ s.bytes).drop n := by
  fun_induction recvExactly n buf s with
  | case1 s hlt hchunk =>
    have hs := Source.recv_eq_nil (by omega) hchunk
    subst hs
    simp only [List.length_nil] at hlt
    simp [exactly, Source.recv, show ¬ n ≤ 0 by omega]
  | case2 buf s hlt hchunk hbuf =>
    have hs := Source.recv_eq_nil (by omega) hchunk
    subst hs
    simp [exactly, Source.recv, hbuf, show ¬ n ≤ buf.length by omega, h]
  | case3 buf s hlt hchunk ih =>
    have hle := Source.recv_length_le (n - buf.length) s
    have hbytes := Source.recv_bytes (n - buf.length) s
    obtain ⟨hfst, hsnd⟩ := ih (by rw [List.length_append]; omega)
    rw [exactly, List.append_assoc, hbytes] at hfst
    rw [List.append_assoc, hbytes] at hsnd
    exact ⟨hfst, hsnd⟩
  | case4 buf s hlt =>
    have hn : buf.length = n := by omega
    subst hn
    simp [exactly]

/-- The body of `syncReadFrame` and `readFrameSock` over their own `exactly`-reader. -/
def readFrameWith (read : Source → Nat → Except String (Option Bytes) × Source) (sock : Source) :
    Except String (Option Bytes) × Source :=
  match read sock lengthPrefixBytes with
  | (.error message, sock) => (.error message, sock)
  | (.ok none, sock) => (.ok none, sock)
  | (.ok (some header), sock) =>
    if unpackLength header = 0 ∨ unpackLength header > maxFrameBytes then
      (.error (outOfBounds (unpackLength header)), sock)
    else
      match read sock (unpackLength header) with
      | (.error message, sock) => (.error message, sock)
      | (.ok none, sock) =>
        (.error ("short read on payload (expected " ++ toString (unpackLength header) ++
          " bytes)"), sock)
      | (.ok (some payload), sock) => (.ok (some payload), sock)

def syncReadFrame (sock : Source) : Except String (Option Bytes) × Source :=
  readFrameWith readExactly sock

def readFrameSock (sock : Source) : Except String (Option Bytes) × Source :=
  readFrameWith sockRecvExactly sock

end BlockingReaders

section StreamReader

/-- `asyncio.StreamReader`: what has arrived and is not yet read, and what is still to arrive. -/
structure StreamReader where
  buffer : Bytes
  source : Source

def StreamReader.bytes (reader : StreamReader) : Bytes :=
  reader.buffer ++ reader.source.bytes

/-- Wait for data until `n` bytes are buffered or the stream ends. -/
def fill (n : Nat) (buffer : Bytes) : Source → StreamReader
  | [] => ⟨buffer, []⟩
  | c :: rest => if buffer.length < n then fill n (buffer ++ c.val) rest else ⟨buffer, c :: rest⟩

/-- The bytes, or `IncompleteReadError` with those that came before the end. -/
def StreamReader.readexactly (reader : StreamReader) (n : Nat) :
    Except Bytes Bytes × StreamReader :=
  let filled := fill n reader.buffer reader.source
  if filled.buffer.length < n then (.error filled.buffer, ⟨[], filled.source⟩)
  else (.ok (filled.buffer.take n), ⟨filled.buffer.drop n, filled.source⟩)

def doubleQuote : Char := Char.ofNat 34

def singleQuote : Char := Char.ofNat 39

def backslash : Char := Char.ofNat 92

def byteRepr (quote : Char) (byte : UInt8) : List Char :=
  let c := Char.ofNat byte.toNat
  if c = quote ∨ c = backslash then [backslash, c]
  else if byte = 9 then [backslash, 't']
  else if byte = 10 then [backslash, 'n']
  else if byte = 13 then [backslash, 'r']
  else if byte < 32 ∨ 127 ≤ byte then
    [backslash, 'x', hexChar (byte.toNat / 16), hexChar (byte.toNat % 16)]
  else [c]

/-- `repr` of a byte string, in double quotes when only single ones occur in it. -/
def bytesRepr (b : Bytes) : String :=
  let quote := if 39 ∈ b ∧ 34 ∉ b then doubleQuote else singleQuote
  String.ofList ('b' :: quote :: b.flatMap (byteRepr quote) ++ [quote])

def readFrame (reader : StreamReader) : Except String (Option Bytes) × StreamReader :=
  match reader.readexactly lengthPrefixBytes with
  | (.error received, reader) =>
    if received = [] then (.ok none, reader)
    else (.error ("partial length prefix: " ++ bytesRepr received), reader)
  | (.ok header, reader) =>
    if unpackLength header = 0 ∨ unpackLength header > maxFrameBytes then
      (.error (outOfBounds (unpackLength header)), reader)
    else
      match reader.readexactly (unpackLength header) with
      | (.error received, reader) =>
        (.error ("short read: expected " ++ toString (unpackLength header) ++ " bytes, got " ++
          toString received.length), reader)
      | (.ok payload, reader) => (.ok (some payload), reader)

theorem fill_bytes (n : Nat) (buffer : Bytes) (s : Source) :
    (fill n buffer s).bytes = buffer ++ s.bytes := by
  induction s generalizing buffer with
  | nil => rfl
  | cons c rest ih =>
    rw [fill]
    split
    · rw [ih, List.append_assoc, Source.bytes_cons]
    · rfl

theorem fill_short {n : Nat} {buffer : Bytes} {s : Source}
    (h : (fill n buffer s).buffer.length < n) : (fill n buffer s).source = [] := by
  induction s generalizing buffer with
  | nil => rfl
  | cons c rest ih =>
    rw [fill] at h ⊢
    split
    · rename_i hlt
      rw [if_pos hlt] at h
      exact ih h
    · rename_i hlt
      rw [if_neg hlt] at h
      exact absurd h hlt

/-- However the bytes arrive, the first `n` of them are taken, or all where there are fewer. -/
theorem readexactly_eq (reader : StreamReader) (n : Nat) :
    (reader.readexactly n).1 =
        (if n ≤ reader.bytes.length then .ok (reader.bytes.take n) else .error reader.bytes) ∧
      (reader.readexactly n).2.bytes = reader.bytes.drop n := by
  have hbytes := fill_bytes n reader.buffer reader.source
  simp only [StreamReader.readexactly]
  by_cases hshort : (fill n reader.buffer reader.source).buffer.length < n
  · have hsource := fill_short hshort
    rw [StreamReader.bytes, hsource, Source.bytes_nil, List.append_nil] at hbytes
    have hlen : ¬ n ≤ reader.bytes.length := by
      rw [StreamReader.bytes, ← hbytes]
      omega
    rw [if_pos hshort, if_neg hlen]
    refine ⟨congrArg _ hbytes, ?_⟩
    simp only [StreamReader.bytes, hsource, Source.bytes_nil, List.append_nil]
    exact (List.drop_eq_nil_iff.mpr (by simp only [StreamReader.bytes] at hlen; omega)).symm
  · have hle : n ≤ (fill n reader.buffer reader.source).buffer.length := by omega
    have htotal : reader.bytes =
        (fill n reader.buffer reader.source).buffer ++
          Source.bytes (fill n reader.buffer reader.source).source := hbytes.symm
    have hlen : n ≤ reader.bytes.length := by
      rw [htotal, List.length_append]
      omega
    rw [if_neg hshort, if_pos hlen, htotal, List.take_append_of_le_length hle,
      List.drop_append_of_le_length hle]
    exact ⟨rfl, rfl⟩

end StreamReader

section NextFrame

/-- What a caller can tell of a read: the payload and the bytes behind it, the end of the stream,
or a connection to be closed. -/
inductive Verdict where
  | payload (payload rest : Bytes)
  | eof
  | connectionError
deriving DecidableEq

def observe (outcome : Except String (Option Bytes)) (rest : Bytes) : Verdict :=
  match outcome with
  | .ok (some payload) => .payload payload rest
  | .ok none => .eof
  | .error _ => .connectionError

def nextFrame (stream : Bytes) : Verdict :=
  let length := unpackLength (stream.take lengthPrefixBytes)
  let body := stream.drop lengthPrefixBytes
  if stream = [] then .eof
  else if stream.length < lengthPrefixBytes then .connectionError
  else if length = 0 ∨ length > maxFrameBytes then .connectionError
  else if body.length < length then .connectionError
  else .payload (body.take length) (body.drop length)

/-- What a read of `n` bytes off a socket comes to, whichever way the bytes come in. -/
def ReadsExactly (read : Source → Nat → Except String (Option Bytes) × Source) : Prop :=
  ∀ s n, (read s n).1 = exactly n [] s.bytes ∧ Source.bytes (read s n).2 = s.bytes.drop n

theorem readExactly_exactly : ReadsExactly readExactly :=
  fun s n => recvExactly_eq n [] s (Nat.zero_le n)

theorem sockRecvExactly_exactly : ReadsExactly sockRecvExactly :=
  fun s n => recvExactly_eq n [] s (Nat.zero_le n)

section ReadsExactly

variable {read : Source → Nat → Except String (Option Bytes) × Source} (hread : ReadsExactly read)

include hread

theorem read_enough {s : Source} {n : Nat} (h : n ≤ s.bytes.length) :
    ∃ s', read s n = (.ok (some (s.bytes.take n)), s') ∧ Source.bytes s' = s.bytes.drop n := by
  obtain ⟨hfst, hsnd⟩ := hread s n
  refine ⟨(read s n).2, Prod.ext ?_ rfl, hsnd⟩
  rw [hfst, exactly, List.nil_append, if_pos h]

theorem read_end {s : Source} {n : Nat} (hn : 0 < n) (h : s.bytes = []) :
    ∃ s', read s n = (.ok none, s') := by
  refine ⟨(read s n).2, Prod.ext ?_ rfl⟩
  rw [(hread s n).1, exactly, h, if_neg (by simpa using Nat.pos_iff_ne_zero.mp hn)]
  rfl

theorem read_short {s : Source} {n : Nat} (h : s.bytes.length < n) (hne : s.bytes ≠ []) :
    ∃ s' message, read s n = (.error message, s') := by
  refine ⟨(read s n).2, midFrame s.bytes.length n, Prod.ext ?_ rfl⟩
  rw [(hread s n).1, exactly, List.nil_append, if_neg (Nat.not_le.mpr h), if_neg hne]

theorem readFrameWith_refines (s : Source) :
    observe (readFrameWith read s).1 (readFrameWith read s).2.bytes = nextFrame s.bytes := by
  simp only [readFrameWith, nextFrame]
  by_cases hnil : s.bytes = []
  · obtain ⟨s', hs'⟩ := read_end hread (n := lengthPrefixBytes) (by decide) hnil
    rw [hs', if_pos hnil]
    rfl
  rw [if_neg hnil]
  by_cases hlen : s.bytes.length < lengthPrefixBytes
  · obtain ⟨s', message, hs'⟩ := read_short hread hlen hnil
    rw [hs', if_pos hlen]
    rfl
  rw [if_neg hlen]
  obtain ⟨behind, hs', hbehind⟩ := read_enough hread (Nat.not_lt.mp hlen)
  rw [hs', ← hbehind]
  dsimp only
  split_ifs with hbound hshort
  · rfl
  · by_cases hnone : behind.bytes = []
    · have hpos : 0 < unpackLength (s.bytes.take lengthPrefixBytes) := by omega
      obtain ⟨s', hs'⟩ := read_end hread hpos hnone
      rw [hs']
      rfl
    · obtain ⟨s', message, hs'⟩ := read_short hread hshort hnone
      rw [hs']
      rfl
  · obtain ⟨left, hs', hleft⟩ := read_enough hread (Nat.not_lt.mp hshort)
    rw [hs', ← hleft]
    rfl

end ReadsExactly

theorem syncReadFrame_refines (s : Source) :
    observe (syncReadFrame s).1 (syncReadFrame s).2.bytes = nextFrame s.bytes :=
  readFrameWith_refines readExactly_exactly s

theorem readFrameSock_refines (s : Source) :
    observe (readFrameSock s).1 (readFrameSock s).2.bytes = nextFrame s.bytes :=
  readFrameWith_refines sockRecvExactly_exactly s

theorem readexactly_enough {reader : StreamReader} {n : Nat} (h : n ≤ reader.bytes.length) :
    ∃ reader', reader.readexactly n = (.ok (reader.bytes.take n), reader') ∧
      reader'.bytes = reader.bytes.drop n := by
  obtain ⟨hfst, hsnd⟩ := readexactly_eq reader n
  refine ⟨(reader.readexactly n).2, Prod.ext ?_ rfl, hsnd⟩
  rw [hfst, if_pos h]

theorem readexactly_short {reader : StreamReader} {n : Nat} (h : reader.bytes.length < n) :
    ∃ reader', reader.readexactly n = (.error reader.bytes, reader') := by
  refine ⟨(reader.readexactly n).2, Prod.ext ?_ rfl⟩
  rw [(readexactly_eq reader n).1, if_neg (Nat.not_le.mpr h)]

theorem readFrame_refines (reader : StreamReader) :
    observe (readFrame reader).1 (readFrame reader).2.bytes = nextFrame reader.bytes := by
  simp only [readFrame, nextFrame]
  by_cases hlen : reader.bytes.length < lengthPrefixBytes
  · obtain ⟨reader', hreader'⟩ := readexactly_short hlen
    rw [hreader', if_pos hlen]
    dsimp only
    split_ifs <;> rfl
  have hnil : reader.bytes ≠ [] := by
    intro h
    rw [h] at hlen
    exact hlen (by decide)
  rw [if_neg hnil, if_neg hlen]
  obtain ⟨behind, hreader', hbehind⟩ := readexactly_enough (Nat.not_lt.mp hlen)
  rw [hreader', ← hbehind]
  dsimp only
  split_ifs with hbound hshort
  · rfl
  · obtain ⟨reader', hreader'⟩ := readexactly_short hshort
    rw [hreader']
    rfl
  · obtain ⟨left, hreader', hleft⟩ := readexactly_enough (Nat.not_lt.mp hshort)
    rw [hreader', ← hleft]
    rfl

theorem nextFrame_encodeFrame {payload blob : Bytes} (h : encodeFrame payload = .ok blob)
    (trailing : Bytes) :
    nextFrame (blob ++ trailing) =
      if payload = [] then .connectionError else .payload payload trailing := by
  obtain ⟨hle, rfl⟩ := encodeFrame_ok.mp h
  have hheader : (packLength payload.length).length = lengthPrefixBytes := rfl
  have hne : packLength payload.length ++ payload ++ trailing ≠ [] := by
    simp [packLength]
  have hlen : ¬ (packLength payload.length ++ payload ++ trailing).length < lengthPrefixBytes := by
    simp only [List.length_append, hheader]
    omega
  simp only [nextFrame]
  rw [if_neg hne, if_neg hlen, List.append_assoc, List.take_left' hheader,
    List.drop_left' hheader, unpackLength_packLength hle]
  by_cases hpayload : payload = []
  · subst hpayload
    rfl
  · have hpos := List.length_pos_iff.mpr hpayload
    have hbound : ¬ (payload.length = 0 ∨ payload.length > maxFrameBytes) := by omega
    have hwhole : ¬ (payload ++ trailing).length < payload.length := by
      rw [List.length_append]
      omega
    rw [if_neg hpayload, if_neg hbound, if_neg hwhole, List.take_left, List.drop_left]

end NextFrame

section RoundTrip

/-- Each reader returns the payload and stands at the bytes behind it, however they are cut. -/
structure ReadBack (payload blob trailing : Bytes) : Prop where
  stream : ∀ reader : StreamReader, reader.bytes = blob ++ trailing →
    observe (readFrame reader).1 (readFrame reader).2.bytes = .payload payload trailing
  blocking : ∀ sock : Source, sock.bytes = blob ++ trailing →
    observe (syncReadFrame sock).1 (syncReadFrame sock).2.bytes = .payload payload trailing
  socket : ∀ sock : Source, sock.bytes = blob ++ trailing →
    observe (readFrameSock sock).1 (readFrameSock sock).2.bytes = .payload payload trailing

theorem ReadBack.iff_nextFrame {payload blob trailing : Bytes} :
    ReadBack payload blob trailing ↔ nextFrame (blob ++ trailing) = .payload payload trailing := by
  constructor
  · intro h
    rw [← h.stream ⟨blob ++ trailing, []⟩ (List.append_nil _), readFrame_refines,
      StreamReader.bytes, Source.bytes_nil, List.append_nil]
  · intro h
    refine ⟨fun reader hbytes => ?_, fun sock hbytes => ?_, fun sock hbytes => ?_⟩
    · rw [readFrame_refines, hbytes, h]
    · rw [syncReadFrame_refines, hbytes, h]
    · rw [readFrameSock_refines, hbytes, h]

/-- The three readers see the same in a stream, each with its own cut of it. -/
def ReadersAgree (stream : Bytes) : Prop :=
  ∀ (reader : StreamReader) (blocking socket : Source),
    reader.bytes = stream → blocking.bytes = stream → socket.bytes = stream →
      observe (syncReadFrame blocking).1 (syncReadFrame blocking).2.bytes =
          observe (readFrame reader).1 (readFrame reader).2.bytes ∧
        observe (readFrameSock socket).1 (readFrameSock socket).2.bytes =
          observe (readFrame reader).1 (readFrame reader).2.bytes

/-- The readers agree on every stream, and give back every payload the encoder takes but the
empty one. -/
theorem read_back_iff (payload blob trailing stream : Bytes)
    (h : encodeFrame payload = .ok blob) :
    (ReadBack payload blob trailing ↔ payload ≠ []) ∧ ReadersAgree stream := by
  constructor
  · rw [ReadBack.iff_nextFrame, nextFrame_encodeFrame h]
    split_ifs with hpayload <;> simp [hpayload]
  · rintro reader blocking socket hreader hblocking hsocket
    rw [syncReadFrame_refines, readFrameSock_refines, readFrame_refines, hreader, hblocking,
      hsocket]
    exact ⟨rfl, rfl⟩

theorem read_back_two :
    (ReadBack [123, 125] [0, 0, 0, 2, 123, 125] [0, 0] ↔ ([123, 125] : Bytes) ≠ []) ∧
      ReadersAgree [0, 0] :=
  read_back_iff [123, 125] [0, 0, 0, 2, 123, 125] [0, 0] [0, 0] rfl

/-- Nothing comes back of the frame of an empty payload. -/
theorem empty_payload_refused :
    ∃ blob, encodeFrame [] = .ok blob ∧ ¬ ReadBack [] blob [] :=
  ⟨[0, 0, 0, 0], rfl, fun h => absurd (h.stream ⟨[0, 0, 0, 0], []⟩ rfl) (by decide)⟩

end RoundTrip

end Waitbus.FrameReaders
