import EchoLoad.Proofs.Frame.RoundTrip

/-!
# Frames one behind the other

A byte string is read as the frames that stand in it one behind the other (`Frame.parseAll`). What is
left behind the last of them is the beginning of a frame that is not complete yet, or bytes that
begin no frame.

* `parse_of_isPrefix`: a part of a wire form is incomplete, not malformed.
* `writing_is_read_back`: a frame that is written leaves the buffer before it as it is and is read
  back, whatever stands behind it; so any number of frames is, and a part of a further one is left.
-/

namespace EchoLoad.Frame

/-- The frames at the front of a byte string, and what is left behind the last of them. -/
def parseAll (buf : Bytes) : List Frame × Except Malformed Bytes :=
  match _h : parse buf with
  | .error m => ([], .error m)
  | .ok none => ([], .ok buf)
  | .ok (some (f, n)) =>
    let (frames, rest) := parseAll (buf.drop n)
    (f :: frames, rest)
termination_by buf.length
decreasing_by
  have := consumed_of_parse _h
  simp only [List.length_drop]
  omega

variable {buf : Bytes}

theorem parseAll_of_none (h : parse buf = .ok none) : parseAll buf = ([], .ok buf) := by
  rw [parseAll]
  split
  · next hp => cases h.symm.trans hp
  · rfl
  · next hp => cases h.symm.trans hp

theorem parseAll_of_error {m : Malformed} (h : parse buf = .error m) :
    parseAll buf = ([], .error m) := by
  rw [parseAll]
  split
  · next hp =>
    cases h.symm.trans hp
    rfl
  · next hp => cases h.symm.trans hp
  · next hp => cases h.symm.trans hp

theorem parseAll_of_some {f : Frame} {n : Nat} (h : parse buf = .ok (some (f, n))) :
    parseAll buf = (f :: (parseAll (buf.drop n)).1, (parseAll (buf.drop n)).2) := by
  rw [parseAll]
  split
  · next hp => cases h.symm.trans hp
  · next hp => cases h.symm.trans hp
  · next hp =>
    cases h.symm.trans hp
    rfl

theorem legal_of_mem_parseAll {f : Frame} (h : f ∈ (parseAll buf).1) : f.Legal := by
  fun_induction parseAll buf with
  | case1 | case2 => cases h
  | case3 buf g n hp frames rest hrest ih =>
    rw [hrest] at ih
    rcases List.mem_cons.mp h with rfl | h
    · exact legal_of_parse hp
    · exact ih h

/-- A part of the wire form of a frame is no frame yet. -/
theorem parse_of_isPrefix {f : Frame} (hf : f.Legal) {key : Option MaskKey} {front : Bytes}
    (h : front <+: f.encode key) (hne : front ≠ f.encode key) : parse front = .ok none := by
  have hwhole := parse_encode_append hf key []
  rw [List.append_nil] at hwhole
  have htake : (f.encode key).take (f.wireSize key.isSome) = f.encode key := by
    rw [← length_encode, List.take_length]
  rw [← htake] at h hne
  exact parse_of_isPrefix_take hwhole h hne

end Frame

/-- A frame and the key that it is written with. -/
structure Packet where
  frame : Frame
  key : Option MaskKey
  deriving DecidableEq, Repr

namespace Packet

def wire (x : Packet) : Bytes := x.frame.encode x.key

def wireSize (x : Packet) : Nat := x.frame.wireSize x.key.isSome

/-- What the reader makes of it: the frame in the clear, and whether there was a key. -/
def received (x : Packet) : Frame := { x.frame with masked := x.key.isSome }

/-- Writes one packet after the other into a buffer. -/
def writeAll (buffer : Bytes) (packets : List Packet) : Bytes :=
  packets.foldl (fun buffer x => x.frame.writeTo buffer x.key) buffer

theorem writeAll_eq (buffer : Bytes) (packets : List Packet) :
    writeAll buffer packets = buffer ++ packets.flatMap wire := by
  induction packets generalizing buffer with
  | nil => simp [writeAll]
  | cons x packets ih =>
    have hstep : writeAll buffer (x :: packets) = writeAll (buffer ++ x.wire) packets := by
      simp only [writeAll, List.foldl_cons, Frame.writeTo_eq, wire]
    rw [hstep, ih, List.flatMap_cons, List.append_assoc]

theorem parse_wire_append {x : Packet} (h : x.frame.Legal) (rest : Bytes) :
    Frame.parse (x.wire ++ rest) = .ok (some (x.received, x.wireSize)) :=
  Frame.parse_encode_append h x.key rest

theorem drop_wire_append (x : Packet) (rest : Bytes) :
    (x.wire ++ rest).drop x.wireSize = rest := by
  have hlen : x.wire.length = x.wireSize := Frame.length_encode x.frame x.key
  rw [← hlen, List.drop_left]

/-- Packets are read off one by one, and reading goes on with what follows them. -/
theorem parseAll_flatMap_wire {packets : List Packet} (h : ∀ x ∈ packets, x.frame.Legal)
    (rest : Bytes) : Frame.parseAll (packets.flatMap wire ++ rest) =
      (packets.map received ++ (Frame.parseAll rest).1, (Frame.parseAll rest).2) := by
  induction packets with
  | nil => simp
  | cons x packets ih =>
    have hx : x.frame.Legal := h x List.mem_cons_self
    have hrest := ih fun y hy => h y (List.mem_cons_of_mem x hy)
    rw [List.flatMap_cons, List.append_assoc]
    rw [Frame.parseAll_of_some (parse_wire_append hx _), drop_wire_append, hrest]
    simp

/-- Writing a frame leaves what stands in the buffer as it is and appends as many bytes as announced;
from these the frame is read back, whatever follows them. So packets that are written one after the
other, and behind them a part of a further one, are read back one by one, and exactly this part is
left as incomplete. -/
theorem writing_is_read_back {packets : List Packet} (hpackets : ∀ x ∈ packets, x.frame.Legal)
    {last : Packet} (hlast : last.frame.Legal) {front : Bytes} (hfront : front <+: last.wire)
    (hpart : front ≠ last.wire) :
    (∀ x ∈ last :: packets, ∀ buffer rest : Bytes,
      let written := x.frame.writeTo buffer x.key
      written.take buffer.length = buffer ∧
        written.length = buffer.length + x.frame.wireSize x.key.isSome ∧
        Frame.parse (written.drop buffer.length ++ rest) =
          .ok (some ({ x.frame with masked := x.key.isSome }, x.frame.wireSize x.key.isSome))) ∧
      Frame.parseAll (writeAll [] packets ++ front) = (packets.map received, .ok front) := by
  constructor
  · intro x hx buffer rest
    have hlegal : x.frame.Legal := by
      rcases List.mem_cons.mp hx with rfl | hx
      · exact hlast
      · exact hpackets x hx
    have hsize := Frame.length_encode x.frame x.key
    simp only [Frame.writeTo_eq, List.take_left, List.drop_left, List.length_append, hsize]
    exact ⟨trivial, trivial, parse_wire_append hlegal rest⟩
  · have hleft := Frame.parseAll_of_none (Frame.parse_of_isPrefix hlast hfront hpart)
    rw [writeAll_eq, List.nil_append, parseAll_flatMap_wire hpackets, hleft]
    simp

/-- A masked ping and a fragment that needs the longer form of its length, and the beginning of a
close frame that ends in the middle of its key. -/
theorem writing_is_read_back_ping_fragment :
    let key : MaskKey := ⟨1, 2, 3, 4⟩
    let ping : Packet := ⟨.whole .ping [0x61], some key⟩
    let fragment : Packet := ⟨⟨false, .continuation, false, List.replicate 126 7⟩, none⟩
    let last : Packet := ⟨.closing 1000, some key⟩
    let front : Bytes := [0x88, 0x82, 1, 2]
    (∀ x ∈ [ping, fragment], x.frame.Legal) ∧ last.frame.Legal ∧ front <+: last.wire ∧
      front ≠ last.wire ∧ Frame.parseAll (writeAll [] [ping, fragment] ++ front) =
        ([ping.received, fragment.received], .ok front) := by
  intro key ping fragment last front
  have hpackets : ∀ x ∈ [ping, fragment], x.frame.Legal := by
    intro x hx
    rw [List.mem_cons, List.mem_singleton] at hx
    rcases hx with rfl | rfl
    · exact ⟨by decide, fun _ => ⟨rfl, by decide⟩⟩
    · refine ⟨?_, fun hcontrol => absurd hcontrol (by decide)⟩
      rw [List.length_replicate]
      decide
  have hlast : last.frame.Legal := ⟨by decide, fun _ => ⟨rfl, by decide⟩⟩
  have hfront : front <+: last.wire := by decide
  have hpart : front ≠ last.wire := by decide
  exact ⟨hpackets, hlast, hfront, hpart,
    (writing_is_read_back hpackets hlast hfront hpart).2⟩

end Packet

end EchoLoad
