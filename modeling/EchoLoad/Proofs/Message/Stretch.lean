import EchoLoad.Message

/-!
# Stretches of frames that are messages

Which of the frames that a peer has sent make up one message, whoever the peer is. A message begins
with a data frame and goes on with continuations; pings and pongs may stand between them and belong
to no message. `Message.Fragmented` is a message as far as it has come, `Message.Begun` one whose last
fragment is still to come, and `Message.Whole` one from its first fragment to its last.

* `take_spec`: what a frame must be like that `Message.take` finds a meaning in.
* `FoundIn`: messages that stand in a sequence of frames, each of them in a stretch of its own.
-/

namespace EchoLoad.Message

/-- The frames that carry a message: pings, pongs and close frames do not. -/
def fragments (run : List Frame) : List Frame := run.filter fun f => !f.opcode.isControl

/-- The frames may follow a data frame within its message. -/
def MayFollow (f : Frame) : Prop :=
  f.opcode = .continuation ∨ f.opcode = .ping ∨ f.opcode = .pong

/-- A message as far as it has come. -/
structure Fragmented (run : List Frame) (bytes : Bytes) : Prop where
  unmasked : ∀ f ∈ run, f.masked = false
  order : ∃ first rest, run = first :: rest ∧ (first.opcode = .text ∨ first.opcode = .binary) ∧
    ∀ f ∈ rest, MayFollow f
  bytes : bytes = (fragments run).flatMap Frame.payload

/-- A message of which the last fragment is still to come. -/
structure Begun (run : List Frame) (bytes : Bytes) : Prop where
  fragmented : Fragmented run bytes
  unfinished : ∀ f ∈ fragments run, f.fin = false

/-- A message from its first fragment to its last one, which alone is marked as the last. -/
structure Whole (limit : Nat) (run : List Frame) (bytes : Bytes) : Prop where
  fragmented : Fragmented run bytes
  last : ∃ front last, run = front ++ [last] ∧ last.opcode.isControl = false ∧ last.fin = true ∧
    ∀ f ∈ fragments front, f.fin = false
  size : bytes.length ≤ limit

theorem fragments_append (run₁ run₂ : List Frame) :
    fragments (run₁ ++ run₂) = fragments run₁ ++ fragments run₂ :=
  List.filter_append run₁ run₂

theorem fragments_of_isControl {f : Frame} (h : f.opcode.isControl = true) :
    fragments [f] = [] := by
  simp [fragments, h]

theorem fragments_of_not_isControl {f : Frame} (h : f.opcode.isControl = false) :
    fragments [f] = [f] := by
  simp [fragments, h]

/-! ## What a frame adds to a message -/

/-- The frame belongs to the message of which `held` has arrived, and makes `bytes` of it. -/
inductive Adds (f : Frame) : Option Bytes → Bytes → Prop where
  | first (h : f.opcode = .text ∨ f.opcode = .binary) : Adds f none f.payload
  | next {front : Bytes} (h : f.opcode = .continuation) : Adds f (some front) (front ++ f.payload)

theorem Adds.not_isControl {f : Frame} {held : Option Bytes} {bytes : Bytes}
    (h : Adds f held bytes) : f.opcode.isControl = false := by
  cases h with
  | first h => rcases h with h | h <;> rw [h] <;> rfl
  | next h =>
    rw [h]
    rfl

/-- What a frame must be like to have this meaning. -/
def Meaning.Fits (limit : Nat) (held : Option Bytes) (f : Frame) : Meaning → Prop
  | .message bytes =>
    f.masked = false ∧ f.fin = true ∧ bytes.length ≤ limit ∧ Adds f held bytes
  | .part bytes => f.masked = false ∧ f.fin = false ∧ Adds f held bytes
  | .ping payload => f.masked = false ∧ f.opcode = .ping ∧ payload = f.payload
  | .pong => f.masked = false ∧ f.opcode = .pong
  | .close code => f.masked = false ∧ f.opcode = .close ∧ code = f.closeCode
  | .violation _ => True

theorem grown_fits {limit : Nat} {held : Option Bytes} {f : Frame} {bytes : Bytes}
    (hm : f.masked = false) (h : Adds f held bytes) :
    (grown limit f.fin bytes).Fits limit held f := by
  unfold grown
  by_cases hsize : bytes.length > limit
  · rw [if_pos hsize]
    trivial
  · rw [if_neg hsize]
    cases hfin : f.fin with
    | true => exact ⟨hm, hfin, Nat.le_of_not_gt hsize, h⟩
    | false => exact ⟨hm, hfin, h⟩

theorem take_spec (limit : Nat) (held : Option Bytes) (f : Frame) :
    (take limit held f).Fits limit held f := by
  unfold take
  cases hm : f.masked with
  | true => trivial
  | false =>
    cases ho : f.opcode with
    | ping => exact ⟨hm, ho, rfl⟩
    | pong => exact ⟨hm, ho⟩
    | close => exact ⟨hm, ho, rfl⟩
    | text | binary =>
      cases held with
      | some front => trivial
      | none => exact grown_fits hm (.first (by simp [ho]))
    | continuation =>
      cases held with
      | none => trivial
      | some front => exact grown_fits hm (.next ho)

/-! ## Growing stretches -/

theorem Fragmented.append {run : List Frame} {bytes : Bytes} (h : Fragmented run bytes) {f : Frame}
    (hm : f.masked = false) (hf : MayFollow f) :
    Fragmented (run ++ [f]) (bytes ++ (fragments [f]).flatMap Frame.payload) := by
  obtain ⟨first, rest, rfl, hfirst, hrest⟩ := h.order
  refine ⟨?_, ⟨first, rest ++ [f], rfl, hfirst, ?_⟩, ?_⟩
  · intro g hg
    rcases List.mem_append.mp hg with hg | hg
    · exact h.unmasked g hg
    · rw [List.mem_singleton.mp hg]
      exact hm
  · intro g hg
    rcases List.mem_append.mp hg with hg | hg
    · exact hrest g hg
    · rw [List.mem_singleton.mp hg]
      exact hf
  · rw [fragments_append, List.flatMap_append, ← h.bytes]

theorem fragmented_singleton {f : Frame} (hm : f.masked = false)
    (hf : f.opcode = .text ∨ f.opcode = .binary) : Fragmented [f] f.payload := by
  have hdata : f.opcode.isControl = false := (Adds.first hf).not_isControl
  refine ⟨?_, ⟨f, [], rfl, hf, nofun⟩, ?_⟩
  · intro g hg
    rw [List.mem_singleton.mp hg]
    exact hm
  · rw [fragments_of_not_isControl hdata, List.flatMap_singleton]

/-- Where the part of a message that is held comes from: the last of the frames seen so far. -/
def Held (seen : List Frame) : Option Bytes → Prop
  | none => True
  | some bytes => ∃ skipped run, seen = skipped ++ run ∧ Begun run bytes

/-- A ping or a pong leaves a message that has begun as it is. -/
theorem Held.control {seen : List Frame} {held : Option Bytes} (h : Held seen held) {f : Frame}
    (hm : f.masked = false) (hf : f.opcode = .ping ∨ f.opcode = .pong) :
    Held (seen ++ [f]) held := by
  cases held with
  | none => trivial
  | some bytes =>
    obtain ⟨skipped, run, rfl, hrun⟩ := h
    have hcontrol : f.opcode.isControl = true := by
      rcases hf with hf | hf <;> rw [hf] <;> rfl
    have hfragments : fragments (run ++ [f]) = fragments run := by
      rw [fragments_append, fragments_of_isControl hcontrol, List.append_nil]
    have happend := hrun.fragmented.append hm (.inr hf)
    rw [fragments_of_isControl hcontrol, List.flatMap_nil, List.append_nil] at happend
    refine ⟨skipped, run ++ [f], List.append_assoc .., happend, ?_⟩
    rw [hfragments]
    exact hrun.unfinished

/-- With a fragment a message grows; no fragment before it has been the last. -/
theorem Held.adds {seen : List Frame} {held : Option Bytes} (h : Held seen held) {f : Frame}
    {bytes : Bytes} (hm : f.masked = false) (ha : Adds f held bytes) :
    ∃ skipped front, seen = skipped ++ front ∧ Fragmented (front ++ [f]) bytes ∧
      ∀ g ∈ fragments front, g.fin = false := by
  have hdata := ha.not_isControl
  cases ha with
  | first hf => exact ⟨seen, [], (List.append_nil seen).symm, fragmented_singleton hm hf, nofun⟩
  | next hf =>
    obtain ⟨skipped, front, rfl, hfront⟩ := h
    have happend := hfront.fragmented.append hm (.inl hf)
    rw [fragments_of_not_isControl hdata, List.flatMap_singleton] at happend
    exact ⟨skipped, front, rfl, happend, hfront.unfinished⟩

theorem Held.part {seen : List Frame} {held : Option Bytes} (h : Held seen held) {f : Frame}
    {bytes : Bytes} (hm : f.masked = false) (hfin : f.fin = false) (ha : Adds f held bytes) :
    Held (seen ++ [f]) (some bytes) := by
  obtain ⟨skipped, front, rfl, hgrown, hfront⟩ := h.adds hm ha
  refine ⟨skipped, front ++ [f], List.append_assoc .., hgrown, ?_⟩
  intro g hg
  rw [fragments_append, fragments_of_not_isControl ha.not_isControl] at hg
  rcases List.mem_append.mp hg with hg | hg
  · exact hfront g hg
  · rw [List.mem_singleton.mp hg]
    exact hfin

theorem Held.whole {seen : List Frame} {held : Option Bytes} (h : Held seen held) {f : Frame}
    {limit : Nat} {bytes : Bytes} (hm : f.masked = false) (hfin : f.fin = true)
    (hsize : bytes.length ≤ limit) (ha : Adds f held bytes) :
    ∃ skipped run, seen ++ [f] = skipped ++ run ∧ Whole limit run bytes := by
  obtain ⟨skipped, front, rfl, hgrown, hfront⟩ := h.adds hm ha
  exact ⟨skipped, front ++ [f], List.append_assoc .., hgrown,
    ⟨front, f, rfl, ha.not_isControl, hfin, hfront⟩, hsize⟩

/-! ## Messages among frames -/

/-- The messages stand in the frames in this order, each of them in a stretch of its own. -/
inductive FoundIn (limit : Nat) : List Bytes → List Frame → Prop where
  | none (frames : List Frame) : FoundIn limit [] frames
  | next {bytes : Bytes} {messages : List Bytes} (skipped : List Frame) {run rest : List Frame}
      (hrun : Whole limit run bytes) (hrest : FoundIn limit messages rest) :
      FoundIn limit (bytes :: messages) (skipped ++ run ++ rest)

theorem FoundIn.skip {limit : Nat} {messages : List Bytes} {frames : List Frame}
    (h : FoundIn limit messages frames) (front : List Frame) :
    FoundIn limit messages (front ++ frames) := by
  cases h with
  | none => exact .none _
  | @next bytes messages skipped run rest hrun hrest =>
    have heq : front ++ (skipped ++ run ++ rest) = (front ++ skipped) ++ run ++ rest := by
      simp only [List.append_assoc]
    rw [heq]
    exact .next _ hrun hrest

end EchoLoad.Message
