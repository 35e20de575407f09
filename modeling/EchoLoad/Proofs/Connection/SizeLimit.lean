import EchoLoad.Proofs.Connection.Supply

/-!
# Messages beyond the limit

A message is refused as soon as a fragment makes it too long. The connection stays open, and what is
left of the message is still on the stream: each of its fragments ends one more receiving call, as a
continuation of nothing. The messages behind it are not affected (`size_limit`).

`Fragment.overflow?` finds the fragment that is too much, `Dispatch.outcomes` lists how the receiving
calls for a message end, and `carries_dispatch` says that this is what the stream carries. The proof
goes up from single frames as that for messages within the limit does: `assemble_overgrown` is about the
fragment that is too much, and `assemble_overflow` about the fragments that come before it.
-/

namespace EchoLoad

namespace Fragment

/-- The number of bytes that fragments carry together. -/
def total (gs : List Fragment) : Nat := (gs.flatMap Fragment.payload).length

theorem total_cons (g : Fragment) (gs : List Fragment) :
    total (g :: gs) = g.payload.length + total gs := by
  rw [total, List.flatMap_cons, List.length_append, total]

theorem total_append (gs gs' : List Fragment) : total (gs ++ gs') = total gs + total gs' := by
  rw [total, List.flatMap_append, List.length_append, total, total]

/-- Where a message of which `size` bytes have arrived grows beyond the limit: how much of it there is
with the fragment that is too much, and the fragments that are left of it. -/
def overflow? (limit : Nat) : (size : Nat) → List Fragment → Option (Nat × List Fragment)
  | _, [] => none
  | size, g :: gs =>
    let grown := size + g.payload.length
    if limit < grown then some (grown, gs) else overflow? limit grown gs

variable {limit size grown : Nat} {gs left : List Fragment}

theorem total_le_of_overflow?_eq_none (hsize : size ≤ limit)
    (h : overflow? limit size gs = none) : size + total gs ≤ limit := by
  induction gs generalizing size with
  | nil => exact hsize
  | cons g gs ih =>
    rw [overflow?] at h
    split at h
    · cases h
    · next hfits =>
      have hrest := ih (Nat.le_of_not_lt hfits) h
      rw [total_cons]
      omega

/-- The fragment that is found is the first that makes the message too long. -/
theorem split_of_overflow?_eq_some (hsize : size ≤ limit)
    (h : overflow? limit size gs = some (grown, left)) :
    ∃ before g, gs = before ++ g :: left ∧ size + total before ≤ limit ∧ limit < grown ∧
      grown = size + total (before ++ [g]) := by
  induction gs generalizing size with
  | nil => cases h
  | cons g gs ih =>
    rw [overflow?] at h
    split at h
    · next hover =>
      cases h
      refine ⟨[], g, rfl, hsize, hover, ?_⟩
      rw [List.nil_append, total_cons]
      rfl
    · next hfits =>
      obtain ⟨before, g', rfl, hbefore, hover, hgrown⟩ := ih (Nat.le_of_not_lt hfits) h
      refine ⟨g :: before, g', rfl, ?_, hover, ?_⟩
      · rw [total_cons]
        omega
      · rw [List.cons_append, total_cons]
        omega

end Fragment

/-- How the receiving calls end that a message takes: it is given whole, or it is refused, once where it
grows too long and once for each fragment behind that. -/
def Dispatch.outcomes (limit : Nat) (m : Dispatch) : List (Outcome Bytes) :=
  match Fragment.overflow? limit 0 m.fragments with
  | none => [.value m.bytes]
  | some (grown, left) =>
    .error (.violation (.oversized grown limit)) ::
      List.replicate left.length (.error (.violation .strayContinuation))

namespace Dispatch

variable {limit : Nat} {m : Dispatch}

theorem outcomes_of_le (h : m.bytes.length ≤ limit) : m.outcomes limit = [.value m.bytes] := by
  rw [outcomes]
  cases hover : Fragment.overflow? limit 0 m.fragments with
  | none => rfl
  | some found =>
    obtain ⟨grown, left⟩ := found
    obtain ⟨before, g, hsplit, -, hlong, hgrown⟩ :=
      Fragment.split_of_overflow?_eq_some (Nat.zero_le limit) hover
    have htotal : m.bytes.length = Fragment.total (before ++ g :: left) := by
      rw [← hsplit]
      rfl
    rw [List.append_cons, Fragment.total_append] at htotal
    omega

theorem outcomes_of_lt (h : limit < m.bytes.length) :
    ∃ before g left, m.fragments = before ++ g :: left ∧ Fragment.total before ≤ limit ∧
      limit < Fragment.total (before ++ [g]) ∧
      m.outcomes limit =
        .error (.violation (.oversized (Fragment.total (before ++ [g])) limit)) ::
          List.replicate left.length (.error (.violation .strayContinuation)) := by
  rw [outcomes]
  cases hover : Fragment.overflow? limit 0 m.fragments with
  | none =>
    have hfits := Fragment.total_le_of_overflow?_eq_none (Nat.zero_le limit) hover
    rw [Nat.zero_add] at hfits
    exact absurd h (Nat.not_lt.mpr hfits)
  | some found =>
    obtain ⟨grown, left⟩ := found
    obtain ⟨before, g, hsplit, hbefore, hlong, hgrown⟩ :=
      Fragment.split_of_overflow?_eq_some (Nat.zero_le limit) hover
    rw [Nat.zero_add] at hbefore hgrown
    subst hgrown
    exact ⟨before, g, left, hsplit, hbefore, hlong, rfl⟩

end Dispatch

namespace Connection

variable {c : Connection} {limit : Nat} {rest : Bytes}

/-- A fragment that makes a message too long ends the call, and the fragments behind it stay where they
are. -/
theorem assemble_overgrown (hw : c.sink.Working) {g : Fragment} {fin : Bool} {opcode : Opcode}
    {held : Option Bytes} {front : Bytes} (ho : opcode.isControl = false) (hg : g.Conforms)
    (htake : Message.take c.maxMessage held (g.frame fin opcode) =
      Message.grown c.maxMessage fin (front ++ g.payload))
    (hover : c.maxMessage < front.length + g.payload.length)
    (h : c.inbox.feed.bytes = (g.frames fin opcode).flatMap (·.encode none) ++ rest) :
    ∃ d, Advances c rest g.pongs d ∧ c.assemble held =
      (.error (.violation (.oversized (front.length + g.payload.length) c.maxMessage)), d) := by
  obtain ⟨d, hd, hassemble⟩ := assemble_fragment hw ho hg h held
  rw [← List.length_append] at hover ⊢
  rw [← hd.maxMessage] at htake hover ⊢
  refine ⟨d, hd, hassemble.trans ?_⟩
  rw [proceed, htake, Message.grown, if_pos hover]

/-- The fragments of a message up to the one that makes it too long, and no more, are taken by one call.
The induction is on the fragments after `g`: while they fit, `front` grows. -/
theorem assemble_overflow (hw : c.sink.Working) {g : Fragment} {gs left : List Fragment}
    {opcode : Opcode} {held : Option Bytes} {front : Bytes} {grown : Nat}
    (ho : opcode.isControl = false) (hgs : ∀ g' ∈ g :: gs, g'.Conforms)
    (htake : ∀ fin, Message.take c.maxMessage held (g.frame fin opcode) =
      Message.grown c.maxMessage fin (front ++ g.payload))
    (hover : Fragment.overflow? c.maxMessage front.length (g :: gs) = some (grown, left))
    (h : c.inbox.feed.bytes = (g.frames gs.isEmpty opcode ++
      Fragment.continuations gs).flatMap (·.encode none) ++ rest) :
    ∃ sent d, Advances c ((Fragment.continuations left).flatMap (·.encode none) ++ rest) sent d ∧
      c.assemble held = (.error (.violation (.oversized grown c.maxMessage)), d) := by
  induction gs generalizing c g opcode held front with
  | nil =>
    rw [List.flatMap_append, List.append_assoc] at h
    rw [Fragment.overflow?] at hover
    split at hover
    · next hlong =>
      cases hover
      exact ⟨_, assemble_overgrown hw ho (hgs g List.mem_cons_self) (htake _) hlong h⟩
    · cases hover
  | cons g' gs ih =>
    rw [List.flatMap_append, List.append_assoc] at h
    rw [Fragment.overflow?] at hover
    split at hover
    · next hlong =>
      cases hover
      exact ⟨_, assemble_overgrown hw ho (hgs g List.mem_cons_self) (htake _) hlong h⟩
    · next hfits =>
      obtain ⟨d, hd, hassemble⟩ := assemble_fragment hw ho (hgs g List.mem_cons_self) h held
      rw [← List.length_append] at hover hfits
      rw [← hd.maxMessage] at htake hover hfits ⊢
      have hgs' : ∀ g'' ∈ g' :: gs, g''.Conforms := fun g'' hm => hgs g'' (List.mem_cons_of_mem g hm)
      have hcontinue := take_continuation d.maxMessage (front ++ g.payload) g'
      obtain ⟨sent, e, he, hrest⟩ := ih hd.working rfl hgs' hcontinue hover hd.bytes
      have hproceed := proceed_of_grown (htake false) (Nat.le_of_not_lt hfits)
      exact ⟨_, e, hd.trans he, hassemble.trans (hproceed.trans hrest)⟩

/-- A continuation with nothing to continue ends the call. -/
theorem brings_stray {g : Fragment} (hg : g.Conforms) (fin : Bool) (rest : Bytes) :
    Brings limit ((g.frames fin .continuation).flatMap (·.encode none) ++ rest)
      (.error (.violation .strayContinuation)) rest := by
  intro c h
  obtain ⟨d, hd, hassemble⟩ := assemble_fragment h.working rfl hg h.feed none
  have hstray : d.proceed none (g.frame fin .continuation) =
      (.error (.violation .strayContinuation), d) := rfl
  refine ⟨d, ?_, h.of_advances hd, hd.pending⟩
  rw [receive_of_open h.isOpen, hassemble, hstray]

/-- What is left of a message that has been refused takes one call for each fragment. -/
theorem carries_strays {gs : List Fragment} (hgs : ∀ g ∈ gs, g.Conforms) (rest : Bytes) :
    Carries limit ((Fragment.continuations gs).flatMap (·.encode none) ++ rest)
      (List.replicate gs.length (.error (.violation .strayContinuation))) rest := by
  induction gs with
  | nil => exact .nil rest
  | cons g gs ih =>
    have hrest := ih fun g' hg' => hgs g' (List.mem_cons_of_mem g hg')
    rw [Fragment.continuations, List.flatMap_append, List.append_assoc, List.length_cons,
      List.replicate_succ]
    exact .cons (brings_stray (hgs g List.mem_cons_self) _ _) hrest

theorem brings_overflow {m : Dispatch} (hm : ∀ g ∈ m.fragments, g.Conforms) {grown : Nat}
    {left : List Fragment} (hover : Fragment.overflow? limit 0 m.fragments = some (grown, left))
    (rest : Bytes) :
    Brings limit (m.wire ++ rest) (.error (.violation (.oversized grown limit)))
      ((Fragment.continuations left).flatMap (·.encode none) ++ rest) := by
  intro c h
  obtain rfl := h.maxMessage
  obtain ⟨sent, d, hd, hassemble⟩ := assemble_overflow h.working m.opcode_not_control hm
    (take_first m c.maxMessage) hover h.feed
  refine ⟨d, ?_, h.of_advances hd, hd.pending⟩
  rw [receive_of_open h.isOpen, hassemble]

/-- What the stream carries for a message, within the limit or not. -/
theorem carries_dispatch {m : Dispatch} (hm : ∀ g ∈ m.fragments, g.Conforms) (rest : Bytes) :
    Carries limit (m.wire ++ rest) (m.outcomes limit) rest := by
  rw [Dispatch.outcomes]
  cases hover : Fragment.overflow? limit 0 m.fragments with
  | none =>
    have hsize := Fragment.total_le_of_overflow?_eq_none (Nat.zero_le limit) hover
    rw [Nat.zero_add] at hsize
    exact .cons (brings_dispatch ⟨hm, hsize⟩ rest) (.nil rest)
  | some found =>
    obtain ⟨grown, left⟩ := found
    obtain ⟨before, g, hsplit, -⟩ := Fragment.split_of_overflow?_eq_some (Nat.zero_le limit) hover
    have hleft : ∀ g' ∈ left, g'.Conforms := by
      intro g' hg'
      apply hm g'
      rw [hsplit]
      exact List.mem_append_right before (List.mem_cons_of_mem g hg')
    exact .cons (brings_overflow hm hover rest) (carries_strays hleft rest)

/-- A peer sends messages of any size, in fragments that fit into a frame, with pings and pongs between
them, and calls are made in any order, but for the closing one. The calls that go to the stream find the
outcomes that the messages have, one after the other, and the connection stays open. A message within
the limit has one outcome, the message itself. One beyond it is refused at the first fragment with which
it is too long, with its size up to there and the limit, and each fragment behind that is refused as a
continuation of nothing. -/
theorem size_limit (k : Cutting) (tail : List Arrival) {sink : Sink} (hsink : sink.Working)
    (opcode : Opcode) (limit : Nat) (seed : UInt32) {ms : List Dispatch}
    (hms : ∀ m ∈ ms, ∀ g ∈ m.fragments, g.Conforms) {rest : Bytes}
    (hbytes : k.bytes = ms.flatMap Dispatch.wire ++ rest) {ops : List Operation}
    (hops : .close ∉ ops) :
    let c := k.connection tail sink opcode limit seed
    let d := c.after ops
    let outcomes := ms.flatMap (Dispatch.outcomes limit)
    (∀ o ∈ outcomes[(c.takers ops).length]?,
      (∃ e, d.receive = (o, e) ∧ e.closed = false) ∧
      ∀ length, 0 < length → d.pending = [] →
        ∃ e, d.read length = (o.map (List.take length), e) ∧ e.closed = false) ∧
    (∀ m ∈ ms, m.bytes.length ≤ limit → m.outcomes limit = [.value m.bytes]) ∧
    (∀ m ∈ ms, limit < m.bytes.length →
      ∃ before g left, m.fragments = before ++ g :: left ∧ Fragment.total before ≤ limit ∧
        limit < Fragment.total (before ++ [g]) ∧
        m.outcomes limit =
          .error (.violation (.oversized (Fragment.total (before ++ [g])) limit)) ::
            List.replicate left.length (.error (.violation .strayContinuation))) ∧
    (∀ size, (Error.violation (.oversized size limit)).kind = .frame ∧
      (Error.violation (.oversized size limit)).text =
        s!"message of {size} bytes exceeds {limit}") ∧
    (Error.violation .strayContinuation).kind = .frame ∧
      (Error.violation .strayContinuation).text = "unexpected continuation frame" := by
  intro c d outcomes
  have hready := ready_connection hbytes tail hsink opcode limit seed
  have hcarries := carries_wires (fun m hm => @carries_dispatch limit m (hms m hm))
    (rest ++ (Feed.ofArrivals [] tail).bytes)
  refine ⟨fun o ho => ?_, fun m _ => Dispatch.outcomes_of_le, fun m _ => Dispatch.outcomes_of_lt,
    fun _ => ⟨rfl, rfl⟩, rfl, rfl⟩
  obtain ⟨bytes, _, hd, hbrings⟩ := hready.next hcarries hops ho
  constructor
  · obtain ⟨e, he, hopen, -⟩ := hbrings d hd
    exact ⟨e, he, hopen.isOpen⟩
  · intro length hpos hp
    obtain ⟨e, he, hopen, -⟩ := hd.read hbrings (Nat.ne_of_gt hpos) hp
    exact ⟨e, he, hopen.isOpen⟩

/-- A message of four bytes in three fragments, of which a limit of three bytes lets the first one
pass, with a ping behind the second one, and a message that is within the limit. -/
theorem size_limit_exceeded :
    let ms : List Dispatch :=
      [⟨true, ⟨[], [1, 2]⟩, [⟨[], [3, 4]⟩, ⟨[.ping [5]], []⟩]⟩, ⟨false, ⟨[], [6]⟩, []⟩]
    let k : Cutting :=
      ⟨[2], [[2, 1, 2, 0], [2, 3, 4, 0x89, 1, 5, 0x80], [0, 0x81, 1], [6]], 0⟩
    let c := k.connection [.ending] .willing .text 3 7
    (∀ m ∈ ms, ∀ g ∈ m.fragments, g.Conforms) ∧ k.bytes = ms.flatMap Dispatch.wire ++ [] ∧
      c.receive.1 = .error (.violation (.oversized 4 3)) ∧
      (c.after [.receive]).receive.1 = .error (.violation .strayContinuation) ∧
      (c.after [.receive, .receive]).receive.1 = .value [6] := by
  intro ms k c
  have hms : ∀ m ∈ ms, ∀ g ∈ m.fragments, g.Conforms := by decide
  have hbytes : k.bytes = ms.flatMap Dispatch.wire ++ [] := by decide
  have houtcomes : ∀ n o, (ms.flatMap (Dispatch.outcomes 3))[n]? = some o →
      (c.after (List.replicate n .receive)).receive.1 = o := by
    intro n o ho
    have hops : Operation.close ∉ List.replicate n Operation.receive := by
      intro hmem
      cases List.eq_of_mem_replicate hmem
    have htakers : (c.takers (List.replicate n .receive)).length = n := by
      rw [takers_receives, List.length_replicate]
    obtain ⟨hnext, -⟩ := size_limit k [.ending] Sink.working_willing .text 3 7 hms hbytes hops
    obtain ⟨⟨e, he, -⟩, -⟩ := hnext o (by rwa [htakers])
    rw [he]
  exact ⟨hms, hbytes, houtcomes 0 _ rfl, houtcomes 1 _ rfl, houtcomes 2 _ rfl⟩

end Connection

end EchoLoad
