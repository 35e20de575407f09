import EchoLoad.Connection.Basic

/-!
# What a connection puts on its stream

A connection does two things to the writing half of its stream: it sends a frame under the next
mask key, or it shuts the half down. `Connection.Emits c es d` says that `d` has the writing half of
`c` after exactly the emissions `es`, in this order. Nothing is said about their success: a stream
that fails in the middle of a frame has emitted it as far as it goes.

* `Sink.Alike`: two streams that answer every call alike. They do so whatever the mask keys are
  under which a frame is sent (`Connection.sendFrame_alike`).
* `Sink.Sent`: what has been sent without a fault has been taken to the last byte and flushed.
* `Sink.Working`: a stream that takes everything, in pieces of any size. What it has taken after
  some frames is their wire form (`Outlet.taken_emitAll`).
* `Outlet.shutdowns_emitAll`: shutdowns of the stream are counted by the emissions.
-/

namespace EchoLoad

/-! ## Streams that answer alike -/

/-- Two sinks that answer every call to come in the same way. -/
structure Sink.Alike (s₁ s₂ : Sink) : Prop where
  accept : s₁.accept = s₂.accept
  flushFault : s₁.flushFault = s₂.flushFault
  shutdownFault : s₁.shutdownFault = s₂.shutdownFault
  writes : s₁.writes = s₂.writes
  flushes : s₁.flushes = s₂.flushes
  shutdowns : s₁.shutdowns = s₂.shutdowns

namespace Sink

theorem Alike.refl (s : Sink) : s.Alike s := ⟨rfl, rfl, rfl, rfl, rfl, rfl⟩

theorem Alike.writeAll {s₁ s₂ : Sink} (h : s₁.Alike s₂) {bytes₁ bytes₂ : Bytes}
    (hl : bytes₁.length = bytes₂.length) :
    (s₁.writeAll bytes₁).1 = (s₂.writeAll bytes₂).1 ∧
      (s₁.writeAll bytes₁).2.Alike (s₂.writeAll bytes₂).2 := by
  induction hn : bytes₁.length using Nat.strongRecOn generalizing s₁ s₂ bytes₁ bytes₂ with
  | ind n ih =>
    cases bytes₁ with
    | nil =>
      obtain rfl : bytes₂ = [] := List.eq_nil_of_length_eq_zero hl.symm
      rw [Sink.writeAll, Sink.writeAll]
      exact ⟨rfl, h⟩
    | cons b bs =>
      obtain ⟨c, cs, rfl⟩ := List.exists_cons_of_length_eq_add_one hl.symm
      have hlen : bs.length = cs.length := Nat.succ.inj hl
      have hwrites : s₁.writes + 1 = s₂.writes + 1 := by rw [h.writes]
      have haccept : s₁.accept (s₁.writes + 1) (bs.length + 1) =
          s₂.accept (s₂.writes + 1) (cs.length + 1) := by rw [h.accept, hwrites, hlen]
      have hs : ∀ pieces₁ pieces₂ : List Bytes,
          Alike { s₁ with writes := s₁.writes + 1, pieces := pieces₁ }
            { s₂ with writes := s₂.writes + 1, pieces := pieces₂ } := fun _ _ =>
        ⟨h.accept, h.flushFault, h.shutdownFault, hwrites, h.flushes, h.shutdowns⟩
      rw [Sink.writeAll, Sink.writeAll]
      dsimp only
      rw [haccept]
      cases s₂.accept (s₂.writes + 1) (cs.length + 1) with
      | error f => exact ⟨rfl, hs _ _⟩
      | ok k =>
        cases k with
        | zero => exact ⟨rfl, hs _ _⟩
        | succ k =>
          refine ih (bs.drop k).length ?_ (hs _ _) ?_ rfl
          · rw [List.length_drop, ← hn, List.length_cons]
            omega
          · rw [List.length_drop, List.length_drop, hlen]

theorem Alike.flush {s₁ s₂ : Sink} (h : s₁.Alike s₂) :
    s₁.flush.1 = s₂.flush.1 ∧ s₁.flush.2.Alike s₂.flush.2 := by
  have hf : s₁.flushes + 1 = s₂.flushes + 1 := by rw [h.flushes]
  refine ⟨?_, h.accept, h.flushFault, h.shutdownFault, h.writes, hf, h.shutdowns⟩
  simp only [Sink.flush, h.flushFault, h.flushes]

theorem Alike.send {s₁ s₂ : Sink} (h : s₁.Alike s₂) {bytes₁ bytes₂ : Bytes}
    (hl : bytes₁.length = bytes₂.length) :
    (s₁.send bytes₁).1 = (s₂.send bytes₂).1 ∧ (s₁.send bytes₁).2.Alike (s₂.send bytes₂).2 := by
  have hw := h.writeAll hl
  unfold Sink.send
  generalize s₁.writeAll bytes₁ = r₁ at hw ⊢
  generalize s₂.writeAll bytes₂ = r₂ at hw ⊢
  obtain ⟨fault, s₁⟩ := r₁
  obtain ⟨fault₂, s₂⟩ := r₂
  obtain ⟨rfl, ha⟩ := hw
  cases fault with
  | some f => exact ⟨rfl, ha⟩
  | none => exact ha.flush

theorem Alike.shutdown {s₁ s₂ : Sink} (h : s₁.Alike s₂) :
    s₁.shutdown.1 = s₂.shutdown.1 ∧ s₁.shutdown.2.Alike s₂.shutdown.2 := by
  have hs : s₁.shutdowns + 1 = s₂.shutdowns + 1 := by rw [h.shutdowns]
  simp only [Sink.shutdown, h.shutdownFault, h.shutdowns]
  cases s₂.shutdownFault (s₂.shutdowns + 1) with
  | none =>
    exact ⟨rfl, h.accept, h.flushFault, rfl, h.writes, h.flushes, rfl⟩
  | some f =>
    exact ⟨rfl, h.accept, h.flushFault, rfl, h.writes, h.flushes, rfl⟩

end Sink

/-! ## What gets through -/

/-- Every byte has been taken, and the flush behind them has not failed. -/
structure Sink.Sent (s : Sink) (bytes : Bytes) (s' : Sink) : Prop where
  taken : s'.taken = s.taken ++ bytes
  flushes : s'.flushes = s.flushes + 1
  flushed : s.flushFault s'.flushes = none

namespace Sink

/-- Writing counts as writing only. -/
theorem writeAll_keeps (s : Sink) (bytes : Bytes) :
    (s.writeAll bytes).2.flushFault = s.flushFault ∧ (s.writeAll bytes).2.flushes = s.flushes ∧
      (s.writeAll bytes).2.shutdowns = s.shutdowns := by
  fun_induction Sink.writeAll s bytes with
  | case1 | case2 | case3 => exact ⟨rfl, rfl, rfl⟩
  | case4 s b bs _ n hf ih => exact ih

theorem taken_writeAll {s : Sink} {bytes : Bytes} (h : (s.writeAll bytes).1 = none) :
    (s.writeAll bytes).2.taken = s.taken ++ bytes := by
  fun_induction Sink.writeAll s bytes with
  | case1 s => exact (List.append_nil _).symm
  | case2 | case3 => cases h
  | case4 s b bs _ n hf ih =>
    rw [ih h]
    show ((b :: bs.take n) :: s.pieces).reverse.flatten ++ bs.drop n =
      s.pieces.reverse.flatten ++ b :: bs
    simp

theorem sent_of_send {s s' : Sink} {bytes : Bytes} (h : s.send bytes = (none, s')) :
    s.Sent bytes s' := by
  have htaken := @taken_writeAll s bytes
  obtain ⟨hfault, hflushes, -⟩ := s.writeAll_keeps bytes
  unfold send at h
  generalize s.writeAll bytes = r at h htaken hfault hflushes
  obtain ⟨fault, t⟩ := r
  cases fault with
  | some f => cases h
  | none =>
    have hnone : t.flushFault (t.flushes + 1) = none := congrArg Prod.fst h
    have heq : { t with flushes := t.flushes + 1 } = s' := congrArg Prod.snd h
    subst heq
    refine ⟨htaken rfl, congrArg (· + 1) hflushes, ?_⟩
    rw [← hfault]
    exact hnone

theorem shutdowns_send (s : Sink) (bytes : Bytes) :
    (s.send bytes).2.shutdowns = s.shutdowns := by
  obtain ⟨-, -, hshutdowns⟩ := s.writeAll_keeps bytes
  unfold send
  generalize s.writeAll bytes = r at hshutdowns ⊢
  obtain ⟨fault, t⟩ := r
  cases fault with
  | some f => exact hshutdowns
  | none => exact hshutdowns

theorem shutdowns_shutdown (s : Sink) : s.shutdown.2.shutdowns = s.shutdowns + 1 := by
  unfold shutdown
  dsimp only
  split <;> rfl

end Sink

/-! ## Streams that take everything -/

/-- No write and no flush fails, and every write takes at least one byte. -/
structure Sink.Working (s : Sink) : Prop where
  takes : ∀ call offered, 0 < offered → ∃ n, s.accept call offered = .ok (n + 1)
  flushes : ∀ call, s.flushFault call = none

namespace Sink

theorem working_willing : willing.Working :=
  ⟨fun _ offered h => ⟨offered - 1, congrArg Except.ok (by omega)⟩, fun _ => rfl⟩

theorem Working.writeAll {s : Sink} (h : s.Working) (bytes : Bytes) :
    (s.writeAll bytes).1 = none ∧ (s.writeAll bytes).2.Working := by
  fun_induction Sink.writeAll s bytes with
  | case1 s => exact ⟨rfl, h⟩
  | case2 s b bs _ f hf | case3 s b bs _ hf =>
    obtain ⟨n, hn⟩ := h.takes (s.writes + 1) (bs.length + 1) (Nat.succ_pos _)
    cases hn.symm.trans hf
  | case4 s b bs _ n hf ih => exact ih ⟨h.takes, h.flushes⟩

/-- A working stream takes what is sent, and goes on working. -/
theorem Working.send {s : Sink} (h : s.Working) (bytes : Bytes) :
    (s.send bytes).1 = none ∧ (s.send bytes).2.taken = s.taken ++ bytes ∧
      (s.send bytes).2.Working := by
  obtain ⟨hfault, hworking⟩ := h.writeAll bytes
  have htaken := taken_writeAll hfault
  unfold Sink.send
  generalize s.writeAll bytes = r at hfault htaken hworking ⊢
  obtain ⟨fault, s'⟩ := r
  obtain rfl : fault = none := hfault
  exact ⟨hworking.flushes _, htaken, hworking.takes, hworking.flushes⟩

end Sink

/-! ## Emissions -/

/-- What a connection does to the writing half of its stream. -/
inductive Emission where
  | frame (f : Frame)
  | shutdown
  deriving DecidableEq, Repr

/-- The writing half of a stream, and the number from which the next mask key is mixed. -/
structure Outlet where
  sink : Sink
  maskCounter : UInt32

namespace Outlet

def emit (o : Outlet) : Emission → Outlet
  | .frame f =>
    let (key, maskCounter) := Connection.nextMask o.maskCounter
    { sink := (o.sink.send (f.encode (some key))).2, maskCounter }
  | .shutdown => { o with sink := o.sink.shutdown.2 }

def emitAll (o : Outlet) (emissions : List Emission) : Outlet := emissions.foldl emit o

theorem emitAll_append (o : Outlet) (es₁ es₂ : List Emission) :
    o.emitAll (es₁ ++ es₂) = (o.emitAll es₁).emitAll es₂ := List.foldl_append

theorem shutdowns_emitAll (o : Outlet) (es : List Emission) :
    (o.emitAll es).sink.shutdowns = o.sink.shutdowns + es.count .shutdown := by
  induction es generalizing o with
  | nil => rfl
  | cons e es ih =>
    have hcons : o.emitAll (e :: es) = (o.emit e).emitAll es := rfl
    rw [hcons, ih]
    cases e with
    | frame f =>
      have hkept : (o.emit (.frame f)).sink.shutdowns = o.sink.shutdowns := Sink.shutdowns_send _ _
      have hne : Emission.frame f ≠ .shutdown := nofun
      rw [hkept, List.count_cons_of_ne hne]
    | shutdown =>
      have hone : (o.emit .shutdown).sink.shutdowns = o.sink.shutdowns + 1 :=
        Sink.shutdowns_shutdown _
      rw [hone, List.count_cons_self]
      omega

/-- The wire form of frames, each under the key that follows from the counter. -/
def sealed (maskCounter : UInt32) : List Frame → Bytes
  | [] => []
  | f :: rest =>
    let (key, maskCounter) := Connection.nextMask maskCounter
    f.encode (some key) ++ sealed maskCounter rest

/-- What a working stream has taken after some frames is their wire form. -/
theorem taken_emitAll {o : Outlet} (h : o.sink.Working) (frames : List Frame) :
    (o.emitAll (frames.map .frame)).sink.taken = o.sink.taken ++ sealed o.maskCounter frames ∧
      (o.emitAll (frames.map .frame)).sink.Working := by
  induction frames generalizing o with
  | nil => exact ⟨(List.append_nil _).symm, h⟩
  | cons f frames ih =>
    obtain ⟨-, htaken, hworking⟩ :=
      h.send (f.encode (some (Connection.nextMask o.maskCounter).1))
    obtain ⟨htakenAll, hworkingAll⟩ := ih (o := o.emit (.frame f)) hworking
    refine ⟨htakenAll.trans ?_, hworkingAll⟩
    rw [sealed, ← List.append_assoc]
    exact congrArg (· ++ _) htaken

end Outlet

namespace Connection

def outlet (c : Connection) : Outlet := ⟨c.sink, c.maskCounter⟩

/-- The writing half of `d` is that of `c` after the emissions. -/
def Emits (c : Connection) (emissions : List Emission) (d : Connection) : Prop :=
  d.outlet = c.outlet.emitAll emissions

theorem Emits.refl (c : Connection) : c.Emits [] c := rfl

theorem Emits.trans {c d e : Connection} {es₁ es₂ : List Emission} (h₁ : c.Emits es₁ d)
    (h₂ : d.Emits es₂ e) : c.Emits (es₁ ++ es₂) e := by
  rw [Emits, Outlet.emitAll_append, ← h₁]
  exact h₂

theorem emits_sendFrame (c : Connection) (f : Frame) : c.Emits [.frame f] (c.sendFrame f).2 := by
  rw [sendFrame_eq]
  rfl

/-- What a working stream takes from a connection that emits frames is their wire form. -/
theorem Emits.taken {c d : Connection} {frames : List Frame} (h : c.Emits (frames.map .frame) d)
    (hw : c.sink.Working) :
    d.sink.taken = c.sink.taken ++ Outlet.sealed c.maskCounter frames := by
  have hworking : c.outlet.sink.Working := hw
  obtain ⟨htaken, -⟩ := Outlet.taken_emitAll hworking frames
  rw [← h] at htaken
  exact htaken

theorem sendFrame_of_working {c : Connection} (h : c.sink.Working) (f : Frame) :
    (c.sendFrame f).1 = none ∧ (c.sendFrame f).2.sink.Working := by
  rw [sendFrame_eq]
  obtain ⟨hfault, -, hworking⟩ := h.send (f.encode (some (nextMask c.maskCounter).1))
  exact ⟨hfault, hworking⟩

/-- Mask keys make no difference to how a stream answers. -/
theorem sendFrame_alike {c₁ c₂ : Connection} (h : c₁.sink.Alike c₂.sink) (f : Frame) :
    (c₁.sendFrame f).1 = (c₂.sendFrame f).1 ∧
      (c₁.sendFrame f).2.sink.Alike (c₂.sendFrame f).2.sink := by
  have hlen : (f.encode (some (nextMask c₁.maskCounter).1)).length =
      (f.encode (some (nextMask c₂.maskCounter).1)).length := by
    simp only [Frame.length_encode, Option.isSome_some]
  rw [sendFrame_eq, sendFrame_eq]
  exact h.send hlen

end Connection

end EchoLoad
