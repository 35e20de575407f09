import EchoLoad.Proofs.Connection.Emission
import EchoLoad.Proofs.Frame.Sequence

/-!
# What reaches the wire

Emissions put frames on a stream; how much of them the stream takes is another matter. A frame is
complete if it is sent without a fault (`Outlet.complete`). A working stream takes every frame
(`Outlet.taken_of_working`). A stream that breaks takes frames up to some point, a part of the next
one at most, and nothing after that (`Outlet.taken_of_failsFrom`).
-/

namespace EchoLoad

/-! ## Streams that break -/

/-- Every write before the call with this number takes at least one byte, and no write takes any from
then on; flushes do not fail. -/
structure Sink.FailsFrom (s : Sink) (n : Nat) : Prop where
  takes : ∀ call offered, call < n → 0 < offered → ∃ k, s.accept call offered = .ok (k + 1)
  refuses : ∀ call offered k, n ≤ call → s.accept call offered ≠ .ok (k + 1)
  flushes : ∀ call, s.flushFault call = none

namespace Sink

variable {s : Sink} {n : Nat} {bytes : Bytes}

theorem FailsFrom.of_accept {s' : Sink} (h : s.FailsFrom n) (haccept : s'.accept = s.accept)
    (hflush : s'.flushFault = s.flushFault) : s'.FailsFrom n := by
  refine ⟨?_, ?_, ?_⟩
  · rw [haccept]
    exact h.takes
  · rw [haccept]
    exact h.refuses
  · rw [hflush]
    exact h.flushes

theorem accept_send (s : Sink) (bytes : Bytes) :
    (s.send bytes).2.accept = s.accept ∧ (s.send bytes).2.flushFault = s.flushFault := by
  have hwrite : (s.writeAll bytes).2.accept = s.accept := by
    fun_induction Sink.writeAll s bytes with
    | case1 | case2 | case3 => rfl
    | case4 s b bs _ k hk ih => exact ih
  have hflush := (s.writeAll_keeps bytes).1
  unfold send
  generalize s.writeAll bytes = r at hwrite hflush ⊢
  obtain ⟨fault, t⟩ := r
  cases fault with
  | some f => exact ⟨hwrite, hflush⟩
  | none => exact ⟨hwrite, hflush⟩

/-- A write that fails has taken a part of the bytes, and no later write takes any. -/
theorem FailsFrom.writeAll (h : s.FailsFrom n) (hfault : (s.writeAll bytes).1 ≠ none) :
    n ≤ (s.writeAll bytes).2.writes ∧ ∃ front, front <+: bytes ∧ front ≠ bytes ∧
      (s.writeAll bytes).2.taken = s.taken ++ front := by
  have hstop : ∀ {s : Sink} {offered : Nat}, s.FailsFrom n → 0 < offered →
      (∀ k, s.accept (s.writes + 1) offered ≠ .ok (k + 1)) → n ≤ s.writes + 1 := by
    intro s offered h hoffered hnone
    refine Nat.le_of_not_lt fun hlt => ?_
    obtain ⟨k, hk⟩ := h.takes _ offered hlt hoffered
    exact hnone k hk
  fun_induction Sink.writeAll s bytes with
  | case1 s => exact absurd rfl hfault
  | case2 s b bs _ f hf =>
    refine ⟨hstop h (Nat.succ_pos bs.length) fun k hk => ?_, [], List.nil_prefix,
      (List.cons_ne_nil b bs).symm, (List.append_nil _).symm⟩
    cases hf.symm.trans hk
  | case3 s b bs _ hf =>
    refine ⟨hstop h (Nat.succ_pos bs.length) fun k hk => ?_, [], List.nil_prefix,
      (List.cons_ne_nil b bs).symm, (List.append_nil _).symm⟩
    cases hf.symm.trans hk
  | case4 s b bs _ k hf ih =>
    obtain ⟨hle, front, hfront, hne, htaken⟩ := ih (h.of_accept rfl rfl) hfault
    have hsplit : b :: bs = (b :: bs.take k) ++ bs.drop k := by
      rw [List.cons_append, List.take_append_drop]
    refine ⟨hle, (b :: bs.take k) ++ front, ?_, ?_, ?_⟩
    · rw [hsplit]
      exact (List.prefix_append_right_inj _).mpr hfront
    · rw [hsplit]
      exact fun heq => hne (List.append_cancel_left heq)
    · rw [htaken]
      show ((b :: bs.take k) :: s.pieces).reverse.flatten ++ front = _
      simp [taken]

/-- A stream that takes all of the bytes or fails within them, and is broken then. -/
theorem FailsFrom.send (h : s.FailsFrom n) (bytes : Bytes) :
    (s.send bytes).2.FailsFrom n ∧
      ((s.send bytes).1 = none ∧ (s.send bytes).2.taken = s.taken ++ bytes ∨
        (∃ f, (s.send bytes).1 = some f) ∧ n ≤ (s.send bytes).2.writes ∧
          ∃ front, front <+: bytes ∧ front ≠ bytes ∧ (s.send bytes).2.taken = s.taken ++ front) := by
  obtain ⟨haccept, hflush⟩ := s.accept_send bytes
  refine ⟨h.of_accept haccept hflush, ?_⟩
  have hdone := @taken_writeAll s bytes
  have hcut := @FailsFrom.writeAll s n bytes h
  have hkept := (s.writeAll_keeps bytes).1
  unfold Sink.send
  generalize s.writeAll bytes = r at hdone hcut hkept ⊢
  obtain ⟨fault, t⟩ := r
  cases fault with
  | none =>
    refine .inl ⟨?_, hdone rfl⟩
    show t.flushFault (t.flushes + 1) = none
    rw [hkept]
    exact h.flushes _
  | some f =>
    obtain ⟨hle, hfront⟩ := hcut nofun
    exact .inr ⟨⟨f, rfl⟩, hle, hfront⟩

/-- A broken stream takes nothing. -/
theorem FailsFrom.send_of_broken (h : s.FailsFrom n) (hbroken : n ≤ s.writes) (hne : bytes ≠ []) :
    (∃ f, (s.send bytes).1 = some f) ∧ (s.send bytes).2.taken = s.taken ∧
      n ≤ (s.send bytes).2.writes := by
  obtain ⟨b, bs, rfl⟩ := List.exists_cons_of_ne_nil hne
  have hle : n ≤ s.writes + 1 := Nat.le_succ_of_le hbroken
  have hwrite : ∃ f, s.writeAll (b :: bs) = (some f, { s with writes := s.writes + 1 }) := by
    rw [Sink.writeAll]
    dsimp only
    cases hk : s.accept (s.writes + 1) (bs.length + 1) with
    | error f => exact ⟨f, rfl⟩
    | ok k =>
      cases k with
      | zero => exact ⟨_, rfl⟩
      | succ k => exact absurd hk (h.refuses _ _ k hle)
  obtain ⟨f, hw⟩ := hwrite
  rw [Sink.send, hw]
  exact ⟨⟨f, rfl⟩, rfl, hle⟩

theorem shutdown_keeps (s : Sink) : s.shutdown.2.taken = s.taken ∧ s.shutdown.2.writes = s.writes ∧
    s.shutdown.2.accept = s.accept ∧ s.shutdown.2.flushFault = s.flushFault := by
  unfold shutdown
  dsimp only
  split <;> exact ⟨rfl, rfl, rfl, rfl⟩

end Sink

/-! ## Frames that get through -/

def Emission.frame? : Emission → Option Frame
  | .frame f => some f
  | .shutdown => none

namespace Outlet

variable {o : Outlet} {n : Nat}

/-- The frame under the next mask key. -/
def packet (o : Outlet) (f : Frame) : Packet := ⟨f, some (Connection.nextMask o.maskCounter).1⟩

/-- The packets among these emissions that are sent without a fault. -/
def complete (o : Outlet) : List Emission → List Packet
  | [] => []
  | .frame f :: es =>
    match (o.sink.send (o.packet f).wire).1 with
    | none => o.packet f :: (o.emit (.frame f)).complete es
    | some _ => (o.emit (.frame f)).complete es
  | .shutdown :: es => (o.emit .shutdown).complete es

theorem complete_append (o : Outlet) (es₁ es₂ : List Emission) :
    o.complete (es₁ ++ es₂) = o.complete es₁ ++ (o.emitAll es₁).complete es₂ := by
  fun_induction complete o es₁ with
  | case1 => rfl
  | case2 o f es hnone ih =>
    rw [List.cons_append, complete, hnone, List.cons_append]
    exact congrArg _ ih
  | case3 o f es fault hsome ih =>
    rw [List.cons_append, complete, hsome]
    exact ih
  | case4 o es ih =>
    rw [List.cons_append, complete]
    exact ih

/-- Every frame is masked. -/
theorem isSome_key {es : List Emission} {x : Packet} (h : x ∈ o.complete es) :
    x.key.isSome = true := by
  fun_induction complete o es with
  | case1 => cases h
  | case2 o f es hnone ih =>
    rcases List.mem_cons.mp h with rfl | h
    · rfl
    · exact ih h
  | case3 o f es fault hsome ih => exact ih h
  | case4 o es ih => exact ih h

theorem complete_sublist (o : Outlet) (es : List Emission) :
    ((o.complete es).map Packet.frame).Sublist (es.filterMap Emission.frame?) := by
  fun_induction complete o es with
  | case1 => exact List.Sublist.slnil
  | case2 o f es hnone ih => exact ih.cons_cons f
  | case3 o f es fault hsome ih => exact ih.cons f
  | case4 o es ih => exact ih

/-- A working stream takes every frame. -/
theorem taken_of_working (h : o.sink.Working) (es : List Emission) :
    (o.emitAll es).sink.Working ∧
      (o.complete es).map Packet.frame = es.filterMap Emission.frame? ∧
      (o.emitAll es).sink.taken = o.sink.taken ++ (o.complete es).flatMap Packet.wire := by
  induction es generalizing o with
  | nil => exact ⟨h, rfl, (List.append_nil _).symm⟩
  | cons e es ih =>
    cases e with
    | shutdown =>
      obtain ⟨htaken, -, haccept, hflush⟩ := o.sink.shutdown_keeps
      have hworking : (o.emit .shutdown).sink.Working := ⟨haccept ▸ h.takes, hflush ▸ h.flushes⟩
      obtain ⟨hall, hframes, hbytes⟩ := ih hworking
      exact ⟨hall, hframes, hbytes.trans (congrArg (· ++ _) htaken)⟩
    | frame f =>
      obtain ⟨hnone, htaken, hworking⟩ := h.send (o.packet f).wire
      obtain ⟨hall, hframes, hbytes⟩ := ih (o := o.emit (.frame f)) hworking
      rw [complete, hnone]
      refine ⟨hall, ?_, hbytes.trans ?_⟩
      · rw [List.map_cons, hframes]
        rfl
      · rw [List.flatMap_cons, ← List.append_assoc]
        exact congrArg (· ++ _) htaken

/-- A broken stream takes no frame and no part of one. -/
theorem taken_of_broken (h : o.sink.FailsFrom n) (hbroken : n ≤ o.sink.writes)
    (es : List Emission) :
    o.complete es = [] ∧ (o.emitAll es).sink.taken = o.sink.taken := by
  induction es generalizing o with
  | nil => exact ⟨rfl, rfl⟩
  | cons e es ih =>
    cases e with
    | shutdown =>
      obtain ⟨htaken, hwrites, haccept, hflush⟩ := o.sink.shutdown_keeps
      obtain ⟨hcomplete, hbytes⟩ := ih (o := o.emit .shutdown) (h.of_accept haccept hflush)
        (hwrites ▸ hbroken)
      exact ⟨hcomplete, hbytes.trans htaken⟩
    | frame f =>
      have hne : (o.packet f).wire ≠ [] := List.cons_ne_nil _ _
      obtain ⟨haccept, hflush⟩ := o.sink.accept_send (o.packet f).wire
      obtain ⟨⟨fault, hfault⟩, htaken, hwrites⟩ := h.send_of_broken hbroken hne
      obtain ⟨hcomplete, hbytes⟩ := ih (o := o.emit (.frame f)) (h.of_accept haccept hflush) hwrites
      rw [complete, hfault]
      exact ⟨hcomplete, hbytes.trans htaken⟩

/-- What is on the wire behind the complete packets: nothing, or a part of the frame that comes
next. -/
def Torn (front : Bytes) (complete frames : List Frame) : Prop :=
  front = [] ∧ complete <+: frames ∨
    ∃ last : Packet, last.key.isSome = true ∧ front <+: last.wire ∧ front ≠ last.wire ∧
      complete ++ [last.frame] <+: frames

theorem Torn.cons {front : Bytes} {complete frames : List Frame} (h : Torn front complete frames)
    (f : Frame) : Torn front (f :: complete) (f :: frames) := by
  rcases h with ⟨hnil, hprefix⟩ | ⟨last, hkey, hfront, hne, hprefix⟩
  · exact .inl ⟨hnil, (List.prefix_cons_inj f).mpr hprefix⟩
  · exact .inr ⟨last, hkey, hfront, hne, (List.prefix_cons_inj f).mpr hprefix⟩

/-- A stream that breaks takes the complete frames and a part of the next one at most. -/
theorem taken_of_failsFrom (h : o.sink.FailsFrom n) (es : List Emission) :
    ∃ front, (o.emitAll es).sink.taken =
        o.sink.taken ++ (o.complete es).flatMap Packet.wire ++ front ∧
      Torn front ((o.complete es).map Packet.frame) (es.filterMap Emission.frame?) := by
  induction es generalizing o with
  | nil => exact ⟨[], by simp [emitAll, complete], .inl ⟨rfl, List.prefix_rfl⟩⟩
  | cons e es ih =>
    cases e with
    | shutdown =>
      obtain ⟨htaken, -, haccept, hflush⟩ := o.sink.shutdown_keeps
      obtain ⟨front, hbytes, htorn⟩ := ih (o := o.emit .shutdown) (h.of_accept haccept hflush)
      exact ⟨front, hbytes.trans (congrArg (· ++ _ ++ _) htaken), htorn⟩
    | frame f =>
      obtain ⟨hfails, hsent⟩ := h.send (o.packet f).wire
      rcases hsent with ⟨hnone, htaken⟩ | ⟨⟨fault, hfault⟩, hwrites, front, hfront, hne, htaken⟩
      · obtain ⟨front, hbytes, htorn⟩ := ih (o := o.emit (.frame f)) hfails
        rw [complete, hnone]
        refine ⟨front, hbytes.trans ?_, htorn.cons f⟩
        rw [List.flatMap_cons, ← List.append_assoc]
        exact congrArg (· ++ _ ++ _) htaken
      · obtain ⟨hcomplete, hbytes⟩ := taken_of_broken (o := o.emit (.frame f)) hfails hwrites es
        rw [complete, hfault]
        dsimp only
        rw [hcomplete, List.flatMap_nil, List.append_nil]
        exact ⟨front, hbytes.trans htaken, .inr ⟨o.packet f, rfl, hfront, hne, es.filterMap _, rfl⟩⟩

end Outlet

end EchoLoad
