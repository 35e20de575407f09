import EchoLoad.Session.Trips

/-!
# What round trips call and note

Round trips over any connection and with any workload. A round trip that succeeds is an `Exchange`:
the write has told how many bytes were taken, and the read how many came. Round trips are a row of
exchanges (`Exchanges`), and then they stop, because all of them have been made, or because a call of
the next one has no value, or because a buffer cannot be set up (`Stops`).

This is all there is to be told (`roundTrips_logged`): the calls are those of the exchanges and of the
stop, each message has the size that is drawn for it, and each exchange whose two numbers differ has
been noted and has not stopped anything.
-/

namespace EchoLoad

/-- The message of the size that is drawn at a position. -/
def Workload.message (w : Workload) (position : Nat) : Bytes :=
  List.replicate (w.size position) filler

/-- The messages of so many round trips, the first of them with the size that is drawn at a
position. -/
def Workload.messages (w : Workload) (position planned : Nat) : List Bytes :=
  (List.range planned).map fun i => List.replicate (w.size (position + i)) filler

theorem Workload.messages_succ (w : Workload) (position planned : Nat) :
    w.messages position (planned + 1) =
      List.replicate (w.size position) filler :: w.messages (position + 1) planned := by
  rw [messages, List.range_succ_eq_map, List.map_cons, List.map_map]
  refine congrArg _ (List.map_congr_left fun i _ => ?_)
  show List.replicate (w.size (position + (i + 1))) filler = _
  rw [Nat.add_assoc, Nat.add_comm 1 i]

theorem Workload.messages_add (w : Workload) (position n m : Nat) :
    w.messages position (n + m) = w.messages position n ++ w.messages (position + n) m := by
  simp only [messages, List.range_add, List.map_append, List.map_map, Function.comp_def,
    Nat.add_assoc]

theorem Workload.length_of_mem_messages {w : Workload} {position planned : Nat} {message : Bytes}
    (h : message ∈ w.messages position planned) : ∃ i, message.length = w.size i := by
  obtain ⟨i, -, rfl⟩ := List.mem_map.mp h
  exact ⟨_, List.length_replicate⟩

/-- The calls of a round trip. -/
def Call.roundTrip (room : Nat) (message : Bytes) : List Call := [.write message, .read room]

/-- The trace after the round trips with these messages. -/
def Trace.traded (t : Trace) (slot room : Nat) (messages : List Bytes) : Trace :=
  { t with
    calls := (messages.flatMap (Call.roundTrip room)).reverse.map (slot, ·) ++ t.calls
    sizeDraws := t.sizeDraws + messages.length }

theorem Trace.traded_traded (t : Trace) (slot room : Nat) (front back : List Bytes) :
    (t.traded slot room front).traded slot room back = t.traded slot room (front ++ back) := by
  simp only [traded, List.flatMap_append, List.reverse_append, List.map_append,
    List.append_assoc, List.length_append, Nat.add_assoc]

namespace Trips

variable {κ : Type} {transport : Transport κ} {w : Workload} {slot left : Nat} {t : Trace}

/-- What the two calls of a round trip have told. -/
structure Exchange where
  written : Nat
  got : Nat
  deriving DecidableEq, Repr

/-- Exchanges lead from one connection to another; the size of the first message is drawn at a
position. -/
inductive Exchanges (transport : Transport κ) (w : Workload) :
    Nat → κ → List Exchange → κ → Prop where
  | nil (position : Nat) (conn : κ) : Exchanges transport w position conn [] conn
  | cons {position : Nat} {conn conn' conn'' last : κ} {x : Exchange} {xs : List Exchange}
      (hw : transport.write conn (w.message position) = (.value x.written, conn'))
      (hr : transport.read conn' w.readBuffer = (.value x.got, conn''))
      (h : Exchanges transport w (position + 1) conn'' xs last) :
      Exchanges transport w position conn (x :: xs) last

/-- Why round trips stop when so many of them are left, and the calls of the one that stops them. -/
inductive Stops (transport : Transport κ) (w : Workload) (position : Nat) (conn : κ) :
    (left : Nat) → Outcome Unit → List Call → Prop where
  | done : Stops transport w position conn 0 (.value ()) []
  | write {left : Nat} {outcome : Outcome Nat} {conn' : κ}
      (hw : transport.write conn (w.message position) = (outcome, conn'))
      (hne : ∀ n, outcome ≠ .value n) :
      Stops transport w position conn (left + 1) (outcome.map fun _ => ())
        [.write (w.message position)]
  | read {left written : Nat} {outcome : Outcome Nat} {conn' conn'' : κ}
      (hw : transport.write conn (w.message position) = (.value written, conn'))
      (hr : transport.read conn' w.readBuffer = (outcome, conn''))
      (hne : ∀ n, outcome ≠ .value n) :
      Stops transport w position conn (left + 1) (outcome.map fun _ => ())
        (Call.roundTrip w.readBuffer (w.message position))
  | noBuffer {left : Nat} (h : Workload.maxBuffer < w.readBuffer) :
      Stops transport w position conn left .panicked []
  | noMessage {left : Nat} (h : Workload.maxBuffer < w.size position) :
      Stops transport w position conn (left + 1) .panicked []

/-- The events of exchanges: one for each whose numbers differ. -/
def mismatches (slot : Nat) (xs : List Exchange) : List Event :=
  (xs.filter fun x => x.got ≠ x.written).map fun x => .sizeMismatch slot x.written x.got

/-- What a session is told of the round trips when they are over. -/
def Progress.outcome : Progress κ → Outcome Unit
  | .finished _ => .value ()
  | .failed e _ => .error e
  | .panicked => .panicked
  | .going _ | .stuck => .waiting

/-- The loop of the round trips, taken apart at its first call. -/
theorem run_eq (transport : Transport κ) (workload : Workload) (slot : Nat)
    (trips : Trips κ) (t : Trace) : run transport workload slot trips t =
      match step transport workload slot trips t with
      | (.going trips', t') => run transport workload slot trips' t'
      | (ended, t') => (ended, t') := by
  rw [run]
  split
  all_goals
    next h => rw [h]

/-- A read lets others go first or not; then the reply is read. -/
theorem run_read (conn : κ) (written : Nat) (t : Trace) :
    run transport w slot { conn, left, stage := .read written } t =
      match reply transport w slot written left conn (t.call slot (.read w.readBuffer)) with
      | (.going trips', t') => run transport w slot trips' t'
      | (ended, t') => (ended, t') := by
  rw [run_eq]
  cases hyields : transport.yields conn with
  | false => simp only [step, hyields, Bool.false_eq_true, if_false]
  | true =>
    simp only [step, hyields, if_true]
    rw [run_eq]
    rfl

/-! ## One round trip -/

theorem run_of_long_buffer (h : Workload.maxBuffer < w.readBuffer) (slot left : Nat) (conn : κ)
    (t : Trace) : run transport w slot { conn, left } t = (.panicked, t) := by
  rw [run_eq]
  simp only [step, gt_iff_lt, if_pos h]

theorem run_of_long_message (hbuffer : ¬ Workload.maxBuffer < w.readBuffer)
    (h : Workload.maxBuffer < w.size t.sizeDraws) (slot left : Nat) (conn : κ) :
    run transport w slot { conn, left := left + 1 } t =
      (.panicked, { t with sizeDraws := t.sizeDraws + 1 }) := by
  rw [run_eq]
  simp only [step, gt_iff_lt, if_neg hbuffer, if_pos h]

theorem run_of_none_left (hbuffer : ¬ Workload.maxBuffer < w.readBuffer) (slot : Nat) (conn : κ)
    (t : Trace) : run transport w slot { conn, left := 0 } t = (.finished conn, t) := by
  rw [run_eq]
  simp only [step, gt_iff_lt, if_neg hbuffer]

section Buffers

variable (slot left) (hbuffer : ¬ Workload.maxBuffer < w.readBuffer)
  (hsize : ¬ Workload.maxBuffer < w.size t.sizeDraws) {conn conn' conn'' : κ}
include hbuffer hsize

theorem step_write {outcome : Outcome Nat}
    (hw : transport.write conn (w.message t.sizeDraws) = (outcome, conn')) :
    step transport w slot { conn, left := left + 1 } t =
      (match outcome with
        | .value written => .going { conn := conn', left, stage := .read written }
        | .error e => .failed e conn'
        | .waiting => .stuck
        | .panicked => .panicked,
      { t with sizeDraws := t.sizeDraws + 1 }.call slot (.write (w.message t.sizeDraws))) := by
  have hw' : transport.write conn (List.replicate (w.size t.sizeDraws) filler) =
      (outcome, conn') := hw
  simp only [step, if_neg hbuffer, if_neg hsize, hw', gt_iff_lt]
  cases outcome <;> rfl

/-- A round trip whose calls have values is an exchange, and the next one follows, whether it has been
noted or not. -/
theorem run_of_exchange {x : Exchange}
    (hw : transport.write conn (w.message t.sizeDraws) = (.value x.written, conn'))
    (hr : transport.read conn' w.readBuffer = (.value x.got, conn'')) :
    run transport w slot { conn, left := left + 1 } t =
      run transport w slot { conn := conn'', left }
        { t.traded slot w.readBuffer [w.message t.sizeDraws] with
          events := mismatches slot [x] ++ t.events } := by
  rw [run_eq, step_write slot left hbuffer hsize hw]
  dsimp only
  rw [run_read]
  simp only [reply, hr]
  by_cases hsame : x.got = x.written
  · have hnone : mismatches slot [x] = [] := by simp [mismatches, hsame]
    rw [if_pos hsame, hnone]
    rfl
  · have hone : mismatches slot [x] = [.sizeMismatch slot x.written x.got] := by
      simp [mismatches, hsame]
    rw [if_neg hsame, hone]
    rfl

theorem run_of_write {outcome : Outcome Nat}
    (hw : transport.write conn (w.message t.sizeDraws) = (outcome, conn'))
    (hne : ∀ n, outcome ≠ .value n) :
    let result := run transport w slot { conn, left := left + 1 } t
    result.1.outcome = outcome.map (fun _ => ()) ∧
      result.2.calls = (slot, .write (w.message t.sizeDraws)) :: t.calls ∧
      result.2.events = t.events := by
  intro result
  have hresult : result = _ := run_eq transport w slot { conn, left := left + 1 } t
  rw [step_write slot left hbuffer hsize hw] at hresult
  rw [hresult]
  cases outcome with
  | value n => exact absurd rfl (hne n)
  | error e => exact ⟨rfl, rfl, rfl⟩
  | waiting => exact ⟨rfl, rfl, rfl⟩
  | panicked => exact ⟨rfl, rfl, rfl⟩

theorem run_of_read {written : Nat} {outcome : Outcome Nat}
    (hw : transport.write conn (w.message t.sizeDraws) = (.value written, conn'))
    (hr : transport.read conn' w.readBuffer = (outcome, conn''))
    (hne : ∀ n, outcome ≠ .value n) :
    let result := run transport w slot { conn, left := left + 1 } t
    result.1.outcome = outcome.map (fun _ => ()) ∧
      result.2.calls =
        (slot, .read w.readBuffer) :: (slot, .write (w.message t.sizeDraws)) :: t.calls ∧
      result.2.events = t.events := by
  intro result
  have hresult : result = _ := run_eq transport w slot { conn, left := left + 1 } t
  rw [step_write slot left hbuffer hsize hw] at hresult
  dsimp only at hresult
  rw [run_read] at hresult
  simp only [reply, hr] at hresult
  rw [hresult]
  cases outcome with
  | value n => exact absurd rfl (hne n)
  | error e => exact ⟨rfl, rfl, rfl⟩
  | waiting => exact ⟨rfl, rfl, rfl⟩
  | panicked => exact ⟨rfl, rfl, rfl⟩

end Buffers

/-! ## All round trips -/

/-- Exchanges, the stop behind them, and what has been called and noted by both. -/
structure Logged (transport : Transport κ) (w : Workload) (slot planned : Nat) (conn : κ) (t : Trace)
    (xs : List Exchange) (last : κ) (outcome : Outcome Unit) (rest : List Call) (t' : Trace) :
    Prop where
  exchanges : Exchanges transport w t.sizeDraws conn xs last
  length_le : xs.length ≤ planned
  stops : Stops transport w (t.sizeDraws + xs.length) last (planned - xs.length) outcome rest
  calls : t'.calls = ((w.messages t.sizeDraws xs.length).flatMap (Call.roundTrip w.readBuffer) ++
    rest).reverse.map (slot, ·) ++ t.calls
  events : t'.events = (mismatches slot xs).reverse ++ t.events

theorem Logged.stop {planned : Nat} {conn : κ} {t' : Trace} {outcome : Outcome Unit}
    {rest : List Call} (hs : Stops transport w t.sizeDraws conn planned outcome rest)
    (hcalls : t'.calls = rest.reverse.map (slot, ·) ++ t.calls) (hevents : t'.events = t.events) :
    Logged transport w slot planned conn t [] conn outcome rest t' :=
  ⟨.nil _ _, Nat.zero_le _, hs, hcalls, hevents⟩

theorem mismatches_cons (slot : Nat) (x : Exchange) (xs : List Exchange) :
    mismatches slot (x :: xs) = mismatches slot [x] ++ mismatches slot xs := by
  rw [mismatches, mismatches, mismatches, ← List.map_append, ← List.filter_append,
    List.singleton_append]

theorem reverse_mismatches_singleton (slot : Nat) (x : Exchange) :
    (mismatches slot [x]).reverse = mismatches slot [x] := by
  by_cases hsame : x.got = x.written <;> simp [mismatches, hsame]

/-- An exchange in front of others. -/
theorem Logged.cons {planned : Nat} {conn conn' conn'' last : κ} {x : Exchange}
    {xs : List Exchange} {outcome : Outcome Unit} {rest : List Call} {t' : Trace}
    (hw : transport.write conn (w.message t.sizeDraws) = (.value x.written, conn'))
    (hr : transport.read conn' w.readBuffer = (.value x.got, conn''))
    (h : Logged transport w slot planned conn''
      { t.traded slot w.readBuffer [w.message t.sizeDraws] with
        events := mismatches slot [x] ++ t.events } xs last outcome rest t') :
    Logged transport w slot (planned + 1) conn t (x :: xs) last outcome rest t' := by
  have hposition : t.sizeDraws + (xs.length + 1) = t.sizeDraws + 1 + xs.length := by omega
  have hleft : planned + 1 - (xs.length + 1) = planned - xs.length := by omega
  refine ⟨.cons hw hr h.exchanges, Nat.succ_le_succ h.length_le, ?_, ?_, ?_⟩
  · rw [List.length_cons, hposition, hleft]
    exact h.stops
  · rw [h.calls, List.length_cons, Workload.messages_succ]
    simp only [Trace.traded, List.flatMap_cons, List.flatMap_nil, List.append_nil,
      List.append_assoc, List.reverse_append, List.map_append]
    rfl
  · rw [h.events, mismatches_cons slot x xs, List.reverse_append, reverse_mismatches_singleton,
      List.append_assoc]

/-- The induction is on the round trips that are left: the first of them is an exchange, or it stops
the others. -/
theorem exists_logged (transport : Transport κ) (w : Workload) (slot left : Nat) (conn : κ)
    (t : Trace) : ∃ xs last rest,
      let result := run transport w slot { conn, left } t
      Logged transport w slot left conn t xs last result.1.outcome rest result.2 := by
  by_cases hbuffer : Workload.maxBuffer < w.readBuffer
  · refine ⟨[], conn, [], ?_⟩
    rw [run_of_long_buffer hbuffer]
    exact .stop (.noBuffer hbuffer) rfl rfl
  induction left generalizing conn t with
  | zero =>
    refine ⟨[], conn, [], ?_⟩
    rw [run_of_none_left hbuffer]
    exact .stop .done rfl rfl
  | succ left ih =>
    by_cases hsize : Workload.maxBuffer < w.size t.sizeDraws
    · refine ⟨[], conn, [], ?_⟩
      rw [run_of_long_message hbuffer hsize]
      exact .stop (.noMessage hsize) rfl rfl
    cases hw : transport.write conn (w.message t.sizeDraws) with
    | mk outcome conn' =>
    by_cases hwritten : ∃ n, outcome = .value n
    · obtain ⟨written, rfl⟩ := hwritten
      cases hr : transport.read conn' w.readBuffer with
      | mk outcome conn'' =>
      by_cases hgot : ∃ n, outcome = .value n
      · obtain ⟨got, rfl⟩ := hgot
        have hrun := run_of_exchange slot left hbuffer hsize (x := ⟨written, got⟩) hw hr
        obtain ⟨xs, last, rest, h⟩ := ih conn'' _
        rw [hrun]
        exact ⟨⟨written, got⟩ :: xs, last, rest, .cons hw hr h⟩
      · have hne : ∀ n, outcome ≠ .value n := fun n heq => hgot ⟨n, heq⟩
        obtain ⟨houtcome, hcalls, hevents⟩ :=
          run_of_read slot left hbuffer hsize hw hr hne
        refine ⟨[], conn, Call.roundTrip w.readBuffer (w.message t.sizeDraws), ?_⟩
        dsimp only
        rw [houtcome]
        exact .stop (.read hw hr hne) hcalls hevents
    · have hne : ∀ n, outcome ≠ .value n := fun n heq => hwritten ⟨n, heq⟩
      obtain ⟨houtcome, hcalls, hevents⟩ :=
        run_of_write slot left hbuffer hsize hw hne
      refine ⟨[], conn, [.write (w.message t.sizeDraws)], ?_⟩
      dsimp only
      rw [houtcome]
      exact .stop (.write hw hne) hcalls hevents

/-- The calls of the round trip that stops the others are the ones that come next. -/
theorem Stops.isPrefix {position : Nat} {conn : κ} {outcome : Outcome Unit} {rest : List Call}
    (h : Stops transport w position conn left outcome rest) :
    rest <+: (w.messages position left).flatMap (Call.roundTrip w.readBuffer) := by
  cases h with
  | done => exact List.nil_prefix
  | @write left =>
    rw [Workload.messages_succ]
    exact ⟨.read w.readBuffer :: _, rfl⟩
  | @read left =>
    rw [Workload.messages_succ]
    exact List.prefix_append _ _
  | noBuffer => exact List.nil_prefix
  | noMessage => exact List.nil_prefix

end Trips

open Trips in
/-- Round trips with any workload over any connection. Their calls are writes and reads in turn, as
many of them as are made; the message of each write has the size that is drawn for it, and each read
has all of the buffer. Exchanges are made until all round trips are, or until a call has no value or a
buffer cannot be set up, and that is what is told in the end. The events are those of the exchanges
whose numbers differ. -/
theorem roundTrips_logged {κ : Type} (transport : Transport κ) (w : Workload) (slot planned : Nat)
    (conn : κ) (t : Trace) : ∃ xs last outcome rest t',
      roundTrips transport w slot planned conn t = (outcome.map fun _ => planned, t') ∧
      Logged transport w slot planned conn t xs last outcome rest t' ∧
      ∃ made, t'.calls = made.reverse.map (slot, ·) ++ t.calls ∧
        made <+: (w.messages t.sizeDraws planned).flatMap (Call.roundTrip w.readBuffer) := by
  obtain ⟨xs, last, rest, h⟩ := exists_logged transport w slot planned conn t
  have hresult : roundTrips transport w slot planned conn t =
      ((run transport w slot { conn, left := planned } t).1.outcome.map fun _ => planned,
        (run transport w slot { conn, left := planned } t).2) := by
    unfold roundTrips
    generalize run transport w slot { conn, left := planned } t = result
    obtain ⟨progress, t'⟩ := result
    cases progress <;> rfl
  refine ⟨xs, last, _, rest, _, hresult, h, _, h.calls, ?_⟩
  have hplanned : planned = xs.length + (planned - xs.length) := by
    have hle := h.length_le
    omega
  have hprefix := h.stops.isPrefix
  generalize planned - xs.length = left at hplanned hprefix
  rw [hplanned, Workload.messages_add, List.flatMap_append, List.prefix_append_right_inj]
  exact hprefix

/-- A buffer that is too long to be set up ends the round trips before the first call. -/
theorem roundTrips_of_long_buffer {κ : Type} (transport : Transport κ) {w : Workload}
    (h : Workload.maxBuffer < w.readBuffer) (slot planned : Nat) (conn : κ) (t : Trace) :
    roundTrips transport w slot planned conn t = (.panicked, t) := by
  rw [roundTrips, Trips.run_of_long_buffer h]

end EchoLoad
