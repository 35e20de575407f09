import EchoLoad.Bytes
import EchoLoad.Stream.Fault

/-!
# What a stream brings

The reading half of a byte stream, given by everything that will arrive on it. A read hands over
bytes of one arrival only, at most as many as the reader has room for; after the last arrival the
stream is at its end.

`Source.size` bounds how much can still be read: `size_read_data` says that bytes read are gone from
it, so every loop that reads until something happens comes to an end.
-/

namespace EchoLoad

inductive Arrival where
  | data (bytes : Bytes)
  /-- A read that finds the end of the stream, though more may follow. -/
  | ending
  | fault (fault : StreamFault)
  /-- Nothing yet: the reader has to come back later. -/
  | pause
  deriving DecidableEq, Repr

structure Source where
  /-- What is left of the arrival that is being read. -/
  current : Bytes
  arrivals : List Arrival
  deriving DecidableEq, Repr

inductive Reading where
  | data (bytes : Bytes)
  | ending
  | fault (fault : StreamFault)
  | waiting
  deriving DecidableEq, Repr

namespace Source

def ofArrivals (arrivals : List Arrival) : Source := { current := [], arrivals }

/-- Takes the next arrival that is not empty, and at most `room` of its bytes. -/
def advance (room : Nat) : List Arrival → Reading × Source
  | [] => (.ending, ⟨[], []⟩)
  | .data [] :: rest => Source.advance room rest
  | .data (b :: bs) :: rest => (.data ((b :: bs).take room), ⟨(b :: bs).drop room, rest⟩)
  | .ending :: rest => (.ending, ⟨[], rest⟩)
  | .fault f :: rest => (.fault f, ⟨[], rest⟩)
  | .pause :: rest => (.waiting, ⟨[], rest⟩)

/-- One read with room for `room` bytes. -/
def read (s : Source) (room : Nat) : Reading × Source :=
  match s.current with
  | [] => Source.advance room s.arrivals
  | bytes => (.data (bytes.take room), { s with current := bytes.drop room })

def weight : Arrival → Nat
  | .data bytes => bytes.length + 1
  | _ => 1

def weights : List Arrival → Nat
  | [] => 0
  | a :: rest => weight a + weights rest

/-- The bytes that are left, and one more for every arrival. -/
def size (s : Source) : Nat := s.current.length + weights s.arrivals

theorem size_advance_data {room : Nat} (hroom : 0 < room) {arrivals : List Arrival} {bytes : Bytes}
    {s : Source} (h : Source.advance room arrivals = (.data bytes, s)) :
    bytes ≠ [] ∧ bytes.length + s.size < weights arrivals := by
  fun_induction Source.advance room arrivals with
  | case1 => cases h
  | case2 rest ih =>
    obtain ⟨hne, hlt⟩ := ih h
    refine ⟨hne, ?_⟩
    simp only [weights]
    omega
  | case3 b bs rest =>
    cases h
    refine ⟨by simp; omega, ?_⟩
    simp only [size, weight, weights, List.length_take, List.length_drop]
    omega
  | case4 | case5 | case6 => cases h

/-- The bytes of a read are taken off what is left, and there is at least one. -/
theorem size_read_data {s s' : Source} {room : Nat} (hroom : 0 < room) {bytes : Bytes}
    (h : s.read room = (.data bytes, s')) : bytes ≠ [] ∧ bytes.length + s'.size ≤ s.size := by
  unfold read at h
  split at h
  · next hc =>
    obtain ⟨hne, hlt⟩ := size_advance_data hroom h
    refine ⟨hne, ?_⟩
    simp only [size, hc, List.length_nil] at hlt ⊢
    omega
  · next hc =>
    cases h
    refine ⟨?_, ?_⟩
    · intro ht
      have := congrArg List.length ht
      simp only [List.length_take, List.length_nil] at this
      have hpos : 0 < s.current.length := List.length_pos_iff.2 (by simpa using hc)
      omega
    · simp only [size, List.length_take, List.length_drop]
      omega

end Source

end EchoLoad
