import EchoLoad.Proofs.Connection.Integrity
import EchoLoad.Proofs.Connection.Supply
import EchoLoad.Proofs.Connection.Transcript

/-!
# Calls that wait

A call that is given up while it waits (`Answer.waits`) has gone to the stream of an open connection, and it
leaves the connection as its receiving loop does (`receive_of_waits`). It has taken some frames
(`receiving_of_waits`), none of which ends a message (`Receiving.isControl`), and the pause
(`size_perform_of_waits`).
-/

namespace EchoLoad

def Outcome.waits {α : Type} : Outcome α → Bool
  | waiting => true
  | value _ | error _ | panicked => false

theorem Outcome.waits_ofFault {α : Type} (a : α) (fault : Option StreamFault) :
    (ofFault a fault).waits = false := by
  cases fault <;> rfl

/-- A read that finds a pause takes it from the stream. -/
theorem Source.size_read_waiting {s s' : Source} {room : Nat} (h : s.read room = (.waiting, s')) :
    s'.size < s.size := by
  have hadvance : ∀ arrivals, Source.advance room arrivals = (.waiting, s') →
      s'.size < weights arrivals := by
    intro arrivals ha
    fun_induction Source.advance room arrivals with
    | case2 rest ih =>
      have hrest := ih ha
      simp only [weights]
      omega
    | case6 rest =>
      cases ha
      simp only [size, weights, weight, List.length_nil]
      omega
    | case1 | case3 | case4 | case5 => cases ha
  unfold read at h
  split at h
  · next hcurrent =>
    have hless := hadvance _ h
    simp only [size, hcurrent, List.length_nil] at hless ⊢
    omega
  · cases h

theorem Inbox.size_next_waiting {b b' : Inbox} (h : b.next = (.waiting, b')) : b'.size < b.size := by
  fun_induction Inbox.next b with
  | case3 b hp bytes source hr ih =>
    have hle := (Source.size_read_data b.room_pos hr).2
    have hless := ih h
    simp only [size, List.length_append] at hless ⊢
    omega
  | case6 b hp source hr =>
    cases h
    have hless := Source.size_read_waiting hr
    simp only [size]
    omega
  | case1 | case2 | case4 | case5 => cases h

namespace Connection

variable {c c' d : Connection} {held held' : Option Bytes} {f : Frame} {frames : List Frame}
  {o : Outcome Bytes} {op : Operation}

/-- The call has been given up. -/
def Answer.waits : Answer → Bool
  | .written o => o.waits
  | .bytes o => o.waits
  | .done o => o.waits

/-- The call is one that receives. -/
def Operation.receives : Operation → Bool
  | .receive | .read _ => true
  | .write _ | .ping _ | .close => false

/-- What a call makes of what has been received: a read hands out the front of a message and keeps the
rest. -/
def Operation.serve : Operation → Outcome Bytes × Connection → Answer × Connection
  | .read length, (.value message, d) =>
    (.bytes (.value (message.take length)), { d with pending := message.drop length })
  | _, (o, d) => (.bytes o, d)

theorem perform_of_takes (h : c.takes op = true) : c.perform op = op.serve c.receive := by
  cases op with
  | write | ping | close => cases h
  | receive => rfl
  | read length =>
    obtain ⟨hlength, hp⟩ := takes_read_iff.mp h
    have hread := c.reads_read length
    rw [perform]
    generalize c.read length = r at hread ⊢
    cases hread with
    | nothing hzero => exact absurd hzero hlength
    | served _ hsome => exact absurd hp hsome
    | message _ _ hr => rw [hr, Operation.serve]
    | @failed _ _ o d hr ho =>
      rw [hr]
      cases o with
      | value bytes => exact absurd rfl (ho bytes)
      | error | waiting | panicked => rfl

theorem waits_serve (op : Operation) (o : Outcome Bytes) (d : Connection) :
    (op.serve (o, d)).1.waits = o.waits := by
  cases op <;> cases o <;> rfl

/-- A call that does not go to the stream does not wait. -/
theorem waits_of_not_takes (h : c.takes op = false) : (c.perform op).1.waits = false := by
  cases op with
  | receive => cases h
  | read length =>
    rw [perform_read_of_not_takes h]
    rfl
  | write data =>
    rw [perform, Answer.waits, write]
    split
    · rfl
    · exact Outcome.waits_ofFault _ _
  | ping data =>
    rw [perform, Answer.waits, ping]
    split
    · rfl
    · split
      · rfl
      · exact Outcome.waits_ofFault _ _
  | close =>
    rw [perform, Answer.waits, close]
    split
    · rfl
    · split
      · rfl
      · exact Outcome.waits_ofFault _ _

/-- A call that is given up has received on an open connection, and leaves it as the receiving does. -/
theorem receive_of_waits (h : (c.perform op).1.waits = true) :
    c.takes op = true ∧ c.closed = false ∧ c.receive = (.waiting, (c.perform op).2) := by
  cases ht : c.takes op with
  | false => cases (waits_of_not_takes ht).symm.trans h
  | true =>
    rw [perform_of_takes ht] at h ⊢
    cases hr : c.receive with
    | mk o d =>
      rw [hr, waits_serve] at h
      cases o with
      | value | error | panicked => cases h
      | waiting =>
        refine ⟨rfl, ?_, by cases op <;> rfl⟩
        cases hclosed : c.closed with
        | false => rfl
        | true => cases (receive_of_closed hclosed).symm.trans hr

/-- A call that is given up takes some frames, and the connection has the frames behind them left. -/
theorem receiving_of_waits (h : (c.perform op).1.waits = true) :
    Receiving c none (c.consumed (c.perform op).2) .waiting (c.perform op).2 := by
  obtain ⟨-, hopen, hr⟩ := receive_of_waits h
  obtain ⟨frames, hreceiving⟩ := receiving_receive hopen
  rw [hr] at hreceiving
  rw [consumed_of_frames hreceiving.frames_eq]
  exact hreceiving

theorem Receiving.size_lt (h : Receiving c held frames o d) (ho : o = .waiting) :
    d.inbox.size < c.inbox.size := by
  induction h with
  | stop h =>
    subst ho
    cases h with
    | waiting h => exact Inbox.size_next_waiting h
  | turn h _ ih =>
    have hless := Inbox.size_next h.next
    have hrest := ih ho
    omega

theorem size_perform_of_waits (h : (c.perform op).1.waits = true) :
    (c.perform op).2.inbox.size < c.inbox.size :=
  (receiving_of_waits h).size_lt rfl

/-- A turn takes a control frame, or a fragment that is not the last of its message. -/
theorem Turn.isControl (h : Turn c held f c' held')
    (hfin : f.opcode.isControl = false → f.fin = true) : f.opcode.isControl = true := by
  have hspec := Message.take_spec c.maxMessage held f
  cases h with
  | part _ ht =>
    rw [ht] at hspec
    obtain ⟨-, hnot, hadds⟩ := hspec
    cases hnot.symm.trans (hfin hadds.not_isControl)
  | pong _ ht =>
    rw [ht] at hspec
    obtain ⟨-, ho⟩ := hspec
    rw [ho]
    rfl
  | ping _ ht =>
    rw [ht] at hspec
    obtain ⟨-, ho, -⟩ := hspec
    rw [ho]
    rfl

theorem Receiving.isControl (h : Receiving c held frames o d) (ho : o = .waiting)
    (hfin : ∀ f ∈ frames, f.opcode.isControl = false → f.fin = true) :
    ∀ f ∈ frames, f.opcode.isControl = true := by
  induction h with
  | stop h =>
    subst ho
    cases h with
    | waiting => nofun
  | turn h _ ih =>
    intro f hf
    rcases List.mem_cons.mp hf with rfl | hf
    · exact h.isControl (hfin _ List.mem_cons_self)
    · exact ih ho (fun g hg => hfin g (List.mem_cons_of_mem _ hg)) f hf

end Connection

end EchoLoad
