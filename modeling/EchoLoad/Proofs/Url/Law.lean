import EchoLoad.Url.Basic

/-!
# What is relied on in a reader of URLs

How URLs are read is left open, and nothing can be said of the request without knowing something of
what goes into it. All that is asked for is stated here, and only of URLs of the scheme `ws`
(`Reader.Assures`). That the request is one head takes no more than that host, path and query hold
no space and no line end (`Plain`). That it names what is dialed takes a little more (`Lawful`):
there is a host, and the default port is not kept, but counts where no port is kept. Nothing is asked
of how a path begins.
-/

namespace EchoLoad.Url

/-- Neither a space nor a part of a line end. -/
def IsPlain (c : Char) : Prop := c ≠ ' ' ∧ c ≠ '\r' ∧ c ≠ '\n'

instance : DecidablePred IsPlain := fun _ => inferInstanceAs (Decidable (_ ∧ _))

def PlainText (cs : List Char) : Prop := ∀ c ∈ cs, IsPlain c

instance : DecidablePred PlainText := List.decidableBAll IsPlain

namespace PlainText

variable {cs ds : List Char}

theorem nil : PlainText [] := List.forall_mem_nil _

theorem append (hcs : PlainText cs) (hds : PlainText ds) : PlainText (cs ++ ds) := by
  intro c hc
  rcases List.mem_append.mp hc with hc | hc
  · exact hcs c hc
  · exact hds c hc

theorem cons {c : Char} (hc : IsPlain c) (hcs : PlainText cs) : PlainText (c :: cs) :=
  List.forall_mem_cons.mpr ⟨hc, hcs⟩

theorem space_notMem (h : PlainText cs) : ' ' ∉ cs := fun hmem => (h _ hmem).1 rfl

theorem return_notMem (h : PlainText cs) : '\r' ∉ cs := fun hmem => (h _ hmem).2.1 rfl

end PlainText

theorem isPlain_digitChar (n : Nat) : IsPlain n.digitChar := by
  have hdigit : ∀ n < 16, IsPlain n.digitChar := by decide
  by_cases hn : n < 16
  · exact hdigit n hn
  · rw [Nat.digitChar_eq_star.mpr (Nat.le_of_not_lt hn)]
    decide

theorem plainText_toDigits {base : Nat} (hbase : 1 < base) (n : Nat) :
    PlainText (Nat.toDigits base n) := by
  induction n using Nat.strongRecOn with
  | ind n ih =>
    rw [Nat.toDigits_eq_if hbase]
    split
    · exact .cons (isPlain_digitChar n) .nil
    · have hfront := ih _ (Nat.div_lt_self (by omega) hbase)
      exact hfront.append (.cons (isPlain_digitChar _) .nil)

theorem plainText_toString (n : Nat) : PlainText (toString n).toList := by
  rw [Nat.toString_eq_ofList_toDigits, String.toList_ofList]
  exact plainText_toDigits (by decide) n

/-! ## The law -/

/-- Host, path and query hold no space, no CR and no LF. -/
structure Plain (u : Url) : Prop where
  host : ∀ host ∈ u.hostText?, PlainText host.toList
  path : PlainText u.path.toList
  query : ∀ query ∈ u.query, PlainText query.toList

/-- What a URL of the scheme `ws` is like: besides, it has a host, in parts and in writing, and does
not keep the default port, which counts where no port is kept. -/
structure Lawful (u : Url) : Prop extends Plain u where
  host_isSome : u.host?.isSome = true
  hostText_isSome : u.hostText?.isSome = true
  port_ne : u.port? ≠ some 80
  effectivePort_eq : u.effectivePort? = (u.port? <|> some 80)

/-- Whatever is read as a URL of the scheme `ws` is like this. -/
def Reader.Assures (read : Reader) (law : Url → Prop) : Prop :=
  ∀ s u, read s = .ok u → u.scheme = "ws" → law u

theorem Reader.Assures.plain {read : Reader} (h : read.Assures Lawful) : read.Assures Plain :=
  fun s u hu hscheme => (h s u hu hscheme).toPlain

theorem Plain.target {u : Url} (h : u.Plain) : PlainText u.target.toList := by
  unfold Url.target pathAndQuery
  cases hquery : u.query with
  | none => exact h.path
  | some query =>
    simp only [String.toList_append]
    exact (h.path.append (by decide)).append (h.query query hquery)

/-- The port is left out if and only if it is 80. -/
theorem Lawful.port?_eq {u : Url} (h : u.Lawful) :
    u.port? = if u.effectivePort?.getD 80 = 80 then none else some (u.effectivePort?.getD 80) := by
  rw [h.effectivePort_eq]
  cases hport : u.port? with
  | none => rfl
  | some port =>
    have hne : port ≠ 80 := fun heq => h.port_ne (by rw [hport, heq])
    exact (if_neg hne).symm

end EchoLoad.Url
