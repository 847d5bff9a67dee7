import Lineage.Proofs.Origin.Session

/-!
# What the logs of a session say is so

For every session: an origin beside a value in a log, or beside the outcome of a
run, is the number of a log that shows this value. The origin of a property that
was read is the exception. It comes from the table of property writes, and a
getter computes a value that nobody wrote, as a native function that pushes onto
an array writes a value that nobody notes. Both leave traces in the logs: the
`return` of the getter stands right before the read, and the call of the native
function has what it pushed among its arguments.
-/

namespace Lineage

/-- Programs may have getters and assign to elements of arrays. -/
def Style.any : Style := ⟨True, True⟩

theorem Event.keeps_any (e : Event) : e.Keeps .any := by
  intro _ _ _ _ _ s _ n _
  unfold Style.Allows
  split
  · exact fun _ _ _ _ => trivial
  · trivial
  · exact .inl trivial
  · trivial

/-! ## Origins beside values -/

/-- The origins beside values in a log are exact, but for that of a property that was read. -/
structure Log.EdgesExact (book : Book) (log : Log) : Prop where
  args : ∀ e ∈ log.args.entries, e.2.Exact book
  extras : ∀ e ∈ log.extraArgs.entries, ¬(log.readsProperty ∧ e.1 = "propertyValue") →
    e.2.Exact book

/-- The origins beside values are exact, in the logs of a machine and in outcomes. -/
structure Machine.EdgesExact (m : Machine) (outcomes : List Outcome) : Prop where
  logs : ∀ id log, m.tracking.book.find? id = some log → log.EdgesExact m.tracking.book
  outcomes : ∀ o ∈ outcomes, Tracked.Exact m.tracking.book ⟨o.value, o.origin⟩

/--
**Recorded edges are exact.** After any session, every string, number and truth
value in the logs and outcomes that has an origin is the result of that log.
-/
theorem Machine.session_edgesExact (policy : Policy) (first : LogId) (events : List Event) :
    let (outcomes, m) := (Machine.new policy first).session events
    m.EdgesExact outcomes := by
  obtain ⟨hm, houtcomes⟩ := (ready_new .any policy first).session
    fun e (_ : e ∈ events) => e.keeps_any
  refine ⟨fun id log hf => ⟨?_, ?_⟩, fun o ho => (houtcomes o ho).traced⟩
  · exact (hm.sound.logs id log hf).args
  · exact (hm.sound.logs id log hf).extras

/-! ## Origins of properties -/

/-- A policy that is enough for a few statements. -/
def Policy.small : Policy := { maxSteps := 12, maxCallDepth := 3, maxArrayLength := 8 }

/-- The machine after one annotated program. -/
def Machine.after (text : String) : Machine := ((Machine.new .small).session [.run {} text]).2

end Lineage
