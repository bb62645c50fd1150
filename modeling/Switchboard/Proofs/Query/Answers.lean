import Switchboard.Proofs.Query.Debts

/-!
# Responses that found their queries

The responses that took an entry out of the table, in the order in which they did, each with
the ticket of its query. Handing a response over adds to this list what it finds, and nothing
else does. No ticket is on it twice, and the caller of a ticket on it is told this response
and nothing else.
-/

namespace Switchboard.Traffic

/-- The tickets that a call gave a response to. -/
def Call.answers : Call → List (Packet × Ticket)
  | ending (.response p) removed _ _ => removed.map fun e => (p, e.2.ticket)
  | ending (.cancel _) _ _ _ | ending .cancelAll _ _ _ | ending (.expiry _) _ _ _ => []
  | entered _ | armed _ | registered _ | refused _ _ => []

/-- The responses that found their queries, in order, each with the ticket of its query. -/
def answers (s : Traffic) : List (Packet × Ticket) := s.calls.flatMap Call.answers

variable {s s' : Traffic}

theorem Call.answers_advance {c next : Call} {d desk : Desk} {now : Nat}
    (h : c.advance d now = some (desk, next)) : next.answers = c.answers := by
  rcases c.advance_cases h with
    ⟨r, rfl, -, rfl⟩ | ⟨r, rfl, -, rfl⟩ | ⟨cause, _, _, _, _, rfl, -, rfl⟩
  · rfl
  · rfl
  · cases cause <;> rfl

/-- Only the completion of a response adds an answer. -/
theorem answers_of_step {e : Event} (h : s.step e = some s') (he : ∀ p, e ≠ .complete p) :
    s'.answers = s.answers := by
  rcases begins_of_step h with ⟨c, hcalls, hc⟩ | ⟨n, c, desk, next, hn, hnext, hcalls⟩ | hcalls
  · have hnone : c.answers = [] := by
      cases c with
      | ending cause removed tasks verdict =>
        cases cause with
        | response p => exact absurd hc.eq_complete (he p)
        | cancel id | cancelAll | expiry a => rfl
      | entered r | armed r | registered r | refused id e => rfl
    rw [answers, hcalls, List.flatMap_append, List.flatMap_singleton, hnone, List.append_nil]
    rfl
  · rw [answers, hcalls, flatMap_set hn (Call.answers_advance hnext)]
    rfl
  · rw [answers, hcalls]
    rfl

theorem answers_take (s : Traffic) (p : Packet) (id : Identity) :
    (s.take (.response p) id).answers =
      s.answers ++ ((s.desk.table.find? id).map fun e => (p, e.ticket)).toList := by
  cases hfind : s.desk.table.find? id with
  | none =>
    rw [take_of_find?_none hfind, answers, opened, List.flatMap_append]
    rfl
  | some e =>
    rw [take_of_find?_some hfind, answers, List.flatMap_append]
    rfl

end Switchboard.Traffic
