import RiskCore.Outbox

/-!
# What the events say

An event is kept as a row of the outbox and later as a row of the audit log. What is
read off it is its type and the texts in the `data` of its payload.
-/

namespace Trails

open Values Outbox

abbrev Trail := List (String × Json)

def trailOf (outbox : List OutboxEvent) : Trail := outbox.map (fun e => (e.eventType, e.payload))

/-- The text of an entry of `data`. -/
def said (payload : Json) (k : String) : Option String :=
  match (payload.get? "data").bind (fun data => data.get? k) with
  | some (.str text) => some text
  | _ => none

theorem trail_append (before new : List OutboxEvent) :
    trailOf (before ++ new) = trailOf before ++ trailOf new := List.map_append

theorem said_of_data {e : OutboxEvent} {k text : String} (h : e.data? k = some (.str text)) :
    said e.payload k = some text := by
  simp only [OutboxEvent.data?] at h
  simp only [said, h]

end Trails
