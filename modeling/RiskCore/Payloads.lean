import Mathlib.Data.List.Infix
import RiskCore.Outbox

/-!
# Reading a decoded payload

What the consumers do with the result of `json.loads`, which can be any JSON
value: an operation the value's type does not have raises. Python's `str()` of a
value that is not a string and the parsers of Django and the standard library
are parameters.
-/

namespace Payloads

open Values Outbox

/-- `d.get(k, default)`; only a `dict` has it. -/
def get (d : Json) (k : String) (default : Json) : Option Json :=
  match d with
  | .obj fields => some ((fields.lookup k).getD default)
  | _ => none

/-- `d[k]` with a string `k`. -/
def item (d : Json) (k : String) : Option Json :=
  match d with
  | .obj fields => fields.lookup k
  | _ => none

/-- `k in d`. -/
def contains (d : Json) (k : String) : Option Bool :=
  match d with
  | .obj fields => some (fields.lookup k).isSome
  | .arr items => some (items.any (fun i => match i with
    | .str s => s = k
    | _ => false))
  | .str s => some (k.toList <:+: s.toList)
  | _ => none

/-- `bool(value)`. -/
def truthy : Json → Bool
  | .null => false
  | .bool b => b
  | .num mantissa _ => mantissa ≠ 0
  | .str s => s ≠ ""
  | .arr items => !items.isEmpty
  | .obj fields => !fields.isEmpty

def startsWith (s stem : String) : Bool := stem.toList.isPrefixOf s.toList

/-- `str` is asked only about values that are not strings; `parseDatetime` and
`parseUuid` answer `none` where the parser raises. -/
structure Runtime where
  str : Json → String
  parseDatetime : String → Option (Option DateTime)
  parseUuid : String → Option UUID

/-- `str(value)`. -/
def Runtime.text (rt : Runtime) : Json → String
  | .str s => s
  | j => rt.str j

/-- A value as a `CharField` writes it: NULL, or its text. -/
def Runtime.column (rt : Runtime) : Json → Option String
  | .null => none
  | j => some (rt.text j)

@[simp] theorem Runtime.column_str (rt : Runtime) (s : String) :
    rt.column (.str s) = some s := rfl

theorem Runtime.column_isSome (rt : Runtime) {j : Json} (h : j ≠ .null) :
    ∃ text, rt.column j = some text := by
  cases j with
  | null => exact absurd rfl h
  | _ => exact ⟨_, rfl⟩

/-- What `objects.create` can raise, as far as the consumers tell it apart. -/
inductive Raised where
  | integrityError
  | other
deriving DecidableEq

variable {α : Type}

/-- The value, or an exception other than `IntegrityError`. -/
def orRaise : Option α → Except Raised α
  | some a => .ok a
  | none => .error .other

/-- The value of a non-null column. -/
def notNull : Option α → Except Raised α
  | some a => .ok a
  | none => .error .integrityError

theorem get_found {data : Dict} {k : String} {v : Json} (h : data.lookup k = some v)
    (default : Json) : get (.obj data) k default = some v := by
  simp only [get, h, Option.getD_some]

theorem get_absent {data : Dict} {k : String} (h : data.lookup k = none) (default : Json) :
    get (.obj data) k default = some default := by
  simp only [get, h, Option.getD_none]

/-- The identifier an event carries. -/
def eventId? (payload : Json) : Option String :=
  match payload.get? "event_id" with
  | some (.str s) => some s
  | _ => none

section
variable (eventId : UUID) (eventType : String) (occurredAt : DateTime) (service : String)
  (data : Dict)

@[simp] theorem item_eventId : item (envelope eventId eventType occurredAt service data)
    "event_id" = some (.str eventId.str) := rfl

@[simp] theorem get_eventId (default : Json) :
    get (envelope eventId eventType occurredAt service data) "event_id" default =
      some (.str eventId.str) := rfl

@[simp] theorem get_eventType (default : Json) :
    get (envelope eventId eventType occurredAt service data) "event_type" default =
      some (.str eventType) := rfl

@[simp] theorem get_occurredAt (default : Json) :
    get (envelope eventId eventType occurredAt service data) "occurred_at" default =
      some (.str occurredAt.isoformat) := rfl

@[simp] theorem get_service (default : Json) :
    get (envelope eventId eventType occurredAt service data) "service" default =
      some (.str service) := rfl

@[simp] theorem get_data (default : Json) :
    get (envelope eventId eventType occurredAt service data) "data" default =
      some (.obj data) := rfl

@[simp] theorem eventId?_envelope :
    eventId? (envelope eventId eventType occurredAt service data) = some eventId.str := rfl

end

end Payloads
