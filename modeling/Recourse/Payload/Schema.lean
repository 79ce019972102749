/-
  Payload/Schema.lean --- which payloads a container accepts.
-/
import Recourse.Payload.Value

set_option autoImplicit false

namespace Recourse

/-- What payloads have to be. -/
inductive Schema where
  /-- Any number, truth values included. -/
  | number
  /-- Of one type. -/
  | kind (k : Kind)
  /-- Anything. -/
  | anything
  deriving DecidableEq, Repr, Inhabited

namespace Schema

variable {K : Type}

/-- The name of a schema in messages. -/
def name : Schema → String
  | .number => "Real"
  | .kind k => k.name
  | .anything => "object"

/-- Whether a payload fits.  Truth values count as integers, and tuples with
named entries as tuples. -/
def accepts : Schema → Value K → Bool
  | .anything, _ => true
  | .number, v => match v.kind with
      | .flag | .whole | .real => true
      | _ => false
  | .kind .whole, v => v.kind == .whole || v.kind == .flag
  | .kind .tuple, v => match v.kind with
      | .tuple | .named _ _ => true
      | _ => false
  | .kind k, v => v.kind == k

/-- The schema a first payload sets: its type, or any number for a number. -/
def infer (v : Value K) : Schema :=
  match v.kind with
  | .whole | .real => .number
  | k => .kind k

theorem accepts_infer (v : Value K) : (infer v).accepts v = true := by
  unfold infer
  cases h : v.kind <;> simp [accepts, h]

/-- The schema for expected payloads: the expectation of integers is no integer. -/
def relaxed : Schema → Schema
  | .kind .whole | .kind .real | .kind .flag => .number
  | s => s

/-- Check payloads in order against a schema, which the first of them sets where
there is none. -/
def check (schema : Option Schema) : List (Value K) → Except (Fault K) (Option Schema)
  | [] => .ok schema
  | v :: rest =>
      let s := schema.getD (infer v)
      if s.accepts v then check (some s) rest
      else .error (.schemaMismatch s.name v.typeName)

end Schema

end Recourse
