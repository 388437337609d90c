import GarlicRouting.Session.Settings
import GarlicRouting.Text.Json

/-! Settings written as JSON: an object by names, or an array in the order of the names. -/
namespace GarlicRouting.Settings

def number? (v : JsonValue) : Option Nat := v.natural?.filter (· < 18446744073709551616)

/-- The names of the settings in order, each with the way its value is read and set. -/
def setters : List (String × (Settings → JsonValue → Option Settings)) := [
  ("resend_interval_secs", fun s v => (number? v).map fun n => { s with resendInterval := n }),
  ("window_lifetime_secs", fun s v => (number? v).map fun n => { s with windowLifetime := n }),
  ("pending_tag_lifetime_secs", fun s v => (number? v).map fun n => { s with pendingTagLifetime := n }),
  ("sent_tag_lifetime_secs", fun s v => (number? v).map fun n => { s with sentTagLifetime := n }),
  ("received_tag_lifetime_secs", fun s v => (number? v).map fun n => { s with receivedTagLifetime := n }),
  ("tag_guard_margin_secs", fun s v => (number? v).map fun n => { s with tagGuardMargin := n }),
  ("low_watermark", fun s v => (number? v).map fun n => { s with lowWatermark := n }),
  ("refill_batch", fun s v => (number? v).map fun n => { s with refillBatch := n }),
  ("explicit_ack_clove", fun s v => v.boolean?.map fun b => { s with explicitAckClove := b })]

/-- Reads the members of an object. Unknown names are passed over, a known one may come once. -/
def ofMembers (s : Settings) (seen : List String) : List (Bytes × JsonValue) → Option Settings
  | [] => some s
  | (raw, v) :: rest => do
    let name ← JsonValue.unescape raw
    match setters.lookup name with
    | none => ofMembers s seen rest
    | some set =>
      if seen.contains name then none
      else ofMembers (← set s v) (name :: seen) rest

/-- Reads values in the order of the names; there may be fewer, but not more. -/
def ofValues (s : Settings) : List (String × (Settings → JsonValue → Option Settings)) →
    List JsonValue → Option Settings
  | _, [] => some s
  | [], _ :: _ => none
  | (_, set) :: setters, v :: vs => do ofValues (← set s v) setters vs

/-- What is not written keeps its default. -/
def ofText? (text : Bytes) : Option Settings := do
  match ← JsonValue.parse text with
  | .object members => ofMembers {} [] members
  | .array values => ofValues {} setters values
  | _ => none

def values (s : Settings) : List String :=
  [s.resendInterval, s.windowLifetime, s.pendingTagLifetime, s.sentTagLifetime,
    s.receivedTagLifetime, s.tagGuardMargin, s.lowWatermark, s.refillBatch].map Nat.repr ++
    [if s.explicitAckClove then "true" else "false"]

def text (s : Settings) : String :=
  let members := (setters.zip s.values).map fun (setter, value) =>
    "\"" ++ setter.1 ++ "\":" ++ value
  "\x7b" ++ ",".intercalate members ++ "\x7d"

end GarlicRouting.Settings
