import RFObserver.Lib.Dict
import RFObserver.Web.AppSettings

namespace RFObserver

/-- A value as `json.loads` gives it. -/
inductive JsonValue
  | null
  | bool (b : Bool)
  | int (n : ℤ)
  | float (x : PyFloat)
  | str (text : List Char)
  | list (items : List JsonValue)
  | dict (members : List (String × JsonValue))

/-- What `or` takes a value for. -/
def JsonValue.truthy : JsonValue → Bool
  | .null => false
  | .bool b => b
  | .int n => n ≠ 0
  | .float x => x ≠ .finite 0
  | .str text => text ≠ []
  | .list items => !items.isEmpty
  | .dict members => !members.isEmpty

/-- A JSON object. -/
abbrev JsonBody := Dict String JsonValue

/-- A member's value; null is as good as no member. -/
def JsonBody.given (body : JsonBody) (name : String) : Option JsonValue :=
  match body.get? name with
  | some .null => none
  | value => value

theorem JsonBody.given_ne_null (body : JsonBody) (name : String) : body.given name ≠ some .null := by
  unfold JsonBody.given
  split
  · simp
  · assumption

end RFObserver
