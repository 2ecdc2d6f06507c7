import ObjectMemory.Json.Reader
import ObjectMemory.Json.Writer
import ObjectMemory.Stats

/-!
# Statistics as JSON

A snapshot is written as an object with its eight numbers under their names. It is read from an
object or from an array of the numbers in their order, and no number may be missing.
-/

namespace ObjectMemory.Stats

/-- The statistics as a JSON object. -/
def toText (s : Stats) : String :=
  Json.writeObject ((names.zip s.toList).map fun (key, n) => (key, .int n))

/-- The statistics that a JSON value holds. No field may be missing. -/
def ofJson? (json : Json) : Option Stats := do
  let fields ← json.fields? names
  let numbers ← names.mapM fun name => (fields.lookup name).bind Json.uint64?
  ofList? numbers

/-- The statistics that a JSON text holds. -/
def ofText? (text : String) : Option Stats :=
  (Json.ofText? text).bind ofJson?

end ObjectMemory.Stats
