import ObjectMemory.Failure
import ObjectMemory.Header
import ObjectMemory.Size
import ObjectMemory.Text.Quoted

/-!
# The journal

What happens to an arena is recorded as a row of events. An event keeps its data; the line that
a log shows for it is made from the data by `Event.line`.

## Choosing events

A log shows only some events. A `Filter` is a row of directives, each of which gives a limit for
the targets that start with a name. The longest matching name decides. A target that no
directive matches is not shown.
-/

namespace ObjectMemory

/-- How serious an event is, the gravest first. -/
inductive Level where
  | error
  | warn
  | info
  | debug
  | trace
  deriving DecidableEq, Repr, Inhabited

namespace Level

/-- Place in the order from the gravest level on. -/
def rank : Level → Nat
  | .error => 0
  | .warn => 1
  | .info => 2
  | .debug => 3
  | .trace => 4

/-- The word for a level in a log line. -/
def label : Level → String
  | .error => "ERROR"
  | .warn => "WARN"
  | .info => "INFO"
  | .debug => "DEBUG"
  | .trace => "TRACE"

/-- The limit that a directive names. No limit lets nothing through. -/
def ofLimit? (text : List Char) : Option (Option Level) :=
  match String.ofList text with
  | "off" => some none
  | "error" => some (some .error)
  | "warn" => some (some .warn)
  | "info" => some (some .info)
  | "debug" => some (some .debug)
  | "trace" => some (some .trace)
  | _ => none

end Level

/-- Something that happened to an arena or to its settings. -/
inductive Event where
  /-- More words were asked for than an arena may have. -/
  | sizeClamped (requested limit : Nat)
  /-- An arena was made. -/
  | initialized (words : Nat)
  /-- The arena was emptied, with so many words used before. -/
  | reset (used : Nat)
  /-- An object was made. -/
  | allocated (start : Nat) (cls : ObjClass) (payloadWords : Nat)
  /-- An object was copied to a new place and size. -/
  | relocated (source target oldWords newWords : Nat)
  /-- An object did not fit. -/
  | exhausted (used requested capacity : Nat)
  /-- A full list got room for more items. -/
  | listGrown (oldCapacity newCapacity : Nat)
  /-- A primitive refused its arguments. -/
  | primitiveFailed (name : String) (failure : Failure)
  /-- The random source was given a fixed seed. -/
  | seeded (seed : Nat)
  /-- The setting for the arena's size was not usable. -/
  | arenaWordsIgnored (value : String)
  /-- The setting for exhaustion named no action. -/
  | actionIgnored (value : String)
  deriving DecidableEq, Repr

namespace Event

def level : Event → Level
  | .exhausted .. => .error
  | .sizeClamped .. | .arenaWordsIgnored _ | .actionIgnored _ => .warn
  | .initialized _ | .reset _ | .relocated .. | .primitiveFailed .. | .seeded _ => .debug
  | .allocated .. | .listGrown .. => .trace

/-- The part of the program that an event comes from. -/
def target : Event → String
  | .sizeClamped .. | .initialized _ | .reset _ | .allocated .. | .relocated .. | .exhausted .. =>
    "mbvm_core::arena"
  | .arenaWordsIgnored _ | .actionIgnored _ => "mbvm_core::config"
  | .listGrown .. => "mbvm_runtime::list_ops"
  | .primitiveFailed .. => "mbvm_runtime::primitives"
  | .seeded _ => "mbvm_runtime::context"

def message : Event → String
  | .sizeClamped .. => "arena size clamped"
  | .initialized _ => "arena initialized"
  | .reset _ => "arena reset"
  | .allocated .. => "allocate"
  | .relocated .. => "object relocated"
  | .exhausted used requested capacity =>
    "out of memory: " ++ Stop.usage (Size.reported used requested) capacity
  | .listGrown .. => "list grown"
  | .primitiveFailed _ failure => "primitive failed: " ++ failure.message
  | .seeded _ => "random selector seeded"
  | .arenaWordsIgnored _ => "MBVM_ARENA_WORDS not usable, using default"
  | .actionIgnored _ => "MBVM_EXHAUSTION_ACTION not recognized, using exit"

/-- The data of an event, each value with its name. -/
def fields : Event → List (String × String)
  | .sizeClamped requested limit =>
    [("requested", Numeral.decimal requested), ("max", Numeral.decimal limit)]
  | .initialized words => [("words", Numeral.decimal words)]
  | .reset used => [("used", Numeral.decimal used)]
  | .allocated start cls payloadWords =>
    [("at", Numeral.decimal start), ("class", cls.describe),
      ("payload_words", Numeral.decimal payloadWords)]
  | .relocated source target oldWords newWords =>
    [("from", Numeral.decimal source), ("to", Numeral.decimal target),
      ("old_words", Numeral.decimal oldWords), ("new_payload_words", Numeral.decimal newWords)]
  | .exhausted used requested capacity =>
    [("used", Numeral.decimal used), ("requested", Numeral.decimal requested),
      ("capacity", Numeral.decimal capacity)]
  | .listGrown oldCapacity newCapacity =>
    [("old_capacity", Numeral.decimal oldCapacity), ("new_capacity", Numeral.decimal newCapacity)]
  | .primitiveFailed name failure =>
    [("primitive", Quoted.encode name), ("code", Numeral.decimal failure.code)]
  | .seeded seed => [("seed", Numeral.decimal seed)]
  | .arenaWordsIgnored value => [("value", value)]
  | .actionIgnored value => [("value", value)]

/-- The text that a log shows for an event: level, target, message and fields. -/
def line (e : Event) : String :=
  e.level.label ++ " " ++ e.target ++ ": " ++ e.message ++
    String.join (e.fields.map fun (key, value) => " " ++ key ++ "=" ++ value)

end Event

/-! ## Filters -/

/-- A limit for the targets that start with a name. -/
structure Directive where
  target : List Char
  limit : Option Level
  deriving DecidableEq, Repr

namespace Directive

def covers (d : Directive) (target : String) : Bool :=
  d.target.isPrefixOf target.toList

/-- A level alone holds for every target, a target alone has no limit. -/
def ofText? (text : List Char) : Option Directive :=
  let target := text.takeWhile (· ≠ '=')
  match text.dropWhile (· ≠ '=') with
  | [] =>
    match Level.ofLimit? target with
    | some limit => some ⟨[], limit⟩
    | none => some ⟨target, some .trace⟩
  | _ :: limit => (Level.ofLimit? limit).map fun l => ⟨target, l⟩

end Directive

/-- A row of directives. -/
structure Filter where
  directives : List Directive
  deriving DecidableEq, Repr

namespace Filter

/-- The non-empty pieces between commas. -/
def pieces (text : List Char) : List (List Char) :=
  (text.splitBy fun a b => a ≠ ',' && b ≠ ',').filter fun piece => piece ≠ [','] && piece ≠ []

/-- The directives that a text names, separated by commas. -/
def ofText? (text : String) : Option Filter :=
  ((pieces text.toList).mapM Directive.ofText?).map Filter.mk

/-- The memory's own events down to the level of information. -/
def standard : Filter :=
  ⟨[⟨"mbvm".toList, some .info⟩]⟩

/-- The filter in a setting. The standard one stands in for none and for one that is no filter. -/
def ofSetting (text : Option String) : Filter :=
  (text.bind ofText?).getD standard

/-- The directive that decides about a target: the longest that matches, the last of equals. -/
def decisive (f : Filter) (target : String) : Option Directive :=
  (f.directives.filter (·.covers target)).foldl
    (fun best d =>
      match best with
      | some b => if b.target.length ≤ d.target.length then some d else some b
      | none => some d)
    none

/-- Is the event shown? -/
def admits (f : Filter) (e : Event) : Bool :=
  match (f.decisive e.target).bind (·.limit) with
  | some limit => e.level.rank ≤ limit.rank
  | none => false

/-- The lines that a log shows for a row of events. -/
def lines (f : Filter) (events : List Event) : List String :=
  (events.filter f.admits).map Event.line

end Filter

end ObjectMemory
