import ObjectMemory.Context
import ObjectMemory.Json.Reader
import ObjectMemory.Json.Writer
import ObjectMemory.Text.Blank

/-!
# Settings

An arena is set up from three settings: its size, what happens on exhaustion and a seed for the
random source. They come from the environment or from a JSON text.

## From the environment

A value that cannot be used gives way to the default. For the size and the action the journal
then shows a warning. A value that is not UTF-8 counts as not set.

## From JSON

A record is an object or an array in the order of the fields. A field that is not there takes
the default. No check is made on the size.
-/

namespace ObjectMemory

/-- How an arena is set up. -/
structure Config where
  /-- Number of words. -/
  arenaWords : Nat := 100000
  onExhaustion : ExhaustionAction := .exit
  /-- Seed of the random source, if it is fixed. -/
  seed : Option Nat := none
  deriving DecidableEq, Repr, Inhabited

namespace ExhaustionAction

/-- The action that a text names, in any letter case and between white space. -/
def parse (text : String) : Option ExhaustionAction :=
  ofName? (String.ofList ((Blank.trim text.toList).map Char.toLower))

/-- The action that a JSON value names: a string, or an object with one key and null. -/
def ofJson? : Json → Option ExhaustionAction
  | .string (some text) => ofName? text
  | .object [(some key, .null)] => ofName? key
  | _ => none

end ExhaustionAction

namespace Config

/-- Smallest arena that the environment can ask for. -/
def minArenaWords : Nat := 16

/-! ## From the environment -/

/-- The names of the settings in the environment. -/
def arenaWordsName : String := "MBVM_ARENA_WORDS"

def actionName : String := "MBVM_EXHAUSTION_ACTION"

def seedName : String := "MBVM_RANDOM_SEED"

/-- The number of 64 bits that a text holds between white space. -/
def number? (text : String) : Option Nat :=
  Numeral.read? Numeral.maxUInt64 (Blank.trim text.toList)

/-- The arena size that a text asks for, if it is neither too small nor too large. -/
def arenaWords? (text : String) : Option Nat :=
  (number? text).filter fun n => minArenaWords ≤ n && n ≤ maxArenaWords

/-- The value of a setting, or the default. A text that gives no value is warned about. -/
def setting {α : Type} (parse : String → Option α) (ignored : String → Event) (default : α) :
    Option String → α × List Event
  | none => (default, [])
  | some text =>
    match parse text with
    | some x => (x, [])
    | none => (default, [ignored text])

/-- The settings in an environment, and the warnings about values that were not used. -/
def ofEnvironment (env : String → Option (List UInt8)) : Config × List Event :=
  let text (name : String) : Option String := (env name).bind Utf8.decode?
  let standard : Config := {}
  let (arenaWords, sizeWarnings) :=
    setting arenaWords? .arenaWordsIgnored standard.arenaWords (text arenaWordsName)
  let (onExhaustion, actionWarnings) :=
    setting ExhaustionAction.parse .actionIgnored .exit (text actionName)
  let seed := (text seedName).bind number?
  ({ arenaWords, onExhaustion, seed }, sizeWarnings ++ actionWarnings)

/-! ## JSON -/

def arenaWordsKey : String := "arena_words"

def actionKey : String := "exhaustion_action"

def seedKey : String := "random_seed"

/-- The keys, in the order of the fields. -/
def keys : List String :=
  [arenaWordsKey, actionKey, seedKey]

/-- A seed or null. -/
def seedOfJson? : Json → Option (Option Nat)
  | .null => some none
  | value => value.uint64?.map some

/-- The value of a field, or the default if the field is not there. -/
def fieldOr {α : Type} (default : α) (read : Json → Option α) (value : Option Json) : Option α :=
  match value with
  | none => some default
  | some json => read json

/-- The settings that a JSON value holds. -/
def ofJson? (json : Json) : Option Config := do
  let fields ← json.fields? keys
  let standard : Config := {}
  let arenaWords ← fieldOr standard.arenaWords Json.uint64? (fields.lookup arenaWordsKey)
  let onExhaustion ←
    fieldOr standard.onExhaustion ExhaustionAction.ofJson? (fields.lookup actionKey)
  let seed ← fieldOr standard.seed seedOfJson? (fields.lookup seedKey)
  return { arenaWords, onExhaustion, seed }

/-- The settings that a JSON text holds. -/
def ofText? (text : String) : Option Config :=
  (Json.ofText? text).bind ofJson?

/-- The members of the written object. -/
def members (c : Config) : List (String × Json.Scalar) :=
  [(arenaWordsKey, .int c.arenaWords), (actionKey, .text c.onExhaustion.name),
    (seedKey, match c.seed with
      | some n => .int n
      | none => .null)]

/-- The settings as a JSON object. -/
def toText (c : Config) : String :=
  Json.writeObject c.members

end Config

/-! ## Setting up -/

namespace Arena

/-- An empty arena that is set up as told. -/
def ofConfig (c : Config) : Arena :=
  (ofSize c.arenaWords).withAction c.onExhaustion

end Arena

namespace Context

/-- A context that is set up as told. Without a seed it takes the given random source. -/
def ofConfig (c : Config) (source : Source) : Context :=
  let arena := Arena.ofConfig c
  match c.seed with
  | some seed =>
    ⟨{ arena with journal := arena.journal.push (.seeded seed) }, Source.ofSeed (UInt64.ofNat seed)⟩
  | none => ⟨arena, source⟩

end Context

end ObjectMemory
