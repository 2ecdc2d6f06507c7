import ObjectMemory.Proofs.Settings

/-!
# Warnings about settings

A variable that is set, but gives no setting, is ignored (`Config.Ignored`). Whoever set it should
be told. The reader of the environment does so for the size of the arena and for the action, as
long as the value is text (`Config.warning_of_ignored`). It says nothing about a seed that it cannot
read, nor about a value that is not UTF-8, which counts as not set.

`ignored_settings_reported_iff` says exactly for which environments every ignored value is warned
about, and `mistyped_seed_unreported` gives one for which this is not so.
-/

namespace ObjectMemory

namespace Config

/-! ## Ignored values -/

/-- The names of the variables that settings are read from. -/
def settingNames : List String :=
  [arenaWordsName, actionName, seedName]

/-- The variable is set to a value that gives its setting. -/
def Gives (env : String → Option (List UInt8)) (name : String) : Prop :=
  (name = arenaWordsName ∧ ∃ m, AsksFor env name m ∧ 16 ≤ m ∧ m ≤ 2 ^ 28) ∨
  (name = actionName ∧ ∃ action, Names env action) ∨
  (name = seedName ∧ ∃ m, AsksFor env name m ∧ m < 2 ^ 64)

/-- The variable is set to a value that does not give its setting. -/
def Ignored (env : String → Option (List UInt8)) (name : String) : Prop :=
  env name ≠ none ∧ ¬ Gives env name

/-- The warnings about a variable: its name stands at the front of their message. -/
def warningsAbout (name : String) (events : List Event) : List Event :=
  events.filter fun e => e.level = .warn && name.toList.isPrefixOf e.message.toList

/-- Each value that is ignored is warned about once, and nothing else is. -/
def IgnoredReported (env : String → Option (List UInt8)) : Prop :=
  ∀ name ∈ settingNames,
    (Ignored env name → (warningsAbout name (ofEnvironment env).2).length = 1) ∧
    (¬ Ignored env name → warningsAbout name (ofEnvironment env).2 = [])

variable {env : String → Option (List UInt8)} {name text : String}

theorem names_differ :
    arenaWordsName ≠ actionName ∧ arenaWordsName ≠ seedName ∧ actionName ≠ seedName := by
  decide

theorem gives_arenaWords_iff :
    Gives env arenaWordsName ↔ ∃ m, (textOf env arenaWordsName).bind arenaWords? = some m := by
  obtain ⟨haction, hseed, -⟩ := names_differ
  simp [Gives, arenaWordsOf_eq_some_iff, haction, hseed]

theorem gives_action_iff :
    Gives env actionName ↔
      ∃ action, (textOf env actionName).bind ExhaustionAction.parse = some action := by
  obtain ⟨haction, -, hseed⟩ := names_differ
  simp [Gives, actionOf_eq_some_iff, haction.symm, hseed]

theorem gives_seed_iff : Gives env seedName ↔ ∃ m, (textOf env seedName).bind number? = some m := by
  obtain ⟨-, hwords, haction⟩ := names_differ
  simp [Gives, numberOf_eq_some_iff, hwords.symm, haction.symm]

/-- A text from which no value is read is that of an ignored variable. -/
theorem unread_eq_some_iff {α : Type} {parse : String → Option α}
    (hgives : Gives env name ↔ ∃ x, (textOf env name).bind parse = some x) :
    ((textOf env name).filter fun text => (parse text).isNone) = some text ↔
      Ignored env name ∧ env name = some (Utf8.encode text) := by
  rw [Option.filter_eq_some_iff, Option.isNone_iff_eq_none, Ignored, hgives]
  constructor
  · rintro ⟨htext, hnone⟩
    have hset := textOf_eq_some_iff.mp htext
    refine ⟨⟨by rw [hset]; exact Option.some_ne_none _, ?_⟩, hset⟩
    rintro ⟨x, hx⟩
    rw [htext, Option.bind_some, hnone] at hx
    cases hx
  · rintro ⟨⟨-, hno⟩, hset⟩
    have htext := textOf_eq_some_iff.mpr hset
    refine ⟨htext, Option.eq_none_iff_forall_ne_some.mpr fun x hx => hno ⟨x, ?_⟩⟩
    rw [htext, Option.bind_some, hx]

theorem ignored_of_unread {α : Type} {parse : String → Option α} {ignored : String → Event}
    (hgives : Gives env name ↔ ∃ x, (textOf env name).bind parse = some x)
    (hsome : ((textOf env name).filter fun text => (parse text).isNone).toList.map ignored ≠ []) :
    Ignored env name ∧ ∃ text, env name = some (Utf8.encode text) := by
  cases hunread : (textOf env name).filter fun text => (parse text).isNone with
  | none =>
    rw [hunread] at hsome
    exact absurd rfl hsome
  | some text =>
    obtain ⟨hignored, hset⟩ := (unread_eq_some_iff hgives).mp hunread
    exact ⟨hignored, text, hset⟩

/-! ## The warnings about a variable -/

theorem warningsAbout_append (name : String) (events more : List Event) :
    warningsAbout name (events ++ more) = warningsAbout name events ++ warningsAbout name more :=
  List.filter_append ..

/-- Warnings whose message starts with the name are all kept. -/
theorem warningsAbout_map (ignored : String → Event) {message : String} (texts : List String)
    (hevent : ∀ text, (ignored text).level = .warn ∧ (ignored text).message = message)
    (hname : name.toList.isPrefixOf message.toList = true) :
    warningsAbout name (texts.map ignored) = texts.map ignored := by
  refine List.filter_eq_self.mpr fun e he => ?_
  obtain ⟨text, -, rfl⟩ := List.mem_map.mp he
  rw [(hevent text).1, (hevent text).2, hname]
  rfl

theorem warningsAbout_map_other (ignored : String → Event) {message : String} (texts : List String)
    (hevent : ∀ text, (ignored text).message = message)
    (hname : name.toList.isPrefixOf message.toList = false) :
    warningsAbout name (texts.map ignored) = [] := by
  refine List.filter_eq_nil_iff.mpr fun e he => ?_
  obtain ⟨text, -, rfl⟩ := List.mem_map.mp he
  rw [hevent text, hname, Bool.and_false]
  exact Bool.false_ne_true

theorem warningsAbout_arenaWords (env : String → Option (List UInt8)) :
    warningsAbout arenaWordsName (ofEnvironment env).2 =
      ((textOf env arenaWordsName).filter fun text => (arenaWords? text).isNone).toList.map
        .arenaWordsIgnored := by
  rw [ofEnvironment_eq, warningsAbout_append,
    warningsAbout_map .arenaWordsIgnored _ (fun _ => ⟨rfl, rfl⟩) (by decide),
    warningsAbout_map_other .actionIgnored _ (fun _ => rfl) (by decide), List.append_nil]

theorem warningsAbout_action (env : String → Option (List UInt8)) :
    warningsAbout actionName (ofEnvironment env).2 =
      ((textOf env actionName).filter fun text =>
        (ExhaustionAction.parse text).isNone).toList.map .actionIgnored := by
  rw [ofEnvironment_eq, warningsAbout_append,
    warningsAbout_map_other .arenaWordsIgnored _ (fun _ => rfl) (by decide),
    warningsAbout_map .actionIgnored _ (fun _ => ⟨rfl, rfl⟩) (by decide), List.nil_append]

/-- **Nothing is ever said about the seed.** -/
theorem warningsAbout_seed (env : String → Option (List UInt8)) :
    warningsAbout seedName (ofEnvironment env).2 = [] := by
  rw [ofEnvironment_eq, warningsAbout_append,
    warningsAbout_map_other .arenaWordsIgnored _ (fun _ => rfl) (by decide),
    warningsAbout_map_other .actionIgnored _ (fun _ => rfl) (by decide), List.nil_append]

/-- **An ignored text is warned about once, with its value**, if it is not meant for the seed. -/
theorem warning_of_ignored (hname : name ∈ settingNames) (hseed : name ≠ seedName)
    (hignored : Ignored env name) (hset : env name = some (Utf8.encode text)) :
    ∃ e, warningsAbout name (ofEnvironment env).2 = [e] ∧ e.fields = [("value", text)] := by
  simp only [settingNames, List.mem_cons, List.not_mem_nil, or_false] at hname
  rcases hname with rfl | rfl | rfl
  · rw [warningsAbout_arenaWords, (unread_eq_some_iff gives_arenaWords_iff).mpr ⟨hignored, hset⟩]
    exact ⟨_, rfl, rfl⟩
  · rw [warningsAbout_action, (unread_eq_some_iff gives_action_iff).mpr ⟨hignored, hset⟩]
    exact ⟨_, rfl, rfl⟩
  · exact absurd rfl hseed

/-- **Nothing else is warned about.** -/
theorem ignored_of_warning (hname : name ∈ settingNames)
    (hsome : warningsAbout name (ofEnvironment env).2 ≠ []) :
    name ≠ seedName ∧ Ignored env name ∧ ∃ text, env name = some (Utf8.encode text) := by
  simp only [settingNames, List.mem_cons, List.not_mem_nil, or_false] at hname
  rcases hname with rfl | rfl | rfl
  · rw [warningsAbout_arenaWords] at hsome
    exact ⟨by decide, ignored_of_unread gives_arenaWords_iff hsome⟩
  · rw [warningsAbout_action] at hsome
    exact ⟨by decide, ignored_of_unread gives_action_iff hsome⟩
  · exact absurd (warningsAbout_seed env) hsome

end Config

open Config

/-- **What is warned about, and when that is all that is ignored.** A variable is warned about
exactly if its value is ignored, is text and is not meant for the seed, and then once, with the
value. So every ignored value is warned about exactly if each of them is text and none is meant for
the seed. -/
theorem ignored_settings_reported_iff (env : String → Option (List UInt8)) :
    (∀ name ∈ settingNames,
      (warningsAbout name (ofEnvironment env).2 = [] ↔
        ¬ (name ≠ seedName ∧ Ignored env name ∧ ∃ text, env name = some (Utf8.encode text))) ∧
      ∀ text, name ≠ seedName → Ignored env name → env name = some (Utf8.encode text) →
        ∃ e, warningsAbout name (ofEnvironment env).2 = [e] ∧ e.fields = [("value", text)]) ∧
    (IgnoredReported env ↔
      ∀ name ∈ settingNames, Ignored env name →
        name ≠ seedName ∧ ∃ text, env name = some (Utf8.encode text)) := by
  have hsilent (name : String) (hname : name ∈ settingNames)
      (hnot : ¬ (name ≠ seedName ∧ Ignored env name ∧ ∃ text, env name = some (Utf8.encode text))) :
      warningsAbout name (ofEnvironment env).2 = [] :=
    Classical.byContradiction fun hsome => hnot (ignored_of_warning hname hsome)
  refine ⟨fun name hname => ⟨⟨?_, hsilent name hname⟩, ?_⟩, ?_⟩
  · rintro hnone ⟨hseed, hignored, text, hset⟩
    obtain ⟨e, he, -⟩ := warning_of_ignored hname hseed hignored hset
    rw [hnone] at he
    cases he
  · exact fun text hseed hignored hset => warning_of_ignored hname hseed hignored hset
  · constructor
    · intro hall name hname hignored
      have hone := (hall name hname).1 hignored
      have hsome : warningsAbout name (ofEnvironment env).2 ≠ [] := by
        intro hnone
        rw [hnone] at hone
        cases hone
      obtain ⟨hseed, -, htext⟩ := ignored_of_warning hname hsome
      exact ⟨hseed, htext⟩
    · intro hall name hname
      refine ⟨fun hignored => ?_, fun hnot => hsilent name hname fun h => hnot h.2.1⟩
      obtain ⟨hseed, text, hset⟩ := hall name hname hignored
      obtain ⟨e, he, -⟩ := warning_of_ignored hname hseed hignored hset
      rw [he]
      rfl

/-- An environment that sets nothing but the seed, and that to the word `seven`. -/
def mistypedSeed (name : String) : Option (List UInt8) :=
  if name = seedName then some [115, 101, 118, 101, 110] else none

/-- The mistyped seed is ignored, and nobody is told. -/
theorem mistyped_seed_unreported :
    ¬ IgnoredReported mistypedSeed ∧ (ofEnvironment mistypedSeed).1.seed = none := by
  have htext : textOf mistypedSeed seedName = some (String.ofList ['s', 'e', 'v', 'e', 'n']) :=
    textOf_eq_some_iff.mpr (by decide)
  have hnone : (textOf mistypedSeed seedName).bind number? = none := by
    rw [htext]
    decide
  have hignored : Ignored mistypedSeed seedName := by
    refine ⟨by decide, fun hgives => ?_⟩
    obtain ⟨m, hm⟩ := gives_seed_iff.mp hgives
    rw [hnone] at hm
    cases hm
  refine ⟨fun hall => ?_, (seed_ofEnvironment _).trans hnone⟩
  have hone := (hall seedName (by decide)).1 hignored
  rw [warningsAbout_seed] at hone
  cases hone

end ObjectMemory
