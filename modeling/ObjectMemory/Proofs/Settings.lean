import Mathlib.Algebra.Group.Nat.Defs
import ObjectMemory.Config
import ObjectMemory.Proofs.Numerals
import ObjectMemory.Proofs.Rows

/-!
# Settings from the environment

A variable of the environment is not set, or set to any bytes. What it says is described without
its reader: the bytes are UTF-8, and between white space they hold a numeral (`Config.AsksFor`) or
the name of an action in any letter case (`Config.Names`).

The names of actions have ASCII letters only, so the letters of ASCII are all that has to be
lowered. `ExhaustionAction.parse_eq_of_lowers` says that a mapping for all of Unicode comes to the
same.

The settings that are read are what the variables say, or the defaults, and an arena can be set up
with them as they are: `environment_settings_follow_grammar`.
-/

namespace ObjectMemory

/-! ## Letter case -/

/-- The text is the word, each letter small or capital. -/
def InAnyCase (word text : List Char) : Prop :=
  List.Forall₂ (fun w c => c = w ∨ c = w.toUpper) word text

/-- What a mapping to lower case may make of a character. In ASCII it gives capital letters their
small forms and changes nothing else. What it makes of another character has a part that is in no
action's name: the Kelvin sign becomes `k`, the dotted capital `I` an `i` and a dot, and all others
become something beyond ASCII. -/
def LowersTo (c : Char) (part : List Char) : Prop :=
  if c.toNat < 128 then part = [c.toLower]
  else ∃ d ∈ part, ∀ action : ExhaustionAction, d ∉ action.name.toList

/-- A mapping to lower case. What it makes of a character may depend on those around it, as with
the sigma at the end of a word. -/
def Lowers (lower : List Char → List Char) : Prop :=
  ∀ cs, ∃ parts, List.Forall₂ LowersTo cs parts ∧ lower cs = parts.flatten

theorem toNat_toLower (c : Char) :
    c.toLower.toNat = if 65 ≤ c.toNat ∧ c.toNat ≤ 90 then c.toNat + 32 else c.toNat := by
  unfold Char.toLower
  split
  · next h =>
    have hbounds : 65 ≤ c.toNat ∧ c.toNat ≤ 90 := h
    rw [if_pos hbounds]
    show (c.val + 32).toNat = _
    rw [UInt32.toNat_add, Char.toNat_val]
    exact Nat.mod_eq_of_lt (by show c.toNat + 32 < _; omega)
  · next h =>
    have hbounds : ¬ (65 ≤ c.toNat ∧ c.toNat ≤ 90) := h
    rw [if_neg hbounds]

theorem toNat_toUpper (c : Char) :
    c.toUpper.toNat = if 97 ≤ c.toNat ∧ c.toNat ≤ 122 then c.toNat - 32 else c.toNat := by
  unfold Char.toUpper
  split
  · next h =>
    have hbounds : 97 ≤ c.toNat ∧ c.toNat ≤ 122 := h
    have hshift : ('A'.val - 'a'.val).toNat = 4294967264 := rfl
    rw [if_pos hbounds]
    show (c.val + ('A'.val - 'a'.val)).toNat = _
    rw [UInt32.toNat_add, Char.toNat_val, hshift]
    omega
  · next h =>
    have hbounds : ¬ (97 ≤ c.toNat ∧ c.toNat ≤ 122) := h
    rw [if_neg hbounds]

/-- **The small form of a character is a given letter** if it is that letter or its capital. -/
theorem toLower_eq_iff {w c : Char} (hw : w.isLower = true) :
    c.toLower = w ↔ c = w ∨ c = w.toUpper := by
  have hbounds : 97 ≤ w.toNat ∧ w.toNat ≤ 122 := by
    obtain ⟨hlo, hhi⟩ := Bool.and_eq_true_iff.mp hw
    exact ⟨of_decide_eq_true hlo, of_decide_eq_true hhi⟩
  have hlower := toNat_toLower c
  have hupper := toNat_toUpper w
  rw [if_pos hbounds] at hupper
  rw [← Char.toNat_inj, ← Char.toNat_inj, ← Char.toNat_inj, hlower, hupper]
  split <;> omega

theorem inAnyCase_iff {word text : List Char} (hword : ∀ w ∈ word, w.isLower = true) :
    InAnyCase word text ↔ text.map Char.toLower = word := by
  induction word generalizing text with
  | nil =>
    rw [InAnyCase, List.forall₂_nil_left_iff, List.map_eq_nil_iff]
  | cons w word ih =>
    cases text with
    | nil => simp [InAnyCase]
    | cons c text =>
      rw [InAnyCase, List.forall₂_cons, List.map_cons, List.cons.injEq,
        toLower_eq_iff (hword w List.mem_cons_self)]
      exact and_congr Iff.rfl (ih fun v hv => hword v (List.mem_cons_of_mem w hv))

namespace ExhaustionAction

theorem isLower_name (action : ExhaustionAction) : ∀ w ∈ action.name.toList, w.isLower = true :=
  List.all_eq_true.mp (by cases action <;> decide)

theorem lt_of_mem_name (action : ExhaustionAction) : ∀ w ∈ action.name.toList, w.toNat < 128 := by
  have hall : action.name.toList.all (fun w => decide (w.toNat < 128)) = true := by
    cases action <;> decide
  exact fun w hw => of_decide_eq_true (List.all_eq_true.mp hall w hw)

theorem not_blank_name (action : ExhaustionAction) :
    ∀ w ∈ action.name.toList, Blank.isBlank w = false ∧ Blank.isBlank w.toUpper = false := by
  have hall : action.name.toList.all
      (fun w => decide (Blank.isBlank w = false ∧ Blank.isBlank w.toUpper = false)) = true := by
    cases action <;> decide
  exact fun w hw => of_decide_eq_true (List.all_eq_true.mp hall w hw)

theorem ofName?_eq_some_iff {text : String} {action : ExhaustionAction} :
    ofName? text = some action ↔ text = action.name := by
  constructor
  · intro h
    have hfound := List.find?_some h
    exact (beq_iff_eq.mp hfound).symm
  · rintro rfl
    exact ofName?_name action

/-- A name in any letter case has no white space in it. -/
theorem not_blank_of_inAnyCase {action : ExhaustionAction} {core : List Char}
    (h : InAnyCase action.name.toList core) : ∀ c ∈ core, Blank.isBlank c = false := by
  intro c hc
  obtain ⟨w, hw, hcase⟩ := exists_of_mem_forall₂ h.flip hc
  have hblank := action.not_blank_name w hw
  rcases hcase with rfl | rfl
  · exact hblank.1
  · exact hblank.2

/-- **A text names an action** if the action's name stands in it between white space, in any letter
case. -/
theorem parse_eq_some_iff {text : String} {action : ExhaustionAction} :
    parse text = some action ↔
      ∃ core, Blank.Framed core text.toList ∧ InAnyCase action.name.toList core := by
  rw [parse, ofName?_eq_some_iff, ← String.toList_inj, String.toList_ofList,
    ← inAnyCase_iff action.isLower_name]
  constructor
  · intro h
    exact ⟨_, Blank.framed_trim _, h⟩
  · rintro ⟨core, hframed, hcase⟩
    rwa [hframed.trim_eq (Blank.Tight.of_not_blank (not_blank_of_inAnyCase hcase))]

/-! ### Lower case beyond ASCII -/

/-- A mapping to lower case gives a name exactly if the letters of ASCII do. -/
theorem flatten_eq_name_iff {cs : List Char} {parts : List (List Char)}
    (hparts : List.Forall₂ LowersTo cs parts) (action : ExhaustionAction) :
    parts.flatten = action.name.toList ↔ cs.map Char.toLower = action.name.toList := by
  by_cases hascii : ∀ c ∈ cs, c.toNat < 128
  · have hsame : parts.flatten = cs.map Char.toLower := by
      induction hparts with
      | nil => rfl
      | @cons c part cs parts hfirst _ ih =>
        rw [LowersTo, if_pos (hascii c List.mem_cons_self)] at hfirst
        rw [List.flatten_cons, hfirst, ih fun d hd => hascii d (List.mem_cons_of_mem c hd)]
        rfl
    rw [hsame]
  · -- a character beyond ASCII leaves a trace on both sides that is in no name
    push Not at hascii
    obtain ⟨c, hc, hbeyond⟩ := hascii
    obtain ⟨part, hpart, hlowers⟩ := exists_of_mem_forall₂ hparts hc
    rw [LowersTo, if_neg (by omega)] at hlowers
    obtain ⟨d, hd, hforeign⟩ := hlowers
    have hleft : d ∈ parts.flatten := List.mem_flatten.mpr ⟨part, hpart, hd⟩
    have hright : c.toLower ∈ cs.map Char.toLower := List.mem_map_of_mem hc
    constructor
    · intro h
      exact absurd (h ▸ hleft) (hforeign action)
    · intro h
      have := action.lt_of_mem_name _ (h ▸ hright)
      rw [toNat_toLower, if_neg (by omega)] at this
      omega

/-- **Any mapping to lower case finds the same actions.** -/
theorem parse_eq_of_lowers {lower : List Char → List Char} (h : Lowers lower) (text : String) :
    parse text = ofName? (String.ofList (lower (Blank.trim text.toList))) := by
  obtain ⟨parts, hparts, hlower⟩ := h (Blank.trim text.toList)
  refine Option.ext fun action => ?_
  rw [parse, ofName?_eq_some_iff, ofName?_eq_some_iff, ← String.toList_inj, ← String.toList_inj,
    String.toList_ofList, String.toList_ofList, hlower]
  exact (flatten_eq_name_iff hparts action).symm

end ExhaustionAction

/-! ## What a variable says -/

namespace Config

variable {env : String → Option (List UInt8)} {name : String} {text : String} {m : Nat}

/-- The text that a variable is set to. There is none if it is not set, or not to UTF-8. -/
def textOf (env : String → Option (List UInt8)) (name : String) : Option String :=
  (env name).bind Utf8.decode?

/-- The variable is set to `core` in UTF-8, with white space before and after it. -/
def Says (env : String → Option (List UInt8)) (name : String) (core : List Char) : Prop :=
  ∃ text : String, env name = some (Utf8.encode text) ∧ Blank.Framed core text.toList

/-- The variable is set to a numeral for `m`. -/
def AsksFor (env : String → Option (List UInt8)) (name : String) (m : Nat) : Prop :=
  ∃ core, Says env name core ∧ Numeral.Denotes core m

/-- The variable is set to the name of the action, in any letter case. -/
def Names (env : String → Option (List UInt8)) (action : ExhaustionAction) : Prop :=
  ∃ core, Says env actionName core ∧ InAnyCase action.name.toList core

theorem textOf_eq_some_iff : textOf env name = some text ↔ env name = some (Utf8.encode text) := by
  rw [textOf, Option.bind_eq_some_iff]
  simp only [Utf8.decode?_eq_some_iff, exists_eq_right]

/-- A number is read if a numeral for it stands between white space. -/
theorem number?_eq_some_iff :
    number? text = some m ↔
      (∃ core, Blank.Framed core text.toList ∧ Numeral.Denotes core m) ∧ m < 2 ^ 64 := by
  have hbound : m ≤ Numeral.maxUInt64 ↔ m < 2 ^ 64 := by
    unfold Numeral.maxUInt64
    omega
  rw [number?, Numeral.read?_eq_some_iff, hbound]
  refine and_congr ⟨fun h => ⟨_, Blank.framed_trim _, h⟩, ?_⟩ Iff.rfl
  rintro ⟨core, hframed, hdenotes⟩
  rwa [hframed.trim_eq (Blank.Tight.of_not_blank hdenotes.not_blank)]

theorem numberOf_eq_some_iff :
    (textOf env name).bind number? = some m ↔ AsksFor env name m ∧ m < 2 ^ 64 := by
  rw [Option.bind_eq_some_iff]
  simp only [textOf_eq_some_iff, number?_eq_some_iff]
  constructor
  · rintro ⟨text, henv, ⟨core, hframed, hdenotes⟩, hlt⟩
    exact ⟨⟨core, ⟨text, henv, hframed⟩, hdenotes⟩, hlt⟩
  · rintro ⟨⟨core, ⟨text, henv, hframed⟩, hdenotes⟩, hlt⟩
    exact ⟨text, henv, ⟨core, hframed, hdenotes⟩, hlt⟩

theorem arenaWordsOf_eq_some_iff :
    (textOf env name).bind arenaWords? = some m ↔
      AsksFor env name m ∧ 16 ≤ m ∧ m ≤ 2 ^ 28 := by
  have hfilter : (textOf env name).bind arenaWords? =
      ((textOf env name).bind number?).filter fun n => minArenaWords ≤ n && n ≤ maxArenaWords := by
    cases textOf env name <;> rfl
  rw [hfilter, Option.filter_eq_some_iff, numberOf_eq_some_iff, Bool.and_eq_true,
    decide_eq_true_eq, decide_eq_true_eq]
  unfold minArenaWords maxArenaWords
  constructor
  · rintro ⟨⟨hasks, -⟩, hlo, hhi⟩
    exact ⟨hasks, hlo, by omega⟩
  · rintro ⟨hasks, hlo, hhi⟩
    exact ⟨⟨hasks, by omega⟩, hlo, by omega⟩

theorem actionOf_eq_some_iff {action : ExhaustionAction} :
    (textOf env actionName).bind ExhaustionAction.parse = some action ↔ Names env action := by
  rw [Option.bind_eq_some_iff]
  simp only [textOf_eq_some_iff, ExhaustionAction.parse_eq_some_iff]
  constructor
  · rintro ⟨text, henv, core, hframed, hcase⟩
    exact ⟨core, ⟨text, henv, hframed⟩, hcase⟩
  · rintro ⟨core, ⟨text, henv, hframed⟩, hcase⟩
    exact ⟨text, henv, core, hframed, hcase⟩

/-! ## What is read -/

/-- A setting is what its text gives, or the default. A text that gives nothing is warned about. -/
theorem setting_eq {α : Type} (parse : String → Option α) (ignored : String → Event) (default : α)
    (value : Option String) :
    setting parse ignored default value =
      ((value.bind parse).getD default,
        (value.filter fun text => (parse text).isNone).toList.map ignored) := by
  cases value with
  | none => rfl
  | some text =>
    rw [setting]
    cases h : parse text <;> simp [h, Option.filter]

/-- **What the environment gives**, setting by setting, and the warnings in their order. -/
theorem ofEnvironment_eq (env : String → Option (List UInt8)) :
    ofEnvironment env =
      ({ arenaWords := ((textOf env arenaWordsName).bind arenaWords?).getD 100000
         onExhaustion := ((textOf env actionName).bind ExhaustionAction.parse).getD .exit
         seed := (textOf env seedName).bind number? },
        ((textOf env arenaWordsName).filter fun text => (arenaWords? text).isNone).toList.map
            .arenaWordsIgnored ++
          ((textOf env actionName).filter fun text =>
            (ExhaustionAction.parse text).isNone).toList.map .actionIgnored) := by
  rw [ofEnvironment]
  simp only [setting_eq]
  rfl

section Fields

variable (env : String → Option (List UInt8))

theorem arenaWords_ofEnvironment :
    (ofEnvironment env).1.arenaWords =
      ((textOf env arenaWordsName).bind arenaWords?).getD 100000 := by
  rw [ofEnvironment_eq]

theorem onExhaustion_ofEnvironment :
    (ofEnvironment env).1.onExhaustion =
      ((textOf env actionName).bind ExhaustionAction.parse).getD .exit := by
  rw [ofEnvironment_eq]

theorem seed_ofEnvironment : (ofEnvironment env).1.seed = (textOf env seedName).bind number? := by
  rw [ofEnvironment_eq]

/-- The environment never asks for an arena that is too small or too large. -/
theorem arenaWords_bounds :
    16 ≤ (ofEnvironment env).1.arenaWords ∧ (ofEnvironment env).1.arenaWords ≤ 2 ^ 28 := by
  rw [arenaWords_ofEnvironment]
  cases h : (textOf env arenaWordsName).bind arenaWords? with
  | none =>
    rw [Option.getD_none]
    exact ⟨by decide, by decide⟩
  | some m => exact (arenaWordsOf_eq_some_iff.mp h).2

end Fields

end Config

/-- An arena of a size that is not too large has that size, and nothing is said about a limit. -/
theorem Arena.ofConfig_of_le {c : Config} (h : c.arenaWords ≤ 2 ^ 28) :
    (Arena.ofConfig c).capacity = c.arenaWords ∧
      (Arena.ofConfig c).onExhaustion = c.onExhaustion ∧
      (Arena.ofConfig c).journal = #[.initialized c.arenaWords] := by
  have hle : c.arenaWords ≤ maxArenaWords := h
  refine ⟨Nat.min_eq_left hle, rfl, ?_⟩
  show (if maxArenaWords < c.arenaWords then _ else _) = _
  rw [if_neg (Nat.not_lt.mpr hle)]

open Config

/-- **The environment is read by its grammar, and what is read can be used.** Each variable may be
unset or hold any bytes.

The arena's size is `m` if the variable for it holds a numeral for `m`, in UTF-8 and between white
space, with `m` neither too small nor too large, and it is the default in all other cases. The seed
is `m` if its variable holds such a numeral and `m` fits into 64 bits, and there is none otherwise.
The action is the one that its variable names in any letter case, and to exit if it names no other.
A mapping to lower case for all of Unicode comes to the same.

An arena that is set up with these settings has exactly the size and the action that were read. -/
theorem environment_settings_follow_grammar (env : String → Option (List UInt8)) :
    (∀ m, (ofEnvironment env).1.arenaWords = m ↔
      (AsksFor env arenaWordsName m ∧ 16 ≤ m ∧ m ≤ 2 ^ 28) ∨
        (¬ ∃ n, AsksFor env arenaWordsName n ∧ 16 ≤ n ∧ n ≤ 2 ^ 28) ∧ m = 100000) ∧
    (∀ m, (ofEnvironment env).1.seed = some m ↔ AsksFor env seedName m ∧ m < 2 ^ 64) ∧
    ((ofEnvironment env).1.onExhaustion = .halt ↔ Names env .halt) ∧
    ((ofEnvironment env).1.onExhaustion = .panic ↔ Names env .panic) ∧
    ((ofEnvironment env).1.onExhaustion = .exit ↔ ¬ Names env .halt ∧ ¬ Names env .panic) ∧
    (∀ lower, Lowers lower → (ofEnvironment env).1.onExhaustion =
      ((textOf env actionName).bind fun text => ExhaustionAction.ofName?
        (String.ofList (lower (Blank.trim text.toList)))).getD .exit) ∧
    (16 ≤ (ofEnvironment env).1.arenaWords ∧ (ofEnvironment env).1.arenaWords ≤ 2 ^ 28) ∧
    (Arena.ofConfig (ofEnvironment env).1).capacity = (ofEnvironment env).1.arenaWords ∧
    (Arena.ofConfig (ofEnvironment env).1).onExhaustion = (ofEnvironment env).1.onExhaustion ∧
    (Arena.ofConfig (ofEnvironment env).1).journal =
      #[.initialized (ofEnvironment env).1.arenaWords] := by
  have hbounds := arenaWords_bounds env
  have haction := onExhaustion_ofEnvironment env
  have hnamed (action : ExhaustionAction) (hne : action ≠ .exit) :
      (ofEnvironment env).1.onExhaustion = action ↔ Names env action := by
    rw [haction, Option.getD_eq_iff, actionOf_eq_some_iff]
    exact or_iff_left fun h => hne h.2.symm
  have hhalt := hnamed .halt (by decide)
  have hpanic := hnamed .panic (by decide)
  refine ⟨fun m => ?_, fun m => ?_, hhalt, hpanic, ?_, fun lower hlower => ?_, hbounds,
    Arena.ofConfig_of_le hbounds.2⟩
  · rw [arenaWords_ofEnvironment, Option.getD_eq_iff, arenaWordsOf_eq_some_iff,
      eq_comm (a := 100000), Option.eq_none_iff_forall_ne_some]
    simp only [ne_eq, arenaWordsOf_eq_some_iff, not_exists]
  · rw [seed_ofEnvironment]
    exact numberOf_eq_some_iff
  · rw [← hhalt, ← hpanic]
    cases (ofEnvironment env).1.onExhaustion <;> decide
  · rw [haction, funext fun text => ExhaustionAction.parse_eq_of_lowers hlower text]

/-- A mapping to lower case that knows the Kelvin sign and the dotted capital `I`. -/
def lowerOfTwo (c : Char) : List Char :=
  if c = '\u212A' then ['k'] else if c = '\u0130' then ['i', '\u0307'] else [c.toLower]

theorem lowers_lowerOfTwo : Lowers fun cs => cs.flatMap lowerOfTwo := by
  intro cs
  refine ⟨cs.map lowerOfTwo, ?_, List.flatMap_def⟩
  rw [List.forall₂_map_right_iff, List.forall₂_same]
  intro c _
  unfold LowersTo
  split
  · next hascii =>
    have hk : c ≠ '\u212A' := by rintro rfl; exact absurd hascii (by decide)
    have hi : c ≠ '\u0130' := by rintro rfl; exact absurd hascii (by decide)
    rw [lowerOfTwo, if_neg hk, if_neg hi]
  · next hbeyond =>
    unfold lowerOfTwo
    split
    · exact ⟨'k', List.mem_cons_self, fun action => by cases action <;> decide⟩
    · split
      · exact ⟨'\u0307', by decide, fun action => by cases action <;> decide⟩
      · refine ⟨c.toLower, List.mem_cons_self, fun action hin => ?_⟩
        have hlt := action.lt_of_mem_name _ hin
        rw [toNat_toLower, if_neg (by omega)] at hlt
        omega

/-- An environment that asks for 64 words, with a plus sign, zeros in front and a no-break space
after it, and for the action to halt in mixed case and with a line end. It sets no seed. -/
def smallEnvironment (name : String) : Option (List UInt8) :=
  if name = arenaWordsName then some [43, 48, 48, 54, 52, 0xC2, 0xA0]
  else if name = actionName then some [104, 65, 76, 116, 10]
  else none

/-- The small environment is read as it is meant. -/
theorem small_environment_read :
    (ofEnvironment smallEnvironment).1.arenaWords = 64 ∧
    (ofEnvironment smallEnvironment).1.onExhaustion = .halt ∧
    (∀ m, (ofEnvironment smallEnvironment).1.seed ≠ some m) ∧
    (ofEnvironment smallEnvironment).1.onExhaustion =
      ((textOf smallEnvironment actionName).bind fun text => ExhaustionAction.ofName?
        (String.ofList ((Blank.trim text.toList).flatMap lowerOfTwo))).getD .exit ∧
    (Arena.ofConfig (ofEnvironment smallEnvironment).1).capacity = 64 := by
  obtain ⟨hwords, hseed, hhalt, -, -, hlower, -, hcap, -⟩ :=
    environment_settings_follow_grammar smallEnvironment
  have hnumeral : AsksFor smallEnvironment arenaWordsName 64 := by
    have hdigits : Numeral.Digits ['0', '0', '6', '4'] 64 :=
      .more (.more (.more (.one (d := 0) ⟨by decide, rfl⟩) (d := 0) ⟨by decide, rfl⟩) (d := 6)
        ⟨by decide, rfl⟩) (d := 4) ⟨by decide, rfl⟩
    exact ⟨_, ⟨String.ofList ['+', '0', '0', '6', '4', '\u00A0'], by decide, [], ['\u00A0'],
      String.toList_ofList, List.forall_mem_nil _, List.forall_mem_singleton.mpr rfl⟩,
      .signed hdigits⟩
  have hnames : Names smallEnvironment .halt :=
    ⟨['h', 'A', 'L', 't'], ⟨String.ofList ['h', 'A', 'L', 't', '\n'], by decide, [], ['\n'],
      String.toList_ofList, List.forall_mem_nil _, List.forall_mem_singleton.mpr rfl⟩, by
      refine .cons ?_ (.cons ?_ (.cons ?_ (.cons ?_ .nil))) <;> decide⟩
  have hsize : (ofEnvironment smallEnvironment).1.arenaWords = 64 :=
    (hwords 64).mpr (Or.inl ⟨hnumeral, by decide, by decide⟩)
  refine ⟨hsize, hhalt.mpr hnames, fun m hm => ?_, hlower _ lowers_lowerOfTwo, hcap.trans hsize⟩
  obtain ⟨⟨core, ⟨text, hset, -⟩, -⟩, -⟩ := (hseed m).mp hm
  cases hset

end ObjectMemory
