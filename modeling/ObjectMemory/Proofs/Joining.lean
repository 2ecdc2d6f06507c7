import Mathlib.Data.List.Forall2
import ObjectMemory.Proofs.CleanStrings
import ObjectMemory.Proofs.Indexables

/-!
# Joining

Two calls join what is printed. `joinStrings` takes its parts from a list and puts a separator
between every two of them. `join` takes them as arguments, the first of which is a string, and puts
nothing between them, so that whoever wants a separator passes it between every two.

What a part is printed as is `Arena.Prints`, and what a separator stands for is `Arena.Separates`.
-/

namespace ObjectMemory

/-! ## Parts and separators -/

/-- The reference is an integer or a truth value, or it names a string. -/
inductive Arena.Printable (a : Arena) : Ref → Prop
  | int (n : Int) : a.Printable (.int n)
  | true : a.Printable .true
  | false : a.Printable .false
  | string {h : Handle} (cls : a.classOf h = .ok .string) : a.Printable (.obj h)

/-- The reference is printed as the bytes: an integer in decimal, a truth value by its name, and a
string as it is. -/
inductive Arena.Prints (a : Arena) : Ref → List UInt8 → Prop
  | int (n : Int) : a.Prints (.int n) (Utf8.encode (Numeral.signed n))
  | true : a.Prints .true (Utf8.encode "true")
  | false : a.Prints .false (Utf8.encode "false")
  | string {h : Handle} {bytes : List UInt8} (shows : a.Shows h (.string bytes)) :
    a.Prints (.obj h) bytes

/-- The separator stands for the bytes. If it is missing or no string, it stands for none. -/
inductive Arena.Separates (a : Arena) : Option Ref → List UInt8 → Prop
  | missing : a.Separates none []
  | string {h : Handle} {bytes : List UInt8} (shows : a.Shows h (.string bytes)) :
    a.Separates (some (.obj h)) bytes
  | other {r : Ref} (other : ∀ h, r = .obj h → a.classOf h ≠ .ok .string) :
    a.Separates (some r) []

section Printing

variable {a : Arena} {r : Ref} {parts : List Ref} {bytes : List UInt8}
  {texts : List (List UInt8)} {separator : Option Ref}

theorem Arena.Prints.printed? (hp : a.Prints r bytes) (hk : a.Knows r) :
    a.view.printed? r = some bytes := by
  cases hp with
  | string shows =>
    obtain ⟨⟩ | ⟨cls, read, _⟩ := shows
    rw [← Except.ok.inj ((stringBytes_eq (hk _ rfl)).symm.trans read)]
    exact text?_of_classOf (hk _ rfl) cls
  | _ => rfl

theorem Arena.Prints.clean (hp : a.Prints r bytes) : 0 ∉ bytes := by
  have htext (cs : List Char) (hcs : '\x00' ∉ cs) : 0 ∉ Utf8.encodeAll cs := by
    rw [← takeWhile_encodeAll_of_clean hcs]
    exact not_mem_takeWhile_ne _ _
  cases hp with
  | int n => exact htext _ (clean_signed n)
  | true => exact htext "true".toList (by decide)
  | false => exact htext "false".toList (by decide)
  | string shows => exact shows.clean

theorem Arena.Printable.of_printed? (hk : a.Knows r) (hp : a.view.printed? r = some bytes) :
    a.Printable r := by
  cases r with
  | int n => exact .int n
  | true => exact .true
  | false => exact .false
  | nil => cases hp
  | obj h =>
    obtain ⟨g, hnamed, _⟩ := Option.map_eq_some_iff.mp hp
    obtain ⟨heq, hcls⟩ := View.named?_eq_some.mp hnamed
    cases heq
    exact .string ((classOf_eq_ok_iff (hk h rfl)).mpr hcls)

/-- Whether a reference can be printed depends on the class of the object that it names. -/
theorem Arena.Printable.congr {b : Arena} (hp : a.Printable r)
    (hcls : ∀ h, r = .obj h → b.classOf h = a.classOf h) : b.Printable r := by
  cases hp with
  | int n => exact .int n
  | true => exact .true
  | false => exact .false
  | string cls => exact .string ((hcls _ rfl).trans cls)

theorem Arena.Separates.text? (hs : a.Separates separator bytes)
    (hk : ∀ r ∈ separator, a.Knows r) : (separator.bind a.view.text?).getD [] = bytes := by
  cases hs with
  | missing => rfl
  | string shows =>
    have hprinted := (Prints.string shows).printed? (hk _ rfl)
    exact congrArg (·.getD []) hprinted
  | @other r other =>
    have hnone : a.view.text? r = none := by
      rw [View.text?, Option.map_eq_none_iff, Option.eq_none_iff_forall_ne_some]
      intro h hnamed
      obtain ⟨rfl, hcls⟩ := View.named?_eq_some.mp hnamed
      exact other h rfl ((classOf_eq_ok_iff (hk _ rfl h rfl)).mpr hcls)
    exact congrArg (·.getD []) hnone

theorem Arena.Separates.clean (hs : a.Separates separator bytes) : 0 ∉ bytes := by
  cases hs with
  | string shows => exact shows.clean
  | _ => simp

/-- A row of parts is printed part by part. -/
theorem mapM_printed? (hp : List.Forall₂ a.Prints parts texts) (hk : ∀ r ∈ parts, a.Knows r) :
    parts.mapM a.view.printed? = some texts := by
  induction hp with
  | nil => rfl
  | cons hfirst _ ih =>
    rw [List.mapM_cons, hfirst.printed? (hk _ List.mem_cons_self),
      ih fun r hr => hk r (List.mem_cons_of_mem _ hr)]
    rfl

/-- One part that cannot be printed is enough to print none. -/
theorem mapM_printed?_eq_none (hk : ∀ r ∈ parts, a.Knows r) (hr : r ∈ parts)
    (hnot : ¬ a.Printable r) : parts.mapM a.view.printed? = none := by
  rw [Option.eq_none_iff_forall_ne_some]
  intro texts hall
  induction parts generalizing texts with
  | nil => cases hr
  | cons first rest ih =>
    rw [List.mapM_cons] at hall
    obtain ⟨text, hfirst, hmore⟩ := Option.bind_eq_some_iff.mp hall
    obtain ⟨more, hrest, _⟩ := Option.bind_eq_some_iff.mp hmore
    rcases List.mem_cons.mp hr with rfl | hr
    · exact hnot (.of_printed? (hk _ List.mem_cons_self) hfirst)
    · exact ih (fun r hr => hk r (List.mem_cons_of_mem _ hr)) hr more hrest

theorem clean_of_prints (hp : List.Forall₂ a.Prints parts texts) : ∀ t ∈ texts, 0 ∉ t := by
  induction hp with
  | nil => simp
  | cons hfirst _ ih => simpa using ⟨hfirst.clean, ih⟩

/-! ## Parts with separators between them -/

/-- The arguments with which `join` gives what `joinStrings` gives for a list of the parts. -/
def joinArgs (parts : List Ref) : (separator : Option Ref) → List Ref
  | none => parts
  | some s => parts.intersperse s

theorem mem_intersperse {α : Type} {s x : α} {xs : List α} (hx : x ∈ xs) :
    x ∈ xs.intersperse s := by
  induction xs with
  | nil => cases hx
  | cons y ys ih =>
    cases ys with
    | nil => exact hx
    | cons z zs =>
      rw [List.intersperse_cons_cons]
      rcases List.mem_cons.mp hx with rfl | hx
      · exact List.mem_cons_self
      · exact List.mem_cons_of_mem _ (List.mem_cons_of_mem _ (ih hx))

theorem of_mem_intersperse {α : Type} {s x : α} {xs : List α} (hx : x ∈ xs.intersperse s) :
    x = s ∨ x ∈ xs := by
  induction xs with
  | nil => cases hx
  | cons y ys ih =>
    cases ys with
    | nil => exact Or.inr hx
    | cons z zs =>
      rw [List.intersperse_cons_cons, List.mem_cons, List.mem_cons] at hx
      rcases hx with rfl | rfl | hx
      · exact Or.inr List.mem_cons_self
      · exact Or.inl rfl
      · exact (ih hx).imp_right (List.mem_cons_of_mem _)

theorem prints_intersperse {s : Ref} (hp : List.Forall₂ a.Prints parts texts)
    (hs : a.Prints s bytes) :
    List.Forall₂ a.Prints (parts.intersperse s) (texts.intersperse bytes) := by
  induction hp with
  | nil => exact .nil
  | cons hfirst hrest ih =>
    cases hrest with
    | nil => exact .cons hfirst .nil
    | cons hsecond hmore => exact .cons hfirst (.cons hs ih)

theorem nil_intercalate {α : Type} (xs : List (List α)) : [].intercalate xs = xs.flatten := by
  induction xs with
  | nil => rfl
  | cons y ys ih =>
    cases ys with
    | nil => simp
    | cons z zs => simp [List.intercalate_cons_cons, ih]

theorem clean_intercalate (htexts : ∀ t ∈ texts, 0 ∉ t) (hbytes : 0 ∉ bytes) :
    0 ∉ bytes.intercalate texts := by
  intro hzero
  obtain ⟨t, ht, hin⟩ := List.mem_flatten.mp hzero
  rcases of_mem_intersperse ht with rfl | ht
  · exact hbytes hin
  · exact htexts t ht hin

end Printing

/-! ## Calls -/

section Calls

variable {c d : Context} {hs : List Handle} {h l : Handle} {r : Ref} {parts items : List Ref}
  {texts : List (List UInt8)} {separator : Option Ref} {between : List UInt8}
  {next : Handle → Context → Prop}

theorem planNamed_makeList (v : View) (free : Nat) (parts : List Ref) :
    Primitive.planNamed "makeList" v free parts = Plan.makeList parts :=
  (Primitive.planNamed_name .makeList v free _).trans (if_neg (Nat.not_lt_zero _))

theorem planNamed_joinStrings (v : View) (free : Nat) (list : Ref) (separator : Option Ref) :
    Primitive.planNamed "joinStrings" v free (list :: separator.toList) =
      Plan.joinStrings v list separator := by
  refine (Primitive.planNamed_name .joinStrings v free _).trans ?_
  cases separator <;> rfl

theorem makeList_gives (hc : c.arena.Closed hs) (hparts : ∀ r ∈ parts, r.Among hs)
    (hcanonical : ∀ r ∈ parts, r.Canonical)
    (hnext : ∀ l d, Added c hs (.list parts) l d → next l d) :
    Gives c hs "makeList" parts (.list parts) next := by
  have hstored : (parts.map Ref.toWord).map Ref.ofWord = parts := by
    rw [List.map_map]
    have hsame : ∀ r ∈ parts, (Ref.ofWord ∘ Ref.toWord) r = id r :=
      fun r hr => Ref.ofWord_toWord (hcanonical r hr)
    rw [List.map_congr_left hsame, List.map_id]
  have hmade := Content.MadeFor.items (parts.map Ref.toWord)
  rw [hstored] at hmade
  exact gives_of_plan hc hparts hmade (planNamed_makeList _ _ _) hnext

section JoinStrings

variable (hc : c.arena.Closed hs) (hl : l ∈ hs) (hx : c.arena.Shows l (.list items))
  (hseparator : ∀ r ∈ separator, r.Among hs)

include hc hl hx hseparator

/-- What `joinStrings` looks at: a list, whose items and whose separator the arena knows. -/
theorem joinStrings_knows :
    (∀ r ∈ Ref.obj l :: separator.toList, r.Among hs) ∧
      c.arena.view.list? (.obj l) = some l ∧ (c.arena.view l).items = items ∧
      (∀ r ∈ items, c.arena.Knows r) ∧ ∀ r ∈ separator, c.arena.Knows r := by
  obtain ⟨hlist, hitems⟩ := hx.list?_eq (hc.tiled.holds hl)
  have hnamed : ∀ r ∈ [Ref.obj l], r.Among hs := by simpa using among_obj.mpr hl
  have hcls := (View.named?_eq_some.mp hlist).2
  refine ⟨among_cons (among_obj.mpr hl) (by simpa using hseparator), hlist, hitems, ?_, ?_⟩
  · rw [← hitems]
    exact (hc.knowsArguments hnamed).items l List.mem_cons_self hcls
  · exact fun r hr => hc.tiled.knows (hseparator r hr)

/-- **The items of a list are joined as they are printed**, with the separator between them. -/
theorem joinStrings_gives (hp : List.Forall₂ c.arena.Prints items texts)
    (hs' : c.arena.Separates separator between)
    (hnext : ∀ g d, Added c hs (.string (between.intercalate texts)) g d → next g d) :
    Gives c hs "joinStrings" (.obj l :: separator.toList)
      (.string (between.intercalate texts)) next := by
  obtain ⟨hargs, hlist, hitems, hknown, hknows⟩ := joinStrings_knows hc hl hx hseparator
  have hclean := clean_intercalate (clean_of_prints hp) hs'.clean
  refine gives_of_plan hc hargs (.bytes hclean) ?_ hnext
  rw [planNamed_joinStrings, Plan.joinStrings, hlist, hs'.text? hknows]
  show (Plan.need _ ((c.arena.view l).items.mapM _) >>= _) = _
  rw [hitems, mapM_printed? hp hknown]
  rfl

/-- Items are refused if one of them cannot be printed. -/
theorem joinStrings_refuses (hr : r ∈ items) (hnot : ¬ c.arena.Printable r) :
    Primitive.invoke "joinStrings" (.obj l :: separator.toList) c =
      .error (.failure .needsString) c := by
  obtain ⟨hargs, hlist, hitems, hknown, _⟩ := joinStrings_knows hc hl hx hseparator
  refine invoke_refuses hc hargs ?_
  rw [planNamed_joinStrings, Plan.joinStrings, hlist]
  show (Plan.need _ ((c.arena.view l).items.mapM _) >>= _) = _
  rw [hitems, mapM_printed?_eq_none hknown hr hnot]
  rfl

end JoinStrings

section Join

variable {second : Ref} {rest : List Ref} (hc : c.arena.Closed hs) (hh : h ∈ hs)
  (hcls : c.arena.classOf h = .ok .string) (hparts : ∀ r ∈ .obj h :: second :: rest, r.Among hs)

include hc hh hcls hparts

/-- **Arguments of which the first is a string are joined as they are printed.** -/
theorem join_gives (hp : List.Forall₂ c.arena.Prints (.obj h :: second :: rest) texts)
    (hnext : ∀ g d, Added c hs (.string texts.flatten) g d → next g d) :
    Gives c hs "join" (.obj h :: second :: rest) (.string texts.flatten) next := by
  have hclean : 0 ∉ ([] : List UInt8).intercalate texts :=
    clean_intercalate (clean_of_prints hp) (by simp)
  rw [nil_intercalate] at hclean
  refine gives_of_plan hc hparts (.bytes hclean) ?_ hnext
  rw [planNamed_join _ _ (by simp), Plan.join, container?_of_classOf (hc.tiled.holds hh) hcls,
    mapM_printed? hp fun r hr => hc.tiled.knows (hparts r hr)]
  rfl

/-- Arguments of which the first is a string are refused if one of them cannot be printed. -/
theorem join_refuses (hr : r ∈ .obj h :: second :: rest) (hnot : ¬ c.arena.Printable r) :
    Primitive.invoke "join" (.obj h :: second :: rest) c =
      .error (.failure .joinArgsNotSameType) c := by
  refine invoke_refuses hc hparts ?_
  rw [planNamed_join _ _ (by simp), Plan.join, container?_of_classOf (hc.tiled.holds hh) hcls,
    mapM_printed?_eq_none (fun r hr => hc.tiled.knows (hparts r hr)) hr hnot]
  rfl

end Join

/-! ## Both ways of joining -/

section Added

variable {x : Indexable} {g : Handle} (ha : Added c hs x g d) (hc : c.arena.Closed hs)

include ha hc

/-- What may be printed, is printed as before when something was added. -/
theorem Added.prints (hr : r.Among hs) {bytes : List UInt8} (hp : c.arena.Prints r bytes) :
    d.arena.Prints r bytes := by
  cases hp with
  | string shows => exact .string ((ha.shows_iff hc (among_obj.mp hr)).mpr shows)
  | int n => exact .int n
  | true => exact .true
  | false => exact .false

theorem Added.printsAll (hparts : ∀ r ∈ parts, r.Among hs)
    (hp : List.Forall₂ c.arena.Prints parts texts) : List.Forall₂ d.arena.Prints parts texts := by
  induction hp with
  | nil => exact .nil
  | cons hfirst _ ih =>
    obtain ⟨hr, hrest⟩ := List.forall_mem_cons.mp hparts
    exact .cons (ha.prints hc hr hfirst) (ih hrest)

theorem Added.printable_iff (hr : r.Among hs) : d.arena.Printable r ↔ c.arena.Printable r := by
  have hcls : ∀ h, r = .obj h → d.arena.classOf h = c.arena.classOf h :=
    fun h heq => ha.classOf_old hc (hr h heq)
  constructor
  · intro hp
    exact hp.congr fun h heq => (hcls h heq).symm
  · intro hp
    exact hp.congr hcls

theorem Added.separates (hseparator : ∀ r ∈ separator, r.Among hs)
    (hs' : c.arena.Separates separator between) : d.arena.Separates separator between := by
  cases hs' with
  | missing => exact .missing
  | string shows =>
    exact .string ((ha.shows_iff hc (among_obj.mp (hseparator _ rfl))).mpr shows)
  | other other =>
    refine .other fun h heq => ?_
    rw [ha.classOf_old hc (hseparator _ rfl h heq)]
    exact other h heq

end Added

end Calls

/-- If the reference names a string, it is one of `mine`. -/
def Arena.StringAmong (a : Arena) (mine : List Handle) (r : Ref) : Prop :=
  ∀ h, r = .obj h → a.classOf h = .ok .string → h ∈ mine

/-- The parts, with the separator between every two of them if there is one, are arguments for
`join`: there are two parts at least, the first one is a string, and so is the separator. -/
inductive Arena.Joinable (a : Arena) : (parts : List Ref) → (separator : Option Ref) → Prop
  | plain {h : Handle} {second : Ref} {rest : List Ref} (cls : a.classOf h = .ok .string) :
    a.Joinable (.obj h :: second :: rest) none
  | spaced {h s : Handle} {second : Ref} {rest : List Ref} (cls : a.classOf h = .ok .string)
    (separator : a.classOf s = .ok .string) :
    a.Joinable (.obj h :: second :: rest) (some (.obj s))

section Sessions

variable {c : Context} {hs mine : List Handle} {r : Ref} {parts : List Ref}
  {separator : Option Ref}

/-- A string that no edit went into shows its bytes, none of which is zero. -/
theorem StringSession.shows (hses : StringSession c hs mine) {h : Handle} (hh : h ∈ mine)
    (hcls : c.arena.classOf h = .ok .string) : ∃ bytes, c.arena.Shows h (.string bytes) := by
  have hread := Arena.stringBytes_eq (hses.keeping.tiled.holds (hses.keeping.issued hh))
  exact ⟨_, .string hcls hread (hses.clean hh hcls hread)⟩

theorem StringSession.prints (hses : StringSession c hs mine) (hr : c.arena.StringAmong mine r)
    (hprintable : c.arena.Printable r) : ∃ bytes, c.arena.Prints r bytes := by
  cases hprintable with
  | int n => exact ⟨_, .int n⟩
  | true => exact ⟨_, .true⟩
  | false => exact ⟨_, .false⟩
  | string cls =>
    obtain ⟨bytes, hshows⟩ := hses.shows (hr _ rfl cls) cls
    exact ⟨bytes, .string hshows⟩

theorem StringSession.printsAll (hses : StringSession c hs mine)
    (hparts : ∀ r ∈ parts, c.arena.StringAmong mine r)
    (hprintable : ∀ r ∈ parts, c.arena.Printable r) :
    ∃ texts, List.Forall₂ c.arena.Prints parts texts := by
  induction parts with
  | nil => exact ⟨[], .nil⟩
  | cons r rest ih =>
    obtain ⟨hr, hrest⟩ := List.forall_mem_cons.mp hparts
    obtain ⟨hfirst, hmore⟩ := List.forall_mem_cons.mp hprintable
    obtain ⟨bytes, hbytes⟩ := hses.prints hr hfirst
    obtain ⟨texts, htexts⟩ := ih hrest hmore
    exact ⟨bytes :: texts, .cons hbytes htexts⟩

theorem StringSession.separates (hses : StringSession c hs mine)
    (hseparator : ∀ r ∈ separator, c.arena.StringAmong mine r) :
    ∃ between, c.arena.Separates separator between := by
  cases separator with
  | none => exact ⟨[], .missing⟩
  | some r =>
    by_cases hstring : ∃ h, r = .obj h ∧ c.arena.classOf h = .ok .string
    · obtain ⟨h, rfl, hcls⟩ := hstring
      obtain ⟨bytes, hshows⟩ := hses.shows (hseparator _ rfl h rfl hcls) hcls
      exact ⟨bytes, .string hshows⟩
    · exact ⟨[], .other fun h heq hcls => hstring ⟨h, heq, hcls⟩⟩

end Sessions

section Joinable

variable {c : Context} {hs : List Handle} {parts : List Ref} {texts : List (List UInt8)}
  {separator : Option Ref} {between : List UInt8}

theorem among_joinArgs (hparts : ∀ r ∈ parts, r.Among hs)
    (hseparator : ∀ r ∈ separator, r.Among hs) : ∀ r ∈ joinArgs parts separator, r.Among hs := by
  intro r hr
  cases separator with
  | none => exact hparts r hr
  | some s =>
    rcases of_mem_intersperse hr with rfl | hr
    · exact hseparator r rfl
    · exact hparts r hr

theorem mem_joinArgs {r : Ref} (hr : r ∈ parts) : r ∈ joinArgs parts separator := by
  cases separator with
  | none => exact hr
  | some s => exact mem_intersperse hr

namespace Arena.Joinable

variable (hj : c.arena.Joinable parts separator)

include hj

theorem exists_args :
    ∃ h second rest, joinArgs parts separator = .obj h :: second :: rest ∧ .obj h ∈ parts ∧
      c.arena.classOf h = .ok .string := by
  cases hj with
  | plain cls => exact ⟨_, _, _, rfl, List.mem_cons_self, cls⟩
  | spaced cls _ => exact ⟨_, _, _, List.intersperse_cons_cons, List.mem_cons_self, cls⟩

/-- What is printed one after another is what is printed with separators between. -/
theorem prints (hp : List.Forall₂ c.arena.Prints parts texts)
    (hs' : c.arena.Separates separator between) :
    ∃ shown, List.Forall₂ c.arena.Prints (joinArgs parts separator) shown ∧
      shown.flatten = between.intercalate texts := by
  cases hj with
  | plain cls =>
    cases hs'
    exact ⟨texts, hp, (nil_intercalate texts).symm⟩
  | spaced cls cls' =>
    cases hs' with
    | string shows => exact ⟨_, prints_intersperse hp (.string shows), rfl⟩
    | other other => exact absurd cls' (other _ rfl)

/-- **Arguments with separators between them are joined like the items of a list.** -/
theorem gives (hc : c.arena.Closed hs) (hparts : ∀ r ∈ parts, r.Among hs)
    (hseparator : ∀ r ∈ separator, r.Among hs) (hp : List.Forall₂ c.arena.Prints parts texts)
    (hs' : c.arena.Separates separator between) :
    Gives c hs "join" (joinArgs parts separator) (.string (between.intercalate texts))
      fun _ _ => True := by
  have hargs := among_joinArgs hparts hseparator
  obtain ⟨h, second, rest, heq, hmem, hcls⟩ := hj.exists_args
  obtain ⟨shown, hshown, hjoined⟩ := hj.prints hp hs'
  rw [heq] at hargs hshown
  rw [heq, ← hjoined]
  exact join_gives hc (among_obj.mp (hparts _ hmem)) hcls hargs hshown fun _ _ _ => trivial

/-- Arguments are refused just if the items of a list are. -/
theorem refuses (hc : c.arena.Closed hs) (hparts : ∀ r ∈ parts, r.Among hs)
    (hseparator : ∀ r ∈ separator, r.Among hs) {r : Ref} (hr : r ∈ parts)
    (hnot : ¬ c.arena.Printable r) :
    Primitive.invoke "join" (joinArgs parts separator) c =
      .error (.failure .joinArgsNotSameType) c := by
  have hargs := among_joinArgs hparts hseparator
  have hin : r ∈ joinArgs parts separator := mem_joinArgs hr
  obtain ⟨h, second, rest, heq, hmem, hcls⟩ := hj.exists_args
  rw [heq] at hargs hin ⊢
  exact join_refuses hc (among_obj.mp (hparts _ hmem)) hcls hargs hin hnot

end Arena.Joinable

end Joinable

/-- **The two ways of joining agree**, for any row of parts and any separator. If each part is an
integer, a truth value or a string, `joinStrings` gives a string of what they are printed as, in
their order and with the bytes of the separator between every two. If some part is anything else,
it refuses them. `join` gives the same, or refuses the parts as well, when it is passed the parts
with the separator between every two, or the parts alone when there is none.

Strings are made from bytes or by calls here, and the program has not written into them. A separator
that is missing or no string stands for no bytes. Each call that gives a string takes up what it
needs, and is refused just if there is no room for it. -/
theorem joins_agree {c : Context} {hs mine : List Handle} (hses : StringSession c hs mine)
    {parts : List Ref}
    (hparts : ∀ r ∈ parts, r.Among hs ∧ r.Canonical ∧ c.arena.StringAmong mine r)
    {separator : Option Ref}
    (hseparator : ∀ r ∈ separator, r.Among hs ∧ c.arena.StringAmong mine r) :
    ∃ between, c.arena.Separates separator between ∧
      ((∀ r ∈ parts, c.arena.Printable r) →
        ∃ texts, List.Forall₂ c.arena.Prints parts texts ∧
          (Gives c hs "makeList" parts (.list parts) fun l d =>
            Gives d (hs ++ [l]) "joinStrings" (.obj l :: separator.toList)
              (.string (between.intercalate texts)) fun _ _ => True) ∧
          (c.arena.Joinable parts separator →
            Gives c hs "join" (joinArgs parts separator) (.string (between.intercalate texts))
              fun _ _ => True)) ∧
      ∀ r ∈ parts, ¬ c.arena.Printable r →
        (Gives c hs "makeList" parts (.list parts) fun l d =>
          Primitive.invoke "joinStrings" (.obj l :: separator.toList) d =
            .error (.failure .needsString) d) ∧
        (c.arena.Joinable parts separator →
          Primitive.invoke "join" (joinArgs parts separator) c =
            .error (.failure .joinArgsNotSameType) c) := by
  have hc := hses.closed
  have hamong : ∀ r ∈ parts, r.Among hs := fun r hr => (hparts r hr).1
  have hcanonical : ∀ r ∈ parts, r.Canonical := fun r hr => (hparts r hr).2.1
  have hbetween : ∀ r ∈ separator, r.Among hs := fun r hr => (hseparator r hr).1
  obtain ⟨between, hs'⟩ := hses.separates fun r hr => (hseparator r hr).2
  refine ⟨between, hs', fun hprintable => ?_, fun r hr hnot => ⟨?_, fun hj => ?_⟩⟩
  · obtain ⟨texts, hp⟩ := hses.printsAll (fun r hr => (hparts r hr).2.2) hprintable
    refine ⟨texts, hp, ?_, fun hj => hj.gives hc hamong hbetween hp hs'⟩
    refine makeList_gives hc hamong hcanonical fun l d hadded => ?_
    have hold : ∀ r ∈ separator, r.Among (hs ++ [l]) :=
      fun r hr => hadded.among_old (hbetween r hr)
    exact joinStrings_gives hadded.closed hadded.mem_new hadded.shows hold
      (hadded.printsAll hc hamong hp) (hadded.separates hc hbetween hs') fun _ _ _ => trivial
  · refine makeList_gives hc hamong hcanonical fun l d hadded => ?_
    have hold : ∀ r ∈ separator, r.Among (hs ++ [l]) :=
      fun r hr => hadded.among_old (hbetween r hr)
    exact joinStrings_refuses hadded.closed hadded.mem_new hadded.shows hold hr
      (mt (hadded.printable_iff hc (hamong r hr)).mp hnot)
  · exact hj.refuses hc hamong hbetween hr hnot

/-- Three parts with a comma between them, and two of which one is nothing that can be printed. -/
theorem parts_with_commas :
    ∃ c, StringSession c [⟨0⟩, ⟨2⟩] [⟨0⟩, ⟨2⟩] ∧
      Gives c [⟨0⟩, ⟨2⟩] "join" [.obj ⟨0⟩, .obj ⟨2⟩, .int (-5), .obj ⟨2⟩, .true]
        (.string (Utf8.encode "ab,-5,true")) (fun _ _ => True) ∧
      Primitive.invoke "join" [.obj ⟨0⟩, .obj ⟨2⟩, .nil] c =
        .error (.failure .joinArgsNotSameType) c := by
  obtain ⟨c, hses, hcls, hcls', htext, hcomma⟩ :
      ∃ c, StringSession c [⟨0⟩, ⟨2⟩] [⟨0⟩, ⟨2⟩] ∧ c.arena.classOf ⟨0⟩ = .ok .string ∧
        c.arena.classOf ⟨2⟩ = .ok .string ∧ c.arena.stringBytes ⟨0⟩ = .ok [97, 98] ∧
        c.arena.stringBytes ⟨2⟩ = .ok [44] := by
    have h0 : StringSession _ _ _ := Course.start 64 .panic (Source.ofList [])
    have h1 := Course.step (.make (.string [97, 98])) h0 trivial trivial rfl
    have h2 := Course.step (.make (.string [44])) h1 trivial trivial rfl
    exact ⟨_, h2, rfl, rfl, rfl, rfl⟩
  have hseparator : ∀ r ∈ some (Ref.obj ⟨2⟩), r.Among [⟨0⟩, ⟨2⟩] ∧
      c.arena.StringAmong [⟨0⟩, ⟨2⟩] r := by
    rintro r ⟨⟩
    refine ⟨among_obj.mpr (by decide), ?_⟩
    rintro h ⟨⟩ _
    decide
  refine ⟨c, hses, ?_, ?_⟩
  · have hparts : ∀ r ∈ [Ref.obj ⟨0⟩, .int (-5), .true], r.Among [⟨0⟩, ⟨2⟩] ∧ r.Canonical ∧
        c.arena.StringAmong [⟨0⟩, ⟨2⟩] r := by
      simp [Ref.Among, Ref.Canonical, Arena.StringAmong]
    obtain ⟨between, hs', hall, _⟩ := joins_agree hses hparts hseparator
    obtain ⟨texts, hp, _, hjoin⟩ := hall (by simpa using ⟨.string hcls, .int _, .true⟩)
    have hgives := hjoin (.spaced hcls hcls')
    -- what the strings hold is known
    cases hs' with
    | other hother => exact absurd hcls' (hother _ rfl)
    | string shows =>
      cases shows.bytes_eq hcomma
      obtain _ | ⟨hfirst, _ | ⟨⟨⟩, _ | ⟨⟨⟩, ⟨⟩⟩⟩⟩ := hp
      cases hfirst with
      | string shows =>
        cases shows.bytes_eq htext
        have hjoined : [44].intercalate [[97, 98], Utf8.encode (Numeral.signed (-5)),
            Utf8.encode "true"] = Utf8.encode "ab,-5,true" := by decide +kernel
        rwa [hjoined] at hgives
  · have hparts : ∀ r ∈ [Ref.obj ⟨0⟩, .nil], r.Among [⟨0⟩, ⟨2⟩] ∧ r.Canonical ∧
        c.arena.StringAmong [⟨0⟩, ⟨2⟩] r := by
      simp [Ref.Among, Ref.Canonical, Arena.StringAmong]
    obtain ⟨between, _, _, hrefuse⟩ := joins_agree hses hparts hseparator
    have hnot : ¬ c.arena.Printable .nil := by rintro ⟨⟩
    exact (hrefuse .nil (by simp) hnot).2 (.spaced hcls hcls')

end ObjectMemory
