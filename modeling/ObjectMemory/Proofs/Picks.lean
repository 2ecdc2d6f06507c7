import ObjectMemory.Proofs.Blindness

/-!
# Random picks

A call of `at` with the string "random" and a container that has items is a pick
(`Arena.Picks`). Any other call is blind (`invoke_blindOn`). A pick draws one place from the source
and then is the call that names this place (`invoke_picks`), so that it gives what is there or
lacks room for it (`picks_ends`).
-/

namespace ObjectMemory

open PrimM

/-! ## What a pick is -/

/-- The number of items of a container. -/
def Container.size (a : Arena) : Container → Except Stop Nat
  | .list h => ListObject.count a h
  | .string h => StringObject.length a h
  | .byteArray h => a.byteArrayLength h

/-- The reference is the string "random". -/
def Arena.SpellsRandom (a : Arena) (r : Ref) : Prop :=
  ∃ g, r = .obj g ∧ a.classOf g = .ok .string ∧ a.stringBytes g = .ok (Utf8.encode "random")

/-- The call picks one of `n` items at random: it is `at` with the string "random" and with a
container of `n` items, of which there are some. -/
structure Arena.Picks (a : Arena) (name : String) (args : List Ref) (n : Nat) : Prop where
  name : name = "at"
  selector : ∃ r, args[0]? = some r ∧ a.SpellsRandom r
  container : ∃ r target, args[1]? = some r ∧ Container.classify a r = .ok (some target) ∧
    target.size a = .ok n
  pos : 0 < n

section Parsing

variable {a : Arena} {r : Ref}

theorem read_bind_eq_ok {α β : Type} {x : Except Stop α} {next : α → Except Stop β} {y : β} :
    (x >>= next) = .ok y ↔ ∃ v, x = .ok v ∧ next v = .ok y := by
  cases x <;> simp [bind, Except.bind]

theorem read_map_eq_ok {α β : Type} {x : Except Stop α} {f : α → β} {y : β} :
    x.map f = .ok y ↔ ∃ v, x = .ok v ∧ f v = y := by
  cases x <;> simp [Except.map]

theorem length_readRange {α : Type} {read : Nat → Except Stop α} {start n : Nat} {xs : List α}
    (hread : Arena.readRange read start n = .ok xs) : xs.length = n := by
  induction n generalizing start xs with
  | zero =>
    cases hread
    rfl
  | succ n ih =>
    rw [Arena.readRange_succ] at hread
    obtain ⟨x, _, hrest⟩ := read_bind_eq_ok.mp hread
    obtain ⟨ys, hys, heq⟩ := read_bind_eq_ok.mp hrest
    cases heq
    simp [ih hys]

/-- A string whose bytes are read is as long as these. -/
theorem stringLength_of_stringBytes {g : Handle} {bytes : List UInt8}
    (hbytes : a.stringBytes g = .ok bytes) : a.stringLength g = .ok bytes.length := by
  obtain ⟨n, hlen, hread⟩ := read_bind_eq_ok.mp hbytes
  unfold Arena.readBytes at hread
  split at hread
  · rw [hlen, length_readRange hread]
  · cases hread

theorem stringMatches_of_stringBytes {g : Handle} {text : List UInt8}
    (hcls : a.classOf g = .ok .string) (htext : a.stringBytes g = .ok text)
    (bytes : List UInt8) : a.stringMatches (.obj g) bytes = .ok (text == bytes) := by
  have hstring : a.asString (.obj g) = .ok (some g) := by
    rw [Arena.asString, hcls]
    rfl
  rw [Arena.stringMatches, hstring]
  show (do if (← a.stringLength g) = bytes.length then _ else _) = _
  rw [stringLength_of_stringBytes htext]
  show (if text.length = bytes.length then _ else _) = _
  by_cases hlen : text.length = bytes.length
  · rw [if_pos hlen, htext]
    rfl
  · have hne : text ≠ bytes := fun heq => hlen (congrArg List.length heq)
    rw [if_neg hlen, beq_eq_false_iff_ne.mpr hne]
    rfl

theorem exists_of_asString {g : Handle} (hstring : a.asString r = .ok (some g)) :
    r = .obj g ∧ a.classOf g = .ok .string := by
  cases r with
  | obj h =>
    obtain ⟨cls, hcls, heq⟩ := read_map_eq_ok.mp hstring
    split at heq
    · next hc =>
      cases heq
      exact ⟨rfl, hc ▸ hcls⟩
    · cases heq
  | _ => cases hstring

theorem exists_of_stringMatches {bytes : List UInt8} (hmatch : a.stringMatches r bytes = .ok true) :
    ∃ g, r = .obj g ∧ a.classOf g = .ok .string ∧ a.stringBytes g = .ok bytes := by
  obtain ⟨found, hfound, hrest⟩ := read_bind_eq_ok.mp hmatch
  cases found with
  | none => cases hrest
  | some g =>
    obtain ⟨n, _, hrest⟩ := read_bind_eq_ok.mp hrest
    split at hrest
    · obtain ⟨text, htext, heq⟩ := read_bind_eq_ok.mp hrest
      have hsame : text = bytes := eq_of_beq (Except.ok.inj heq)
      obtain ⟨rfl, hcls⟩ := exists_of_asString hfound
      exact ⟨g, rfl, hcls, hsame ▸ htext⟩
    · cases hrest

/-- **A selector is a random one exactly if it spells `random`.** -/
theorem parse_random : Selector.parse a r = .ok (some .random) ↔ a.SpellsRandom r := by
  constructor
  · intro hparse
    have hmatches : ∃ last, a.stringMatches r (Utf8.encode "last") = .ok last ∧
        (if last then .ok (some .last) else do
          if ← a.stringMatches r (Utf8.encode "random") then return some .random
          if ← a.stringMatches r (Utf8.encode "all") then return some .all
          return none) = (.ok (some .random) : Except Stop (Option Selector)) := by
      cases r with
      | int i => cases hparse
      | _ => exact read_bind_eq_ok.mp hparse
    obtain ⟨last, _, hrest⟩ := hmatches
    cases last with
    | true => cases hrest
    | false =>
      obtain ⟨random, hrandom, hrest⟩ := read_bind_eq_ok.mp hrest
      cases random with
      | true => exact exists_of_stringMatches hrandom
      | false =>
        obtain ⟨all, _, hrest⟩ := read_bind_eq_ok.mp hrest
        cases all <;> cases hrest
  · rintro ⟨g, rfl, hcls, htext⟩
    have hlast := stringMatches_of_stringBytes hcls htext (Utf8.encode "last")
    have hrandom := stringMatches_of_stringBytes hcls htext (Utf8.encode "random")
    simp only [Selector.parse, hlast, hrandom]
    rfl

end Parsing

/-! ## Items -/

/-- The item of a container that a selector names. -/
def Container.item : Container → Selector → PrimM Ref
  | .list h, place => ListObject.get h place
  | .string h, place => StringObject.get h place
  | .byteArray h, place => ByteArrayObject.get h place

theorem Container.get_eq (container selector : Ref) :
    Container.get container selector = (do
      let target ← find .needsList (classify · container)
      let place ← find .needsIntegerIndex (Selector.parse · selector)
      target.item place) := by
  unfold Container.get
  congr 1
  funext target
  congr 1
  funext place
  cases target <;> rfl

section Items

variable {a : Arena} {target : Container} {n : Nat} {s : Source}

/-- **An item is looked up by its place among the items.** The look-up needs no source. -/
theorem item_of_size (hsize : target.size a = .ok n) :
    ∃ k : Nat → PrimM Ref, (∀ i, (k i).Blind) ∧
      ∀ place s, target.item place ⟨a, s⟩ = (place.resolve n >>= k) ⟨a, s⟩ := by
  cases target with
  | list h => exact ⟨_, fun i => blind_look _, fun place s => look_bind (c := ⟨a, s⟩) hsize _⟩
  | string h =>
    obtain ⟨bytes, hbytes, rfl⟩ := read_map_eq_ok.mp hsize
    exact ⟨_, fun i => blind_made _, fun place s => look_bind (c := ⟨a, s⟩) hbytes _⟩
  | byteArray h =>
    exact ⟨_, fun i => (blind_look _).bind fun b => blind_pure _,
      fun place s => look_bind (c := ⟨a, s⟩) hsize _⟩

/-- The number of items is looked up before anything is picked. -/
theorem item_of_error {stop : Stop} (hsize : target.size a = .error stop) (place : Selector) :
    target.item place ⟨a, s⟩ = .error (.stop stop) ⟨a, s⟩ := by
  have hlook {α : Type} {read : Arena → Except Stop α} {k : α → PrimM Ref}
      (hread : read a = .error stop) : (look read >>= k) ⟨a, s⟩ = .error (.stop stop) ⟨a, s⟩ := by
    refine bind_of_error ?_
    simp only [look, hread]
  cases target with
  | list h => exact hlook hsize
  | byteArray h => exact hlook hsize
  | string h =>
    refine hlook ?_
    have hlength : (a.stringBytes h).map CodePoints.count = .error stop := hsize
    cases hbytes : a.stringBytes h with
    | ok bytes =>
      rw [hbytes] at hlength
      cases hlength
    | error stop' =>
      rw [hbytes] at hlength
      cases hlength
      rfl

theorem item_blindOn {place : Selector}
    (hplace : place = .random → ∀ n, target.size a = .ok n → n = 0) :
    (target.item place).BlindOn a := by
  cases hsize : target.size a with
  | error stop => exact Or.inr ⟨_, a, fun s => item_of_error hsize place⟩
  | ok n =>
    obtain ⟨k, hk, hitem⟩ := item_of_size hsize
    have hresolve : (place.resolve n).Blind := resolve_blind fun hrandom => hplace hrandom n hsize
    have hblind := (hresolve.bind hk) a
    unfold BlindOn at hblind ⊢
    simpa only [hitem] using hblind

/-- **An item that is picked at random is the one at the place that the source gives.** -/
theorem item_random (hsize : target.size a = .ok n) (hn : 0 < n) (s : Source) :
    target.item .random ⟨a, s⟩ = target.item (.index (s.pick n).1) ⟨a, (s.pick n).2⟩ := by
  obtain ⟨k, _, hitem⟩ := item_of_size hsize
  obtain ⟨hlow, hhigh⟩ := s.pick_bounds hn
  have hrandom : Selector.random.resolve n ⟨a, s⟩ = .ok (s.pick n).1 ⟨a, (s.pick n).2⟩ := by
    simp only [Selector.resolve, if_pos hn, PrimM.pick, if_neg (Nat.ne_of_gt hn)]
  have hindex : (Selector.index (s.pick n).1).resolve n ⟨a, (s.pick n).2⟩ =
      .ok (s.pick n).1 ⟨a, (s.pick n).2⟩ := by
    simp only [Selector.resolve, Selector.checkPlace]
    rw [if_pos (by omega)]
    rfl
  rw [hitem, hitem, bind_of_ok hrandom, bind_of_ok hindex]

end Items

/-! ## Calls -/

section Calls

variable {a : Arena} {name : String} {args : List Ref} {n : Nat}

/-- A call of `at` takes its selector and its container from the arguments. -/
theorem invoke_at {selector container : Ref} (hselector : args[0]? = some selector)
    (hcontainer : args[1]? = some container) :
    Primitive.invoke "at" args = Container.get container selector := by
  have henough : Primitive.requireArguments args 2 = .ok () := by
    obtain ⟨hlt, _⟩ := List.getElem?_eq_some_iff.mp hcontainer
    exact if_neg (by omega)
  have hname : Primitive.ofName? "at" = some .getItem := by decide
  simp only [Primitive.invoke, hname, Primitive.run, Primitive.arity, henough, Primitive.act,
    Primitive.argument, hselector, hcontainer]
  rfl

theorem find_bind_blindOn {α : Type} {f : Failure} {read : Arena → Except Stop (Option α)}
    {next : α → PrimM Ref} (hnext : ∀ x, read a = .ok (some x) → (next x).BlindOn a) :
    BlindOn (find f read >>= next) a := by
  cases hread : read a with
  | error stop =>
    refine Or.inr ⟨.stop stop, a, fun s => bind_of_error ?_⟩
    refine bind_of_error ?_
    simp only [look, hread]
  | ok found =>
    cases found with
    | none => exact Or.inr ⟨_, a, fun s => bind_of_error (find_none f hread)⟩
    | some x =>
      have hx := hnext x hread
      unfold BlindOn at hx ⊢
      have hfind (s : Source) : (find f read >>= next) ⟨a, s⟩ = next x ⟨a, s⟩ :=
        bind_of_ok (find_some (c := ⟨a, s⟩) f hread)
      simpa only [hfind] using hx

theorem getItem_blindOn {selector container : Ref}
    (hnone : a.SpellsRandom selector → ∀ target n,
      Container.classify a container = .ok (some target) → target.size a = .ok n → n = 0) :
    (Container.get container selector).BlindOn a := by
  rw [Container.get_eq]
  refine find_bind_blindOn fun target htarget => find_bind_blindOn fun place hplace => ?_
  refine item_blindOn ?_
  rintro rfl n hsize
  exact hnone (parse_random.mp hplace) target n htarget hsize

/-- A primitive of two arguments. -/
theorem blind_arguments {next : Ref → Ref → PrimM Ref} (hnext : ∀ x y, (next x y).Blind)
    (args : List Ref) (i j : Nat) :
    Blind (do next (← Primitive.argument args i) (← Primitive.argument args j)) :=
  (blind_argument args i).bind fun x => (blind_argument args j).bind fun y => hnext x y

/-- Every primitive but `at` is blind, whatever its arguments are. -/
theorem act_blind {p : Primitive} (hp : p ≠ .getItem) (args : List Ref) : (p.act args).Blind := by
  cases p with
  | getItem => exact absurd rfl hp
  | makeList => exact blind_made _
  | newList => exact blind_made _
  | addLast => exact blind_arguments addLast_blind args 1 0
  | delete => exact blind_arguments delete_blind args 1 0
  | join => exact join_blind args
  | copyFromTo => exact blind_arguments (fun x y => copyFromTo_blind x y args[2]?) args 0 1
  | findInString => exact blind_arguments (fun x y => search_blind x y args[2]?) args 0 1
  | joinStrings => exact (blind_argument args 0).bind fun list => joinItems_blind list args[1]?
  | freeMemory => exact blind_look fun a => .ok (Ref.ofCount a.freeWords)
  | putItem =>
    refine (blind_argument args 1).bind fun container => ?_
    exact blind_arguments (fun x y => putItem_blind container x y) args 0 2
  | fill => exact blind_arguments fill_blind args 0 1
  | length => exact (blind_argument args 0).bind length_blind

/-- **A call that picks nothing is blind.** -/
theorem invoke_blindOn (hnone : ∀ n, ¬ a.Picks name args n) :
    (Primitive.invoke name args).BlindOn a := by
  by_cases hat : name = "at" ∧ 2 ≤ args.length
  · obtain ⟨rfl, hlen⟩ := hat
    have hselector : args[0]? = some args[0] := List.getElem?_eq_getElem (by omega)
    have hcontainer : args[1]? = some args[1] := List.getElem?_eq_getElem (by omega)
    rw [invoke_at hselector hcontainer]
    refine getItem_blindOn fun hrandom target n htarget hsize => ?_
    refine Nat.eq_zero_of_not_pos fun hpos => hnone n ⟨rfl, ?_, ?_, hpos⟩
    · exact ⟨_, hselector, hrandom⟩
    · exact ⟨_, target, hcontainer, htarget, hsize⟩
  · unfold Primitive.invoke
    cases hname : Primitive.ofName? name with
    | none => exact blind_refuse _ a
    | some p =>
      dsimp only [Primitive.run]
      cases hargs : Primitive.requireArguments args p.arity with
      | error f => exact blind_refuse f a
      | ok u =>
        refine act_blind ?_ args a
        rintro rfl
        -- with this primitive there would be too few arguments
        have hlt : args.length < 2 :=
          Nat.not_le.mp fun hle => hat ⟨(name_of_ofName? hname).symm, hle⟩
        have hfew : Primitive.requireArguments args 2 = .error .notEnoughArguments := if_pos hlt
        have hsome : Primitive.requireArguments args 2 = .ok u := hargs
        rw [hfew] at hsome
        cases hsome

theorem getItem_eq {container selector : Ref} {target : Container} {place : Selector}
    (htarget : Container.classify a container = .ok (some target))
    (hplace : Selector.parse a selector = .ok (some place)) (s : Source) :
    Container.get container selector ⟨a, s⟩ = target.item place ⟨a, s⟩ := by
  rw [Container.get_eq, bind_of_ok (find_some (c := ⟨a, s⟩) _ htarget),
    bind_of_ok (find_some (c := ⟨a, s⟩) _ hplace)]

/-- **A pick draws once**, and comes to the item at the place that was drawn. -/
theorem invoke_picked (hp : a.Picks name args n) (s : Source) :
    ∃ container target, args[1]? = some container ∧
      Container.classify a container = .ok (some target) ∧ target.size a = .ok n ∧
      Primitive.invoke name args ⟨a, s⟩ =
        target.item (.index (s.pick n).1) ⟨a, (s.pick n).2⟩ := by
  obtain ⟨rfl, ⟨selector, hselector, hrandom⟩, ⟨container, target, hcontainer, htarget, hsize⟩,
    hpos⟩ := hp
  refine ⟨container, target, hcontainer, htarget, hsize, ?_⟩
  rw [invoke_at hselector hcontainer, getItem_eq htarget (parse_random.mpr hrandom),
    item_random hsize hpos]

/-- **A pick is the call that names the place**, with what is left of the source. -/
theorem invoke_picks (hp : a.Picks name args n) (s : Source) :
    Primitive.invoke name args ⟨a, s⟩ =
      Primitive.invoke name (args.set 0 (.int (s.pick n).1)) ⟨a, (s.pick n).2⟩ := by
  obtain ⟨container, target, hcontainer, htarget, _, hrun⟩ := invoke_picked hp s
  obtain ⟨rfl, ⟨selector, hselector, _⟩, _⟩ := hp
  have hplace : (args.set 0 (.int (s.pick n).1))[0]? = some (.int (s.pick n).1) := by
    obtain ⟨hlt, _⟩ := List.getElem?_eq_some_iff.mp hselector
    exact List.getElem?_set_self hlt
  have hsame : (args.set 0 (.int (s.pick n).1))[1]? = some container := by
    rw [List.getElem?_set_ne (by decide), hcontainer]
  rw [hrun, invoke_at hplace hsame, getItem_eq htarget rfl]

/-- A place that is named is no pick. -/
theorem not_picks_int (i : Int) (m : Nat) : ¬ a.Picks name (args.set 0 (.int i)) m := by
  rintro ⟨_, ⟨selector, hselector, g, rfl, _⟩, _⟩
  cases args with
  | nil => cases hselector
  | cons r rest => cases hselector

end Calls

/-! ## How picks end -/

section Ends

variable {a : Arena} {h : Handle} {n i : Nat} {t : Source}

/-- How a pick ends on the arena `a` that leaves the source `t`: with a value, or for want of
room. -/
def PickEnds (a : Arena) (t : Source) (outcome : EStateM.Result Refusal Context Ref) : Prop :=
  (∃ r b, outcome = .ok r ⟨b, t⟩) ∨
    ∃ words, ¬ a.Fits words ∧
      outcome = .error (.stop (a.exhaustion words)) ⟨a.refused words, t⟩

theorem item_list (hh : a.Holds h) (hsize : (Container.list h).size a = .ok n)
    (hi : 1 ≤ i ∧ i ≤ n) : ∃ r, (Container.list h).item (.index i) ⟨a, t⟩ = .ok r ⟨a, t⟩ := by
  have hcount : (a.view h).count = n :=
    Except.ok.inj ((ListObject.count_eq hh).symm.trans hsize)
  have hget := listGet_carries (c := ⟨a, t⟩) hh (.index i)
  rw [hcount, Plan.place_index hi] at hget
  exact ⟨_, carries_effect.mp hget⟩

theorem item_byteArray (hh : a.Holds h) (hsize : (Container.byteArray h).size a = .ok n)
    (hi : 1 ≤ i ∧ i ≤ n) :
    ∃ r, (Container.byteArray h).item (.index i) ⟨a, t⟩ = .ok r ⟨a, t⟩ := by
  have hlength : (a.view h).bytes.length = n :=
    Except.ok.inj ((Arena.byteArrayLength_eq hh).symm.trans hsize)
  have hget := byteArrayGet_carries (c := ⟨a, t⟩) hh (.index i)
  rw [hlength, Plan.place_index hi] at hget
  exact ⟨_, carries_effect.mp hget⟩

/-- A code point is a new string, for which there may be no room. -/
theorem item_string (hh : a.Holds h) (hsize : (Container.string h).size a = .ok n)
    (hi : 1 ≤ i ∧ i ≤ n) : PickEnds a t ((Container.string h).item (.index i) ⟨a, t⟩) := by
  have hcount : CodePoints.count (a.view h).text = n :=
    Except.ok.inj ((StringObject.length_eq hh).symm.trans hsize)
  have hget := stringGet_carries (c := ⟨a, t⟩) hh (.index i)
  rw [hcount, Plan.place_index hi] at hget
  have hmade := carries_effect.mp hget
  simp only [Effect.Performed] at hmade
  split at hmade
  · obtain ⟨b, hrun, _⟩ := hmade
    exact Or.inl ⟨_, b, hrun⟩
  · next hfull => exact Or.inr ⟨_, hfull, hmade⟩

/-- **A pick gives a value or lacks room.** From a list or a byte array it gives what is there. -/
theorem picks_ends {name : String} {args : List Ref} {hs : List Handle} (ht : a.Tiled hs)
    (hargs : ∀ r ∈ args, r.Among hs) (hp : a.Picks name args n) (s : Source) :
    PickEnds a (s.pick n).2 (Primitive.invoke name args ⟨a, s⟩) ∧
      ∀ h, args[1]? = some (.obj h) →
        (a.classOf h = .ok .list ∨ a.classOf h = .ok .byteArray) →
        ∃ r, Primitive.invoke name args ⟨a, s⟩ = .ok r ⟨a, (s.pick n).2⟩ := by
  obtain ⟨container, target, hcontainer, htarget, hsize, hrun⟩ := invoke_picked hp s
  have hplace := s.pick_bounds hp.pos
  have hknows : a.Knows container := ht.knows (hargs _ (List.mem_of_getElem? hcontainer))
  have hview : a.view.container? container = some target :=
    Except.ok.inj ((Container.classify_eq hknows).symm.trans htarget)
  obtain ⟨h, rfl, hkind⟩ := View.container?_eq_some.mp hview
  have hh : a.Holds h := hknows h rfl
  rw [hrun]
  rcases hkind with ⟨rfl, hcls⟩ | ⟨rfl, hcls⟩ | ⟨rfl, hcls⟩
  · obtain ⟨r, hitem⟩ := item_list (t := (s.pick n).2) hh hsize hplace
    exact ⟨Or.inl ⟨r, a, hitem⟩, fun _ _ _ => ⟨r, hitem⟩⟩
  · refine ⟨item_string hh hsize hplace, fun g hg hclass => ?_⟩
    rw [hcontainer] at hg
    cases hg
    rw [Arena.classOf_eq hh, hcls] at hclass
    rcases hclass with hclass | hclass <;> cases hclass
  · obtain ⟨r, hitem⟩ := item_byteArray (t := (s.pick n).2) hh hsize hplace
    exact ⟨Or.inl ⟨r, a, hitem⟩, fun _ _ _ => ⟨r, hitem⟩⟩

end Ends

end ObjectMemory
