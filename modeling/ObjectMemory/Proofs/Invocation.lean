import ObjectMemory.Proofs.Carrying

/-!
# What the primitives do

One statement for each primitive: it carries out its plan, if the arguments are known to the
arena. Together they say it of every call by name (`invoke_carries`).
-/

namespace ObjectMemory

open Arena (Knows holds_of_named?)
open PrimM (refuse find onArena)

variable {c : Context} {r : Ref} {h : Handle}

/-! ## Lists -/

theorem makeList_carries (items : List Ref) (c : Context) :
    Carries (do return .obj (← onArena (ListObject.ofItems items))) (Plan.makeList items) c :=
  carries_made (ListObject.ofItems_makes items c.arena)

theorem newList_carries (n : Nat) (c : Context) :
    Carries (do return .obj (← onArena (ListObject.allotEmpty n))) (Plan.newList n) c :=
  carries_made (ListObject.allotEmpty_makes n c.arena)

/-- A list that a known reference names is held. -/
theorem holds_of_list? {list : Ref} (hk : c.arena.Knows list)
    (hs : c.arena.view.list? list = some h) : c.arena.Holds h ∧ (c.arena.view h).cls = .list :=
  ⟨holds_of_named? hk hs, (View.named?_eq_some.mp hs).2⟩

/-- The item goes into the list, or into a larger copy if the list is full. -/
theorem addLast_carries {list : Ref} (hk : c.arena.Knows list) (item : Ref) :
    Carries (ListObject.addLast list item) (Plan.addLast c.arena.view list item) c := by
  refine carries_find (ListObject.asList_eq hk) fun h hs => ?_
  obtain ⟨hh, hcls⟩ := holds_of_list? hk hs
  refine carries_look (ListObject.count_eq hh) (carries_look (ListObject.capacity_eq hh) ?_)
  have hcount := (c.arena.view h).count_le
  by_cases hfull : (c.arena.view h).capacity ≤ (c.arena.view h).count
  · simp only [if_pos hfull, onArena_bind, onArena_then]
    exact carries_made (ListObject.enlargeAppend_makes hh hcls item)
  · simp only [if_neg hfull, onArena_bind]
    refine carries_stored (ListObject.append_stored hh ?_ item)
    unfold Content.capacity at hfull
    omega

/-- A removal moves the items behind the place down, and blanks the last one. -/
theorem delete_carries {list selector : Ref} (hk : c.arena.Knows list)
    (hs : c.arena.Knows selector) :
    Carries (ListObject.delete list selector) (Plan.delete c.arena.view list selector) c := by
  refine carries_find (ListObject.asList_eq hk) fun h hlist => ?_
  have hh := holds_of_named? hk hlist
  refine carries_look (ListObject.count_eq hh) (carries_look (Selector.parse_eq hs) ?_)
  have hcount := (c.arena.view h).count_le
  unfold Content.capacity at hcount
  cases c.arena.view.selector? selector with
  | none => exact carries_refuse _ c
  | some s =>
    cases s with
    | all =>
      exact carries_look (Arena.payloadWords_eq hh)
        (carries_stored (ListObject.clear_stored hh))
    | random => exact carries_refuse _ c
    | last =>
      dsimp only
      by_cases hpos : 0 < (c.arena.view h).count
      · simp only [if_pos hpos, onArena_bind, Content.without_last]
        exact carries_stored (ListObject.shrink_stored hh (by omega))
      · simp only [if_neg hpos]
        exact carries_give _ c
    | index i =>
      dsimp only
      by_cases hi : 1 ≤ i ∧ i ≤ (c.arena.view h).count
      · simp only [if_pos hi]
        exact carries_stored (ListObject.deleteItem_stored hh (by omega) (by omega))
      · simp only [if_neg hi]
        exact carries_refuse _ c

/-! ## Places -/

/-- A selector is resolved as the plan finds its place, with the same draws. -/
theorem resolve_decides (s : Selector) (n : Nat) (c : Context) :
    Decides (s.resolve n) (Plan.place s n) c := by
  cases s with
  | index i =>
    simp only [Selector.resolve, Selector.checkPlace, Plan.place]
    split
    · exact decides_pure _ c
    · exact decides_refuse _ c
  | last =>
    simp only [Selector.resolve, Selector.checkPlace, Plan.place]
    by_cases hn : 0 < n
    · rw [if_pos hn, if_pos (by omega)]
      exact decides_pure n c
    · rw [if_neg hn, if_neg (by omega)]
      exact decides_refuse _ c
  | random =>
    simp only [Selector.resolve, Plan.place]
    by_cases hn : 0 < n
    · -- there is a place to pick from, so the pick is not refused
      rw [if_pos hn, if_pos hn]
      obtain ⟨a, t⟩ := c
      exact if_neg (Nat.ne_of_gt hn)
    · rw [if_neg hn, if_neg hn]
      exact decides_refuse _ c
  | all => exact decides_refuse _ c

/-- **A program that needs a place goes on with one that there is**, or refuses. -/
theorem carries_place {s : Selector} {n : Nat} {k : Nat → PrimM Ref} {next : Nat → Plan Effect}
    (hk : ∀ i t, 1 ≤ i ∧ i ≤ n → Carries (k i) (next i) ⟨c.arena, t⟩) :
    Carries (s.resolve n >>= k) (Plan.place s n >>= next) c :=
  (resolve_decides s n c).carries fun i t hrun => hk i t (Plan.place_bounds hrun)

/-! ## Items -/

theorem listGet_carries (hh : c.arena.Holds h) (s : Selector) :
    Carries (ListObject.get h s)
      (do
        let i ← Plan.place s (c.arena.view h).count
        Plan.give (.give ((c.arena.view h).field i))) c := by
  refine carries_look (ListObject.count_eq hh) (carries_place fun i t hi => ?_)
  exact carries_seen (Arena.field_eq hh ((c.arena.view h).place_lt hi.1 hi.2))

/-- A string is made from a part of the bytes, cut at code points. -/
theorem newSlice_makes (bytes : List UInt8) (first last : Nat) (a : Arena) :
    Arena.Makes (StringObject.newSlice bytes first last) .fresh
      (.ofText (CodePoints.slice bytes first last)) a := by
  rw [StringObject.newSlice, CodePoints.slice?_eq_some]
  exact Arena.newString_makes _ a

theorem stringGet_carries (hh : c.arena.Holds h) (s : Selector) :
    Carries (StringObject.get h s)
      (do
        let i ← Plan.place s (CodePoints.count (c.arena.view h).text)
        Plan.give (.make .fresh (.ofText (CodePoints.slice (c.arena.view h).text i i)))) c := by
  refine carries_look (Arena.stringBytes_eq hh) (carries_place fun i t hi => ?_)
  exact carries_made (newSlice_makes _ i i c.arena)

theorem byteArrayGet_carries (hh : c.arena.Holds h) (s : Selector) :
    Carries (ByteArrayObject.get h s)
      (do
        let i ← Plan.place s (c.arena.view h).bytes.length
        Plan.give (.give (.int ((c.arena.view h).bytes.getD (i - 1) 0).toNat))) c := by
  refine carries_look (Arena.byteArrayLength_eq hh) (carries_place fun i t hi => ?_)
  exact carries_look (Arena.byteAt_eq hh (by omega)) (carries_give _ _)

/-- A container that a known reference names is held. -/
theorem holds_of_container? {target : Container} (hk : c.arena.Knows r)
    (hs : c.arena.view.container? r = some target) :
    ∃ h, r = .obj h ∧ c.arena.Holds h ∧
      Container.ofClass? h (c.arena.view h).cls = some target := by
  cases r with
  | obj h => exact ⟨h, rfl, hk h rfl, hs⟩
  | _ => cases hs

/-- A container is named by its own handle. -/
theorem handle_of_ofClass? {cls : ObjClass} {target : Container}
    (hs : Container.ofClass? h cls = some target) :
    target = .list h ∨ target = .string h ∨ target = .byteArray h := by
  cases cls <;> cases hs <;> simp

/-- The class decides how an item is read. -/
theorem getItem_carries {container selector : Ref} (hk : c.arena.Knows container)
    (hs : c.arena.Knows selector) :
    Carries (Container.get container selector)
      (Plan.getItem c.arena.view container selector) c := by
  refine carries_find (Container.classify_eq hk) fun target htarget => ?_
  refine carries_find (Selector.parse_eq hs) fun s _ => ?_
  obtain ⟨h, _, hh, hclass⟩ := holds_of_container? hk htarget
  rcases handle_of_ofClass? hclass with rfl | rfl | rfl
  · exact listGet_carries hh s
  · exact stringGet_carries hh s
  · exact byteArrayGet_carries hh s

/-! ## Stores -/

theorem listPut_carries (hh : c.arena.Holds h) (s : Selector) (value : Ref) :
    Carries (ListObject.put h s value) (Plan.putList (c.arena.view h) h s value) c := by
  have hcount := (c.arena.view h).count_le
  unfold Content.capacity at hcount
  refine carries_look (ListObject.count_eq hh) ?_
  cases s with
  | random => exact carries_refuse _ c
  | all => exact carries_stored (ListObject.putAll_stored hh value)
  | index i =>
    refine carries_place fun j t hj => ?_
    exact carries_stored (Arena.setField_stored hh (by omega) value)
  | last =>
    refine carries_place fun j t hj => ?_
    exact carries_stored (Arena.setField_stored hh (by omega) value)

theorem needByte_decides (value : Ref) (c : Context) :
    Decides (ByteArrayObject.needByte value) (Plan.byte value) c := by
  unfold ByteArrayObject.needByte Plan.byte
  cases ByteArrayObject.byteValue value with
  | ok b => exact decides_pure b c
  | error f => exact decides_refuse f c

theorem byteArrayPut_carries (hh : c.arena.Holds h) (s : Selector) (value : Ref) :
    Carries (ByteArrayObject.put h s value)
      (do
        let b ← Plan.byte value
        Plan.putBytes (c.arena.view h) h s b) c := by
  refine (needByte_decides value c).carries fun b t _ => ?_
  cases s with
  | random => exact carries_refuse _ _
  | all => exact carries_stored (Arena.fillBytes_stored hh b)
  | index i =>
    refine carries_look (Arena.byteArrayLength_eq hh) (carries_place fun j t hj => ?_)
    have hlt : j - 1 < (c.arena.view h).bytes.length := by
      dsimp only at hj
      omega
    exact carries_stored (Arena.setByte_stored hh hlt b)
  | last =>
    refine carries_look (Arena.byteArrayLength_eq hh) (carries_place fun j t hj => ?_)
    have hlt : j - 1 < (c.arena.view h).bytes.length := by
      dsimp only at hj
      omega
    exact carries_stored (Arena.setByte_stored hh hlt b)

/-- The class decides how an item is stored, and strings store none. -/
theorem putItem_carries {container selector : Ref} (hk : c.arena.Knows container)
    (hs : c.arena.Knows selector) (value : Ref) :
    Carries (Container.put container selector value)
      (Plan.putItem c.arena.view container selector value) c := by
  refine carries_find (Container.classify_eq hk) fun target htarget => ?_
  refine carries_find (Selector.parse_eq hs) fun s _ => ?_
  obtain ⟨h, _, hh, hclass⟩ := holds_of_container? hk htarget
  rcases handle_of_ofClass? hclass with rfl | rfl | rfl
  · exact listPut_carries hh s value
  · exact carries_refuse _ c
  · exact byteArrayPut_carries hh s value

/-- Filling goes to the capacity of a list, and to the last byte of a byte array. -/
theorem fill_carries {container : Ref} (hk : c.arena.Knows container) (value : Ref) :
    Carries (Container.fill container value) (Plan.fill c.arena.view container value) c := by
  refine carries_look (Container.classify_eq hk) ?_
  unfold Plan.fill
  cases htarget : c.arena.view.container? container with
  | none => exact carries_refuse _ c
  | some target =>
    obtain ⟨h, _, hh, hclass⟩ := holds_of_container? hk htarget
    rcases handle_of_ofClass? hclass with rfl | rfl | rfl
    · exact carries_stored (ListObject.fill_stored hh value)
    · exact carries_refuse _ c
    · refine (needByte_decides value c).carries fun b t _ => ?_
      exact carries_stored (Arena.fillBytes_stored hh b)

/-! ## Lengths and parts -/

theorem length_carries {container : Ref} (hk : c.arena.Knows container) :
    Carries (Container.length container) (Plan.length c.arena.view container) c := by
  refine carries_find (Container.classify_eq hk) fun target htarget => ?_
  obtain ⟨h, _, hh, hclass⟩ := holds_of_container? hk htarget
  rcases handle_of_ofClass? hclass with rfl | rfl | rfl
  · exact carries_look (ListObject.count_eq hh) (carries_give _ c)
  · exact carries_look (StringObject.length_eq hh) (carries_give _ c)
  · exact carries_look (Arena.byteArrayLength_eq hh) (carries_give _ c)

/-- An empty part of a string is made without cutting. -/
theorem newPart_makes (text : List UInt8) {start : Int} (hstart : 1 ≤ start) (past : Int)
    (a : Arena) :
    Arena.Makes
      (if past < start then Arena.allocString 0
        else StringObject.newSlice text start.toNat past.toNat)
      .fresh
      (.ofText (if (past - start + 1).toNat = 0 then []
        else CodePoints.slice text start.toNat
          (start.toNat + (past - start + 1).toNat - 1))) a := by
  by_cases hempty : past < start
  · rw [if_pos hempty, if_pos (by omega)]
    exact Arena.allocString_makes (by decide) a
  · have hpast : start.toNat + (past - start + 1).toNat - 1 = past.toNat := by omega
    rw [if_neg hempty, if_neg (by omega), hpast]
    exact newSlice_makes text _ _ a

/-- The end of a part that was left out is the last character. -/
theorem copyText_carries (hh : c.arena.Holds h) (first : Int) (last : Option Int) :
    Carries (do return .obj (← onArena (StringObject.copyFromTo h first last)))
      (.give (Plan.copyText (c.arena.view h).text first last)) c := by
  have hlook : Arena.look (·.stringBytes h) c.arena = .ok (c.arena.view h).text c.arena :=
    Arena.look_of_ok (Arena.stringBytes_eq hh)
  refine carries_made (Arena.makes_of_eq (bind_of_ok hlook) ?_)
  cases last with
  | none => exact newPart_makes _ (Int.le_max_right _ _) _ c.arena
  | some e => exact newPart_makes _ (Int.le_max_right _ _) _ c.arena

theorem needInteger_decides (r : Ref) (c : Context) :
    Decides (Container.needInteger r) (Plan.need .needsInteger r.int?) c := by
  unfold Container.needInteger
  cases r.int? with
  | none => exact decides_refuse _ c
  | some n => exact decides_pure n c

theorem needIntegers_decides (last : Option Ref) (c : Context) :
    Decides (last.mapM Container.needInteger)
      (last.mapM fun r => Plan.need .needsInteger r.int?) c := by
  cases last with
  | none => rfl
  | some r =>
    show (some <$> Container.needInteger r) c = _
    unfold Container.needInteger
    rw [Option.mapM_some]
    cases r.int? <;> rfl

/-- The ends are read before the container is, and may be refused first. -/
theorem copyFromTo_carries {source : Ref} (hk : c.arena.Knows source) (first : Ref)
    (last : Option Ref) :
    Carries (Container.copyFromTo source first last)
      (Plan.copyFromTo c.arena.view source first last) c := by
  refine (needInteger_decides first c).carries fun first t _ => ?_
  refine (needIntegers_decides last ⟨c.arena, t⟩).carries fun last t _ => ?_
  refine carries_look (Container.classify_eq hk) ?_
  cases htarget : c.arena.view.container? source with
  | none => exact carries_refuse _ _
  | some target =>
    obtain ⟨h, _, hh, hclass⟩ := holds_of_container? hk htarget
    rcases handle_of_ofClass? hclass with rfl | rfl | rfl
    · exact carries_made (ListObject.copyFromTo_makes hh first last)
    · exact copyText_carries (c := ⟨c.arena, t⟩) hh first last
    · exact carries_refuse _ _

/-! ## Joining -/

/-- All parts are printed before the string is made. -/
theorem concat_carries {parts : List Ref} (hk : ∀ r ∈ parts, c.arena.Knows r) :
    Carries (StringObject.concat parts)
      (do
        let printed ← Plan.need .joinArgsNotSameType (parts.mapM c.arena.view.printed?)
        Plan.give (.make .fresh (.ofText printed.flatten))) c := by
  refine carries_findAll (fun r hr => StringObject.printed_eq (hk r hr)) fun printed _ => ?_
  exact carries_made (Arena.newString_makes _ c.arena)

/-- What is found in a row was shown by one of its members. -/
theorem exists_of_mapM {α β : Type} {show? : α → Option β} {parts : List α} {xs : List β}
    (h : parts.mapM show? = some xs) {x : β} (hx : x ∈ xs) : ∃ p ∈ parts, show? p = some x := by
  induction parts generalizing xs with
  | nil =>
    cases h
    simp at hx
  | cons p rest ih =>
    rw [List.mapM_cons] at h
    obtain ⟨y, hy, hrest⟩ := Option.bind_eq_some_iff.mp h
    obtain ⟨ys, hys, heq⟩ := Option.bind_eq_some_iff.mp hrest
    cases heq
    rcases List.mem_cons.mp hx with rfl | hx
    · exact ⟨p, List.mem_cons_self, hy⟩
    · obtain ⟨q, hq, hshow⟩ := ih hys hx
      exact ⟨q, List.mem_cons_of_mem p hq, hshow⟩

/-- The first argument decides whether lists or strings are joined. -/
theorem join_carries {parts : List Ref} (hk : ∀ r ∈ parts, c.arena.Knows r) :
    Carries (Container.join parts) (Plan.join c.arena.view parts) c := by
  match parts, hk with
  | [], _ => exact carries_refuse _ c
  | [_], _ => exact carries_refuse _ c
  | first :: second :: rest, hk =>
    have hfirst := hk first List.mem_cons_self
    refine carries_look (Container.classify_eq hfirst) ?_
    simp only [Plan.join]
    cases htarget : c.arena.view.container? first with
    | none => exact carries_refuse _ c
    | some target =>
      obtain ⟨h, _, hh, hclass⟩ := holds_of_container? hfirst htarget
      rcases handle_of_ofClass? hclass with rfl | rfl | rfl
      · -- all parts are looked at before the new list is made
        refine carries_findAll (fun r hr => ListObject.asList_eq (hk r hr)) fun lists hlists => ?_
        refine carries_made (ListObject.join_makes fun g hg => ?_)
        obtain ⟨r, hr, hlist⟩ := exists_of_mapM hlists hg
        exact holds_of_named? (hk r hr) hlist
      · exact concat_carries hk
      · exact carries_refuse _ c

theorem search_carries {needle haystack : Ref} (hn : c.arena.Knows needle)
    (hh : c.arena.Knows haystack) (start : Option Ref) :
    Carries (Primitive.search needle haystack start)
      (Plan.findInString c.arena.view needle haystack start) c := by
  simp only [Plan.findInString, View.text?, Plan.need_map_bind]
  refine carries_find (Arena.asString_eq hn) fun small hsmall => ?_
  refine carries_find (Arena.asString_eq hh) fun large hlarge => ?_
  refine carries_look (Arena.stringBytes_eq (holds_of_named? hn hsmall)) ?_
  exact carries_look (Arena.stringBytes_eq (holds_of_named? hh hlarge)) (carries_give _ c)

/-- The items of the list have to be known to the arena, for their texts are read. -/
theorem joinItems_carries {list : Ref} {separator : Option Ref} (hk : c.arena.Knows list)
    (hs : ∀ r ∈ separator, c.arena.Knows r)
    (hitems : ∀ h, list = .obj h → (c.arena.view h).cls = .list →
      ∀ r ∈ (c.arena.view h).items, c.arena.Knows r) :
    Carries (Primitive.joinItems list separator)
      (Plan.joinStrings c.arena.view list separator) c := by
  refine carries_find (ListObject.asList_eq hk) fun h hlist => ?_
  obtain ⟨hobj, hcls⟩ := View.named?_eq_some.mp hlist
  have hh := hk h hobj
  refine carries_look (ListObject.items_eq hh) (carries_look (StringObject.separatorBytes_eq hs) ?_)
  refine carries_findAll (fun r hr => StringObject.printed_eq (hitems h hobj hcls r hr))
    fun printed _ => ?_
  exact carries_made (Arena.newString_makes _ c.arena)

/-! ## Calls -/

/-- What a call needs of its arguments: the arena knows them, and the items of every list among
them. -/
structure Arena.KnowsArguments (a : Arena) (args : List Ref) : Prop where
  known : ∀ r ∈ args, a.Knows r
  items : ∀ h, .obj h ∈ args → (a.view h).cls = .list → ∀ r ∈ (a.view h).items, a.Knows r

theorem Arena.KnowsArguments.get {a : Arena} {args : List Ref} (hargs : a.KnowsArguments args)
    {i : Nat} : ∀ r ∈ args[i]?, a.Knows r :=
  fun r hr => hargs.known r (List.mem_of_getElem? hr)

/-- **A primitive that has enough arguments goes on with the one that it names.** -/
theorem carries_argument {args : List Ref} {i : Nat} (hi : i < args.length)
    {k : Ref → PrimM Ref} {plan : Plan Effect} (hk : Carries (k (args.getD i .nil)) plan c) :
    Carries (Primitive.argument args i >>= k) plan c := by
  have hrun : Primitive.argument args i c = .ok (args.getD i .nil) c := by
    unfold Primitive.argument
    rw [List.getElem?_eq_getElem hi, List.getD_eq_getElem?_getD, List.getElem?_eq_getElem hi]
    rfl
  unfold Carries at hk ⊢
  rwa [bind_of_ok hrun]

/-- **A primitive with enough arguments carries out its plan.** Only one that joins strings looks
at the items of a list. -/
theorem act_carries {args : List Ref} {p : Primitive} (hknows : ∀ r ∈ args, c.arena.Knows r)
    (hitems : p = .joinStrings → c.arena.KnowsArguments args) (hlen : p.arity ≤ args.length) :
    Carries (p.act args) (p.plan c.arena.view c.arena.freeWords args) c := by
  -- the arity says that the arguments a primitive names were passed
  have hget {i : Nat} (hi : i < args.length) : args.getD i .nil ∈ args := by
    rw [List.getD_eq_getElem?_getD, List.getElem?_eq_getElem hi]
    exact List.getElem_mem hi
  have hknown {i : Nat} (hi : i < args.length) : c.arena.Knows (args.getD i .nil) :=
    hknows _ (hget hi)
  rw [Primitive.plan, if_neg (Nat.not_lt.mpr hlen)]
  cases p with
  | makeList => exact makeList_carries args c
  | newList => exact newList_carries _ c
  | addLast =>
    refine carries_argument hlen (carries_argument (Nat.lt_of_succ_lt hlen) ?_)
    exact addLast_carries (hknown hlen) _
  | delete =>
    refine carries_argument hlen (carries_argument (Nat.lt_of_succ_lt hlen) ?_)
    exact delete_carries (hknown hlen) (hknown (Nat.lt_of_succ_lt hlen))
  | join => exact join_carries hknows
  | copyFromTo =>
    refine carries_argument (Nat.lt_of_succ_lt hlen) (carries_argument hlen ?_)
    exact copyFromTo_carries (hknown (Nat.lt_of_succ_lt hlen)) _ _
  | findInString =>
    refine carries_argument (Nat.lt_of_succ_lt hlen) (carries_argument hlen ?_)
    exact search_carries (hknown (Nat.lt_of_succ_lt hlen)) (hknown hlen) _
  | joinStrings =>
    have hargs := hitems rfl
    refine carries_argument hlen (joinItems_carries (hknown hlen) hargs.get fun h heq => ?_)
    exact hargs.items h (heq ▸ hget hlen)
  | freeMemory =>
    show Carries (PrimM.look fun a => .ok (Ref.ofCount a.freeWords)) _ c
    exact carries_seen rfl
  | getItem =>
    refine carries_argument hlen (carries_argument (Nat.lt_of_succ_lt hlen) ?_)
    exact getItem_carries (hknown hlen) (hknown (Nat.lt_of_succ_lt hlen))
  | putItem =>
    have h1 : 1 < args.length := Nat.lt_of_succ_lt hlen
    have h0 : 0 < args.length := Nat.lt_of_succ_lt h1
    refine carries_argument h1 (carries_argument h0 (carries_argument hlen ?_))
    exact putItem_carries (hknown h1) (hknown h0) _
  | fill =>
    refine carries_argument (Nat.lt_of_succ_lt hlen) (carries_argument hlen ?_)
    exact fill_carries (hknown (Nat.lt_of_succ_lt hlen)) _
  | length => exact carries_argument hlen (length_carries (hknown hlen))

/-- **A primitive carries out its plan**, also if there are too few arguments. -/
theorem run_carries {args : List Ref} {p : Primitive} (hknows : ∀ r ∈ args, c.arena.Knows r)
    (hitems : p = .joinStrings → c.arena.KnowsArguments args) :
    Carries (p.run args) (p.plan c.arena.view c.arena.freeWords args) c := by
  unfold Primitive.run Primitive.requireArguments
  by_cases hshort : args.length < p.arity
  · rw [if_pos hshort, Primitive.plan, if_pos hshort]
    exact carries_refuse _ c
  · rw [if_neg hshort]
    exact act_carries hknows hitems (Nat.not_lt.mp hshort)

/-- **Every call of a primitive by name carries out its plan.** -/
theorem invoke_carries {args : List Ref} (hargs : c.arena.KnowsArguments args) (name : String) :
    Carries (Primitive.invoke name args)
      (Primitive.planNamed name c.arena.view c.arena.freeWords args) c := by
  unfold Primitive.invoke Primitive.planNamed
  cases Primitive.ofName? name with
  | none => exact carries_refuse _ c
  | some p => exact run_carries hargs.known fun _ => hargs

end ObjectMemory
