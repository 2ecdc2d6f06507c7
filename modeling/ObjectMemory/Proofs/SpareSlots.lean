import ObjectMemory.Proofs.Cost
import ObjectMemory.Proofs.StatedCounts

/-!
# Spare slots

A list has more slots than items. What is in the others is not looked at, and an item that was
deleted would stay there unnoticed if nothing was stored over it. The primitives leave no such
items: a slot behind the items reads as 0 from the time that the list is made, since an item that
is deleted is blanked where it was last, and a list that grows is filled up with blanks.

The one primitive that stores into spare slots is "fill". In a run in which no list is filled, and
in which the program itself neither makes lists nor stores into them, the slots behind the items
of every list are blank, also of one that was left behind: `spare_slots_stay_blank`.
-/

namespace ObjectMemory

/-! ## Rows that end in blanks -/

namespace Content

variable {ws part : List Word} {c : Content} {i m n : Nat}

/-- Every word behind word `n` is blank. -/
def BlankPast (ws : List Word) (n : Nat) : Prop :=
  ∀ i, n < i → i < ws.length → ws[i]? = some blank

theorem BlankPast.mono (hb : BlankPast ws m) (hmn : m ≤ n) : BlankPast ws n :=
  fun i hi => hb i (Nat.lt_of_le_of_lt hmn hi)

theorem BlankPast.set (hb : BlankPast ws n) (hi : i ≤ n) (w : Word) :
    BlankPast (ws.set i w) n := by
  intro k hk hlen
  rw [List.length_set] at hlen
  rw [List.getElem?_set_ne (by omega)]
  exact hb k hk hlen

/-- The last word that may be none is made a blank. -/
theorem BlankPast.set_blank (hb : BlankPast ws n) : BlankPast (ws.set n blank) (n - 1) := by
  intro k hk hlen
  rw [List.length_set] at hlen
  by_cases hkn : n = k
  · rw [hkn, List.getElem?_set_self hlen]
  · rw [List.getElem?_set_ne hkn]
    exact hb k (by omega) hlen

theorem BlankPast.splice (hb : BlankPast ws n) (hpart : i + part.length ≤ n + 1)
    (hfit : i + part.length ≤ ws.length) : BlankPast (splice ws i part) n := by
  intro k hk hlen
  rw [length_splice hfit] at hlen
  rw [getElem?_splice hfit, if_neg (by omega)]
  exact hb k hk hlen

theorem blankPast_replicate (m n : Nat) : BlankPast (List.replicate m blank) n := by
  intro k _ hlen
  rw [List.length_replicate] at hlen
  rw [List.getElem?_replicate, if_pos hlen]

theorem blankPast_grown (hlen : ws.length ≤ n + 1) (m : Nat) :
    BlankPast (Arena.grown ws m blank) n := by
  intro k hk hm
  rw [Arena.length_grown] at hm
  rw [Arena.getElem?_grown hm, List.getD_eq_getElem?_getD, List.getElem?_eq_none (by omega)]
  rfl

/-- The slots behind the items of a list are blank. Of a row that is too long for an arena nothing
is asked, since a list could not state its number of items. -/
def Tidy (ws : List Word) : Prop :=
  ws.length ≤ maxArenaWords → BlankPast ws (Content.mk .list ws).count

theorem tidy_restated (hb : BlankPast ws n) (hn : n < ws.length) : Tidy (restated ws n) := by
  intro hsize
  rw [restated, List.length_set] at hsize
  rw [count_restated hn hsize]
  exact hb.set (Nat.zero_le n) _

theorem tidy_appended (hb : BlankPast ws (n + 1)) (hn : n + 1 < ws.length) (item : Ref) :
    Tidy (appended ws n item) :=
  tidy_restated (hb.set (Nat.le_refl _) _) (by rwa [List.length_set])

/-- **An item that is deleted leaves a blank**, where the last item was. -/
theorem tidy_without (hb : BlankPast ws n) (hi : 1 ≤ i ∧ i ≤ n) (hn : n < ws.length) :
    Tidy (without ws i n) := by
  have hpart : ((ws.drop (i + 1)).take (n - i)).length = n - i := by
    rw [List.length_take, List.length_drop]
    omega
  have hmoved : BlankPast (splice ws i ((ws.drop (i + 1)).take (n - i))) n :=
    hb.splice (by omega) (by omega)
  refine tidy_restated hmoved.set_blank ?_
  rw [List.length_set, length_splice (by omega)]
  omega

/-- A list without spare slots. -/
theorem tidy_ofItems (words : List Word) : Tidy (ofItems words).words := by
  have hnone : BlankPast (0 :: words) words.length := by
    intro k hk hlen
    rw [List.length_cons] at hlen
    omega
  exact tidy_restated hnone (Nat.lt_succ_self _)

/-- Blanks stay behind as many items as there were. -/
theorem tidy_of_first (hlen : ws.length = c.words.length) (hfirst : ws[0]? = c.words[0]?)
    (hb : BlankPast ws c.count) : Tidy ws := by
  intro _
  rwa [count_of_first hlen hfirst]

end Content

open Content

/-! ## Plans that keep spare slots blank -/

/-- The effect leaves a list only with words that have the property. -/
def Effect.Lays (P : List Word → Prop) (v : View) : Effect → Prop
  | .give _ => True
  | .rewrite h words _ => (v h).cls = .list → P words
  | .make _ c => c.cls = .list → P c.words

theorem Effect.Within.leaves_of_lays {P : List Word → Prop} {v : View} {hs : List Handle}
    {e : Effect} (hw : e.Within hs v) (hl : e.Lays P v) : e.Leaves P hs v := by
  cases e with
  | give x => exact hw
  | rewrite h words x => exact ⟨hw.1, hw.2.1, hl⟩
  | make o c => exact hl

section Plans

variable {v : View} {hs : List Handle} {h : Handle}

/-- The slots behind the items of lists are blank. -/
def View.TidyLists (v : View) (hs : List Handle) : Prop :=
  ∀ h ∈ hs, (v h).cls = .list → BlankPast (v h).words (v h).count

theorem lays_ofItems (words : List Word) :
    (Effect.make .fresh (.ofItems words)).Lays Tidy v :=
  fun _ => tidy_ofItems words

theorem lays_text (text : List UInt8) : (Effect.make .fresh (.ofText text)).Lays Tidy v := by
  intro hcls
  cases hcls

/-- Nothing is asked of the words of what is no list. -/
theorem lays_of_not_list {P : List Word → Prop} (hcls : (v h).cls ≠ .list) (words : List Word)
    (r : Ref) : (Effect.rewrite h words r).Lays P v :=
  fun hlist => absurd hlist hcls

theorem addLast_lays (hv : v.TidyLists hs) {list : Ref} (hl : list.Among hs) (item : Ref) :
    (Plan.addLast v list item).Ensures (Effect.Lays Tidy v) := by
  refine Plan.Ensures.need fun h hn => ?_
  obtain ⟨hh, hcls⟩ := list_of_named? hl hn
  have hcount := (v h).count_le
  dsimp only
  split
  · next hfull =>
    intro _
    have hlen := ListObject.length_enlarged (v h)
    have hgrowth := (ListObject.growth_bounds (v h).capacity).1
    have hold : (v h).words.length ≤ (v h).count + 1 + 1 := by
      unfold capacity at hfull
      omega
    have hblank : BlankPast (v h).enlarged ((v h).count + 1) := blankPast_grown hold _
    exact tidy_appended hblank (by omega) item
  · next hroom =>
    intro _
    unfold capacity at hroom
    exact tidy_appended ((hv h hh hcls).mono (Nat.le_succ _)) (by omega) item

theorem delete_lays (hv : v.TidyLists hs) {list : Ref} (hl : list.Among hs) (selector : Ref) :
    (Plan.delete v list selector).Ensures (Effect.Lays Tidy v) := by
  refine Plan.Ensures.need fun h hn => ?_
  obtain ⟨hh, hcls⟩ := list_of_named? hl hn
  have hcount := (v h).count_le
  unfold capacity at hcount
  have hwithout {i : Nat} (hi : 1 ≤ i ∧ i ≤ (v h).count) :
      (Effect.rewrite h (without (v h).words i (v h).count) .false).Lays Tidy v :=
    fun _ => tidy_without (hv h hh hcls) hi (by omega)
  cases v.selector? selector with
  | none => trivial
  | some s =>
    cases s with
    | all => exact fun _ _ => blankPast_replicate _ _
    | random => trivial
    | last =>
      dsimp only
      split
      · next hpos => exact hwithout ⟨hpos, Nat.le_refl _⟩
      · trivial
    | index i =>
      dsimp only
      split
      · next hi => exact hwithout (by omega)
      · trivial

theorem putList_lays (hb : BlankPast (v h).words (v h).count) (s : Selector) (value : Ref) :
    (Plan.putList (v h) h s value).Ensures (Effect.Lays Tidy v) := by
  have hcount := (v h).count_le
  unfold capacity at hcount
  have hput {i : Nat} (hi : 1 ≤ i ∧ i ≤ (v h).count) :
      (Effect.rewrite h ((v h).words.set i value.toWord) .false).Lays Tidy v :=
    fun _ => tidy_of_first List.length_set (List.getElem?_set_ne (by omega)) (hb.set hi.2 _)
  cases s with
  | random => trivial
  | all =>
    intro _
    by_cases hzero : (v h).count = 0
    · rw [hzero, List.replicate_zero, splice_nil]
      exact tidy_of_first rfl rfl hb
    · have hpart : 1 + (List.replicate (v h).count value.toWord).length ≤ (v h).words.length := by
        rw [List.length_replicate]
        omega
      refine tidy_of_first (length_splice hpart) ?_ (hb.splice ?_ hpart)
      · rw [getElem?_splice hpart, if_neg (by omega)]
      · rw [List.length_replicate]
        omega
  | index i =>
    dsimp only [Plan.putList, Plan.place]
    split
    · exact hput (by omega)
    · trivial
  | last =>
    dsimp only [Plan.putList, Plan.place]
    split
    · next hpos => exact hput ⟨hpos, Nat.le_refl _⟩
    · trivial

theorem putItem_lays (hv : v.TidyLists hs) {container : Ref} (hc : container.Among hs)
    (selector value : Ref) :
    (Plan.putItem v container selector value).Ensures (Effect.Lays Tidy v) := by
  refine Plan.Ensures.need fun target htarget => Plan.Ensures.need fun s _ => ?_
  obtain ⟨h, hh, ⟨rfl, hcls⟩ | rfl | ⟨rfl, hcls⟩⟩ := container_of_among hc htarget
  · exact putList_lays (hv h hh hcls) s value
  · trivial
  · have hapart : (v h).cls ≠ .list := fun hlist => nomatch hcls.symm.trans hlist
    refine Plan.Ensures.any (fun b => ?_) _
    exact Plan.putBytes_ensures (fun words => lays_of_not_list hapart words _) _ s b

/-- What is filled is no list. -/
theorem fill_lays {container : Ref} (hc : ∀ h, container = .obj h → (v h).cls ≠ .list)
    (value : Ref) : (Plan.fill v container value).Ensures (Effect.Lays Tidy v) := by
  unfold Plan.fill
  cases htarget : v.container? container with
  | none => trivial
  | some target =>
    obtain ⟨h, hname, ⟨_, hcls⟩ | ⟨rfl, _⟩ | ⟨rfl, _⟩⟩ := View.container?_eq_some.mp htarget
    · exact absurd hcls (hc h hname)
    · trivial
    · refine Plan.Ensures.any (fun b => ?_) _
      exact lays_of_not_list (hc h hname) _ _

/-- **A plan leaves the slots behind the items of a list blank**, unless it fills one. -/
theorem plan_lays (hv : v.TidyLists hs) {args : List Ref} (hargs : ∀ r ∈ args, r.Among hs)
    {p : Primitive}
    (hfill : p = .fill → ∀ h, args.head? = some (.obj h) → (v h).cls ≠ .list) (free : Nat) :
    (p.plan v free args).Ensures (Effect.Lays Tidy v) := by
  have hget (i : Nat) : (args.getD i .nil).Among hs := among_getD hargs i
  unfold Primitive.plan
  split
  · trivial
  · next harity =>
    cases p with
    | makeList => exact lays_ofItems _
    | newList => exact fun _ _ => blankPast_replicate _ _
    | addLast => exact addLast_lays hv (hget 1) _
    | delete => exact delete_lays hv (hget 1) _
    | join => exact Plan.join_ensures lays_ofItems lays_text _
    | copyFromTo => exact Plan.copyFromTo_ensures lays_ofItems lays_text _ _ _
    | findInString => exact Plan.findInString_ensures (fun _ => trivial) _ _ _
    | joinStrings => exact Plan.joinStrings_ensures lays_text _ _
    | freeMemory => trivial
    | getItem => exact Plan.getItem_ensures (fun _ => trivial) lays_text _ _
    | putItem => exact putItem_lays hv (hget 1) _ _
    | fill =>
      refine fill_lays (fun h hname => hfill rfl h ?_) _
      cases args with
      | nil => cases hname
      | cons r rest => exact congrArg some hname
    | length => exact Plan.length_ensures (fun _ => trivial) _

end Plans

/-! ## Runs in which no list is filled -/

/-- A command that leaves lists to the primitives, and fills none of them. -/
def Command.SparesSlots (a : Arena) : Command → Prop
  | .make r => r.cls ≠ .list
  | .grow h _ _ | .edit h _ => a.classOf h ≠ .ok .list
  | .invoke name args => name = Primitive.fill.name →
      ∀ h, args.head? = some (.obj h) → a.classOf h ≠ .ok .list
  | .ask _ | .reset => True

/-- A session with the handles `hs` in which only primitives make and change lists, and "fill" is
called on none of them. -/
def UnfilledRun (c : Context) (hs : List Handle) : Prop :=
  Course (.only fun cmd a => cmd.SparesSlots a) c hs ()

section Runs

variable {a : Arena} {c d : Context} {hs : List Handle} {h : Handle} {answer : Answer}
  {cmd : Command}

theorem Arena.Closed.tidyLists (hc : a.Closed hs) (hl : a.ListsHave hs Tidy) :
    a.view.TidyLists hs :=
  fun h hh hcls => hl h hh hcls (hc.small h hh)

theorem planNamed_lays (hc : a.Closed hs) (hl : a.ListsHave hs Tidy) {name : String}
    {args : List Ref} (hargs : ∀ r ∈ args, r.Among hs)
    (hspares : (Command.invoke name args).SparesSlots a) (free : Nat) :
    (Primitive.planNamed name a.view free args).Ensures (Effect.Lays Tidy a.view) := by
  unfold Primitive.planNamed
  cases hp : Primitive.ofName? name with
  | none => trivial
  | some p =>
    refine plan_lays (hc.tidyLists hl) hargs (fun hfill h hhead hcls => ?_) free
    have hname : name = Primitive.fill.name := hfill ▸ (name_of_ofName? hp).symm
    have hin : h ∈ hs := hargs _ (List.mem_of_head? hhead) h rfl
    exact hspares hname h hhead ((Arena.classOf_eq_ok_iff (hc.tiled.holds hin)).mpr hcls)

/-- **A command leaves the slots behind the items of all lists blank.** -/
theorem Arena.ListsHave.step (hl : c.arena.ListsHave hs Tidy) (hc : c.arena.Closed hs)
    (hspares : cmd.SparesSlots c.arena) (hon : cmd.Honest hs c.arena)
    (hrun : cmd.run c = .ok answer d) : d.arena.ListsHave (cmd.handles hs answer) Tidy := by
  cases cmd with
  | make r =>
    obtain ⟨rfl, hmade⟩ := run_make_ok hrun
    dsimp only [Command.handles]
    rw [hc.tiled.noted_used]
    refine hl.made hc.tiled hmade fun hcls => absurd ?_ hspares
    cases r with
    | object => exact hcls
    | _ => cases hcls
  | grow h payload fill =>
    obtain ⟨g, hact, rfl⟩ := run_ok_of_onArena (k := fun h => .given (.obj h)) rfl hrun
    have hholds := hc.tiled.holds hon.1
    obtain ⟨rfl, hmade⟩ := Arena.grow_made hholds hact
    dsimp only [Command.handles]
    rw [hc.tiled.noted_used]
    exact hl.made hc.tiled hmade fun hcls =>
      absurd ((Arena.classOf_eq_ok_iff hholds).mpr hcls) hspares
  | edit h e =>
    obtain ⟨hh, hon⟩ := hon
    have hholds := hc.tiled.holds hh
    obtain ⟨rfl, hst⟩ := run_edit_ok hholds hon.sources hrun
    exact hl.stored hc.tiled hh hst fun hcls =>
      absurd ((Arena.classOf_eq_ok_iff hholds).mpr hcls) hspares
  | ask q =>
    obtain ⟨rfl, x, rfl⟩ := run_ask_ok hrun
    exact hl
  | invoke name args =>
    have hlays := planNamed_lays hc hl hon hspares c.arena.freeWords
    have hwithin := planNamed_within hc hon name
    obtain ⟨s, ⟨f, _, rfl, hsame⟩ | ⟨e, r, hend, rfl, hp⟩⟩ := run_invoke_ok hc hon hrun
    · rw [hsame]
      exact hl
    · have hleaves := (hwithin.of_run hend).leaves_of_lays (hlays.of_run hend)
      exact (hc.tiled.performed hl hleaves hp).2
  | reset =>
    intro h hh
    cases hh

theorem UnfilledRun.tidy (hrun : UnfilledRun c hs) : c.arena.ListsHave hs Tidy := by
  refine hrun.keeps (P := fun c hs _ => c.arena.ListsHave hs Tidy) ?_ ?_
  · intro words action source h hh
    cases hh
  · intro c d hs _ answer cmd hc ih spares honest run
    exact ih.step hc spares honest run

/-- A blank reads as 0. -/
theorem Content.field_of_blank {content : Content} {i : Nat}
    (hi : content.words[i]? = some blank) : content.field i = .int 0 := by
  have hzero : (Ref.int 0).Canonical := ⟨by decide, by decide⟩
  rw [Content.field, List.getD_eq_getElem?_getD, hi]
  exact Ref.ofWord_toWord hzero

/-- **Deleting all items blanks every word of a list.** -/
theorem delete_all_blanks (hc : c.arena.Closed hs) (hh : h ∈ hs)
    (hcls : c.arena.classOf h = .ok .list) {s : Handle} (hin : s ∈ hs)
    (hstring : c.arena.classOf s = .ok .string)
    (hall : c.arena.stringBytes s = .ok (Utf8.encode "all")) :
    ∃ d n, Primitive.invoke "delete" [.obj s, .obj h] c = .ok .false d ∧
      c.arena.payloadWords h = .ok n ∧ d.arena.payloadWords h = .ok n ∧
      ∀ i, i < n → d.arena.field h i = .ok (.int 0) := by
  have hholds := hc.tiled.holds hh
  have hlist : c.arena.view.list? (.obj h) = some h :=
    View.named?_eq_some.mpr ⟨rfl, (Arena.classOf_eq_ok_iff hholds).mp hcls⟩
  have hselector : c.arena.view.selector? (.obj s) = some .all := by
    have hholdsS := hc.tiled.holds hin
    rw [Arena.stringBytes_eq hholdsS] at hall
    rw [View.selector?_obj, text?_of_classOf hholdsS hstring, Except.ok.inj hall]
    decide
  have hplan : Primitive.planNamed "delete" c.arena.view c.arena.freeWords [.obj s, .obj h] =
      .give (.rewrite h (List.replicate (c.arena.view h).words.length blank) .false) := by
    show Plan.delete c.arena.view (.obj h) (.obj s) = _
    rw [Plan.delete, hlist, hselector]
    rfl
  have hargs := among_pair (among_obj.mpr hin) (among_obj.mpr hh)
  obtain ⟨b, hrun, hst⟩ := invoke_performs hc hargs hplan
  have hafter := hst.holds hholds
  have hlen : (b.view h).words.length = (c.arena.view h).words.length := by
    rw [hst.words, List.length_replicate]
  refine ⟨_, _, hrun, Arena.payloadWords_eq hholds, ?_, fun i hi => ?_⟩
  · rw [Arena.payloadWords_eq hafter, hlen]
  · rw [Arena.field_eq hafter (hlen.symm ▸ hi), Content.field_of_blank]
    rw [hst.words, List.getElem?_replicate, if_pos hi]

/-- **Deleted items do not linger in spare slots.** Take any session in which lists are made and
changed by primitives alone, and none is filled. Then of every list that was made since the arena
was last emptied, also of one that was left behind for a larger copy, each slot behind the items
reads as 0. And a call that deletes all items of such a list is answered, and after it each word
of the payload reads as 0, also the one that states the number of items. -/
theorem spare_slots_stay_blank (hrun : UnfilledRun c hs) :
    ∀ h ∈ hs, c.arena.classOf h = .ok .list →
      (∃ n capacity, ListObject.count c.arena h = .ok n ∧
        ListObject.capacity c.arena h = .ok capacity ∧ n ≤ capacity ∧
        ∀ i, n < i → i ≤ capacity → c.arena.field h i = .ok (.int 0)) ∧
      ∀ s ∈ hs, c.arena.classOf s = .ok .string →
        c.arena.stringBytes s = .ok (Utf8.encode "all") →
        ∃ d n, Primitive.invoke "delete" [.obj s, .obj h] c = .ok .false d ∧
          c.arena.payloadWords h = .ok n ∧ d.arena.payloadWords h = .ok n ∧
          ∀ i, i < n → d.arena.field h i = .ok (.int 0) := by
  have hc := hrun.closed
  intro h hh hcls
  have hholds := hc.tiled.holds hh
  have hblank := hc.tidyLists hrun.tidy h hh ((Arena.classOf_eq_ok_iff hholds).mp hcls)
  refine ⟨⟨_, _, ListObject.count_eq hholds, ListObject.capacity_eq hholds,
    Content.count_le _, fun i hlo hhi => ?_⟩, fun s hin hstring hall => ?_⟩
  · have hi : i < (c.arena.view h).words.length := by
      unfold capacity at hhi
      omega
    rw [Arena.field_eq hholds hi, Content.field_of_blank (hblank i hlo hi)]
  · exact delete_all_blanks hc hh hcls hin hstring hall

end Runs

/-- A list of two items takes up a third, moves, and loses its first item. Then the list that was
left behind is emptied. -/
theorem blanks_in_moved_list :
    ∃ c, UnfilledRun c [⟨0⟩, ⟨3⟩, ⟨5⟩] ∧
      (∃ n capacity, ListObject.count c.arena ⟨5⟩ = .ok n ∧
        ListObject.capacity c.arena ⟨5⟩ = .ok capacity ∧ n ≤ capacity ∧
        ∀ i, n < i → i ≤ capacity → c.arena.field ⟨5⟩ i = .ok (.int 0)) ∧
      ∃ d n, Primitive.invoke "delete" [.obj ⟨3⟩, .obj ⟨0⟩] c = .ok .false d ∧
        c.arena.payloadWords ⟨0⟩ = .ok n ∧ d.arena.payloadWords ⟨0⟩ = .ok n ∧
        ∀ i, i < n → d.arena.field ⟨0⟩ i = .ok (.int 0) := by
  have hspares (name : String) (a : Arena) (args : List Ref) (hname : name ≠ "fill") :
      (Command.invoke name args).SparesSlots a := fun heq => absurd heq hname
  have h0 : UnfilledRun _ _ := Course.start 64 .panic (Source.ofList [])
  have h1 := Course.step (.invoke "makeList" [.true]) h0 (hspares _ _ _ (by decide))
    (among_cons (among_of_obj? rfl _) among_nil) rfl
  have h2 := Course.step (.make (.string (Utf8.encode "all"))) h1
    (by intro heq; cases heq) trivial rfl
  have h3 := Course.step (.invoke "addLast" [.int 5, .obj ⟨0⟩]) h2
    (hspares _ _ _ (by decide)) (among_pair (among_of_obj? rfl _) (among_obj.mpr (by decide))) rfl
  have h4 := Course.step (.invoke "delete" [.int 1, .obj ⟨5⟩]) h3
    (hspares _ _ _ (by decide)) (among_pair (among_of_obj? rfl _) (among_obj.mpr (by decide))) rfl
  have hlists := spare_slots_stay_blank h4
  refine ⟨_, h4, (hlists ⟨5⟩ (by decide) rfl).1, ?_⟩
  exact (hlists ⟨0⟩ (by decide) rfl).2 ⟨3⟩ (by decide) rfl rfl

end ObjectMemory
