import ObjectMemory.Proofs.ListHeap
import ObjectMemory.Proofs.Closure

/-!
# Plans on the heap

The plan of a primitive is decided by a view, and a view shows a heap: the lists as sequences. On
this heap every call on lists has a verdict, and the plan ends in an effect that matches it
(`plan_follows`). The other calls end in effects that leave the lists alone (`plan_apart`).
-/

namespace ObjectMemory

/-- The lists that a view shows at the handles `hs`. -/
def View.heap (v : View) (hs : List Handle) : Heap := fun h =>
  if h ∈ hs ∧ (v h).cls = .list then some (v h).sequence else none

/-- The effect does what the verdict says. A change that leaves a list as it is need not be made,
and of a list that no arena has room for only the size is said. -/
def Effect.Matches (v : View) (hs : List Handle) (e : Effect) : Verdict → Prop
  | .oneOf rs => ∃ r ∈ rs, e = .give r
  | .change h s r => h ∈ hs ∧ (v h).cls = .list ∧
      ((e = .give r ∧ (v h).sequence = s) ∨
        ∃ words, e = .rewrite h words r ∧ (Content.mk .list words).sequence = s)
  | .make s => ∃ o words, e = .make o ⟨.list, words⟩ ∧ words.length = s.capacity + 1 ∧
      (words.length ≤ maxPayloadWords → (Content.mk .list words).sequence = s)
  | .refuse _ => False

/-- Whatever is drawn, the plan ends as the verdict says. -/
def Plan.Follows (v : View) (hs : List Handle) (verdict : Verdict) : Plan Effect → Prop
  | .give e => e.Matches v hs verdict
  | .refuse f => verdict = .refuse f
  | .draw n next => 0 < n ∧ ∀ i, 1 ≤ i → i ≤ n → (next i).Follows v hs verdict

section Following

variable {α : Type} {v : View} {hs : List Handle} {verdict : Verdict} {plan : Plan Effect}
  {f : Failure} {r : Ref}

theorem Plan.Follows.of_run (hp : plan.Follows v hs verdict) (s : Source) :
    match (plan.run s).1 with
    | .ok e => e.Matches v hs verdict
    | .error f => verdict = .refuse f := by
  induction plan generalizing s with
  | give e => exact hp
  | refuse f => exact hp
  | draw n next ih =>
    obtain ⟨hn, hnext⟩ := hp
    obtain ⟨hlo, hhi⟩ := s.pick_bounds hn
    exact ih _ (hnext _ hlo hhi) _

theorem follows_need {found : Option α} {k : α → Verdict} {next : α → Plan Effect}
    (h : ∀ x, found = some x → (next x).Follows v hs (k x)) :
    (Plan.need f found >>= next).Follows v hs (Verdict.need f found k) := by
  cases found with
  | none => rfl
  | some x => exact h x rfl

/-- The heap knows the lists that the view knows. -/
theorem list?_heap (hr : r.Among hs) :
    (v.heap hs).list? r = (v.list? r).map fun h => (h, (v h).sequence) := by
  cases r with
  | obj h =>
    show (View.heap v hs h).map _ = (if (v h).cls = .list then some h else none).map _
    by_cases hcls : (v h).cls = .list
    · rw [View.heap, if_pos ⟨hr h rfl, hcls⟩, if_pos hcls]
      rfl
    · rw [View.heap, if_neg fun hin => hcls hin.2, if_neg hcls]
      rfl
  | _ => rfl

/-- **What needs a list goes on with the same one in both.** -/
theorem follows_list (hr : r.Among hs) {k : Handle × Sequence → Verdict}
    {next : Handle → Plan Effect}
    (h : ∀ h ∈ hs, (v h).cls = .list → (next h).Follows v hs (k (h, (v h).sequence))) :
    (Plan.need f (v.list? r) >>= next).Follows v hs
      (Verdict.need f ((v.heap hs).list? r) k) := by
  rw [list?_heap hr]
  cases hlist : v.list? r with
  | none => rfl
  | some g =>
    obtain ⟨hg, hcls⟩ := list_of_named? hr hlist
    exact h g hg hcls

/-- A container that holds no bytes is a list. -/
theorem container?_of_not_holdsBytes (hb : v.holdsBytes r = false) :
    v.container? r = (v.list? r).map .list := by
  cases r with
  | obj h =>
    simp only [View.holdsBytes, View.container?] at hb
    show Container.ofClass? h (v h).cls = (if (v h).cls = .list then some h else none).map _
    cases hcls : (v h).cls with
    | list => rfl
    | string =>
      rw [hcls] at hb
      cases hb
    | byteArray =>
      rw [hcls] at hb
      cases hb
    | other t => rfl
  | _ => rfl

/-- Once strings and byte arrays are left out, a container is a list. -/
theorem follows_container (hr : r.Among hs) (hb : v.holdsBytes r = false)
    {k : Handle × Sequence → Verdict} {next : Container → Plan Effect}
    (h : ∀ h ∈ hs, (v h).cls = .list → (next (.list h)).Follows v hs (k (h, (v h).sequence))) :
    (Plan.need f (v.container? r) >>= next).Follows v hs
      (Verdict.need f ((v.heap hs).list? r) k) := by
  rw [container?_of_not_holdsBytes hb, Plan.need_map_bind]
  exact follows_list hr h

end Following

/-! ## Each call -/

/-- The view shows no list that is too large for an arena. -/
def View.Small (v : View) (hs : List Handle) : Prop :=
  ∀ h ∈ hs, (v h).words.length ≤ maxArenaWords

section Calls

variable {v : View} {hs : List Handle} {list value : Ref} {selector : Option Selector}
  {parts : List Ref} {h : Handle} {c : Content}

/-- What is stored reads as the reference that is kept. -/
theorem ofWord_toWord_kept (hv : v.Nameable hs) {r : Ref} (hr : r.Among hs) :
    Ref.ofWord r.toWord = r.kept :=
  Ref.ofWord_toWord_of_small fun h heq => hv.small h (hr h heq)

/-- A list is changed as the verdict asks if its words read as that sequence. -/
theorem matches_rewrite (hh : h ∈ hs) (hcls : (v h).cls = .list) {words : List Word} {s : Sequence}
    (hseq : (Content.mk .list words).sequence = s) (r : Ref) :
    (Effect.rewrite h words r).Matches v hs (.change h s r) :=
  ⟨hh, hcls, Or.inr ⟨words, rfl, hseq⟩⟩

/-- The arguments, stored and read back, are the items. -/
theorem makeList_follows (hv : v.Nameable hs) {items : List Ref}
    (hitems : ∀ r ∈ items, r.Among hs) :
    (Plan.makeList items).Follows v hs ((ListCall.makeList items).verdict (v.heap hs)) := by
  refine ⟨_, _, rfl, by simp, fun hfit => ?_⟩
  have hkept : (items.map Ref.toWord).map Ref.ofWord = items.map Ref.kept := by
    rw [List.map_map]
    exact List.map_congr_left fun r hr => ofWord_toWord_kept hv (hitems r hr)
  have hsize : (items.map Ref.toWord).length + 1 ≤ maxArenaWords := Nat.le_succ_of_le hfit
  exact (Content.sequence_ofItems hsize).trans (by rw [hkept, List.length_map])

theorem newList_follows (asked : Option Ref) :
    (Plan.newList (Primitive.capacityAsked asked)).Follows v hs
      ((ListCall.newList asked).verdict (v.heap hs)) := by
  have hmake (n : Nat) : (Plan.newList n).Follows v hs (.make ⟨[], max 2 n⟩) := by
    refine ⟨_, _, rfl, by simp [Nat.max_comm, ListObject.minCapacity], fun _ => ?_⟩
    rw [Content.sequence_blank, Nat.add_sub_cancel, Nat.max_comm]
    rfl
  have hleast : (Plan.newList ListObject.minCapacity).Follows v hs (.make ⟨[], 2⟩) := hmake 2
  cases asked with
  | none => exact hleast
  | some r =>
    cases r with
    | int n =>
      show (Plan.newList (if 0 < n then n.toNat else _)).Follows v hs (.make ⟨[], max 2 n.toNat⟩)
      by_cases hn : 0 < n
      · rw [if_pos hn]
        exact hmake n.toNat
      · have hzero : n.toNat = 0 := by omega
        rw [if_neg hn, hzero]
        exact hleast
    | _ => exact hleast

/-- The item becomes the last one, of the list or of a longer copy. -/
theorem addLast_follows (hv : v.Nameable hs) (hsize : v.Small hs) {item : Ref}
    (hl : list.Among hs) (hi : item.Among hs) :
    (Plan.addLast v list item).Follows v hs ((ListCall.addLast list item).verdict (v.heap hs)) := by
  refine follows_list hl fun h hh hcls => ?_
  have hkept := ofWord_toWord_kept hv hi
  have hcount := (v h).count_le
  dsimp only [Content.sequence]
  rw [Content.length_items]
  by_cases hfull : (v h).capacity ≤ (v h).count
  · -- the item goes into a larger copy, which starts with the same items
    rw [if_pos hfull, if_neg (Nat.not_lt.mpr hfull)]
    have hlen := ListObject.length_enlarged (v h)
    have hsame := Content.length_appended (v h).enlarged (v h).count item
    refine ⟨_, _, rfl, hsame.trans hlen, fun hfit => ?_⟩
    have hgrowth := (ListObject.growth_bounds (v h).capacity).1
    have hroom : (v h).count + 1 < (v h).enlarged.length := by omega
    have hfits : (v h).enlarged.length ≤ maxArenaWords := by
      rw [← hsame]
      exact Nat.le_succ_of_le hfit
    rw [Content.sequence_appended hroom hfits, Content.itemWords_enlarged, hkept, hlen]
    rfl
  · rw [if_neg hfull, if_pos (Nat.not_le.mp hfull)]
    have hroom : (v h).count + 1 < (v h).words.length := by
      unfold Content.capacity at hfull
      omega
    refine matches_rewrite hh hcls ?_ _
    rw [Content.sequence_appended hroom (hsize h hh), hkept]
    rfl

/-- The items behind the place move down by one. -/
theorem delete_follows (hsize : v.Small hs) (hl : list.Among hs) (selector : Ref) :
    (Plan.delete v list selector).Follows v hs
      ((ListCall.delete list (v.selector? selector)).verdict (v.heap hs)) := by
  refine follows_list hl fun h hh hcls => ?_
  have hcount := (v h).count_le
  have hlen := (v h).length_items
  -- deleting by place and deleting the last item erase an item alike
  have herase {i : Nat} (hi : 1 ≤ i ∧ i ≤ (v h).count) :
      (Effect.rewrite h (Content.without (v h).words i (v h).count) .false).Matches v hs
        (.change h ⟨(v h).items.eraseIdx (i - 1), (v h).capacity⟩ .false) := by
    unfold Content.capacity at hcount
    refine matches_rewrite hh hcls ?_ _
    rw [Content.sequence_without hi (by omega) (hsize h hh)]
    rfl
  cases v.selector? selector with
  | none => rfl
  | some s =>
    cases s with
    | all =>
      refine matches_rewrite hh hcls ?_ _
      exact Content.sequence_blank _
    | random => rfl
    | last =>
      dsimp only [Verdict.deleted, Content.sequence]
      by_cases hpos : 0 < (v h).count
      · rw [if_pos hpos, ← List.eraseIdx_length_sub_one, hlen]
        exact herase ⟨hpos, Nat.le_refl _⟩
      · have hnone : (v h).items = [] := List.eq_nil_of_length_eq_zero (by omega)
        rw [if_neg hpos]
        refine ⟨hh, hcls, Or.inl ⟨rfl, ?_⟩⟩
        rw [Content.sequence, hnone]
        rfl
    | index i =>
      dsimp only [Verdict.deleted, Content.sequence]
      rw [hlen]
      by_cases hi : 1 ≤ i ∧ i ≤ (v h).count
      · rw [if_pos hi, if_pos hi]
        exact herase (by omega)
      · rw [if_neg hi, if_neg hi]
        rfl

theorem getItem_follows (hl : list.Among hs) (hb : v.holdsBytes list = false) (selector : Ref) :
    (Plan.getItem v list selector).Follows v hs
      ((ListCall.getItem list (v.selector? selector)).verdict (v.heap hs)) := by
  refine follows_container hl hb fun h hh hcls => follows_need fun s _ => ?_
  have hlen := (v h).length_items
  have hfield {i : Nat} (hi : 1 ≤ i ∧ i ≤ (v h).count) := Content.getElem?_items hi
  cases s with
  | index i =>
    dsimp only [Plan.place, Verdict.item, Content.sequence]
    rw [hlen]
    by_cases hi : 1 ≤ i ∧ i ≤ (v h).count
    · rw [if_pos hi, if_pos hi, List.getD_eq_getElem?_getD, hfield (by omega)]
      exact ⟨_, List.mem_cons_self, rfl⟩
    · rw [if_neg hi, if_neg hi]
      rfl
  | last =>
    dsimp only [Plan.place, Verdict.item, Content.sequence]
    rw [List.getLast?_eq_getElem?, hlen]
    by_cases hpos : 0 < (v h).count
    · rw [if_pos hpos, hfield ⟨hpos, Nat.le_refl _⟩]
      exact ⟨_, List.mem_cons_self, rfl⟩
    · rw [if_neg hpos, List.getElem?_eq_none (by omega)]
      rfl
  | random =>
    dsimp only [Plan.place, Verdict.item, Content.sequence]
    by_cases hpos : 0 < (v h).count
    · -- whatever is picked lies among the items
      have hsome : (v h).items ≠ [] := List.ne_nil_of_length_pos (by omega)
      rw [if_pos hpos, if_neg hsome]
      refine ⟨hpos, fun i hlo hhi => ?_⟩
      exact ⟨_, List.mem_of_getElem? (hfield ⟨hlo, hhi⟩), rfl⟩
    · have hnone : (v h).items = [] := List.eq_nil_of_length_eq_zero (by omega)
      rw [if_neg hpos, if_pos hnone]
      rfl
  | all => rfl

theorem putItem_follows (hv : v.Nameable hs) (hl : list.Among hs) (hr : value.Among hs)
    (hb : v.holdsBytes list = false) (selector : Ref) :
    (Plan.putItem v list selector value).Follows v hs
      ((ListCall.putItem list (v.selector? selector) value).verdict (v.heap hs)) := by
  refine follows_container hl hb fun h hh hcls => follows_need fun s _ => ?_
  have hlen := (v h).length_items
  have hkept := ofWord_toWord_kept hv hr
  have hput {i : Nat} (hi : 1 ≤ i ∧ i ≤ (v h).count) :
      (Effect.rewrite h ((v h).words.set i value.toWord) .false).Matches v hs
        (.change h ⟨(v h).items.set (i - 1) value.kept, (v h).capacity⟩ .false) := by
    refine matches_rewrite hh hcls ?_ _
    rw [Content.sequence_set hi, hkept]
  cases s with
  | index i =>
    dsimp only [Plan.putList, Plan.place, Verdict.replaced, Content.sequence]
    rw [hlen]
    by_cases hi : 1 ≤ i ∧ i ≤ (v h).count
    · rw [if_pos hi, if_pos hi]
      exact hput (by omega)
    · rw [if_neg hi, if_neg hi]
      rfl
  | last =>
    dsimp only [Plan.putList, Plan.place, Verdict.replaced, Content.sequence]
    by_cases hpos : 0 < (v h).count
    · have hsome : (v h).items ≠ [] := List.ne_nil_of_length_pos (by omega)
      rw [if_pos hpos, if_neg hsome, hlen]
      exact hput ⟨hpos, Nat.le_refl _⟩
    · have hnone : (v h).items = [] := List.eq_nil_of_length_eq_zero (by omega)
      rw [if_neg hpos, if_pos hnone]
      rfl
  | all =>
    refine matches_rewrite hh hcls ?_ _
    rw [Content.sequence_overwritten (Nat.le_refl _) (v h).count_le, hkept]
    rfl
  | random => rfl

theorem fill_follows (hv : v.Nameable hs) (hl : list.Among hs) (hr : value.Among hs)
    (hb : v.holdsBytes list = false) :
    (Plan.fill v list value).Follows v hs ((ListCall.fill list value).verdict (v.heap hs)) := by
  unfold Plan.fill
  dsimp only [ListCall.verdict]
  rw [container?_of_not_holdsBytes hb, list?_heap hl]
  cases hlist : v.list? list with
  | none => rfl
  | some h =>
    obtain ⟨hh, hcls⟩ := list_of_named? hl hlist
    refine matches_rewrite hh hcls ?_ _
    rw [← ofWord_toWord_kept hv hr]
    exact Content.sequence_overwritten (v h).count_le (Nat.le_refl _) _

theorem length_follows (hsize : v.Small hs) (hl : list.Among hs)
    (hb : v.holdsBytes list = false) :
    (Plan.length v list).Follows v hs ((ListCall.length list).verdict (v.heap hs)) := by
  refine follows_container hl hb fun h hh hcls => ?_
  have hcount := (v h).count_le
  have hsmall := hsize h hh
  have hexact : Ref.ofCount (v h).count = .int (v h).items.length := by
    unfold Content.capacity at hcount
    unfold maxArenaWords at hsmall
    rw [Ref.ofCount, Content.length_items, Ref.maxSmallInt]
    congr 1
    omega
  exact ⟨_, List.mem_cons_self, congrArg Effect.give hexact⟩

/-- A new list of words that read as the items. -/
theorem matches_ofItems {words : List Word} {items : List Ref} (o : Origin)
    (hitems : words.map Ref.ofWord = items) :
    (Effect.make o (.ofItems words)).Matches v hs (.make ⟨items, items.length⟩) := by
  subst hitems
  refine ⟨o, _, rfl, by simp, fun hfit => ?_⟩
  have hsize : words.length + 1 ≤ maxArenaWords := Nat.le_succ_of_le hfit
  exact (Content.sequence_ofItems hsize).trans (by rw [List.length_map])

theorem copyFromTo_follows (hl : list.Among hs) (hb : v.holdsBytes list = false) (first : Ref)
    (last : Option Ref) :
    (Plan.copyFromTo v list first last).Follows v hs
      ((ListCall.copyFromTo list first last).verdict (v.heap hs)) := by
  refine follows_need fun first _ => ?_
  rw [container?_of_not_holdsBytes hb, list?_heap hl]
  cases v.list? list with
  | none =>
    cases last with
    | none => rfl
    | some r =>
      simp only [Option.mapM_some]
      cases r.int? <;> rfl
  | some h =>
    -- once the ends are integers, there is a copy
    have hcopy (last : Option Int) :
        (Plan.copyList (v h) first last).Matches v hs
          (.make ⟨slice (v h).items first last, (slice (v h).items first last).length⟩) :=
      matches_ofItems .fresh (Content.slice_items (v h) first last)
    cases last with
    | none => exact hcopy none
    | some r =>
      simp only [Option.mapM_some]
      cases r.int? with
      | none => rfl
      | some n => exact hcopy (some n)

/-- A row of references names the same lists in both. -/
theorem mapM_list?_heap (hp : ∀ r ∈ parts, r.Among hs) :
    parts.mapM (v.heap hs).list? =
      (parts.mapM v.list?).map fun lists => lists.map fun h => (h, (v h).sequence) := by
  induction parts with
  | nil => rfl
  | cons r rest ih =>
    rw [List.mapM_cons, List.mapM_cons, list?_heap (hp r List.mem_cons_self),
      ih fun q hq => hp q (List.mem_cons_of_mem r hq)]
    cases v.list? r with
    | none => rfl
    | some h => cases rest.mapM v.list? <;> rfl

/-- All arguments have to be lists, and their items follow one another. -/
theorem join_follows (hp : ∀ r ∈ parts, r.Among hs) (hlen : 2 ≤ parts.length)
    (hb : v.holdsBytes (parts.getD 0 .nil) = false) :
    (Plan.join v parts).Follows v hs ((ListCall.join parts).verdict (v.heap hs)) := by
  match parts, hlen with
  | first :: second :: rest, _ =>
    have hfirst : v.container? first = (v.list? first).map .list :=
      container?_of_not_holdsBytes hb
    dsimp only [ListCall.verdict, Plan.join, List.head?_cons, Option.bind_some]
    rw [hfirst, list?_heap (hp first List.mem_cons_self), mapM_list?_heap hp]
    cases v.list? first with
    | none => rfl
    | some h =>
      dsimp only [Option.map_some, Verdict.need]
      cases hall : (first :: second :: rest).mapM v.list? with
      | none => rfl
      | some lists =>
        refine matches_ofItems .fresh ?_
        rw [List.map_flatMap, List.flatMap_map]
        rfl

/-- **Every call on lists ends as its verdict says.** -/
theorem plan_follows (hv : v.Nameable hs) (hsize : v.Small hs) {args : List Ref}
    (hargs : ∀ r ∈ args, r.Among hs) (free : Nat) {p : Primitive} {call : ListCall}
    (hcall : p.listCall? v args = some call) :
    (p.plan v free args).Follows v hs (call.verdict (v.heap hs)) := by
  have hget (i : Nat) : (args.getD i .nil).Among hs := among_getD hargs i
  unfold Primitive.listCall? at hcall
  unfold Primitive.plan
  by_cases hfew : args.length < p.arity
  · rw [if_pos hfew] at hcall ⊢
    cases hcall
    rfl
  · rw [if_neg hfew] at hcall ⊢
    -- a call that may be on bytes is one on lists if its container holds none
    have hunless {r : Ref} {other : ListCall}
        (h : (if v.holdsBytes r then none else some other) = some call) :
        v.holdsBytes r = false ∧ other = call := by
      split at h
      · cases h
      · next hb =>
        cases h
        exact ⟨Bool.eq_false_iff.mpr hb, rfl⟩
    cases p with
    | makeList =>
      cases hcall
      exact makeList_follows hv hargs
    | newList =>
      cases hcall
      exact newList_follows args[0]?
    | addLast =>
      cases hcall
      exact addLast_follows hv hsize (hget 1) (hget 0)
    | delete =>
      cases hcall
      exact delete_follows hsize (hget 1) _
    | getItem =>
      obtain ⟨hb, rfl⟩ := hunless hcall
      exact getItem_follows (hget 1) hb _
    | putItem =>
      obtain ⟨hb, rfl⟩ := hunless hcall
      exact putItem_follows hv (hget 1) (hget 2) hb _
    | fill =>
      obtain ⟨hb, rfl⟩ := hunless hcall
      exact fill_follows hv (hget 0) (hget 1) hb
    | length =>
      obtain ⟨hb, rfl⟩ := hunless hcall
      exact length_follows hsize (hget 0) hb
    | copyFromTo =>
      obtain ⟨hb, rfl⟩ := hunless hcall
      exact copyFromTo_follows (hget 0) hb _ _
    | join =>
      obtain ⟨hb, rfl⟩ := hunless hcall
      exact join_follows hargs (Nat.not_lt.mp hfew) hb
    | findInString => cases hcall
    | joinStrings => cases hcall
    | freeMemory => cases hcall

/-- A call on lists follows its verdict. -/
theorem planNamed_follows (hv : v.Nameable hs) (hsize : v.Small hs) {args : List Ref}
    (hargs : ∀ r ∈ args, r.Among hs) (free : Nat) {name : String} {call : ListCall}
    (hcall : Primitive.listCallNamed? v name args = some call) :
    (Primitive.planNamed name v free args).Follows v hs (call.verdict (v.heap hs)) := by
  unfold Primitive.listCallNamed? at hcall
  unfold Primitive.planNamed
  cases hname : Primitive.ofName? name with
  | none =>
    rw [hname] at hcall
    cases hcall
  | some p =>
    rw [hname] at hcall
    exact plan_follows hv hsize hargs free hcall

/-! ### Calls on bytes -/

/-- An effect that leaves the lists alone. -/
def Effect.Apart (v : View) : Effect → Prop
  | .give _ => True
  | .rewrite h _ _ => (v h).cls ≠ .list
  | .make _ c => c.cls.stored ≠ .list

/-- A container of bytes is a string or a byte array. -/
theorem container_of_holdsBytes {r : Ref} (hb : v.holdsBytes r = true) :
    ∃ h, v.container? r = some (.string h) ∨
      v.container? r = some (.byteArray h) ∧ (v h).cls = .byteArray := by
  cases r with
  | obj h =>
    refine ⟨h, ?_⟩
    simp only [View.holdsBytes, View.container?] at hb ⊢
    cases hcls : (v h).cls with
    | string => exact Or.inl rfl
    | byteArray => exact Or.inr ⟨rfl, rfl⟩
    | list =>
      rw [hcls] at hb
      cases hb
    | other t =>
      rw [hcls] at hb
      cases hb
  | _ => cases hb

theorem apart_text (text : List UInt8) (o : Origin) : (Effect.make o (.ofText text)).Apart v := by
  intro hcls
  cases hcls

section Bytes

variable {container : Ref} (hb : v.holdsBytes container = true)
include hb

theorem getItem_apart (selector : Ref) :
    (Plan.getItem v container selector).Ensures (Effect.Apart v) := by
  obtain ⟨h, hstring | ⟨harray, _⟩⟩ := container_of_holdsBytes hb
  · refine Plan.Ensures.need fun target htarget => Plan.Ensures.need fun s _ => ?_
    cases hstring.symm.trans htarget
    refine Plan.Ensures.any (fun i => ?_) _
    exact apart_text _ _
  · refine Plan.Ensures.need fun target htarget => Plan.Ensures.need fun s _ => ?_
    cases harray.symm.trans htarget
    refine Plan.Ensures.any (fun i => ?_) _
    trivial

/-- What holds bytes is no list. -/
theorem apart_rewrite {h : Handle} (hobj : container = .obj h) (words : List Word) (r : Ref) :
    (Effect.rewrite h words r).Apart v := by
  subst hobj
  intro hlist
  obtain ⟨g, hg⟩ := container_of_holdsBytes hb
  simp [View.container?, hlist, Container.ofClass?] at hg

theorem putItem_apart (selector value : Ref) :
    (Plan.putItem v container selector value).Ensures (Effect.Apart v) :=
  Plan.putItem_ensures (fun _ words hobj _ => apart_rewrite hb hobj words _) selector value

theorem fill_apart (value : Ref) : (Plan.fill v container value).Ensures (Effect.Apart v) :=
  Plan.fill_ensures (fun _ words hobj _ => apart_rewrite hb hobj words _) value

theorem copyFromTo_apart (first : Ref) (last : Option Ref) :
    (Plan.copyFromTo v container first last).Ensures (Effect.Apart v) := by
  refine Plan.Ensures.any (fun first => Plan.Ensures.any (fun last => ?_) _) _
  obtain ⟨h, hstring | ⟨harray, _⟩⟩ := container_of_holdsBytes hb
  · rw [hstring]
    exact apart_text _ _
  · rw [harray]
    trivial

theorem join_apart (rest : List Ref) :
    (Plan.join v (container :: rest)).Ensures (Effect.Apart v) := by
  cases rest with
  | nil => trivial
  | cons second rest =>
    dsimp only [Plan.join]
    -- the first part decides what is joined
    obtain ⟨h, hstring | ⟨harray, _⟩⟩ := container_of_holdsBytes hb
    · rw [hstring]
      refine Plan.Ensures.any (fun printed => ?_) _
      exact apart_text _ _
    · rw [harray]
      trivial

end Bytes

/-- **A call that is none on lists leaves them alone.** -/
theorem plan_apart {args : List Ref} (free : Nat) {p : Primitive}
    (hcall : p.listCall? v args = none) :
    (p.plan v free args).Ensures (Effect.Apart v) := by
  unfold Primitive.listCall? at hcall
  unfold Primitive.plan
  by_cases hfew : args.length < p.arity
  · rw [if_pos hfew]
    trivial
  · rw [if_neg hfew] at hcall ⊢
    have hunless {r : Ref} {call : ListCall}
        (h : (if v.holdsBytes r then none else some call) = none) : v.holdsBytes r = true := by
      split at h
      · next hb => exact hb
      · cases h
    cases p with
    | makeList => cases hcall
    | newList => cases hcall
    | addLast => cases hcall
    | delete => cases hcall
    | getItem => exact getItem_apart (hunless hcall) _
    | putItem => exact putItem_apart (hunless hcall) _ _
    | fill => exact fill_apart (hunless hcall) _
    | length => exact Plan.length_ensures (fun _ => trivial) _
    | copyFromTo => exact copyFromTo_apart (hunless hcall) _ _
    | join =>
      cases args with
      | nil => trivial
      | cons first rest => exact join_apart (hunless hcall) rest
    | findInString => exact Plan.findInString_ensures (fun _ => trivial) _ _ _
    | joinStrings => exact Plan.joinStrings_ensures (fun text => apart_text text _) _ _
    | freeMemory => trivial

/-- Every other call leaves the lists alone. -/
theorem planNamed_apart {args : List Ref} (free : Nat) {name : String}
    (hcall : Primitive.listCallNamed? v name args = none) :
    (Primitive.planNamed name v free args).Ensures (Effect.Apart v) := by
  unfold Primitive.listCallNamed? at hcall
  unfold Primitive.planNamed
  cases hname : Primitive.ofName? name with
  | none => trivial
  | some p =>
    rw [hname] at hcall
    exact plan_apart free hcall

end Calls

end ObjectMemory
