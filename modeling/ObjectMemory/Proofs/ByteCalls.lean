import ObjectMemory.Proofs.ByteArrays
import ObjectMemory.Proofs.Kinds
import ObjectMemory.Proofs.SmallNumbers

/-!
# Plans of calls on byte arrays

A view shows byte arrays as rows of bytes, and on these every call on a byte array has a ruling.
The plan of the call ends as the ruling says, whatever is drawn (`plan_obeys`). Each store replaces
whole words, so what has to be shown is that the rows of bytes in them are the ones that are ruled.
All other calls avoid byte arrays (`plan_avoids`).
-/

namespace ObjectMemory

/-- The byte arrays that a view shows at the handles `hs`. -/
def View.arrays (v : View) (hs : List Handle) : Arrays :=
  v.shown hs .byteArray Content.bytes

/-- The effect does what the ruling says. -/
def Effect.Obeys (v : View) (hs : List Handle) (e : Effect) : Ruling → Prop
  | .oneOf rs => ∃ r ∈ rs, e = .give r
  | .store h bytes => h ∈ hs ∧ (v h).cls = .byteArray ∧
      ∃ words, e = .rewrite h words .false ∧ words.flatMap Word.bytes = bytes
  | .refuse _ => False

/-- Whatever is drawn, the plan ends as the ruling says. -/
def Plan.Obeys (v : View) (hs : List Handle) (plan : Plan Effect) (ruling : Ruling) : Prop :=
  ∀ s, match (plan.run s).1 with
    | .ok e => e.Obeys v hs ruling
    | .error f => ruling = .refuse f

section Obeying

variable {v : View} {hs : List Handle} {h : Handle} {ruling : Ruling} {f : Failure}

theorem obeys_refuse (f : Failure) : (Plan.refuse f).Obeys v hs (.refuse f) := fun _ => rfl

theorem obeys_give {e : Effect} (he : e.Obeys v hs ruling) : (Plan.give e).Obeys v hs ruling :=
  fun _ => he

/-- What is missing is refused by both, for the same reason. -/
theorem obeys_need {α : Type} {found : Option α} {k : α → Ruling} {next : α → Plan Effect}
    (hnext : ∀ x, found = some x → (next x).Obeys v hs (k x)) :
    (Plan.need f found >>= next).Obeys v hs (Ruling.need f found k) := by
  cases found with
  | none => exact obeys_refuse f
  | some x => exact hnext x rfl

/-- The byte at the place that a selector names. -/
theorem obeys_item {bytes : List UInt8} (place : Selector) :
    (do
      let i ← Plan.place place bytes.length
      Plan.give (Effect.give (.ofByte (bytes.getD (i - 1) 0)))).Obeys v hs
        (Ruling.item bytes place) := by
  have hbyte {i : Nat} (hi : 1 ≤ i ∧ i ≤ bytes.length) : bytes[i - 1]? = some bytes[i - 1] :=
    List.getElem?_eq_getElem (by omega)
  cases place with
  | index i =>
    dsimp only [Plan.place, Ruling.item]
    by_cases hi : 1 ≤ i ∧ i ≤ bytes.length
    · rw [if_pos hi, if_pos hi]
      exact obeys_give ⟨_, List.mem_cons_self, rfl⟩
    · rw [if_neg hi, if_neg hi]
      exact obeys_refuse _
  | last =>
    dsimp only [Plan.place, Ruling.item]
    rw [List.getLast?_eq_getElem?]
    by_cases hpos : 0 < bytes.length
    · have hlast := hbyte ⟨hpos, Nat.le_refl _⟩
      rw [if_pos hpos, hlast]
      refine obeys_give ⟨_, List.mem_cons_self, ?_⟩
      rw [List.getD_eq_getElem?_getD, hlast]
      rfl
    · rw [if_neg hpos, List.getElem?_eq_none (by omega)]
      exact obeys_refuse _
  | random =>
    dsimp only [Plan.place, Ruling.item]
    by_cases hpos : 0 < bytes.length
    · rw [if_pos hpos, if_neg (List.ne_nil_of_length_pos hpos)]
      intro s
      -- whatever is picked lies among the bytes
      have hlast := hbyte (s.pick_bounds hpos)
      refine ⟨_, List.mem_map_of_mem (List.mem_of_getElem? hlast), ?_⟩
      rw [List.getD_eq_getElem?_getD, hlast]
      rfl
    · rw [if_neg hpos, if_pos (List.eq_nil_of_length_eq_zero (by omega))]
      exact obeys_refuse _
  | all => exact obeys_refuse _

/-- A byte array is rewritten as the ruling asks if its words hold those bytes. -/
theorem obeys_store (hh : h ∈ hs) (hcls : (v h).cls = .byteArray) {words : List Word}
    {bytes : List UInt8} (hbytes : words.flatMap Word.bytes = bytes) :
    (Plan.give (.rewrite h words .false)).Obeys v hs (.store h bytes) :=
  obeys_give ⟨hh, hcls, words, rfl, hbytes⟩

/-- **What needs a container goes on with the array**, and the ruling with its bytes. -/
theorem obeys_array (hh : h ∈ hs) (hcls : (v h).cls = .byteArray) {k : List UInt8 → Ruling}
    {next : Container → Plan Effect} (hnext : (next (.byteArray h)).Obeys v hs (k (v h).bytes)) :
    (Plan.need f (v.container? (.obj h)) >>= next).Obeys v hs
      (Ruling.need f (v.arrays hs h) k) := by
  have htarget : v.container? (.obj h) = some (.byteArray h) := by
    rw [View.container?, hcls, Container.ofClass?]
  have hbytes : v.arrays hs h = some (v h).bytes := shown_of_mem hh hcls
  rw [htarget, hbytes]
  exact hnext

theorem byte_eq_need (value : Ref) : Plan.byte value = Plan.need .byteArrayStore value.byte? := by
  cases value with
  | int n =>
    simp only [Plan.byte, ByteArrayObject.byteValue, Ref.byte?]
    by_cases hn : 0 ≤ n ∧ n ≤ 255
    · rw [if_pos hn, if_pos hn]
      rfl
    · rw [if_neg hn, if_neg hn]
      rfl
  | _ => rfl

end Obeying

/-! ## Each call -/

/-- All words filled with a byte hold it in all places. -/
theorem flatMap_bytes_filled (n : Nat) (b : UInt8) :
    (List.replicate n (Word.ofBytes fun _ => b)).flatMap Word.bytes = List.replicate (4 * n) b := by
  apply List.ext_getElem?
  intro k
  rw [Word.getElem?_flatMap_bytes, List.getElem?_replicate, List.getElem?_replicate]
  by_cases hk : k < 4 * n
  · have hplace : k % 4 < 4 := Nat.mod_lt k (by decide)
    rw [if_pos (by omega), if_pos hk]
    exact congrArg some (Word.byte_ofBytes _ hplace)
  · rw [if_neg (by omega), if_neg hk]
    rfl

section Calls

variable {v : View} {hs : List Handle} {h : Handle} {args : List Ref} {p : Primitive}
  {call : ArrayCall} (hh : h ∈ hs) (hcls : (v h).cls = .byteArray)
include hh hcls

theorem getItem_obeys (selector : Ref) :
    (Plan.getItem v (.obj h) selector).Obeys v hs
      ((ArrayCall.getItem h (v.selector? selector)).ruling (v.arrays hs)) :=
  obeys_array hh hcls (obeys_need fun place _ => obeys_item place)

/-- A word that repeats one byte holds it in all places. -/
theorem fillBytes_obeys (b : UInt8) :
    (Plan.give (.rewrite h (List.replicate (v h).words.length (Word.ofBytes fun _ => b))
      .false)).Obeys v hs (.store h (List.replicate (v h).bytes.length b)) := by
  refine obeys_store hh hcls ?_
  rw [flatMap_bytes_filled, Content.length_bytes]

/-- One byte is replaced in its place, or all of them. -/
theorem putBytes_obeys (b : UInt8) (place : Selector) :
    (Plan.putBytes (v h) h place b).Obeys v hs (Ruling.replaced h (v h).bytes b place) := by
  have hput (i : Nat) :
      (Plan.give (.rewrite h (Word.putByte (v h).words i b) .false)).Obeys v hs
        (.store h ((v h).bytes.set i b)) :=
    obeys_store hh hcls (Word.flatMap_bytes_putByte _ i b)
  cases place with
  | index i =>
    dsimp only [Plan.putBytes, Plan.place, Ruling.replaced]
    by_cases hi : 1 ≤ i ∧ i ≤ (v h).bytes.length
    · rw [if_pos hi, if_pos hi]
      exact hput _
    · rw [if_neg hi, if_neg hi]
      exact obeys_refuse _
  | last =>
    dsimp only [Plan.putBytes, Plan.place, Ruling.replaced]
    by_cases hpos : 0 < (v h).bytes.length
    · rw [if_pos hpos, if_neg (List.ne_nil_of_length_pos hpos)]
      exact hput _
    · rw [if_neg hpos, if_pos (List.eq_nil_of_length_eq_zero (by omega))]
      exact obeys_refuse _
  | all => exact fillBytes_obeys hh hcls b
  | random => exact obeys_refuse _

/-- The value is checked before the place is. -/
theorem putItem_obeys (selector value : Ref) :
    (Plan.putItem v (.obj h) selector value).Obeys v hs
      ((ArrayCall.putItem h (v.selector? selector) value).ruling (v.arrays hs)) := by
  refine obeys_array hh hcls (obeys_need fun place _ => ?_)
  rw [byte_eq_need]
  exact obeys_need fun b _ => putBytes_obeys hh hcls b place

theorem fill_obeys (value : Ref) :
    (Plan.fill v (.obj h) value).Obeys v hs ((ArrayCall.fill h value).ruling (v.arrays hs)) := by
  have hbytes : v.arrays hs h = some (v h).bytes := shown_of_mem hh hcls
  unfold Plan.fill
  dsimp only [ArrayCall.ruling, View.container?]
  rw [hcls, hbytes]
  dsimp only [Container.ofClass?]
  rw [byte_eq_need]
  exact obeys_need fun b _ => fillBytes_obeys hh hcls b

/-- A length that a header can state is given as a number. -/
theorem length_obeys (hsize : v.FitsHeaders hs) :
    (Plan.length v (.obj h)).Obeys v hs ((ArrayCall.length h).ruling (v.arrays hs)) := by
  refine obeys_array hh hcls (obeys_give ⟨_, List.mem_cons_self, ?_⟩)
  rw [Ref.ofCount_of_le (hsize.bytes_le hh)]

end Calls

section Naming

variable {v : View} {hs : List Handle} {args : List Ref} {p : Primitive} {call : ArrayCall}

/-- **Every call on a byte array ends as its ruling says.** -/
theorem plan_obeys (hsize : v.FitsHeaders hs) (hargs : ∀ r ∈ args, r.Among hs) (free : Nat)
    (hcall : p.arrayCall? v args = some call) :
    (p.plan v free args).Obeys v hs (call.ruling (v.arrays hs)) := by
  unfold Primitive.arrayCall? at hcall
  unfold Primitive.plan
  by_cases hfew : args.length < p.arity
  · simp only [if_pos hfew] at hcall ⊢
    cases p <;> cases hcall <;> exact obeys_refuse _
  · -- the array is one of the arguments
    have harray {i : Nat} {on : Handle → ArrayCall}
        (h : (v.named? .byteArray (args.getD i .nil)).map on = some call) :
        ∃ g ∈ hs, args.getD i .nil = .obj g ∧ (v g).cls = .byteArray ∧ on g = call := by
      obtain ⟨g, hg, hon⟩ := Option.map_eq_some_iff.mp h
      obtain ⟨hobj, hcls⟩ := View.named?_eq_some.mp hg
      exact ⟨g, among_getD hargs i g hobj, hobj, hcls, hon⟩
    simp only [if_neg hfew] at hcall ⊢
    cases p with
    | getItem =>
      obtain ⟨g, hg, hobj, hcls, rfl⟩ := harray hcall
      rw [hobj]
      exact getItem_obeys hg hcls _
    | putItem =>
      obtain ⟨g, hg, hobj, hcls, rfl⟩ := harray hcall
      rw [hobj]
      exact putItem_obeys hg hcls _ _
    | fill =>
      obtain ⟨g, hg, hobj, hcls, rfl⟩ := harray hcall
      rw [hobj]
      exact fill_obeys hg hcls _
    | length =>
      obtain ⟨g, hg, hobj, hcls, rfl⟩ := harray hcall
      rw [hobj]
      exact length_obeys hg hcls hsize
    | _ => cases hcall

/-- **A call that is none on a byte array avoids them all.** -/
theorem plan_avoids (free : Nat) (hcall : p.arrayCall? v args = none) :
    (p.plan v free args).Ensures (Effect.Avoids .byteArray v) := by
  have hlist (o : Origin) (words : List Word) :
      (Effect.make o ⟨.list, words⟩).Avoids .byteArray v := by
    rintro ⟨⟩
  have htext (text : List UInt8) : (Effect.make .fresh (.ofText text)).Avoids .byteArray v := by
    rintro ⟨⟩
  have hrewrite {h : Handle} (hcls : (v h).cls = .list) (words : List Word) (r : Ref) :
      (Effect.rewrite h words r).Avoids .byteArray v := by
    intro harray
    cases hcls.symm.trans harray
  unfold Primitive.arrayCall? at hcall
  unfold Primitive.plan
  by_cases hfew : args.length < p.arity
  · rw [if_pos hfew]
    trivial
  · have hother {r : Ref} {on : Handle → ArrayCall} (h : (v.named? .byteArray r).map on = none)
        (g : Handle) (words : List Word) (hobj : r = .obj g) :
        (Effect.rewrite g words .false).Avoids .byteArray v := by
      intro harray
      rw [View.named?_eq_some.mpr ⟨hobj, harray⟩] at h
      cases h
    simp only [if_neg hfew] at hcall ⊢
    cases p with
    | makeList => exact hlist _ _
    | newList => exact hlist _ _
    | addLast =>
      refine Plan.Ensures.need fun h hnamed => ?_
      dsimp only
      split
      · exact hlist _ _
      · exact hrewrite (View.named?_eq_some.mp hnamed).2 _ _
    | delete =>
      exact Plan.delete_ensures (fun h words _ hcls => hrewrite hcls words _) trivial _
    | join => exact Plan.join_ensures (fun _ => hlist _ _) htext args
    | copyFromTo => exact Plan.copyFromTo_ensures (fun _ => hlist _ _) htext _ _ _
    | findInString => exact Plan.findInString_ensures (fun _ => trivial) _ _ _
    | joinStrings => exact Plan.joinStrings_ensures htext _ _
    | freeMemory => trivial
    | getItem => exact Plan.getItem_ensures (fun _ => trivial) htext _ _
    | putItem => exact Plan.putItem_ensures (fun g words hobj _ => hother hcall g words hobj) _ _
    | fill => exact Plan.fill_ensures (fun g words hobj _ => hother hcall g words hobj) _
    | length => exact Plan.length_ensures (fun _ => trivial) _

/-- A call on byte arrays does what its ruling asks. -/
theorem planNamed_obeys (hsize : v.FitsHeaders hs) (hargs : ∀ r ∈ args, r.Among hs) (free : Nat)
    {name : String} (hcall : Primitive.arrayCallNamed? v name args = some call) :
    (Primitive.planNamed name v free args).Obeys v hs (call.ruling (v.arrays hs)) := by
  obtain ⟨p, hname, hp⟩ := Option.bind_eq_some_iff.mp hcall
  rw [Primitive.planNamed, hname]
  exact plan_obeys hsize hargs free hp

/-- Every other call leaves the byte arrays alone. -/
theorem planNamed_avoids (free : Nat) {name : String}
    (hcall : Primitive.arrayCallNamed? v name args = none) :
    (Primitive.planNamed name v free args).Ensures (Effect.Avoids .byteArray v) := by
  unfold Primitive.planNamed
  cases hname : Primitive.ofName? name with
  | none => trivial
  | some p =>
    rw [Primitive.arrayCallNamed?, hname] at hcall
    exact plan_avoids free hcall

end Naming

end ObjectMemory
