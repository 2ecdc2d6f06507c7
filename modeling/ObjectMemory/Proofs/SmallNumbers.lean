import ObjectMemory.Proofs.Closure
import ObjectMemory.Proofs.Pieces

/-!
# Small numbers

Numbers meet four limits: an arena has at most 2^28 words, a header states at most 2^28 - 1 of
them, a handle keeps its index below 2^30, and an integer lies between -2^30 and 2^30 - 1. Four
bytes to a word, the largest byte array comes within a few units of the last one.

The objects of a tiling fit their headers because they fit the arena. So places and numbers of
items, code points and bytes are small, and what a plan gives can be held by a word
(`plan_canonical`).
-/

namespace ObjectMemory

/-! ## Numbers and words -/

/-- A count that is no larger than the largest small integer is told as it is. -/
theorem Ref.ofCount_of_le {n : Nat} (hn : n ≤ maxSmallInt) : ofCount n = .int n := by
  unfold ofCount
  congr 1
  omega

/-- **Every word reads as a reference that a word can hold.** -/
theorem Ref.canonical_ofWord (w : Word) : (ofWord w).Canonical := by
  have hw := w.toNat_lt
  unfold ofWord
  dsimp only
  split
  · unfold signedHalf
    split <;> simp only [Canonical] <;> omega
  · split
    · simp only [Canonical]
      omega
    · split
      · trivial
      · split <;> trivial

theorem tag_ofTag (t : Nat) : (ObjClass.ofTag t).tag = t % 16 := by
  unfold ObjClass.ofTag
  split
  · next h => exact h.symm
  · split
    · next h => exact h.symm
    · split
      · next h => exact h.symm
      · exact Nat.mod_mod t 16

theorem tag_stored (c : ObjClass) : c.stored.tag = c.tag := by
  cases c with
  | other t => exact Nat.mod_mod t 16
  | _ => rfl

/-- **A header is its parts**: the payload size above the four bits of the tag. -/
theorem Header.toNat_eq (header : Header) :
    header.word.toNat = 16 * header.payloadWords + header.cls.tag := by
  rw [cls, tag_ofTag, payloadWords]
  omega

/-! ## Objects -/

/-- No object is too large for a header. -/
def View.FitsHeaders (v : View) (hs : List Handle) : Prop :=
  ∀ h ∈ hs, (v h).words.length ≤ maxPayloadWords

section Objects

variable {a : Arena} {hs : List Handle} {h : Handle} {o : Issue}

theorem Arena.Tiled.fitsHeaders (ht : a.Tiled hs) : a.view.FitsHeaders hs := by
  intro h hh
  have hholds := ht.holds hh
  have hafter := hholds.after_le
  have hroom := ht.room
  have hsize := ht.size
  rw [Store.after_eq] at hafter
  unfold maxArenaWords at hsize
  unfold maxPayloadWords
  rw [Arena.length_view hholds]
  omega

/-- **What there is room for in an arena, there is room for in a header.** -/
theorem Arena.Tiled.fits_iff (ht : a.Tiled hs) (n : Nat) :
    a.Fits n ↔ a.used + (1 + n) < a.capacity := by
  have hsize := ht.size
  unfold maxArenaWords at hsize
  unfold Arena.Fits maxPayloadWords
  omega

/-- The bytes of an object can be counted. -/
theorem View.FitsHeaders.bytes_le {v : View} (hv : v.FitsHeaders hs) (hh : h ∈ hs) :
    (v h).bytes.length ≤ Ref.maxSmallInt := by
  have hwords := hv h hh
  unfold maxPayloadWords at hwords
  unfold Ref.maxSmallInt
  rw [Content.length_bytes]
  omega

theorem View.FitsHeaders.text_le {v : View} (hv : v.FitsHeaders hs) (hh : h ∈ hs) :
    (v h).text.length ≤ Ref.maxSmallInt := by
  have hbytes := hv.bytes_le hh
  have htext := (v h).textLength_le
  rw [Content.length_bytes] at hbytes
  rw [Content.length_text]
  omega

theorem View.FitsHeaders.count_le {v : View} (hv : v.FitsHeaders hs) (hh : h ∈ hs) :
    (v h).count ≤ Ref.maxSmallInt := by
  have hwords := hv h hh
  have hcount := (v h).count_le
  unfold Content.capacity at hcount
  unfold maxPayloadWords at hwords
  unfold Ref.maxSmallInt
  omega

theorem View.FitsHeaders.codePoints_le {v : View} (hv : v.FitsHeaders hs) (hh : h ∈ hs) :
    CodePoints.count (v h).text ≤ Ref.maxSmallInt :=
  Nat.le_trans (CodePoints.count_le _) (hv.text_le hh)

/-- An object that is accounted for has a small handle and a header that lost no bits. -/
theorem Accounted.within {log : List Issue} (hacc : Accounted a log) (ho : o ∈ log) :
    o.handle.index ≤ Ref.maxSmallInt ∧ o.payload ≤ maxPayloadWords ∧
      ∃ header, a.header o.handle = .ok header ∧
        header.word.toNat = 16 * o.payload + o.cls.tag := by
  have hmem : o.handle ∈ log.map Issue.handle := List.mem_map_of_mem ho
  have hsmall := hacc.tiled.small hmem
  have hfits := hacc.tiled.fitsHeaders o.handle hmem
  have hf := hacc.faithful o ho
  rw [Arena.length_view (hacc.holds ho), hf.payload] at hfits
  refine ⟨?_, hfits, _, Arena.header_of_holds (hacc.holds ho), ?_⟩
  · unfold Ref.maxSmallInt
    omega
  · have hpayload : (Header.mk (a.store.get o.handle.index)).payloadWords = o.payload := hf.payload
    rw [Header.toNat_eq, hpayload, hf.cls, tag_stored]

end Objects

/-! ## What primitives give -/

/-- What the effect gives can be held by a word. New objects are judged by where they end up. -/
def Effect.Canonical : Effect → Prop
  | .give r | .rewrite _ _ r => r.Canonical
  | .make _ _ => True

section Given

variable {v : View} {hs : List Handle} {container : Ref}

theorem canonical_false : Ref.false.Canonical := trivial

theorem addLast_canonical (hv : v.Nameable hs) {list : Ref} (hl : list.Among hs) (item : Ref) :
    (Plan.addLast v list item).Ensures Effect.Canonical := by
  refine Plan.Ensures.need fun h hn => ?_
  dsimp only
  split
  · trivial
  · exact hv.small h (list_of_named? hl hn).1

theorem getItem_canonical (container selector : Ref) :
    (Plan.getItem v container selector).Ensures Effect.Canonical := by
  refine Plan.Ensures.any (fun target => Plan.Ensures.any (fun s => ?_) _) _
  cases target with
  | list h =>
    refine Plan.Ensures.any (fun i => ?_) _
    exact Ref.canonical_ofWord _
  | string h =>
    refine Plan.Ensures.any (fun i => ?_) _
    trivial
  | byteArray h =>
    refine Plan.Ensures.any (fun i => ?_) _
    have hbyte := ((v h).bytes.getD (i - 1) 0).toNat_lt
    show (Ref.int _).Canonical
    simp only [Ref.Canonical]
    omega

theorem length_canonical (container : Ref) :
    (Plan.length v container).Ensures Effect.Canonical := by
  refine Plan.Ensures.any (fun target => ?_) _
  cases target <;> exact Ref.canonical_ofCount _

theorem text_of_among {r : Ref} {text : List UInt8} (hr : r.Among hs)
    (ht : v.text? r = some text) : ∃ h ∈ hs, text = (v h).text := by
  obtain ⟨h, hnamed, rfl⟩ := Option.map_eq_some_iff.mp ht
  exact ⟨h, (list_of_named? hr hnamed).1, rfl⟩

/-- A place in a string is small, since a string is. -/
theorem canonical_find {needle haystack : List UInt8} (hlen : haystack.length ≤ Ref.maxSmallInt)
    (start : Int) : (Ref.int (Search.find needle haystack start)).Canonical := by
  have hbounds := Search.find_bounds needle haystack start
  unfold Ref.maxSmallInt at hlen
  simp only [Ref.Canonical]
  omega

theorem findInString_canonical (hv : v.FitsHeaders hs) {haystack : Ref} (hh : haystack.Among hs)
    (needle : Ref) (start : Option Ref) :
    (Plan.findInString v needle haystack start).Ensures Effect.Canonical := by
  refine Plan.Ensures.any (fun small => Plan.Ensures.need fun large hlarge => ?_) _
  obtain ⟨h, hin, rfl⟩ := text_of_among hh hlarge
  exact canonical_find (hv.text_le hin) _

/-- **A plan gives only what a word can hold.** -/
theorem plan_canonical (hv : v.Nameable hs) (hsize : v.FitsHeaders hs) {args : List Ref}
    (hargs : ∀ r ∈ args, r.Among hs) (p : Primitive) (free : Nat) :
    (p.plan v free args).Ensures Effect.Canonical := by
  have hget (i : Nat) : (args.getD i .nil).Among hs := among_getD hargs i
  unfold Primitive.plan
  split
  · trivial
  · cases p with
    | makeList => trivial
    | newList => trivial
    | addLast => exact addLast_canonical hv (hget 1) _
    | delete => exact Plan.delete_ensures (fun _ _ _ _ => canonical_false) canonical_false _
    | join => exact Plan.join_ensures (fun _ => trivial) (fun _ => trivial) _
    | copyFromTo => exact Plan.copyFromTo_ensures (fun _ => trivial) (fun _ => trivial) _ _ _
    | findInString => exact findInString_canonical hsize (hget 1) _ _
    | joinStrings => exact Plan.joinStrings_ensures (fun _ => trivial) _ _
    | freeMemory => exact Ref.canonical_ofCount free
    | getItem => exact getItem_canonical _ _
    | putItem => exact Plan.putItem_ensures (fun _ _ _ _ => canonical_false) _ _
    | fill => exact Plan.fill_ensures (fun _ _ _ _ => canonical_false) _
    | length => exact length_canonical _

theorem planNamed_canonical (hv : v.Nameable hs) (hsize : v.FitsHeaders hs) {args : List Ref}
    (hargs : ∀ r ∈ args, r.Among hs) (name : String) (free : Nat) :
    (Primitive.planNamed name v free args).Ensures Effect.Canonical :=
  Primitive.planNamed_ensures (fun p => plan_canonical hv hsize hargs p free) name

theorem Effect.Canonical.performed {e : Effect} {a : Arena} {s : Source} {r : Ref} {d : Context}
    (he : e.Canonical) (hsize : a.capacity ≤ maxArenaWords) (hp : e.Performed a s (.ok r d)) :
    r.Canonical := by
  cases e with
  | give x =>
    cases hp
    exact he
  | rewrite h words x =>
    obtain ⟨b, heq, _⟩ := hp
    cases heq
    exact he
  | make o content =>
    obtain ⟨rfl, b, _, hmade⟩ := hp.made
    have hfits := hmade.fits.1
    unfold maxArenaWords at hsize
    show a.used < 1073741824
    omega

end Given

end ObjectMemory
