import ObjectMemory.Proofs.Operation
import ObjectMemory.Proofs.Storing

/-!
# Making objects

An action that makes an object leaves every object that was there as it was, and a new one at the
boundary. `Made` says in addition what the new object holds, and what the arena counts and
records. The record differs by where the object comes from, its `Origin`.

What an object is made to hold is said by a `Content`: `Request.content` for the constructors,
`grown` for a copy of another size.

A size that a caller states has to be one that 64 bits hold together with the header
(`Request.Sized`). Where it is not, the run ends before anything is done
(`Request.make_of_not_sized`).
-/

namespace ObjectMemory

/-! ## Origins -/

/-- Where a new object comes from. -/
inductive Origin where
  /-- It is made from nothing. -/
  | fresh
  /-- It is a copy of another size. -/
  | copyOf (h : Handle)
  /-- It is a copy of a full list with room for more items. -/
  | largerList (h : Handle)
  deriving DecidableEq, Repr

namespace Origin

/-- The counters after an object of `words` words was placed, with its making counted. -/
def counted (words : Nat) (counters : Counters) : Origin → Counters
  | .fresh => counters
  | .copyOf _ | .largerList _ => counters.countRelocation words

/-- The events between the allocation of an object at `start` and the end of its making. -/
def recorded (v : View) (start words : Nat) : Origin → List Event
  | .fresh => []
  | .copyOf h => [.relocated h.index start (v h).words.length words]
  | .largerList h =>
    [.relocated h.index start (v h).words.length words,
      .listGrown (v h).capacity (words - 1)]

end Origin

namespace Arena

variable {a b d : Arena} {h : Handle} {c : Content} {o : Origin} {ws : List Word}

/-- Nothing differs but a new object of content `c` at the boundary, made from `o`. -/
structure Made (a : Arena) (o : Origin) (c : Content) (b : Arena) : Prop
    extends a.Gained c.cls c.words.length b where
  words : (b.view ⟨a.used⟩).words = c.words
  counters : b.counters =
    o.counted (1 + c.words.length) (a.counters.countAllocation (a.used + (1 + c.words.length)))
  journal : b.journal = a.journal.push (.allocated a.used c.cls c.words.length) ++
    (o.recorded a.view a.used c.words.length).toArray

/-- An object that was there keeps its words. -/
theorem Gained.keeps {cls : ObjClass} {n : Nat} (hg : a.Gained cls n b) (hh : a.Holds h) :
    a.Keeps h b := by
  have hafter := hh.after_le
  exact fun j _ hj => hg.get j (by omega)

theorem Gained.view_old {cls : ObjClass} {n : Nat} (hg : a.Gained cls n b) (hh : a.Holds h) :
    b.view h = a.view h :=
  (hg.keeps hh).view_eq hh (hg.holds hh)

/-- **The objects that were there show what they showed**, also after stores into the new one. -/
theorem Gained.view_beside {cls : ObjClass} {n : Nat} (hg : a.Gained cls n b)
    (hw : b.WroteIn ⟨a.used⟩ d) (hh : a.Holds h) :
    d.Holds h ∧ d.view h = a.view h ∧ d.store.after h.index ≤ a.used := by
  have hlt := Nat.lt_of_lt_of_le (a.store.lt_after h.index) hh.after_le
  have hbelow : b.store.after h.index ≤ a.used := by
    rw [hg.after_old hlt]
    exact hh.after_le
  obtain ⟨hd, hview⟩ := hw.view_apart (hg.holds hh) (Or.inl hbelow)
  refine ⟨hd, hview.trans (hg.view_old hh), ?_⟩
  rw [(hg.wrote hw).after_old hlt]
  exact hh.after_le

/-- **The new object shows its content**, of which a record keeps the tag's four low bits. -/
theorem Made.view_new (hm : a.Made o c b) : b.view ⟨a.used⟩ = ⟨c.cls.stored, c.words⟩ := by
  have hcls : (b.view ⟨a.used⟩).cls = c.cls.stored := by
    rw [view_of_holds hm.holds_new]
    show (Header.mk (b.store.get a.used)).cls = _
    rw [hm.header]
    exact Header.cls_ofParts hm.fits.2 hm.storable
  have hwords := hm.words
  generalize b.view ⟨a.used⟩ = e at hcls hwords
  obtain ⟨cls, words⟩ := e
  cases hcls
  cases hwords
  rfl

/-- A new object that shows a string was made as one, and shows the content as it is. -/
theorem Made.view_string (hm : a.Made o c b) (hcls : (b.view ⟨a.used⟩).cls = .string) :
    c.cls = .string ∧ b.view ⟨a.used⟩ = c := by
  rw [hm.view_new] at hcls ⊢
  obtain ⟨cls, words⟩ := c
  cases cls with
  | string => exact ⟨rfl, rfl⟩
  | _ => cases hcls

/-- **What is stored into the new object at once is part of its content.** -/
theorem Made.stored (hm : a.Made o c b) (hs : b.Stored ⟨a.used⟩ ws d) :
    a.Made o ⟨c.cls, ws⟩ d := by
  have hlen : ws.length = c.words.length := by
    rw [hs.length_eq hm.holds_new, hm.words]
  have hg := hm.toGained.wrote hs.toWroteIn
  refine ⟨?_, hs.words, ?_, ?_⟩
  · show a.Gained c.cls ws.length d
    rwa [hlen]
  · show _ = o.counted (1 + ws.length) _
    rw [hlen, hs.counters]
    exact hm.counters
  · show _ = a.journal.push (.allocated a.used c.cls ws.length) ++
      (o.recorded a.view a.used ws.length).toArray
    rw [hlen, hs.journal]
    exact hm.journal

/-! ## Allocation and growth -/

/-- **The action makes an object of content `c` from `o`**, or is refused for want of room. -/
def Makes (act : ArenaM Handle) (o : Origin) (c : Content) (a : Arena) : Prop :=
  if a.Fits c.words.length then ∃ b, act a = .ok ⟨a.used⟩ b ∧ a.Made o c b
  else act a = .error (a.exhaustion c.words.length) (a.refused c.words.length)

theorem makes_of_fits {act : ArenaM Handle} {n : Nat} (hlen : c.words.length = n)
    (hfits : a.Fits n → ∃ b, act a = .ok ⟨a.used⟩ b ∧ a.Made o c b)
    (hfull : ¬ a.Fits n → act a = .error (a.exhaustion n) (a.refused n)) : Makes act o c a := by
  subst hlen
  unfold Makes
  split
  · next h => exact hfits h
  · next h => exact hfull h

theorem Makes.of_fits {act : ArenaM Handle} (hm : Makes act o c a)
    (hfits : a.Fits c.words.length) : ∃ b, act a = .ok ⟨a.used⟩ b ∧ a.Made o c b := by
  unfold Makes at hm
  rwa [if_pos hfits] at hm

theorem Makes.eq_ok {act : ArenaM Handle} (hm : Makes act o c a) {g : Handle}
    (hrun : act a = .ok g b) : g = ⟨a.used⟩ ∧ a.Made o c b := by
  unfold Makes at hm
  split at hm
  · obtain ⟨d, hd, hmade⟩ := hm
    rw [hrun] at hd
    cases hd
    exact ⟨rfl, hmade⟩
  · rw [hrun] at hm
    cases hm

/-- An action that made nothing found no room. -/
theorem Makes.eq_error {act : ArenaM Handle} {s : Stop} (hm : Makes act o c a)
    (hrun : act a = .error s b) :
    ¬ a.Fits c.words.length ∧ s = a.exhaustion c.words.length ∧ b = a.refused c.words.length := by
  unfold Makes at hm
  split at hm
  · obtain ⟨_, hok, _⟩ := hm
    rw [hrun] at hok
    cases hok
  · next hfull =>
    rw [hrun] at hm
    cases hm
    exact ⟨hfull, rfl, rfl⟩

theorem makes_of_eq {act other : ArenaM Handle} (heq : act a = other a) (hm : Makes other o c a) :
    Makes act o c a := by
  unfold Makes at hm ⊢
  rwa [heq]

/-- **Making an object may end with stores into it.** -/
theorem Makes.bind {act : ArenaM Handle} {next : Handle → ArenaM Handle}
    (hm : Makes act o c a) (hlen : ws.length = c.words.length)
    (hnext : ∀ b, a.Made o c b →
      ∃ d, next ⟨a.used⟩ b = .ok ⟨a.used⟩ d ∧ b.Stored ⟨a.used⟩ ws d) :
    Makes (act >>= next) o ⟨c.cls, ws⟩ a := by
  unfold Makes at hm
  split at hm
  · next hfits =>
    obtain ⟨b, hrun, hmade⟩ := hm
    obtain ⟨d, hstore, hs⟩ := hnext b hmade
    refine makes_of_fits hlen (fun _ => ⟨d, ?_, hmade.stored hs⟩) fun hfull => absurd hfits hfull
    rw [bind_of_ok hrun]
    exact hstore
  · next hfull =>
    refine makes_of_fits hlen (fun hfits => absurd hfits hfull) fun _ => ?_
    exact bind_of_error hm

theorem allot_makes {cls : ObjClass} (hc : cls.Storable) (n : Nat) (fill : Ref) (a : Arena) :
    Makes (allot cls n fill) .fresh ⟨cls, List.replicate n fill.toWord⟩ a := by
  have hrun := allot_eq hc n fill a
  have hlen : (List.replicate n fill.toWord).length = n := List.length_replicate
  refine makes_of_fits hlen (fun hfits => ?_) fun hfull => by rwa [if_neg hfull] at hrun
  rw [if_pos hfits] at hrun
  have hg := gained_issued hfits hc fill.toWord
  refine ⟨_, hrun, ?_, words_of_get hg.holds_new ?_ fun k hk => ?_, ?_, ?_⟩
  · rwa [hlen]
  · rw [hlen]
    exact hg.wordsAt.symm
  · rw [hlen] at hk
    rw [List.getElem?_replicate, if_pos hk]
    show _ = some ((a.place _ _ _).store.get (a.used + 1 + k))
    rw [get_place, if_neg (by omega), if_pos (by omega)]
  · rw [hlen]
    rfl
  · rw [hlen]
    exact (Array.append_empty).symm

theorem allocate_makes {cls : ObjClass} (hc : cls.Storable) {n : Nat}
    (hsize : 1 + n ≤ Size.largest) (fill : Ref) (a : Arena) :
    Makes (allocate cls n fill) .fresh ⟨cls, List.replicate n fill.toWord⟩ a := by
  rw [allocate_of_le cls fill hsize]
  exact allot_makes hc n fill a

/-- The words of a copy with `n` words: those that both have, and then `fill`. -/
def grown (words : List Word) (n : Nat) (fill : Word) : List Word :=
  words.take n ++ List.replicate (n - words.length) fill

theorem length_grown (words : List Word) (n : Nat) (fill : Word) :
    (grown words n fill).length = n := by
  simp only [grown, List.length_append, List.length_take, List.length_replicate]
  omega

theorem getElem?_grown {words : List Word} {n k : Nat} {fill : Word} (hk : k < n) :
    (grown words n fill)[k]? = some (words.getD k fill) := by
  rw [grown, List.getD_eq_getElem?_getD]
  by_cases hlt : k < words.length
  · rw [List.getElem?_append_left (by rw [List.length_take]; omega), List.getElem?_take_of_lt hk,
      List.getElem?_eq_getElem hlt]
    rfl
  · rw [List.getElem?_append_right (by rw [List.length_take]; omega), List.length_take,
      List.getElem?_replicate, if_pos (by omega), List.getElem?_eq_none (by omega)]
    rfl

theorem grow_makes (hh : a.Holds h) {n : Nat} (hsize : 1 + n ≤ Size.largest) (fill : Ref) :
    Makes (grow h n fill) (.copyOf h)
      ⟨(a.view h).cls, grown (a.view h).words n fill.toWord⟩ a := by
  have hrun := grow_eq hh hsize fill
  have hlen := length_grown (a.view h).words n fill.toWord
  refine makes_of_fits hlen (fun hfits => ?_) fun hfull => by rwa [if_neg hfull] at hrun
  rw [if_pos hfits] at hrun
  have hcls : (a.view h).cls = (Header.mk (a.store.get h.index)).cls := by
    rw [view_of_holds hh]
    rfl
  have hg : a.Gained (a.view h).cls n (a.relocated h n fill.toWord) := by
    rw [hcls]
    exact gained_relocated hfits fill.toWord
  have hwords := length_view hh
  refine ⟨_, hrun, ?_, words_of_get hg.holds_new ?_ fun k hk => ?_, ?_, ?_⟩
  · rwa [hlen]
  · rw [hlen]
    exact hg.wordsAt.symm
  · rw [hlen] at hk
    rw [getElem?_grown hk, List.getD_eq_getElem?_getD, getElem?_view hh]
    show _ = some ((Store.move _ _ _ _).get (a.used + 1 + k))
    rw [Store.get_move]
    by_cases hlt : k < a.store.wordsAt h.index
    · -- the word is copied from below the boundary, where placing the copy changed nothing
      have hbelow := hh.payload_lt hlt
      have hplace : h.index + 1 + (a.used + 1 + k - (a.used + 1)) = h.index + 1 + k := by omega
      rw [if_pos hlt, if_pos (by omega), hplace]
      exact congrArg some (get_place_below _ _ _ hbelow).symm
    · rw [if_neg hlt, if_neg (by omega)]
      show _ = some ((a.place _ _ _).store.get _)
      rw [get_place, if_neg (by omega), if_pos (by omega)]
      rfl
  · rw [hlen]
    rfl
  · rw [hlen]
    show (a.journal.push (.allocated _ _ _)).push (.relocated _ _ _ _) = _
    rw [← hcls, ← hwords]
    rfl

/-- **A copy that was made is the new object**, whatever its size. -/
theorem grow_made (hh : a.Holds h) {n : Nat} {fill : Ref} {g : Handle}
    (hrun : grow h n fill a = .ok g b) :
    g = ⟨a.used⟩ ∧
      a.Made (.copyOf h) ⟨(a.view h).cls, grown (a.view h).words n fill.toWord⟩ b :=
  (grow_makes hh (sized_of_grow hh hrun) fill).eq_ok hrun

/-- A copy of a list is recorded once more when it is made for want of slots. -/
theorem Made.listGrown (hm : a.Made (.copyOf h) c b) :
    a.Made (.largerList h) c { b with
      journal := b.journal.push (.listGrown (a.view h).capacity (c.words.length - 1)) } where
  toGained := ⟨hm.fits, hm.storable, hm.used, hm.capacity, hm.action, hm.header, hm.get⟩
  words := by
    have hview (events : Array Event) : view { b with journal := events } = b.view :=
      view_congr rfl rfl fun _ _ => rfl
    rw [hview]
    exact hm.words
  counters := hm.counters
  journal := by
    show b.journal.push _ = _
    rw [hm.journal]
    rfl

/-! ## Strings and byte arrays -/

theorem allotString_makes (n : Nat) (a : Arena) :
    Makes (allotString n) .fresh ⟨.string, List.replicate (wordsForBytes (n + 1)) 0⟩ a :=
  allot_makes storable_string _ .nil a

/-- A number of bytes that 64 bits hold takes up few enough words for a header beside them. -/
theorem wordsForBytes_sized {n : Nat} (hn : n ≤ Size.largest) :
    1 + wordsForBytes n ≤ Size.largest := by
  unfold wordsForBytes
  rw [Size.largest_eq] at hn ⊢
  omega

theorem allocString_of_le {n : Nat} (hsize : n + 1 ≤ Size.largest) (a : Arena) :
    allocString n a = allotString n a := by
  rw [allocString, bind_of_ok (look_add_of_le hsize a),
    allocate_of_le _ _ (wordsForBytes_sized hsize), allotString]

theorem allocString_of_lt {n : Nat} (hsize : Size.largest < n + 1) (a : Arena) :
    allocString n a = .error .overflow a := by
  rw [allocString, bind_of_error (look_add_of_lt hsize a)]

theorem allocString_makes {n : Nat} (hsize : n + 1 ≤ Size.largest) (a : Arena) :
    Makes (allocString n) .fresh ⟨.string, List.replicate (wordsForBytes (n + 1)) 0⟩ a :=
  makes_of_eq (allocString_of_le hsize a) (allotString_makes n a)

theorem newByteArray_makes {n : Nat} (hsize : 1 + wordsForBytes n ≤ Size.largest) (a : Arena) :
    Makes (newByteArray n) .fresh ⟨.byteArray, List.replicate (wordsForBytes n) 0⟩ a :=
  allocate_makes storable_byteArray hsize .nil a

/-- **A new string holds its bytes up to the first zero byte**, and zero bytes after them. -/
theorem newString_makes (bytes : List UInt8) (a : Arena) :
    Makes (newString bytes) .fresh (Content.ofText bytes) a := by
  let text := bytes.takeWhile (· ≠ 0)
  have hroom : text.length ≤ 4 * wordsForBytes (text.length + 1) := by
    unfold wordsForBytes
    omega
  refine (allotString_makes text.length a).bind ?_ fun b hmade => ?_
  · rw [Word.length_packed, List.length_replicate]
  · have hwords : (b.view ⟨a.used⟩).words = List.replicate (wordsForBytes (text.length + 1)) 0 :=
      hmade.words
    have hbytes : (b.view ⟨a.used⟩).bytes.length = 4 * wordsForBytes (text.length + 1) := by
      rw [Content.length_bytes, hwords, List.length_replicate]
    obtain ⟨d, hs, hrun⟩ := writeBytes_stored hmade.holds_new 0 text
    rw [hbytes, Nat.sub_zero, List.take_of_length_le hroom, hwords, Word.putBytes_blank hroom] at hs
    rw [hbytes, Nat.sub_zero, if_pos hroom] at hrun
    exact ⟨d, bind_of_ok hrun, hs⟩

end Arena

/-! ## Constructors -/

namespace Request

/-- What the object that is asked for holds. -/
def content : Request → Content
  | .object c payload fill => ⟨c, List.replicate payload fill.toWord⟩
  | .string bytes => Content.ofText bytes
  | .blankString n => ⟨.string, List.replicate (Arena.wordsForBytes (n + 1)) 0⟩
  | .byteArray n => ⟨.byteArray, List.replicate (Arena.wordsForBytes n) 0⟩

theorem length_content (r : Request) : r.content.words.length = r.payload := by
  cases r <;> simp [content, payload, Content.ofText, Word.length_packed]

/-- 64 bits hold the sum that is worked out from the size asked for. Bytes in memory need no
check. -/
def Sized : Request → Prop
  | .object _ payload _ => 1 + payload ≤ Size.largest
  | .string _ => True
  | .blankString n => n + 1 ≤ Size.largest
  | .byteArray n => 1 + Arena.wordsForBytes n ≤ Size.largest

instance (r : Request) : Decidable r.Sized := by
  cases r <;> unfold Sized <;> infer_instance

/-- **A size that is too large ends the run before anything is done.** -/
theorem make_of_not_sized {r : Request} (hsize : ¬ r.Sized) (a : Arena) :
    r.make a = .error .overflow a := by
  cases r with
  | object c payload fill => exact Arena.allocate_of_lt c fill (Nat.not_le.mp hsize) a
  | string bytes => exact absurd trivial hsize
  | blankString n => exact Arena.allocString_of_lt (Nat.not_le.mp hsize) a
  | byteArray n => exact Arena.allocate_of_lt .byteArray .nil (Nat.not_le.mp hsize) a

theorem makes {r : Request} (hc : r.cls.Storable) (hsize : r.Sized) (a : Arena) :
    Arena.Makes r.make .fresh r.content a := by
  cases r with
  | object c payload fill => exact Arena.allocate_makes hc hsize fill a
  | string bytes => exact Arena.newString_makes bytes a
  | blankString n => exact Arena.allocString_makes hsize a
  | byteArray n => exact Arena.newByteArray_makes hsize a

/-- **An object that was made is the new one and holds what was asked for**, whatever its class and
size. -/
theorem made {r : Request} {a b : Arena} {h : Handle} (hrun : r.make a = .ok h b) :
    h = ⟨a.used⟩ ∧ a.Made .fresh r.content b := by
  -- the class can be stored and the size is one, or there would be no object
  have hcls := (r.gained hrun).2.storable
  by_cases hsize : r.Sized
  · exact (makes hcls hsize a).eq_ok hrun
  · rw [make_of_not_sized hsize] at hrun
    cases hrun

end Request

end ObjectMemory
