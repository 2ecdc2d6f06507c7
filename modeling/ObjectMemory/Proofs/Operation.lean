import ObjectMemory.Proofs.Frame

/-!
# Runs of arena operations

A program that uses an arena makes objects, copies them to another size, edits their payloads
and now and then empties the arena. It keeps a log of the objects it was given: for each its
handle, and the class and size that were asked for. `Reached a log` says that such a run leads
to the arena `a` and to the log.

The arena knows nothing of the log. Still the log can be read off its words, whatever the
program did: `issued_objects_tile_used_words`.

Sizes, places and lengths may be any numbers. An operation is part of a run if it does not stop, and
two of the stops are checks that not every build has: that a sum takes no more than 64 bits, and
that a record does not claim to be a container. They are needed. Without the first, a move of
2^64 - 1 words would pass for one within the payload and reach a header; without the second, a
record could read back as a list.
-/

namespace ObjectMemory

open Arena

/-! ## Operations -/

/-- An object to be made. -/
inductive Request where
  | object (c : ObjClass) (payload : Nat) (fill : Ref)
  | string (bytes : List UInt8)
  | blankString (n : Nat)
  | byteArray (n : Nat)

namespace Request

def make : Request → ArenaM Handle
  | .object c payload fill => allocate c payload fill
  | .string bytes => newString bytes
  | .blankString n => allocString n
  | .byteArray n => newByteArray n

/-- The class that is asked for. -/
def cls : Request → ObjClass
  | .object c _ _ => c
  | .string _ | .blankString _ => .string
  | .byteArray _ => .byteArray

/-- The number of payload words that is asked for. A string needs an end mark. -/
def payload : Request → Nat
  | .object _ payload _ => payload
  | .string bytes => wordsForBytes ((bytes.takeWhile (· ≠ 0)).length + 1)
  | .blankString n => wordsForBytes (n + 1)
  | .byteArray n => wordsForBytes n

end Request

/-- A change to the payload of an object. -/
inductive Edit where
  | field (i : Nat) (value : Ref)
  | word (i : Nat) (w : Word)
  | fields (first past : Nat) (value : Ref)
  | copy (source : Handle) (sourceStart targetStart n : Nat)
  | byte (i : Nat) (b : UInt8)
  | bytes (offset : Nat) (content : List UInt8)
  | allBytes (b : UInt8)

namespace Edit

def apply (h : Handle) : Edit → ArenaM Unit
  | .field i value => setField h i value
  | .word i w => setPayloadWord h i w
  | .fields first past value => fillFields h first past value
  | .copy source sourceStart targetStart n => copyFields source sourceStart h targetStart n
  | .byte i b => setByte h i b
  | .bytes offset content => writeBytes h offset content
  | .allBytes b => fillBytes h b

/-- The objects that are read from, next to the one that is edited. -/
def sources : Edit → List Handle
  | .copy source _ _ _ => [source]
  | _ => []

end Edit

/-! ## What an operation does -/

section Frames

variable {a b : Arena} {h g : Handle}

theorem Request.gained {r : Request} (hrun : r.make a = .ok h b) :
    h = ⟨a.used⟩ ∧ a.Gained r.cls r.payload b := by
  cases r with
  | object c payload fill => exact allocate_gained hrun
  | string bytes => exact newString_gained hrun
  | blankString n => exact allocString_gained hrun
  | byteArray n => exact allocate_gained hrun

theorem Edit.wrote {e : Edit} (hh : a.Holds h) (hs : ∀ g ∈ e.sources, a.Holds g)
    (hl : Leaves (e.apply h) a b) : a.WroteIn h b := by
  cases e with
  | field i value => exact setPayloadWord_wrote hh hl
  | word i w => exact setPayloadWord_wrote hh hl
  | fields first past value => exact fillFields_wrote hh hl
  | copy source sourceStart targetStart n =>
    exact copyFields_wrote (hs source List.mem_cons_self) hh hl
  | byte i value => exact setByte_wrote hh hl
  | bytes offset content => exact writeBytes_wrote hh hl
  | allBytes value => exact fillBytes_wrote hh hl

end Frames

/-! ## Runs -/

/-- An object that was issued, as it was asked for. -/
structure Issue where
  handle : Handle
  cls : ObjClass
  payload : Nat
  deriving DecidableEq, Repr

/-- Operations lead to the arena `a`, and `log` are the objects issued since it was last
emptied, in this order. Every object that an operation names is one of them. -/
inductive Reached : (a : Arena) → (log : List Issue) → Prop
  | start (words : Nat) (action : ExhaustionAction) :
    Reached ((Arena.ofSize words).withAction action) []
  | make {a b : Arena} {log : List Issue} {h : Handle} (r : Request) (before : Reached a log)
    (run : r.make a = .ok h b) : Reached b (log ++ [⟨h, r.cls, r.payload⟩])
  | grow {a b : Arena} {log : List Issue} {h : Handle} {o : Issue} (payload : Nat) (fill : Ref)
    (before : Reached a log) (issued : o ∈ log)
    (run : Arena.grow o.handle payload fill a = .ok h b) :
    Reached b (log ++ [⟨h, o.cls, payload⟩])
  | edit {a b : Arena} {log : List Issue} {o : Issue} (e : Edit) (before : Reached a log)
    (issued : o ∈ log) (sources : ∀ g ∈ e.sources, g ∈ log.map Issue.handle)
    (run : e.apply o.handle a = .ok () b) : Reached b log
  | reset {a b : Arena} {log : List Issue} (before : Reached a log)
    (run : Arena.reset a = .ok () b) : Reached b []

/-- The header of an issued object states what was asked for. -/
structure Faithful (a : Arena) (o : Issue) : Prop where
  cls : (Header.mk (a.store.get o.handle.index)).cls = o.cls.stored
  payload : a.store.wordsAt o.handle.index = o.payload

section Invariant

variable {a b : Arena} {log : List Issue} {o : Issue}

/-- A class that was read back is stored as it is. -/
theorem stored_stored (c : ObjClass) : c.stored.stored = c.stored := by
  cases c with
  | other t => simp [ObjClass.stored]
  | _ => rfl

/-- Nothing but the header matters to a log entry. -/
theorem Faithful.of_header (hf : Faithful a o)
    (hsame : b.store.get o.handle.index = a.store.get o.handle.index) : Faithful b o := by
  refine ⟨?_, ?_⟩
  · rw [hsame]
    exact hf.cls
  · rw [Store.wordsAt, hsame]
    exact hf.payload

theorem faithful_of_gained {c : ObjClass} {n : Nat} (hg : a.Gained c n b) :
    Faithful b ⟨⟨a.used⟩, c, n⟩ where
  cls := by
    rw [hg.header]
    exact Header.cls_ofParts hg.fits.2 hg.storable
  payload := hg.wordsAt

/-- **The invariant of all runs**: the issued objects tile the used words, and every header
states what was asked for. -/
structure Accounted (a : Arena) (log : List Issue) : Prop where
  tiled : a.Tiled (log.map Issue.handle)
  faithful : ∀ o ∈ log, Faithful a o

theorem Accounted.holds (hacc : Accounted a log) (ho : o ∈ log) : a.Holds o.handle :=
  hacc.tiled.holds (List.mem_map_of_mem ho)

theorem Accounted.gained (hacc : Accounted a log) {c : ObjClass} {n : Nat}
    (hg : a.Gained c n b) (hf : Faithful b o) (ho : o.handle = ⟨a.used⟩) :
    Accounted b (log ++ [o]) where
  tiled := by
    rw [List.map_append, List.map_singleton, ho]
    exact hacc.tiled.gained hg
  faithful p hp := by
    rcases List.mem_append.mp hp with hp | hp
    · refine (hacc.faithful p hp).of_header (hg.get p.handle.index ?_)
      have h1 := (hacc.holds hp).after_le
      have h2 := a.store.lt_after p.handle.index
      omega
    · rw [List.mem_singleton.mp hp]
      exact hf

/-- An edit leaves the headers, and so what the log says, as they were. -/
theorem Accounted.wrote (hacc : Accounted a log) (ho : o ∈ log) (hw : a.WroteIn o.handle b) :
    Accounted b log where
  tiled := hacc.tiled.wrote (List.mem_map_of_mem ho) hw
  faithful p hp := by
    refine (hacc.faithful p hp).of_header ?_
    exact hacc.tiled.wrote_header (List.mem_map_of_mem ho) (List.mem_map_of_mem hp) hw

/-- **Every run keeps the invariant.** -/
theorem Reached.accounted (hr : Reached a log) : Accounted a log := by
  induction hr with
  | start words action => exact ⟨tiled_ofSize words action, fun o ho => by simp at ho⟩
  | make r before run ih =>
    obtain ⟨rfl, hg⟩ := r.gained run
    exact ih.gained hg (faithful_of_gained hg) rfl
  | @grow a b log h o payload fill before issued run ih =>
    obtain ⟨rfl, hg⟩ := grow_gained (ih.holds issued) run
    -- the copy is made with the class that the header of the old object states
    have hf : Faithful b ⟨⟨a.used⟩, o.cls, payload⟩ := by
      have hnew := faithful_of_gained hg
      refine ⟨?_, hnew.payload⟩
      rw [hnew.cls, (ih.faithful o issued).cls, stored_stored]
    exact ih.gained hg hf rfl
  | @edit a b log o e before issued sources run ih =>
    have hsources : ∀ g ∈ e.sources, a.Holds g := fun g hg => ih.tiled.holds (sources g hg)
    exact ih.wrote issued (e.wrote (ih.holds issued) hsources (Or.inl ⟨(), run⟩))
  | @reset a b log before run ih =>
    cases run
    exact ⟨⟨rfl, Or.inl rfl, ih.tiled.size⟩, fun o ho => by simp at ho⟩

theorem Accounted.ordered (hacc : Accounted a log) :
    log.Pairwise fun o p => o.handle.index + 1 + o.payload ≤ p.handle.index := by
  have hordered := List.pairwise_map.mp hacc.tiled.tiles.ordered
  refine hordered.imp_of_mem fun {o p} ho _ hle => ?_
  rwa [Store.after_eq, (hacc.faithful o ho).payload] at hle

/-- **An edit of one object is seen in no other**, and in no header. -/
theorem Accounted.edit_frame (hacc : Accounted a log) (ho : o ∈ log) {e : Edit}
    (hsources : ∀ g ∈ e.sources, g ∈ log.map Issue.handle) (hl : Leaves (e.apply o.handle) a b)
    {p : Issue} (hp : p ∈ log) :
    b.header p.handle = a.header p.handle ∧
      (p.handle ≠ o.handle → ∀ i, b.payloadWord p.handle i = a.payloadWord p.handle i) := by
  have hold := hacc.holds ho
  have hw : a.WroteIn o.handle b := e.wrote hold (fun g hg => hacc.tiled.holds (hsources g hg)) hl
  have hafter : Accounted b log := hacc.wrote ho hw
  have hmemo : o.handle ∈ log.map Issue.handle := List.mem_map_of_mem ho
  have hmemp : p.handle ∈ log.map Issue.handle := List.mem_map_of_mem hp
  have hheader : b.store.get p.handle.index = a.store.get p.handle.index := by
    refine hw.get p.handle.index ?_
    rintro ⟨hlo, hhi⟩
    exact hacc.tiled.tiles.ne_of_within hmemp hmemo hlo hhi rfl
  refine ⟨?_, fun hne i => ?_⟩
  · rw [header_of_holds (hafter.holds hp), header_of_holds (hacc.holds hp), hheader]
  · rw [payloadWord_of_holds (hafter.holds hp), payloadWord_of_holds (hacc.holds hp)]
    -- the header still states the size that was asked for
    have hwords : b.store.wordsAt p.handle.index = a.store.wordsAt p.handle.index := by
      rw [(hafter.faithful p hp).payload, (hacc.faithful p hp).payload]
    rw [hwords]
    split
    · next hi =>
      have hword := hacc.tiled.wrote_other hmemo hmemp hne hw (j := p.handle.index + 1 + i)
        (by omega) (by rw [Store.after_eq]; omega)
      rw [hword]
    · rfl

end Invariant

/-! ## The log is in the words -/

/-- **The used words are always an exact tiling by the issued objects.** Whatever the run, the
walk by headers visits the issued objects in the order of the log and ends at the boundary. Each
header decodes to the size that was asked for and to the class, of which a record keeps the tag's
four low bits. No object reaches into the next one, and no edit of one object, even one that is
cut short by a stop, changes a header or the payload of another object. A move whose end takes more
than 64 bits is such a stop, and changes nothing. -/
theorem issued_objects_tile_used_words {a : Arena} {log : List Issue} (hr : Reached a log) :
    a.walk = (log.map Issue.handle, a.used) ∧
    (∀ o ∈ log, ∃ header, a.header o.handle = .ok header ∧
      header.payloadWords = o.payload ∧ header.cls = o.cls.stored) ∧
    (log.Pairwise fun o p => o.handle.index + 1 + o.payload ≤ p.handle.index) ∧
    ∀ o ∈ log, ∀ e : Edit, (∀ g ∈ e.sources, g ∈ log.map Issue.handle) →
      ∀ b, Leaves (e.apply o.handle) a b → ∀ p ∈ log,
        b.header p.handle = a.header p.handle ∧
        (p.handle ≠ o.handle → ∀ i, b.payloadWord p.handle i = a.payloadWord p.handle i) := by
  have hacc := hr.accounted
  refine ⟨hacc.tiled.walk_eq, fun o ho => ?_, hacc.ordered, ?_⟩
  · exact ⟨_, header_of_holds (hacc.holds ho), (hacc.faithful o ho).payload,
      (hacc.faithful o ho).cls⟩
  · intro o ho e hsources b hl p hp
    exact hacc.edit_frame ho hsources hl hp

/-- A record, a string and a copy of the record that is one word larger, after words were written
into the record. -/
theorem tiles_after_growth :
    ∃ a, Reached a [⟨⟨0⟩, .other 25, 2⟩, ⟨⟨3⟩, .string, 1⟩, ⟨⟨5⟩, .other 25, 3⟩] ∧
      a.walk = ([⟨0⟩, ⟨3⟩, ⟨5⟩], 9) := by
  have h0 := Reached.start 64 .panic
  have h1 := Reached.make (.object (.other 25) 2 .nil) h0 rfl
  have h2 := Reached.make (.string [97, 98, 99]) h1 rfl
  have h3 := Reached.edit (o := ⟨⟨0⟩, .other 25, 2⟩) (.word 1 0xffffffff) h2
    List.mem_cons_self (fun g hg => by cases hg) rfl
  have h4 := Reached.grow (o := ⟨⟨0⟩, .other 25, 2⟩) 3 (.int 7) h3 List.mem_cons_self rfl
  exact ⟨_, h4, (issued_objects_tile_used_words h4).1⟩

end ObjectMemory
