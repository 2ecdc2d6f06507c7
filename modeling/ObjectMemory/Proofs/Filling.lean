import ObjectMemory.Proofs.ByteCalls
import ObjectMemory.Proofs.Stopping
import ObjectMemory.Proofs.Twins

/-!
# Filling byte arrays

A byte array is filled a word at a time, while a store of one byte reads a word, replaces a byte in
it and writes it back. Still a value that is stored at all places in turn leaves the very arena
that filling the array with it leaves: `fills_in_turn`.
-/

namespace ObjectMemory

/-! ## Words that are filled byte by byte -/

/-- **A byte that is written at all places fills all words.** -/
theorem putBytes_filled (ws : List Word) (b : UInt8) :
    Word.putBytes ws 0 (List.replicate (4 * ws.length) b) =
      List.replicate ws.length (Word.ofBytes fun _ => b) := by
  apply Word.eq_of_flatMap_bytes_eq
  rw [Word.flatMap_bytes_putBytes (by simp), flatMap_bytes_filled]
  refine splice_whole ?_
  rw [Word.length_flatMap_bytes, List.length_replicate]

/-! ## Arenas with the same words -/

/-- The arenas differ at most in how they keep their words. -/
structure Arena.SameAs (a b : Arena) : Prop where
  capacity : a.capacity = b.capacity
  used : a.used = b.used
  action : a.onExhaustion = b.onExhaustion
  counters : a.counters = b.counters
  journal : a.journal = b.journal
  get : ∀ i, a.store.get i = b.store.get i

section Stores

variable {a b d : Arena} {c : Context} {hs : List Handle} {h : Handle} {ws : List Word} {r : Ref}
  {name : String} {args : List Ref} {value : Ref} {byte : UInt8}

/-- **The same stores lead to the same arena**, in however many steps. -/
theorem Arena.Stored.sameAs (hb : a.Stored h ws b) (hd : a.Stored h ws d) (hh : a.Holds h) :
    b.SameAs d where
  capacity := hb.capacity.trans hd.capacity.symm
  used := hb.used.trans hd.used.symm
  action := hb.action.trans hd.action.symm
  counters := hb.counters.trans hd.counters.symm
  journal := hb.journal.trans hd.journal.symm
  get i := by
    by_cases hin : h.index < i ∧ i < a.store.after h.index
    · refine Twins.get_of_view (h := h) ?_ (hb.holds hh) (hd.holds hh) ?_
      · rw [hb.view_eq hh, hd.view_eq hh]
      · rwa [hd.after]
    · rw [hb.get i hin, hd.get i hin]

/-- A call that does nothing but replace a payload is answered. -/
theorem invoke_rewrites (ht : c.arena.Tiled hs) (hargs : ∀ x ∈ args, x.Among hs)
    (hjoin : Primitive.ofName? name ≠ some .joinStrings)
    (hplan : Primitive.planNamed name c.arena.view c.arena.freeWords args =
      .give (.rewrite h ws r)) :
    ∃ b, (Command.invoke name args).run c = .ok (.given r) ⟨b, c.source⟩ ∧
      c.arena.Stored h ws b := by
  have hcarries := invoke_carries_apart ht hargs hjoin
  rw [hplan] at hcarries
  obtain ⟨b, hrun, hst⟩ := carries_effect.mp hcarries
  rw [run_invoke, hrun]
  exact ⟨b, rfl, hst⟩

theorem byte_of_byte? (hvalue : value.byte? = some byte) : Plan.byte value = .give byte := by
  rw [byte_eq_need, hvalue]
  rfl

theorem among_of_byte? (hvalue : value.byte? = some byte) (hs : List Handle) : value.Among hs := by
  rintro h rfl
  cases hvalue

/-! ## One call after the other -/

/-- Stores a value at `n` places from `first` on, with a call for each. -/
def putsFrom (h : Handle) (value : Ref) (first n : Nat) : List Command :=
  (List.range' first n).map fun i : Nat => .invoke "atPut" [.int i, .obj h, value]

theorem putsFrom_succ (h : Handle) (value : Ref) (first n : Nat) :
    putsFrom h value first (n + 1) =
      .invoke "atPut" [.int first, .obj h, value] :: putsFrom h value (first + 1) n :=
  rfl

variable (hvalue : value.byte? = some byte)
include hvalue

theorem invoke_put (ht : c.arena.Tiled hs) (hh : h ∈ hs) (hcls : (c.arena.view h).cls = .byteArray)
    {i : Nat} (hi : 1 ≤ i ∧ i ≤ (c.arena.view h).bytes.length) :
    ∃ b,
      (Command.invoke "atPut" [.int i, .obj h, value]).run c = .ok (.given .false) ⟨b, c.source⟩ ∧
      c.arena.Stored h (Word.putByte (c.arena.view h).words (i - 1) byte) b := by
  refine invoke_rewrites ht ?_ (by decide) ?_
  · exact among_cons (among_of_obj? rfl hs)
      (among_pair (among_obj.mpr hh) (among_of_byte? hvalue hs))
  · have hname : Primitive.planNamed "atPut" c.arena.view c.arena.freeWords
        [.int i, .obj h, value] = Plan.putItem c.arena.view (.obj h) (.int i) value :=
      Primitive.planNamed_name .putItem _ _ _
    rw [hname]
    simp only [Plan.putItem, View.container?, hcls, Container.ofClass?, View.selector?,
      byte_of_byte? hvalue]
    show Plan.putBytes _ h (.index i) byte = _
    simp only [Plan.putBytes, Plan.place_index hi]
    rfl

theorem invoke_fill (ht : c.arena.Tiled hs) (hh : h ∈ hs)
    (hcls : (c.arena.view h).cls = .byteArray) :
    ∃ b, (Command.invoke "fill" [.obj h, value]).run c = .ok (.given .false) ⟨b, c.source⟩ ∧
      c.arena.Stored h
        (List.replicate (c.arena.view h).words.length (Word.ofBytes fun _ => byte)) b := by
  refine invoke_rewrites ht ?_ (by decide) ?_
  · exact among_pair (among_obj.mpr hh) (among_of_byte? hvalue hs)
  · have hname : Primitive.planNamed "fill" c.arena.view c.arena.freeWords [.obj h, value] =
        Plan.fill c.arena.view (.obj h) value := Primitive.planNamed_name .fill _ _ _
    rw [hname]
    simp only [Plan.fill, View.container?, hcls, Container.ofClass?, byte_of_byte? hvalue]
    rfl

/-- **Stores at one place after the other write the byte at all of them.** -/
theorem run_putsFrom (ht : c.arena.Tiled hs) (hh : h ∈ hs)
    (hcls : (c.arena.view h).cls = .byteArray) {first n : Nat} (hfirst : 1 ≤ first) (hn : first - 1 + n ≤ (c.arena.view h).bytes.length) :
    ∃ b, runAll (putsFrom h value first n) c =
        ⟨List.replicate n (.given .false), none, ⟨b, c.source⟩⟩ ∧
      c.arena.Stored h
        (Word.putBytes (c.arena.view h).words (first - 1) (List.replicate n byte)) b := by
  induction n generalizing c first with
  | zero => exact ⟨c.arena, rfl, Arena.Stored.refl c.arena h⟩
  | succ n ih =>
    obtain ⟨b, hrun, hst⟩ := invoke_put hvalue ht hh hcls (i := first) (by omega)
    -- the other calls find an array as long as before
    have hview := hst.view_eq (ht.holds hh)
    have hcls' : (b.view h).cls = .byteArray := by
      rw [hview]
      exact hcls
    have hlen : (b.view h).bytes.length = (c.arena.view h).bytes.length := by
      rw [Content.length_bytes, Content.length_bytes, hst.words, Word.length_putByte]
    have hfirst' : 1 ≤ first + 1 := Nat.le_add_left 1 first
    obtain ⟨d, hrest, hst'⟩ := ih (c := ⟨b, c.source⟩) (ht.wrote hh hst.toWroteIn) hcls' hfirst'
      (by dsimp only; omega)
    refine ⟨d, ?_, ?_⟩
    · rw [putsFrom_succ, runAll, hrun]
      dsimp only
      rw [hrest]
      rfl
    · have hnext : first + 1 - 1 = first - 1 + 1 := by omega
      dsimp only at hst'
      rw [hst.words, hnext] at hst'
      exact hst.trans hst'

end Stores

/-! ## The same effect -/

/-- Filling the byte array with a value is the same as storing it at "all", and leaves the same
arena as storing it at all places in turn. -/
structure FillsInTurn (c : Context) (h : Handle) : Prop where
  all : ∀ all value, Selector.parse c.arena all = .ok (some .all) →
    Primitive.invoke "atPut" [all, .obj h, value] c = Primitive.invoke "fill" [.obj h, value] c
  turn : ∀ value byte, value.byte? = some byte → ∃ n d e,
    c.arena.byteArrayLength h = .ok n ∧
      (Command.invoke "fill" [.obj h, value]).run c = .ok (.given .false) d ∧
        runAll (putsFrom h value 1 n) c = ⟨List.replicate n (.given .false), none, e⟩ ∧
          e.source = d.source ∧ e.arena.SameAs d.arena

theorem fills_in_turn {c : Context} {hs : List Handle} {h : Handle} (ht : c.arena.Tiled hs)
    (hh : h ∈ hs) (hcls : (c.arena.view h).cls = .byteArray) : FillsInTurn c h where
  all all value hall := by
    have hclass : Container.classify c.arena (.obj h) = .ok (some (.byteArray h)) := by
      rw [Container.classify, Arena.classOf_eq (ht.holds hh), hcls]
      rfl
    have hput : Primitive.invoke "atPut" [all, .obj h, value] = Container.put (.obj h) all value :=
      rfl
    have hfill : Primitive.invoke "fill" [.obj h, value] = Container.fill (.obj h) value := rfl
    rw [hput, hfill, Container.put, bind_of_ok (find_some _ hclass), bind_of_ok (find_some _ hall),
      Container.fill, look_bind hclass]
    rfl
  turn value byte hvalue := by
    have hlen := Content.length_bytes (c.arena.view h)
    obtain ⟨d, hfill, hst⟩ := invoke_fill hvalue ht hh hcls
    obtain ⟨e, hputs, hst'⟩ := run_putsFrom hvalue ht hh hcls (Nat.le_refl 1)
      (n := (c.arena.view h).bytes.length) (by omega)
    refine ⟨_, _, _, Arena.byteArrayLength_eq (ht.holds hh), hfill, hputs, rfl, ?_⟩
    rw [hlen, Nat.sub_self, putBytes_filled] at hst'
    exact hst'.sameAs hst (ht.holds hh)

end ObjectMemory
