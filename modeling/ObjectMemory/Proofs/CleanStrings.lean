import ObjectMemory.Proofs.StringRuns

/-!
# Strings without zero bytes

A string that is made from bytes ends before the first zero one, and so does a string that a call
makes. No call stores into a string. So none of these strings has a zero byte, until the program
itself writes into it: `StringSession.clean`.
-/

namespace ObjectMemory

/-- The objects of `mine`, and a new one, that were made from bytes or by a call and that no edit
went into. The command leads from the arena `a` to the arena `b`. -/
def Command.untouched (a b : Arena) (mine : List Handle) : Command → List Handle
  | .make (.string _) | .invoke .. => mine ++ a.madeUntil b
  | .edit h _ => mine.filter (· ≠ h)
  | .reset => []
  | _ => mine

/-- All commands are admitted, and the untouched objects are noted. -/
def Rules.untouched : Rules (List Handle) where
  admits _ _ := True
  blank := []
  note cmd _ a b mine := cmd.untouched a b mine

/-- A session with the handles `hs`, of which `mine` are those of objects that were made from bytes
or by calls and that no edit has gone into. -/
def StringSession (c : Context) (hs mine : List Handle) : Prop :=
  Course .untouched c hs mine

section Sessions

variable {c d : Context} {hs mine : List Handle} {h : Handle}

theorem Arena.Tiled.keeping_nil {a : Arena} (ht : a.Tiled hs) : a.Keeping hs [] := by
  refine ⟨ht, List.nil_subset hs, ?_⟩
  intro h hh
  cases hh

/-- A string that is made from bytes is like those that calls make. -/
theorem Arena.Keeping.made {a b : Arena} (hk : a.Keeping hs mine) {bytes : List UInt8}
    (hm : a.Made .fresh (.ofText bytes) b) :
    b.Keeping (hs ++ [⟨a.used⟩]) (mine ++ a.madeUntil b) := by
  rw [hm.madeUntil]
  refine ⟨hk.tiled.gained hm.toGained, ?_, ?_⟩
  · intro h hh
    rcases List.mem_append.mp hh with hh | hh
    · exact List.mem_append_left _ (hk.issued hh)
    · exact List.mem_append_right _ hh
  · exact hk.strings.made hk.tiled hk.issued hm fun _ => ⟨bytes, rfl⟩

/-- **A session keeps the strings that are not written into.** -/
theorem StringSession.keeping (hses : StringSession c hs mine) : c.arena.Keeping hs mine := by
  refine hses.keeps (P := fun c hs mine => c.arena.Keeping hs mine) ?_ ?_
  · intro words action source
    exact (Arena.tiled_ofSize words action).keeping_nil
  · intro c d hs mine answer cmd hc ih _ honest run
    have hclosed := hc.step honest run
    cases cmd with
    | make q =>
      obtain ⟨rfl, hmade⟩ := run_make_ok run
      dsimp only [Command.handles]
      rw [hc.tiled.noted_used]
      cases q with
      | string bytes => exact ih.made hmade
      | _ => exact ih.gained hmade.toGained
    | grow h payload fill =>
      obtain ⟨g, hact, rfl⟩ := run_ok_of_onArena (k := fun h => .given (.obj h)) rfl run
      obtain ⟨rfl, hmade⟩ := Arena.grow_made (hc.tiled.holds honest.1) hact
      dsimp only [Command.handles]
      rw [hc.tiled.noted_used]
      exact ih.gained hmade.toGained
    | edit h e =>
      obtain ⟨hh, hon⟩ := honest
      obtain ⟨rfl, hst⟩ := run_edit_ok (hc.tiled.holds hh) hon.sources run
      exact ih.wrote hh hst.toWroteIn
    | ask q =>
      obtain ⟨rfl, x, rfl⟩ := run_ask_ok run
      exact ih
    | invoke name args =>
      rw [run_invoke] at run
      rcases invoke_cases hc honest name with ⟨r, e, hok, _⟩ | ⟨f, s, hfail⟩ | ⟨n, s, _, hstop⟩
      · rw [hok] at run
        cases run
        have hk := ih.given honest hok
        have hsame := hclosed.tiled.unique hk.tiled
        rw [hsame]
        exact hk
      · rw [hfail] at run
        cases run
        show c.arena.Keeping hs (mine ++ c.arena.madeUntil c.arena)
        rwa [Arena.madeUntil, if_pos rfl, List.append_nil]
      · rw [hstop] at run
        cases run
    | reset => exact hclosed.tiled.keeping_nil

/-- **A string that was made from bytes or by a call has no zero byte**, until an edit goes into
it. -/
theorem StringSession.clean (hses : StringSession c hs mine) (hh : h ∈ mine)
    (hcls : c.arena.classOf h = .ok .string) {bytes : List UInt8}
    (hread : c.arena.stringBytes h = .ok bytes) : 0 ∉ bytes := by
  have hk := hses.keeping
  have hholds := hk.tiled.holds (hk.issued hh)
  obtain ⟨made, hmade⟩ := hk.strings h hh ((Arena.classOf_eq_ok_iff hholds).mp hcls)
  rw [Arena.stringBytes_eq hholds, hmade, Content.text_ofText] at hread
  cases hread
  exact not_mem_takeWhile_ne made 0

end Sessions

end ObjectMemory
