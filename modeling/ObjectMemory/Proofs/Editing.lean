import ObjectMemory.Proofs.Operation
import ObjectMemory.Proofs.Storing

/-!
# Edits

An edit changes the payload of one object or stops. Which of the two, and what the object holds
afterwards, is a function of what the objects show: `Edit.outcome`. An edit that stops has changed
nothing, except that a run of bytes is written as far as there is room.
-/

namespace ObjectMemory

namespace Edit

/-- A word that is stored, or the stop if the object does not have it. -/
def storeWord (h : Handle) (words : List Word) (i : Nat) (w : Word) : List Word × Option Stop :=
  if i < words.length then (words.set i w, none) else (words, some (.payloadIndex i h))

/-- The payload words of `h` after an edit, and the stop that the edit ends with, if any. -/
def outcome (v : View) (h : Handle) : Edit → List Word × Option Stop
  | .field i value => storeWord h (v h).words i value.toWord
  | .word i w => storeWord h (v h).words i w
  | .fields first past value =>
    if past ≤ first ∨ past ≤ (v h).words.length then
      (splice (v h).words first (List.replicate (past - first) value.toWord), none)
    else ((v h).words, some .badRange)
  | .copy source sourceStart targetStart n =>
    if n = 0 then ((v h).words, none)
    else
      match Arena.moveStop sourceStart (v source).words.length targetStart (v h).words.length n with
      | none =>
        (splice (v h).words targetStart (((v source).words.drop sourceStart).take n), none)
      | some s => ((v h).words, some s)
  | .byte i b =>
    if i < (v h).bytes.length then (Word.putByte (v h).words i b, none)
    else ((v h).words, some (.payloadIndex (i / 4) h))
  | .bytes offset content =>
    (Word.putBytes (v h).words offset (content.take ((v h).bytes.length - offset)),
      if content.length ≤ (v h).bytes.length - offset then none
      else some (.payloadIndex (max offset (v h).bytes.length / 4) h))
  | .allBytes b => (List.replicate (v h).words.length (Word.ofBytes fun _ => b), none)

variable {a : Arena} {h : Handle}

/-- The run ends as the outcome says, in an arena where the object holds the words it says. -/
def Ends (act : ArenaM Unit) (a : Arena) (h : Handle) (outcome : List Word × Option Stop) : Prop :=
  ∃ b, a.Stored h outcome.1 b ∧
    act a = match outcome.2 with
      | none => .ok () b
      | some s => .error s b

theorem ends_of_stored {act : ArenaM Unit} {words : List Word}
    (hrun : ∃ b, act a = .ok () b ∧ a.Stored h words b) : Ends act a h (words, none) := by
  obtain ⟨b, hb, hs⟩ := hrun
  exact ⟨b, hs, hb⟩

theorem ends_of_error {act : ArenaM Unit} {s : Stop} (hrun : act a = .error s a) :
    Ends act a h ((a.view h).words, some s) :=
  ⟨a, Arena.Stored.refl a h, hrun⟩

/-- A word is stored in its place, or there is no such place and nothing happens. -/
theorem storeWord_ends (hh : a.Holds h) (i : Nat) (w : Word) :
    Ends (Arena.setPayloadWord h i w) a h (storeWord h (a.view h).words i w) := by
  unfold storeWord
  by_cases hi : i < (a.view h).words.length
  · rw [if_pos hi]
    exact ends_of_stored (Arena.setPayloadWord_stored hh hi w)
  · have hrun := Arena.setPayloadWord_of_holds hh i w
    rw [← Arena.length_view hh, if_neg hi] at hrun
    rw [if_neg hi]
    exact ends_of_error hrun

/-- **Every edit of an object that the arena holds ends as its outcome says.** -/
theorem apply_ends {e : Edit} (hh : a.Holds h) (hsources : ∀ g ∈ e.sources, a.Holds g) :
    Ends (e.apply h) a h (e.outcome a.view h) := by
  have hlen := Arena.length_view hh
  cases e with
  | field i value => exact storeWord_ends hh i value.toWord
  | word i w => exact storeWord_ends hh i w
  | fields first past value =>
    simp only [outcome]
    by_cases hrange : past ≤ first ∨ past ≤ (a.view h).words.length
    · rw [if_pos hrange]
      exact ends_of_stored (Arena.fillFields_stored hh hrange value)
    · have hrun := Arena.fillFields_of_holds hh first past value
      rw [if_neg (fun hle => hrange (Or.inl hle)),
        if_neg (fun hle => hrange (Or.inr (hlen ▸ hle)))] at hrun
      rw [if_neg hrange]
      exact ends_of_error hrun
  | copy source sourceStart targetStart n =>
    have hsource := hsources source List.mem_cons_self
    have hlenS := Arena.length_view hsource
    have hrun := Arena.copyFields_of_holds hsource hh sourceStart targetStart n
    have hranges := Arena.moveStop_eq_none a.store source.index h.index sourceStart targetStart n
    rw [← hlen, ← hlenS] at hrun hranges
    simp only [outcome]
    by_cases hzero : n = 0
    · rw [if_pos hzero] at hrun ⊢
      exact ends_of_stored ⟨a, hrun, Arena.Stored.refl a h⟩
    · rw [if_neg hzero] at hrun ⊢
      cases hstop : Arena.moveStop sourceStart (a.view source).words.length targetStart
          (a.view h).words.length n with
      | none =>
        exact ends_of_stored (Arena.copyFields_stored hsource hh (Or.inr (hranges.mp hstop)))
      | some s =>
        rw [hstop] at hrun
        exact ends_of_error hrun
  | byte i b =>
    simp only [outcome]
    by_cases hi : i < (a.view h).bytes.length
    · rw [if_pos hi]
      exact ends_of_stored (Arena.setByte_stored hh hi b)
    · have hrun := Arena.setByte_of_holds hh i b
      rw [if_neg hi]
      rw [Content.length_bytes] at hi
      rw [if_neg (by omega)] at hrun
      exact ends_of_error hrun
  | bytes offset content =>
    -- the one edit that may stop half way
    obtain ⟨b, hs, hrun⟩ := Arena.writeBytes_stored hh offset content
    refine ⟨b, hs, hrun.trans ?_⟩
    simp only [outcome]
    split <;> rfl
  | allBytes b => exact ends_of_stored (Arena.fillBytes_stored hh b)

end Edit

end ObjectMemory
