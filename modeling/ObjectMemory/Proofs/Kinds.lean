import ObjectMemory.Proofs.Footprint

/-!
# Objects of one kind

A program that cares for one class of objects sees, at each of its handles, what an object of this
class holds, or nothing: `View.shown`. What it sees changes with stores into such an object and
when one is made, and it stays with every effect that avoids the class.
-/

namespace ObjectMemory

/-- What objects of a class show at the handles `hs`, read in one way. -/
def View.shown {α : Type} (v : View) (hs : List Handle) (cls : ObjClass) (read : Content → α) :
    Handle → Option α := fun h =>
  if h ∈ hs ∧ (v h).cls = cls then some (read (v h)) else none

/-- The effect stores into no object of the class, and makes none. -/
def Effect.Avoids (cls : ObjClass) (v : View) : Effect → Prop
  | .give _ => True
  | .rewrite h _ _ => (v h).cls ≠ cls
  | .make _ c => c.cls.stored ≠ cls

section Shown

variable {α : Type} {a b : Arena} {hs : List Handle} {g h : Handle} {ws : List Word} {o : Origin}
  {content : Content} {cls : ObjClass} {read : Content → α}

theorem shown_of_mem {v : View} (hh : h ∈ hs) (hcls : (v h).cls = cls) :
    v.shown hs cls read h = some (read (v h)) :=
  if_pos ⟨hh, hcls⟩

theorem shown_congr {v w : View} {gs : List Handle} (hmem : g ∈ gs ↔ g ∈ hs)
    (hsame : g ∈ hs → w g = v g) : w.shown gs cls read g = v.shown hs cls read g := by
  unfold View.shown
  by_cases hg : g ∈ hs
  · rw [hsame hg]
    simp only [hmem]
  · rw [if_neg fun hin => hg (hmem.mp hin.1), if_neg fun hin => hg hin.1]

/-- **A store into an object of the class is seen there** and nowhere else. -/
theorem shown_stored (ht : a.Tiled hs) (hh : h ∈ hs) (hcls : (a.view h).cls = cls)
    (hst : a.Stored h ws b) (g : Handle) :
    b.view.shown hs cls read g =
      if g = h then some (read ⟨cls, ws⟩) else a.view.shown hs cls read g := by
  by_cases hgh : g = h
  · subst hgh
    have hview := hst.view_eq (ht.holds hh)
    rw [hcls] at hview
    rw [if_pos rfl, shown_of_mem hh (by rw [hview]), hview]
  · rw [if_neg hgh]
    exact shown_congr Iff.rfl fun hg => ht.view_other hh hg hgh hst.toWroteIn

/-- A store into an object of another class is not seen. -/
theorem shown_wrote_apart (ht : a.Tiled hs) (hh : h ∈ hs) (hcls : (a.view h).cls ≠ cls)
    (hw : a.WroteIn h b) : b.view.shown hs cls read = a.view.shown hs cls read := by
  funext g
  by_cases hgh : g = h
  · subst hgh
    have hcls' := hw.cls (ht.holds hh)
    unfold View.shown
    rw [hcls', if_neg fun hin => hcls hin.2, if_neg fun hin => hcls hin.2]
  · exact shown_congr Iff.rfl fun hg => ht.view_other hh hg hgh hw

/-- There is nothing yet where the next object will be. -/
theorem shown_used (ht : a.Tiled hs) : a.view.shown hs cls read ⟨a.used⟩ = none :=
  if_neg fun hin => ht.used_not_mem hin.1

theorem shown_made_old (ht : a.Tiled hs) (hm : a.Made o content b) (hg : g ≠ ⟨a.used⟩) :
    b.view.shown (hs ++ [⟨a.used⟩]) cls read g = a.view.shown hs cls read g := by
  refine shown_congr ?_ fun hin => hm.view_old (ht.holds hin)
  simp [hg]

/-- **A new object of the class is seen**, beside those that were there. -/
theorem shown_made (ht : a.Tiled hs) (hm : a.Made o content b) (hcls : content.cls.stored = cls)
    (g : Handle) :
    b.view.shown (hs ++ [⟨a.used⟩]) cls read g =
      if g = ⟨a.used⟩ then some (read ⟨cls, content.words⟩)
      else a.view.shown hs cls read g := by
  by_cases hg : g = ⟨a.used⟩
  · subst hg
    have hview := hm.view_new
    rw [hcls] at hview
    rw [if_pos rfl, shown_of_mem (by simp) (by rw [hview]), hview]
  · rw [if_neg hg]
    exact shown_made_old ht hm hg

theorem shown_made_apart (ht : a.Tiled hs) (hm : a.Made o content b)
    (hcls : content.cls.stored ≠ cls) :
    b.view.shown (hs ++ [⟨a.used⟩]) cls read = a.view.shown hs cls read := by
  funext g
  by_cases hg : g = ⟨a.used⟩
  · subst hg
    rw [shown_used ht, View.shown, hm.view_new]
    exact if_neg fun hin => hcls hin.2
  · exact shown_made_old ht hm hg

/-! ## What an arena goes through -/

/-- Between the arenas, at most one object was made and stored into, and of the class none. -/
structure Arena.Spares (a : Arena) (hs : List Handle) (cls : ObjClass) (b : Arena) : Prop where
  tiled : b.Tiled (hs ++ a.madeUntil b)
  shown : ∀ {α : Type} (read : Content → α),
    b.view.shown (hs ++ a.madeUntil b) cls read = a.view.shown hs cls read

theorem Arena.madeUntil_same (hused : b.used = a.used) : hs ++ a.madeUntil b = hs := by
  rw [madeUntil, if_pos hused, List.append_nil]

theorem Arena.Spares.of_view (ht : b.Tiled hs) (hused : b.used = a.used) (hview : b.view = a.view) :
    a.Spares hs cls b where
  tiled := by rwa [Arena.madeUntil_same hused]
  shown read := by rw [Arena.madeUntil_same hused, hview]

theorem Arena.WroteIn.spares (hw : a.WroteIn h b) (ht : a.Tiled hs) (hh : h ∈ hs)
    (hcls : (a.view h).cls ≠ cls) : a.Spares hs cls b where
  tiled := by
    rw [Arena.madeUntil_same hw.used]
    exact ht.wrote hh hw
  shown read := by
    rw [Arena.madeUntil_same hw.used]
    exact shown_wrote_apart ht hh hcls hw

theorem Arena.Made.spares (hm : a.Made o content b) (ht : a.Tiled hs)
    (hcls : content.cls.stored ≠ cls) : a.Spares hs cls b where
  tiled := by
    rw [hm.madeUntil]
    exact ht.gained hm.toGained
  shown read := by
    rw [hm.madeUntil]
    exact shown_made_apart ht hm hcls

/-- **An effect that avoids the class spares its objects.** -/
theorem Effect.Avoids.spares {e : Effect} (he : e.Avoids cls a.view) {target : Option Handle}
    (ht : a.Tiled hs) (htarget : ∀ h ∈ target, h ∈ hs) (hon : e.Targets a.view target) {s : Source}
    {r : Ref} {d : Context} (hp : e.Performed a s (.ok r d)) : a.Spares hs cls d.arena := by
  cases e with
  | give x =>
    cases hp
    exact .of_view ht rfl rfl
  | rewrite h words x =>
    obtain ⟨b, heq, hst⟩ := hp
    cases heq
    exact hst.toWroteIn.spares ht (htarget h hon.1) he
  | make o content =>
    obtain ⟨_, b, rfl, hmade⟩ := hp.made
    exact hmade.spares ht he

end Shown

end ObjectMemory
