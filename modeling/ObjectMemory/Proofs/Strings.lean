import ObjectMemory.Proofs.Footprint

/-!
# What strings hold

No call stores into a string, and nothing that happens to one object is seen in another. So a
property of what strings hold lasts from one state to the next once every string that is made has
it. Which property that is, and which strings are meant, is left open here: the program itself
may store into some of them.
-/

namespace ObjectMemory

/-- The strings among the objects have the property. -/
def View.Strings (P : Content → Prop) (v : View) (hs : List Handle) : Prop :=
  ∀ h ∈ hs, (v h).cls = .string → P (v h)

/-- A string that the effect makes has the property. -/
def Effect.MakesStrings (P : Content → Prop) : Effect → Prop
  | .make _ c => c.cls = .string → P c
  | _ => True

section Lasting

variable {P : Content → Prop} {a b : Arena} {h : Handle} {hs mine : List Handle} {o : Origin}
  {content : Content}

theorem makesStrings_list (P : Content → Prop) (o : Origin) (words : List Word) :
    (Effect.make o ⟨.list, words⟩).MakesStrings P := by
  intro hcls
  cases hcls

theorem View.Strings.gained (hv : a.view.Strings P mine) (ht : a.Tiled hs) (hsub : mine ⊆ hs)
    {cls : ObjClass} {n : Nat} (hg : a.Gained cls n b) : b.view.Strings P mine := by
  intro g hgm hstring
  rw [hg.view_old (ht.holds (hsub hgm))] at hstring ⊢
  exact hv g hgm hstring

/-- A store into none of the strings leaves them. -/
theorem View.Strings.stored (hv : a.view.Strings P mine) (ht : a.Tiled hs) (hsub : mine ⊆ hs)
    (hh : h ∈ hs) (hcls : h ∈ mine → (a.view h).cls ≠ .string) (hw : a.WroteIn h b) :
    b.view.Strings P mine := by
  intro g hgm hstring
  by_cases hgh : g = h
  · subst hgh
    rw [hw.cls (ht.holds hh)] at hstring
    exact absurd hstring (hcls hgm)
  · rw [ht.view_other hh (hsub hgm) hgh hw] at hstring ⊢
    exact hv g hgm hstring

theorem View.Strings.made (hv : a.view.Strings P mine) (ht : a.Tiled hs) (hsub : mine ⊆ hs)
    (hm : a.Made o content b) (hnew : content.cls = .string → P content) :
    b.view.Strings P (mine ++ [⟨a.used⟩]) := by
  intro g hgm hstring
  rcases List.mem_append.mp hgm with hgm | hgm
  · exact hv.gained ht hsub hm.toGained g hgm hstring
  · rw [List.mem_singleton.mp hgm] at hstring ⊢
    obtain ⟨hcls, hview⟩ := hm.view_string hstring
    rw [hview]
    exact hnew hcls

/-- **An effect leaves the property to the strings that were there**, and gives it to the one that
it made. -/
theorem View.Strings.performed (hv : a.view.Strings P mine) (ht : a.Tiled hs) (hsub : mine ⊆ hs)
    {target : Option Handle} (htarget : ∀ h ∈ target, h ∈ hs) {e : Effect}
    (he : e.Targets a.view target) (hmakes : e.MakesStrings P) {s : Source} {r : Ref}
    {d : Context} (hp : e.Performed a s (.ok r d)) :
    d.arena.view.Strings P (mine ++ a.madeUntil d.arena) := by
  cases e with
  | give x =>
    cases hp
    rw [Arena.madeUntil, if_pos rfl, List.append_nil]
    exact hv
  | rewrite h words x =>
    obtain ⟨b, heq, hst⟩ := hp
    cases heq
    rw [Arena.madeUntil, if_pos hst.used, List.append_nil]
    exact hv.stored ht hsub (htarget h he.1) (fun _ => he.2) hst.toWroteIn
  | make o content =>
    obtain ⟨_, b, rfl, hmade⟩ := hp.made
    rw [hmade.madeUntil]
    exact hv.made ht hsub hmade hmakes

end Lasting

end ObjectMemory
