import ObjectMemory.Proofs.Plan

/-!
# Carrying out plans

Every primitive does what its plan says (`invoke_carries`). The plan is decided by the view of the
arena and the random source. A refusal leaves everything but the source as it was, and the only
stop there can be is that a new object finds no room.

The proof follows the program: a look at the arena gives what the view shows (`carries_look`,
`carries_find`), and a last action has the effect that the plan names (`carries_stored`,
`carries_made`).
-/

namespace ObjectMemory

open PrimM (refuse find onArena)

/-! ## Following a program -/

/-- What an effect on the arena `a` comes to, with the random source `s` left. -/
def Effect.Performed (e : Effect) (a : Arena) (s : Source)
    (outcome : EStateM.Result Refusal Context Ref) : Prop :=
  match e with
  | .give r => outcome = .ok r ⟨a, s⟩
  | .rewrite h words r => ∃ b, outcome = .ok r ⟨b, s⟩ ∧ a.Stored h words b
  | .make o c =>
    if a.Fits c.words.length then
      ∃ b, outcome = .ok (.obj ⟨a.used⟩) ⟨b, s⟩ ∧ a.Made o c b
    else outcome = .error (.stop (a.exhaustion c.words.length)) ⟨a.refused c.words.length, s⟩

/-- An object that was made is the new one. -/
theorem Effect.Performed.made {o : Origin} {c : Content} {a : Arena} {s : Source} {r : Ref}
    {d : Context} (hp : (Effect.make o c).Performed a s (.ok r d)) :
    r = .obj ⟨a.used⟩ ∧ ∃ b, d = ⟨b, s⟩ ∧ a.Made o c b := by
  simp only [Effect.Performed] at hp
  split at hp
  · obtain ⟨b, heq, hmade⟩ := hp
    cases heq
    exact ⟨rfl, b, rfl, hmade⟩
  · cases hp

/-- The program decides like the plan, and leaves the arena as it is. -/
def Decides {α : Type} (prog : PrimM α) (plan : Plan α) (c : Context) : Prop :=
  prog c =
    match plan.run c.source with
    | (.ok x, s) => .ok x ⟨c.arena, s⟩
    | (.error f, s) => .error (.failure f) ⟨c.arena, s⟩

/-- The program does what the plan says. -/
def Carries (prog : PrimM Ref) (plan : Plan Effect) (c : Context) : Prop :=
  match plan.run c.source with
  | (.ok e, s) => e.Performed c.arena s (prog c)
  | (.error f, s) => prog c = .error (.failure f) ⟨c.arena, s⟩

section Following

variable {α β : Type} {c : Context} {prog : PrimM α} {plan : Plan α}

theorem decides_pure (x : α) (c : Context) : Decides (pure x) (Plan.give x) c := rfl

theorem decides_refuse (f : Failure) (c : Context) :
    Decides (refuse f : PrimM α) (Plan.refuse f) c := rfl

theorem Decides.carries {k : α → PrimM Ref} {next : α → Plan Effect} (hd : Decides prog plan c)
    (hnext : ∀ x s, plan.run c.source = (.ok x, s) → Carries (k x) (next x) ⟨c.arena, s⟩) :
    Carries (prog >>= k) (plan >>= next) c := by
  unfold Decides at hd
  unfold Carries
  rw [Plan.run_bind]
  cases hrun : plan.run c.source with
  | mk result s =>
    rw [hrun] at hd
    cases result with
    | ok x =>
      rw [bind_of_ok hd]
      exact hnext x s hrun
    | error f => exact bind_of_error hd

theorem look_apply {read : Arena → Except Stop α} {x : α} (h : read c.arena = .ok x) :
    PrimM.look read c = .ok x c := by
  rw [PrimM.look, h]

theorem look_bind {read : Arena → Except Stop α} {x : α} (h : read c.arena = .ok x)
    (k : α → PrimM β) : (PrimM.look read >>= k) c = k x c :=
  bind_of_ok (look_apply h)

/-- **A program that looks goes on with what it sees.** -/
theorem carries_look {read : Arena → Except Stop α} {x : α} {k : α → PrimM Ref}
    {plan : Plan Effect} (h : read c.arena = .ok x) (hk : Carries (k x) plan c) :
    Carries (PrimM.look read >>= k) plan c := by
  unfold Carries at hk ⊢
  rwa [look_bind h]

theorem find_some {read : Arena → Except Stop (Option α)} {x : α} (f : Failure)
    (h : read c.arena = .ok (some x)) : find f read c = .ok x c := by
  unfold find
  rw [look_bind h]
  rfl

theorem find_none {read : Arena → Except Stop (Option α)} (f : Failure)
    (h : read c.arena = .ok none) : find f read c = .error (.failure f) c := by
  unfold find
  rw [look_bind h]
  rfl

/-- **A program that needs what it may not find goes on with it or refuses.** -/
theorem carries_find {read : Arena → Except Stop (Option α)} {found : Option α} {f : Failure}
    {k : α → PrimM Ref} {next : α → Plan Effect} (h : read c.arena = .ok found)
    (hk : ∀ x, found = some x → Carries (k x) (next x) c) :
    Carries (find f read >>= k) (Plan.need f found >>= next) c := by
  cases found with
  | none => exact bind_of_error (find_none f h)
  | some x =>
    have hx := hk x rfl
    unfold Carries at hx ⊢
    rwa [bind_of_ok (find_some f h)]

/-- All of a row are found, or the program refuses at the first that is not. -/
theorem find_mapM {γ : Type} {read : γ → Arena → Except Stop (Option α)} {show? : γ → Option α}
    (f : Failure) {parts : List γ} (h : ∀ p ∈ parts, read p c.arena = .ok (show? p)) :
    (parts.mapM fun p => find f (read p)) c =
      match parts.mapM show? with
      | some xs => .ok xs c
      | none => .error (.failure f) c := by
  induction parts with
  | nil => rfl
  | cons p rest ih =>
    have hp := h p List.mem_cons_self
    have hrest := ih fun q hq => h q (List.mem_cons_of_mem p hq)
    rw [List.mapM_cons, List.mapM_cons]
    -- the first one is found or not, whatever comes after it
    cases hx : show? p with
    | none =>
      rw [hx] at hp
      exact bind_of_error (find_none f hp)
    | some x =>
      rw [hx] at hp
      rw [bind_of_ok (find_some f hp)]
      cases hxs : rest.mapM show? with
      | none =>
        rw [hxs] at hrest
        exact bind_of_error hrest
      | some xs =>
        rw [hxs] at hrest
        exact bind_of_ok hrest

/-- **A row of things that are needed is found as a whole**, or the program refuses. -/
theorem carries_findAll {γ : Type} {read : γ → Arena → Except Stop (Option α)}
    {show? : γ → Option α} {f : Failure} {parts : List γ} {k : List α → PrimM Ref}
    {next : List α → Plan Effect} (h : ∀ p ∈ parts, read p c.arena = .ok (show? p))
    (hk : ∀ xs, parts.mapM show? = some xs → Carries (k xs) (next xs) c) :
    Carries ((parts.mapM fun p => find f (read p)) >>= k)
      (Plan.need f (parts.mapM show?) >>= next) c := by
  have hrun := find_mapM f h
  cases hall : parts.mapM show? with
  | none =>
    rw [hall] at hrun
    exact bind_of_error hrun
  | some xs =>
    rw [hall] at hrun
    have hx := hk xs hall
    unfold Carries at hx ⊢
    rwa [bind_of_ok hrun]

end Following

/-! ## Last actions -/

section LastActions

variable {c : Context} {α : Type}

theorem carries_effect {prog : PrimM Ref} {e : Effect} :
    Carries prog (.give e) c ↔ e.Performed c.arena c.source (prog c) := Iff.rfl

theorem carries_give (r : Ref) (c : Context) : Carries (pure r) (.give (.give r)) c := rfl

theorem carries_seen {read : Arena → Except Stop Ref} {r : Ref} (h : read c.arena = .ok r) :
    Carries (PrimM.look read) (.give (.give r)) c :=
  look_apply h

theorem carries_refuse (f : Failure) (c : Context) :
    Carries (refuse f) (Plan.refuse f) c := rfl

theorem onArena_of_ok {act : ArenaM α} {x : α} {b : Arena} (h : act c.arena = .ok x b) :
    onArena act c = .ok x ⟨b, c.source⟩ := by
  obtain ⟨a, s⟩ := c
  have hrun : act a = .ok x b := h
  rw [onArena, hrun]

theorem onArena_of_error {act : ArenaM α} {s : Stop} {b : Arena} (h : act c.arena = .error s b) :
    onArena act c = .error (.stop s) ⟨b, c.source⟩ := by
  obtain ⟨a, t⟩ := c
  have hrun : act a = .error s b := h
  rw [onArena, hrun]

/-- Two actions on the arena are one. -/
theorem onArena_bind {β : Type} (act : ArenaM α) (next : α → ArenaM β) (k : β → PrimM Ref) :
    (onArena act >>= fun x => onArena (next x) >>= k) = onArena (act >>= next) >>= k := by
  funext c
  cases hact : act c.arena with
  | ok x b =>
    have hfirst : onArena act c = .ok x ⟨b, c.source⟩ := onArena_of_ok hact
    have hboth : (act >>= next) c.arena = next x b := bind_of_ok hact
    rw [bind_of_ok hfirst]
    cases hnext : next x b with
    | ok y d =>
      rw [bind_of_ok (onArena_of_ok hnext), bind_of_ok (onArena_of_ok (hboth.trans hnext))]
    | error s d =>
      rw [bind_of_error (onArena_of_error hnext),
        bind_of_error (onArena_of_error (hboth.trans hnext))]
  | error s b =>
    have hboth : (act >>= next) c.arena = .error s b := bind_of_error hact
    rw [bind_of_error (onArena_of_error hact), bind_of_error (onArena_of_error hboth)]

/-- An action on the result of another one, which stays the result. -/
theorem onArena_then (act : ArenaM α) (next : α → ArenaM Unit) (k : α → PrimM Ref) :
    (onArena act >>= fun x => onArena (next x) >>= fun _ => k x) =
      onArena (act >>= fun x => next x >>= fun _ => pure x) >>= k := by
  rw [← onArena_bind]
  congr 1
  funext x c
  cases hnext : next x c.arena with
  | ok y d =>
    have hboth : (next x >>= fun _ => pure x) c.arena = .ok x d := bind_of_ok hnext
    rw [bind_of_ok (onArena_of_ok hnext), bind_of_ok (onArena_of_ok hboth)]
  | error s d =>
    have hboth : (next x >>= fun _ => pure x) c.arena = .error s d := bind_of_error hnext
    rw [bind_of_error (onArena_of_error hnext), bind_of_error (onArena_of_error hboth)]

/-- **A program that ends with stores into an object rewrites it.** -/
theorem carries_stored {act : ArenaM Unit} {h : Handle} {words : List Word} {r : Ref}
    (hrun : ∃ b, act c.arena = .ok () b ∧ c.arena.Stored h words b) :
    Carries (onArena act >>= fun _ => pure r) (.give (.rewrite h words r)) c := by
  obtain ⟨b, hb, hs⟩ := hrun
  exact ⟨b, bind_of_ok (onArena_of_ok hb), hs⟩

/-- **A program that ends with making an object makes it**, or stops for want of room. -/
theorem carries_made {act : ArenaM Handle} {o : Origin} {content : Content}
    (hm : Arena.Makes act o content c.arena) :
    Carries (onArena act >>= fun h => pure (.obj h)) (.give (.make o content)) c := by
  unfold Arena.Makes at hm
  simp only [carries_effect, Effect.Performed]
  split at hm
  · next hfits =>
    obtain ⟨b, hb, hmade⟩ := hm
    rw [if_pos hfits]
    exact ⟨b, bind_of_ok (onArena_of_ok hb), hmade⟩
  · next hfull =>
    rw [if_neg hfull]
    exact bind_of_error (onArena_of_error hm)

end LastActions

end ObjectMemory
