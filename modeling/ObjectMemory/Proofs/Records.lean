import Mathlib.Algebra.Group.Nat.Defs
import Mathlib.Data.List.Forall2
import Mathlib.Data.List.Nodup
import Mathlib.Data.List.Perm.Subperm
import ObjectMemory.Config
import ObjectMemory.Proofs.Spelling
import ObjectMemory.Stats.Json

/-!
# Records

Settings and statistics are records: objects in which some keys are known. A record is read from
the members under these keys, in whatever order they come, and other members are passed over. A
known key must not be given twice. What is left out takes the default in settings, while statistics
must be complete.

* `Json.known?_eq_some_iff` — which objects are taken for records
* `Json.lookup_known?` — what the fields of a record hold
* `Json.exists_fields_of_part` — an object with some of a record's members holds what they hold
* `settings_and_statistics_survive_json` — what this comes to for settings and statistics
-/

namespace ObjectMemory

namespace Json

variable {names : List String} {ms record : List (String × Scalar)} {fields : List (String × Json)}
  {key : String}

/-! ## Known members -/

/-- The members with a known key. -/
def knownOf (names : List String) (ms : List (String × Scalar)) : List (String × Scalar) :=
  ms.filter fun m => names.contains m.1

theorem knownOf_cons_of_known {m : String × Scalar} (h : names.contains m.1 = true) :
    knownOf names (m :: ms) = m :: knownOf names ms :=
  List.filter_cons_of_pos h

theorem knownOf_cons_of_unknown {m : String × Scalar} (h : ¬ names.contains m.1 = true) :
    knownOf names (m :: ms) = knownOf names ms :=
  List.filter_cons_of_neg h

theorem map_fst_knownOf (names : List String) (ms : List (String × Scalar)) :
    (knownOf names ms).map Prod.fst = (ms.map Prod.fst).filter names.contains := by
  rw [List.filter_map]
  rfl

/-- **An object is taken for a record if no known key is given twice.** Its fields are its members
with a known key. -/
theorem known?_eq_some_iff :
    known? names (ms.map toMember) = some fields ↔
      ((knownOf names ms).map Prod.fst).Nodup ∧
        (knownOf names ms).map (fun m => (m.1, m.2.toJson)) = fields := by
  induction ms generalizing fields with
  | nil => simp [known?, knownOf]
  | cons m ms ih =>
    obtain ⟨key, value⟩ := m
    rw [List.map_cons, toMember, known?, Option.bind_eq_bind, Option.bind_eq_some_iff]
    simp only [ih]
    by_cases hknown : names.contains key = true
    · rw [knownOf_cons_of_known hknown, List.map_cons, List.nodup_cons, List.map_cons]
      have hgiven : (((knownOf names ms).map fun m => (m.1, m.2.toJson)).any fun x => x.1 == key) =
          true ↔ key ∈ (knownOf names ms).map Prod.fst := by
        simp
      simp only [if_pos hknown, Option.pure_def]
      constructor
      · rintro ⟨_, ⟨hnodup, rfl⟩, hrest⟩
        split at hrest
        · cases hrest
        · next hnew => exact ⟨⟨fun hin => hnew (hgiven.mpr hin), hnodup⟩, Option.some.inj hrest⟩
      · rintro ⟨⟨hnew, hnodup⟩, rfl⟩
        exact ⟨_, ⟨hnodup, rfl⟩, if_neg fun hin => hnew (hgiven.mp hin)⟩
    · rw [knownOf_cons_of_unknown hknown]
      simp only [if_neg hknown, Option.pure_def, Option.some.injEq]
      constructor
      · rintro ⟨_, hmore, rfl⟩
        exact hmore
      · intro hmore
        exact ⟨_, hmore, rfl⟩

/-- A known key that is given twice is refused. -/
theorem known?_of_twice (hkey : key ∈ names) (h : 2 ≤ (ms.map Prod.fst).count key) :
    known? names (ms.map toMember) = none := by
  refine Option.eq_none_iff_forall_ne_some.mpr fun fields hfields => ?_
  have honce := List.nodup_iff_count.mp (known?_eq_some_iff.mp hfields).1 key
  rw [map_fst_knownOf, List.count_filter (List.contains_iff_mem.mpr hkey)] at honce
  omega

theorem lookup_eq_none_iff_not_mem : ms.lookup key = none ↔ key ∉ ms.map Prod.fst := by
  rw [List.lookup_eq_none_iff, List.mem_map, not_exists]
  refine forall_congr' fun m => ?_
  rw [bne_iff_ne, ne_comm, not_and]

/-- **A known field holds what its member says.** -/
theorem lookup_known? (h : known? names (ms.map toMember) = some fields) (hkey : key ∈ names) :
    fields.lookup key = (ms.lookup key).map Scalar.toJson := by
  obtain ⟨-, rfl⟩ := known?_eq_some_iff.mp h
  clear h
  induction ms with
  | nil => rfl
  | cons m ms ih =>
    by_cases hm : key = m.1
    · have hknown : names.contains m.1 = true := by rwa [← hm, List.contains_iff_mem]
      rw [knownOf_cons_of_known hknown, List.map_cons, List.lookup_cons, List.lookup_cons,
        hm, beq_self_eq_true]
      rfl
    · have hskip : (key == m.1) = false := beq_eq_false_iff_ne.mpr hm
      rw [List.lookup_cons, hskip]
      by_cases hknown : names.contains m.1 = true
      · rw [knownOf_cons_of_known hknown, List.map_cons, List.lookup_cons, hskip]
        exact ih
      · rw [knownOf_cons_of_unknown hknown]
        exact ih

/-! ## Parts of a record -/

/-- Without its other members, the object is some of the record's members, in any order. -/
def PartOf (record ms : List (String × Scalar)) : Prop :=
  (knownOf (record.map Prod.fst) ms).Subperm record

theorem PartOf.refl (record : List (String × Scalar)) : PartOf record record := by
  have hall : knownOf (record.map Prod.fst) record = record :=
    List.filter_eq_self.mpr fun m hm => List.contains_iff_mem.mpr (List.mem_map_of_mem hm)
  rw [PartOf, hall]

/-- A record in which each key stands once has each member's value under its key. -/
theorem eq_of_mem_record (hnodup : (record.map Prod.fst).Nodup) {v w : Scalar}
    (hv : (key, v) ∈ record) (hw : (key, w) ∈ record) : v = w :=
  congrArg Prod.snd (List.inj_on_of_nodup_map hnodup hv hw rfl)

/-- **Part of a record is read**, and holds the record's values under the keys that are there. -/
theorem exists_fields_of_part (hnodup : (record.map Prod.fst).Nodup) (h : PartOf record ms) :
    ∃ fields, known? (record.map Prod.fst) (ms.map toMember) = some fields ∧
      ∀ m ∈ record, fields.lookup m.1 =
        if m.1 ∈ ms.map Prod.fst then some m.2.toJson else none := by
  have honce : ((knownOf (record.map Prod.fst) ms).map Prod.fst).Nodup := by
    obtain ⟨part, hperm, hsub⟩ := h
    exact (hperm.map Prod.fst).nodup_iff.mp ((hsub.map Prod.fst).nodup hnodup)
  have hread := known?_eq_some_iff.mpr ⟨honce, rfl⟩
  refine ⟨_, hread, fun m hm => ?_⟩
  have hkey : m.1 ∈ record.map Prod.fst := List.mem_map_of_mem hm
  rw [lookup_known? hread hkey]
  cases hfound : ms.lookup m.1 with
  | none =>
    rw [if_neg (lookup_eq_none_iff_not_mem.mp hfound)]
    rfl
  | some v =>
    have hin : (m.1, v) ∈ ms := by
      obtain ⟨before, after, rfl, -⟩ := List.lookup_eq_some_iff.mp hfound
      exact List.mem_append_right _ List.mem_cons_self
    have hrecord : (m.1, v) ∈ record :=
      h.subset (List.mem_filter.mpr ⟨hin, List.contains_iff_mem.mpr hkey⟩)
    rw [if_pos (List.mem_map_of_mem hin), eq_of_mem_record hnodup hrecord hm]
    rfl

/-! ## Numbers in fields -/

theorem toJson_natural (n : Nat) : (Scalar.int n).toJson = .natural n := by
  rw [Scalar.toJson, if_neg (Int.not_lt.mpr (Int.natCast_nonneg n)), Int.natAbs_natCast]

theorem uint64?_natural {n : Nat} (h : n < 2 ^ 64) : (natural n).uint64? = some n :=
  if_pos (Nat.le_of_lt_succ h)

end Json

/-! ## Settings -/

namespace Config

open Json

/-- The numbers are numbers of 64 bits. -/
structure Fits (c : Config) : Prop where
  arenaWords : c.arenaWords < 2 ^ 64
  seed : ∀ n ∈ c.seed, n < 2 ^ 64

/-- The settings that are left if only some keys are written. The others are the defaults. -/
def restrictedTo (c : Config) (written : List String) : Config where
  arenaWords := if arenaWordsKey ∈ written then c.arenaWords else ({} : Config).arenaWords
  onExhaustion := if actionKey ∈ written then c.onExhaustion else ({} : Config).onExhaustion
  seed := if seedKey ∈ written then c.seed else ({} : Config).seed

theorem restrictedTo_keys (c : Config) : c.restrictedTo keys = c := by
  cases c
  rfl

theorem nodup_keys (c : Config) : (c.members.map Prod.fst).Nodup := by
  show keys.Nodup
  decide

/-- A field is read as its value if it is there, and as the default otherwise. -/
theorem fieldOr_of_read {α : Type} {default value : α} {read : Json → Option α} {json : Json}
    (h : read json = some value) (p : Prop) [Decidable p] :
    fieldOr default read (if p then some json else none) =
      some (if p then value else default) := by
  split
  · exact h
  · rfl

/-- What a seed is written as. -/
def seedScalar : Option Nat → Scalar
  | some n => .int n
  | none => .null

theorem members_eq (c : Config) :
    c.members = [(arenaWordsKey, .int c.arenaWords), (actionKey, .text c.onExhaustion.name),
      (seedKey, seedScalar c.seed)] := rfl

theorem seedOfJson?_seedScalar {seed : Option Nat} (h : ∀ n ∈ seed, n < 2 ^ 64) :
    seedOfJson? (seedScalar seed).toJson = some seed := by
  cases seed with
  | none => rfl
  | some n =>
    rw [seedScalar, toJson_natural, seedOfJson?, uint64?_natural (h n rfl), Option.map_some]
    nofun

variable {c : Config} {ms : List (String × Scalar)}

/-- **Some of the settings are read as these, and the others as the defaults.** -/
theorem ofJson?_of_part (hfits : c.Fits) (h : PartOf c.members ms) :
    ofJson? (.object (ms.map toMember)) = some (c.restrictedTo (ms.map Prod.fst)) := by
  obtain ⟨fields, hfields, hlookup⟩ := exists_fields_of_part c.nodup_keys h
  simp only [members_eq, List.forall_mem_cons] at hlookup
  obtain ⟨hsize, haction, hseed, -⟩ := hlookup
  have hread : known? keys (ms.map toMember) = some fields := hfields
  have hwords : uint64? (Scalar.int c.arenaWords).toJson = some c.arenaWords := by
    rw [toJson_natural, uint64?_natural hfits.arenaWords]
  have hname : ExhaustionAction.ofJson? (Scalar.text c.onExhaustion.name).toJson =
      some c.onExhaustion := ExhaustionAction.ofName?_name c.onExhaustion
  rw [ofJson?]
  show (known? keys (ms.map toMember) >>= _) = _
  rw [hread, Option.bind_eq_bind, Option.bind_some]
  dsimp only
  rw [hsize, haction, hseed, fieldOr_of_read hwords, fieldOr_of_read hname,
    fieldOr_of_read (seedOfJson?_seedScalar hfits.seed)]
  rfl

theorem ofText?_of_part {text : String} (hfits : c.Fits) (h : PartOf c.members ms)
    (hspelling : ObjectSpelling ms text.toList) :
    ofText? text = some (c.restrictedTo (ms.map Prod.fst)) := by
  rw [ofText?, ofText?_of_spelling hspelling, Option.bind_some, ofJson?_of_part hfits h]

/-- **The settings that were written are read.** -/
theorem ofText?_toText (hfits : c.Fits) : ofText? c.toText = some c := by
  have hread := ofText?_of_part hfits (.refl c.members) (spelling_writeObject c.members)
  rwa [show c.members.map Prod.fst = keys from rfl, restrictedTo_keys] at hread

/-- Settings with a key that is given twice are refused. -/
theorem ofText?_of_twice {text key : String} (hspelling : ObjectSpelling ms text.toList)
    (hkey : key ∈ keys) (h : 2 ≤ (ms.map Prod.fst).count key) : ofText? text = none := by
  rw [ofText?, ofText?_of_spelling hspelling, Option.bind_some, ofJson?]
  show (known? _ _ >>= _) = _
  rw [known?_of_twice hkey h]
  rfl

end Config

/-! ## Statistics -/

theorem mapM_eq_some_of_forall₂ {α β : Type} {f : α → Option β} {xs : List α} {ys : List β}
    (h : List.Forall₂ (fun x y => f x = some y) xs ys) : xs.mapM f = some ys := by
  induction h with
  | nil => rfl
  | cons hx _ ih =>
    rw [List.mapM_cons, hx, ih]
    rfl

theorem mapM_eq_none_of_mem {α β : Type} {f : α → Option β} {xs : List α} {x : α} (hx : x ∈ xs)
    (h : f x = none) : xs.mapM f = none := by
  induction xs with
  | nil => cases hx
  | cons y rest ih =>
    rw [List.mapM_cons]
    rcases List.mem_cons.mp hx with rfl | hrest
    · rw [h]
      rfl
    · rw [ih hrest]
      cases f y <;> rfl

namespace Stats

open Json

/-- The members of the written object. -/
def members (s : Stats) : List (String × Scalar) :=
  (names.zip s.toList).map fun (key, n) => (key, .int n)

theorem nodup_names : names.Nodup := by
  decide

variable {s : Stats} {ms : List (String × Scalar)}

/-- **The statistics that were written are read.** -/
theorem ofText?_toText (h : ∀ n ∈ s.toList, n < 2 ^ 64) : ofText? s.toText = some s := by
  have hnodup : (s.members.map Prod.fst).Nodup := nodup_names
  obtain ⟨fields, hfields, hlookup⟩ := exists_fields_of_part hnodup (.refl s.members)
  have hread : known? names (s.members.map toMember) = some fields := hfields
  have hnumbers : List.Forall₂ (fun name n => (fields.lookup name).bind uint64? = some n)
      names s.toList := by
    refine List.forall₂_iff_zip.mpr ⟨s.length_toList.symm, fun {name n} hmem => ?_⟩
    have hmember : (name, .int n) ∈ s.members :=
      List.mem_map_of_mem (f := fun p : String × Nat => (p.1, Scalar.int p.2)) hmem
    rw [hlookup _ hmember, if_pos (List.mem_map_of_mem hmember), Option.bind_some,
      toJson_natural, uint64?_natural (h n (List.of_mem_zip hmem).2)]
  rw [ofText?, show s.toText = writeObject s.members from rfl,
    ofText?_of_spelling (spelling_writeObject s.members), Option.bind_some, ofJson?]
  show (known? names (s.members.map toMember) >>= _) = _
  rw [hread, Option.bind_eq_bind, Option.bind_some, mapM_eq_some_of_forall₂ hnumbers]
  exact ofList?_toList s

/-- Statistics without one of the numbers are refused. -/
theorem ofText?_of_missing {text name : String} (hspelling : ObjectSpelling ms text.toList)
    (hname : name ∈ names) (h : name ∉ ms.map Prod.fst) : ofText? text = none := by
  rw [ofText?, ofText?_of_spelling hspelling, Option.bind_some, ofJson?]
  show (known? names (ms.map toMember) >>= _) = _
  cases hread : known? names (ms.map toMember) with
  | none => rfl
  | some fields =>
    have hlost : (fields.lookup name).bind uint64? = none := by
      rw [lookup_known? hread hname, lookup_eq_none_iff_not_mem.mpr h]
      rfl
    rw [Option.bind_eq_bind, Option.bind_some, mapM_eq_none_of_mem hname hlost]
    rfl

end Stats

open Json

/-- **Settings and statistics survive JSON.** Settings are read back from what is written of them,
and statistics are too, if their numbers have 64 bits.

An object may have been written in any way of the grammar. If it has some of the settings, in any
order and with any other members between them, these settings are read and the others are the
defaults. Settings with a key that is given twice are refused, and so are statistics without one of
the numbers. -/
theorem settings_and_statistics_survive_json :
    (∀ c : Config, c.Fits → Config.ofText? c.toText = some c) ∧
    (∀ (c : Config) (members : List (String × Scalar)) (text : String), c.Fits →
      ObjectSpelling members text.toList → PartOf c.members members →
        Config.ofText? text = some (c.restrictedTo (members.map Prod.fst))) ∧
    (∀ (members : List (String × Scalar)) (text key : String),
      ObjectSpelling members text.toList → key ∈ Config.keys →
        2 ≤ (members.map Prod.fst).count key → Config.ofText? text = none) ∧
    (∀ s : Stats, (∀ n ∈ s.toList, n < 2 ^ 64) → Stats.ofText? s.toText = some s) ∧
    (∀ (members : List (String × Scalar)) (text name : String),
      ObjectSpelling members text.toList → name ∈ Stats.names → name ∉ members.map Prod.fst →
        Stats.ofText? text = none) := by
  refine ⟨?_, ?_, ?_, ?_, ?_⟩
  · intro c hfits
    exact Config.ofText?_toText hfits
  · intro c members text hfits hspelling hpart
    exact Config.ofText?_of_part hfits hpart hspelling
  · intro members text key hspelling hkey htwice
    exact Config.ofText?_of_twice hspelling hkey htwice
  · intro s hfits
    exact Stats.ofText?_toText hfits
  · intro members text name hspelling hname hmissing
    exact Stats.ofText?_of_missing hspelling hname hmissing

/-- Some of the settings are read from a text with white space, an unknown key and an escaped
letter. Two seeds, or one number alone, are refused. -/
theorem spelled_settings_read :
    Config.ofText? (Config.toText ⟨32, .halt, some 7⟩) = some ⟨32, .halt, some 7⟩ ∧
    Config.ofText? " \x7b\"color\" : null ,\"random_seed\":7,\"\\u0061rena_words\": 32 \x7d" =
      some ⟨32, .exit, some 7⟩ ∧
    Config.ofText? (writeObject [("random_seed", .int 7), ("random_seed", .null)]) = none ∧
    Stats.ofText? (Stats.toText ⟨16, 3, 13, 3, 1, 0, 0, 0⟩) = some ⟨16, 3, 13, 3, 1, 0, 0, 0⟩ ∧
    Stats.ofText? (writeObject [("capacity_words", .int 16)]) = none := by
  have h7 : (Numeral.signed 7).toList = ['7'] := by
    rw [toList_signed_of_nonneg (by decide), Numeral.digits_of_lt (by decide)]
    rfl
  have h32 : (Numeral.signed 32).toList = ['3', '2'] := by
    rw [toList_signed_of_nonneg (by decide), Numeral.digits_of_le (by decide),
      Numeral.digits_of_lt (by decide)]
    rfl
  have hfits : Config.Fits ⟨32, .halt, some 7⟩ := ⟨by decide, by simp⟩
  have hblank : Gap [' '] := fun c hc => by rw [List.mem_singleton.mp hc]; rfl
  have hcolor := MemberSpelling.mk (textSpelling_encode "color".toList) .null
    gap_nil hblank hblank hblank
  have hseed := MemberSpelling.mk (textSpelling_encode "random_seed".toList) (.int 7)
    gap_nil gap_nil gap_nil gap_nil
  have hescaped : TextSpelling "arena_words".toList
      (['\\', 'u', '0', '0', '6', '1'] ++ "rena_words".toList.flatMap encodeChar) :=
    .cons (c := 'a') (.unit (n := 97) rfl rfl rfl) (textSpelling_encode "rena_words".toList)
  have hwords := MemberSpelling.mk hescaped (.int 32) gap_nil gap_nil hblank hblank
  have hspelled := ObjectSpelling.members hblank (.more hcolor (.more hseed (.last hwords))) gap_nil
  rw [h7, h32] at hspelled
  obtain ⟨hwritten, hpart, hrefused, hstats, hmissing⟩ := settings_and_statistics_survive_json
  refine ⟨hwritten _ hfits, ?_, ?_, hstats _ (by decide), ?_⟩
  · refine hpart ⟨32, .halt, some 7⟩
      [("color", .null), ("random_seed", .int 7), ("arena_words", .int 32)] _ hfits hspelled ?_
    unfold PartOf
    decide
  · exact hrefused _ _ "random_seed" (spelling_writeObject _) (by decide) (by decide)
  · exact hmissing _ _ "used_words" (spelling_writeObject _) (by decide) (by decide)

end ObjectMemory
