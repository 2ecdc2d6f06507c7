import ObjectMemory.Proofs.Searching
import ObjectMemory.Proofs.Slicing

/-!
# Matches

A search compares bytes, and parts are cut out by code points. For texts the two agree. A byte that
continues a character never starts one, so the bytes of a text stand only where a character starts
(`Utf8.exists_of_starts`). And no character's bytes are the first bytes of another one's, so a text
whose bytes stand there is what the characters are from there on (`Utf8.prefix_of_encodeAll`).

So what was found can be cut out: `matches_are_parts`.
-/

namespace ObjectMemory

/-! ## Where characters start -/

namespace CodePoints

variable {bytes more : List UInt8} {k : Nat}

/-- **No code point starts within another one.** -/
theorem OnePiece.not_starts (hone : OnePiece bytes) (hpos : 0 < k) (hk : k < bytes.length) :
    ¬ Starts ((bytes ++ more).drop k) := by
  cases bytes with
  | nil => exact hone.elim
  | cons b rest =>
    obtain ⟨j, rfl⟩ : ∃ j, k = j + 1 := ⟨k - 1, by omega⟩
    have hj : j < rest.length := Nat.lt_of_succ_lt_succ hk
    have hcontinues : isContinuation rest[j] = true := hone.2.1 _ (List.getElem_mem hj)
    intro hstarts
    rw [List.cons_append, List.drop_succ_cons, List.drop_append_of_le_length (Nat.le_of_lt hj),
      List.drop_eq_getElem_cons hj] at hstarts
    have hnot : isContinuation rest[j] = false := hstarts
    rw [hcontinues] at hnot
    cases hnot

end CodePoints

namespace Utf8

open CodePoints

variable {cs ds : List Char} {i k : Nat}

/-- **Where a code point starts in UTF-8, a character does.** -/
theorem exists_of_starts (hk : k < (encodeAll cs).length)
    (hstarts : Starts ((encodeAll cs).drop k)) :
    ∃ i, k = (encodeAll (cs.take i)).length ∧ (encodeAll cs).drop k = encodeAll (cs.drop i) := by
  induction cs generalizing k with
  | nil => cases hk
  | cons c cs ih =>
    have hcons (xs : List Char) : encodeAll (c :: xs) = String.utf8EncodeChar c ++ encodeAll xs :=
      List.flatMap_cons
    rw [hcons] at hk hstarts ⊢
    rcases Nat.lt_or_ge k (String.utf8EncodeChar c).length with hwithin | hpast
    · -- the place lies in the first character, so it is where that starts
      obtain rfl : k = 0 := Nat.eq_zero_of_not_pos fun hpos =>
        (onePiece_encodeChar c).not_starts hpos hwithin hstarts
      exact ⟨0, rfl, rfl⟩
    · have hrest : (String.utf8EncodeChar c ++ encodeAll cs).drop k =
          (encodeAll cs).drop (k - (String.utf8EncodeChar c).length) := by
        rw [List.drop_append, List.drop_eq_nil_of_le hpast, List.nil_append]
      rw [hrest] at hstarts ⊢
      rw [List.length_append] at hk
      obtain ⟨i, hi, hdrop⟩ := ih (by omega) hstarts
      refine ⟨i + 1, ?_, hdrop⟩
      rw [List.take_succ_cons, hcons, List.length_append, ← hi]
      omega

/-! ## What stands there -/

/-- **A row whose bytes are the first ones of another row's is the start of that row.** -/
theorem prefix_of_encodeAll (hpre : encodeAll ds <+: encodeAll cs) : ds <+: cs := by
  induction ds generalizing cs with
  | nil => exact List.nil_prefix
  | cons d ds ih =>
    obtain ⟨more, hmore⟩ := hpre
    rw [encodeAll, List.flatMap_cons, List.append_assoc] at hmore
    cases cs with
    | nil =>
      have hnone : String.utf8EncodeChar d = [] := (List.append_eq_nil_iff.mp hmore).1
      exact absurd hnone String.utf8EncodeChar_ne_nil
    | cons c cs =>
      rw [encodeAll, List.flatMap_cons] at hmore
      -- the character at the front can be read off either row
      have hfront := congrArg front? hmore
      rw [front?_append, front?_append] at hfront
      obtain rfl : d = c := Option.some.inj hfront
      have hrest : encodeAll ds <+: encodeAll cs := ⟨more, List.append_cancel_left hmore⟩
      exact List.cons_prefix_cons.mpr ⟨rfl, ih hrest⟩

/-- **Bytes of characters stand in UTF-8 only where these characters are.** -/
theorem exists_of_prefix_drop (hne : ds ≠ []) (hk : k < (encodeAll cs).length)
    (hpre : encodeAll ds <+: (encodeAll cs).drop k) :
    ∃ i, k = (encodeAll (cs.take i)).length ∧ ds <+: cs.drop i := by
  have hstarts : Starts ((encodeAll cs).drop k) := by
    obtain ⟨more, hmore⟩ := hpre
    cases ds with
    | nil => exact absurd rfl hne
    | cons d ds =>
      rw [← hmore, encodeAll, List.flatMap_cons, List.append_assoc]
      exact (onePiece_encodeChar d).starts _
  obtain ⟨i, hi, hdrop⟩ := exists_of_starts hk hstarts
  rw [hdrop] at hpre
  exact ⟨i, hi, prefix_of_encodeAll hpre⟩

/-! ## Places of characters -/

theorem offset_encodeAll (cs : List Char) (n : Nat) :
    offset (encodeAll cs) n = (encodeAll (cs.take n)).length := by
  rw [offset_eq, pieces_encodeAll, ← List.map_take, encodeAll, List.flatMap_def]

/-- **Characters that stand in a row are those between two places**, and their bytes lie between
the boundaries that these have. -/
theorem range_of_prefix_drop (hne : ds ≠ []) (hpre : ds <+: cs.drop i) :
    range (encodeAll cs) (i + 1) (i + ds.length) =
      ((encodeAll (cs.take i)).length,
        (encodeAll (cs.take i)).length + (encodeAll ds).length) := by
  have hpos : 0 < ds.length := List.length_pos_iff.mpr hne
  have htake : cs.take (i + ds.length) = cs.take i ++ ds := by
    rw [List.take_add, ← List.prefix_iff_eq_take.mp hpre]
  rw [range_eq, if_neg (by omega), Nat.add_sub_cancel, offset_encodeAll, offset_encodeAll, htake,
    encodeAll_append, List.length_append]

/-- The part between the two places is the row of their bytes. -/
theorem part_of_prefix_drop (hpre : ds <+: cs.drop i) :
    (Indexable.string (encodeAll cs)).part (i + 1 : Nat) (i + ds.length : Nat) =
      .string (encodeAll ds) := by
  have hstart : (((i + 1 : Nat) : Int) - 1).toNat = i := by omega
  have hcut : cut cs (i + 1 : Nat) (some ((i + ds.length : Nat) : Int)) = ds := by
    rw [cut, Int.toNat_natCast, hstart, List.drop_take, Nat.add_sub_cancel_left]
    exact (List.prefix_iff_eq_take.mp hpre).symm
  rw [Indexable.part, pieces_encodeAll, cut, ← List.map_take, ← List.map_drop, ← List.flatMap_def]
  exact congrArg (fun xs => Indexable.string (encodeAll xs)) hcut

end Utf8

/-! ## What a search finds -/

/-- Where a search finds bytes, they are the first ones of what is left. -/
theorem Search.prefix_of_find {needle haystack : List UInt8} {start : Int} {p : Nat}
    (hfind : find needle haystack start = p) :
    1 ≤ p ∧ p ≤ haystack.length ∧ needle <+: haystack.drop (p - 1) := by
  obtain ⟨_, ⟨hone, hle, hthere⟩, _⟩ := find_eq_iff.mp hfind
  exact ⟨hone, hle, List.prefix_iff_eq_take.mpr hthere.symm⟩

/-- **A match never splits a code point.** Let the bytes of one text, which is not empty, be found
among the bytes of another, at place `p` from any start on. Then they are the bytes of some code
points of the other text, from the first to the last of them: they start and end where these do,
and are divided into as many code points as these are.

So a program finds in one string what another one holds, and then cuts it out by the places of its
code points. In any session the part is a new string that shows what was looked for, if there is
room for it. -/
theorem matches_are_parts {needle haystack : List UInt8} {small large : String}
    (hsmall : Utf8.decode? needle = some small) (hlarge : Utf8.decode? haystack = some large)
    (hne : needle ≠ []) {start : Int} {p : Nat}
    (hfind : Search.find needle haystack start = p) :
    ∃ first last : Nat, 1 ≤ first ∧ first ≤ last ∧ last ≤ CodePoints.count haystack ∧
      CodePoints.range haystack first last = (p - 1, p - 1 + needle.length) ∧
      CodePoints.slice haystack first last = needle ∧
      last - first + 1 = CodePoints.count needle ∧
      ∀ c hs, Session c hs → ∀ n ∈ hs, ∀ h ∈ hs,
        c.arena.Shows n (.string needle) → c.arena.Shows h (.string haystack) →
        Primitive.Tells "findInString" [.obj n, .obj h, .int start] c p ∧
        Gives c hs "copyFromTo" (partArgs h first (some last)) (.string needle)
          fun _ _ => True := by
  obtain ⟨ds, rfl⟩ : ∃ ds, needle = Utf8.encodeAll ds :=
    ⟨small.toList, Utf8.decode?_eq_some_iff.mp hsmall⟩
  obtain ⟨cs, rfl⟩ : ∃ cs, haystack = Utf8.encodeAll cs :=
    ⟨large.toList, Utf8.decode?_eq_some_iff.mp hlarge⟩
  have hchars : ds ≠ [] := fun hnil => hne (congrArg Utf8.encodeAll hnil)
  obtain ⟨hone, hle, hthere⟩ := Search.prefix_of_find hfind
  obtain ⟨i, hi, hpre⟩ := Utf8.exists_of_prefix_drop hchars (by omega) hthere
  have hpos : 0 < ds.length := List.length_pos_iff.mpr hchars
  have hlen : ds.length ≤ (cs.drop i).length := hpre.length_le
  rw [List.length_drop] at hlen
  have hrange := Utf8.range_of_prefix_drop hchars hpre
  rw [← hi] at hrange
  refine ⟨i + 1, i + ds.length, by omega, by omega, ?_, hrange, ?_, ?_, ?_⟩
  · rw [Utf8.count_encodeAll]
    omega
  · rw [CodePoints.slice, hrange]
    dsimp only
    rw [Nat.add_sub_cancel_left]
    exact (List.prefix_iff_eq_take.mp hthere).symm
  · rw [Utf8.count_encodeAll]
    omega
  · intro c hs hses n hn h hh hneedle hhaystack
    have hc := hses.closed
    constructor
    · obtain _ | ⟨hclsN, hreadN, _⟩ := hneedle
      obtain _ | ⟨hclsH, hreadH, _⟩ := hhaystack
      have hstart := among_cons (r := .int start) (among_of_obj? rfl hs) among_nil
      obtain ⟨_, _, hfoundN, hfoundH, htells⟩ := tells_findInString hc hn hh hclsN hclsH hstart
      cases hreadN.symm.trans hfoundN
      cases hreadH.symm.trans hfoundH
      rw [← hfind]
      exact htells
    · rw [← Utf8.part_of_prefix_drop hpre]
      exact copyFromTo_gives hc hh hhaystack (i + 1 : Nat) (some (i + ds.length : Nat))
        fun _ _ _ => trivial

/-- A character of two bytes, found between two of one byte, and cut out. -/
theorem match_of_two_bytes :
    ∃ first last : Nat, 1 ≤ first ∧ first ≤ last ∧ last ≤ 3 ∧
      CodePoints.range [97, 0xC3, 0xBC, 98] first last = (1, 3) ∧
      ∃ c, Session c [⟨0⟩, ⟨2⟩] ∧
        Primitive.Tells "findInString" [.obj ⟨0⟩, .obj ⟨2⟩, .int 1] c 2 ∧
        Gives c [⟨0⟩, ⟨2⟩] "copyFromTo" (partArgs ⟨2⟩ first (some last)) (.string [0xC3, 0xBC])
          fun _ _ => True := by
  have hsmall : Utf8.decode? [0xC3, 0xBC] = some (String.ofList ['ü']) :=
    Utf8.decode?_eq_some_iff.mpr (by decide)
  have hlarge : Utf8.decode? [97, 0xC3, 0xBC, 98] = some (String.ofList ['a', 'ü', 'b']) :=
    Utf8.decode?_eq_some_iff.mpr (by decide)
  obtain ⟨first, last, hone, hle, hlast, hrange, -, -, hcalls⟩ :=
    matches_are_parts hsmall hlarge (by decide)
      (by cbv : Search.find [0xC3, 0xBC] [97, 0xC3, 0xBC, 98] 1 = (2 : Nat))
  have h0 := Session.start 64 .panic (Source.ofList [])
  have h1 := Session.step (.make (.string [0xC3, 0xBC])) h0 trivial rfl
  have h2 := Session.step (.make (.string [97, 0xC3, 0xBC, 98])) h1 trivial rfl
  have hcount : CodePoints.count [97, 0xC3, 0xBC, 98] = 3 := by cbv
  refine ⟨first, last, hone, hle, hcount ▸ hlast, hrange, _, h2, ?_⟩
  exact hcalls _ _ h2 ⟨0⟩ (by decide) ⟨2⟩ (by decide) (.string rfl rfl (by decide))
    (.string rfl rfl (by decide))

end ObjectMemory
