import Mathlib.Data.List.Basic
import Mathlib.Data.List.Induction
import Mathlib.Data.List.TakeWhile
import ObjectMemory.Text.Blank
import ObjectMemory.Text.Numeral

/-!
# Numerals between white space

A reader of numbers is described here by a grammar that says nothing about reading: `Digits` and
`Denotes` build a numeral up from its digits, each of which is worth ten of the next one. A number
may have many numerals, since zeros may stand in front, but a numeral has one number.

What stands between white space is described by putting the pieces together again (`Framed`).
`trim_eq_iff` says that the reader takes off exactly the white space at the two ends.

* `Numeral.read?_eq_some_iff` — exactly the numerals of numbers up to a bound are read
* `Blank.trim_eq_iff` — what is left is framed by white space and does not start or end with any
-/

namespace ObjectMemory

/-! ## Numerals -/

namespace Numeral

/-- The character is the decimal digit for `d`. -/
def IsDigitOf (c : Char) (d : Nat) : Prop :=
  d < 10 ∧ c.toNat = '0'.toNat + d

/-- A row of one or more decimal digits, and the number that it stands for. -/
inductive Digits : (cs : List Char) → (n : Nat) → Prop
  | one {c : Char} {d : Nat} (digit : IsDigitOf c d) : Digits [c] d
  | more {cs : List Char} {n : Nat} {c : Char} {d : Nat} (front : Digits cs n)
    (digit : IsDigitOf c d) : Digits (cs ++ [c]) (10 * n + d)

/-- A row of digits, with a plus sign in front or not, and the number that it stands for. -/
inductive Denotes : (cs : List Char) → (n : Nat) → Prop
  | unsigned {cs : List Char} {n : Nat} (digits : Digits cs n) : Denotes cs n
  | signed {cs : List Char} {n : Nat} (digits : Digits cs n) : Denotes ('+' :: cs) n

variable {c : Char} {cs : List Char} {d n bound : Nat}

theorem digitValue?_eq_some_iff : digitValue? c = some d ↔ IsDigitOf c d := by
  have hzero : '0'.toNat = 48 := rfl
  unfold digitValue? IsDigitOf
  split
  · next h =>
    rw [Option.some.injEq]
    omega
  · next h => simp; omega

theorem IsDigitOf.isDigit (h : IsDigitOf c d) : isDigit c = true := by
  rw [Numeral.isDigit, digitValue?_eq_some_iff.mpr h]
  rfl

/-- **A row of digits stands for its value**, and every row of digits stands for a number. -/
theorem digits_iff : Digits cs n ↔ cs ≠ [] ∧ cs.all isDigit = true ∧ value cs = n := by
  constructor
  · intro h
    induction h with
    | one digit =>
      refine ⟨List.cons_ne_nil _ _, by simp [digit.isDigit], ?_⟩
      simp [value, digitValue?_eq_some_iff.mpr digit]
    | more front digit ih =>
      refine ⟨by simp, by simp [ih.2.1, digit.isDigit], ?_⟩
      rw [value_append, ih.2.2, digitValue?_eq_some_iff.mpr digit, Option.getD_some]
  · rintro ⟨hne, hall, rfl⟩
    -- the last digit is the one that the grammar adds last
    induction cs using List.reverseRecOn with
    | nil => exact absurd rfl hne
    | append_singleton front c ih =>
      rw [List.all_append, Bool.and_eq_true] at hall
      obtain ⟨hfront, hlast⟩ := hall
      have hc : isDigit c = true := by simpa using hlast
      obtain ⟨d, hd⟩ := Option.isSome_iff_exists.mp hc
      have hdigit := digitValue?_eq_some_iff.mp hd
      rw [value_append, hd, Option.getD_some]
      by_cases hnil : front = []
      · subst hnil
        simpa [value] using Digits.one hdigit
      · exact Digits.more (ih hnil hfront) hdigit

/-- The reader finds the value of digits, unless it is above the bound. -/
theorem readDigits?_eq_some_iff : readDigits? bound cs = some n ↔ Digits cs n ∧ n ≤ bound := by
  rw [digits_iff, readDigits?]
  split
  · next h =>
    obtain ⟨hne, hall, hle⟩ := h
    rw [Option.some.injEq]
    constructor
    · rintro rfl
      exact ⟨⟨hne, hall, rfl⟩, hle⟩
    · rintro ⟨⟨_, _, rfl⟩, _⟩
      rfl
  · next h =>
    simp only [reduceCtorEq, false_iff]
    rintro ⟨⟨hne, hall, rfl⟩, hle⟩
    exact h ⟨hne, hall, hle⟩

theorem not_digits_plus : ¬ Digits ('+' :: cs) n := by
  rw [digits_iff]
  rintro ⟨_, hall, _⟩
  have hplus : isDigit '+' = false := rfl
  rw [List.all_cons, hplus, Bool.false_and] at hall
  cases hall

/-- **Exactly the numerals of numbers up to the bound are read.** -/
theorem read?_eq_some_iff : read? bound cs = some n ↔ Denotes cs n ∧ n ≤ bound := by
  unfold read?
  split
  · next rest =>
    rw [readDigits?_eq_some_iff]
    constructor
    · rintro ⟨hdigits, hle⟩
      exact ⟨.signed hdigits, hle⟩
    · rintro ⟨hdenotes, hle⟩
      cases hdenotes with
      | unsigned digits => exact absurd digits not_digits_plus
      | signed digits => exact ⟨digits, hle⟩
  · next hplus =>
    rw [readDigits?_eq_some_iff]
    constructor
    · rintro ⟨hdigits, hle⟩
      exact ⟨.unsigned hdigits, hle⟩
    · rintro ⟨hdenotes, hle⟩
      cases hdenotes with
      | unsigned digits => exact ⟨digits, hle⟩
      | signed digits => exact absurd rfl (hplus _)

/-- A digit is no white space. -/
theorem IsDigitOf.not_blank (h : IsDigitOf c d) : Blank.isBlank c = false := by
  have hall : ∀ e < 10, Blank.isBlank (Char.ofNat (48 + e)) = false := by decide
  have hc : c = Char.ofNat (48 + d) := by
    rw [← Char.ofNat_toNat c, h.2]
    rfl
  rw [hc]
  exact hall d h.1

theorem Digits.not_blank (h : Digits cs n) : ∀ c ∈ cs, Blank.isBlank c = false := by
  induction h with
  | one digit => simpa using digit.not_blank
  | more front digit ih =>
    intro c hc
    rcases List.mem_append.mp hc with hc | hc
    · exact ih c hc
    · rw [List.mem_singleton.mp hc]
      exact digit.not_blank

/-- **A numeral has no white space in it.** -/
theorem Denotes.not_blank (h : Denotes cs n) : ∀ c ∈ cs, Blank.isBlank c = false := by
  cases h with
  | unsigned digits => exact digits.not_blank
  | signed digits =>
    intro c hc
    rcases List.mem_cons.mp hc with rfl | hc
    · rfl
    · exact digits.not_blank c hc

end Numeral

/-! ## White space at the ends -/

namespace Blank

/-- `core` stands in `text` with nothing but white space before and after it. -/
def Framed (core text : List Char) : Prop :=
  ∃ before after, text = before ++ core ++ after ∧
    (∀ c ∈ before, isBlank c = true) ∧ ∀ c ∈ after, isBlank c = true

/-- The text does not start or end with white space. -/
structure Tight (core : List Char) : Prop where
  first : ∀ c ∈ core.head?, isBlank c = false
  last : ∀ c ∈ core.getLast?, isBlank c = false

variable {core text : List Char}

theorem Tight.of_not_blank (h : ∀ c ∈ core, isBlank c = false) : Tight core where
  first c hc := h c (List.mem_of_mem_head? hc)
  last c hc := h c (List.mem_of_mem_getLast? hc)

theorem Tight.reverse (h : Tight core) : Tight core.reverse where
  first c hc := h.last c (by rwa [List.head?_reverse] at hc)
  last c hc := h.first c (by rwa [List.getLast?_reverse] at hc)

theorem dropWhile_of_first (h : ∀ c ∈ core.head?, isBlank c = false) :
    core.dropWhile isBlank = core := by
  cases core with
  | nil => rfl
  | cons c rest => rw [List.dropWhile_cons_of_neg (by simp [h c rfl])]

theorem first_dropWhile (cs : List Char) :
    ∀ c ∈ (cs.dropWhile isBlank).head?, isBlank c = false := by
  intro c hc
  have h := List.head?_dropWhile_not isBlank cs
  rw [Option.mem_def.mp hc] at h
  exact h

/-- What stands between blanks is found again if it neither starts nor ends with one. -/
theorem Framed.trim_eq (hframed : Framed core text) (htight : Tight core) : trim text = core := by
  obtain ⟨before, after, rfl, hbefore, hafter⟩ := hframed
  rw [trim, List.append_assoc, List.dropWhile_append_of_pos hbefore]
  by_cases hnil : core = []
  · subst hnil
    have hnone : after.dropWhile isBlank = [] := List.dropWhile_eq_nil_iff.mpr hafter
    rw [List.nil_append, hnone]
    rfl
  · -- the front of what is left belongs to the core, and then so does the end
    have hfirst : ∀ c ∈ (core ++ after).head?, isBlank c = false := by
      rw [List.head?_append_of_ne_nil _ hnil]
      exact htight.first
    have hback : ∀ c ∈ after.reverse, isBlank c = true := fun c hc =>
      hafter c (List.mem_reverse.mp hc)
    rw [dropWhile_of_first hfirst, List.reverse_append, List.dropWhile_append_of_pos hback,
      dropWhile_of_first htight.reverse.first, List.reverse_reverse]

/-- What white space at the start leaves is what is left in the end, and more white space. -/
theorem dropWhile_eq_trim_append (text : List Char) :
    text.dropWhile isBlank =
      trim text ++ ((text.dropWhile isBlank).reverse.takeWhile isBlank).reverse := by
  rw [trim, ← List.reverse_append, List.takeWhile_append_dropWhile, List.reverse_reverse]

/-- Only blanks are cut off. -/
theorem framed_trim (text : List Char) : Framed (trim text) text := by
  refine ⟨text.takeWhile isBlank, ((text.dropWhile isBlank).reverse.takeWhile isBlank).reverse,
    ?_, fun c hc => List.mem_takeWhile_imp hc, fun c hc => ?_⟩
  · rw [List.append_assoc, ← dropWhile_eq_trim_append, List.takeWhile_append_dropWhile]
  · exact List.mem_takeWhile_imp (List.mem_reverse.mp hc)

/-- All blanks at both ends are cut off. -/
theorem tight_trim (text : List Char) : Tight (trim text) where
  first c hc := by
    have hne : trim text ≠ [] := List.ne_nil_of_mem (List.mem_of_mem_head? hc)
    refine first_dropWhile text c ?_
    rw [dropWhile_eq_trim_append, List.head?_append_of_ne_nil _ hne]
    exact hc
  last c hc := by
    rw [trim, List.getLast?_reverse] at hc
    exact first_dropWhile _ c hc

/-- **What is left of a text is framed in it by white space, and does not start or end with any.**
Nothing else is. -/
theorem trim_eq_iff : trim text = core ↔ Framed core text ∧ Tight core := by
  constructor
  · rintro rfl
    exact ⟨framed_trim text, tight_trim text⟩
  · rintro ⟨hframed, htight⟩
    exact hframed.trim_eq htight

end Blank

end ObjectMemory
