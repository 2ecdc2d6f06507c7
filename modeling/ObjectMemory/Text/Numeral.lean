/-!
# Numerals

Numbers are written without leading zeros, in base ten and, for raw words, in base sixteen.

## Writing

`digits base n` writes the quotient first and the last digit after it. The recursion ends
because a quotient by a base of at least two is smaller than the number.

## Reading

`read?` takes an optional plus sign and then one or more decimal digits, up to a bound.
`value_digits` says that reading the decimal digits of a number gives the number.
-/

namespace ObjectMemory.Numeral

/-- Largest value of a 64-bit field. -/
def maxUInt64 : Nat := 18446744073709551615

/-! ## Writing -/

/-- The digit for a value below sixteen. -/
def digitChar (d : Nat) : Char :=
  if d < 10 then Char.ofNat (48 + d) else Char.ofNat (87 + d)

/-- The digits of a number, the most significant one first. -/
def digits (base n : Nat) : List Char :=
  if n < base ∨ base < 2 then [digitChar n]
  else digits base (n / base) ++ [digitChar (n % base)]
termination_by n
decreasing_by exact Nat.div_lt_self (by omega) (by omega)

/-- A number in base ten. -/
def decimal (n : Nat) : String :=
  String.ofList (digits 10 n)

/-- A number in base sixteen, with lower-case letters. -/
def hex (n : Nat) : String :=
  String.ofList (digits 16 n)

/-- An integer in base ten. -/
def signed (n : Int) : String :=
  if n < 0 then "-" ++ decimal n.natAbs else decimal n.natAbs

/-! ## Reading -/

/-- The value of a decimal digit. -/
def digitValue? (c : Char) : Option Nat :=
  if 48 ≤ c.toNat ∧ c.toNat ≤ 57 then some (c.toNat - 48) else none

def isDigit (c : Char) : Bool :=
  (digitValue? c).isSome

/-- The value of a hexadecimal digit, in either case. -/
def hexValue? (c : Char) : Option Nat :=
  let n := c.toNat
  if 48 ≤ n ∧ n ≤ 57 then some (n - 48)
  else if 97 ≤ n ∧ n ≤ 102 then some (n - 87)
  else if 65 ≤ n ∧ n ≤ 70 then some (n - 55)
  else none

/-- The value of a row of decimal digits; any other character counts as zero. -/
def value (cs : List Char) : Nat :=
  cs.foldl (fun n c => 10 * n + (digitValue? c).getD 0) 0

/-- One or more decimal digits with a value of at most `bound`. -/
def readDigits? (bound : Nat) (cs : List Char) : Option Nat :=
  if cs ≠ [] ∧ cs.all isDigit ∧ value cs ≤ bound then some (value cs) else none

/-- An optional plus sign, then digits with a value of at most `bound`. -/
def read? (bound : Nat) : List Char → Option Nat
  | '+' :: cs => readDigits? bound cs
  | cs => readDigits? bound cs

/-! ## Reading what was written -/

theorem digitValue?_digitChar {d : Nat} (h : d < 10) : digitValue? (digitChar d) = some d := by
  have hall : ∀ e ∈ List.range 10, digitValue? (digitChar e) = some e := by decide
  exact hall d (List.mem_range.mpr h)

theorem digits_of_lt {n : Nat} (h : n < 10) : digits 10 n = [digitChar n] := by
  rw [digits, if_pos (Or.inl h)]

theorem digits_of_le {n : Nat} (h : 10 ≤ n) :
    digits 10 n = digits 10 (n / 10) ++ [digitChar (n % 10)] := by
  rw [digits, if_neg (by omega)]

theorem value_append (cs : List Char) (c : Char) :
    value (cs ++ [c]) = 10 * value cs + (digitValue? c).getD 0 := by
  simp [value, List.foldl_append]

/-- **The decimal digits of a number have that value.** -/
theorem value_digits (n : Nat) : value (digits 10 n) = n := by
  induction n using Nat.strongRecOn with
  | _ n ih =>
    by_cases h : n < 10
    · rw [digits_of_lt h]
      simp [value, digitValue?_digitChar h]
    · rw [digits_of_le (by omega), value_append, ih (n / 10) (by omega),
        digitValue?_digitChar (Nat.mod_lt _ (by omega)), Option.getD_some]
      omega

theorem all_isDigit_digits (n : Nat) : (digits 10 n).all isDigit = true := by
  induction n using Nat.strongRecOn with
  | _ n ih =>
    by_cases h : n < 10
    · rw [digits_of_lt h]
      simp [isDigit, digitValue?_digitChar h]
    · rw [digits_of_le (by omega), List.all_append, ih (n / 10) (by omega)]
      simp [isDigit, digitValue?_digitChar (Nat.mod_lt n (by omega : 0 < 10))]

theorem digits_ne_nil (n : Nat) : digits 10 n ≠ [] := by
  by_cases h : n < 10
  · simp [digits_of_lt h]
  · simp [digits_of_le (Nat.le_of_not_lt h)]

end ObjectMemory.Numeral
