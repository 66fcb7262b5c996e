/-! # Decimal numerals

Reading a decimal numeral into a bounded range of integers. A leading plus is allowed; a leading
minus only where the range holds negative numbers. Digits are the ten of ASCII.
-/

namespace ConfigVetting.Text

/-- The value of a run of decimal digits, or nothing if it is empty or holds another character. -/
def digits? : List Char → Option Nat
  | [] => none
  | text =>
    if text.all Char.isDigit then
      some (text.foldl (fun value c => 10 * value + (c.toNat - '0'.toNat)) 0)
    else none

/-- A whole number, if the text is one and at most `limit`. -/
def natural? (limit : Nat) (text : String) : Option Nat :=
  (match text.toList with
    | '+' :: rest => digits? rest
    | chars => digits? chars).filter (· ≤ limit)

/-- A whole number with a sign, if the text is one in a range of integers. -/
def integer? (least greatest : Int) (text : String) : Option Int :=
  (match text.toList with
    | '+' :: rest => (digits? rest).map Int.ofNat
    | '-' :: rest => (digits? rest).map fun value => -Int.ofNat value
    | chars => (digits? chars).map Int.ofNat).filter fun value =>
      least ≤ value && value ≤ greatest

/-- The least number of 64 bits with a sign. -/
def int64Least : Int := -Int.pow 2 63

/-- The greatest number of 64 bits with a sign. -/
def int64Greatest : Int := Int.pow 2 63 - 1

/-- The greatest number of 64 bits without a sign. -/
def nat64Greatest : Nat := Nat.pow 2 64 - 1

/-- The greatest number of 32 bits without a sign. -/
def nat32Greatest : Nat := Nat.pow 2 32 - 1

/-- A number of 64 bits with a sign, if the text is one. -/
def int64? : String → Option Int :=
  integer? int64Least int64Greatest

/-- A number of 32 bits without a sign, if the text is one. -/
def nat32? : String → Option Nat :=
  natural? nat32Greatest

/-- The digits of a number are read back as the number. -/
theorem digits?_toDigits (number : Nat) : digits? (Nat.toDigits 10 number) = some number := by
  have digits : (Nat.toDigits 10 number).all Char.isDigit = true :=
    List.all_eq_true.mpr fun _ => Nat.isDigit_of_mem_toDigits (by decide) (by decide)
  have value := @Nat.ofDigitChars_ten_toDigits number
  unfold Nat.ofDigitChars at value
  unfold digits?
  split
  · next empty => exact absurd empty Nat.toDigits_ne_nil
  · rw [if_pos digits, value]

/-- A number that is written down is read back if it is not too great. -/
theorem natural?_toString (limit number : Nat) :
    natural? limit (toString number) = if number ≤ limit then some number else none := by
  have unsigned : ∀ rest, Nat.toDigits 10 number ≠ '+' :: rest := fun rest written => by
    have sign : '+' ∈ Nat.toDigits 10 number := written ▸ List.mem_cons_self
    exact absurd (Nat.isDigit_of_mem_toDigits (by decide) (by decide) sign) (by decide)
  rw [natural?, Nat.toString_eq_repr, Nat.toList_repr]
  split
  · next rest written => exact absurd written (unsigned rest)
  · rw [digits?_toDigits]
    by_cases within : number ≤ limit <;> simp [Option.filter, within]

end ConfigVetting.Text
