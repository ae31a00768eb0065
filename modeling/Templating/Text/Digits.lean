/-!
# Digits

Numbers with a fixed count of digits in a base of at most sixteen, in lower case, and the value of
decimal digits.
-/

namespace Templating.Text

/-- The digit of a number below sixteen, in lower case. -/
def digitChar (n : Nat) : Char :=
  if n < 10 then Char.ofNat (48 + n) else Char.ofNat (87 + n)

/-- The last `width` digits of a number in a base. -/
def fixedDigits (base n : Nat) : Nat → List Char
  | 0 => []
  | width + 1 => fixedDigits base (n / base) width ++ [digitChar (n % base)]

/-- The value of decimal digits. -/
def decimalValue (digits : List Char) : Nat :=
  digits.foldl (fun value c => 10 * value + (c.toNat - 48)) 0

/-! ## First facts -/

@[simp] theorem length_fixedDigits (base n width : Nat) :
    (fixedDigits base n width).length = width := by
  induction width generalizing n with
  | zero => rfl
  | succ width ih => simp [fixedDigits, ih]

theorem toNat_digitChar {n : Nat} (small : n < 10) : (digitChar n).toNat = 48 + n := by
  have : ∀ n < 10, (digitChar n).toNat = 48 + n := by decide
  exact this n small

/-- A number with enough decimal digits is read back from them. -/
theorem decimalValue_fixedDigits {n width : Nat} (fits : n < Nat.pow 10 width) :
    decimalValue (fixedDigits 10 n width) = n := by
  induction width generalizing n with
  | zero =>
    have : n = 0 := by simpa using fits
    simp [this, fixedDigits, decimalValue]
  | succ width ih =>
    have shorter : n / 10 < Nat.pow 10 width := by
      rw [Nat.div_lt_iff_lt_mul (by decide)]
      simpa [Nat.pow_succ] using fits
    have tail := ih shorter
    simp only [decimalValue] at tail
    simp only [fixedDigits, decimalValue, List.foldl_append, List.foldl_cons, List.foldl_nil, tail]
    rw [toNat_digitChar (Nat.mod_lt n (by decide))]
    omega

end Templating.Text
