import Mathlib.Tactic

/-!
# Decimal numerals

A text is a numeral when it is made of digits and does not start with a zero it could do
without. Numerals are what `Nat.toDigits` writes, each number has one, and a row of them
is read back from between its separators.
-/

namespace MaskPool.Numerals

def Numeral (text : List Char) : Prop :=
  text ≠ [] ∧ (∀ c ∈ text, c.isDigit) ∧ (text.head? = some '0' → text.length = 1)

instance (text : List Char) : Decidable (Numeral text) :=
  inferInstanceAs (Decidable (_ ∧ _ ∧ _))

def value (text : List Char) : ℕ := Nat.ofDigitChars 10 text 0

theorem value_toDigits (n : ℕ) : value (Nat.toDigits 10 n) = n :=
  Nat.ofDigitChars_ten_toDigits

theorem eq_digitChar {c : Char} (h : c.isDigit) : ∃ n < 10, c = Nat.digitChar n := by
  have hrange := Char.isDigit_iff_toNat.mp h
  have hzero : '0'.toNat = 48 := rfl
  have hnine : '9'.toNat = 57 := rfl
  refine ⟨c.toNat - 48, by omega, Char.toNat_inj.mp ?_⟩
  rw [Nat.toNat_digitChar_of_lt_ten (by omega)]
  omega

theorem value_append (text : List Char) {n : ℕ} (hn : n < 10) :
    value (text ++ [Nat.digitChar n]) = 10 * value text + n := by
  rw [value, Nat.ofDigitChars_append, Nat.ofDigitChars_cons_digitChar_of_lt_ten hn,
    Nat.ofDigitChars_nil]
  rfl

/-- A numeral is what its value is written as: a longer one ends in the last digit, and
what stands before it is a numeral of a positive number. -/
theorem toDigits_value {text : List Char} (h : Numeral text) :
    Nat.toDigits 10 (value text) = text := by
  induction text using List.reverseRecOn with
  | nil => exact absurd rfl h.1
  | append_singleton text c ih =>
    obtain ⟨-, hdigits, hzero⟩ := h
    obtain ⟨n, hn, rfl⟩ := eq_digitChar (hdigits c (by simp))
    rw [value_append text hn]
    cases text with
    | nil => simpa [value] using Nat.toDigits_of_lt_base hn
    | cons d text =>
      have hlead : d ≠ '0' := by
        rintro rfl
        simp at hzero
      have hshort : Numeral (d :: text) := by
        refine ⟨List.cons_ne_nil _ _, fun c hc => hdigits c (List.mem_append_left _ hc), ?_⟩
        intro hhead
        exact absurd (Option.some.inj hhead) hlead
      have hpos : value (d :: text) ≠ 0 := by
        intro hvalue
        have hwritten := ih hshort
        rw [hvalue] at hwritten
        exact hlead (List.cons.inj hwritten).1.symm
      have hdiv : (10 * value (d :: text) + n) / 10 = value (d :: text) := by omega
      have hmod : (10 * value (d :: text) + n) % 10 = n := by omega
      rw [Nat.toDigits_of_base_le (by omega) (by omega), hdiv, hmod, ih hshort]

theorem eq_zero_of_head {n : ℕ} (h : (Nat.toDigits 10 n).head? = some '0') : n = 0 := by
  induction n using Nat.strong_induction_on with
  | _ n ih =>
    by_cases hn : n < 10
    · rw [Nat.toDigits_of_lt_base hn] at h
      exact Nat.digitChar_eq_zero.mp (Option.some.inj h)
    · rw [Nat.toDigits_of_base_le (by omega) (by omega),
        List.head?_append_of_ne_nil _ Nat.toDigits_ne_nil] at h
      have hfront := ih (n / 10) (by omega) h
      omega

theorem numeral_toDigits (n : ℕ) : Numeral (Nat.toDigits 10 n) := by
  refine ⟨Nat.toDigits_ne_nil, ?_, ?_⟩
  · intro c hc
    exact Nat.isDigit_of_mem_toDigits (by omega) (by omega) hc
  · intro hhead
    rw [eq_zero_of_head hhead]
    rfl

def row (separator : Char) (numbers : List ℕ) : List Char :=
  [separator].intercalate (numbers.map (Nat.toDigits 10))

def readRow (separator : Char) (text : List Char) : Option (List ℕ) :=
  if ∀ field ∈ text.splitOn separator, Numeral field then
    some ((text.splitOn separator).map value)
  else none

variable {separator : Char} {numbers : List ℕ} {text : List Char}

/-- A text is read as some numbers exactly when it is what they are written as. -/
theorem readRow_eq_some (hseparator : separator.isDigit = false) (hnumbers : numbers ≠ []) :
    readRow separator text = some numbers ↔ text = row separator numbers := by
  have hsplit : (row separator numbers).splitOn separator =
      numbers.map (Nat.toDigits 10) := by
    apply List.splitOn_intercalate
    · intro field hfield hmem
      obtain ⟨n, -, rfl⟩ := List.mem_map.mp hfield
      have hdigit := (numeral_toDigits n).2.1 separator hmem
      rw [hseparator] at hdigit
      cases hdigit
    · simpa using hnumbers
  constructor
  · intro h
    rw [readRow] at h
    split_ifs at h with hfields
    obtain rfl := Option.some.inj h
    have hwritten : ((text.splitOn separator).map value).map (Nat.toDigits 10) =
        text.splitOn separator := by
      rw [List.map_map]
      conv_rhs => rw [← List.map_id (text.splitOn separator)]
      apply List.map_congr_left
      intro field hfield
      exact toDigits_value (hfields field hfield)
    rw [row, hwritten, List.intercalate_splitOn]
  · rintro rfl
    rw [readRow, hsplit, if_pos]
    · simp [Function.comp_def, value_toDigits]
    · intro field hfield
      obtain ⟨n, -, rfl⟩ := List.mem_map.mp hfield
      exact numeral_toDigits n

end MaskPool.Numerals
