import Mathlib.Data.Nat.Digits.Defs

/-!
# Numerals

The text of a number in a base up to 16, with upper case letters, and what it is parsed to.
-/

namespace RTLKIM

def digitValue (c : Char) : Option ℕ :=
  if c.isDigit then some (c.toNat - '0'.toNat)
  else if c.isUpper then some (c.toNat - 'A'.toNat + 10)
  else none

/-- The number that a text is in a base, if all its characters are digits there. -/
def parse (base : ℕ) (s : List Char) : Option ℕ :=
  s.foldlM (fun n c => ((digitValue c).filter (· < base)).map (n * base + ·)) 0

/-- The text of a number, without zeros before it. -/
structure Numeral (base n : ℕ) (s : List Char) : Prop where
  ne_nil : s ≠ []
  parse_eq : parse base s = some n
  leading : s.head? = some '0' → s = ['0']

variable {base n : ℕ}

theorem digitValue_digitChar : ∀ d < 16, digitValue (Nat.digitChar d).toUpper = some d := by decide

theorem toUpper_digitChar_eq_zero : ∀ d < 16, (Nat.digitChar d).toUpper = '0' → d = 0 := by decide

theorem parse_concat {s : List Char} {d : ℕ} (h : parse base s = some n) (hd : d < base)
    (hmax : base ≤ 16) :
    parse base (s ++ [(Nat.digitChar d).toUpper]) = some (n * base + d) := by
  have hdigit : (digitValue (Nat.digitChar d).toUpper).filter (· < base) = some d := by
    rw [digitValue_digitChar d (hd.trans_le hmax)]
    exact Option.filter_some_pos (decide_eq_true hd)
  unfold parse at h ⊢
  rw [List.foldlM_append, h, Option.bind_eq_bind, Option.bind_some, List.foldlM_cons, hdigit]
  rfl

theorem parse_toDigits (hb : 1 < base) (hmax : base ≤ 16) (n : ℕ) :
    parse base ((Nat.toDigits base n).map Char.toUpper) = some n := by
  induction n using Nat.strong_induction_on with
  | _ n ih =>
    by_cases hlt : n < base
    · have hdigit := parse_concat (s := []) rfl hlt hmax
      rw [Nat.zero_mul, Nat.zero_add] at hdigit
      rw [Nat.toDigits_of_lt_base hlt]
      exact hdigit
    · have hle : base ≤ n := Nat.le_of_not_lt hlt
      have hrest := ih (n / base) (Nat.div_lt_self (by omega) hb)
      rw [Nat.toDigits_of_base_le hb hle, List.map_append, List.map_singleton,
        parse_concat hrest (Nat.mod_lt n (by omega)) hmax, Nat.div_add_mod' n base]

/-- Only 0 has a zero first. -/
theorem toDigits_leading (hb : 1 < base) (hmax : base ≤ 16) :
    ∀ n, ((Nat.toDigits base n).map Char.toUpper).head? = some '0' → n = 0 := by
  intro n
  induction n using Nat.strong_induction_on with
  | _ n ih =>
    intro h
    by_cases hlt : n < base
    · rw [Nat.toDigits_of_lt_base hlt] at h
      exact toUpper_digitChar_eq_zero n (hlt.trans_le hmax) (Option.some_inj.1 h)
    · have hle : base ≤ n := Nat.le_of_not_lt hlt
      have hfirst : (Nat.toDigits base (n / base)).map Char.toUpper ≠ [] := by
        simp [Nat.toDigits_ne_nil]
      obtain ⟨c, cs, hcons⟩ := List.exists_cons_of_ne_nil hfirst
      rw [Nat.toDigits_of_base_le hb hle, List.map_append, hcons, List.cons_append,
        List.head?_cons] at h
      have hzero := ih (n / base) (Nat.div_lt_self (by omega) hb) (by rw [hcons, List.head?_cons, h])
      exact absurd hzero (Nat.div_pos hle (by omega)).ne'

theorem numeral_toDigits (hb : 1 < base) (hmax : base ≤ 16) (n : ℕ) :
    Numeral base n ((Nat.toDigits base n).map Char.toUpper) where
  ne_nil := by simp [Nat.toDigits_ne_nil]
  parse_eq := parse_toDigits hb hmax n
  leading h := by
    rw [toDigits_leading hb hmax n h, Nat.toDigits_zero]
    rfl

end RTLKIM
