/-!
# Rounding quotients

`roundDiv num den` is the whole number nearest to `num / den`, a tie going to the even one.
-/

-- Powers are those of the standard library also where other instances are known.
attribute [instance (high)] instPowNat

namespace ByteTemplate

def roundDiv (num den : Nat) : Nat :=
  let quotient := num / den
  let remainder := num % den
  if 2 * remainder < den then quotient
  else if den < 2 * remainder then quotient + 1
  else quotient + quotient % 2

/-- The rounded quotient is within half a unit of the exact one. -/
theorem roundDiv_near (num den : Nat) (h : 0 < den) :
    2 * num ≤ (2 * roundDiv num den + 1) * den ∧
      2 * roundDiv num den * den ≤ 2 * num + den := by
  have split := Nat.div_add_mod num den
  have small := Nat.mod_lt num h
  have commute : den * (num / den) = num / den * den := Nat.mul_comm _ _
  have parity := Nat.mod_two_eq_zero_or_one (num / den)
  simp only [roundDiv]
  split
  · constructor <;> grind
  · split
    · constructor <;> grind
    · rcases parity with even | odd
      · rw [even]; constructor <;> grind
      · rw [odd]; constructor <;> grind

/-- A tie goes to the even neighbour. -/
theorem roundDiv_tie_even (num den : Nat) (h : 2 * (num % den) = den) :
    roundDiv num den % 2 = 0 := by
  simp only [roundDiv]
  split
  · omega
  · split
    · omega
    · omega

theorem roundDiv_mul (n den : Nat) (h : 0 < den) : roundDiv (n * den) den = n := by
  simp [roundDiv, h]

end ByteTemplate
