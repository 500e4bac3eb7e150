import Mathlib.Data.Nat.Cast.Defs

/-! # The constants of formulas over a field

A numeral of a field rests on the fact that the number is at least two. The fact is an
instance of its own here for each constant of the formulas.
-/

namespace Numerals

scoped instance two : Nat.AtLeastTwo 2 := ⟨Nat.le_refl 2⟩

scoped instance three : Nat.AtLeastTwo 3 := ⟨Nat.le_succ 2⟩

scoped instance ten : Nat.AtLeastTwo 10 := ⟨by decide⟩

scoped instance tenThousand : Nat.AtLeastTwo 10000 := ⟨by decide⟩

scoped instance million : Nat.AtLeastTwo 1000000 := ⟨by decide⟩

end Numerals
