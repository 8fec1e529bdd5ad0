import Mathlib.Data.List.Basic

/-!
# Clocked — what a receiver samples at the rising edges of a clock line

`sampled clk dta prev xs` are the levels of `dta` in those `xs` where `clk` has just gone up; `prev`
is what the lines showed before.
-/

namespace Clocked

variable {α β : Type*} {clk dta : α → Bool} {prev : α} {xs ys : List α}

end Clocked
