/-!
# Stretches of code points

A class of characters is given by the ascending bounds of the half-open stretches that make it up:
`[b₀, b₁, b₂, b₃, …]` stands for the code points in `[b₀, b₁)`, in `[b₂, b₃)` and so on.
-/

namespace SchemaTypings.Text

/-- Whether `n` lies in one of the stretches with these bounds. -/
def inStretches : List Nat → Nat → Bool
  | lo :: hi :: rest, n => if n < lo then false else n < hi || inStretches rest n
  | _, _ => false

/-- Below the first bound nothing is in the class. -/
theorem inStretches_of_lt {lo hi n : Nat} {rest : List Nat} (h : n < lo) :
    inStretches (lo :: hi :: rest) n = false := by
  simp [inStretches, h]

/-- Everything between the first two bounds is in the class. -/
theorem inStretches_of_mem {lo hi n : Nat} {rest : List Nat} (h : lo ≤ n) (h' : n < hi) :
    inStretches (lo :: hi :: rest) n = true := by
  simp [inStretches, Nat.not_lt.mpr h, h']

end SchemaTypings.Text
