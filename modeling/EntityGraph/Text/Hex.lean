/-!
# Hexadecimal digits

Numbers written with the digits `0` to `9` and the letters `A` to `F` in either case.

* `hexDigit?_lt` — a digit stands for a number below sixteen.
-/

namespace EntityGraph.Text

/-- The number that a hexadecimal digit stands for. -/
def hexDigit? (c : Char) : Option Nat :=
  if '0' ≤ c ∧ c ≤ '9' then some (c.toNat - 48)
  else if 'a' ≤ c ∧ c ≤ 'f' then some (c.toNat - 87)
  else if 'A' ≤ c ∧ c ≤ 'F' then some (c.toNat - 55)
  else none

/-- The number that hexadecimal digits stand for; there must be at least one. -/
def hexNumber? (cs : List Char) : Option Nat :=
  if cs.isEmpty then none
  else cs.foldl (fun n c => do return (← n) * 16 + (← hexDigit? c)) (some 0)

/-- A digit stands for a number below sixteen. -/
theorem hexDigit?_lt {c : Char} {n : Nat} (h : hexDigit? c = some n) : n < 16 := by
  have bound : ∀ {d : Char}, c ≤ d → c.toNat ≤ d.toNat := fun hd => hd
  unfold hexDigit? at h
  split at h
  · next hc =>
    have := bound hc.2
    obtain rfl := Option.some.inj h
    simp at this
    omega
  · split at h
    · next hc =>
      have := bound hc.2
      obtain rfl := Option.some.inj h
      simp at this
      omega
    · split at h
      · next hc =>
        have := bound hc.2
        obtain rfl := Option.some.inj h
        simp at this
        omega
      · cases h

end EntityGraph.Text
