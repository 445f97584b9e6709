/-! Text as a list of Unicode code points, so that lengths and positions count
code points and recursion follows the characters. -/

set_option autoImplicit false

namespace PlatformMarkers

abbrev Text := List Char

namespace Text

def decimal (number : Nat) : Text := Nat.toDigits 10 number

def ticked (text : Text) : Text := "`".toList ++ text ++ "`".toList

def joined (separator : Text) (parts : List Text) : Text := separator.intercalate parts

theorem not_mem_of_mem_splitOn {separator : Char} {text part : Text}
    (member : part ∈ text.splitOn separator) : separator ∉ part := by
  have whole (current : Text) (fresh : separator ∉ current) :
      ∀ part ∈ text.splitOnPPrepend (· == separator) current, separator ∉ part := by
    clear member
    induction text generalizing current with
    | nil => simpa using fresh
    | cons c rest ih =>
      rw [List.splitOnPPrepend]
      split
      next => simpa using ⟨fresh, ih [] List.not_mem_nil⟩
      next different =>
        have longerFresh : separator ∉ c :: current := by
          simp only [beq_iff_eq] at different
          simp [fresh, Ne.symm different]
        exact ih (c :: current) longerFresh
  exact whole [] List.not_mem_nil part member

end Text

end PlatformMarkers
