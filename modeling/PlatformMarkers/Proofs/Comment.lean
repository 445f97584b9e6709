import PlatformMarkers.Proofs.Enclosure

/-! Comments in the marked code. A scanner goes through the code character by character and
tells whether it is in a comment; behind the substitute of a tag, a block comment is open
exactly if the tag makes the zone dead or leaves it so. -/

set_option autoImplicit false

namespace PlatformMarkers

namespace Comment

inductive State where
  | code
  /-- Behind a slash in code, with which a comment may begin. -/
  | slash
  | line
  | block
  /-- Behind an asterisk in a block comment, with which it may end. -/
  | star
  deriving DecidableEq, Repr

/-- A line comment goes from two slashes to the line feed, and a block comment from a slash
and an asterisk to the next asterisk and slash. -/
def State.step : State → Char → State
  | .code, c => if c = '/' then .slash else .code
  | .slash, c => if c = '/' then .line else if c = '*' then .block else .code
  | .line, c => if c = '\n' then .code else .line
  | .block, c => if c = '*' then .star else .block
  | .star, c => if c = '/' then .code else if c = '*' then .star else .block

def State.inBlock : State → Bool
  | .block | .star => true
  | .code | .slash | .line => false

def after (state : State) (text : Text) : State := text.foldl State.step state

theorem after_append (state : State) (first second : Text) :
    after state (first ++ second) = after (after state first) second :=
  List.foldl_append

theorem inBlock_step_lineFeed (state : State) : (state.step '\n').inBlock = state.inBlock := by
  cases state <;> rfl

theorem after_line {text : Text} (whole : '\n' ∉ text) : after .line text = .line := by
  induction text with
  | nil => rfl
  | cons c text ih =>
    rw [List.mem_cons, not_or] at whole
    simpa [after, State.step, Ne.symm whole.1] using ih whole.2

end Comment

/-- Text without the characters that begin or end a comment, a string or a character. -/
def Ordinary (text : Text) : Prop := ∀ c ∈ text, c ∉ ['*', '/', '"', '\'']

instance (text : Text) : Decidable (Ordinary text) :=
  List.decidableBAll (· ∉ ['*', '/', '"', '\'']) text

theorem Ordinary.isPlain {text : Text} (ordinary : Ordinary text) : IsPlain text := by
  intro c member
  have absent := ordinary c member
  simp only [List.mem_cons, not_or] at absent
  simp [isDelimiter, delimiters, absent]

theorem Ordinary.of_isPrefix {first text : Text} (ordinary : Ordinary text) (start : first <+: text) :
    Ordinary first :=
  fun c member => ordinary c (start.subset member)

namespace Mac

open Comment

def Zone.comment : Zone → State
  | .live => .code
  | .dead => .block

theorem after_ordinary (zone : Zone) {text : Text} (ordinary : Ordinary text) :
    after zone.comment text = zone.comment := by
  induction text with
  | nil => rfl
  | cons c text ih =>
    have stays : zone.comment.step c = zone.comment := by
      have absent := ordinary c List.mem_cons_self
      simp only [List.mem_cons, not_or] at absent
      cases zone <;> simp [Zone.comment, State.step, absent]
    rw [after, List.foldl_cons, stays]
    exact ih fun d member => ordinary d (List.mem_cons_of_mem c member)

-- The lead of a substitute has no effect in a block comment, nor its trail in a line comment.
theorem after_substitute (zone : Zone) (tag : Tag) :
    after zone.comment tag.substitute = (zone.after tag).comment ∨
      after zone.comment tag.substitute = .line ∧ zone.after tag = .live := by
  cases zone <;> rcases tag with ⟨_ | _ | _⟩ | ⟨_ | _ | _⟩ <;> decide

theorem step_lineFeed (zone : Zone) : zone.comment.step '\n' = zone.comment := by
  cases zone <;> rfl

theorem after_substitute_line (zone : Zone) (tag : Tag) {before behind : Text}
    (beforeOrdinary : Ordinary before) (behindOrdinary : Ordinary behind) (whole : '\n' ∉ behind) :
    after zone.comment (before ++ tag.substitute ++ behind ++ ['\n']) = (zone.after tag).comment := by
  rw [after_append, after_append, after_append, after_ordinary zone beforeOrdinary]
  rcases after_substitute zone tag with settled | ⟨line, live⟩
  · rw [settled, after_ordinary _ behindOrdinary]
    exact step_lineFeed _
  · rw [line, after_line whole, live]
    rfl

end Mac

end PlatformMarkers
