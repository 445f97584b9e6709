import PlatformMarkers.Text.Basic

/-! Markers: a tag that directly follows a run of comment delimiters. A marker takes
in the run before its tag and the run after it, and tags are matched literally. -/

set_option autoImplicit false

namespace PlatformMarkers

def delimiters : Text := "*/".toList

def isDelimiter (c : Char) : Bool := delimiters.contains c

structure Marker where
  /-- The run of delimiters before the tag, which is never empty. -/
  lead : Text
  tag : Text
  trail : Text
  deriving DecidableEq, Repr

namespace Marker

def text (marker : Marker) : Text := marker.lead ++ marker.tag ++ marker.trail

end Marker

def longestTag? (tags : List Text) (text : Text) : Option Text :=
  (tags.filter (·.isPrefixOf text)).maxOn? List.length

theorem mem_and_isPrefix_of_longestTag? {tags : List Text} {text tag : Text}
    (found : longestTag? tags text = some tag) : tag ∈ tags ∧ tag <+: text := by
  have member := List.maxOn?_mem found
  simpa using member

theorem longestTag?_eq_none_iff {tags : List Text} {text : Text} :
    longestTag? tags text = none ↔ ∀ tag ∈ tags, ¬ tag <+: text := by
  rw [longestTag?, ← Option.not_isSome_iff_eq_none, List.isSome_maxOn?_iff]
  simp

theorem eq_of_isPrefix_of_length_eq {first second text : Text} (start : first <+: text)
    (otherStart : second <+: text) (same : first.length = second.length) : first = second :=
  (List.prefix_of_prefix_length_le start otherStart (Nat.le_of_eq same)).eq_of_length same

theorem length_le_of_longestTag? {tags : List Text} {text tag other : Text}
    (found : longestTag? tags text = some tag) (member : other ∈ tags) (start : other <+: text) :
    other.length ≤ tag.length := by
  have candidate : other ∈ tags.filter (·.isPrefixOf text) := by simp [member, start]
  have bound := List.le_apply_get_maxOn?_of_mem (f := List.length) candidate
  rw [longestTag?] at found
  simpa only [found, Option.get_some] using bound

/-- Which tag it is does not depend on the order of the tags, since no other tag of its length
begins at the same place. -/
theorem longestTag?_eq_some_iff {tags : List Text} {text tag : Text} :
    longestTag? tags text = some tag ↔ tag ∈ tags ∧ tag <+: text ∧
      ∀ other ∈ tags, other <+: text → other.length ≤ tag.length := by
  constructor
  · intro found
    obtain ⟨member, start⟩ := mem_and_isPrefix_of_longestTag? found
    exact ⟨member, start, fun other => length_le_of_longestTag? found⟩
  · rintro ⟨member, start, longest⟩
    cases found : longestTag? tags text with
    | none => exact absurd start (longestTag?_eq_none_iff.mp found tag member)
    | some other =>
      obtain ⟨otherMember, otherStart⟩ := mem_and_isPrefix_of_longestTag? found
      have shorter := longest other otherMember otherStart
      have longer := length_le_of_longestTag? found member start
      rw [eq_of_isPrefix_of_length_eq otherStart start (Nat.le_antisymm shorter longer)]

/-- The run of delimiters and the tag after it that the text begins with. Of several
such runs the longest is taken, and after it the longest tag. -/
def leadAndTag? (tags : List Text) : Text → Option (Text × Text)
  | [] => none
  | c :: rest =>
    if isDelimiter c then
      match leadAndTag? tags rest with
      | some (lead, tag) => some (c :: lead, tag)
      | none => (longestTag? tags rest).map fun tag => ([c], tag)
    else none

def markerAt? (tags : List Text) (text : Text) : Option Marker :=
  (leadAndTag? tags text).map fun (lead, tag) =>
    { lead, tag, trail := (text.drop (lead.length + tag.length)).takeWhile isDelimiter }

theorem leadAndTag?_sound {tags : List Text} {text lead tag : Text}
    (found : leadAndTag? tags text = some (lead, tag)) :
    lead ≠ [] ∧ (∀ c ∈ lead, isDelimiter c = true) ∧ tag ∈ tags ∧ lead ++ tag <+: text := by
  induction text generalizing lead with
  | nil => simp [leadAndTag?] at found
  | cons c rest ih =>
    rw [leadAndTag?] at found
    split at found
    next delimiter =>
      split at found
      next longer _ later =>
        obtain ⟨rfl, rfl⟩ := Prod.mk.inj (Option.some.inj found)
        obtain ⟨_, delimiters, member, start⟩ := ih later
        exact ⟨by simp, by simpa [delimiter] using delimiters, member, by simpa using start⟩
      next =>
        obtain ⟨_, here, same⟩ := Option.map_eq_some_iff.mp found
        obtain ⟨rfl, rfl⟩ := Prod.mk.inj same
        obtain ⟨member, start⟩ := mem_and_isPrefix_of_longestTag? here
        exact ⟨by simp, by simpa using delimiter, member, by simpa using start⟩
    next => contradiction

theorem markerAt?_eq_some_iff {tags : List Text} {text : Text} {marker : Marker} :
    markerAt? tags text = some marker ↔ leadAndTag? tags text = some (marker.lead, marker.tag) ∧
      marker.trail = (text.drop (marker.lead.length + marker.tag.length)).takeWhile isDelimiter := by
  obtain ⟨lead, tag, trail⟩ := marker
  rw [markerAt?, Option.map_eq_some_iff]
  constructor
  · rintro ⟨⟨_, _⟩, found, same⟩
    obtain ⟨rfl, rfl, rfl⟩ := Marker.mk.inj same
    exact ⟨found, rfl⟩
  · rintro ⟨found, run⟩
    exact ⟨_, found, congrArg (Marker.mk lead tag) run.symm⟩

theorem text_isPrefix_of_markerAt? {tags : List Text} {text : Text} {marker : Marker}
    (found : markerAt? tags text = some marker) : marker.text <+: text := by
  obtain ⟨here, trail⟩ := markerAt?_eq_some_iff.mp found
  obtain ⟨rest, rfl⟩ := (leadAndTag?_sound here).2.2.2
  rw [← List.length_append, List.drop_left] at trail
  rw [Marker.text, trail]
  exact (List.prefix_append_right_inj _).mpr (List.takeWhile_prefix _)

theorem length_text_pos_of_markerAt? {tags : List Text} {text : Text} {marker : Marker}
    (found : markerAt? tags text = some marker) : 0 < marker.text.length := by
  have := List.length_pos_iff.mpr (leadAndTag?_sound (markerAt?_eq_some_iff.mp found).1).1
  simp only [Marker.text, List.length_append]
  omega

end PlatformMarkers
