import PlatformMarkers.Proofs.Sweep
import PlatformMarkers.Mac.Tag
import Mathlib.Data.List.Nodup

/-! Tables that only set the runs around their tags. Their tags can be told apart, and every
substitute is its tag with a run of delimiters before it and possibly one after it. -/

set_option autoImplicit false

namespace PlatformMarkers

namespace Table

structure Regular (table : Table) : Prop where
  distinguishable : Distinguishable table.tags
  nodup : table.tags.Nodup
  framed : ∀ rule ∈ table, ∃ lead trail, lead ≠ [] ∧ IsRun lead ∧ IsRun trail ∧
    rule.substitute = lead ++ rule.tag ++ trail

/-- The runs around the tags in the substitutes of the table. -/
def frame (table : Table) : Frame where
  lead tag := (table.substituteFor tag).takeWhile isDelimiter
  -- What follows the lead of a substitute is the tag and then its trail.
  trail tag := ((table.substituteFor tag).dropWhile isDelimiter).drop tag.length

theorem mem_tags {table : Table} {rule : Rule} (member : rule ∈ table) : rule.tag ∈ table.tags :=
  List.mem_map_of_mem member

theorem substituteFor_of_mem {table : Table} (nodup : table.tags.Nodup) {rule : Rule}
    (member : rule ∈ table) : table.substituteFor rule.tag = rule.substitute := by
  obtain ⟨other, otherMember, sameTag, same⟩ := mem_of_substituteFor (mem_tags member)
  rw [same, List.inj_on_of_nodup_map nodup otherMember member sameTag]

namespace Regular

variable {table : Table} (regular : table.Regular)
include regular

theorem frame_eq {rule : Rule} (member : rule ∈ table) {lead trail : Text} (isRun : IsRun lead)
    (same : rule.substitute = lead ++ rule.tag ++ trail) :
    table.frame.lead rule.tag = lead ∧ table.frame.trail rule.tag = trail := by
  have plain := regular.distinguishable.undelimited.startsPlain_append (mem_tags member) trail
  rw [List.append_assoc] at same
  simp only [frame, substituteFor_of_mem regular.nodup member, same]
  rw [takeWhile_run_append isRun plain, dropWhile_run_append isRun plain, List.drop_left]
  exact ⟨rfl, rfl⟩

theorem framed_frame : table.Framed table.frame := by
  intro rule member
  obtain ⟨lead, trail, _, isRun, _, same⟩ := regular.framed rule member
  obtain ⟨leadSame, trailSame⟩ := regular.frame_eq member isRun same
  rw [leadSame, trailSame, same]

theorem valid_frame : table.frame.Valid table.tags := by
  have parts : ∀ tag ∈ table.tags, table.frame.lead tag ≠ [] ∧ IsRun (table.frame.lead tag) ∧
      IsRun (table.frame.trail tag) := by
    intro tag member
    obtain ⟨rule, ruleMember, rfl⟩ := List.mem_map.mp member
    obtain ⟨lead, trail, nonempty, isRun, trailRun, same⟩ := regular.framed rule ruleMember
    obtain ⟨leadSame, trailSame⟩ := regular.frame_eq ruleMember isRun same
    rw [leadSame, trailSame]
    exact ⟨nonempty, isRun, trailRun⟩
  exact ⟨fun tag member => (parts tag member).1, fun tag member => (parts tag member).2.1,
    fun tag member => (parts tag member).2.2⟩

variable {document : Document} (valid : document.Valid table.tags)
include valid

theorem applySimultaneously_text : table.applySimultaneously document.text =
    (document.map (table.frame.pass table.tags).chain).text :=
  Document.applySimultaneously_text regular.distinguishable valid (List.Subset.refl table.tags)
    regular.framed_frame

theorem applySequentially_text : table.applySequentially document.text =
    (document.map (table.frame.passes table.tags).chain).text :=
  Document.applySequentially_text regular.distinguishable regular.valid_frame valid
    (List.Subset.refl table.tags) regular.framed_frame regular.nodup

end Regular

end Table

namespace Mac

@[simp] theorem tags_table : table.tags = Tag.texts := rfl

theorem Tag.framed (tag : Tag) : tag.lead ≠ [] ∧ IsRun tag.lead ∧ IsRun tag.trail := by
  rcases tag with ⟨_ | _ | _⟩ | ⟨_ | _ | _⟩ <;> decide

theorem Tag.distinguishable : Distinguishable Tag.texts := ⟨by decide, by decide, by decide⟩

theorem table_regular : table.Regular where
  distinguishable := Tag.distinguishable
  nodup := by decide
  framed := by
    intro rule member
    obtain ⟨tag, _, rfl⟩ := List.mem_map.mp member
    obtain ⟨nonempty, leadRun, trailRun⟩ := tag.framed
    exact ⟨tag.lead, tag.trail, nonempty, leadRun, trailRun, rfl⟩

end Mac

end PlatformMarkers
