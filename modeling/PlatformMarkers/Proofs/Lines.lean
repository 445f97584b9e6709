import PlatformMarkers.Proofs.RegularTable
import PlatformMarkers.Proofs.Nesting
import PlatformMarkers.Mac.Toggling

/-! Rewriting line by line. A marker never reaches over a character that neither is a
delimiter nor occurs in a tag, so that a text can be scanned and rewritten in the pieces
between such characters. The line feed is one of them. -/

set_option autoImplicit false

namespace PlatformMarkers

/-- No marker can hold the character. -/
def Parts (tags : List Text) (c : Char) : Prop := isDelimiter c = false ∧ ∀ tag ∈ tags, c ∉ tag

instance (tags : List Text) (c : Char) : Decidable (Parts tags c) :=
  inferInstanceAs (Decidable (_ ∧ _))

theorem takeWhile_append_cons {c : Char} (plain : isDelimiter c = false) (first rest : Text) :
    (first ++ c :: rest).takeWhile isDelimiter = first.takeWhile isDelimiter := by
  induction first with
  | nil => simp [plain]
  | cons d first ih => simp [List.takeWhile_cons, ih]

-- The tags need not be distinguishable here: they may be empty or hold delimiters.
section
variable {tags : List Text} {c : Char} (parts : Parts tags c)
include parts

theorem longestTag?_append_cons (first rest : Text) :
    longestTag? tags (first ++ c :: rest) = longestTag? tags first := by
  have same : ∀ tag ∈ tags, tag.isPrefixOf (first ++ c :: rest) = tag.isPrefixOf first := by
    intro tag member
    rw [Bool.eq_iff_iff, List.isPrefixOf_iff_prefix, List.isPrefixOf_iff_prefix]
    exact ⟨isPrefix_of_isPrefix_append_cons (parts.2 tag member), fun start =>
      start.trans (List.prefix_append first _)⟩
  unfold longestTag?
  rw [List.filter_congr same]

theorem leadAndTag?_append_cons (first rest : Text) :
    leadAndTag? tags (first ++ c :: rest) = leadAndTag? tags first := by
  induction first with
  | nil => simp [leadAndTag?, parts.1]
  | cons d first ih =>
    rw [List.cons_append, leadAndTag?, leadAndTag?, ih, longestTag?_append_cons parts]

theorem markerAt?_append_cons (first rest : Text) :
    markerAt? tags (first ++ c :: rest) = markerAt? tags first := by
  unfold markerAt?
  rw [leadAndTag?_append_cons parts]
  refine Option.map_congr fun (lead, tag) found => ?_
  have within := (leadAndTag?_sound found).2.2.2.length_le
  rw [List.length_append] at within
  simp only [List.drop_append_of_le_length within, takeWhile_append_cons parts.1]

theorem scan_append_cons (first rest : Text) :
    scan tags (first ++ c :: rest) = scan tags first ++ .plain c :: scan tags rest := by
  -- By length, because a marker takes more than one character away.
  induction size : first.length using Nat.strongRecOn generalizing first with
  | _ size ih =>
    cases first with
    | nil =>
      refine scan_of_no_marker (markerAt?_eq_none_iff.mpr ?_)
      simp [leadAndTag?, parts.1]
    | cons d first =>
      have here := markerAt?_append_cons parts (d :: first) rest
      cases found : markerAt? tags (d :: first) with
      | none =>
        rw [found, List.cons_append] at here
        rw [scan_of_no_marker found, List.cons_append, scan_of_no_marker here,
          ih first.length (by simp [← size]) first rfl, List.cons_append]
      | some marker =>
        rw [found] at here
        have positive := length_text_pos_of_markerAt? found
        have within := (text_isPrefix_of_markerAt? found).length_le
        rw [scan_of_marker found, scan_of_marker here, List.drop_append_of_le_length within,
          ih _ (by rw [List.length_drop, size]; omega) _ rfl, List.cons_append]

theorem markers_append_cons (first rest : Text) :
    markers tags (first ++ c :: rest) = markers tags first ++ markers tags rest := by
  simp [markers, scan_append_cons parts, List.filterMap_cons, Piece.marker?]

theorem replaceMarkers_append_cons (substitute : Text → Text) (first rest : Text) :
    replaceMarkers tags substitute (first ++ c :: rest) =
      replaceMarkers tags substitute first ++ c :: replaceMarkers tags substitute rest := by
  simp [replaceMarkers, scan_append_cons parts, Piece.replace]

end

theorem mem_replaceMarkers {tags : List Text} {substitute : Text → Text} {text : Text} {c : Char}
    (member : c ∈ replaceMarkers tags substitute text) :
    c ∈ text ∨ ∃ tag ∈ tags, c ∈ substitute tag := by
  obtain ⟨piece, pieceMember, inside⟩ := List.mem_flatMap.mp member
  cases piece with
  | plain d =>
    left
    rw [← flatMap_text_scan tags text]
    exact List.mem_flatMap.mpr ⟨_, pieceMember, inside⟩
  | marker found => exact Or.inr ⟨found.tag, mem_tags_of_mem_scan pieceMember, inside⟩

/-! ## Lines -/

def linesOf (text : Text) : List Text := text.splitOn '\n'

theorem linesOf_of_not_mem {line : Text} (whole : '\n' ∉ line) : linesOf line = [line] :=
  List.splitOn_eq_singleton whole

theorem linesOf_append_cons (first rest : Text) :
    linesOf (first ++ '\n' :: rest) = linesOf first ++ linesOf rest :=
  List.splitOn_append_cons_self first rest

theorem line_induction {motive : Text → Prop} (last : ∀ line, '\n' ∉ line → motive line)
    (next : ∀ line rest, '\n' ∉ line → motive rest → motive (line ++ '\n' :: rest))
    (text : Text) : motive text := by
  induction size : text.length using Nat.strongRecOn generalizing text with
  | _ size ih =>
    by_cases more : '\n' ∈ text
    · obtain ⟨line, rest, rfl, whole⟩ := List.eq_append_cons_of_mem more
      exact next line rest whole (ih rest.length (by simp [← size]; omega) rest rfl)
    · exact last text more

theorem not_mem_of_mem_linesOf {text line : Text} (member : line ∈ linesOf text) : '\n' ∉ line :=
  Text.not_mem_of_mem_splitOn member

theorem flatMap_linesOf (text : Text) : (linesOf text).flatMap (· ++ ['\n']) = text ++ ['\n'] := by
  induction text using line_induction with
  | last line whole => simp [linesOf_of_not_mem whole]
  | next line rest whole ih => simp [linesOf_append_cons, linesOf_of_not_mem whole, ih]

structure Linewise (rewrite : Text → Text) : Prop where
  append_cons : ∀ first rest, rewrite (first ++ '\n' :: rest) = rewrite first ++ '\n' :: rewrite rest
  not_mem : ∀ line, '\n' ∉ line → '\n' ∉ rewrite line

namespace Linewise

theorem linesOf_rewrite {rewrite : Text → Text} (linewise : Linewise rewrite) (text : Text) :
    linesOf (rewrite text) = (linesOf text).map rewrite := by
  induction text using line_induction with
  | last line whole =>
    rw [linesOf_of_not_mem whole, linesOf_of_not_mem (linewise.not_mem line whole)]
    rfl
  | next line rest whole ih =>
    rw [linewise.append_cons, linesOf_append_cons, linesOf_append_cons, List.map_append, ih,
      linesOf_of_not_mem whole, linesOf_of_not_mem (linewise.not_mem line whole)]
    rfl

theorem comp {second first : Text → Text} (secondLinewise : Linewise second)
    (firstLinewise : Linewise first) : Linewise (second ∘ first) where
  append_cons before rest := by
    simp [firstLinewise.append_cons, secondLinewise.append_cons]
  not_mem line whole := secondLinewise.not_mem _ (firstLinewise.not_mem line whole)

end Linewise

theorem linewise_replaceMarkers {tags : List Text} {substitute : Text → Text}
    (parts : Parts tags '\n') (whole : ∀ tag ∈ tags, '\n' ∉ substitute tag) :
    Linewise (replaceMarkers tags substitute) where
  append_cons := replaceMarkers_append_cons parts substitute
  not_mem := by
    intro line lineWhole member
    rcases mem_replaceMarkers member with inside | ⟨tag, tagMember, inside⟩
    · exact lineWhole inside
    · exact whole tag tagMember inside

namespace Table

theorem linewise_applySequentially {table : Table} (parts : Parts table.tags '\n')
    (whole : ∀ rule ∈ table, '\n' ∉ rule.substitute) : Linewise table.applySequentially := by
  induction table with
  | nil => exact ⟨fun _ _ => rfl, fun _ whole => whole⟩
  | cons rule table ih =>
    have rest := ih ⟨parts.1, fun tag member => parts.2 tag (List.mem_cons_of_mem _ member)⟩
      fun other member => whole other (List.mem_cons_of_mem _ member)
    have here : Linewise rule.apply :=
      linewise_replaceMarkers ⟨parts.1, by simpa using parts.2 rule.tag (by simp)⟩
        fun _ _ => whole rule (by simp)
    exact rest.comp here

theorem linewise_applySimultaneously {table : Table} (parts : Parts table.tags '\n')
    (whole : ∀ rule ∈ table, '\n' ∉ rule.substitute) : Linewise table.applySimultaneously := by
  refine linewise_replaceMarkers parts fun tag member => ?_
  obtain ⟨rule, ruleMember, _, same⟩ := mem_of_substituteFor member
  rw [same]
  exact whole rule ruleMember

end Table

namespace Mac

theorem parts_lineFeed : Parts Tag.texts '\n' := by decide

theorem linewise_toggle (mode : Mode) : Linewise (toggle mode) := by
  have whole : ∀ rule ∈ table, '\n' ∉ rule.substitute := by decide
  cases mode with
  | sequential => exact Table.linewise_applySequentially parts_lineFeed whole
  | simultaneous => exact Table.linewise_applySimultaneously parts_lineFeed whole

theorem markerTags_append_cons (first rest : Text) :
    markerTags (first ++ '\n' :: rest) = markerTags first ++ markerTags rest := by
  rw [markerTags, markers_append_cons parts_lineFeed, List.filterMap_append]
  rfl

theorem markerTags_eq_flatMap (text : Text) : markerTags text = (linesOf text).flatMap markerTags := by
  induction text using line_induction with
  | last line whole => simp [linesOf_of_not_mem whole]
  | next line rest whole ih =>
    rw [markerTags_append_cons, linesOf_append_cons, linesOf_of_not_mem whole, List.flatMap_append, ih]
    simp

end Mac

end PlatformMarkers
