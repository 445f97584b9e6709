import PlatformMarkers.Proofs.Comment
import PlatformMarkers.Proofs.Lines
import PlatformMarkers.Proofs.OrderIndependence

/-! What toggling does to the code. In a toggled document whose markers are in balance, the
code of the Mac regions is commented out and all other code is live. -/

set_option autoImplicit false

namespace PlatformMarkers.Mac

/-- A line that holds one marker, with ordinary text around it and no tag right behind it. -/
structure MarkedLine where
  before : Text
  lead : Text
  tag : Tag
  trail : Text
  behind : Text
  before_ordinary : Ordinary before
  lead_ne_nil : lead ≠ []
  isRun_lead : IsRun lead
  isRun_trail : IsRun trail
  behind_ordinary : Ordinary behind
  not_isPrefix_behind : ∀ other : Tag, ¬ other.text <+: behind

def MarkedLine.text (line : MarkedLine) : Text :=
  line.before ++ line.lead ++ line.tag.text ++ line.trail ++ line.behind

def MarkedByLine (lines : List Text) : Prop :=
  ∀ line ∈ lines, Ordinary line ∨ ∃ marked : MarkedLine, marked.text = line

theorem text_mem_texts (tag : Tag) : tag.text ∈ Tag.texts := List.mem_map_of_mem (Tag.mem_all tag)

theorem unmarked_of_ordinary {text : Text} (ordinary : Ordinary text) :
    Unmarked Tag.texts text := by
  induction text with
  | nil => trivial
  | cons c text ih =>
    refine ⟨fun delimiter => ?_, ih fun d member => ordinary d (List.mem_cons_of_mem c member)⟩
    rw [ordinary.isPlain c List.mem_cons_self] at delimiter
    cases delimiter

theorem startsPlain_of_ordinary {text : Text} (ordinary : Ordinary text) : StartsPlain text :=
  fun c head => ordinary.isPlain c (List.mem_of_mem_head? head)

/-! ## Toggling a line -/

theorem scan_ordinary {line : Text} (ordinary : Ordinary line) :
    scan Tag.texts line = line.map Piece.plain := by
  have scanned : scan Tag.texts (line ++ []) = line.map Piece.plain ++ scan Tag.texts [] :=
    scan_plain_append ordinary.isPlain []
  simpa using scanned

theorem markerTags_ordinary {line : Text} (ordinary : Ordinary line) : markerTags line = [] := by
  rw [markerTags, markers, scan_ordinary ordinary]
  simp [List.filterMap_map, Function.comp_def, Piece.marker?]

theorem toggle_of_separated (mode : Mode) {text : Text} (separated : Separated Tag.texts text) :
    toggle mode text = table.applySimultaneously text := by
  cases mode with
  | sequential => exact (table_regular.applySequentially_eq (List.Perm.refl _) separated).1
  | simultaneous => rfl

theorem toggle_ordinary (mode : Mode) {line : Text} (ordinary : Ordinary line) :
    toggle mode line = line := by
  have separated : Separated Tag.texts line := by
    have plain := Piece.separated_plain_append Tag.texts line []
    rw [List.append_nil] at plain
    rw [Separated, scan_ordinary ordinary, plain]
    trivial
  rw [toggle_of_separated mode separated, Table.applySimultaneously, tags_table, replaceMarkers,
    scan_ordinary ordinary, Piece.flatMap_replace_plain]

namespace MarkedLine

def toggled (line : MarkedLine) : MarkedLine where
  before := line.before
  lead := line.tag.lead
  tag := line.tag
  trail := line.tag.trail
  behind := line.behind
  before_ordinary := line.before_ordinary
  lead_ne_nil := line.tag.framed.1
  isRun_lead := line.tag.framed.2.1
  isRun_trail := line.tag.framed.2.2
  behind_ordinary := line.behind_ordinary
  not_isPrefix_behind := line.not_isPrefix_behind

theorem text_toggled (line : MarkedLine) :
    line.toggled.text = line.before ++ line.tag.substitute ++ line.behind := by
  simp [toggled, text, Tag.substitute]

variable (line : MarkedLine)

theorem absent_behind : ∀ other ∈ Tag.texts, ¬ other <+: line.behind := by
  intro other member
  obtain ⟨tag, _, rfl⟩ := List.mem_map.mp member
  exact line.not_isPrefix_behind tag

def document : Document :=
  .chained line.before ⟨line.lead, [⟨line.tag.text, line.trail⟩]⟩ (.plain line.behind)

theorem text_document : line.document.text = line.text := by
  simp [document, text, Document.text, Chain.text, Link.text]

theorem valid_document : line.document.Valid Tag.texts := by
  have chainValid : Chain.Valid Tag.texts ⟨line.lead, [⟨line.tag.text, line.trail⟩]⟩ :=
    ⟨line.lead_ne_nil, line.isRun_lead, by simp, by simpa using text_mem_texts line.tag,
      by simpa using line.isRun_trail⟩
  have plain := line.before_ordinary.isPlain
  refine ⟨unmarked_of_ordinary line.before_ordinary,
    fun c final => plain c (List.mem_of_getLast? final), chainValid, ?_,
    unmarked_of_ordinary line.behind_ordinary⟩
  exact ⟨⟨startsPlain_of_ordinary line.behind_ordinary, line.absent_behind⟩,
    by simp [Document.chains]⟩

theorem scan_text : scan Tag.texts line.text = line.before.map Piece.plain ++
    .marker ⟨line.lead, line.tag.text, line.trail⟩ :: line.behind.map Piece.plain := by
  rw [← text_document,
    scan_document Tag.distinguishable (List.Subset.refl _) line.valid_document]
  simp [document, Document.pieces, Chain.pieces, Chain.piecesFrom, line.lead_ne_nil, text_mem_texts]

theorem markerTags_text : markerTags line.text = [line.tag] := by
  rw [markerTags, markers, scan_text]
  simp [List.filterMap_map, Function.comp_def, Piece.marker?]

theorem separated_text : Separated Tag.texts line.text := by
  have single : line.document.Single := by simp [document, Document.Single, Document.chains]
  rw [← text_document]
  exact (Document.separated_text_iff Tag.distinguishable line.valid_document).mpr single

theorem toggle_text (mode : Mode) : toggle mode line.text = line.toggled.text := by
  have member : line.tag.rule ∈ table := List.mem_map_of_mem (Tag.mem_all line.tag)
  have substitute := Table.substituteFor_of_mem table_regular.nodup member
  rw [toggle_of_separated mode line.separated_text, Table.applySimultaneously, tags_table,
    replaceMarkers, scan_text, List.flatMap_append, List.flatMap_cons,
    Piece.flatMap_replace_plain, Piece.flatMap_replace_plain, text_toggled, List.append_assoc]
  exact congrArg (fun text => line.before ++ (text ++ line.behind)) substitute

end MarkedLine

/-! ## Toggling a document -/

theorem after_toggled_line (mode : Mode) (zone : Zone) {line : Text} (whole : '\n' ∉ line)
    (marked : Ordinary line ∨ ∃ marked : MarkedLine, marked.text = line) :
    Comment.after zone.comment (toggle mode line ++ ['\n']) =
      ((markerTags line).foldl Zone.after zone).comment := by
  rcases marked with ordinary | ⟨marker, rfl⟩
  · rw [toggle_ordinary mode ordinary, markerTags_ordinary ordinary, Comment.after_append,
      after_ordinary zone ordinary]
    exact step_lineFeed zone
  · have behindWhole : '\n' ∉ marker.behind := fun member =>
      whole (List.mem_append_right _ member)
    rw [marker.toggle_text, marker.text_toggled, marker.markerTags_text]
    exact after_substitute_line zone marker.tag marker.before_ordinary marker.behind_ordinary
      behindWhole

theorem after_toggled_lines (mode : Mode) {lines : List Text} (marked : MarkedByLine lines)
    (whole : ∀ line ∈ lines, '\n' ∉ line) (zone : Zone) :
    Comment.after zone.comment ((lines.map (toggle mode)).flatMap (· ++ ['\n'])) =
      ((lines.flatMap markerTags).foldl Zone.after zone).comment := by
  induction lines generalizing zone with
  | nil => rfl
  | cons line lines ih =>
    have here := after_toggled_line mode zone (whole line List.mem_cons_self)
      (marked line List.mem_cons_self)
    have later := ih (fun other member => marked other (List.mem_cons_of_mem _ member))
      (fun other member => whole other (List.mem_cons_of_mem _ member))
    rw [List.map_cons, List.flatMap_cons, List.flatMap_cons, Comment.after_append, here, later,
      List.foldl_append]

theorem markerTags_toggle (mode : Mode) {text : Text} (marked : MarkedByLine (linesOf text)) :
    markerTags (toggle mode text) = markerTags text := by
  rw [markerTags_eq_flatMap, markerTags_eq_flatMap text, (linewise_toggle mode).linesOf_rewrite,
    List.flatMap_map]
  refine List.flatMap_congr fun line member => ?_
  rcases marked line member with ordinary | ⟨marker, rfl⟩
  · rw [toggle_ordinary mode ordinary]
  · rw [marker.toggle_text, marker.markerTags_text, marker.toggled.markerTags_text]
    rfl

theorem wellNested_of_balanced {mode : Mode} {text : Text} (marked : MarkedByLine (linesOf text))
    (balanced : imbalances (toggle mode text) = []) :
    WellNested .live ((linesOf text).flatMap markerTags) := by
  rw [← markerTags_eq_flatMap, ← markerTags_toggle mode marked]
  exact (imbalances_eq_nil_iff _).mp balanced

theorem after_ordinary_line (mode : Mode) {earlier : List Text} (marked : MarkedByLine earlier)
    (whole : ∀ line ∈ earlier, '\n' ∉ line) {start : Text} (ordinary : Ordinary start) :
    Comment.after .code ((earlier.map (toggle mode)).flatMap (· ++ ['\n']) ++ start) =
      ((earlier.flatMap markerTags).foldl Zone.after .live).comment := by
  have before := after_toggled_lines mode marked whole .live
  rw [Comment.after_append, ← after_ordinary _ ordinary]
  exact congrArg (Comment.after · start) before

/-- If the toggled document is in balance, its last block comment is closed, and every
ordinary line is inside a block comment or outside all comments, from its first character to
its last. It is inside exactly if the markers around it enclose it. -/
theorem comment_of_toggle (mode : Mode) (text : Text) (marked : MarkedByLine (linesOf text))
    (balanced : imbalances (toggle mode text) = []) :
    (Comment.after .code (toggle mode text)).inBlock = false ∧
      ∀ earlier line later, linesOf text = earlier ++ line :: later → Ordinary line →
        linesOf (toggle mode text) =
            earlier.map (toggle mode) ++ line :: later.map (toggle mode) ∧
          ∀ start, start <+: line →
            let position := (earlier.map (toggle mode)).flatMap (· ++ ['\n']) ++ start
            let enclosed := Enclosed (earlier.flatMap markerTags) (later.flatMap markerTags)
            (enclosed → Comment.after .code position = .block) ∧
              (¬ enclosed → Comment.after .code position = .code) := by
  have linewise := linewise_toggle mode
  have nested := wellNested_of_balanced marked balanced
  have whole : ∀ line ∈ linesOf text, '\n' ∉ line := fun _ member => not_mem_of_mem_linesOf member
  constructor
  · have final := after_toggled_lines mode marked whole .live
    rw [← linewise.linesOf_rewrite, flatMap_linesOf, nested.foldl_after, Comment.after_append] at final
    rw [← Comment.inBlock_step_lineFeed]
    exact congrArg Comment.State.inBlock final
  · intro earlier line later split ordinary
    have toggledLines := linewise.linesOf_rewrite text
    rw [split, List.map_append, List.map_cons, toggle_ordinary mode ordinary] at toggledLines
    refine ⟨toggledLines, fun start isPrefix => ?_⟩
    have earlierMarked : MarkedByLine earlier :=
      fun other member => marked other (by simp [split, member])
    have earlierWhole : ∀ other ∈ earlier, '\n' ∉ other :=
      fun other member => whole other (by simp [split, member])
    have here := after_ordinary_line mode earlierMarked earlierWhole (ordinary.of_isPrefix isPrefix)
    -- The line itself holds no marker, so that the zone is the same on both sides of it.
    rw [split, List.flatMap_append, List.flatMap_cons, markerTags_ordinary ordinary,
      List.nil_append] at nested
    have zones := dead_iff_enclosed nested
    intro position enclosed
    constructor
    · intro inside
      exact here.trans (congrArg Zone.comment (zones.mpr inside))
    · intro outside
      refine here.trans ?_
      cases zone : (earlier.flatMap markerTags).foldl Zone.after .live with
      | live => rfl
      | dead => exact absurd (zones.mp zone) outside

theorem comment_of_toggle_mac :
    let text := "/IF-MAC\na\n//END-MAC b\nc".toList
    let state (position : String) := Comment.after .code position.toList
    MarkedByLine (linesOf text) ∧ imbalances (toggle .sequential text) = [] ∧
      state "/*IF-MAC\na" = .block ∧ state "/*IF-MAC\na\n//END-MAC*/ b\nc" = .code := by
  have lines : linesOf "/IF-MAC\na\n//END-MAC b\nc".toList =
      ["/IF-MAC".toList, "a".toList, "//END-MAC b".toList, "c".toList] := by decide
  have absent : ∀ other : Tag, ¬ other.text <+: [] ∧ ¬ other.text <+: " b".toList := by
    intro other
    rcases other with ⟨_ | _ | _⟩ | ⟨_ | _ | _⟩ <;> decide
  let opener : MarkedLine := ⟨[], "/".toList, .opens .mac, [], [], by decide, by decide, by decide,
    by decide, by decide, fun other => (absent other).1⟩
  let closer : MarkedLine := ⟨[], "//".toList, .closes .mac, [], " b".toList, by decide, by decide,
    by decide, by decide, by decide, fun other => (absent other).2⟩
  have marked : MarkedByLine (linesOf "/IF-MAC\na\n//END-MAC b\nc".toList) := by
    rw [lines]
    simp only [MarkedByLine, List.forall_mem_cons]
    exact ⟨Or.inr ⟨opener, rfl⟩, Or.inl (by decide), Or.inr ⟨closer, rfl⟩, Or.inl (by decide),
      nofun⟩
  have balanced : imbalances (toggle .sequential "/IF-MAC\na\n//END-MAC b\nc".toList) = [] := by
    decide
  have comments := (comment_of_toggle .sequential _ marked balanced).2
  have inside := (comments ["/IF-MAC".toList] "a".toList ["//END-MAC b".toList, "c".toList] lines
    (by decide)).2 _ (List.prefix_refl _)
  have outside := (comments ["/IF-MAC".toList, "a".toList, "//END-MAC b".toList] "c".toList [] lines
    (by decide)).2 _ (List.prefix_refl _)
  refine ⟨marked, balanced, ?_, ?_⟩
  · exact inside.1 ⟨[], .mac, [], [], [], rfl, by decide, by decide, .nil⟩
  · refine outside.2 ?_
    rintro ⟨outer, region, first, second, rest, -, -, closed, -⟩
    simp at closed

end PlatformMarkers.Mac
