import PlatformMarkers.Proofs.NormalForm
import PlatformMarkers.Proofs.OrderIndependence
import PlatformMarkers.Proofs.Lines

/-! What is reported of a document before and after its toggling. A marker holds no line feed,
whatever stands around its tag, so that every tag which stays a marker also keeps its line,
and the reports that quote these lines are the same. -/

set_option autoImplicit false

namespace PlatformMarkers

theorem not_mem_text_of_mem_scan {tags : List Text} {c : Char} (parts : Parts tags c) {text : Text}
    {marker : Marker} (member : Piece.marker marker ∈ scan tags text) : c ∉ marker.text := by
  obtain ⟨later, _, found⟩ := exists_markerAt?_of_mem_scan member
  obtain ⟨here, trail⟩ := markerAt?_eq_some_iff.mp found
  obtain ⟨_, leadRun, tagMember, _⟩ := leadAndTag?_sound here
  have trailRun : IsRun marker.trail := trail ▸ isRun_takeWhile _
  have noDelimiter : ∀ run, IsRun run → c ∉ run := by
    intro run isRun inside
    have delimiter := isRun c inside
    rw [parts.1] at delimiter
    cases delimiter
  simp only [Marker.text, List.mem_append, not_or]
  exact ⟨⟨noDelimiter _ leadRun, parts.2 _ tagMember⟩, noDelimiter _ trailRun⟩

namespace Mac

theorem sightingsFrom_marker {marker : Marker} (whole : '\n' ∉ marker.text) (line : Nat)
    (pieces : List Piece) : sightingsFrom line (.marker marker :: pieces) =
      ((Tag.ofText? marker.tag).map fun tag => ⟨tag, line⟩).toList ++ sightingsFrom line pieces := by
  rw [sightingsFrom, List.count_eq_zero.mpr whole, Nat.add_zero]
  cases Tag.ofText? marker.tag <;> rfl

theorem sightingsFrom_map_set (frame : Frame) {pieces : List Piece}
    (whole : ∀ marker, .marker marker ∈ pieces → '\n' ∉ marker.text)
    (wholeSet : ∀ marker, .marker marker ∈ pieces.map (Piece.set frame) → '\n' ∉ marker.text)
    (line : Nat) : sightingsFrom line (pieces.map (Piece.set frame)) = sightingsFrom line pieces := by
  induction pieces generalizing line with
  | nil => rfl
  | cons piece pieces ih =>
    have later := ih (fun marker member => whole marker (List.mem_cons_of_mem _ member))
      fun marker member => wholeSet marker (List.mem_cons_of_mem _ member)
    cases piece with
    | plain c => exact later _
    | marker marker =>
      have here := whole marker List.mem_cons_self
      have set := wholeSet _ List.mem_cons_self
      rw [List.map_cons, Piece.set, sightingsFrom_marker here, sightingsFrom_marker set, later]

theorem sightings_toggle_simultaneous (text : Text) :
    sightings (toggle .simultaneous text) = sightings text := by
  have scanned : scan Tag.texts (toggle .simultaneous text) =
      (scan Tag.texts text).map (Piece.set table.frame) :=
    table_regular.scan_applySimultaneously text
  have wholeSet : ∀ marker, .marker marker ∈ (scan Tag.texts text).map (Piece.set table.frame) →
      '\n' ∉ marker.text := by
    rw [← scanned]
    exact fun _ => not_mem_text_of_mem_scan parts_lineFeed
  rw [sightings, scanned, sightings]
  exact sightingsFrom_map_set table.frame (fun _ => not_mem_text_of_mem_scan parts_lineFeed) wholeSet 1

/-- A document has the same imbalances, on the same lines, before and after a toggling in one
pass. A toggling pass by pass keeps them too, unless a tag stands right behind a marker. -/
theorem imbalances_toggle :
    (∀ text, imbalances (toggle .simultaneous text) = imbalances text) ∧
    ∀ text, Separated Tag.texts text → imbalances (toggle .sequential text) = imbalances text := by
  have inOnePass : ∀ text, imbalances (toggle .simultaneous text) = imbalances text := by
    intro text
    rw [imbalances, sightings_toggle_simultaneous, imbalances]
  refine ⟨inOnePass, fun text separated => ?_⟩
  have same : toggle .sequential text = toggle .simultaneous text :=
    (table_regular.applySequentially_eq (List.Perm.refl table) separated).1
  rw [same, inOnePass]

/-- The toggled text is longer by several delimiters, and its reports quote the same lines. -/
theorem imbalances_toggle_nested :
    let text := "a\n*IF-MAC*/ b\n*IF-NOT-MAC\n/END-MAC\n\n/ELSE-IF-MAC".toList
    let found : List Imbalance := [.mismatched ⟨.mac, 4⟩ ⟨.notMac, 3⟩, .nested ⟨.elseMac, 6⟩ ⟨.mac, 2⟩,
      .unclosed ⟨.mac, 2⟩, .unclosed ⟨.notMac, 3⟩, .unclosed ⟨.elseMac, 6⟩]
    toggle .sequential text =
        "a\n/*IF-MAC b\n//IF-NOT-MAC\n//END-MAC*/\n\n/*ELSE-IF-MAC".toList ∧
      Separated Tag.texts text ∧ imbalances (toggle .sequential text) = found ∧
      imbalances (toggle .simultaneous text) = found := by
  intro text found
  have separated : Separated Tag.texts text := by decide
  have before : imbalances text = found := by decide
  exact ⟨by decide, separated, (imbalances_toggle.2 text separated).trans before,
    (imbalances_toggle.1 text).trans before⟩

end Mac

end PlatformMarkers
