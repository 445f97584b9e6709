import PlatformMarkers.Proofs.RegularTable
import PlatformMarkers.Proofs.CommittedTable
import PlatformMarkers.Proofs.Nesting

/-! The result of one pass for all tags. It has its markers where the text had them, with the
same plain text around them, and every marker is set as the table sets it. A second pass
therefore changes nothing, whatever the markers of the text were glued to. -/

set_option autoImplicit false

namespace PlatformMarkers

namespace Piece

def set (frame : Frame) : Piece → Piece
  | .plain c => .plain c
  | .marker found => .marker ⟨frame.lead found.tag, found.tag, frame.trail found.tag⟩

/-- The stretches of plain text before, between and behind the markers. -/
def gaps : List Piece → List Text
  | [] => [[]]
  | .plain c :: rest => (gaps rest).modifyHead (c :: ·)
  | .marker _ :: rest => [] :: gaps rest

@[simp] theorem set_plain (frame : Frame) (c : Char) : (plain c).set frame = plain c := rfl

theorem map_set_plain (frame : Frame) (text : Text) :
    (text.map plain).map (set frame) = text.map plain := by
  simp

theorem gaps_plain_append (gap : Text) (pieces : List Piece) :
    gaps (gap.map plain ++ pieces) = (gaps pieces).modifyHead (gap ++ ·) := by
  induction gap with
  | nil => exact (congrFun List.modifyHead_id _).symm
  | cons c gap ih => simp [gaps, ih, Function.comp_def]

@[simp] theorem gaps_map_set (frame : Frame) (pieces : List Piece) :
    gaps (pieces.map (set frame)) = gaps pieces := by
  induction pieces with
  | nil => rfl
  | cons piece pieces ih => cases piece <;> simp [set, gaps, ih]

theorem tags_map_set (frame : Frame) (pieces : List Piece) :
    ((pieces.map (set frame)).filterMap marker?).map Marker.tag =
      (pieces.filterMap marker?).map Marker.tag := by
  induction pieces with
  | nil => rfl
  | cons piece pieces ih => cases piece <;> simpa [set, marker?, List.filterMap_cons] using ih

@[simp] theorem replace_set (frame : Frame) (substitute : Text → Text) (piece : Piece) :
    (piece.set frame).replace substitute = piece.replace substitute := by
  cases piece <;> rfl

end Piece

/-! ## The scan of a swept document -/

section
variable {frame : Frame} {wanted : List Text} (visible : ∀ tag ∈ wanted, frame.lead tag ≠ [])
include visible

theorem Chain.piecesFrom_chainFrom_pass (lead : Text) (links : List Link) :
    Chain.piecesFrom wanted ((frame.pass wanted).chainFrom none lead links).lead
        ((frame.pass wanted).chainFrom none lead links).links =
      (Chain.piecesFrom wanted lead links).map (Piece.set frame) := by
  induction links generalizing lead with
  | nil => simp [Sweep.chainFrom, Chain.piecesFrom]
  | cons link links ih =>
    obtain ⟨tag, run⟩ := link
    have here := Sweep.marker?_pass_none frame wanted lead tag
    by_cases marks : lead ≠ [] ∧ tag ∈ wanted
    · rw [if_pos marks] at here
      -- The trail of the marker takes the place of the run, and the next tag stays without a lead.
      have later := ih []
      rw [Sweep.lead_chainFrom_pass_nil] at later
      have again : frame.lead tag ≠ [] ∧ tag ∈ wanted := ⟨visible tag marks.2, marks.2⟩
      simp only [Sweep.chainFrom, here, Sweep.leaves_none_some, Sweep.chainFrom_pass_some,
        Frame.frame_pass, Chain.piecesFrom, if_pos marks, if_pos again, later, List.map_cons,
        Piece.set]
    · rw [if_neg marks] at here
      simp only [Sweep.chainFrom, here, Sweep.leaves_none_none, Chain.piecesFrom, if_neg marks,
        ih run, List.map_append, Piece.map_set_plain]

theorem Document.pieces_map_pass (document : Document) :
    (document.map (frame.pass wanted).chain).pieces wanted =
      (document.pieces wanted).map (Piece.set frame) := by
  induction document with
  | plain gap => simp [map, pieces]
  | chained gap chain rest ih =>
    have swept := Chain.piecesFrom_chainFrom_pass visible chain.lead chain.links
    simp only [map, pieces, ih, Chain.pieces, Sweep.chain, swept, List.map_append,
      Piece.map_set_plain]

end

namespace Table.Regular

variable {table : Table} (regular : table.Regular)
include regular

/-- One pass for all tags moves no marker: it sets those that the scan of the text finds. -/
theorem scan_applySimultaneously (text : Text) :
    scan table.tags (table.applySimultaneously text) =
      (scan table.tags text).map (Piece.set table.frame) := by
  have distinguishable := regular.distinguishable
  have all := List.Subset.refl table.tags
  obtain ⟨document, valid, rfl⟩ := Document.exists_valid distinguishable text
  have swept : (document.map (table.frame.pass table.tags).chain).Valid table.tags :=
    Document.valid_map_sweep regular.valid_frame valid
  rw [regular.applySimultaneously_text valid, scan_document distinguishable all swept,
    scan_document distinguishable all valid,
    Document.pieces_map_pass regular.valid_frame.lead_ne_nil]

theorem mem_of_mem_markers_applySimultaneously {text : Text} {marker : Marker}
    (member : marker ∈ markers table.tags (table.applySimultaneously text)) :
    ⟨marker.tag, marker.text⟩ ∈ table := by
  have known := mem_tags_of_mem_markers member
  rw [markers, regular.scan_applySimultaneously, List.filterMap_map] at member
  obtain ⟨piece, _, set⟩ := List.mem_filterMap.mp member
  obtain ⟨rule, ruleMember, sameTag⟩ := List.mem_map.mp known
  cases piece with
  | plain c => cases set
  | marker found =>
    cases set
    have sameText := regular.framed_frame rule ruleMember
    rw [sameTag] at sameText
    rw [Marker.text, ← sameText, ← sameTag]
    exact ruleMember

theorem applySimultaneously_applySimultaneously (text : Text) :
    table.applySimultaneously (table.applySimultaneously text) = table.applySimultaneously text := by
  rw [applySimultaneously, replaceMarkers, regular.scan_applySimultaneously, List.flatMap_map]
  simp only [Piece.replace_set]
  rfl

end Table.Regular

/-- A draft built from a regular table for one pass gives a text with the tags and the gaps of
the original one, in which every marker is the substitute of its tag, and gives that text
again for itself. -/
theorem normalForm_of_simultaneous {table : Table} (regular : table.Regular) (name : Text)
    (verbose : Bool) (text : Text) :
    let draft := TableDraft.built name verbose .simultaneous table
    ∃ result, (draft.apply text).map Applied.text = .ok result ∧
      (markers table.tags result).map Marker.tag = (markers table.tags text).map Marker.tag ∧
      Piece.gaps (scan table.tags result) = Piece.gaps (scan table.tags text) ∧
      (∀ marker ∈ markers table.tags result, ⟨marker.tag, marker.text⟩ ∈ table) ∧
      (draft.apply result).map Applied.text = .ok result := by
  have applies := TableDraft.apply_built name verbose .simultaneous regular.nodup
  have scanned := regular.scan_applySimultaneously text
  refine ⟨table.applySimultaneously text, applies text, ?_, ?_,
    fun _ => regular.mem_of_mem_markers_applySimultaneously, ?_⟩
  · rw [markers, markers, scanned, Piece.tags_map_set]
  · rw [scanned, Piece.gaps_map_set]
  · rw [applies, Table.apply, regular.applySimultaneously_applySimultaneously]

/-- The tag between two markers is glued to both of them and stays plain text. -/
theorem normalForm_of_glued :
    let text := "a/END-MAC*IF-MAC/ELSE-IF-MAC* b".toList
    let result := "a//END-MAC*/IF-MAC/*ELSE-IF-MAC b".toList
    let draft := TableDraft.built [] false .simultaneous Mac.table
    Mac.table.Regular ∧ (draft.apply text).map Applied.text = .ok result ∧
      (markers Mac.table.tags result).map Marker.tag = ["END-MAC".toList, "ELSE-IF-MAC".toList] ∧
      Piece.gaps (scan Mac.table.tags result) = ["a".toList, "IF-MAC".toList, " b".toList] ∧
      (draft.apply result).map Applied.text = .ok result := by
  obtain ⟨result, applied, tags, gaps, _, again⟩ := normalForm_of_simultaneous Mac.table_regular []
    false "a/END-MAC*IF-MAC/ELSE-IF-MAC* b".toList
  have same : result = "a//END-MAC*/IF-MAC/*ELSE-IF-MAC b".toList := by
    rw [TableDraft.apply_built [] false .simultaneous Mac.table_regular.nodup] at applied
    rw [← Except.ok.inj applied]
    decide
  subst same
  exact ⟨Mac.table_regular, applied, tags.trans (by decide), gaps.trans (by decide), again⟩

end PlatformMarkers
