import PlatformMarkers.Proofs.RegularTable
import PlatformMarkers.Proofs.CommittedTable

/-! Passes made one after another give the same as one pass for all tags, in whatever order
they are made, as long as no marker is directly followed by a further tag. -/

set_option autoImplicit false

namespace PlatformMarkers

def Piece.Separated (tags : List Text) : List Piece → Prop
  | [] => True
  | .plain _ :: rest => Separated tags rest
  | .marker _ :: rest => (∀ tag ∈ tags, ¬ tag <+: rest.flatMap Piece.text) ∧ Separated tags rest

instance Piece.decidableSeparated (tags : List Text) :
    (pieces : List Piece) → Decidable (Piece.Separated tags pieces)
  | [] => isTrue trivial
  | .plain _ :: rest => decidableSeparated tags rest
  | .marker _ :: rest =>
    have := decidableSeparated tags rest
    inferInstanceAs (Decidable ((∀ tag ∈ tags, ¬ tag <+: rest.flatMap Piece.text) ∧ _))

/-- Right after every marker of the text something else than a tag stands. -/
def Separated (tags : List Text) (text : Text) : Prop := Piece.Separated tags (scan tags text)

instance (tags : List Text) (text : Text) : Decidable (Separated tags text) :=
  inferInstanceAs (Decidable (Piece.Separated tags (scan tags text)))

theorem Piece.separated_plain_append (tags : List Text) (gap : Text) (rest : List Piece) :
    Piece.Separated tags (gap.map Piece.plain ++ rest) ↔ Piece.Separated tags rest := by
  induction gap with
  | nil => rfl
  | cons c gap ih => exact ih

theorem Piece.flatMap_text_plain (text : Text) : (text.map Piece.plain).flatMap Piece.text = text := by
  induction text with
  | nil => rfl
  | cons c text ih => simpa [Piece.text] using ih

namespace Document

def Single (document : Document) : Prop := ∀ chain ∈ document.chains, ∃ link, chain.links = [link]

section
variable {tags : List Text} (distinguishable : Distinguishable tags)
include distinguishable

theorem flatMap_text_pieces {document : Document} (valid : document.Valid tags) :
    (document.pieces tags).flatMap Piece.text = document.text := by
  rw [← scan_document distinguishable (List.Subset.refl tags) valid, flatMap_text_scan]

theorem separated_pieces_iff {document : Document} (valid : document.Valid tags) :
    Piece.Separated tags (document.pieces tags) ↔ document.Single := by
  induction document with
  | plain gap =>
    have plain := Piece.separated_plain_append tags gap []
    rw [List.append_nil] at plain
    simp [pieces, plain, Single, chains, Piece.Separated]
  | chained gap chain rest ih =>
    obtain ⟨_, _, chainValid, follows, restValid⟩ := valid
    have ends := (follows_iff distinguishable restValid).mp follows
    have text := flatMap_text_pieces distinguishable restValid
    obtain ⟨lead, links⟩ := chain
    rw [pieces, Piece.separated_plain_append, Chain.pieces]
    rcases links with _ | ⟨⟨tag, run⟩, _ | ⟨⟨next, nextRun⟩, links⟩⟩
    · exact absurd rfl chainValid.links_ne_nil
    · have marks : lead ≠ [] ∧ tag ∈ tags :=
        ⟨chainValid.lead_ne_nil, chainValid.mem_tags ⟨tag, run⟩ (by simp)⟩
      rw [Chain.piecesFrom, if_pos marks]
      simp only [Chain.piecesFrom, List.map_nil, List.cons_append, List.nil_append, Piece.Separated,
        text, ih restValid]
      simpa [Single, chains] using fun _ => ends.2
    -- The second tag stands right behind the marker of the first, which has taken in its run.
    · have marks : lead ≠ [] ∧ tag ∈ tags :=
        ⟨chainValid.lead_ne_nil, chainValid.mem_tags ⟨tag, run⟩ (by simp)⟩
      have nextMember : next ∈ tags := chainValid.mem_tags ⟨next, nextRun⟩ (by simp)
      rw [Chain.piecesFrom, if_pos marks]
      constructor
      · intro separated
        refine absurd ?_ (separated.1 next nextMember)
        simp [Chain.piecesFrom, Piece.flatMap_text_plain]
      · intro single
        obtain ⟨link, impossible⟩ := single _ List.mem_cons_self
        simp at impossible

theorem separated_text_iff {document : Document} (valid : document.Valid tags) :
    Separated tags document.text ↔ document.Single := by
  rw [Separated, scan_document distinguishable (List.Subset.refl tags) valid,
    separated_pieces_iff distinguishable valid]

end

theorem chains_map (change : Chain → Chain) (document : Document) :
    (document.map change).chains = document.chains.map change := by
  induction document with
  | plain gap => rfl
  | chained gap chain rest ih => simp [map, chains, ih]

theorem map_passes_eq_map_pass {tags order : List Text} (frame : Frame) (complete : tags ⊆ order)
    {document : Document} (valid : document.Valid tags) (single : document.Single) :
    document.map (frame.passes order).chain = document.map (frame.pass tags).chain := by
  refine map_congr fun chain member => ?_
  have chainValid := valid.of_mem member
  obtain ⟨⟨tag, run⟩, links⟩ := single chain member
  have tagMember : tag ∈ tags := chainValid.mem_tags ⟨tag, run⟩ (by simp [links])
  simp [Sweep.chain, links, Sweep.chainFrom, Sweep.marker?_passes_none, Sweep.marker?_pass_none,
    chainValid.lead_ne_nil, tagMember, complete tagMember]

theorem single_map {sweep : Sweep} {document : Document} (single : document.Single) :
    (document.map sweep.chain).Single := by
  intro chain member
  rw [chains_map] at member
  obtain ⟨original, originalMember, rfl⟩ := List.mem_map.mp member
  obtain ⟨link, links⟩ := single original originalMember
  exact ⟨_, by rw [Sweep.chain, links, Sweep.chainFrom]; rfl⟩

end Document

theorem Table.Regular.applySequentially_eq {table shuffled : Table} (regular : table.Regular)
    (permuted : shuffled.Perm table) {text : Text} (separated : Separated table.tags text) :
    shuffled.applySequentially text = table.applySimultaneously text ∧
      Separated table.tags (table.applySimultaneously text) := by
  have distinguishable := regular.distinguishable
  have framed := regular.valid_frame
  have same : shuffled.tags.Perm table.tags := permuted.map Rule.tag
  obtain ⟨document, valid, rfl⟩ := Document.exists_valid distinguishable text
  have single := (Document.separated_text_iff distinguishable valid).mp separated
  have sequentially := Document.applySequentially_text distinguishable framed valid same.subset
    (fun rule member => regular.framed_frame rule (permuted.subset member))
    (same.nodup_iff.mpr regular.nodup)
  have simultaneously := regular.applySimultaneously_text valid
  have swept := Document.map_passes_eq_map_pass table.frame same.symm.subset valid single
  have resultValid : (document.map (table.frame.pass table.tags).chain).Valid table.tags :=
    Document.valid_map_sweep framed valid
  rw [sequentially, simultaneously, swept]
  refine ⟨rfl, ?_⟩
  exact (Document.separated_text_iff distinguishable resultValid).mpr (Document.single_map single)

/-- Drafts built from the table in any order agree in their two modes on separated texts, and
so do the two modes of toggling. -/
theorem modes_agree_of_separated :
    (∀ (name : Text) (verbose : Bool) (table shuffled : Table) (text : Text), table.Regular →
      shuffled.Perm table → Separated table.tags text →
      ∃ result,
        ((TableDraft.built name verbose .sequential shuffled).apply text).map Applied.text =
          .ok result ∧
        ((TableDraft.built name verbose .simultaneous table).apply text).map Applied.text =
          .ok result ∧
        Separated table.tags result) ∧
    ∀ text, Separated Mac.Tag.texts text →
      Mac.toggle .sequential text = Mac.toggle .simultaneous text := by
  refine ⟨fun name verbose table shuffled text regular permuted separated => ?_,
    fun text separated => ?_⟩
  · obtain ⟨same, again⟩ := regular.applySequentially_eq permuted separated
    have shuffledNodup := (permuted.map Rule.tag).nodup_iff.mpr regular.nodup
    refine ⟨table.applySimultaneously text, ?_, ?_, again⟩
    · rw [TableDraft.apply_built name verbose .sequential shuffledNodup, Table.apply, same]
    · rw [TableDraft.apply_built name verbose .simultaneous regular.nodup, Table.apply]
  · exact (Mac.table_regular.applySequentially_eq (List.Perm.refl _) separated).1

theorem modes_agree_of_reverse :
    let text := "a /*IF-MAC*/ b\n//END-MAC c **ELSE-IF-NOT-MAC".toList
    let draft (mode : Mode) (table : Table) := TableDraft.built [] false mode table
    Mac.table.Regular ∧ Mac.table.reverse.Perm Mac.table ∧ Separated Mac.table.tags text ∧
      (∃ result, ((draft .sequential Mac.table.reverse).apply text).map Applied.text = .ok result ∧
        ((draft .simultaneous Mac.table).apply text).map Applied.text = .ok result ∧
        Separated Mac.table.tags result) ∧
      Mac.toggle .sequential text = Mac.toggle .simultaneous text := by
  have separated : Separated Mac.table.tags
      "a /*IF-MAC*/ b\n//END-MAC c **ELSE-IF-NOT-MAC".toList := by decide
  have permuted := List.reverse_perm Mac.table
  exact ⟨Mac.table_regular, permuted, separated, modes_agree_of_separated.1 [] false Mac.table
    Mac.table.reverse _ Mac.table_regular permuted separated, modes_agree_of_separated.2 _ separated⟩

end PlatformMarkers
