import PlatformMarkers.Proofs.Pieces
import PlatformMarkers.Proofs.History
import PlatformMarkers.Proofs.RegularTable

/-! What a rewriting leaves untouched. A marker consists of its tag and of delimiters, so that
rules which only set the delimiters around their tags, or inside them, keep every other
character of a text in its place. -/

set_option autoImplicit false

namespace PlatformMarkers

def withoutDelimiters (text : Text) : Text := text.filter fun c => !isDelimiter c

/-- The substitute differs from the tag in its delimiters only. -/
def Rule.SetsDelimiters (rule : Rule) : Prop :=
  withoutDelimiters rule.substitute = withoutDelimiters rule.tag

instance (rule : Rule) : Decidable rule.SetsDelimiters := inferInstanceAs (Decidable (_ = _))

theorem withoutDelimiters_append (first second : Text) :
    withoutDelimiters (first ++ second) = withoutDelimiters first ++ withoutDelimiters second :=
  List.filter_append first second

theorem withoutDelimiters_of_isRun {run : Text} (isRun : IsRun run) : withoutDelimiters run = [] := by
  rw [withoutDelimiters, List.filter_eq_nil_iff]
  intro c member
  simp [isRun c member]

theorem withoutDelimiters_text_of_markerAt? {tags : List Text} {text : Text} {marker : Marker}
    (found : markerAt? tags text = some marker) :
    withoutDelimiters marker.text = withoutDelimiters marker.tag := by
  obtain ⟨here, trail⟩ := markerAt?_eq_some_iff.mp found
  have leadRun : IsRun marker.lead := (leadAndTag?_sound here).2.1
  have trailRun : IsRun marker.trail := trail ▸ isRun_takeWhile _
  rw [Marker.text, withoutDelimiters_append, withoutDelimiters_append,
    withoutDelimiters_of_isRun leadRun, withoutDelimiters_of_isRun trailRun, List.nil_append,
    List.append_nil]

theorem withoutDelimiters_replaceMarkers {tags : List Text} {substitute : Text → Text}
    (sets : ∀ tag ∈ tags, withoutDelimiters (substitute tag) = withoutDelimiters tag) (text : Text) :
    withoutDelimiters (replaceMarkers tags substitute text) = withoutDelimiters text := by
  have pieceSame : ∀ piece ∈ scan tags text,
      withoutDelimiters (piece.replace substitute) = withoutDelimiters piece.text := by
    intro piece member
    cases piece with
    | plain c => rfl
    | marker marker =>
      obtain ⟨later, _, found⟩ := exists_markerAt?_of_mem_scan member
      rw [Piece.replace, Piece.text, sets marker.tag (mem_tags_of_mem_scan member),
        withoutDelimiters_text_of_markerAt? found]
  calc withoutDelimiters (replaceMarkers tags substitute text)
      = (scan tags text).flatMap fun piece => withoutDelimiters (piece.replace substitute) :=
        List.filter_flatMap
    _ = (scan tags text).flatMap fun piece => withoutDelimiters piece.text :=
        List.flatMap_congr pieceSame
    _ = withoutDelimiters ((scan tags text).flatMap Piece.text) := List.filter_flatMap.symm
    _ = withoutDelimiters text := by rw [flatMap_text_scan]

namespace Table

variable {table : Table} (sets : ∀ rule ∈ table, rule.SetsDelimiters)
include sets

theorem withoutDelimiters_applySequentially (text : Text) :
    withoutDelimiters (table.applySequentially text) = withoutDelimiters text := by
  induction table generalizing text with
  | nil => rfl
  | cons rule table ih =>
    have here : ∀ tag ∈ [rule.tag], withoutDelimiters rule.substitute = withoutDelimiters tag := by
      intro tag member
      rw [List.mem_singleton.mp member]
      exact sets rule List.mem_cons_self
    rw [applySequentially_cons, ih fun other member => sets other (List.mem_cons_of_mem rule member)]
    exact withoutDelimiters_replaceMarkers here text

theorem withoutDelimiters_applySimultaneously (text : Text) :
    withoutDelimiters (table.applySimultaneously text) = withoutDelimiters text := by
  refine withoutDelimiters_replaceMarkers (fun tag member => ?_) text
  obtain ⟨rule, ruleMember, rfl, same⟩ := mem_of_substituteFor member
  rw [same]
  exact sets rule ruleMember

theorem withoutDelimiters_apply (mode : Mode) (text : Text) :
    withoutDelimiters (table.apply mode text) = withoutDelimiters text := by
  cases mode with
  | sequential => exact withoutDelimiters_applySequentially sets text
  | simultaneous => exact withoutDelimiters_applySimultaneously sets text

end Table

/-- Rules that only set delimiters keep all other characters of a text and their order: in a
draft built from a table for either mode, in a draft that has become committed by any steps,
with its rules appended any number of times, and in toggling. -/
theorem withoutDelimiters_rewriting :
    (∀ (name : Text) (verbose : Bool) (mode : Mode) (table : Table) (text : Text),
      table.tags.Nodup → (∀ rule ∈ table, rule.SetsDelimiters) →
      ∃ result, ((TableDraft.built name verbose mode table).apply text).map Applied.text = .ok result ∧
        withoutDelimiters result = withoutDelimiters text) ∧
    (∀ (name : Text) (verbose : Bool) (steps : List TableDraft.Step) (text : Text),
      (∀ step ∈ steps, step.Obeys Rule.SetsDelimiters) →
      (TableDraft.after { name, verbose } steps).committed = true →
      ∃ result, ((TableDraft.after { name, verbose } steps).apply text).map Applied.text = .ok result ∧
        withoutDelimiters result = withoutDelimiters text) ∧
    ∀ (mode : Mode) (text : Text),
      withoutDelimiters (Mac.toggle mode text) = withoutDelimiters text := by
  refine ⟨fun name verbose mode table text distinct sets => ?_,
    fun name verbose steps text stepsSet committed => ?_, fun mode text => ?_⟩
  · exact ⟨_, TableDraft.apply_built name verbose mode distinct text,
      Table.withoutDelimiters_apply sets mode text⟩
  · have obeys := (TableDraft.obeys_fresh Rule.SetsDelimiters name verbose).after stepsSet
    exact ⟨_, TableDraft.apply_of_committed committed text,
      Table.withoutDelimiters_apply obeys.of_mem_table _ text⟩
  · exact Table.withoutDelimiters_apply (by decide) mode text

/-- The lead of the marker gives up characters that belong to the tag. -/
theorem withoutDelimiters_rewriting_delimited :
    let table : Table := [⟨"*/a/b".toList, "a*b".toList⟩]
    let text := "é//*/a/b/*\n*b/".toList
    let result := "éa*b\n*b/".toList
    let steps := table.map (fun rule => TableDraft.Step.put rule.entry) ++ [.commit, .commit]
    let draft := TableDraft.after { name := [], verbose := false } steps
    table.tags.Nodup ∧ (∀ rule ∈ table, rule.SetsDelimiters) ∧
      ((TableDraft.built [] false .simultaneous table).apply text).map Applied.text = .ok result ∧
      (draft.apply text).map Applied.text = .ok result ∧
      withoutDelimiters result = "éab\nb".toList := by
  intro table text result steps draft
  have distinct : table.tags.Nodup := by decide
  have sets : ∀ rule ∈ table, rule.SetsDelimiters := by decide
  have stepsSet : ∀ step ∈ steps, step.Obeys Rule.SetsDelimiters := by
    simp only [steps, table, List.map_cons, List.map_nil, List.cons_append, List.nil_append,
      List.forall_mem_cons]
    exact ⟨fun rule same => by cases same; decide, trivial, trivial, nofun⟩
  obtain ⟨first, applied, kept⟩ := withoutDelimiters_rewriting.1 [] false .simultaneous table text
    distinct sets
  obtain ⟨second, appliedAgain, keptAgain⟩ := withoutDelimiters_rewriting.2.1 [] false steps text
    stepsSet (by decide)
  have same : first = result := Except.ok.inj (applied.symm.trans (by decide))
  have sameAgain : second = result := Except.ok.inj (appliedAgain.symm.trans (by decide))
  rw [same] at applied kept
  rw [sameAgain] at appliedAgain
  exact ⟨distinct, sets, applied, appliedAgain, kept.trans (by decide)⟩

end PlatformMarkers
