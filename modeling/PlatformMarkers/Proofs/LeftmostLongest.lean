import PlatformMarkers.Proofs.NormalForm
import PlatformMarkers.Proofs.History

/-! Which markers a scan finds, for tags of any kind: they may be empty, and they may hold
delimiters, so that a run can be followed by tags in more than one way. The scan is the only
way to cut the text into markers that are as long as they can be and gaps in which no marker
can begin. -/

set_option autoImplicit false

namespace PlatformMarkers

structure Leads (tags : List Text) (text run tag : Text) : Prop where
  ne_nil : run ≠ []
  isRun : IsRun run
  mem_tags : tag ∈ tags
  isPrefix : run ++ tag <+: text

section
variable {tags : List Text} {text run tag : Text}

theorem leads_of_leadAndTag? (found : leadAndTag? tags text = some (run, tag)) :
    Leads tags text run tag := by
  obtain ⟨nonempty, isRun, member, start⟩ := leadAndTag?_sound found
  exact ⟨nonempty, isRun, member, start⟩

theorem Leads.run_isPrefix (leads : Leads tags text run tag) : run <+: text :=
  (List.prefix_append run tag).trans leads.isPrefix

/-- Whatever run leads to a tag, the run found is at least as long; and if it is that run, the
tag found is at least as long. -/
theorem Leads.exists_longest (leads : Leads tags text run tag) :
    ∃ lead longest, leadAndTag? tags text = some (lead, longest) ∧ run.length ≤ lead.length ∧
      (run.length = lead.length → tag.length ≤ longest.length) := by
  obtain ⟨nonempty, isRun, member, start⟩ := leads
  induction text generalizing run with
  | nil => simp [nonempty] at start
  | cons c rest ih =>
    cases run with
    | nil => exact absurd rfl nonempty
    | cons d run =>
      obtain ⟨rfl, behind⟩ := List.cons_prefix_cons.mp start
      rw [leadAndTag?, if_pos (isRun d (by simp))]
      have isRun : IsRun run := fun c inside => isRun c (by simp [inside])
      cases run with
      | cons e run =>
        obtain ⟨lead, longest, found, longer, longestTag⟩ := ih (by simp) isRun behind
        rw [found]
        exact ⟨d :: lead, longest, rfl, by simpa using longer, by simpa using longestTag⟩
      | nil =>
        cases later : leadAndTag? tags rest with
        | some found =>
          have nonempty := (leads_of_leadAndTag? later).ne_nil
          refine ⟨d :: found.1, found.2, rfl, by simp, fun same => ?_⟩
          simp [nonempty] at same
        | none =>
          cases here : longestTag? tags rest with
          | none => exact absurd behind (longestTag?_eq_none_iff.mp here tag member)
          | some longest =>
            have longer := length_le_of_longestTag? here member behind
            exact ⟨[d], longest, rfl, Nat.le_refl _, fun _ => longer⟩

theorem leadAndTag?_eq_none_iff :
    leadAndTag? tags text = none ↔ ∀ run tag, ¬ Leads tags text run tag := by
  constructor
  · intro absent run tag leads
    obtain ⟨lead, longest, found, _⟩ := leads.exists_longest
    rw [absent] at found
    cases found
  · intro absent
    cases found : leadAndTag? tags text with
    | none => rfl
    | some pair => exact absurd (leads_of_leadAndTag? found) (absent pair.1 pair.2)

theorem leadAndTag?_eq_some_iff : leadAndTag? tags text = some (run, tag) ↔
    Leads tags text run tag ∧
      (∀ otherRun otherTag, Leads tags text otherRun otherTag → otherRun.length ≤ run.length) ∧
      ∀ otherTag, Leads tags text run otherTag → otherTag.length ≤ tag.length := by
  constructor
  · intro found
    refine ⟨leads_of_leadAndTag? found, fun otherRun otherTag leads => ?_, fun otherTag leads => ?_⟩
    all_goals
      obtain ⟨lead, longest, same, longer, longerTag⟩ := leads.exists_longest
      obtain ⟨rfl, rfl⟩ := Prod.mk.inj (Option.some.inj (found.symm.trans same))
    · exact longer
    · exact longerTag rfl
  · rintro ⟨leads, longestRun, longestTag⟩
    obtain ⟨lead, longest, found, longer, longerTag⟩ := leads.exists_longest
    have foundLeads := leads_of_leadAndTag? found
    have sameLength := Nat.le_antisymm longer (longestRun lead longest foundLeads)
    obtain rfl := eq_of_isPrefix_of_length_eq leads.run_isPrefix foundLeads.run_isPrefix sameLength
    have sameTagLength := Nat.le_antisymm (longerTag rfl) (longestTag longest foundLeads)
    have same := eq_of_isPrefix_of_length_eq leads.isPrefix foundLeads.isPrefix
      (by simpa using sameTagLength)
    rw [found, List.append_cancel_left same]

end

/-! ## Cuts -/

/-- In front of the rest, the lead of the marker is the longest run that leads to a tag, its tag
the longest one there, and its trail all that follows of the run behind the tag. -/
structure Marker.Greedy (tags : List Text) (marker : Marker) (rest : Text) : Prop where
  leads : Leads tags (marker.text ++ rest) marker.lead marker.tag
  longest_lead : ∀ run tag, Leads tags (marker.text ++ rest) run tag →
    run.length ≤ marker.lead.length
  longest_tag : ∀ tag, Leads tags (marker.text ++ rest) marker.lead tag →
    tag.length ≤ marker.tag.length
  isRun_trail : IsRun marker.trail
  startsPlain : StartsPlain rest

theorem markerAt?_append_iff {tags : List Text} {marker : Marker} {rest : Text} :
    markerAt? tags (marker.text ++ rest) = some marker ↔ marker.Greedy tags rest := by
  have behind : (marker.text ++ rest).drop (marker.lead.length + marker.tag.length) =
      marker.trail ++ rest := by
    rw [Marker.text, List.append_assoc, ← List.length_append, List.drop_left]
  rw [markerAt?_eq_some_iff, leadAndTag?_eq_some_iff, behind]
  constructor
  · rintro ⟨⟨leads, longestLead, longestTag⟩, trail⟩
    have whole := List.takeWhile_append_dropWhile (p := isDelimiter) (l := marker.trail ++ rest)
    rw [← trail] at whole
    refine ⟨leads, longestLead, longestTag, ?_, ?_⟩
    · rw [trail]
      exact isRun_takeWhile _
    · rw [← List.append_cancel_left whole]
      exact startsPlain_dropWhile _
  · intro greedy
    exact ⟨⟨greedy.leads, greedy.longest_lead, greedy.longest_tag⟩,
      (takeWhile_run_append greedy.isRun_trail greedy.startsPlain).symm⟩

/-- In front of the rest, no run from within the gap leads to a tag. -/
def Unled (tags : List Text) (gap rest : Text) : Prop :=
  ∀ later, later ≠ [] → later <:+ gap → ∀ run tag, ¬ Leads tags (later ++ rest) run tag

/-- The gaps and markers, taken in turn, are the text. -/
inductive Cut (tags : List Text) : Text → List Text → List Marker → Prop where
  | last {gap : Text} (unled : Unled tags gap []) : Cut tags gap [gap] []
  | next {gap rest : Text} {marker : Marker} {gaps : List Text} {found : List Marker}
      (unled : Unled tags gap (marker.text ++ rest)) (greedy : marker.Greedy tags rest)
      (cut : Cut tags rest gaps found) :
      Cut tags (gap ++ (marker.text ++ rest)) (gap :: gaps) (marker :: found)

def woven : List Text → List Text → Text
  | gap :: gaps, filler :: fillers => gap ++ filler ++ woven gaps fillers
  | gaps, _ => gaps.flatten

theorem unled_nil (tags : List Text) (rest : Text) : Unled tags [] rest :=
  fun _ nonempty suffix => absurd (List.suffix_nil.mp suffix) nonempty

theorem Unled.cons {tags : List Text} {gap rest : Text} {c : Char} (unled : Unled tags gap rest)
    (absent : leadAndTag? tags (c :: (gap ++ rest)) = none) : Unled tags (c :: gap) rest := by
  intro later nonempty suffix
  rcases List.suffix_cons_iff.mp suffix with rfl | within
  · exact leadAndTag?_eq_none_iff.mp absent
  · exact unled later nonempty within

theorem Unled.scan_append {tags : List Text} {gap rest : Text} (unled : Unled tags gap rest) :
    scan tags (gap ++ rest) = gap.map Piece.plain ++ scan tags rest :=
  scan_append_of_no_marker fun later nonempty suffix =>
    leadAndTag?_eq_none_iff.mpr (unled later nonempty suffix)

theorem Marker.Greedy.scan_append {tags : List Text} {marker : Marker} {rest : Text}
    (greedy : marker.Greedy tags rest) :
    scan tags (marker.text ++ rest) = .marker marker :: scan tags rest := by
  rw [scan_of_marker (markerAt?_append_iff.mpr greedy), List.drop_left]

theorem filterMap_marker?_plain_append (gap : Text) (pieces : List Piece) :
    (gap.map Piece.plain ++ pieces).filterMap Piece.marker? = pieces.filterMap Piece.marker? := by
  simp [Piece.marker?, Function.comp_def]

namespace Cut

variable {tags : List Text} {text : Text} {gaps : List Text} {found : List Marker}

theorem cons (cut : Cut tags text gaps found) {c : Char}
    (absent : leadAndTag? tags (c :: text) = none) :
    Cut tags (c :: text) (gaps.modifyHead (c :: ·)) found := by
  cases cut with
  | last unled => exact .last (unled.cons (by simpa using absent))
  | next unled greedy cut => exact .next (unled.cons absent) greedy cut

theorem of_scan (tags : List Text) (text : Text) :
    Cut tags text (Piece.gaps (scan tags text)) (markers tags text) := by
  induction size : text.length using Nat.strongRecOn generalizing text with
  | _ size ih =>
    cases text with
    | nil => exact .last (unled_nil tags [])
    | cons c rest =>
      cases here : markerAt? tags (c :: rest) with
      | none =>
        have later := ih rest.length (by simp [← size]) rest rfl
        rw [markers, scan_of_no_marker here]
        exact later.cons (markerAt?_eq_none_iff.mp here)
      | some marker =>
        obtain ⟨after, same⟩ := text_isPrefix_of_markerAt? here
        have positive := length_text_pos_of_markerAt? here
        rw [← same] at here size ⊢
        have greedy := markerAt?_append_iff.mp here
        have later := ih after.length (by rw [← size, List.length_append]; omega) after rfl
        rw [markers, greedy.scan_append]
        have cut : Cut tags ([] ++ (marker.text ++ after)) _ _ :=
          .next (unled_nil tags _) greedy later
        exact cut

theorem scan_eq (cut : Cut tags text gaps found) :
    gaps = Piece.gaps (scan tags text) ∧ found = markers tags text := by
  induction cut with
  | @last gap unled =>
    have scanned := unled.scan_append
    rw [List.append_nil] at scanned
    rw [markers, scanned, Piece.gaps_plain_append, filterMap_marker?_plain_append]
    simp [Piece.gaps]
  | next unled greedy cut ih =>
    rw [markers, unled.scan_append, greedy.scan_append, Piece.gaps_plain_append,
      filterMap_marker?_plain_append]
    simpa [Piece.gaps, List.filterMap_cons, Piece.marker?, markers] using ih

theorem text_eq (cut : Cut tags text gaps found) : text = woven gaps (found.map Marker.text) := by
  induction cut with
  | last unled => simp [woven]
  | next unled greedy cut ih => simp [woven, ← ih]

theorem replaceMarkers_eq (cut : Cut tags text gaps found) (substitute : Text → Text) :
    replaceMarkers tags substitute text =
      woven gaps (found.map fun marker => substitute marker.tag) := by
  induction cut with
  | @last gap unled =>
    have copied : replaceMarkers tags substitute (gap ++ []) =
        gap ++ replaceMarkers tags substitute [] := replaceMarkers_append unled.scan_append
    simpa [replaceMarkers, woven] using copied
  | next unled greedy cut ih =>
    rw [replaceMarkers_append unled.scan_append, replaceMarkers, greedy.scan_append,
      List.flatMap_cons, Piece.replace, ← replaceMarkers, ih]
    simp [woven]

end Cut

/-! ## Texts without a marker -/

theorem markers_cons_eq_nil_iff {tags : List Text} {c : Char} {rest : Text} :
    markers tags (c :: rest) = [] ↔
      leadAndTag? tags (c :: rest) = none ∧ markers tags rest = [] := by
  cases here : markerAt? tags (c :: rest) with
  | none => simp [markers, scan_of_no_marker here, markerAt?_eq_none_iff.mp here, Piece.marker?]
  | some marker =>
    have found := (markerAt?_eq_some_iff.mp here).1
    simp [markers, scan_of_marker here, found, Piece.marker?]

theorem markers_eq_nil_iff {tags : List Text} {text : Text} :
    markers tags text = [] ↔ Unmarked tags text := by
  induction text with
  | nil => simp [markers, Unmarked]
  | cons c rest ih =>
    rw [markers_cons_eq_nil_iff, Unmarked, ih, ← longestTag?_eq_none_iff]
    refine and_congr_left fun unmarked => ?_
    -- A run that leads on would begin a marker behind this character.
    have noLead : leadAndTag? tags rest = none := by
      cases rest with
      | nil => rfl
      | cons d rest => exact (markers_cons_eq_nil_iff.mp (ih.mpr unmarked)).1
    rw [leadAndTag?, noLead]
    simp

theorem replaceMarkers_of_unmarked {tags : List Text} {text : Text} (unmarked : Unmarked tags text)
    (substitute : Text → Text) : replaceMarkers tags substitute text = text := by
  have cut := Cut.of_scan tags text
  have none := markers_eq_nil_iff.mpr unmarked
  rw [cut.replaceMarkers_eq, none]
  conv_rhs => rw [cut.text_eq, none]
  simp

theorem Unmarked.subset {tags wanted : List Text} (subset : wanted ⊆ tags) {text : Text}
    (unmarked : Unmarked tags text) : Unmarked wanted text := by
  induction text with
  | nil => trivial
  | cons c rest ih =>
    exact ⟨fun delimiter tag member => unmarked.1 delimiter tag (subset member), ih unmarked.2⟩

theorem Table.apply_of_unmarked {table : Table} {text : Text} (unmarked : Unmarked table.tags text)
    (mode : Mode) : table.apply mode text = text := by
  cases mode with
  | simultaneous => exact replaceMarkers_of_unmarked unmarked _
  | sequential =>
    refine List.foldlRecOn table _ (motive := (· = text)) rfl fun current same rule member => ?_
    rw [same]
    exact replaceMarkers_of_unmarked (unmarked.subset (by simp [tags, List.mem_map_of_mem member])) _

/-- A scan finds the only cut of its text, and a replacement fills the gaps of that cut again. It
finds no marker exactly if no delimiter is directly followed by a tag, and then a committed draft
with these tags gives the text back in both modes. -/
theorem cut_iff_scan (tags : List Text) (text : Text) :
    (∀ gaps found, Cut tags text gaps found ↔
      gaps = Piece.gaps (scan tags text) ∧ found = markers tags text) ∧
    (∀ gaps found, Cut tags text gaps found → text = woven gaps (found.map Marker.text) ∧
      ∀ substitute, replaceMarkers tags substitute text =
        woven gaps (found.map fun marker => substitute marker.tag)) ∧
    (markers tags text = [] ↔ Unmarked tags text) ∧
    ∀ (name : Text) (verbose : Bool) (steps : List TableDraft.Step),
      let draft := TableDraft.after { name, verbose } steps
      draft.committed = true → draft.entries.filterMap Entry.tag = tags → Unmarked tags text →
        (draft.apply text).map Applied.text = .ok text := by
  refine ⟨fun gaps found => ⟨Cut.scan_eq, ?_⟩, fun gaps found cut =>
    ⟨cut.text_eq, cut.replaceMarkers_eq⟩, markers_eq_nil_iff, ?_⟩
  · rintro ⟨rfl, rfl⟩
    exact Cut.of_scan tags text
  · intro name verbose steps draft committed same unmarked
    have tagged : draft.Tagged := (TableDraft.tagged_fresh name verbose).after steps
    have known : draft.table.tags ⊆ tags := by
      intro tag member
      obtain ⟨rule, ruleMember, rfl⟩ := List.mem_map.mp member
      obtain ⟨entry, entryMember, sameTag⟩ := List.mem_map.mp (tagged.of_mem_table rule ruleMember)
      rw [← same]
      exact List.mem_filterMap.mpr ⟨entry, entryMember, sameTag⟩
    rw [TableDraft.apply_of_committed committed, TableDraft.rewrite,
      Table.apply_of_unmarked (unmarked.subset known)]

/-- The first run stops in front of its last delimiter, with which a tag begins, and the run behind
that tag belongs to its marker alone, so that the tag `b` is found only where it comes again. -/
theorem cut_iff_scan_of_delimited_tag :
    let tags := ["*a".toList, "b/".toList, "b".toList]
    let text := "x//*a*b/b".toList
    let found : List Marker :=
      [⟨"//".toList, "*a".toList, "*".toList⟩, ⟨"/".toList, "b".toList, []⟩]
    let steps : List TableDraft.Step := [.put ⟨some "b*".toList, some "c".toList⟩, .commit]
    let draft := TableDraft.after { name := [], verbose := false } steps
    Cut tags text ["x".toList, "b".toList, []] found ∧ ¬ Unmarked tags text ∧
      replaceMarkers tags List.reverse text = "xa*bb".toList ∧
      draft.committed = true ∧ Unmarked ["b*".toList] text ∧
      (draft.apply text).map Applied.text = .ok text := by
  intro tags text found steps draft
  obtain ⟨cuts, filled, nothing, _⟩ := cut_iff_scan tags text
  obtain ⟨_, _, empty, unchanged⟩ := cut_iff_scan ["b*".toList] text
  have cut : Cut tags text ["x".toList, "b".toList, []] found := (cuts _ _).mpr (by decide)
  have unmarked : Unmarked ["b*".toList] text := empty.mp (by decide)
  exact ⟨cut, mt nothing.mpr (by decide), ((filled _ _ cut).2 List.reverse).trans (by decide),
    rfl, unmarked, unchanged [] false steps rfl rfl unmarked⟩

end PlatformMarkers
