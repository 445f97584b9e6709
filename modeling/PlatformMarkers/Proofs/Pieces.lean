import PlatformMarkers.Proofs.Document

/-! The scan of a document. A scan may look for some of the tags only; the others are
then plain text like everything between the chains. -/

set_option autoImplicit false

namespace PlatformMarkers

namespace Chain

/-- The pieces of a chain in a scan for the wanted tags. A marker takes in the run after it,
so that nothing is left of it in front of the next tag. -/
def piecesFrom (wanted : List Text) : Text → List Link → List Piece
  | lead, [] => lead.map .plain
  | lead, ⟨tag, run⟩ :: links =>
    -- Without a marker, the run after the tag is the lead of the next one.
    if lead ≠ [] ∧ tag ∈ wanted then .marker ⟨lead, tag, run⟩ :: piecesFrom wanted [] links
    else lead.map .plain ++ tag.map .plain ++ piecesFrom wanted run links

def pieces (wanted : List Text) (chain : Chain) : List Piece :=
  piecesFrom wanted chain.lead chain.links

end Chain

def Document.pieces (wanted : List Text) : Document → List Piece
  | .plain gap => gap.map .plain
  | .chained gap chain rest => gap.map .plain ++ (chain.pieces wanted ++ rest.pieces wanted)

theorem exists_markerAt?_of_mem_scan {tags : List Text} {text : Text} {marker : Marker}
    (member : Piece.marker marker ∈ scan tags text) :
    ∃ later, later <:+ text ∧ markerAt? tags later = some marker := by
  induction size : text.length using Nat.strongRecOn generalizing text with
  | _ length ih =>
    cases text with
    | nil => cases member
    | cons c rest =>
      cases here : markerAt? tags (c :: rest) with
      | none =>
        rw [scan_of_no_marker here] at member
        obtain ⟨later, suffix, found⟩ := ih rest.length (by simp [← size]) (by simpa using member) rfl
        exact ⟨later, suffix.trans (List.suffix_cons c rest), found⟩
      | some found =>
        have positive := length_text_pos_of_markerAt? here
        rw [scan_of_marker here] at member
        rcases List.mem_cons.mp member with same | further
        · cases same
          exact ⟨c :: rest, List.suffix_rfl, here⟩
        · have shorter : ((c :: rest).drop found.text.length).length < length := by
            simp only [List.length_drop, ← size, List.length_cons]
            omega
          obtain ⟨later, suffix, found⟩ := ih _ shorter further rfl
          exact ⟨later, suffix.trans (List.drop_suffix _ _), found⟩

theorem mem_tags_of_mem_scan {tags : List Text} {text : Text} {marker : Marker}
    (member : Piece.marker marker ∈ scan tags text) : marker.tag ∈ tags := by
  obtain ⟨_, _, found⟩ := exists_markerAt?_of_mem_scan member
  exact (leadAndTag?_sound (markerAt?_eq_some_iff.mp found).1).2.2.1

/-! ## Stretches of plain text -/

theorem Piece.flatMap_replace_plain (substitute : Text → Text) (text : Text) :
    (text.map Piece.plain).flatMap (Piece.replace substitute) = text := by
  induction text with
  | nil => rfl
  | cons c text ih => simpa [Piece.replace] using ih

theorem replaceMarkers_append {tags : List Text} {substitute : Text → Text} {stretch rest : Text}
    (plain : scan tags (stretch ++ rest) = stretch.map Piece.plain ++ scan tags rest) :
    replaceMarkers tags substitute (stretch ++ rest) =
      stretch ++ replaceMarkers tags substitute rest := by
  rw [replaceMarkers, plain, List.flatMap_append, Piece.flatMap_replace_plain, ← replaceMarkers]

theorem markerAt?_eq_none_iff {tags : List Text} {text : Text} :
    markerAt? tags text = none ↔ leadAndTag? tags text = none := by
  rw [markerAt?, Option.map_eq_none_iff]

theorem scan_append_of_no_marker {tags : List Text} {stretch rest : Text}
    (absent : ∀ later, later ≠ [] → later <:+ stretch → leadAndTag? tags (later ++ rest) = none) :
    scan tags (stretch ++ rest) = stretch.map Piece.plain ++ scan tags rest := by
  induction stretch with
  | nil => rfl
  | cons c stretch ih =>
    have here : markerAt? tags (c :: (stretch ++ rest)) = none :=
      markerAt?_eq_none_iff.mpr (absent (c :: stretch) (by simp) List.suffix_rfl)
    have later := ih fun later nonempty suffix =>
      absent later nonempty (suffix.trans (List.suffix_cons c stretch))
    rw [List.cons_append, scan_of_no_marker here, later, List.map_cons, List.cons_append]

theorem leadAndTag?_of_startsPlain {tags : List Text} {text : Text} (plain : StartsPlain text) :
    leadAndTag? tags text = none := by
  cases text with
  | nil => rfl
  | cons c text => simp [leadAndTag?, plain c rfl]

theorem scan_plain_append {tags : List Text} {stretch : Text} (plain : IsPlain stretch) (rest : Text) :
    scan tags (stretch ++ rest) = stretch.map Piece.plain ++ scan tags rest := by
  refine scan_append_of_no_marker fun later nonempty suffix => leadAndTag?_of_startsPlain ?_
  cases later with
  | nil => exact absurd rfl nonempty
  | cons c later =>
    intro d head
    cases head
    exact plain c (suffix.subset (by simp))

theorem IsRun.of_suffix {run later : Text} (isRun : IsRun run) (suffix : later <:+ run) :
    IsRun later :=
  fun c member => isRun c (suffix.subset member)

theorem scan_run_append {tags : List Text} (undelimited : Undelimited tags)
    {run rest : Text} (isRun : IsRun run) (plain : StartsPlain rest)
    (absent : longestTag? tags rest = none) :
    scan tags (run ++ rest) = run.map Piece.plain ++ scan tags rest := by
  refine scan_append_of_no_marker fun later nonempty suffix => ?_
  rw [undelimited.leadAndTag?_run_append (isRun.of_suffix suffix) plain, absent]
  simp

theorem scan_tagged_append {tags : List Text} (undelimited : Undelimited tags)
    {run tag trail rest : Text} (nonempty : run ≠ []) (isRun : IsRun run)
    (found : longestTag? tags (tag ++ (trail ++ rest)) = some tag) (trailRun : IsRun trail)
    (plain : StartsPlain rest) :
    scan tags (run ++ (tag ++ (trail ++ rest))) = .marker ⟨run, tag, trail⟩ :: scan tags rest := by
  have tagPlain := undelimited.startsPlain_append (mem_and_isPrefix_of_longestTag? found).1
    (trail ++ rest)
  have here : markerAt? tags (run ++ (tag ++ (trail ++ rest))) = some ⟨run, tag, trail⟩ := by
    rw [markerAt?_eq_some_iff, undelimited.leadAndTag?_run_append isRun tagPlain, if_neg nonempty,
      found]
    refine ⟨rfl, ?_⟩
    rw [← List.append_assoc, ← List.length_append, List.drop_left,
      takeWhile_run_append trailRun plain]
  have behind :
      (run ++ (tag ++ (trail ++ rest))).drop (Marker.text ⟨run, tag, trail⟩).length = rest := by
    rw [← List.append_assoc, ← List.append_assoc]
    exact List.drop_left
  rw [scan_of_marker here, behind]

theorem Unmarked.of_suffix {tags : List Text} {gap later : Text} (unmarked : Unmarked tags gap)
    (suffix : later <:+ gap) : Unmarked tags later := by
  obtain ⟨before, rfl⟩ := suffix
  induction before with
  | nil => exact unmarked
  | cons c before ih => exact ih unmarked.2

theorem longestTag?_of_absent {tags wanted : List Text} (subset : wanted ⊆ tags) {text : Text}
    (absent : ∀ tag ∈ tags, ¬ tag <+: text) : longestTag? wanted text = none :=
  longestTag?_eq_none_iff.mpr fun tag member => absent tag (subset member)

/-! ## Gaps and chains -/

section
variable {tags wanted : List Text} (distinguishable : Distinguishable tags) (subset : wanted ⊆ tags)
include distinguishable subset

-- A scan comes to the end of a gap in two ways: the text ends with it, or a chain begins,
-- and then the gap must not end with a delimiter of its own.
theorem leadAndTag?_gap_append {gap rest : Text} (nonempty : gap ≠ [])
    (unmarked : Unmarked tags gap)
    (closed : rest = [] ∨ (∀ c ∈ gap.getLast?, isDelimiter c = false) ∧
      ∃ c ∈ rest.head?, isDelimiter c = true) :
    leadAndTag? wanted (gap ++ rest) = none := by
  induction gap with
  | nil => exact absurd rfl nonempty
  | cons c gap ih =>
    rw [List.cons_append, leadAndTag?]
    split
    next delimiter =>
      have absent : longestTag? wanted (gap ++ rest) = none := by
        refine longestTag?_of_absent subset fun tag member start => ?_
        refine unmarked.1 delimiter tag member ?_
        rcases closed with rfl | ⟨_, delimited⟩
        · rwa [List.append_nil] at start
        · exact distinguishable.undelimited.isPrefix_of_isPrefix_append member delimited start
      have later : leadAndTag? wanted (gap ++ rest) = none := by
        cases gap with
        | nil =>
          rcases closed with rfl | ⟨last, _⟩
          · rfl
          · rw [last c rfl] at delimiter
            cases delimiter
        | cons d gap => exact ih (by simp) unmarked.2 (by simpa using closed)
      rw [later, absent]
      rfl
    next => rfl

theorem scan_gap_append {gap rest : Text} (unmarked : Unmarked tags gap)
    (closed : rest = [] ∨ (∀ c ∈ gap.getLast?, isDelimiter c = false) ∧
      ∃ c ∈ rest.head?, isDelimiter c = true) :
    scan wanted (gap ++ rest) = gap.map Piece.plain ++ scan wanted rest := by
  refine scan_append_of_no_marker fun later nonempty suffix => ?_
  refine leadAndTag?_gap_append distinguishable subset nonempty
    (unmarked.of_suffix suffix) (closed.imp_right fun ⟨last, delimited⟩ => ⟨?_, delimited⟩)
  obtain ⟨before, rfl⟩ := suffix
  intro c final
  exact last c (by simp [List.getLast?_append, Option.mem_def.mp final])

theorem scan_links {lead rest : Text} {links : List Link} (isRun : IsRun lead)
    (members : ∀ link ∈ links, link.tag ∈ tags) (runs : ∀ link ∈ links, IsRun link.run)
    (ends : EndsChain tags rest) :
    scan wanted (lead ++ (links.flatMap Link.text ++ rest)) =
      Chain.piecesFrom wanted lead links ++ scan wanted rest := by
  have small := distinguishable.subset subset
  -- The lead is what an earlier marker has left of the run before the links.
  induction links generalizing lead with
  | nil =>
    exact scan_run_append small.undelimited isRun ends.1
      (longestTag?_of_absent subset ends.2)
  | cons link links ih =>
    obtain ⟨tag, run⟩ := link
    have member : tag ∈ tags := members ⟨tag, run⟩ (by simp)
    have runIsRun : IsRun run := runs ⟨tag, run⟩ (by simp)
    have laterMembers : ∀ link ∈ links, link.tag ∈ tags :=
      fun link later => members link (by simp [later])
    have laterRuns : ∀ link ∈ links, IsRun link.run := fun link later => runs link (by simp [later])
    have afterPlain := startsPlain_links distinguishable laterMembers ends.1
    simp only [List.flatMap_cons, Link.text, List.append_assoc, Chain.piecesFrom]
    have tagPlain := distinguishable.undelimited.startsPlain_append member
      (run ++ (links.flatMap Link.text ++ rest))
    have found := distinguishable.longestTag?_append member
      (run ++ (links.flatMap Link.text ++ rest)) subset
    split
    next marks =>
      rw [scan_tagged_append small.undelimited marks.1 isRun (by rw [found, if_pos marks.2]) runIsRun
        afterPlain]
      exact congrArg _ (ih isRun_nil laterMembers laterRuns)
    next silent =>
      have leadPlain : scan wanted (lead ++ (tag ++ (run ++ (links.flatMap Link.text ++ rest)))) =
          lead.map Piece.plain ++ scan wanted (tag ++ (run ++ (links.flatMap Link.text ++ rest))) := by
        by_cases empty : lead = []
        · simp [empty]
        · have unwanted : tag ∉ wanted := fun member => silent ⟨empty, member⟩
          exact scan_run_append small.undelimited isRun tagPlain (by rw [found, if_neg unwanted])
      rw [leadPlain, scan_plain_append (distinguishable.plain tag member),
        ih runIsRun laterMembers laterRuns]
      simp only [List.append_assoc]

theorem scan_document {document : Document} (valid : document.Valid tags) :
    scan wanted document.text = document.pieces wanted := by
  induction document with
  | plain gap =>
    have scanned := scan_gap_append distinguishable subset valid (Or.inl rfl)
    simpa [Document.text, Document.pieces] using scanned
  | chained gap chain rest ih =>
    obtain ⟨unmarked, last, chainValid, follows, restValid⟩ := valid
    have ends := (Document.follows_iff distinguishable restValid).mp follows
    have delimited := chainValid.exists_head?_text rest.text
    rw [Document.text, List.append_assoc,
      scan_gap_append distinguishable subset unmarked (Or.inr ⟨last, delimited⟩), Chain.text,
      List.append_assoc, scan_links distinguishable subset chainValid.isRun_lead chainValid.mem_tags
        chainValid.isRun_run ends, ih restValid]
    rfl

end

end PlatformMarkers
