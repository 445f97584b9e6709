import PlatformMarkers.Proofs.Pairing

/-! The lines that reports point to. A line number in a report counts the line feeds before a
tag that the scan has found, and it is kept while its marker stays open. So it leads to a line
of the document on which that tag stands behind a delimiter. -/

set_option autoImplicit false

namespace PlatformMarkers

/-- What reaches over no line feed stands on the line that the line feeds before it count. -/
theorem exists_line_of_append (before : Text) {part : Text} (whole : '\n' ∉ part) (after : Text) :
    ∃ line, (linesOf (before ++ part ++ after))[before.count '\n']? = some line ∧
      part <:+: line := by
  induction before using line_induction with
  | next first rest firstWhole ih =>
    obtain ⟨line, found, within⟩ := ih
    refine ⟨line, ?_, within⟩
    rw [List.append_assoc, List.append_assoc, List.cons_append, linesOf_append_cons,
      linesOf_of_not_mem firstWhole, List.count_append, List.count_eq_zero.mpr firstWhole,
      List.count_cons_self, Nat.zero_add, List.singleton_append, List.getElem?_cons_succ,
      ← List.append_assoc, found]
  | last first firstWhole =>
    rw [List.count_eq_zero.mpr firstWhole]
    -- The line of the part is the first one, and goes on behind the part up to a line feed.
    induction after using line_induction with
    | last rest restWhole =>
      refine ⟨first ++ part ++ rest, ?_, List.infix_append first part rest⟩
      rw [linesOf_of_not_mem (by simp [firstWhole, whole, restWhole]), List.getElem?_cons_zero]
    | next rest later restWhole _ =>
      refine ⟨first ++ part ++ rest, ?_, List.infix_append first part rest⟩
      rw [← List.append_assoc, linesOf_append_cons,
        linesOf_of_not_mem (by simp [firstWhole, whole, restWhole]), List.singleton_append,
        List.getElem?_cons_zero]

/-! ## Numbers among words -/

namespace Text

theorem isDigit_of_mem_decimal {number : Nat} {c : Char} (member : c ∈ decimal number) :
    c.isDigit = true :=
  Nat.isDigit_of_mem_toDigits (by decide) (by decide) member

theorem decimal_ne_nil (number : Nat) : decimal number ≠ [] := Nat.toDigits_ne_nil

theorem decimal_injective : Function.Injective decimal := by
  intro number other same
  rw [← Nat.ofDigitChars_ten_toDigits (n := number), ← Nat.ofDigitChars_ten_toDigits (n := other)]
  exact congrArg (Nat.ofDigitChars 10 · 0) same

/-- The number stands in the text right behind the given part, with all of its digits. -/
def Quotes (text before : Text) (number : Nat) : Prop :=
  ∃ after, text = before ++ (decimal number ++ after) ∧
    (∀ c ∈ before.getLast?, c.isDigit = false) ∧ ∀ c ∈ after.head?, c.isDigit = false

def NoDigit (text : Text) : Prop := ∀ c ∈ text, c.isDigit = false

instance (text : Text) : Decidable (NoDigit text) := List.decidableBAll (Char.isDigit · = false) text

theorem NoDigit.append {first second : Text} (firstWords : NoDigit first)
    (secondWords : NoDigit second) : NoDigit (first ++ second) :=
  List.forall_mem_append.mpr ⟨firstWords, secondWords⟩

theorem NoDigit.ticked {text : Text} (words : NoDigit text) : NoDigit (ticked text) :=
  (NoDigit.append (by decide) words).append (by decide)

theorem Quotes.eq_of_noDigit {words digits before : Text} {number : Nat}
    (quotes : Quotes (words ++ digits) before number) (noDigit : NoDigit words)
    (onlyDigits : ∀ c ∈ digits, c.isDigit = true) : before = words ∧ digits = decimal number := by
  obtain ⟨after, same, beforeEnds, afterBegins⟩ := quotes
  have reaches : words <+: before := by
    have start : before <+: words ++ digits := same ▸ List.prefix_append before _
    rcases List.prefix_or_prefix_of_prefix (List.prefix_append words digits) start with
      reaches | ⟨part, rfl⟩
    · exact reaches
    -- Otherwise the number would begin among the words.
    · obtain ⟨d, rest, first⟩ := List.exists_cons_of_ne_nil (decimal_ne_nil number)
      have inNumber : d ∈ decimal number := by simp [first]
      have digit : d.isDigit = true := isDigit_of_mem_decimal inNumber
      rw [List.append_assoc, first, List.append_cancel_left_eq] at same
      cases part with
      | nil => simp
      | cons c part =>
        obtain ⟨rfl, _⟩ := List.cons.inj same
        rw [noDigit c (by simp)] at digit
        cases digit
  obtain ⟨part, rfl⟩ := reaches
  rw [List.append_assoc, List.append_cancel_left_eq] at same
  have noPart : part = [] := by
    rcases List.eq_nil_or_concat part with none | ⟨_, c, rfl⟩
    · exact none
    · have digit : c.isDigit = true := onlyDigits c (by simp [same])
      rw [beforeEnds c (by simp)] at digit
      cases digit
  have noAfter : after = [] := by
    cases after with
    | nil => rfl
    | cons c after =>
      have digit : c.isDigit = true := onlyDigits c (by simp [same])
      rw [afterBegins c rfl] at digit
      cases digit
  exact ⟨by rw [noPart, List.append_nil], by rw [same, noPart, noAfter]; simp⟩

end Text

namespace Mac

/-! ## Markers on their lines -/

/-- The line with the number, counted from one, holds the tag right behind a delimiter. -/
structure ShownOn (text : Text) (line : Nat) (tag : Tag) : Prop where
  pos : 1 ≤ line
  le_length : line ≤ (linesOf text).length
  marked : ∃ shown ∈ (linesOf text)[line - 1]?, ∃ c, isDelimiter c = true ∧ c :: tag.text <:+: shown

theorem shownOn_of_mem_sightings {text : Text} {seen : Sighting} (member : seen ∈ sightings text) :
    ShownOn text seen.line seen.tag := by
  obtain ⟨before, marker, later, pieces, sameTag, sameLine⟩ :=
    exists_lineNumber_of_mem_sightings member
  have inScan : Piece.marker marker ∈ scan Tag.texts text := pieces ▸ by simp
  obtain ⟨_, _, here⟩ := exists_markerAt?_of_mem_scan inScan
  obtain ⟨nonempty, isRun, _⟩ := leadAndTag?_sound (markerAt?_eq_some_iff.mp here).1
  obtain ⟨run, c, lead⟩ := (List.eq_nil_or_concat marker.lead).resolve_left nonempty
  rw [List.concat_eq_append] at lead
  have delimiter : isDelimiter c = true := isRun c (by simp [lead])
  have whole : '\n' ∉ c :: marker.tag := by
    have parts := not_mem_text_of_mem_scan parts_lineFeed inScan
    simp only [Marker.text, lead, List.mem_append, not_or] at parts
    simpa using ⟨by simpa using parts.1.1.2, parts.1.2⟩
  let passed := before.flatMap Piece.text ++ run
  let rest := marker.trail ++ later.flatMap Piece.text
  have split : text = passed ++ c :: marker.tag ++ rest := by
    rw [← flatMap_text_scan Tag.texts text, pieces]
    simp [passed, rest, Piece.text, Marker.text, lead]
  -- The last delimiter of the lead is shown with the tag, and it is no line feed.
  have line : seen.line = passed.count '\n' + 1 := by
    have plain : c ≠ '\n' := fun lineFeed => whole (by simp [lineFeed])
    have behind : text = before.flatMap Piece.text ++ marker.lead ++ (marker.tag ++ rest) := by
      rw [split, lead]
      simp [passed]
    rw [sameLine, behind, Text.lineNumber_append, lead]
    simp [passed, plain]
  obtain ⟨shown, onLine, within⟩ := exists_line_of_append passed whole rest
  rw [← split] at onLine
  rw [line]
  refine ⟨Nat.le_add_left 1 _, (List.getElem?_eq_some_iff.mp onLine).1, shown, onLine, c,
    delimiter, ?_⟩
  rwa [← sameTag]

/-! ## Sites that a report names -/

theorem reverse_foldl_advance_sublist (seen : List Sighting) :
    (seen.foldl advance []).reverse.Sublist (seen.filterMap Sighting.opener?) := by
  induction seen using List.reverseRecOn with
  | nil => exact List.Sublist.slnil
  | append_singleton seen sighting ih =>
    rw [List.foldl_concat, List.filterMap_append]
    obtain ⟨region | region, line⟩ := sighting
    · rw [advance, List.reverse_cons]
      exact ih.append (List.Sublist.refl _)
    · refine List.Sublist.trans ?_ (ih.trans (List.sublist_append_left _ _))
      cases seen.foldl advance [] with
      | nil => exact List.Sublist.refl _
      | cons innermost outer =>
        rw [advance]
        split
        · exact (List.sublist_cons_self innermost outer).reverse
        · exact List.Sublist.refl _

theorem mem_sightings_of_opener? {seen : List Sighting} {site : Site}
    (member : site ∈ seen.filterMap Sighting.opener?) :
    ⟨.opens site.region, site.line⟩ ∈ seen := by
  obtain ⟨⟨region | region, line⟩, sighted, same⟩ := List.mem_filterMap.mp member
  · cases same
    exact sighted
  · cases same

theorem shownOn_of_mem_opened {text : Text} {before later : List Sighting}
    (split : sightings text = before ++ later) {site : Site}
    (member : site ∈ before.foldl advance []) : ShownOn text site.line (.opens site.region) := by
  have opener : site ∈ before.filterMap Sighting.opener? :=
    (reverse_foldl_advance_sublist before).subset (List.mem_reverse.mpr member)
  have sighted : ⟨.opens site.region, site.line⟩ ∈ sightings text := by
    rw [split]
    exact List.mem_append_left later (mem_sightings_of_opener? opener)
  exact shownOn_of_mem_sightings sighted

namespace Imbalance

def quoted? : Imbalance → Option Site
  | .nested _ outer => some outer
  | .unopened _ => none
  | .mismatched _ innermost => some innermost
  | .unclosed _ => none

/-- The report is made at the end of the document, and not where its marker stands. -/
def isUnclosed : Imbalance → Bool
  | .unclosed _ => true
  | _ => false

end Imbalance

theorem noDigit_text (tag : Tag) : Text.NoDigit tag.text := by
  rcases tag with ⟨_ | _ | _⟩ | ⟨_ | _ | _⟩ <;> decide

theorem Imbalance.message_eq (imbalance : Imbalance) : ∃ words, Text.NoDigit words ∧
    imbalance.message = words ++ imbalance.quoted?.elim [] (Text.decimal ·.line) ∧
    ∀ site ∈ imbalance.quoted?,
      Text.ticked (Tag.opens site.region).text ++ " on line ".toList <:+ words := by
  have named (tag : Tag) : Text.NoDigit (Text.ticked tag.text) := (noDigit_text tag).ticked
  cases imbalance with
  | nested opener outer =>
    refine ⟨Text.ticked (Tag.opens opener.region).text ++
      " opens a block comment inside the block comment opened by ".toList ++
      (Text.ticked (Tag.opens outer.region).text ++ " on line ".toList), ?_, ?_, ?_⟩
    · exact ((named _).append (by decide)).append ((named _).append (by decide))
    · simp [message, quoted?, tag]
    · rintro _ ⟨⟩
      exact List.suffix_append _ _
  | unopened closer =>
    exact ⟨Text.ticked (Tag.closes closer.region).text ++
      " without a preceding opening marker".toList, (named _).append (by decide),
      (List.append_nil _).symm, by rintro _ ⟨⟩⟩
  | mismatched closer innermost =>
    refine ⟨Text.ticked (Tag.closes closer.region).text ++ " where ".toList ++
      Text.ticked (Tag.closes innermost.region).text ++ " was expected to close ".toList ++
      (Text.ticked (Tag.opens innermost.region).text ++ " on line ".toList), ?_, ?_, ?_⟩
    · exact ((((named _).append (by decide)).append (named _)).append (by decide)).append
        ((named _).append (by decide))
    · simp [message, quoted?, tag]
    · rintro _ ⟨⟩
      exact List.suffix_append _ _
  | unclosed opener =>
    exact ⟨Text.ticked (Tag.opens opener.region).text ++ (" never closed by ".toList ++
      Text.ticked (Tag.closes opener.region).text),
      (named _).append (Text.NoDigit.append (by decide) (named _)), (List.append_nil _).symm,
      by rintro _ ⟨⟩⟩

theorem Imbalance.of_quotes {imbalance : Imbalance} {before : Text} {number : Nat}
    (quotes : Text.Quotes imbalance.message before number) : ∃ site ∈ imbalance.quoted?,
      number = site.line ∧
      Text.ticked (Tag.opens site.region).text ++ " on line ".toList <:+ before := by
  obtain ⟨words, noDigit, message, named⟩ := imbalance.message_eq
  rw [message] at quotes
  cases quoted : imbalance.quoted? with
  | none =>
    have numberless := (quotes.eq_of_noDigit noDigit (by simp [quoted])).2
    rw [quoted] at numberless
    exact absurd numberless.symm (Text.decimal_ne_nil number)
  | some site =>
    rw [quoted] at quotes
    obtain ⟨rfl, sameLine⟩ := quotes.eq_of_noDigit noDigit fun _ => Text.isDigit_of_mem_decimal
    exact ⟨site, rfl, (Text.decimal_injective sameLine).symm, named site quoted⟩

theorem of_noticed? {opened : List Site} {sighting : Sighting} {imbalance : Imbalance}
    (found : noticed? (opened, sighting) = some imbalance) :
    imbalance.line = sighting.line ∧ imbalance.tag = sighting.tag ∧
      imbalance.isUnclosed = false ∧ ∀ site ∈ imbalance.quoted?, site ∈ opened := by
  obtain ⟨region | region, line⟩ := sighting
  · rw [noticed?] at found
    split at found
    next =>
      obtain ⟨outer, open_, rfl⟩ := Option.map_eq_some_iff.mp found
      refine ⟨rfl, rfl, rfl, ?_⟩
      rintro _ ⟨⟩
      exact List.mem_reverse.mp (List.mem_of_find?_eq_some open_)
    next => cases found
  · cases opened with
    | nil =>
      cases found
      exact ⟨rfl, rfl, rfl, by rintro _ ⟨⟩⟩
    | cons innermost outer =>
      rw [noticed?] at found
      split at found
      next => cases found
      next =>
        cases found
        refine ⟨rfl, rfl, rfl, ?_⟩
        rintro _ ⟨⟩
        exact List.mem_cons_self

/-! ## The order of the lines -/

theorem pairwise_sightingsFrom (line : Nat) (pieces : List Piece) :
    (∀ seen ∈ sightingsFrom line pieces, line ≤ seen.line) ∧
      ((sightingsFrom line pieces).map Sighting.line).Pairwise (· ≤ ·) := by
  induction pieces generalizing line with
  | nil => exact ⟨nofun, List.Pairwise.nil⟩
  | cons piece pieces ih =>
    cases piece with
    | plain c =>
      obtain ⟨bounded, ordered⟩ := ih (if c = '\n' then line + 1 else line)
      refine ⟨fun seen member => le_trans ?_ (bounded seen member), ordered⟩
      split <;> omega
    | marker marker =>
      obtain ⟨bounded, ordered⟩ := ih (line + marker.text.count '\n')
      have later : ∀ seen ∈ sightingsFrom (line + marker.text.count '\n') pieces,
          line ≤ seen.line := fun seen member => le_trans (Nat.le_add_right _ _) (bounded seen member)
      rw [sightingsFrom]
      split
      next tag known =>
        refine ⟨List.forall_mem_cons.mpr ⟨le_rfl, later⟩, ?_⟩
        rw [List.map_cons, List.pairwise_cons]
        exact ⟨List.forall_mem_map.mpr later, ordered⟩
      next => exact ⟨later, ordered⟩

theorem pairwise_noticed (text : Text) :
    (((courseFrom advance [] (sightings text)).filterMap noticed?).map Imbalance.line).Pairwise
      (· ≤ ·) := by
  have ordered := (pairwise_sightingsFrom 1 (scan Tag.texts text)).2
  rw [← sightings, ← map_snd_courseFrom advance [] (sightings text), List.map_map,
    List.pairwise_map] at ordered
  rw [List.pairwise_map]
  refine ordered.filterMap noticed? fun first second before one noticed other noticedLater => ?_
  rw [(of_noticed? noticed).1, (of_noticed? noticedLater).1]
  exact before

theorem pairwise_unclosed (text : Text) :
    (((sightings text).foldl advance []).reverse.map Site.line).Pairwise (· ≤ ·) := by
  have ordered := (pairwise_sightingsFrom 1 (scan Tag.texts text)).2
  rw [← sightings, List.pairwise_map] at ordered
  refine List.Pairwise.sublist ((reverse_foldl_advance_sublist _).map Site.line) ?_
  rw [List.pairwise_map]
  refine ordered.filterMap Sighting.opener? fun first second before one opens other opensLater => ?_
  obtain ⟨_ | _, _⟩ := first <;> obtain ⟨_ | _, _⟩ := second <;> cases opens <;> cases opensLater
  exact before

/-- Every report points to a line of the document on which the tag that it names stands behind a
delimiter, and so does every number in a message, for the opening marker named right before it.
The reports made on the way and those made at the end are each in the order of their lines. -/
theorem imbalances_on_lines (text : Text) :
    (∀ imbalance ∈ imbalances text, ShownOn text imbalance.line imbalance.tag ∧
      ∀ before number, Text.Quotes imbalance.message before number → ∃ region,
        Text.ticked (Tag.opens region).text ++ " on line ".toList <:+ before ∧
        ShownOn text number (.opens region)) ∧
    (((imbalances text).filter (!·.isUnclosed)).map Imbalance.line).Pairwise (· ≤ ·) ∧
    (((imbalances text).filter (·.isUnclosed)).map Imbalance.line).Pairwise (· ≤ ·) := by
  have noneUnclosed : ∀ imbalance ∈ (courseFrom advance [] (sightings text)).filterMap noticed?,
      imbalance.isUnclosed = false := by
    intro imbalance member
    obtain ⟨_, _, noticed⟩ := List.mem_filterMap.mp member
    exact (of_noticed? noticed).2.2.1
  refine ⟨fun imbalance member => ?_, ?_, ?_⟩
  · rw [imbalances, imbalancesFrom_eq, List.mem_append] at member
    rcases member with member | member
    · obtain ⟨⟨opened, sighting⟩, made, noticed⟩ := List.mem_filterMap.mp member
      obtain ⟨sameLine, sameTag, _, quotedOpen⟩ := of_noticed? noticed
      obtain ⟨before, later, split, same⟩ := exists_append_of_mem_courseFrom _ made
      refine ⟨?_, fun words number quotes => ?_⟩
      · rw [sameLine, sameTag]
        exact shownOn_of_mem_sightings (split ▸ by simp)
      · obtain ⟨site, quoted, rfl, named⟩ := Imbalance.of_quotes quotes
        have open_ : site ∈ before.foldl advance [] := same ▸ quotedOpen site quoted
        exact ⟨site.region, named, shownOn_of_mem_opened split open_⟩
    · obtain ⟨site, left, rfl⟩ := List.mem_map.mp member
      refine ⟨shownOn_of_mem_opened (List.append_nil _).symm (List.mem_reverse.mp left),
        fun words number quotes => ?_⟩
      obtain ⟨_, quoted, _⟩ := Imbalance.of_quotes quotes
      cases quoted
  · rw [imbalances, imbalancesFrom_eq, List.filter_append, List.filter_eq_self.mpr
      (fun imbalance member => by rw [noneUnclosed imbalance member]; rfl), List.filter_map]
    simpa [Function.comp_def, Imbalance.isUnclosed] using pairwise_noticed text
  · rw [imbalances, imbalancesFrom_eq, List.filter_append, List.filter_eq_nil_iff.mpr
      (fun imbalance member => by rw [noneUnclosed imbalance member]; simp), List.filter_map]
    simpa [Function.comp_def, Imbalance.isUnclosed, Imbalance.line] using pairwise_unclosed text

/-- A report made on line 4 quotes line 3; carriage returns count for nothing. -/
theorem imbalances_on_lines_quoted :
    let text := "a\r*\n*IF-MAC*/ b\r\n*IF-NOT-MAC\n/END-MAC\n\n/ELSE-IF-MAC".toList
    let imbalance : Imbalance := .mismatched ⟨.mac, 4⟩ ⟨.notMac, 3⟩
    let before := "`END-MAC` where `END-NOT-MAC` was expected to close `IF-NOT-MAC` on line ".toList
    imbalance ∈ imbalances text ∧ ShownOn text 4 (.closes .mac) ∧
      Text.Quotes imbalance.message before 3 ∧
      (∃ region, Text.ticked (Tag.opens region).text ++ " on line ".toList <:+ before ∧
        ShownOn text 3 (.opens region)) ∧
      (imbalances text).map (fun found => (found.isUnclosed, found.line)) =
        [(false, 4), (false, 6), (true, 2), (true, 3), (true, 6)] := by
  intro text imbalance before
  have reported : imbalance ∈ imbalances text := by decide
  have ends : ∀ c ∈ before.getLast?, c.isDigit = false := by
    rintro _ ⟨⟩
    rfl
  have quotes : Text.Quotes imbalance.message before 3 := ⟨[], rfl, ends, nofun⟩
  obtain ⟨here, quoted⟩ := (imbalances_on_lines text).1 imbalance reported
  exact ⟨reported, here, quotes, quoted before 3 quotes, by decide⟩

end Mac

end PlatformMarkers
