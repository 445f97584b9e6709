import PlatformMarkers.Proofs.History
import PlatformMarkers.Proofs.Reports
import PlatformMarkers.Text.Line
import Mathlib.Data.Finset.Insert
import Mathlib.Data.List.Induction

/-! The markers of a document in pairs. Each closing marker that matches makes a pair with the
innermost opening marker still open, and the imbalances are told from these pairs alone: every
marker outside of them is reported once, and so is a block comment opened inside another one. -/

set_option autoImplicit false

namespace PlatformMarkers.Mac

/-! ## The markers and their lines -/

def tagLine? : Text × Piece → Option (Text × Nat)
  | (_, .plain _) => none
  | (passed, .marker marker) => some (marker.tag, (passed ++ marker.lead).count '\n' + 1)

/-- The tags of the markers of a text, each with the number of the line on which it stands. -/
def tagLines (text : Text) : List (Text × Nat) :=
  (courseFrom (fun passed piece => passed ++ piece.text) [] (scan Tag.texts text)).filterMap
    tagLine?

theorem map_sightingsFrom {pieces : List Piece}
    (known : ∀ marker, .marker marker ∈ pieces → marker.tag ∈ Tag.texts)
    (whole : ∀ marker, .marker marker ∈ pieces → '\n' ∉ marker.text) (passed : Text) :
    (sightingsFrom (passed.count '\n' + 1) pieces).map (fun seen => (seen.tag.text, seen.line)) =
      (courseFrom (fun passed piece => passed ++ piece.text) passed pieces).filterMap tagLine? := by
  induction pieces generalizing passed with
  | nil => rfl
  | cons piece pieces ih =>
    have later := ih (fun marker member => known marker (List.mem_cons_of_mem _ member))
      (fun marker member => whole marker (List.mem_cons_of_mem _ member)) (passed ++ piece.text)
    rw [List.count_append] at later
    rw [courseFrom, List.filterMap_cons, ← later]
    cases piece with
    | plain c =>
      by_cases lineFeed : c = '\n' <;>
        simp [sightingsFrom, tagLine?, Piece.text, lineFeed]
    | marker marker =>
      obtain ⟨tag, _, same⟩ := List.mem_map.mp (known marker List.mem_cons_self)
      have here : '\n' ∉ marker.text := whole marker List.mem_cons_self
      have lead : marker.lead.count '\n' = 0 :=
        List.count_eq_zero.mpr fun inside => here (by simp [Marker.text, inside])
      rw [sightingsFrom_marker here, ← same, Tag.ofText?_text]
      simp [tagLine?, Piece.text, same, lead, List.count_eq_zero.mpr here]

theorem map_sightings (text : Text) :
    (sightings text).map (fun seen => (seen.tag.text, seen.line)) = tagLines text :=
  map_sightingsFrom (fun _ => mem_tags_of_mem_scan)
    (fun _ => not_mem_text_of_mem_scan parts_lineFeed) []

/-- A marker is sighted on the line of the text that the place of its tag lies on. -/
theorem exists_lineNumber_of_mem_sightings {text : Text} {seen : Sighting}
    (member : seen ∈ sightings text) : ∃ before marker later,
      scan Tag.texts text = before ++ .marker marker :: later ∧ marker.tag = seen.tag.text ∧
      seen.line = text.lineNumber (before.flatMap Piece.text ++ marker.lead).length := by
  have located : (seen.tag.text, seen.line) ∈ tagLines text :=
    map_sightings text ▸ List.mem_map_of_mem member
  obtain ⟨⟨passed, piece⟩, made, found⟩ := List.mem_filterMap.mp located
  obtain ⟨before, later, pieces, same⟩ := exists_append_of_mem_courseFrom _ made
  cases piece with
  | plain c => cases found
  | marker marker =>
    obtain ⟨sameTag, sameLine⟩ := Prod.mk.inj (Option.some.inj found)
    refine ⟨before, marker, later, pieces, sameTag, ?_⟩
    have passes : before.flatMap Piece.text = passed := by
      rw [List.flatMap_eq_foldl, show passed = _ from same]
    have split : text = passed ++ marker.lead ++
        (marker.tag ++ marker.trail ++ later.flatMap Piece.text) := by
      rw [← flatMap_text_scan Tag.texts text, pieces, List.flatMap_append, passes]
      simp [Piece.text, Marker.text]
    rw [passes, split, Text.lineNumber_append, ← sameLine]

/-! ## One marker after another -/

def advance (opened : List Site) : Sighting → List Site
  | ⟨.opens region, line⟩ => ⟨region, line⟩ :: opened
  | ⟨.closes region, _⟩ =>
    match opened with
    | [] => []
    | innermost :: outer => if region = innermost.region then outer else innermost :: outer

def noticed? : List Site × Sighting → Option Imbalance
  | (opened, ⟨.opens region, line⟩) =>
    if region.isBlock then (outermostBlock? opened).map (.nested ⟨region, line⟩) else none
  | ([], ⟨.closes region, line⟩) => some (.unopened ⟨region, line⟩)
  | (innermost :: _, ⟨.closes region, line⟩) =>
    if region = innermost.region then none else some (.mismatched ⟨region, line⟩ innermost)

theorem imbalancesFrom_eq (opened : List Site) (seen : List Sighting) :
    imbalancesFrom opened seen =
      (courseFrom advance opened seen).filterMap noticed? ++
        (seen.foldl advance opened).reverse.map .unclosed := by
  induction seen generalizing opened with
  | nil => simp [imbalancesFrom, courseFrom]
  | cons sighting seen ih =>
    obtain ⟨region | region, line⟩ := sighting
    · simp only [imbalancesFrom, courseFrom, List.filterMap_cons, List.foldl_cons, advance,
        noticed?, ih]
      cases outermostBlock? opened <;> cases region.isBlock <;> simp
    · cases opened with
      | nil => simp [imbalancesFrom, courseFrom, advance, noticed?, ih]
      | cons innermost outer =>
        by_cases same : region = innermost.region <;>
          simp [imbalancesFrom, courseFrom, advance, noticed?, ih, same]

section
variable {opened : List Site} {region : Region} {line : Nat}
  (stray : ∀ innermost ∈ opened.head?, region ≠ innermost.region)
include stray

theorem advance_of_stray : advance opened ⟨.closes region, line⟩ = opened := by
  cases opened with
  | nil => rfl
  | cons innermost outer => exact if_neg (stray innermost rfl)

theorem noticed?_of_stray : noticed? (opened, ⟨.closes region, line⟩) =
    some (opened.head?.elim (.unopened ⟨region, line⟩) (.mismatched ⟨region, line⟩)) := by
  cases opened with
  | nil => rfl
  | cons innermost outer => exact if_neg (stray innermost rfl)

end

/-! ## Markers by their positions -/

def Sighting.opener? : Sighting → Option Site
  | ⟨.opens region, line⟩ => some ⟨region, line⟩
  | ⟨.closes _, _⟩ => none

def Sighting.closer? : Sighting → Option Site
  | ⟨.opens _, _⟩ => none
  | ⟨.closes region, line⟩ => some ⟨region, line⟩

def openerAt? (seen : List Sighting) (position : Nat) : Option Site :=
  seen[position]?.bind Sighting.opener?

def closerAt? (seen : List Sighting) (position : Nat) : Option Site :=
  seen[position]?.bind Sighting.closer?

/-- Pairs of the position of an opening marker and that of its closing marker. -/
abbrev Pairs := Finset (Nat × Nat)

def ClosedBefore (pairs : Pairs) (opener position : Nat) : Prop :=
  ∃ pair ∈ pairs, pair.1 = opener ∧ pair.2 < position

instance (pairs : Pairs) (opener position : Nat) : Decidable (ClosedBefore pairs opener position) :=
  inferInstanceAs (Decidable (∃ pair ∈ pairs, pair.1 = opener ∧ pair.2 < position))

/-- The positions of the opening markers that are still open at the position, outermost first. -/
def openBefore (seen : List Sighting) (pairs : Pairs) (position : Nat) : List Nat :=
  (List.range position).filter fun opener =>
    (openerAt? seen opener).isSome ∧ ¬ ClosedBefore pairs opener position

def openSites (seen : List Sighting) (pairs : Pairs) (position : Nat) : List Site :=
  (openBefore seen pairs position).filterMap (openerAt? seen)

structure Pairing (seen : List Sighting) (pairs : Pairs) : Prop where
  matched : ∀ i j, (i, j) ∈ pairs → i < j ∧ ∃ opener closer, openerAt? seen i = some opener ∧
    closerAt? seen j = some closer ∧ closer.region = opener.region
  disjoint : ∀ i j k l, (i, j) ∈ pairs → (k, l) ∈ pairs → (i, j) ≠ (k, l) →
    i ≠ k ∧ i ≠ l ∧ j ≠ k ∧ j ≠ l
  uncrossed : ∀ i j k l, (i, j) ∈ pairs → (k, l) ∈ pairs → ¬ (i < k ∧ k < j ∧ j < l)
  /-- An opening marker inside a pair belongs to a pair itself. -/
  enclosed : ∀ i j k, (i, j) ∈ pairs → i < k → k < j → (openerAt? seen k).isSome →
    ∃ l, (k, l) ∈ pairs

/-- What the pairs tell of the marker at the position: a closing marker outside of them does not
match the innermost marker still open, or finds none, and a block comment is opened inside the
earliest one still open. -/
def reportAt? (seen : List Sighting) (pairs : Pairs) (position : Nat) : Option Imbalance :=
  match seen[position]? with
  | none => none
  | some ⟨.opens region, line⟩ =>
    if region.isBlock then
      ((openSites seen pairs position).find? (·.region.isBlock)).map (.nested ⟨region, line⟩)
    else none
  | some ⟨.closes region, line⟩ =>
    if ∃ pair ∈ pairs, pair.2 = position then none
    else
      match (openSites seen pairs position).getLast? with
      | none => some (.unopened ⟨region, line⟩)
      | some innermost => some (.mismatched ⟨region, line⟩ innermost)

def unpairedOpeners (seen : List Sighting) (pairs : Pairs) : List Nat :=
  (List.range seen.length).filter fun opener =>
    (openerAt? seen opener).isSome ∧ ¬ ∃ pair ∈ pairs, pair.1 = opener

/-! ## One more marker at the end -/

theorem openerAt?_append {seen later : List Sighting} {position : Nat}
    (inside : position < seen.length) :
    openerAt? (seen ++ later) position = openerAt? seen position := by
  rw [openerAt?, openerAt?, List.getElem?_append_left inside]

theorem closerAt?_append {seen later : List Sighting} {position : Nat}
    (inside : position < seen.length) :
    closerAt? (seen ++ later) position = closerAt? seen position := by
  rw [closerAt?, closerAt?, List.getElem?_append_left inside]

theorem openerAt?_last (seen : List Sighting) (sighting : Sighting) :
    openerAt? (seen ++ [sighting]) seen.length = sighting.opener? := by
  simp [openerAt?]

theorem closerAt?_last (seen : List Sighting) (sighting : Sighting) :
    closerAt? (seen ++ [sighting]) seen.length = sighting.closer? := by
  simp [closerAt?]

theorem closerAt?_eq_none {seen : List Sighting} {position : Nat}
    (opens : (openerAt? seen position).isSome) : closerAt? seen position = none := by
  rw [openerAt?] at opens
  rw [closerAt?]
  generalize seen[position]? = found at opens ⊢
  obtain _ | ⟨_ | _, _⟩ := found
  · rfl
  · rfl
  · cases opens

theorem mem_unpairedOpeners_iff {seen : List Sighting} {pairs : Pairs} {opener : Nat} :
    opener ∈ unpairedOpeners seen pairs ↔ opener < seen.length ∧
      (openerAt? seen opener).isSome ∧ ¬ ∃ pair ∈ pairs, pair.1 = opener := by
  simp [unpairedOpeners]

theorem pairwise_unpairedOpeners (seen : List Sighting) (pairs : Pairs) :
    (unpairedOpeners seen pairs).Pairwise (· < ·) :=
  List.pairwise_lt_range.filter _

theorem lt_innermost {seen : List Sighting} {pairs : Pairs} {opener other : Nat} {outer : List Nat}
    (innermost : unpairedOpeners seen pairs = outer ++ [opener]) (member : other ∈ outer) :
    other < opener := by
  have ordered := pairwise_unpairedOpeners seen pairs
  rw [innermost, List.pairwise_append] at ordered
  exact ordered.2.2 other member opener List.mem_cons_self

theorem unpairedOpeners_insert {seen : List Sighting} {sighting : Sighting} {pairs : Pairs}
    {opener : Nat} {outer : List Nat}
    (innermost : unpairedOpeners seen pairs = outer ++ [opener])
    (closes : sighting.opener? = none) :
    unpairedOpeners (seen ++ [sighting]) (insert (opener, seen.length) pairs) = outer := by
  have last : [seen.length].filter (fun other =>
      (openerAt? (seen ++ [sighting]) other).isSome ∧
        ¬ ∃ pair ∈ insert (opener, seen.length) pairs, pair.1 = other) = [] := by
    simp [openerAt?_last, closes]
  have remaining : (unpairedOpeners seen pairs).filter (· ≠ opener) = outer := by
    rw [innermost, List.filter_append, List.filter_eq_self.mpr]
    · simp
    · intro other member
      simpa using Nat.ne_of_lt (lt_innermost innermost member)
  rw [unpairedOpeners, List.length_append, List.length_singleton, List.range_succ,
    List.filter_append, last, List.append_nil, ← remaining, unpairedOpeners, List.filter_filter]
  refine List.filter_congr fun other inside => ?_
  rw [openerAt?_append (List.mem_range.mp inside)]
  simp only [Finset.exists_mem_insert]
  grind

namespace Pairing

variable {seen : List Sighting} {sighting : Sighting} {pairs : Pairs}
  (pairing : Pairing seen pairs)
include pairing

theorem lt_length {i j : Nat} (member : (i, j) ∈ pairs) : i < j ∧ j < seen.length := by
  obtain ⟨ordered, _, closer, _, found, _⟩ := pairing.matched i j member
  refine ⟨ordered, ?_⟩
  by_contra outside
  rw [closerAt?, List.getElem?_eq_none (Nat.le_of_not_lt outside)] at found
  cases found

theorem openBefore_length : openBefore seen pairs seen.length = unpairedOpeners seen pairs := by
  refine List.filter_congr fun opener _ => ?_
  have closed : ClosedBefore pairs opener seen.length ↔ ∃ pair ∈ pairs, pair.1 = opener :=
    exists_congr fun pair => and_congr_right fun member =>
      and_iff_left (pairing.lt_length member).2
  simp only [closed]

theorem unpairedOpeners_append : unpairedOpeners (seen ++ [sighting]) pairs =
    unpairedOpeners seen pairs ++ if sighting.opener?.isSome then [seen.length] else [] := by
  have fresh : ¬ ∃ pair ∈ pairs, pair.1 = seen.length := by
    rintro ⟨pair, member, same⟩
    have := pairing.lt_length member
    omega
  have last : [seen.length].filter (fun other =>
      (openerAt? (seen ++ [sighting]) other).isSome ∧ ¬ ∃ pair ∈ pairs, pair.1 = other) =
        if sighting.opener?.isSome then [seen.length] else [] := by
    simp only [List.filter_cons, openerAt?_last, fresh, not_false_iff, and_true, List.filter_nil,
      decide_eq_true_eq]
  rw [unpairedOpeners, List.length_append, List.length_singleton, List.range_succ,
    List.filter_append, last, unpairedOpeners]
  refine congrArg (· ++ _) (List.filter_congr fun other inside => ?_)
  rw [openerAt?_append (List.mem_range.mp inside)]

theorem append : Pairing (seen ++ [sighting]) pairs where
  matched i j member := by
    obtain ⟨ordered, opener, closer, opens, closes, same⟩ := pairing.matched i j member
    obtain ⟨_, inside⟩ := pairing.lt_length member
    refine ⟨ordered, opener, closer, ?_, ?_, same⟩
    · rw [openerAt?_append (Nat.lt_trans ordered inside), opens]
    · rw [closerAt?_append inside, closes]
  disjoint := pairing.disjoint
  uncrossed := pairing.uncrossed
  enclosed i j k member after before opener := by
    have inside := (pairing.lt_length member).2
    rw [openerAt?_append (Nat.lt_trans before inside)] at opener
    exact pairing.enclosed i j k member after before opener

theorem apart {opener : Nat} (left : opener ∈ unpairedOpeners seen pairs) {i j : Nat}
    (pair : (i, j) ∈ pairs) :
    opener ≠ i ∧ opener ≠ j ∧ seen.length ≠ i ∧ seen.length ≠ j := by
  obtain ⟨_, opens, alone⟩ := mem_unpairedOpeners_iff.mp left
  obtain ⟨ordered, bounded⟩ := pairing.lt_length pair
  refine ⟨?_, ?_, by omega, by omega⟩
  · rintro rfl
    exact alone ⟨_, pair, rfl⟩
  · rintro rfl
    obtain ⟨_, _, _, _, closes, _⟩ := pairing.matched i opener pair
    rw [closerAt?_eq_none opens] at closes
    cases closes

theorem not_inside {opener : Nat} (left : opener ∈ unpairedOpeners seen pairs) {i j : Nat}
    (pair : (i, j) ∈ pairs) : ¬ (i < opener ∧ opener < j) := by
  rintro ⟨after, before⟩
  obtain ⟨_, opens, alone⟩ := mem_unpairedOpeners_iff.mp left
  obtain ⟨l, paired⟩ := pairing.enclosed i j opener pair after before opens
  exact alone ⟨_, paired, rfl⟩

omit pairing in
theorem exists_pair_of_lt {opener : Nat} {outer : List Nat}
    (innermost : unpairedOpeners seen pairs = outer ++ [opener]) {k : Nat} (after : opener < k)
    (before : k < seen.length) (opens : (openerAt? seen k).isSome) : ∃ l, (k, l) ∈ pairs := by
  by_contra alone
  have left : k ∈ outer ++ [opener] := by
    rw [← innermost, mem_unpairedOpeners_iff]
    refine ⟨before, opens, ?_⟩
    rintro ⟨⟨_, l⟩, paired, rfl⟩
    exact alone ⟨l, paired⟩
  rcases List.mem_append.mp left with earlier | last
  · have := lt_innermost innermost earlier
    omega
  · have := List.mem_singleton.mp last
    omega

theorem insert {opener : Nat} {outer : List Nat} {site closer : Site}
    (innermost : unpairedOpeners seen pairs = outer ++ [opener])
    (opens : openerAt? seen opener = some site) (closes : sighting.closer? = some closer)
    (same : closer.region = site.region) :
    Pairing (seen ++ [sighting]) (insert (opener, seen.length) pairs) := by
  have left : opener ∈ unpairedOpeners seen pairs := innermost ▸ List.mem_concat_self
  have inside := (mem_unpairedOpeners_iff.mp left).1
  have extended : Pairing (seen ++ [sighting]) pairs := pairing.append
  refine ⟨fun i j pair => ?_, fun i j k l first second different => ?_,
    fun i j k l first second crossed => ?_, fun i j k pair after before opens => ?_⟩
  · rcases Finset.mem_insert.mp pair with new | old
    · cases new
      refine ⟨inside, site, closer, ?_, ?_, same⟩
      · rw [openerAt?_append inside, opens]
      · rw [closerAt?_last, closes]
    · exact extended.matched i j old
  · rcases Finset.mem_insert.mp first with newFirst | oldFirst <;>
      rcases Finset.mem_insert.mp second with newSecond | oldSecond
    · exact absurd (newFirst.trans newSecond.symm) different
    · cases newFirst
      exact pairing.apart left oldSecond
    · cases newSecond
      obtain ⟨notOpener, notCloser, notFirst, notLast⟩ := pairing.apart left oldFirst
      exact ⟨notOpener.symm, notFirst.symm, notCloser.symm, notLast.symm⟩
    · exact pairing.disjoint i j k l oldFirst oldSecond different
  · rcases Finset.mem_insert.mp first with newFirst | oldFirst <;>
      rcases Finset.mem_insert.mp second with newSecond | oldSecond
    · cases newFirst.trans newSecond.symm
      omega
    · cases newFirst
      have := pairing.lt_length oldSecond
      omega
    · cases newSecond
      exact pairing.not_inside left oldFirst ⟨crossed.1, crossed.2.1⟩
    · exact pairing.uncrossed i j k l oldFirst oldSecond crossed
  · rcases Finset.mem_insert.mp pair with new | old
    · cases new
      rw [openerAt?_append before] at opens
      obtain ⟨l, paired⟩ := exists_pair_of_lt innermost after before opens
      exact ⟨l, Finset.mem_insert_of_mem paired⟩
    · obtain ⟨l, paired⟩ := extended.enclosed i j k old after before opens
      exact ⟨l, Finset.mem_insert_of_mem paired⟩

end Pairing

/-! ## The account of the markers -/

section
variable {seen : List Sighting} {sighting : Sighting} {pairs wider : Pairs}

theorem filterMap_openerAt?_append {positions : List Nat}
    (inside : ∀ position ∈ positions, position < seen.length) :
    positions.filterMap (openerAt? (seen ++ [sighting])) = positions.filterMap (openerAt? seen) :=
  List.filterMap_congr fun position member => openerAt?_append (inside position member)

section
variable (agree : ∀ pair : Nat × Nat, pair.2 < seen.length → (pair ∈ wider ↔ pair ∈ pairs))
include agree

theorem openSites_append {position : Nat} (early : position ≤ seen.length) :
    openSites (seen ++ [sighting]) wider position = openSites seen pairs position := by
  have positions : openBefore (seen ++ [sighting]) wider position =
      openBefore seen pairs position := by
    refine List.filter_congr fun opener member => ?_
    have before := List.mem_range.mp member
    have closed : ClosedBefore wider opener position ↔ ClosedBefore pairs opener position :=
      exists_congr fun pair => and_congr_left fun ⟨_, low⟩ =>
        agree pair (Nat.lt_of_lt_of_le low early)
    rw [openerAt?_append (Nat.lt_of_lt_of_le before early)]
    simp only [closed]
  rw [openSites, positions, openSites]
  refine filterMap_openerAt?_append fun opener member => ?_
  have before := List.mem_range.mp (List.mem_filter.mp member).1
  omega

theorem reportAt?_append {position : Nat} (before : position < seen.length) :
    reportAt? (seen ++ [sighting]) wider position = reportAt? seen pairs position := by
  have closer : (∃ pair ∈ wider, pair.2 = position) ↔ ∃ pair ∈ pairs, pair.2 = position :=
    exists_congr fun pair => and_congr_left fun same => agree pair (same ▸ before)
  simp only [reportAt?, List.getElem?_append_left before,
    openSites_append agree (Nat.le_of_lt before), closer]

end

/-- The pairs give the sites that the markers leave open and all that is reported on the way. -/
structure Accounts (seen : List Sighting) (pairs : Pairs) : Prop where
  pairing : Pairing seen pairs
  opened : seen.foldl advance [] = (openSites seen pairs seen.length).reverse
  noticed : (courseFrom advance [] seen).filterMap noticed? =
    (List.range seen.length).filterMap (reportAt? seen pairs)

namespace Accounts

theorem nil : Accounts [] ∅ := ⟨⟨nofun, nofun, nofun, nofun⟩, rfl, rfl⟩

variable (accounts : Accounts seen pairs)
include accounts

theorem extend (agree : ∀ pair : Nat × Nat, pair.2 < seen.length → (pair ∈ wider ↔ pair ∈ pairs))
    (pairing : Pairing (seen ++ [sighting]) wider)
    (opened : advance (openSites seen pairs seen.length).reverse sighting =
      ((unpairedOpeners (seen ++ [sighting]) wider).filterMap
        (openerAt? (seen ++ [sighting]))).reverse)
    (noticed : noticed? ((openSites seen pairs seen.length).reverse, sighting) =
      reportAt? (seen ++ [sighting]) wider seen.length) :
    Accounts (seen ++ [sighting]) wider where
  pairing := pairing
  opened := by
    rw [List.foldl_concat, accounts.opened, opened, openSites, pairing.openBefore_length]
  noticed := by
    have earlier : (List.range seen.length).filterMap (reportAt? (seen ++ [sighting]) wider) =
        (List.range seen.length).filterMap (reportAt? seen pairs) :=
      List.filterMap_congr fun position member => reportAt?_append agree (List.mem_range.mp member)
    rw [courseFrom_concat, List.filterMap_append, accounts.noticed, accounts.opened,
      List.length_append, List.length_singleton, List.range_succ, List.filterMap_append, earlier]
    simp only [List.filterMap_cons, List.filterMap_nil, noticed]

theorem openSites_length : openSites seen pairs seen.length =
    (unpairedOpeners seen pairs).filterMap (openerAt? seen) := by
  rw [openSites, accounts.pairing.openBefore_length]

theorem not_closed_length : ¬ ∃ pair ∈ pairs, pair.2 = seen.length := by
  rintro ⟨pair, member, same⟩
  have := (accounts.pairing.lt_length member).2
  omega

variable (sighting) in
theorem filterMap_unpairedOpeners_append :
    (unpairedOpeners (seen ++ [sighting]) pairs).filterMap (openerAt? (seen ++ [sighting])) =
      openSites seen pairs seen.length ++ sighting.opener?.toList := by
  have kept : (unpairedOpeners seen pairs).filterMap (openerAt? (seen ++ [sighting])) =
      openSites seen pairs seen.length := by
    rw [accounts.openSites_length]
    exact filterMap_openerAt?_append fun position member => (mem_unpairedOpeners_iff.mp member).1
  rw [accounts.pairing.unpairedOpeners_append, List.filterMap_append, kept]
  cases opens : sighting.opener? with
  | none => rfl
  | some site => simp [openerAt?_last, opens]

theorem concat_opener {region : Region} {line : Nat} :
    Accounts (seen ++ [⟨.opens region, line⟩]) pairs := by
  refine accounts.extend (fun _ _ => Iff.rfl) accounts.pairing.append ?_ ?_
  · rw [accounts.filterMap_unpairedOpeners_append, List.reverse_append]
    rfl
  · simp only [noticed?, reportAt?, List.getElem?_concat_length,
      openSites_append (fun _ _ => Iff.rfl) le_rfl, outermostBlock?, List.reverse_reverse]

theorem concat_stray {region : Region} {line : Nat}
    (stray : ∀ innermost ∈ (openSites seen pairs seen.length).getLast?,
      region ≠ innermost.region) :
    Accounts (seen ++ [⟨.closes region, line⟩]) pairs := by
  rw [← List.head?_reverse] at stray
  refine accounts.extend (fun _ _ => Iff.rfl) accounts.pairing.append ?_ ?_
  · rw [advance_of_stray stray, accounts.filterMap_unpairedOpeners_append]
    simp [Sighting.opener?]
  · rw [noticed?_of_stray stray, List.head?_reverse]
    simp only [reportAt?, List.getElem?_concat_length, if_neg accounts.not_closed_length,
      openSites_append (fun _ _ => Iff.rfl) le_rfl]
    cases (openSites seen pairs seen.length).getLast? <;> rfl

theorem exists_innermost {innermost : Site}
    (last : (openSites seen pairs seen.length).getLast? = some innermost) :
    ∃ outer opener, unpairedOpeners seen pairs = outer ++ [opener] ∧
      openerAt? seen opener = some innermost ∧
      openSites seen pairs seen.length = outer.filterMap (openerAt? seen) ++ [innermost] := by
  have sites := accounts.openSites_length
  rcases List.eq_nil_or_concat (unpairedOpeners seen pairs) with none | ⟨outer, opener, positions⟩
  · rw [sites, none] at last
    cases last
  · rw [List.concat_eq_append] at positions
    have left : opener ∈ unpairedOpeners seen pairs := positions ▸ List.mem_concat_self
    obtain ⟨site, opens⟩ := Option.isSome_iff_exists.mp (mem_unpairedOpeners_iff.mp left).2.1
    have split : openSites seen pairs seen.length =
        outer.filterMap (openerAt? seen) ++ [site] := by
      rw [sites, positions, List.filterMap_append]
      simp [opens]
    obtain rfl : site = innermost := by simpa [split] using last
    exact ⟨outer, opener, positions, opens, split⟩

theorem concat_match {region : Region} {line : Nat} {innermost : Site}
    (last : (openSites seen pairs seen.length).getLast? = some innermost)
    (same : region = innermost.region) :
    ∃ wider, Accounts (seen ++ [⟨.closes region, line⟩]) wider := by
  obtain ⟨outer, opener, positions, opens, sites⟩ := accounts.exists_innermost last
  have agree (pair : Nat × Nat) (early : pair.2 < seen.length) :
      pair ∈ insert (opener, seen.length) pairs ↔ pair ∈ pairs := by
    refine Finset.mem_insert.trans (or_iff_right ?_)
    rintro rfl
    exact Nat.lt_irrefl _ early
  have closed : ∃ pair ∈ insert (opener, seen.length) pairs, pair.2 = seen.length :=
    ⟨_, Finset.mem_insert_self _ _, rfl⟩
  refine ⟨insert (opener, seen.length) pairs,
    accounts.extend agree (accounts.pairing.insert positions opens rfl same) ?_ ?_⟩
  · have earlier (position : Nat) (member : position ∈ outer) : position < seen.length :=
      (mem_unpairedOpeners_iff.mp (positions ▸ List.mem_append_left _ member)).1
    rw [unpairedOpeners_insert positions rfl, filterMap_openerAt?_append earlier, sites,
      List.reverse_concat]
    exact if_pos same
  · simp only [reportAt?, List.getElem?_concat_length, if_pos closed, sites, List.reverse_concat]
    exact if_pos same

theorem concat (sighting : Sighting) : ∃ wider, Accounts (seen ++ [sighting]) wider := by
  obtain ⟨region | region, line⟩ := sighting
  · exact ⟨pairs, accounts.concat_opener⟩
  · cases last : (openSites seen pairs seen.length).getLast? with
    | none => exact ⟨pairs, accounts.concat_stray (by simp [last])⟩
    | some innermost =>
      by_cases same : region = innermost.region
      · exact accounts.concat_match last same
      · exact ⟨pairs, accounts.concat_stray (by simpa [last] using same)⟩

end Accounts

end

theorem exists_accounts (seen : List Sighting) : ∃ pairs, Accounts seen pairs := by
  induction seen using List.reverseRecOn with
  | nil => exact ⟨∅, .nil⟩
  | append_singleton seen sighting ih =>
    obtain ⟨pairs, accounts⟩ := ih
    exact accounts.concat sighting

/-- The imbalances of a document account for each of its markers exactly once: they are what a
pairing of the markers tells of one position after another, and then one report for every
opening marker outside of the pairs. -/
theorem imbalances_of_pairing (text : Text) :
    (sightings text).map (fun seen => (seen.tag.text, seen.line)) = tagLines text ∧
      ∃ pairs, Pairing (sightings text) pairs ∧ imbalances text =
        (List.range (sightings text).length).filterMap (reportAt? (sightings text) pairs) ++
          ((unpairedOpeners (sightings text) pairs).filterMap
            (openerAt? (sightings text))).map .unclosed := by
  refine ⟨map_sightings text, ?_⟩
  obtain ⟨pairs, accounts⟩ := exists_accounts (sightings text)
  refine ⟨pairs, accounts.pairing, ?_⟩
  rw [imbalances, imbalancesFrom_eq, accounts.noticed, accounts.opened,
    accounts.openSites_length, List.reverse_reverse]

end PlatformMarkers.Mac
