import PlatformMarkers.Proofs.Alternatives

/-! Reading the text of a pattern back. In the extended syntax a backslash makes the next character
literal, and white space outside of an escape stands for nothing. The group of the tags is read back
as these tags, from the longest to the shortest, so that the text of a pattern settles which tags it
is for. -/

set_option autoImplicit false

namespace PlatformMarkers.Pattern

def padding : Text := " \t\n\r\x0b\x0c".toList

/-- The characters that are no literals unless they are escaped; a hash begins a comment. -/
def operators : Text := ".^$*+?\x7b\x7d[]\\|()#".toList

/-- The characters that no backslash makes literal, without these backslashes. -/
def unescaped : Text → Text
  | '\\' :: _ :: rest => unescaped rest
  | c :: rest => c :: unescaped rest
  | [] => []

def extendFirst (text : Text) (reading : List Text × Text) : List Text × Text :=
  (reading.1.modifyHead (text ++ ·), reading.2)

/-- Read the alternatives of a group up to the parenthesis that closes it. With them comes the text
behind it. -/
def readGroup : Text → Option (List Text × Text)
  | '\\' :: c :: rest => (readGroup rest).map (extendFirst [c])
  | ')' :: rest => some ([[]], rest)
  | '|' :: rest => (readGroup rest).map fun reading => ([] :: reading.1, reading.2)
  | c :: rest =>
    if padding.contains c then readGroup rest else (readGroup rest).map (extendFirst [c])
  | [] => none

/-! ## Escaped text -/

theorem padding_subset_special : padding ⊆ special := by decide

theorem operators_subset_special : operators ⊆ special := by decide

theorem escape_cons (c : Char) (text : Text) :
    escape (c :: text) = (if special.contains c then ['\\', c] else [c]) ++ escape text := rfl

theorem readGroup_of_literal {c : Char} (literal : c ∉ special) (rest : Text) :
    readGroup (c :: rest) = (readGroup rest).map (extendFirst [c]) := by
  rw [readGroup.eq_def]
  split
  next same =>
    cases same
    exact absurd (by decide) literal
  next same =>
    cases same
    exact absurd (by decide) literal
  next same =>
    cases same
    exact absurd (by decide) literal
  next same =>
    cases same
    rw [if_neg]
    exact fun inside => literal (padding_subset_special (List.contains_iff_mem.mp inside))
  next same => cases same

theorem extendFirst_nil (reading : List Text × Text) : extendFirst [] reading = reading := by
  obtain ⟨alternatives, behind⟩ := reading
  cases alternatives <;> rfl

theorem extendFirst_append (text more : Text) :
    extendFirst text ∘ extendFirst more = extendFirst (text ++ more) := by
  funext reading
  obtain ⟨alternatives, behind⟩ := reading
  cases alternatives <;> simp [extendFirst]

theorem readGroup_escape (text rest : Text) :
    readGroup (escape text ++ rest) = (readGroup rest).map (extendFirst text) := by
  induction text with
  | nil =>
    change readGroup rest = _
    rw [funext extendFirst_nil]
    exact Option.map_id'.symm
  | cons c text ih =>
    have first : readGroup (escape (c :: text) ++ rest) =
        (readGroup (escape text ++ rest)).map (extendFirst [c]) := by
      rw [escape_cons]
      split
      next => rfl
      next literal => exact readGroup_of_literal (by simpa using literal) _
    rw [first, ih, Option.map_map, extendFirst_append, List.singleton_append]

theorem readGroup_alternatives {tags : List Text} (nonempty : tags ≠ []) (behind : Text) :
    readGroup (Text.joined "|".toList (tags.map escape) ++ ' ' :: ')' :: behind) =
      some (tags, behind) := by
  induction tags with
  | nil => exact absurd rfl nonempty
  | cons tag others ih =>
    cases others with
    | nil =>
      have closed : readGroup (' ' :: ')' :: behind) = some ([[]], behind) := rfl
      rw [List.map_singleton, Text.joined, List.intercalate_singleton, readGroup_escape, closed,
        Option.map_some, extendFirst, List.modifyHead_cons, List.append_nil]
    | cons second others =>
      have separated (rest : Text) : readGroup ("|".toList ++ rest) =
          (readGroup rest).map fun reading => ([] :: reading.1, reading.2) := rfl
      rw [List.map_cons, List.map_cons, Text.joined, List.intercalate_cons_cons, List.append_assoc,
        List.append_assoc, readGroup_escape, separated]
      rw [← List.map_cons, ← Text.joined, ih (List.cons_ne_nil second others)]
      simp [extendFirst]

theorem unescaped_cons {c : Char} (noEscape : c ≠ '\\') (rest : Text) :
    unescaped (c :: rest) = c :: unescaped rest := by
  rw [unescaped.eq_def]
  split
  next same => exact absurd (List.cons.inj same).1 noEscape
  next same =>
    cases same
    rfl
  next same => cases same

theorem not_mem_special_of_unescaped {c : Char} {text rest : Text}
    (bare : c ∈ unescaped (escape text ++ rest)) : c ∉ special ∨ c ∈ unescaped rest := by
  induction text with
  | nil => exact .inr bare
  | cons d text ih =>
    rw [escape_cons] at bare
    split at bare
    next => exact ih bare
    next literal =>
      have literal : d ∉ special := by simpa using literal
      have noEscape : d ≠ '\\' := fun same => literal (by rw [same]; decide)
      rw [List.singleton_append, List.cons_append, unescaped_cons noEscape] at bare
      rcases List.mem_cons.mp bare with rfl | later
      · exact .inl literal
      · exact ih later

theorem unescaped_operator_of_alternatives {c : Char} (operator : c ∈ operators) {tags : List Text}
    {rest : Text}
    (bare : c ∈ unescaped (Text.joined "|".toList (tags.map escape) ++ rest)) :
    c = '|' ∨ c ∈ unescaped rest := by
  have isSpecial := operators_subset_special operator
  induction tags with
  | nil => exact .inr bare
  | cons tag others ih =>
    cases others with
    | nil =>
      rw [List.map_singleton, Text.joined, List.intercalate_singleton] at bare
      exact (not_mem_special_of_unescaped bare).imp_left fun literal => absurd isSpecial literal
    | cons second others =>
      rw [List.map_cons, List.map_cons, Text.joined, List.intercalate_cons_cons, List.append_assoc,
        List.append_assoc] at bare
      rcases not_mem_special_of_unescaped bare with literal | later
      · exact absurd isSpecial literal
      · rcases List.mem_cons.mp later with bar | later
        · exact .inl bar
        · exact ih later

/-! ## The order of the alternatives -/

structure SortedByLength (tags sorted : List Text) : Prop where
  longer_first : sorted.Pairwise fun first later => later.length ≤ first.length
  same_order : ∀ length, sorted.filter (·.length = length) = tags.filter (·.length = length)

theorem filter_insertByLength (tag : Text) (tags : List Text) (length : Nat) :
    (insertByLength tag tags).filter (·.length = length) =
      (tag :: tags).filter (·.length = length) := by
  induction tags with
  | nil => rfl
  | cons first rest ih =>
    rw [insertByLength]
    split
    next longer =>
      -- Only tags of another length are passed over.
      rw [List.filter_cons, ih]
      by_cases here : first.length = length
      · have other : tag.length ≠ length := by omega
        simp [here, other]
      · simp [List.filter_cons, here]
    next => rfl

theorem sortedByLength_longestFirst (tags : List Text) : SortedByLength tags (longestFirst tags) := by
  refine ⟨pairwise_longestFirst tags, fun length => ?_⟩
  induction tags with
  | nil => rfl
  | cons tag tags ih =>
    rw [longestFirst, List.foldr_cons, filter_insertByLength, List.filter_cons, List.filter_cons,
      ← longestFirst, ih]

theorem mem_iff_of_filter_eq {first second : List Text}
    (same : ∀ length : Nat, first.filter (·.length = length) = second.filter (·.length = length))
    (tag : Text) : tag ∈ first ↔ tag ∈ second := by
  have members := congrArg (tag ∈ ·) (same tag.length)
  simpa using members

theorem SortedByLength.unique {tags sorted other : List Text} (first : SortedByLength tags sorted)
    (second : SortedByLength tags other) : sorted = other := by
  obtain ⟨longerFirst, order⟩ := first
  obtain ⟨otherLongerFirst, otherOrder⟩ := second
  have same (length : Nat) := (order length).trans (otherOrder length).symm
  clear order otherOrder
  induction sorted generalizing other with
  | nil =>
    refine (List.eq_nil_iff_forall_not_mem.mpr fun tag member => ?_).symm
    exact absurd ((mem_iff_of_filter_eq same tag).mpr member) List.not_mem_nil
  | cons tag sorted ih =>
    have inOther := (mem_iff_of_filter_eq same tag).mp List.mem_cons_self
    obtain ⟨head, rest, rfl⟩ := List.exists_cons_of_ne_nil (List.ne_nil_of_mem inOther)
    have inSorted := (mem_iff_of_filter_eq same head).mpr List.mem_cons_self
    obtain ⟨longest, sortedRest⟩ := List.pairwise_cons.mp longerFirst
    obtain ⟨otherLongest, otherSortedRest⟩ := List.pairwise_cons.mp otherLongerFirst
    have sameLength : head.length = tag.length := by
      refine Nat.le_antisymm ?_ ?_
      · rcases List.mem_cons.mp inSorted with rfl | later
        · exact Nat.le_refl _
        · exact longest head later
      · rcases List.mem_cons.mp inOther with rfl | later
        · exact Nat.le_refl _
        · exact otherLongest tag later
    have sameHead : tag = head := by
      have heads := congrArg List.head? (same tag.length)
      simpa [sameLength] using heads
    subst sameHead
    have sameRest (length : Nat) : sorted.filter (·.length = length) =
        rest.filter (·.length = length) := by
      have both := same length
      rw [List.filter_cons, List.filter_cons] at both
      split at both
      · exact (List.cons.inj both).2
      · exact both
    rw [ih sortedRest otherSortedRest sameRest]

theorem sortedByLength_iff {tags sorted : List Text} :
    SortedByLength tags sorted ↔ sorted = longestFirst tags :=
  ⟨fun isSorted => isSorted.unique (sortedByLength_longestFirst tags),
    fun same => same ▸ sortedByLength_longestFirst tags⟩

/-! ## The group of the tags -/

def groupText (tags : List Text) : Text :=
  " ".toList ++ Text.joined "|".toList ((longestFirst tags).map escape) ++ " ".toList

theorem longestFirst_ne_nil {tags : List Text} (nonempty : tags ≠ []) : longestFirst tags ≠ [] := by
  obtain ⟨tag, others, rfl⟩ := List.exists_cons_of_ne_nil nonempty
  exact List.ne_nil_of_mem (mem_longestFirst.mpr List.mem_cons_self)

theorem readGroup_groupText {tags : List Text} (nonempty : tags ≠ []) (behind : Text) :
    readGroup (groupText tags ++ ')' :: behind) = some (longestFirst tags, behind) := by
  have skipped (rest : Text) : readGroup (' ' :: rest) = readGroup rest := rfl
  have text : groupText tags ++ ')' :: behind =
      ' ' :: (Text.joined "|".toList ((longestFirst tags).map escape) ++ ' ' :: ')' :: behind) := by
    simp [groupText]
  rw [text, skipped, readGroup_alternatives (longestFirst_ne_nil nonempty)]

theorem eq_bar_of_unescaped_groupText {tags : List Text} {c : Char}
    (bare : c ∈ unescaped (groupText tags)) (operator : c ∈ operators) : c = '|' := by
  have blank : c ∉ unescaped [' '] := by
    intro inside
    obtain rfl : c = ' ' := List.mem_singleton.mp inside
    exact absurd operator (by decide)
  have text : groupText tags =
      ' ' :: (Text.joined "|".toList ((longestFirst tags).map escape) ++ [' ']) := by
    simp [groupText]
  rw [text, unescaped_cons (by decide)] at bare
  rcases List.mem_cons.mp bare with rfl | later
  · exact absurd operator (by decide)
  · exact (unescaped_operator_of_alternatives operator later).resolve_right blank

theorem anyTag_eq (tags : List Text) :
    anyTag tags = "(?P<tag>".toList ++ groupText tags ++ ")".toList := by
  have header : "(?P<tag> ".toList = "(?P<tag>".toList ++ " ".toList := by decide
  have closing : " )".toList = " ".toList ++ ")".toList := by decide
  unfold anyTag
  rw [groupText, header, closing]
  simp only [List.append_assoc]

theorem marker_eq (tags : List Text) : marker tags =
    "[\\*/]+ (?P<tag>".toList ++ (groupText tags ++ ')' :: " [\\*/]*".toList) := by
  have first : delimiterRun .atLeastOnce = "[\\*/]+".toList := by decide
  have last : delimiterRun .anyTimes = "[\\*/]*".toList := by decide
  have parts : marker tags = delimiterRun .atLeastOnce ++ " ".toList ++
      (anyTag tags ++ " ".toList ++ delimiterRun .anyTimes) := by
    simp only [marker, Text.joined, List.intercalate_cons_cons, List.intercalate_singleton,
      List.append_assoc]
  rw [parts, first, last, anyTag_eq]
  simp [groupText]

/-- The group of the tags is read back as the tags, sorted by length, and nothing in it is taken for
an operator but the bars between them. So patterns for markers have the same text exactly if their
sorted tags are the same. -/
theorem readGroup_of_anyTag :
    (∀ tags : List Text, tags ≠ [] → ∃ inside sorted,
      anyTag tags = "(?P<tag>".toList ++ inside ++ ")".toList ∧ SortedByLength tags sorted ∧
      (∀ behind, readGroup (inside ++ ')' :: behind) = some (sorted, behind)) ∧
      ∀ c ∈ unescaped inside, c ∈ operators → c = '|') ∧
    ∀ tags others sorted : List Text, tags ≠ [] → others ≠ [] → SortedByLength tags sorted →
      (marker tags = marker others ↔ SortedByLength others sorted) := by
  refine ⟨fun tags nonempty => ⟨groupText tags, longestFirst tags, anyTag_eq tags,
    sortedByLength_longestFirst tags, readGroup_groupText nonempty,
    fun c bare operator => eq_bar_of_unescaped_groupText bare operator⟩, ?_⟩
  intro tags others sorted nonempty othersNonempty isSorted
  obtain rfl := sortedByLength_iff.mp isSorted
  rw [sortedByLength_iff]
  constructor
  · intro same
    rw [marker_eq, marker_eq, List.append_cancel_left_eq] at same
    have read := congrArg readGroup same
    rw [readGroup_groupText nonempty, readGroup_groupText othersNonempty] at read
    exact (Prod.mk.inj (Option.some.inj read)).1
  · intro same
    rw [marker_eq, marker_eq, groupText, same, groupText]

/-- Tags with a bar, a parenthesis, a hash, a backslash and white space in them, and the empty tag.
Of two tags with one length, the one that came first stays first. -/
theorem readGroup_of_anyTag_operators :
    let tags : List Text := ["#)".toList, [], "a|b".toList, "\\ ".toList, "x\ny(".toList]
    let sorted : List Text := ["x\ny(".toList, "a|b".toList, "#)".toList, "\\ ".toList, []]
    let inside : Text := " x\\\ny\\(|a\\|b|\\#\\)|\\\\\\ | ".toList
    let behind : Text := " [\\*/]*".toList
    tags ≠ [] ∧ anyTag tags = "(?P<tag>".toList ++ inside ++ ")".toList ∧
      readGroup (inside ++ ')' :: behind) = some (sorted, behind) ∧
      ('|' ∈ unescaped inside ∧ '|' ∈ operators ∧ ∀ c ∈ unescaped inside, c ∈ operators → c = '|') ∧
      sorted ≠ [] ∧ SortedByLength tags sorted ∧ SortedByLength sorted sorted ∧
      marker tags = marker sorted := by
  intro tags sorted inside behind
  have nonempty : tags ≠ [] := by decide
  have sortedNonempty : sorted ≠ [] := by decide
  obtain ⟨given, order, text, isSorted, read, bars⟩ := readGroup_of_anyTag.1 tags nonempty
  have built : anyTag tags = "(?P<tag>".toList ++ inside ++ ")".toList := by decide
  have sameText : given = inside :=
    List.append_cancel_left (List.append_cancel_right (text.symm.trans built))
  have evaluated : sorted = longestFirst tags := by decide
  have sameOrder : order = sorted := isSorted.unique (sortedByLength_iff.mpr evaluated)
  rw [sameText, sameOrder] at read
  rw [sameText] at bars
  rw [sameOrder] at isSorted
  have resorted : SortedByLength sorted sorted := sortedByLength_iff.mpr (by decide)
  have sameMarker := (readGroup_of_anyTag.2 tags sorted sorted nonempty sortedNonempty isSorted).mpr
    resorted
  exact ⟨nonempty, built, read behind, ⟨by decide, by decide, bars⟩, sortedNonempty, isSorted,
    resorted, sameMarker⟩

end PlatformMarkers.Pattern
