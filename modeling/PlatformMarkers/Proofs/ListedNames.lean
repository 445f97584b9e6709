import PlatformMarkers.File.NameList
import PlatformMarkers.Proofs.NormalPath
import Mathlib.Data.List.Basic

/-! The names that a list of files holds. A line is skipped if all of it is white space in ASCII,
while white space in general is taken off its ends; so a line with other white space alone is not
skipped, and stands for the directory of the list. Lines are read one by one, and lists can be
joined at any line break. -/

set_option autoImplicit false

namespace PlatformMarkers

namespace Text

/-! ## White space on the ends -/

theorem stripRight_cons {c : Char} (shown : isSpace c = false) (rest : Text) :
    stripRight (c :: rest) = c :: stripRight rest := by
  rw [stripRight, List.reverse_cons, List.dropWhile_append]
  split
  next blank => simp [stripRight, List.isEmpty_iff.mp blank, shown]
  next => simp [stripRight]

theorem strip_cons (c : Char) (rest : Text) :
    strip (c :: rest) = if isSpace c then strip rest else c :: stripRight rest := by
  rw [strip, stripLeft, List.dropWhile_cons]
  split
  next => rfl
  next shown => exact stripRight_cons (by simpa using shown) rest

theorem strip_eq_nil_iff {text : Text} : text.strip = [] ↔ ∀ c ∈ text, isSpace c = true := by
  induction text with
  | nil => simp [strip, stripLeft, stripRight]
  | cons c rest ih =>
    rw [strip_cons]
    split
    next space => simp [ih, space]
    next shown => simp [shown]

theorem head?_strip (text : Text) : text.strip.head? = text.stripLeft.head? := by
  induction text with
  | nil => rfl
  | cons c rest ih =>
    rw [strip_cons, stripLeft, List.dropWhile_cons]
    split
    next => exact ih
    next => rfl

/-! ## Line breaks -/

/-- The line breaks, of which one is two characters long. -/
def lineBreaks : List Text :=
  ["\n", "\r", "\r\n", "\x0b", "\x0c", "\x1c", "\x1d", "\x1e", "\u0085", "\u2028", "\u2029"].map
    String.toList

theorem isLineBreak_iff {c : Char} : isLineBreak c = true ↔ [c] ∈ lineBreaks := by
  have listed : [c] ∈ lineBreaks ↔ c ∈ ['\n', '\r', '\x0b', '\x0c', '\x1c', '\x1d', '\x1e',
      '\u0085', '\u2028', '\u2029'] := by
    simp [lineBreaks]
  rw [listed, isLineBreak]
  simp only [Bool.or_eq_true, Bool.and_eq_true, decide_eq_true_eq, beq_iff_eq, List.mem_cons,
    List.not_mem_nil, or_false, ← Char.toNat_inj, Char.le_def, UInt32.le_iff_toNat_le,
    Char.toNat_val, Char.reduceToNat]
  omega

theorem exists_linesFrom_eq_cons {current : Text} (underWay : current ≠ []) (text : Text) :
    ∃ first rest, linesFrom current text = first :: rest ∧ first ≠ [] := by
  fun_induction linesFrom current text with
  | case1 current empty => exact absurd (List.isEmpty_iff.mp empty) underWay
  | case2 current => exact ⟨_, _, rfl, by simpa using underWay⟩
  | case3 current => exact ⟨_, _, rfl, by simpa using underWay⟩
  | case4 current => exact ⟨_, _, rfl, by simpa using underWay⟩
  | case5 current c rest notPair noBreak ih => exact ih (List.cons_ne_nil c current)

theorem lines_eq_nil_iff {text : Text} : text.lines = [] ↔ text = [] := by
  rw [lines]
  fun_cases linesFrom [] text with
  | case1 => simp
  | case2 nonempty => exact absurd rfl nonempty
  | case3 => simp
  | case4 => simp
  | case5 c rest =>
    obtain ⟨first, others, same, _⟩ := exists_linesFrom_eq_cons (List.cons_ne_nil c []) rest
    simp [same]

theorem mem_lineBreaks_iff {text : Text} : text ∈ lineBreaks ↔ text.lines = [[]] := by
  constructor
  · have all : ∀ lineBreak ∈ lineBreaks, lineBreak.lines = [[]] := by decide
    exact all text
  · intro single
    rw [lines] at single
    revert single
    fun_cases linesFrom [] text with
    | case1 => exact nofun
    | case2 nonempty => exact absurd rfl nonempty
    | case3 rest =>
      intro single
      obtain rfl := lines_eq_nil_iff.mp (List.cons.inj single).2
      decide
    | case4 c rest notPair isBreak =>
      intro single
      obtain rfl := lines_eq_nil_iff.mp (List.cons.inj single).2
      exact isLineBreak_iff.mp isBreak
    | case5 c rest =>
      obtain ⟨first, others, same, something⟩ :=
        exists_linesFrom_eq_cons (List.cons_ne_nil c []) rest
      intro single
      rw [same] at single
      exact absurd (List.cons.inj single).1 something

theorem filter_lines {keep : Text → Bool} (skips : keep [] = false) (text : Text) :
    text.lines.filter keep = (text.splitOnP isLineBreak).filter keep := by
  have cut (current : Text) : (linesFrom current text).filter keep =
      (text.splitOnPPrepend isLineBreak current).filter keep := by
    fun_induction linesFrom current text with
    | case1 current empty =>
      rw [List.isEmpty_iff.mp empty]
      simp [skips]
    | case2 current nonempty => simp
    | case3 current rest ih =>
      -- The split has an empty part between the two characters of the break.
      rw [List.splitOnPPrepend_cons_pos (by decide), ← List.splitOnPPrepend_nil_right,
        List.splitOnPPrepend_cons_pos (by decide), List.filter_cons, ih]
      simp [List.filter_cons, skips]
    | case4 current c rest notPair isBreak ih =>
      rw [List.splitOnPPrepend_cons_pos isBreak, List.filter_cons, List.filter_cons, ih]
      rfl
    | case5 current c rest notPair noBreak ih =>
      rw [List.splitOnPPrepend_cons_neg (by simpa using noBreak), ih]
  exact cut []

theorem filter_splitOnP_breaks_append {keep : Text → Bool} (skips : keep [] = false)
    {breaks : Text} (isBreak : ∀ c ∈ breaks, isLineBreak c = true) (text : Text) :
    ((breaks ++ text).splitOnP isLineBreak).filter keep =
      (text.splitOnP isLineBreak).filter keep := by
  induction breaks with
  | nil => rfl
  | cons c breaks ih =>
    rw [List.cons_append, ← List.splitOnPPrepend_nil_right,
      List.splitOnPPrepend_cons_pos (isBreak c (by simp)), List.reverse_nil,
      List.filter_cons_of_neg (by simp [skips]), ih fun d inside => isBreak d (by simp [inside])]

/-- Two texts with a break between them have the lines of both, empty lines apart: there may be one
less, where the break joins a carriage return or a line feed beside it, or one more. -/
theorem filter_lines_append {keep : Text → Bool} (skips : keep [] = false) (text more : Text)
    {lineBreak : Text} (isBreak : lineBreak ∈ lineBreaks) :
    (text ++ lineBreak ++ more).lines.filter keep =
      text.lines.filter keep ++ more.lines.filter keep := by
  have breaks : ∀ lineBreak ∈ lineBreaks,
      lineBreak ≠ [] ∧ lineBreak.all isLineBreak = true := by decide
  obtain ⟨nonempty, all⟩ := breaks lineBreak isBreak
  have isBreak := List.all_eq_true.mp all
  obtain ⟨c, rest, rfl⟩ := List.exists_cons_of_ne_nil nonempty
  rw [filter_lines skips, filter_lines skips, filter_lines skips, List.append_assoc,
    List.cons_append, List.splitOnP_append_cons text _ (isBreak c (by simp)), List.filter_append,
    filter_splitOnP_breaks_append skips fun d inside => isBreak d (by simp [inside])]

end Text

namespace NameList

/-! ## Lines that give a name -/

/-- Something is left of the line without the white space on its ends, and no hash comes first. -/
def Named (line : Text) : Prop := line.strip ≠ [] ∧ line.strip.head? ≠ some '#'

/-- Nothing is left of the line, but not all of its white space is in ASCII. -/
def Stray (line : Text) : Prop := line.strip = [] ∧ ∃ c ∈ line, Text.isAsciiSpace c = false

instance (line : Text) : Decidable (Named line) := inferInstanceAs (Decidable (_ ∧ _))

instance (line : Text) : Decidable (Stray line) := inferInstanceAs (Decidable (_ ∧ _))

theorem Named.not_stray {line : Text} (named : Named line) : ¬ Stray line :=
  fun stray => named.1 stray.1

theorem isSkipped_eq_false_iff {line : Text} : isSkipped line = false ↔ Named line ∨ Stray line := by
  have comment : isComment line = false ↔ line.strip.head? ≠ some '#' := by
    rw [isComment, Text.head?_strip, beq_eq_false_iff_ne]
  have blank : line.isAsciiBlank = false ↔ ∃ c ∈ line, Text.isAsciiSpace c = false := by
    simp [Text.isAsciiBlank]
  rw [isSkipped, Bool.or_eq_false_iff, comment, blank, Named, Stray]
  constructor
  · rintro ⟨other, noHash⟩
    by_cases nothing : line.strip = []
    · exact .inr ⟨nothing, other⟩
    · exact .inl ⟨nothing, noHash⟩
  · rintro (⟨something, noHash⟩ | ⟨nothing, other⟩)
    · obtain ⟨c, inside, shown⟩ : ∃ c ∈ line, ¬ Text.isSpace c = true := by
        simpa [Text.strip_eq_nil_iff] using something
      have notAscii := mt Text.isSpace_of_isAsciiSpace shown
      exact ⟨⟨c, inside, by simpa using notAscii⟩, noHash⟩
    · exact ⟨other, by simp [nothing]⟩

theorem names_eq (content listName : Text) : names content listName =
    (content.lines.filter fun line => Named line ∨ Stray line).map
      (nameOn (Path.directory listName)) := by
  rw [names]
  congr 2
  funext line
  rw [Bool.eq_iff_iff, Bool.not_eq_true', isSkipped_eq_false_iff, decide_eq_true_iff]

theorem nameOn_of_stray {line : Text} (stray : Stray line) (base : Text) :
    nameOn base line = Path.normalize base := by
  rw [nameOn, stray.1, Path.normalize_join_nil]

/-- The names come from the lines that name a file and from the stray lines, each of which gives the
directory of the list. So only the lines that name a file count exactly if no line is stray. -/
theorem names_eq_named_iff (content listName : Text) :
    let directory := Path.directory listName
    names content listName =
      ((content.lines.filter fun line => Named line ∨ Stray line).map fun line =>
        if Stray line then Path.normalize directory
        else Path.normalize (Path.join directory line.strip)) ∧
    (names content listName =
      ((content.lines.filter (Named ·)).map fun line =>
        Path.normalize (Path.join directory line.strip)) ↔
      ∀ line ∈ content.lines, ¬ Stray line) := by
  intro directory
  refine ⟨?_, fun same line member stray => ?_, fun noStray => ?_⟩
  · rw [names_eq]
    refine List.map_congr_left fun line _ => ?_
    split
    next stray => exact nameOn_of_stray stray directory
    next => rfl
  · rw [names_eq] at same
    have lengths := congrArg List.length same
    rw [List.length_map, List.length_map] at lengths
    have within : (content.lines.filter (Named ·)).Sublist
        (content.lines.filter fun line => Named line ∨ Stray line) :=
      List.monotone_filter_right _ fun line named =>
        decide_eq_true (.inl (of_decide_eq_true named))
    have kept : line ∈ content.lines.filter fun line => Named line ∨ Stray line := by
      simp [member, stray]
    rw [← within.eq_of_length lengths.symm] at kept
    have named : Named line := by simpa [member] using kept
    exact named.not_stray stray
  · rw [names_eq]
    congr 1
    refine List.filter_congr fun line member => ?_
    simp [noStray line member]

/-- A no-break space is white space, but not in ASCII: the line that holds nothing else is not
skipped, and gives the directory of the list. -/
theorem names_of_no_break_space :
    let content : Text := "a\n\u00a0\nb".toList
    let listName : Text := "lists/files.txt".toList
    let directory := Path.directory listName
    Text.strip "\u00a0".toList = [] ∧
      names content listName = ["lists/a".toList, "lists".toList, "lists/b".toList] ∧
      ((content.lines.filter (Named ·)).map fun line =>
        Path.normalize (Path.join directory line.strip)) = ["lists/a".toList, "lists/b".toList] := by
  decide

/-! ## Joined lists -/

/-- Exactly these texts are breaks between lines, and lists that are joined with one hold the names
of the one and then those of the other. -/
theorem names_append_break :
    (∀ lineBreak : Text, lineBreak ∈ Text.lineBreaks ↔ lineBreak.lines = [[]]) ∧
    ∀ content more listName : Text, ∀ lineBreak ∈ Text.lineBreaks,
      names (content ++ lineBreak ++ more) listName =
        names content listName ++ names more listName := by
  refine ⟨fun _ => Text.mem_lineBreaks_iff, fun content more listName lineBreak isBreak => ?_⟩
  rw [names, Text.filter_lines_append (by decide) content more isBreak, List.map_append]
  rfl

theorem names_append_break_merged :
    let content : Text := "a".toList
    let more : Text := "\nb".toList
    let listName : Text := "lists/files.txt".toList
    "\r".toList ∈ Text.lineBreaks ∧
      (content ++ "\r".toList ++ more).lines ≠ content.lines ++ more.lines ∧
      names (content ++ "\r".toList ++ more) listName =
        ["lists/a".toList] ++ ["lists/b".toList] := by
  intro content more listName
  have isBreak : "\r".toList ∈ Text.lineBreaks := by decide
  have first : names content listName = ["lists/a".toList] := by decide
  have second : names more listName = ["lists/b".toList] := by decide
  refine ⟨isBreak, by decide, ?_⟩
  rw [names_append_break.2 content more listName _ isBreak, first, second]

/-! ## Normal names -/

/-- Every name is a path in normal form, which normalization leaves as it is; and what a line with
an absolute name gives does not depend on the name of the list. -/
theorem normal_of_mem_names (content listName : Text) :
    (∀ name ∈ names content listName,
      name ≠ [] ∧ Path.Normal name ∧ Path.normalize name = name) ∧
    ∀ (index : Nat) (line : Text),
      (content.lines.filter fun line => Named line ∨ Stray line)[index]? = some line →
        line.strip.head? = some '/' →
          (names content listName)[index]? = some (Path.normalize line.strip) := by
  rw [names_eq]
  refine ⟨fun name member => ?_, fun index line found absolute => ?_⟩
  · obtain ⟨line, _, rfl⟩ := List.mem_map.mp member
    have normal := Path.normal_normalize (Path.join (Path.directory listName) line.strip)
    exact ⟨normal.ne_nil, normal, Path.normalize_of_normal normal⟩
  · rw [List.getElem?_map, found, Option.map_some, nameOn, Path.join, if_pos absolute]

theorem normal_of_mem_names_mixed :
    let content : Text := "../../b//./c\n# no name\n //x/../../y/ ".toList
    let line : Text := " //x/../../y/ ".toList
    let name : Text := "../b/c".toList
    name ∈ names content "lists/files.txt".toList ∧
      (name ≠ [] ∧ Path.Normal name ∧ Path.normalize name = name) ∧
      (content.lines.filter fun line => Named line ∨ Stray line)[1]? = some line ∧
      line.strip.head? = some '/' ∧
      (names content "lists/files.txt".toList)[1]? = some "//y".toList ∧
      (names content "files.txt".toList)[1]? = some "//y".toList := by
  intro content line name
  have member : name ∈ names content "lists/files.txt".toList := by decide
  have found : (content.lines.filter fun line => Named line ∨ Stray line)[1]? = some line := by
    decide
  have absolute : line.strip.head? = some '/' := by decide
  have normalized : Path.normalize line.strip = "//y".toList := by decide
  obtain ⟨normal, same⟩ := normal_of_mem_names content "lists/files.txt".toList
  obtain ⟨_, otherSame⟩ := normal_of_mem_names content "files.txt".toList
  refine ⟨member, normal name member, found, absolute, ?_, ?_⟩
  · rw [same 1 line found absolute, normalized]
  · rw [otherSame 1 line found absolute, normalized]

end NameList

end PlatformMarkers
