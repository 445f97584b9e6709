import PlatformMarkers.CommandLine.Session
import Mathlib.Data.List.TakeWhile

/-! Operands behind the separator. What stands there names files whatever it looks like, and flags
in front of it do no more than they say, spelled out or as letters in any combination. -/

set_option autoImplicit false

namespace PlatformMarkers.CommandLine

/-- An argument of flags for the way files are toggled: the word of one of them, or some of their
letters behind one dash. -/
inductive FlagArgument : Text → Prop where
  | verbose : FlagArgument "--verbose".toList
  | check : FlagArgument "--check".toList
  | letters {letters : Text} (given : letters ≠ [])
      (known : ∀ letter ∈ letters, letter = 'x' ∨ letter = 'c') : FlagArgument ('-' :: letters)

/-! ## One argument of flags -/

def letterFlag (letter : Char) : Flag := if letter = 'x' then .verbose else .check

theorem letterFlag_eq_verbose_iff {letter : Char} :
    letterFlag letter = .verbose ↔ letter = 'x' := by
  by_cases same : letter = 'x' <;> simp [letterFlag, same]

theorem letterFlag_eq_check_iff {letter : Char} (known : letter = 'x' ∨ letter = 'c') :
    letterFlag letter = .check ↔ letter = 'c' := by
  rcases known with rfl | rfl <;> decide

/-- The argument is an option that stands for the flags and for nothing else. -/
def ReadAs (argument : Text) (flags : List Flag) : Prop :=
  ∃ switch form attached, classify argument = .ok (.switch switch form attached) ∧
    cluster switch form attached = .ok ⟨flags, none⟩

theorem ofLetter?_letterFlag {letter : Char} (known : letter = 'x' ∨ letter = 'c') :
    Switch.ofLetter? letter = some (.flag (letterFlag letter)) := by
  rcases known with rfl | rfl <;> decide

theorem letterCluster_letters {letters : Text} (given : letters ≠ [])
    (known : ∀ letter ∈ letters, letter = 'x' ∨ letter = 'c') (first : Flag) :
    letterCluster first letters = .ok ⟨first :: letters.map letterFlag, none⟩ := by
  induction letters generalizing first with
  | nil => exact absurd rfl given
  | cons letter rest ih =>
    rw [letterCluster, ofLetter?_letterFlag (known letter List.mem_cons_self)]
    cases rest with
    | nil => rfl
    | cons next rest =>
      have later := ih (List.cons_ne_nil next rest)
        (fun other member => known other (List.mem_cons_of_mem letter member)) (letterFlag letter)
      simp only [List.isEmpty_cons, Bool.false_eq_true, if_false, later, List.map_cons]

theorem splitValue_of_not_mem {text : Text} (absent : '=' ∉ text) :
    splitValue text = (text, none) := by
  have none : text.dropWhile (· != '=') = [] := by
    refine List.dropWhile_eq_nil_iff.mpr fun letter member => ?_
    simpa using ne_of_mem_of_not_mem member absent
  rw [splitValue, none]

theorem Switch.dash_long (switch : Switch) : switch.long[1]? = some '-' := by
  rcases switch with ⟨_ | _ | _ | _⟩ | _ <;> rfl

theorem spelling?_letters {letter next : Char} (known : letter = 'x' ∨ letter = 'c') (rest : Text) :
    spelling? ('-' :: letter :: next :: rest) = none := by
  have short : Switch.all.find? (·.short == '-' :: letter :: next :: rest) = none := by
    simp [Switch.short]
  have long : Switch.all.find? (·.long == '-' :: letter :: next :: rest) = none := by
    refine List.find?_eq_none.mpr fun switch _ same => ?_
    have dash := switch.dash_long
    rw [eq_of_beq same, List.getElem?_cons_succ, List.getElem?_cons_zero, Option.some.injEq] at dash
    rcases known with rfl | rfl <;> cases dash
  rw [spelling?, short, long]

theorem classify_letters {letter next : Char} {rest : Text}
    (known : ∀ other ∈ letter :: next :: rest, other = 'x' ∨ other = 'c') :
    classify ('-' :: letter :: next :: rest) =
      .ok (.switch (.flag (letterFlag letter)) .short (some (next :: rest))) := by
  have first := known letter List.mem_cons_self
  have absent : '=' ∉ '-' :: letter :: next :: rest := by
    intro member
    rcases List.mem_cons.mp member with same | inside
    · exact absurd same (by decide)
    · exact absurd (known '=' inside) (by decide)
  rw [classify, spelling?_letters first, splitValue_of_not_mem absent]
  rcases first with rfl | rfl <;> rfl

theorem readAs_letters {letters : Text} (given : letters ≠ [])
    (known : ∀ letter ∈ letters, letter = 'x' ∨ letter = 'c') :
    ReadAs ('-' :: letters) (letters.map letterFlag) := by
  obtain ⟨letter, rest, rfl⟩ := List.exists_cons_of_ne_nil given
  cases rest with
  | nil =>
    refine ⟨.flag (letterFlag letter), .short, none, ?_, rfl⟩
    rcases known letter List.mem_cons_self with rfl | rfl <;> decide
  | cons next rest =>
    exact ⟨_, _, _, classify_letters known, letterCluster_letters (List.cons_ne_nil next rest)
      (fun other member => known other (List.mem_cons_of_mem letter member)) _⟩

theorem FlagArgument.exists_readAs {argument : Text} (flags : FlagArgument argument) :
    ∃ found, ReadAs argument found ∧ (∀ flag ∈ found, flag = .verbose ∨ flag = .check) ∧
      (.verbose ∈ found ↔ argument = "--verbose".toList ∨ 'x' ∈ argument) ∧
      (.check ∈ found ↔ argument = "--check".toList ∨ 'c' ∈ argument) := by
  cases flags with
  | verbose => exact ⟨[.verbose], ⟨.flag .verbose, .long, none, by decide, rfl⟩, by decide⟩
  | check => exact ⟨[.check], ⟨.flag .check, .long, none, by decide, rfl⟩, by decide⟩
  | @letters letters given known =>
    -- A word has its second dash where the first of the letters stands.
    have spelled (switch : Switch) : '-' :: letters ≠ switch.long := by
      intro same
      have dash : letters[0]? = some '-' := by
        rw [← List.getElem?_cons_succ, same]
        exact switch.dash_long
      exact absurd (known '-' (List.mem_of_getElem? dash)) (by decide)
    have noVerbose : '-' :: letters ≠ "--verbose".toList := spelled (.flag .verbose)
    have noCheck : '-' :: letters ≠ "--check".toList := spelled (.flag .check)
    refine ⟨letters.map letterFlag, readAs_letters given known, fun flag member => ?_, ?_, ?_⟩
    · obtain ⟨letter, _, rfl⟩ := List.mem_map.mp member
      rw [letterFlag]
      split
      · exact .inl rfl
      · exact .inr rfl
    · have verbose : .verbose ∈ letters.map letterFlag ↔ 'x' ∈ letters := by
        simp [letterFlag_eq_verbose_iff]
      rw [verbose, or_iff_right noVerbose, List.mem_cons, or_iff_right (by decide)]
    · have check : .check ∈ letters.map letterFlag ↔ 'c' ∈ letters := by
        constructor
        · intro member
          obtain ⟨letter, inside, same⟩ := List.mem_map.mp member
          rwa [← (letterFlag_eq_check_iff (known letter inside)).mp same]
        · exact fun inside => List.mem_map.mpr ⟨'c', inside, rfl⟩
      rw [check, or_iff_right noCheck, List.mem_cons, or_iff_right (by decide)]

theorem FlagArgument.ne_separator {argument : Text} (flags : FlagArgument argument) :
    argument ≠ "--".toList := by
  cases flags with
  | verbose => decide
  | check => decide
  | letters given known =>
    rintro ⟨⟩
    exact absurd (known '-' List.mem_cons_self) (by decide)

/-! ## The flags in front of the separator -/

namespace Reading

theorem takeFlags_eq {flags : List Flag} (known : ∀ flag ∈ flags, flag = .verbose ∨ flag = .check)
    (reading : Reading) : reading.takeFlags flags = .ok { reading with
      verbose := reading.verbose || flags.contains .verbose
      check := reading.check || flags.contains .check
      group := reading.group.interrupt } := by
  induction flags generalizing reading with
  | nil => simp [takeFlags]
  | cons flag flags ih =>
    have later := ih fun other member => known other (List.mem_cons_of_mem flag member)
    rcases known flag List.mem_cons_self with rfl | rfl <;>
      simp [takeFlags, later]

end Reading

theorem interpret_operands (files before : List Text) (reading : Reading)
    (growing : reading.group = .growing before) :
    interpret reading (files.map .operand) =
      { reading with group := .growing (before ++ files) }.finish := by
  induction files generalizing before reading with
  | nil => simp [interpret, ← growing]
  | cons file files ih =>
    rw [List.map_cons, interpret, ih (before ++ [file])]
    · simp [Reading.operand, growing]
    · simp [Reading.operand, growing]

theorem interpret_separated (files : List Text) {reading : Reading}
    (awaited : reading.group = .awaited) :
    interpret reading (.separator :: files.map .operand) =
      { reading with group := .growing files }.finish := by
  have separated : reading.separator = { reading with group := .growing [] } := by
    rw [Reading.separator, awaited]
  rw [interpret, separated, interpret_operands files [] _ rfl, List.nil_append]

theorem classifyAll_cons {argument : Text} {rest : List Text} {first : Argument}
    {others : List Argument} (word : argument ≠ "--".toList) (here : classify argument = .ok first)
    (behind : classifyAll rest = .ok others) :
    classifyAll (argument :: rest) = .ok (first :: others) := by
  rw [classifyAll, if_neg word, here, behind]

theorem interpret_readAs {switch : Switch} {form : Form} {attached : Option Text}
    {found : List Flag} (means : cluster switch form attached = .ok ⟨found, none⟩)
    (known : ∀ flag ∈ found, flag = .verbose ∨ flag = .check) (reading : Reading)
    (rest : List Argument) :
    interpret reading (.switch switch form attached :: rest) = interpret { reading with
      verbose := reading.verbose || found.contains .verbose
      check := reading.check || found.contains .check
      group := reading.group.interrupt } rest := by
  rw [interpret, means]
  simp only [reading.takeFlags_eq known]

theorem exists_interpret {flags : List Text} (spelled : ∀ flag ∈ flags, FlagArgument flag)
    (files : List Text) : ∃ (classified : List Argument) (found : List Flag),
      classifyAll (flags ++ "--".toList :: files) = .ok classified ∧
      (.verbose ∈ found ↔ ∃ flag ∈ flags, flag = "--verbose".toList ∨ 'x' ∈ flag) ∧
      (.check ∈ found ↔ ∃ flag ∈ flags, flag = "--check".toList ∨ 'c' ∈ flag) ∧
      ∀ reading : Reading, reading.group = .awaited → interpret reading classified =
        Reading.finish { reading with
          verbose := reading.verbose || found.contains Flag.verbose
          check := reading.check || found.contains .check
          group := .growing files } := by
  induction flags with
  | nil =>
    refine ⟨.separator :: files.map .operand, [], ?_, by simp, by simp, fun reading awaited => ?_⟩
    · rw [List.nil_append, classifyAll, if_pos rfl]
    · simp [interpret_separated files awaited]
  | cons flag flags ih =>
    have here := spelled flag List.mem_cons_self
    obtain ⟨own, ⟨switch, form, attached, classified, means⟩, known, verbose, check⟩ :=
      here.exists_readAs
    obtain ⟨others, later, behind, verboseLater, checkLater, interprets⟩ :=
      ih fun other member => spelled other (List.mem_cons_of_mem flag member)
    refine ⟨.switch switch form attached :: others, own ++ later,
      classifyAll_cons here.ne_separator classified behind, ?_, ?_, fun reading awaited => ?_⟩
    · simp only [List.mem_append, verbose, verboseLater, List.mem_cons, or_and_right, exists_or,
        exists_eq_left]
    · simp only [List.mem_append, check, checkLater, List.mem_cons, or_and_right, exists_or,
        exists_eq_left]
    · -- A flag ends a group that has begun, but none has, so the law for the rest applies.
      have interrupted : reading.group.interrupt = .awaited := by
        rw [awaited]
        rfl
      rw [interpret_readAs means known, interprets _ interrupted]
      simp [Bool.or_assoc]

/-- Flags, the separator and texts of any kind make a command line that is not refused. It asks for
the texts as files, unchanged and in their order, and for no file list. It is verbose if one of the
flags says so by its word or by a letter, and the same for the check. The run is then the batch over
these very files. -/
theorem request_flags_separator (flags files : List Text)
    (spelled : ∀ flag ∈ flags, FlagArgument flag) : ∃ verbose check,
      request (flags ++ "--".toList :: files) = .toggle ⟨none, verbose, check, files⟩ ∧
      (verbose = true ↔ ∃ flag ∈ flags, flag = "--verbose".toList ∨ 'x' ∈ flag) ∧
      (check = true ↔ ∃ flag ∈ flags, flag = "--check".toList ∨ 'c' ∈ flag) ∧
      (files ≠ [] → session (flags ++ "--".toList :: files) =
        (toggleSelection ⟨verbose, check⟩ ⟨files, .operands⟩).warnOnce []) := by
  obtain ⟨classified, found, classifies, verbose, check, interprets⟩ :=
    exists_interpret spelled files
  have requested : request (flags ++ "--".toList :: files) =
      .toggle ⟨none, found.contains .verbose, found.contains .check, files⟩ := by
    rw [request, classifies]
    simp only [interprets {} rfl]
    rfl
  refine ⟨found.contains .verbose, found.contains .check, requested, ?_, ?_, fun given => ?_⟩
  · rw [List.contains_iff_mem, verbose]
  · rw [List.contains_iff_mem, check]
  · obtain ⟨file, others, rfl⟩ := List.exists_cons_of_ne_nil given
    rw [session, requested]
    rfl

/-- Behind the separator stand the separator itself, options and the empty text. -/
theorem request_flags_separator_dashes :
    let flags := ["-cc".toList, "--check".toList]
    let files := ["--".toList, "-l=x".toList, [], "--verbose".toList, "-a b=c".toList]
    request (flags ++ "--".toList :: files) = .toggle ⟨none, false, true, files⟩ ∧
      session (flags ++ "--".toList :: files) =
        (toggleSelection ⟨false, true⟩ ⟨files, .operands⟩).warnOnce [] := by
  intro flags files
  have letters : FlagArgument ['-', 'c', 'c'] := .letters (by simp) (by simp)
  have spelled : ∀ flag ∈ flags, FlagArgument flag := by
    intro flag member
    rcases List.mem_cons.mp member with rfl | later
    · exact letters
    · rw [List.mem_singleton.mp later]
      exact .check
  obtain ⟨verbose, check, requested, shows, checks, runs⟩ :=
    request_flags_separator flags files spelled
  have silent : verbose = false := Bool.eq_false_iff.mpr fun on => absurd (shows.mp on) (by decide)
  have checking : check = true := checks.mpr (by decide)
  rw [silent, checking] at requested runs
  exact ⟨requested, runs (by decide)⟩

end PlatformMarkers.CommandLine
