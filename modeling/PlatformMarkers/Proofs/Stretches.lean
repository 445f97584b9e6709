import PlatformMarkers.Proofs.Sweep
import PlatformMarkers.Proofs.VisibleState
import PlatformMarkers.Rule.Draft
import Mathlib.Data.List.SplitBy

/-! One pass for tags without delimiters, as a walk along the runs of delimiters and the chunks
between them. The walk looks at a run and the chunk behind it only, and remembers of what it
has seen no more than whether a marker has taken in the next run. -/

set_option autoImplicit false

namespace PlatformMarkers

/-- The runs and the chunks of plain text, each as long as it can be. -/
def stretches (text : Text) : List Text := text.splitBy fun c d => isDelimiter c == isDelimiter d

/-- The walk along the stretches. The flag tells whether the marker before has taken in the next
run, which is dropped then. -/
def rewriteStretches (tags : List Text) (substitute : Text → Text) : Bool → List Text → Text
  | _, [] => []
  | taken, [last] => if taken ∧ IsRun last then [] else last
  | taken, first :: chunk :: rest =>
    if IsRun first then
      if taken then chunk ++ rewriteStretches tags substitute false rest
      else
        match longestTag? tags chunk with
        | some tag =>
          substitute tag ++ chunk.drop tag.length ++
            rewriteStretches tags substitute (chunk = tag) rest
        | none => first ++ chunk ++ rewriteStretches tags substitute false rest
    else first ++ rewriteStretches tags substitute taken (chunk :: rest)

inductive Alternates : Bool → List Text → Prop where
  | nil (isRun : Bool) : Alternates isRun []
  | cons {isRun : Bool} {first : Text} {rest : List Text} (nonempty : first ≠ [])
      (uniform : ∀ c ∈ first, isDelimiter c = isRun) (alternates : Alternates (!isRun) rest) :
      Alternates isRun (first :: rest)

theorem longestTag?_congr {tags : List Text} {first second : Text}
    (same : ∀ tag ∈ tags, tag <+: first ↔ tag <+: second) :
    longestTag? tags first = longestTag? tags second := by
  have kept : tags.filter (·.isPrefixOf first) = tags.filter (·.isPrefixOf second) :=
    List.filter_congr fun tag member => by
      rw [Bool.eq_iff_iff, List.isPrefixOf_iff_prefix, List.isPrefixOf_iff_prefix]
      exact same tag member
  rw [longestTag?, longestTag?, kept]

theorem exists_stretch {isRun : Bool} {text : Text} (nonempty : text ≠ [])
    (starts : ∀ c ∈ text.head?, isDelimiter c = isRun) :
    ∃ first rest, first ++ rest = text ∧ first ≠ [] ∧ (∀ c ∈ first, isDelimiter c = isRun) ∧
      ∀ c ∈ rest.head?, isDelimiter c = !isRun := by
  refine ⟨text.takeWhile (isDelimiter · == isRun), text.dropWhile (isDelimiter · == isRun),
    List.takeWhile_append_dropWhile, ?_, fun c member => ?_, fun c head => ?_⟩
  · cases text with
    | nil => exact absurd rfl nonempty
    | cons c rest => simp [starts c rfl]
  · simpa using List.mem_takeWhile_imp member
  · have stopped := List.head?_dropWhile_not (isDelimiter · == isRun) text
    rw [Option.mem_def.mp head] at stopped
    cases isRun <;> simpa using stopped

theorem stretches_append {isRun : Bool} {first rest : Text} (nonempty : first ≠ [])
    (uniform : ∀ c ∈ first, isDelimiter c = isRun) (turn : ∀ c ∈ rest.head?, isDelimiter c = !isRun) :
    stretches (first ++ rest) = first :: stretches rest := by
  have chain : first.IsChain fun c d => (isDelimiter c == isDelimiter d) = true := by
    refine List.Pairwise.isChain (List.pairwise_of_forall_mem_list fun c member d later => ?_)
    rw [uniform c member, uniform d later, beq_self_eq_true]
  have turns : ∀ c ∈ first.getLast?, ∀ d ∈ rest.head?, (isDelimiter c == isDelimiter d) = false := by
    intro c last d head
    rw [uniform c (List.mem_of_getLast? last), turn d head]
    cases isRun <;> rfl
  rw [stretches, List.splitBy_append turns, List.splitBy_of_isChain nonempty chain]
  rfl

theorem alternates_stretches {isRun : Bool} {text : Text}
    (starts : ∀ c ∈ text.head?, isDelimiter c = isRun) : Alternates isRun (stretches text) := by
  induction size : text.length using Nat.strongRecOn generalizing text isRun with
  | _ length ih =>
    by_cases empty : text = []
    · subst empty
      exact .nil isRun
    · obtain ⟨first, rest, rfl, nonempty, uniform, turn⟩ := exists_stretch empty starts
      have positive := List.length_pos_iff.mpr nonempty
      have shorter : rest.length < length := by
        rw [List.length_append] at size
        omega
      rw [stretches_append nonempty uniform turn]
      exact .cons nonempty uniform (ih _ shorter turn rfl)

theorem Alternates.head?_flatten {isRun : Bool} {texts : List Text}
    (alternates : Alternates isRun texts) : ∀ c ∈ texts.flatten.head?, isDelimiter c = isRun := by
  cases alternates with
  | nil => simp
  | @cons _ first rest nonempty uniform _ =>
    intro c head
    cases first with
    | nil => exact absurd rfl nonempty
    | cons d first =>
      cases head
      exact uniform c (by simp)

theorem Alternates.tail {isRun : Bool} {texts : List Text} (alternates : Alternates isRun texts) :
    Alternates (!isRun) texts.tail := by
  cases alternates with
  | nil => exact .nil _
  | cons _ _ alternates => exact alternates

/-! ## The walk -/

section
variable {tags : List Text} {substitute : Text → Text}

theorem rewriteStretches_chunk (taken : Bool) {chunk : Text} (nonempty : chunk ≠ [])
    (plain : IsPlain chunk) (rest : List Text) :
    rewriteStretches tags substitute taken (chunk :: rest) =
      chunk ++ rewriteStretches tags substitute taken rest := by
  have noRun : ¬ IsRun chunk := by
    intro isRun
    obtain ⟨c, member⟩ := List.exists_mem_of_ne_nil chunk nonempty
    have impossible := isRun c member
    rw [plain c member] at impossible
    cases impossible
  cases rest with
  | nil => simp [rewriteStretches, noRun]
  | cons next rest => rw [rewriteStretches, if_neg noRun]

theorem rewriteStretches_taken {texts : List Text} (alternates : Alternates true texts) :
    rewriteStretches tags substitute true texts =
      rewriteStretches tags substitute false texts.tail := by
  cases alternates with
  | nil => rfl
  | @cons _ run rest _ uniform alternates =>
    have isRun : IsRun run := uniform
    cases alternates with
    | nil =>
      rw [rewriteStretches, if_pos ⟨rfl, isRun⟩]
      rfl
    | cons nonempty plain _ =>
      rw [rewriteStretches, if_pos isRun, if_pos rfl, List.tail_cons,
        rewriteStretches_chunk false nonempty plain]

theorem rewriteStretches_untagged {run chunk : Text} (isRun : IsRun run)
    (absent : longestTag? tags chunk = none) (rest : List Text) :
    rewriteStretches tags substitute false (run :: chunk :: rest) =
      run ++ (chunk ++ rewriteStretches tags substitute false rest) := by
  rw [rewriteStretches, if_pos isRun, absent]
  simp

theorem rewriteStretches_tagged {run tag more : Text} {rest : List Text} (isRun : IsRun run)
    (found : longestTag? tags (tag ++ more) = some tag) (alternates : Alternates true rest) :
    rewriteStretches tags substitute false (run :: (tag ++ more) :: rest) =
      substitute tag ++ (more ++
        rewriteStretches tags substitute false (if more = [] then rest.tail else rest)) := by
  rw [rewriteStretches, if_pos isRun, found]
  by_cases allTag : more = []
  · simp [allTag, rewriteStretches_taken alternates]
  · simp [allTag]

end

/-! ## The pass -/

section
variable {tags : List Text} {substitute : Text → Text}

variable (undelimited : Undelimited tags)
include undelimited

theorem longestTag?_append_of_turn (chunk : Text) {rest : Text}
    (turn : ∀ c ∈ rest.head?, isDelimiter c = true) :
    longestTag? tags (chunk ++ rest) = longestTag? tags chunk := by
  refine longestTag?_congr fun tag member => ⟨fun start => ?_, fun start => start.trans (by simp)⟩
  cases rest with
  | nil => rwa [List.append_nil] at start
  | cons c rest => exact undelimited.isPrefix_of_isPrefix_append member ⟨c, rfl, turn c rfl⟩ start

theorem replaceMarkers_tagged {run tag trail rest : Text} (nonempty : run ≠ []) (isRun : IsRun run)
    (found : longestTag? tags (tag ++ (trail ++ rest)) = some tag) (trailRun : IsRun trail)
    (plain : StartsPlain rest) :
    replaceMarkers tags substitute (run ++ (tag ++ (trail ++ rest))) =
      substitute tag ++ replaceMarkers tags substitute rest := by
  rw [replaceMarkers, scan_tagged_append undelimited nonempty isRun found trailRun plain]
  rfl

theorem replaceMarkers_tagged_chunk {run tag more : Text} {rest : List Text} (nonempty : run ≠ [])
    (isRun : IsRun run) (plain : IsPlain (tag ++ more))
    (found : longestTag? tags (tag ++ more) = some tag) (alternates : Alternates true rest) :
    replaceMarkers tags substitute (run ++ (tag ++ more ++ rest.flatten)) =
      substitute tag ++ (more ++
        replaceMarkers tags substitute (if more = [] then rest.tail else rest).flatten) := by
  have here := longestTag?_append_of_turn undelimited (tag ++ more) alternates.head?_flatten
  rw [found, List.append_assoc] at here
  cases more with
  | nil =>
    rw [List.nil_append] at here
    cases alternates with
    | nil =>
      simpa using replaceMarkers_tagged undelimited nonempty isRun here isRun_nil startsPlain_nil
    | cons _ trailRun alternates =>
      rw [List.flatten_cons] at here
      simpa using
        replaceMarkers_tagged undelimited nonempty isRun here trailRun alternates.head?_flatten
  | cons c more =>
    have morePlain : IsPlain (c :: more) := fun d member => plain d (by simp [member])
    have startsPlain : StartsPlain (c :: more ++ rest.flatten) := by
      intro d head
      cases head
      exact morePlain c (by simp)
    have replaced :
        replaceMarkers tags substitute (run ++ (tag ++ ([] ++ (c :: more ++ rest.flatten)))) =
          substitute tag ++ replaceMarkers tags substitute (c :: more ++ rest.flatten) :=
      replaceMarkers_tagged undelimited nonempty isRun here isRun_nil startsPlain
    rw [List.nil_append, replaceMarkers_append (scan_plain_append morePlain _)] at replaced
    simpa using replaced

theorem replaceMarkers_flatten {isRun : Bool} {texts : List Text}
    (alternates : Alternates isRun texts) :
    replaceMarkers tags substitute texts.flatten = rewriteStretches tags substitute false texts := by
  -- The walk may go on three stretches later, behind a run that is dropped.
  induction size : texts.length using Nat.strongRecOn generalizing texts isRun with
  | _ length ih =>
    have later : ∀ {isRun : Bool} {rest : List Text}, Alternates isRun rest → rest.length < length →
        replaceMarkers tags substitute rest.flatten = rewriteStretches tags substitute false rest :=
      fun alternates shorter => ih _ shorter alternates rfl
    cases alternates with
    | nil => rfl
    | @cons _ first rest nonempty uniform alternates =>
      have shorter : rest.length < length := by simp [← size]
      cases isRun with
      | false =>
        rw [List.flatten_cons, replaceMarkers_append (scan_plain_append uniform _),
          later alternates shorter, rewriteStretches_chunk false nonempty uniform]
      | true =>
        cases alternates with
        | nil =>
          have absent : longestTag? tags [] = none :=
            longestTag?_eq_none_iff.mpr fun tag member start =>
              undelimited.ne_nil tag member (List.prefix_nil.mp start)
          rw [List.flatten_cons, List.flatten_nil,
            replaceMarkers_append (scan_run_append undelimited uniform startsPlain_nil absent)]
          simp [replaceMarkers, rewriteStretches]
        | @cons _ chunk rest chunkNonempty plain alternates =>
          have evenShorter : rest.length < length := by
            rw [List.length_cons] at shorter
            omega
          have startsPlain : StartsPlain (chunk ++ rest.flatten) :=
            (Alternates.cons chunkNonempty plain alternates).head?_flatten
          have same := longestTag?_append_of_turn undelimited chunk alternates.head?_flatten
          rw [List.flatten_cons, List.flatten_cons]
          cases found : longestTag? tags chunk with
          | none =>
            have runPlain := scan_run_append undelimited uniform startsPlain (same.trans found)
            rw [replaceMarkers_append runPlain, replaceMarkers_append (scan_plain_append plain _),
              later alternates evenShorter, rewriteStretches_untagged uniform found]
          | some tag =>
            obtain ⟨more, rfl⟩ := (mem_and_isPrefix_of_longestTag? found).2
            rw [replaceMarkers_tagged_chunk undelimited nonempty uniform plain found alternates,
              rewriteStretches_tagged uniform found alternates]
            split
            next => rw [later alternates.tail (by rw [List.length_tail]; omega)]
            next => rw [later alternates evenShorter]

theorem replaceMarkers_eq_rewriteStretches (text : Text) : replaceMarkers tags substitute text =
    rewriteStretches tags substitute false (stretches text) := by
  obtain ⟨isRun, starts⟩ : ∃ isRun, ∀ c ∈ text.head?, isDelimiter c = isRun := by
    cases text with
    | nil => exact ⟨true, nofun⟩
    | cons c rest => exact ⟨isDelimiter c, by simp⟩
  rw [← replaceMarkers_flatten undelimited (alternates_stretches starts), stretches,
    List.flatten_splitBy]

end

/-- Whatever steps have committed a table for a single pass, its pass is the walk along the
stretches for its tags, and the pass of a committed rule is the walk for its one tag. -/
theorem apply_eq_rewriteStretches :
    (∀ (name : Text) (verbose : Bool) (steps : List TableDraft.Step),
      let draft := TableDraft.after { name, verbose } steps
      draft.committed = true → draft.mode = .simultaneous → Undelimited draft.visible.tags →
        ∀ text, (draft.apply text).map Applied.text =
          .ok (rewriteStretches draft.visible.tags draft.visible.substituteFor false
            (stretches text))) ∧
    ∀ (draft : RuleDraft) (rule : Rule), draft.stage = .committed rule → Undelimited [rule.tag] →
      ∀ text, (draft.apply text).map Applied.text =
        .ok (rewriteStretches [rule.tag] (fun _ => rule.substitute) false (stretches text)) := by
  constructor
  · intro name verbose steps draft committed simultaneous undelimited text
    rw [TableDraft.apply_of_simultaneous committed simultaneous,
      ← replaceMarkers_eq_rewriteStretches undelimited]
    rfl
  · intro draft rule committed undelimited text
    rw [RuleDraft.apply, committed, ← replaceMarkers_eq_rewriteStretches undelimited]
    rfl

/-- One tag begins with another, the run behind the first marker is dropped although a tag follows
it, and the run at the end has no chunk. -/
theorem apply_eq_rewriteStretches_shared :
    let steps : List TableDraft.Step := [.setMode .simultaneous,
      .put ⟨some "a".toList, some "1".toList⟩, .put ⟨some "ab".toList, none⟩, .commit]
    let draft := TableDraft.after { name := [], verbose := false } steps
    let rule : Rule := ⟨"a".toList, "*a".toList⟩
    let single : RuleDraft := { name := [], verbose := false, stage := .committed rule }
    let text := "x/ab*/a*ac//".toList
    draft.committed = true ∧ Undelimited draft.visible.tags ∧
      stretches text = ["x", "/", "ab", "*/", "a", "*", "ac", "//"].map String.toList ∧
      (draft.apply text).map Applied.text = .ok "xa1c//".toList ∧
      (single.apply text).map Applied.text = .ok "x*ab*aac//".toList := by
  intro steps draft rule single text
  have undelimited : Undelimited draft.visible.tags := ⟨by decide, by decide⟩
  have first := apply_eq_rewriteStretches.1 [] false steps rfl rfl undelimited text
  have second := apply_eq_rewriteStretches.2 single rule rfl ⟨by decide, by decide⟩ text
  exact ⟨rfl, undelimited, by decide, first.trans (by decide), second.trans (by decide)⟩

end PlatformMarkers
