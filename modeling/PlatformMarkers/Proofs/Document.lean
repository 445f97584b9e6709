import PlatformMarkers.Marker.Scan
import Mathlib.Data.List.TakeWhile

/-! Texts as documents: plain text with chains of tags in between. In a chain every tag
follows a run of delimiters or stands right behind the tag before it, so that setting one
marker can make its neighbour a marker, or stop it from being one. Different chains never
touch each other. -/

set_option autoImplicit false

namespace PlatformMarkers

/-! ## Runs of delimiters, and tags that can be told apart -/

def IsRun (text : Text) : Prop := ∀ c ∈ text, isDelimiter c = true

def IsPlain (text : Text) : Prop := ∀ c ∈ text, isDelimiter c = false

-- Named, because the instances for all characters would be found first.
instance (text : Text) : Decidable (IsRun text) := List.decidableBAll (isDelimiter · = true) text

instance (text : Text) : Decidable (IsPlain text) := List.decidableBAll (isDelimiter · = false) text

def StartsPlain (text : Text) : Prop := ∀ c ∈ text.head?, isDelimiter c = false

/-- Tags that cannot begin in the middle of a run, nor reach over a delimiter. -/
structure Undelimited (tags : List Text) : Prop where
  ne_nil : ∀ tag ∈ tags, tag ≠ []
  plain : ∀ tag ∈ tags, IsPlain tag

/-- Tags of which at most one begins at a place, and never in the middle of a run. -/
structure Distinguishable (tags : List Text) : Prop where
  ne_nil : ∀ tag ∈ tags, tag ≠ []
  plain : ∀ tag ∈ tags, IsPlain tag
  eq_of_isPrefix : ∀ first ∈ tags, ∀ second ∈ tags, first <+: second → first = second

theorem isRun_nil : IsRun [] := fun _ member => absurd member List.not_mem_nil

theorem isRun_takeWhile (text : Text) : IsRun (text.takeWhile isDelimiter) :=
  fun _ member => List.mem_takeWhile_imp member

theorem startsPlain_nil : StartsPlain [] := fun _ member => by cases member

theorem startsPlain_dropWhile (text : Text) : StartsPlain (text.dropWhile isDelimiter) := by
  intro c first
  have stopped := List.head?_dropWhile_not isDelimiter text
  rw [Option.mem_def.mp first] at stopped
  simpa using stopped

theorem StartsPlain.of_isPrefix {first text : Text} (plain : StartsPlain text)
    (start : first <+: text) : StartsPlain first := by
  obtain ⟨rest, rfl⟩ := start
  cases first with
  | nil => exact startsPlain_nil
  | cons c first => exact plain

theorem takeWhile_run_append {run rest : Text} (isRun : IsRun run) (plain : StartsPlain rest) :
    (run ++ rest).takeWhile isDelimiter = run := by
  rw [List.takeWhile_append_of_pos isRun]
  cases rest with
  | nil => simp
  | cons c rest => simp [plain c rfl]

theorem dropWhile_run_append {run rest : Text} (isRun : IsRun run) (plain : StartsPlain rest) :
    (run ++ rest).dropWhile isDelimiter = rest := by
  rw [List.dropWhile_append_of_pos isRun]
  cases rest with
  | nil => rfl
  | cons c rest => simp [plain c rfl]

theorem run_append_inj {run other rest tail : Text} (isRun : IsRun run) (otherRun : IsRun other)
    (plain : StartsPlain rest) (tailPlain : StartsPlain tail) :
    run ++ rest = other ++ tail ↔ run = other ∧ rest = tail := by
  constructor
  · intro same
    have runs := congrArg (List.takeWhile isDelimiter) same
    rw [takeWhile_run_append isRun plain, takeWhile_run_append otherRun tailPlain] at runs
    subst runs
    exact ⟨rfl, List.append_cancel_left same⟩
  · rintro ⟨rfl, rfl⟩
    rfl

theorem isPrefix_of_isPrefix_append_cons {tag gap rest : Text} {c : Char} (absent : c ∉ tag)
    (start : tag <+: gap ++ c :: rest) : tag <+: gap := by
  rcases List.prefix_or_prefix_of_prefix start (List.prefix_append gap _) with within | ⟨tail, rfl⟩
  · exact within
  · cases tail with
    | nil => simp
    | cons d tail =>
      obtain ⟨after, same⟩ := (List.prefix_append_right_inj gap).mp start
      obtain ⟨rfl, _⟩ := List.cons.inj same
      simp at absent

namespace Undelimited

variable {tags : List Text}

theorem startsPlain_append (undelimited : Undelimited tags) {tag : Text}
    (member : tag ∈ tags) (rest : Text) : StartsPlain (tag ++ rest) := by
  cases tag with
  | nil => exact absurd rfl (undelimited.ne_nil _ member)
  | cons first tag =>
    intro c head
    cases head
    exact undelimited.plain _ member first (by simp)

theorem startsPlain_of_isPrefix (undelimited : Undelimited tags) {tag text : Text}
    (member : tag ∈ tags) (start : tag <+: text) : StartsPlain text := by
  obtain ⟨rest, rfl⟩ := start
  exact undelimited.startsPlain_append member rest

theorem isPrefix_of_isPrefix_append (undelimited : Undelimited tags) {tag gap rest : Text}
    (member : tag ∈ tags) (delimited : ∃ c ∈ rest.head?, isDelimiter c = true)
    (start : tag <+: gap ++ rest) : tag <+: gap := by
  obtain ⟨c, head, delimiter⟩ := delimited
  obtain ⟨rest, rfl⟩ := List.head?_eq_some_iff.mp head
  refine isPrefix_of_isPrefix_append_cons (fun inside => ?_) start
  rw [undelimited.plain tag member c inside] at delimiter
  cases delimiter

theorem leadAndTag?_run_append (undelimited : Undelimited tags) {run rest : Text}
    (isRun : IsRun run) (plain : StartsPlain rest) :
    leadAndTag? tags (run ++ rest) =
      if run = [] then none else (longestTag? tags rest).map fun tag => (run, tag) := by
  induction run with
  | nil =>
    cases rest with
    | nil => rfl
    | cons c rest => simp [leadAndTag?, plain c rfl]
  | cons c run ih =>
    have delimiter : isDelimiter c = true := isRun c (by simp)
    have later := ih fun d member => isRun d (by simp [member])
    rw [List.cons_append, leadAndTag?, if_pos delimiter, later]
    cases run with
    | nil => simp
    | cons d run =>
      cases found : longestTag? tags rest with
      | some tag => simp
      | none =>
        have absent : longestTag? tags (d :: run ++ rest) = none := by
          rw [longestTag?_eq_none_iff]
          intro tag member start
          have impossible := undelimited.startsPlain_of_isPrefix member start d rfl
          rw [isRun d (by simp)] at impossible
          cases impossible
        simpa using absent

end Undelimited

namespace Distinguishable

variable {tags : List Text}

theorem undelimited (distinguishable : Distinguishable tags) : Undelimited tags :=
  ⟨distinguishable.ne_nil, distinguishable.plain⟩

theorem subset (distinguishable : Distinguishable tags) {wanted : List Text}
    (subset : wanted ⊆ tags) : Distinguishable wanted where
  ne_nil := fun tag member => distinguishable.ne_nil tag (subset member)
  plain := fun tag member => distinguishable.plain tag (subset member)
  eq_of_isPrefix := fun first firstMember second secondMember =>
    distinguishable.eq_of_isPrefix first (subset firstMember) second (subset secondMember)

theorem eq_of_isPrefix_append (distinguishable : Distinguishable tags) {tag other rest : Text}
    (member : tag ∈ tags) (otherMember : other ∈ tags) (start : other <+: tag ++ rest) :
    other = tag := by
  rcases List.prefix_or_prefix_of_prefix start (List.prefix_append tag rest) with shorter | longer
  · exact distinguishable.eq_of_isPrefix _ otherMember _ member shorter
  · exact (distinguishable.eq_of_isPrefix _ member _ otherMember longer).symm

theorem longestTag?_append (distinguishable : Distinguishable tags) {tag : Text}
    (member : tag ∈ tags) (rest : Text) {wanted : List Text} (subset : wanted ⊆ tags) :
    longestTag? wanted (tag ++ rest) = if tag ∈ wanted then some tag else none := by
  split
  next isWanted =>
    cases found : longestTag? wanted (tag ++ rest) with
    | none =>
      exact absurd (List.prefix_append tag rest) (longestTag?_eq_none_iff.mp found tag isWanted)
    | some other =>
      obtain ⟨otherWanted, start⟩ := mem_and_isPrefix_of_longestTag? found
      rw [distinguishable.eq_of_isPrefix_append member (subset otherWanted) start]
  next unwanted =>
    rw [longestTag?_eq_none_iff]
    intro other otherWanted start
    have same := distinguishable.eq_of_isPrefix_append member (subset otherWanted) start
    exact unwanted (same ▸ otherWanted)

end Distinguishable

/-! ## Chains and documents -/

structure Link where
  tag : Text
  /-- The run of delimiters after the tag, which may be empty. -/
  run : Text
  deriving DecidableEq, Repr

@[ext] structure Chain where
  lead : Text
  links : List Link
  deriving DecidableEq, Repr

inductive Document where
  | plain (gap : Text)
  | chained (gap : Text) (chain : Chain) (rest : Document)
  deriving DecidableEq, Repr

def Link.text (link : Link) : Text := link.tag ++ link.run

namespace Chain

def text (chain : Chain) : Text := chain.lead ++ chain.links.flatMap Link.text

structure Valid (tags : List Text) (chain : Chain) : Prop where
  lead_ne_nil : chain.lead ≠ []
  isRun_lead : IsRun chain.lead
  links_ne_nil : chain.links ≠ []
  mem_tags : ∀ link ∈ chain.links, link.tag ∈ tags
  isRun_run : ∀ link ∈ chain.links, IsRun link.run

theorem Valid.exists_head?_text {tags : List Text} {chain : Chain} (valid : chain.Valid tags)
    (rest : Text) : ∃ c ∈ (chain.text ++ rest).head?, isDelimiter c = true := by
  obtain ⟨lead, links⟩ := chain
  cases lead with
  | nil => exact absurd rfl valid.lead_ne_nil
  | cons c lead => exact ⟨c, rfl, valid.isRun_lead c (by simp)⟩

theorem Valid.exists_isPrefix_dropWhile {tags : List Text} (distinguishable : Distinguishable tags)
    {chain : Chain} (valid : chain.Valid tags) (rest : Text) :
    ∃ tag ∈ tags, tag <+: (chain.text ++ rest).dropWhile isDelimiter := by
  obtain ⟨lead, links⟩ := chain
  cases links with
  | nil => exact absurd rfl valid.links_ne_nil
  | cons link links =>
    have member := valid.mem_tags link (by simp)
    refine ⟨link.tag, member, ?_⟩
    simp only [text, List.flatMap_cons, Link.text, List.append_assoc]
    have tagPlain := distinguishable.undelimited.startsPlain_append member
    rw [dropWhile_run_append valid.isRun_lead (tagPlain _)]
    exact List.prefix_append _ _

end Chain

theorem startsPlain_links {tags : List Text} (distinguishable : Distinguishable tags)
    {links : List Link} (members : ∀ link ∈ links, link.tag ∈ tags) {rest : Text}
    (plain : StartsPlain rest) : StartsPlain (links.flatMap Link.text ++ rest) := by
  cases links with
  | nil => exact plain
  | cons link links =>
    simp only [List.flatMap_cons, Link.text, List.append_assoc]
    exact distinguishable.undelimited.startsPlain_append (members link (by simp)) _

theorem links_append_inj {tags : List Text} (distinguishable : Distinguishable tags)
    {links others : List Link} {run otherRun rest tail : Text}
    (isRun : IsRun run) (otherIsRun : IsRun otherRun)
    (runs : ∀ link ∈ links, IsRun link.run) (otherRuns : ∀ link ∈ others, IsRun link.run)
    (members : ∀ link ∈ links, link.tag ∈ tags)
    (sameTags : links.map Link.tag = others.map Link.tag)
    (plain : StartsPlain rest) (tailPlain : StartsPlain tail)
    (same : run ++ (links.flatMap Link.text ++ rest) =
      otherRun ++ (others.flatMap Link.text ++ tail)) :
    run = otherRun ∧ links = others ∧ rest = tail := by
  induction links generalizing others run otherRun with
  | nil =>
    obtain rfl : others = [] := by simpa using sameTags.symm
    obtain ⟨runSame, restSame⟩ := (run_append_inj isRun otherIsRun plain tailPlain).mp same
    exact ⟨runSame, rfl, restSame⟩
  | cons link links ih =>
    cases others with
    | nil => cases sameTags
    | cons other others =>
      obtain ⟨tag, next⟩ := link
      obtain ⟨otherTag, otherNext⟩ := other
      obtain ⟨rfl, laterTags⟩ := List.cons.inj sameTags
      have member : tag ∈ tags := members ⟨tag, next⟩ (by simp)
      simp only [List.flatMap_cons, Link.text, List.append_assoc] at same
      -- A tag starts with no delimiter, so that the runs before it end at one place.
      obtain ⟨rfl, behind⟩ := (run_append_inj isRun otherIsRun
        (distinguishable.undelimited.startsPlain_append member _)
        (distinguishable.undelimited.startsPlain_append member _)).mp same
      obtain ⟨rfl, rfl, restSame⟩ := ih (runs ⟨tag, next⟩ (by simp))
        (otherRuns ⟨tag, otherNext⟩ (by simp)) (fun link later => runs link (by simp [later]))
        (fun link later => otherRuns link (by simp [later]))
        (fun link later => members link (by simp [later])) laterTags (List.append_cancel_left behind)
      exact ⟨rfl, rfl, restSame⟩

/-- No delimiter of the text is directly followed by a tag. -/
def Unmarked (tags : List Text) : Text → Prop
  | [] => True
  | c :: rest => (isDelimiter c = true → ∀ tag ∈ tags, ¬ tag <+: rest) ∧ Unmarked tags rest

/-- The text continues neither a run nor a chain that ends right before it. -/
def EndsChain (tags : List Text) (text : Text) : Prop :=
  StartsPlain text ∧ ∀ tag ∈ tags, ¬ tag <+: text

namespace Document

def gap : Document → Text
  | .plain gap => gap
  | .chained gap _ _ => gap

def chains : Document → List Chain
  | .plain _ => []
  | .chained _ chain rest => chain :: rest.chains

def text : Document → Text
  | .plain gap => gap
  | .chained gap chain rest => gap ++ chain.text ++ rest.text

def map (change : Chain → Chain) : Document → Document
  | .plain gap => .plain gap
  | .chained gap chain rest => .chained gap (change chain) (rest.map change)

/-- The document can stand behind a chain without becoming part of it. -/
def Follows (tags : List Text) (document : Document) : Prop :=
  EndsChain tags document.gap ∧ (document.chains ≠ [] → document.gap ≠ [])

def Valid (tags : List Text) : Document → Prop
  | .plain gap => Unmarked tags gap
  -- A delimiter at the end of the gap would belong to the lead of the chain.
  | .chained gap chain rest =>
    Unmarked tags gap ∧ (∀ c ∈ gap.getLast?, isDelimiter c = false) ∧ chain.Valid tags ∧
      rest.Follows tags ∧ rest.Valid tags

end Document

/-! ## The document of a text -/

def linksOf (tags : List Text) (text : Text) : List Link × Text :=
  match _found : longestTag? tags text with
  | none => ([], text)
  | some tag =>
    -- An empty tag would be found again at the same place without end.
    if tag = [] then ([], text)
    else
      let after := text.drop tag.length
      let others := linksOf tags (after.dropWhile isDelimiter)
      (⟨tag, after.takeWhile isDelimiter⟩ :: others.1, others.2)
termination_by text.length
decreasing_by
  have shorter := List.length_dropWhile_le isDelimiter (text.drop tag.length)
  have within := (mem_and_isPrefix_of_longestTag? _found).2.length_le
  have positive := List.length_pos_iff.mpr ‹¬ tag = []›
  simp only [List.length_drop] at shorter
  omega

theorem text_linksOf (tags : List Text) (text : Text) :
    (linksOf tags text).1.flatMap Link.text ++ (linksOf tags text).2 = text := by
  fun_induction linksOf tags text with
  | case1 => simp
  | case2 => simp
  | case3 text tag found nonempty after others ih =>
    obtain ⟨tail, rfl⟩ := (mem_and_isPrefix_of_longestTag? found).2
    have tailSame : after = tail := List.drop_left
    rw [tailSame] at ih
    simp only [List.flatMap_cons, Link.text, List.append_assoc, others, tailSame, ih,
      List.takeWhile_append_dropWhile]

theorem length_linksOf_le (tags : List Text) (text : Text) :
    (linksOf tags text).2.length ≤ text.length := by
  have same := congrArg List.length (text_linksOf tags text)
  rw [List.length_append] at same
  omega

theorem linksOf_valid {tags : List Text} (text : Text) :
    ∀ link ∈ (linksOf tags text).1, link.tag ∈ tags ∧ IsRun link.run := by
  fun_induction linksOf tags text with
  | case1 => simp
  | case2 => simp
  | case3 text tag found nonempty after others ih =>
    intro link member
    rcases List.mem_cons.mp member with rfl | later
    · exact ⟨(mem_and_isPrefix_of_longestTag? found).1, isRun_takeWhile after⟩
    · exact ih link later

theorem linksOf_eq_nil_iff {tags : List Text} (distinguishable : Distinguishable tags)
    {text : Text} : (linksOf tags text).1 = [] ↔ ∀ tag ∈ tags, ¬ tag <+: text := by
  rw [← longestTag?_eq_none_iff]
  fun_cases linksOf tags text with
  | case1 absent => simp [absent]
  | case2 found =>
    exact absurd rfl (distinguishable.ne_nil _ (mem_and_isPrefix_of_longestTag? found).1)
  | case3 tag found nonempty => simp [found]

theorem endsChain_linksOf {tags : List Text} (distinguishable : Distinguishable tags)
    (text : Text) (plain : StartsPlain text) : EndsChain tags (linksOf tags text).2 := by
  fun_induction linksOf tags text with
  | case1 text absent => exact ⟨plain, longestTag?_eq_none_iff.mp absent⟩
  | case2 text found =>
    exact absurd rfl (distinguishable.ne_nil _ (mem_and_isPrefix_of_longestTag? found).1)
  | case3 text tag found nonempty after others ih => exact ih (startsPlain_dropWhile after)

namespace Document

def prepend (c : Char) : Document → Document
  | .plain gap => .plain (c :: gap)
  | .chained gap chain rest => .chained (c :: gap) chain rest

def ofText (tags : List Text) : Text → Document
  | [] => .plain []
  | c :: rest =>
    let links := linksOf tags (rest.dropWhile isDelimiter)
    if isDelimiter c = true ∧ links.1 ≠ [] then
      .chained [] ⟨c :: rest.takeWhile isDelimiter, links.1⟩ (ofText tags links.2)
    else (ofText tags rest).prepend c
termination_by text => text.length
decreasing_by
  · have shorter := length_linksOf_le tags (rest.dropWhile isDelimiter)
    have within := List.length_dropWhile_le isDelimiter rest
    simp only [List.length_cons]
    omega
  · simp

@[simp] theorem text_prepend (c : Char) (document : Document) :
    (document.prepend c).text = c :: document.text := by
  cases document <;> simp [prepend, text]

theorem gap_isPrefix_text (document : Document) : document.gap <+: document.text := by
  cases document with
  | plain gap => exact List.prefix_refl gap
  | chained gap chain rest => simp [Document.gap, text]

@[simp] theorem text_ofText (tags : List Text) (text : Text) : (ofText tags text).text = text := by
  fun_induction ofText tags text with
  | case1 => rfl
  | case2 c rest links here ih =>
    simp only [Document.text, Chain.text, ih, List.nil_append, List.cons_append, List.append_assoc,
      links, text_linksOf, List.takeWhile_append_dropWhile]
  | case3 c rest links here ih => rw [text_prepend, ih]

section
variable {tags : List Text} (distinguishable : Distinguishable tags)
include distinguishable

theorem follows_iff {document : Document} (valid : document.Valid tags) :
    document.Follows tags ↔ EndsChain tags document.text := by
  cases document with
  | plain gap => simp [Follows, Document.gap, chains, text]
  | chained gap chain rest =>
    have delimited := valid.2.2.1.exists_head?_text rest.text
    simp only [Follows, Document.gap, chains, text, List.append_assoc]
    constructor
    · rintro ⟨⟨plain, absent⟩, nonempty⟩
      refine ⟨?_, fun tag member start => absent tag member <|
        distinguishable.undelimited.isPrefix_of_isPrefix_append member delimited start⟩
      cases gap with
      | nil => simp at nonempty
      | cons c gap => exact plain
    · intro ends
      refine ⟨⟨ends.1.of_isPrefix (by simp), fun tag member start =>
        ends.2 tag member (start.trans (by simp))⟩, ?_⟩
      rintro - rfl
      obtain ⟨c, head, delimiter⟩ := delimited
      have plain := ends.1 c head
      rw [delimiter] at plain
      cases plain

theorem valid_prepend {document : Document} (valid : document.Valid tags) {c : Char}
    (separate : isDelimiter c = true →
      ∀ tag ∈ tags, ¬ tag <+: document.text.dropWhile isDelimiter) :
    (document.prepend c).Valid tags := by
  have unmarked : isDelimiter c = true → ∀ tag ∈ tags, ¬ tag <+: document.gap := by
    intro delimiter tag member start
    have within := start.trans document.gap_isPrefix_text
    have plain := distinguishable.undelimited.startsPlain_of_isPrefix member within
    refine separate delimiter tag member ?_
    rwa [← List.nil_append document.text, dropWhile_run_append isRun_nil plain]
  cases document with
  | plain gap => exact ⟨unmarked, valid⟩
  | chained gap chain rest =>
    obtain ⟨gapUnmarked, last, chainValid, follows, restValid⟩ := valid
    refine ⟨⟨unmarked, gapUnmarked⟩, ?_, chainValid, follows, restValid⟩
    intro d final
    -- Only in front of an empty gap does the new character touch the chain.
    cases gap with
    | cons first gap => exact last d (by simpa using final)
    | nil =>
      cases final
      by_contra delimiter
      rw [Bool.not_eq_false] at delimiter
      obtain ⟨tag, member, start⟩ := chainValid.exists_isPrefix_dropWhile distinguishable rest.text
      exact separate delimiter tag member start

/-- Every text is a valid document, whatever its markers are glued to. -/
theorem valid_ofText (text : Text) : (ofText tags text).Valid tags := by
  fun_induction ofText tags text with
  | case1 => trivial
  | case2 c rest links here ih =>
    have ends := endsChain_linksOf distinguishable _ (startsPlain_dropWhile rest)
    have lead : IsRun (c :: rest.takeWhile isDelimiter) := by
      intro d member
      rcases List.mem_cons.mp member with rfl | later
      · exact here.1
      · exact isRun_takeWhile rest d later
    have tagged : ∀ link ∈ links.1, link.tag ∈ tags ∧ IsRun link.run :=
      linksOf_valid (rest.dropWhile isDelimiter)
    refine ⟨trivial, nofun, ⟨by simp, lead, here.2, fun link member => (tagged link member).1,
      fun link member => (tagged link member).2⟩, ?_, ih⟩
    rw [follows_iff distinguishable ih, text_ofText]
    exact ends
  | case3 c rest links here ih =>
    refine valid_prepend distinguishable ih fun delimiter => ?_
    rw [text_ofText, ← linksOf_eq_nil_iff distinguishable]
    by_contra linked
    exact here ⟨delimiter, linked⟩

theorem exists_valid (text : Text) : ∃ document : Document, document.Valid tags ∧ document.text = text :=
  ⟨ofText tags text, valid_ofText distinguishable text, text_ofText tags text⟩

end

end Document

end PlatformMarkers
