import PlatformMarkers.Proofs.Pieces
import PlatformMarkers.Rule.Basic

/-! Rewriting along a chain. One pass over a text, and also any number of passes made one
after another, goes along every chain once from left to right: what becomes of a tag and
of the run before it is decided by the marker right before it and by that run. -/

set_option autoImplicit false

namespace PlatformMarkers

/-- The runs that a rewriting puts before and after a tag. -/
structure Frame where
  lead : Text → Text
  trail : Text → Text

structure Frame.Valid (frame : Frame) (tags : List Text) : Prop where
  lead_ne_nil : ∀ tag ∈ tags, frame.lead tag ≠ []
  isRun_lead : ∀ tag ∈ tags, IsRun (frame.lead tag)
  isRun_trail : ∀ tag ∈ tags, IsRun (frame.trail tag)

structure Sweep where
  frame : Frame
  /-- Whether a tag is a marker, seen from the marker right before it, if that tag is one,
  and the run in between. -/
  marks : Option Text → Text → Text → Bool
  /-- Whether the second of two neighbouring markers has the last word on the run between. -/
  overrides : Text → Text → Bool

namespace Sweep

/-- The run that is left between two tags, of which those given are markers. -/
def leaves (sweep : Sweep) : Option Text → Text → Option Text → Text
  | none, run, none => run
  | none, _, some here => sweep.frame.lead here
  | some before, _, none => sweep.frame.trail before
  | some before, _, some here =>
    if sweep.overrides before here then sweep.frame.lead here else sweep.frame.trail before

@[simp] theorem leaves_none_none (sweep : Sweep) (run : Text) : sweep.leaves none run none = run := rfl

@[simp] theorem leaves_none_some (sweep : Sweep) (run here : Text) :
    sweep.leaves none run (some here) = sweep.frame.lead here := rfl

@[simp] theorem leaves_some_none (sweep : Sweep) (before run : Text) :
    sweep.leaves (some before) run none = sweep.frame.trail before := rfl

def marker? (sweep : Sweep) (before : Option Text) (run tag : Text) : Option Text :=
  if sweep.marks before run tag then some tag else none

def chainFrom (sweep : Sweep) (before : Option Text) : Text → List Link → Chain
  | run, [] => ⟨sweep.leaves before run none, []⟩
  | run, ⟨tag, next⟩ :: links =>
    let here := sweep.marker? before run tag
    let after := sweep.chainFrom here next links
    ⟨sweep.leaves before run here, ⟨tag, after.lead⟩ :: after.links⟩

def chain (sweep : Sweep) (chain : Chain) : Chain := sweep.chainFrom none chain.lead chain.links

@[simp] theorem tags_chainFrom (sweep : Sweep) (before : Option Text) (run : Text)
    (links : List Link) : (sweep.chainFrom before run links).links.map Link.tag = links.map Link.tag := by
  induction links generalizing before run with
  | nil => rfl
  | cons link links ih => simp [chainFrom, ih]

theorem mem_of_marker? {sweep : Sweep} {before : Option Text} {run tag here : Text}
    (marked : sweep.marker? before run tag = some here) : here = tag := by
  unfold marker? at marked
  split at marked
  · exact (Option.some.inj marked).symm
  · cases marked

end Sweep

namespace Frame

def pass (frame : Frame) (wanted : List Text) : Sweep where
  frame
  marks
    | none, run, tag => !run.isEmpty && wanted.contains tag
    | some _, _, _ => false
  overrides _ _ := false

def Precedes (order : List Text) (first second : Text) : Prop :=
  order.idxOf first < order.idxOf second

instance (order : List Text) (first second : Text) : Decidable (Precedes order first second) :=
  inferInstanceAs (Decidable (_ < _))

/-- A pass for each of the tags in order. At the time of a tag's pass, the run before it is
already the trail of the marker before it only if that marker's pass came first. -/
def passes (frame : Frame) (order : List Text) : Sweep where
  frame
  marks
    | none, run, tag => order.contains tag && !run.isEmpty
    | some before, run, tag => order.contains tag && before != tag &&
      if Precedes order before tag then !(frame.trail before).isEmpty else !run.isEmpty
  overrides before here := Precedes order before here

@[simp] theorem frame_pass (frame : Frame) (wanted : List Text) : (frame.pass wanted).frame = frame := rfl

@[simp] theorem frame_passes (frame : Frame) (order : List Text) :
    (frame.passes order).frame = frame := rfl

end Frame

namespace Sweep

theorem marker?_pass_none (frame : Frame) (wanted : List Text) (run tag : Text) :
    (frame.pass wanted).marker? none run tag = if run ≠ [] ∧ tag ∈ wanted then some tag else none := by
  simp [marker?, Frame.pass]

@[simp] theorem marker?_pass_some (frame : Frame) (wanted : List Text) (before run tag : Text) :
    (frame.pass wanted).marker? (some before) run tag = none := rfl

theorem chainFrom_pass_some (frame : Frame) (wanted : List Text) (before run : Text)
    (links : List Link) : (frame.pass wanted).chainFrom (some before) run links =
      ⟨frame.trail before, ((frame.pass wanted).chainFrom none [] links).links⟩ := by
  cases links <;> simp [chainFrom, marker?_pass_none]

theorem lead_chainFrom_pass_nil (frame : Frame) (wanted : List Text) (links : List Link) :
    ((frame.pass wanted).chainFrom none [] links).lead = [] := by
  cases links <;> simp [chainFrom, marker?_pass_none]

theorem replace_piecesFrom {frame : Frame} {wanted : List Text} {substitute : Text → Text}
    (framed : ∀ tag ∈ wanted, substitute tag = frame.lead tag ++ tag ++ frame.trail tag)
    (lead : Text) (links : List Link) :
    (Chain.piecesFrom wanted lead links).flatMap (Piece.replace substitute) =
      ((frame.pass wanted).chainFrom none lead links).text := by
  induction links generalizing lead with
  | nil => simp [Chain.piecesFrom, chainFrom, Chain.text, Piece.flatMap_replace_plain]
  | cons link links ih =>
    obtain ⟨tag, run⟩ := link
    have here := marker?_pass_none frame wanted lead tag
    rw [Chain.piecesFrom]
    split
    next marks =>
      rw [if_pos marks] at here
      -- The marker has used up the run after it.
      have later := ih []
      rw [Chain.text, lead_chainFrom_pass_nil, List.nil_append] at later
      rw [List.flatMap_cons, later, Piece.replace, framed tag marks.2]
      simp [chainFrom, here, Chain.text, Link.text, chainFrom_pass_some]
    next silent =>
      rw [if_neg silent] at here
      rw [List.flatMap_append, List.flatMap_append, Piece.flatMap_replace_plain,
        Piece.flatMap_replace_plain, ih run]
      simp [chainFrom, here, Chain.text, Link.text]

/-! ## Sweeps keep chains and documents valid -/

section
variable {tags : List Text} {sweep : Sweep} (framed : sweep.frame.Valid tags)
include framed

theorem isRun_leaves {before here : Option Text} {run : Text} (isRun : IsRun run)
    (beforeMember : ∀ tag ∈ before, tag ∈ tags) (hereMember : ∀ tag ∈ here, tag ∈ tags) :
    IsRun (sweep.leaves before run here) := by
  cases before with
  | none =>
    cases here with
    | none => exact isRun
    | some here => exact framed.isRun_lead here (hereMember here rfl)
  | some before =>
    have trail := framed.isRun_trail before (beforeMember before rfl)
    cases here with
    | none => exact trail
    | some here =>
      rw [leaves]
      split
      · exact framed.isRun_lead here (hereMember here rfl)
      · exact trail

theorem isRun_chainFrom {before : Option Text} {run : Text} {links : List Link}
    (beforeMember : ∀ tag ∈ before, tag ∈ tags) (isRun : IsRun run)
    (members : ∀ link ∈ links, link.tag ∈ tags) (runs : ∀ link ∈ links, IsRun link.run) :
    IsRun (sweep.chainFrom before run links).lead ∧
      ∀ link ∈ (sweep.chainFrom before run links).links, IsRun link.run := by
  induction links generalizing before run with
  | nil => exact ⟨isRun_leaves framed isRun beforeMember nofun, nofun⟩
  | cons link links ih =>
    have hereMember : ∀ here ∈ sweep.marker? before run link.tag, here ∈ tags := by
      intro here marked
      rw [mem_of_marker? marked]
      exact members link (by simp)
    have later := ih hereMember (runs link (by simp))
      (fun link member => members link (by simp [member]))
      (fun link member => runs link (by simp [member]))
    refine ⟨isRun_leaves framed isRun beforeMember hereMember, fun other member => ?_⟩
    rcases List.mem_cons.mp member with rfl | member
    · exact later.1
    · exact later.2 other member

theorem valid_chain {chain : Chain} (valid : chain.Valid tags) : (sweep.chain chain).Valid tags := by
  obtain ⟨lead, links⟩ := chain
  have same := sweep.tags_chainFrom none lead links
  have start : ∀ tag ∈ (none : Option Text), tag ∈ tags := nofun
  have runs := isRun_chainFrom framed start valid.isRun_lead valid.mem_tags valid.isRun_run
  refine ⟨?_, runs.1, ?_, ?_, runs.2⟩
  · cases links with
    | nil => exact absurd rfl valid.links_ne_nil
    | cons link links =>
      cases marked : sweep.marker? none lead link.tag with
      | none => simpa [Sweep.chain, chainFrom, marked] using valid.lead_ne_nil
      | some here =>
        rw [mem_of_marker? marked] at marked
        simpa [Sweep.chain, chainFrom, marked] using
          framed.lead_ne_nil link.tag (valid.mem_tags link (by simp))
  · intro empty
    have none := congrArg (List.map Link.tag) empty
    rw [Sweep.chain, same] at none
    exact valid.links_ne_nil (by simpa using none)
  · intro link member
    have mapped := List.mem_map_of_mem (f := Link.tag) member
    rw [Sweep.chain, same] at mapped
    obtain ⟨other, otherMember, sameTag⟩ := List.mem_map.mp mapped
    exact sameTag ▸ valid.mem_tags other otherMember

end

end Sweep

namespace Document

theorem follows_map {tags : List Text} {change : Chain → Chain} {document : Document}
    (follows : document.Follows tags) : (document.map change).Follows tags := by
  cases document with
  | plain gap => exact follows
  | chained gap chain rest => exact ⟨follows.1, fun _ => follows.2 (by simp [chains])⟩

theorem valid_map {tags : List Text} {change : Chain → Chain}
    (keeps : ∀ chain : Chain, chain.Valid tags → (change chain).Valid tags) {document : Document}
    (valid : document.Valid tags) : (document.map change).Valid tags := by
  induction document with
  | plain gap => exact valid
  | chained gap chain rest ih =>
    obtain ⟨unmarked, last, chainValid, follows, restValid⟩ := valid
    exact ⟨unmarked, last, keeps chain chainValid, follows_map follows, ih restValid⟩

theorem valid_map_sweep {tags : List Text} {sweep : Sweep} (framed : sweep.frame.Valid tags)
    {document : Document} (valid : document.Valid tags) : (document.map sweep.chain).Valid tags :=
  valid_map (fun _ chainValid => Sweep.valid_chain framed chainValid) valid

theorem map_map (second first : Chain → Chain) (document : Document) :
    (document.map first).map second = document.map (second ∘ first) := by
  induction document with
  | plain gap => rfl
  | chained gap chain rest ih => simp [map, ih]

@[simp] theorem map_id (document : Document) : document.map id = document := by
  induction document with
  | plain gap => rfl
  | chained gap chain rest ih => simp [map, ih]

theorem map_congr {first second : Chain → Chain} {document : Document}
    (same : ∀ chain ∈ document.chains, first chain = second chain) :
    document.map first = document.map second := by
  induction document with
  | plain gap => rfl
  | chained gap chain rest ih =>
    have later := ih fun other member => same other (by simp [chains, member])
    rw [map, map, same chain (by simp [chains]), later]

theorem Valid.of_mem {tags : List Text} {document : Document} (valid : document.Valid tags)
    {chain : Chain} (member : chain ∈ document.chains) : chain.Valid tags := by
  induction document with
  | plain gap => cases member
  | chained gap first rest ih =>
    rcases List.mem_cons.mp member with rfl | later
    · exact valid.2.2.1
    · exact ih valid.2.2.2.2 later

theorem startsPlain_text_map {tags : List Text} (distinguishable : Distinguishable tags)
    {change : Chain → Chain}
    (keeps : ∀ chain : Chain, chain.Valid tags → (change chain).Valid tags) {document : Document}
    (valid : document.Valid tags) (follows : document.Follows tags) :
    StartsPlain (document.map change).text :=
  ((follows_iff distinguishable (valid_map keeps valid)).mp (follows_map follows)).1

theorem text_map_eq_iff {tags : List Text} (distinguishable : Distinguishable tags)
    {first second : Chain → Chain}
    (firstKeeps : ∀ chain : Chain, chain.Valid tags → (first chain).Valid tags)
    (secondKeeps : ∀ chain : Chain, chain.Valid tags → (second chain).Valid tags)
    (sameTags : ∀ chain, (first chain).links.map Link.tag = (second chain).links.map Link.tag)
    {document : Document} (valid : document.Valid tags) :
    (document.map first).text = (document.map second).text ↔
      ∀ chain ∈ document.chains, first chain = second chain := by
  refine ⟨fun same => ?_, fun same => by rw [map_congr same]⟩
  induction document with
  | plain gap => nofun
  | chained gap chain rest ih =>
    obtain ⟨_, _, chainValid, follows, restValid⟩ := valid
    have one := firstKeeps chain chainValid
    have other := secondKeeps chain chainValid
    simp only [map, text, List.append_assoc, Chain.text] at same
    -- The gaps and the tags are the same on both sides, and the runs are read off between them.
    obtain ⟨lead, links, restSame⟩ := links_append_inj distinguishable one.isRun_lead other.isRun_lead
      one.isRun_run other.isRun_run one.mem_tags (sameTags chain)
      (startsPlain_text_map distinguishable firstKeeps restValid follows)
      (startsPlain_text_map distinguishable secondKeeps restValid follows)
      (List.append_cancel_left same)
    intro other member
    rcases List.mem_cons.mp member with rfl | later
    · exact Chain.ext lead links
    · exact ih restValid restSame other later

theorem replaceMarkers_text {tags wanted : List Text} (distinguishable : Distinguishable tags)
    (subset : wanted ⊆ tags) {frame : Frame} {substitute : Text → Text}
    (framed : ∀ tag ∈ wanted, substitute tag = frame.lead tag ++ tag ++ frame.trail tag)
    {document : Document} (valid : document.Valid tags) :
    replaceMarkers wanted substitute document.text =
      (document.map (frame.pass wanted).chain).text := by
  rw [replaceMarkers, scan_document distinguishable subset valid]
  induction document with
  | plain gap => exact Piece.flatMap_replace_plain substitute gap
  | chained gap chain rest ih =>
    rw [Document.pieces, List.flatMap_append, List.flatMap_append, Piece.flatMap_replace_plain,
      ih valid.2.2.2.2, Chain.pieces, Sweep.replace_piecesFrom framed, map, text, List.append_assoc]
    rfl

end Document

/-! ## Passes made one after another -/

namespace Frame

variable {order : List Text} {before tag last : Text}

theorem precedes_append_iff (beforeMember : before ∈ order) (member : tag ∈ order) :
    Precedes (order ++ [last]) before tag ↔ Precedes order before tag := by
  simp [Precedes, List.idxOf_append, beforeMember, member]

theorem precedes_last (beforeMember : before ∈ order) (fresh : last ∉ order) :
    Precedes (order ++ [last]) before last := by
  simp [Precedes, List.idxOf_append, beforeMember, fresh, List.idxOf_lt_length_of_mem beforeMember]

theorem not_last_precedes (fresh : last ∉ order) (member : tag ∈ order) :
    ¬ Precedes (order ++ [last]) last tag := by
  have within := List.idxOf_lt_length_of_mem member
  simp [Precedes, List.idxOf_append, fresh, member]
  omega

end Frame

namespace Sweep

section
variable (frame : Frame) (order : List Text)

theorem marker?_passes_none (run tag : Text) : (frame.passes order).marker? none run tag =
    if tag ∈ order ∧ run ≠ [] then some tag else none := by
  simp [marker?, Frame.passes]

theorem marker?_passes_some (before run tag : Text) :
    (frame.passes order).marker? (some before) run tag =
      if tag ∈ order ∧ before ≠ tag ∧
        (if Frame.Precedes order before tag then frame.trail before ≠ [] else run ≠ [])
      then some tag else none := by
  simp [marker?, Frame.passes, and_assoc]

theorem mem_order_of_marker? {before : Option Text} {run tag here : Text}
    (marked : (frame.passes order).marker? before run tag = some here) : here ∈ order := by
  have same := mem_of_marker? marked
  subst same
  cases before with
  | none =>
    rw [marker?_passes_none, Option.ite_none_right_eq_some] at marked
    exact marked.1.1
  | some before =>
    rw [marker?_passes_some, Option.ite_none_right_eq_some] at marked
    exact marked.1.1

theorem leaves_passes_both (before run here : Text) :
    (frame.passes order).leaves (some before) run (some here) =
      if Frame.Precedes order before here then frame.lead here else frame.trail before := by
  simp [leaves, Frame.passes]

variable {order} {last : Text}

theorem marker?_append_of_ne {before : Option Text} (members : ∀ tag ∈ before, tag ∈ order)
    {tag : Text} (different : tag ≠ last) (run : Text) :
    (frame.passes (order ++ [last])).marker? before run tag =
      (frame.passes order).marker? before run tag := by
  cases before with
  | none => simp [marker?_passes_none, different]
  | some before =>
    by_cases member : tag ∈ order
    · simp [marker?_passes_some, member, Frame.precedes_append_iff (members before rfl) member]
    · simp [marker?_passes_some, member, different]

theorem leaves_append {before here : Option Text} (members : ∀ tag ∈ before, tag ∈ order)
    (hereMembers : ∀ tag ∈ here, tag ∈ order) (run : Text) :
    (frame.passes (order ++ [last])).leaves before run here =
      (frame.passes order).leaves before run here := by
  cases before with
  | none => cases here <;> rfl
  | some before =>
    cases here with
    | none => rfl
    | some here =>
      simp [leaves_passes_both, Frame.precedes_append_iff (members before rfl) (hereMembers here rfl)]

section
variable (fresh : last ∉ order)
include fresh

theorem marker?_fresh (before : Option Text) (run : Text) :
    (frame.passes order).marker? before run last = none := by
  cases before with
  | none => simp [marker?_passes_none, fresh]
  | some before => simp [marker?_passes_some, fresh]

theorem marker?_append_last {before : Option Text} (members : ∀ tag ∈ before, tag ∈ order)
    (run : Text) : (frame.passes (order ++ [last])).marker? before run last =
      if (frame.passes order).leaves before run none ≠ [] then some last else none := by
  cases before with
  | none => by_cases empty : run = [] <;> simp [marker?_passes_none, empty]
  | some before =>
    have member := members before rfl
    have different : before ≠ last := fun same => fresh (same ▸ member)
    by_cases empty : frame.trail before = [] <;>
      simp [marker?_passes_some, different, Frame.precedes_last member fresh, empty]

theorem marker?_append_after_last (run tag : Text) :
    (frame.passes (order ++ [last])).marker? (some last) run tag =
      (frame.passes order).marker? none run tag := by
  by_cases member : tag ∈ order
  · have different : last ≠ tag := fun same => fresh (same ▸ member)
    simp [marker?_passes_some, marker?_passes_none, member, different,
      Frame.not_last_precedes fresh member]
  · by_cases same : tag = last
    · simp [marker?_passes_some, marker?_passes_none, fresh, same]
    · simp [marker?_passes_some, marker?_passes_none, member, same]

theorem leaves_append_last {before : Option Text} (members : ∀ tag ∈ before, tag ∈ order)
    (run : Text) :
    (frame.passes (order ++ [last])).leaves before run (some last) = frame.lead last := by
  cases before with
  | none => rfl
  | some before => simp [leaves_passes_both, Frame.precedes_last (members before rfl) fresh]

theorem leaves_append_after_last {here : Option Text} (members : ∀ tag ∈ here, tag ∈ order)
    (run : Text) :
    (frame.passes (order ++ [last])).leaves (some last) run here = frame.trail last := by
  cases here with
  | none => rfl
  | some here => simp [leaves_passes_both, Frame.not_last_precedes fresh (members here rfl)]

/-- A further pass behind the others is one more pass of the same sweep. The sweeps are
compared link by link: either the further pass has just met its tag as a marker, and no
other pass has, or it has not, and only the markers of the other passes count. -/
theorem chainFrom_pass_passes (links : List Link) :
    (∀ before run, (∀ tag ∈ before, tag ∈ order) →
      (frame.pass [last]).chainFrom none ((frame.passes order).chainFrom before run links).lead
          ((frame.passes order).chainFrom before run links).links =
        (frame.passes (order ++ [last])).chainFrom before run links) ∧
    ∀ run,
      (frame.pass [last]).chainFrom (some last) ((frame.passes order).chainFrom none run links).lead
          ((frame.passes order).chainFrom none run links).links =
        (frame.passes (order ++ [last])).chainFrom (some last) run links := by
  induction links with
  | nil =>
    refine ⟨fun before run _ => ?_, fun run => ?_⟩
    · cases before <;> simp [chainFrom]
    · simp [chainFrom]
  | cons link links ih =>
    obtain ⟨tag, next⟩ := link
    obtain ⟨unmet, met⟩ := ih
    have nobody : ∀ tag ∈ (none : Option Text), tag ∈ order := nofun
    refine ⟨fun before run members => ?_, fun run => ?_⟩
    -- Only the tag of the further pass itself can lead from the first case to the second.
    · by_cases same : tag = last
      · subst same
        simp only [chainFrom, marker?_fresh frame fresh, marker?_append_last frame fresh members,
          marker?_pass_none, List.mem_singleton, and_true]
        split
        · simp only [met, leaves_append_last frame fresh members, leaves_none_some, Frame.frame_pass]
        · simp only [unmet none next nobody, leaves_append frame members nobody, leaves_none_none]
      · have hereMembers : ∀ here ∈ (frame.passes order).marker? before run tag, here ∈ order :=
          fun here marked => mem_order_of_marker? frame order marked
        simp only [chainFrom, marker?_append_of_ne frame members same, marker?_pass_none,
          List.mem_singleton, same, and_false, if_false, unmet _ next hereMembers,
          leaves_append frame members hereMembers, leaves_none_none]
    · have hereMembers : ∀ here ∈ (frame.passes order).marker? none run tag, here ∈ order :=
        fun here marked => mem_order_of_marker? frame order marked
      simp only [chainFrom, marker?_append_after_last frame fresh, marker?_pass_some,
        unmet _ next hereMembers, leaves_append_after_last frame fresh hereMembers, leaves_some_none,
        Frame.frame_pass]

end

end

theorem chainFrom_passes_nil (frame : Frame) (run : Text) (links : List Link) :
    (frame.passes []).chainFrom none run links = ⟨run, links⟩ := by
  induction links generalizing run with
  | nil => rfl
  | cons link links ih => simp [chainFrom, marker?_passes_none, ih]

theorem chain_pass_comp_passes (frame : Frame) {order : List Text} {last : Text}
    (fresh : last ∉ order) :
    (frame.pass [last]).chain ∘ (frame.passes order).chain = (frame.passes (order ++ [last])).chain := by
  funext chain
  exact (chainFrom_pass_passes frame fresh chain.links).1 none chain.lead nofun

end Sweep

/-! ## Tables whose substitutes frame their tags -/

def Table.Framed (table : Table) (frame : Frame) : Prop :=
  ∀ rule ∈ table, rule.substitute = frame.lead rule.tag ++ rule.tag ++ frame.trail rule.tag

@[simp] theorem Table.tags_cons (rule : Rule) (table : Table) :
    Table.tags (rule :: table) = rule.tag :: table.tags := rfl

theorem Table.mem_of_substituteFor {table : Table} {tag : Text} (member : tag ∈ table.tags) :
    ∃ rule ∈ table, rule.tag = tag ∧ table.substituteFor tag = rule.substitute := by
  unfold Table.substituteFor
  cases found : table.find? (·.tag == tag) with
  | none =>
    obtain ⟨rule, ruleMember, rfl⟩ := List.mem_map.mp member
    exact absurd (List.find?_eq_none.mp found rule ruleMember) (by simp)
  | some rule =>
    have same := List.find?_some found
    exact ⟨rule, List.mem_of_find?_eq_some found, by simpa using same, rfl⟩

namespace Document

section
variable {tags : List Text} (distinguishable : Distinguishable tags) {frame : Frame}
  (valid : frame.Valid tags) {document : Document} (documentValid : document.Valid tags)
include distinguishable documentValid

theorem applySimultaneously_text {table : Table} (subset : table.tags ⊆ tags)
    (framed : table.Framed frame) :
    table.applySimultaneously document.text = (document.map (frame.pass table.tags).chain).text := by
  refine replaceMarkers_text distinguishable subset (fun tag member => ?_) documentValid
  obtain ⟨rule, ruleMember, rfl, same⟩ := Table.mem_of_substituteFor member
  rw [same, framed rule ruleMember]

include valid

theorem applySequentially_map (table : Table) (subset : table.tags ⊆ tags)
    (framed : table.Framed frame) (done : List Text) (distinct : (done ++ table.tags).Nodup) :
    table.applySequentially (document.map (frame.passes done).chain).text =
      (document.map (frame.passes (done ++ table.tags)).chain).text := by
  -- The passes that are done go before those to come, and the first rule joins them.
  induction table generalizing done with
  | nil => simp [Table.tags]
  | cons rule table ih =>
    rw [Table.tags_cons] at subset distinct ⊢
    rw [List.cons_subset] at subset
    have fresh : rule.tag ∉ done := fun member =>
      (List.nodup_append.mp distinct).2.2 _ member _ (by simp) rfl
    have ruleFramed : ∀ tag ∈ [rule.tag],
        rule.substitute = frame.lead tag ++ tag ++ frame.trail tag := by
      simpa using framed rule (by simp)
    have swept : (document.map (frame.passes done).chain).Valid tags :=
      valid_map_sweep valid documentValid
    rw [Table.applySequentially_cons, Rule.apply, replaceMarkers_text distinguishable
      (by simpa using subset.1) ruleFramed swept, map_map, Sweep.chain_pass_comp_passes frame fresh]
    rw [List.append_cons done rule.tag (Table.tags table)] at distinct ⊢
    exact ih subset.2 (fun other member => framed other (by simp [member])) _ distinct

theorem applySequentially_text {table : Table} (subset : table.tags ⊆ tags)
    (framed : table.Framed frame) (distinct : table.tags.Nodup) :
    table.applySequentially document.text = (document.map (frame.passes table.tags).chain).text := by
  have swept := applySequentially_map distinguishable valid documentValid table subset framed [] distinct
  have start : document.map (frame.passes []).chain = document.map id :=
    map_congr fun chain _ => Sweep.chainFrom_passes_nil frame chain.lead chain.links
  rwa [start, map_id, List.nil_append] at swept

end

end Document

end PlatformMarkers
