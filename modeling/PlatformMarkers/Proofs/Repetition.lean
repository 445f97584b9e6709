import PlatformMarkers.Proofs.RegularTable
import PlatformMarkers.Mac.Toggling
import Mathlib.Dynamics.PeriodicPts.Defs

/-! Rewriting a text again and again. Whether a tag is a marker depends on nothing behind it,
so that a chain comes to rest tag by tag from its beginning, with every rewriting at least
one more. -/

set_option autoImplicit false

namespace PlatformMarkers

def Chain.cons (run tag : Text) (rest : Chain) : Chain := ⟨run, ⟨tag, rest.lead⟩ :: rest.links⟩

namespace Sweep

open Function (IsFixedPt)

def behind (sweep : Sweep) (before : Option Text) (chain : Chain) : Chain :=
  sweep.chainFrom before chain.lead chain.links

theorem behind_none (sweep : Sweep) : sweep.behind none = sweep.chain := rfl

theorem length_links_behind (sweep : Sweep) (before : Option Text) (chain : Chain) :
    (sweep.behind before chain).links.length = chain.links.length := by
  have same := congrArg List.length (sweep.tags_chainFrom before chain.lead chain.links)
  rwa [List.length_map, List.length_map] at same

theorem behind_cons (sweep : Sweep) (before : Option Text) (run tag : Text) (rest : Chain) :
    sweep.behind before (rest.cons run tag) =
      (sweep.behind (sweep.marker? before run tag) rest).cons
        (sweep.leaves before run (sweep.marker? before run tag)) tag := rfl

/-- The run before a tag stays as it is, and `here` is the tag if it is a marker. -/
structure Rests (sweep : Sweep) (before : Option Text) (run tag : Text) (here : Option Text) :
    Prop where
  marker?_eq : sweep.marker? before run tag = here
  leaves_eq : sweep.leaves before run here = run

namespace Rests

variable {sweep : Sweep} {before here : Option Text} {run tag : Text}
  (rests : sweep.Rests before run tag here)
include rests

theorem behind_cons (rest : Chain) :
    sweep.behind before (rest.cons run tag) = (sweep.behind here rest).cons run tag := by
  rw [Sweep.behind_cons, rests.marker?_eq, rests.leaves_eq]

theorem iterate_behind_cons (times : Nat) (rest : Chain) :
    (sweep.behind before)^[times] (rest.cons run tag) =
      ((sweep.behind here)^[times] rest).cons run tag := by
  induction times generalizing rest with
  | zero => rfl
  | succ times ih =>
    rw [Function.iterate_succ_apply, rests.behind_cons, ih, Function.iterate_succ_apply]

theorem isFixedPt_behind_cons {rest : Chain} (fixed : IsFixedPt (sweep.behind here) rest) :
    IsFixedPt (sweep.behind before) (rest.cons run tag) := by
  rw [IsFixedPt, rests.behind_cons, fixed]

end Rests

theorem isFixedPt_behind_nil (sweep : Sweep) (before : Option Text) (run : Text) :
    IsFixedPt (sweep.behind before) (sweep.behind before ⟨run, []⟩) := by
  cases before <;> rfl

section
variable {frame : Frame} {order : List Text} (valid : frame.Valid order)
include valid

theorem rests_leaves_none (run tag : Text) :
    (frame.passes order).Rests none
      ((frame.passes order).leaves none run ((frame.passes order).marker? none run tag)) tag
      ((frame.passes order).marker? none run tag) := by
  by_cases marks : tag ∈ order ∧ run ≠ []
  · have lead := valid.lead_ne_nil tag marks.1
    constructor <;> simp [marker?_passes_none, marks, lead]
  · constructor <;> simp [marker?_passes_none, marks]

/-- The run before a tag rests from the first sweep on, and so the tag itself from the second. -/
theorem exists_rests_leaves (before : Option Text) (run tag : Text) :
    ∃ here, (frame.passes order).Rests before
      ((frame.passes order).leaves before run ((frame.passes order).marker? before run tag)) tag
      here := by
  refine ⟨_, rfl, ?_⟩
  cases before with
  | none =>
    have rests := rests_leaves_none valid run tag
    rw [rests.marker?_eq, rests.leaves_eq]
  | some marker =>
    by_cases earlier : Frame.Precedes order marker tag
    -- The trail of the marker tells whether the tag is one, whatever stood between them.
    · have same : (frame.passes order).marker? (some marker) ((frame.passes order).leaves
          (some marker) run ((frame.passes order).marker? (some marker) run tag)) tag =
          (frame.passes order).marker? (some marker) run tag := by
        simp [marker?_passes_some, earlier]
      rw [same]
      cases (frame.passes order).marker? (some marker) run tag <;> rfl
    -- The marker has its pass last and leaves its trail in any case.
    · have trail (other last : Text) : (frame.passes order).leaves (some marker) last
          ((frame.passes order).marker? (some marker) other tag) = frame.trail marker := by
        cases here : (frame.passes order).marker? (some marker) other tag with
        | none => rfl
        | some other => rw [leaves_passes_both, mem_of_marker? here, if_neg earlier]
      rw [trail, trail]

/-- Behind whatever stays the same, a chain comes to rest within one more sweep than it has tags. -/
theorem isFixedPt_iterate_behind {count : Nat} {chain : Chain} (short : chain.links.length ≤ count)
    (before : Option Text) :
    IsFixedPt ((frame.passes order).behind before)
      (((frame.passes order).behind before)^[count + 1] chain) := by
  induction count generalizing chain before with
  | zero =>
    obtain ⟨run, links⟩ := chain
    obtain rfl := List.length_eq_zero_iff.mp (Nat.le_zero.mp short)
    exact isFixedPt_behind_nil _ before run
  | succ count ih =>
    obtain ⟨run, _ | ⟨⟨tag, next⟩, links⟩⟩ := chain
    · have fixed := isFixedPt_behind_nil (frame.passes order) before run
      rw [Function.iterate_succ_apply, fixed.iterate]
      exact fixed
    · obtain ⟨here, rests⟩ := exists_rests_leaves valid before run tag
      -- After the first sweep nothing changes any more in front of the next tag.
      let swept := (frame.passes order).behind ((frame.passes order).marker? before run tag)
        ⟨next, links⟩
      have shorter : swept.links.length ≤ count := by
        rw [length_links_behind]
        exact Nat.le_of_succ_le_succ short
      have fixed := rests.isFixedPt_behind_cons (ih shorter here)
      rwa [← rests.iterate_behind_cons, ← Sweep.behind_cons, ← Function.iterate_succ_apply] at fixed

theorem isFixedPt_iterate_chain {count : Nat} {chain : Chain} (short : chain.links.length ≤ count) :
    IsFixedPt (frame.passes order).chain ((frame.passes order).chain^[count] chain) := by
  rw [← behind_none]
  obtain ⟨run, _ | ⟨⟨tag, next⟩, links⟩⟩ := chain
  · have fixed : IsFixedPt ((frame.passes order).behind none) ⟨run, []⟩ := rfl
    rw [fixed.iterate]
    exact fixed
  · cases count with
    | zero => cases short
    | succ count =>
      -- The first tag rests at once, so that the rest has all the sweeps for itself.
      have rests := rests_leaves_none valid run tag
      have shorter : (Chain.mk next links).links.length ≤ count := Nat.le_of_succ_le_succ short
      have later := isFixedPt_iterate_behind valid shorter ((frame.passes order).marker? none run tag)
      have fixed := rests.isFixedPt_behind_cons later
      rwa [Function.iterate_succ_apply, ← rests.iterate_behind_cons, ← Sweep.behind_cons,
        ← Function.iterate_succ_apply] at fixed

end

end Sweep

namespace Table.Regular

open Function (IsFixedPt)

variable {table : Table} (regular : table.Regular)
include regular

theorem iterate_applySequentially_text (times : Nat) {document : Document}
    (valid : document.Valid table.tags) :
    table.applySequentially^[times] document.text =
      (document.map ((table.frame.passes table.tags).chain^[times])).text := by
  induction times generalizing document with
  | zero => rw [Function.iterate_zero, Function.iterate_zero, Document.map_id]; rfl
  | succ times ih =>
    have swept : (document.map (table.frame.passes table.tags).chain).Valid table.tags :=
      Document.valid_map_sweep regular.valid_frame valid
    rw [Function.iterate_succ_apply, regular.applySequentially_text valid, ih swept,
      Document.map_map, Function.iterate_succ]

theorem isFixedPt_iterate_applySequentially {times : Nat} {text : Text}
    (short : ∀ chain ∈ (Document.ofText table.tags text).chains, chain.links.length ≤ times) :
    IsFixedPt table.applySequentially (table.applySequentially^[times] text) := by
  have valid := Document.valid_ofText regular.distinguishable text
  have swept (times : Nat) := regular.iterate_applySequentially_text times valid
  simp only [Document.text_ofText] at swept
  rw [IsFixedPt, ← Function.iterate_succ_apply' table.applySequentially, swept, swept,
    Function.iterate_succ']
  refine congrArg Document.text (Document.map_congr fun chain member => ?_)
  exact Sweep.isFixedPt_iterate_chain regular.valid_frame (short chain member)

end Table.Regular

/-! ## Occurrences of a word -/

/-- The number of places of the text at which the word begins. -/
def occurrences (word text : Text) : Nat := text.tails.countP (word.isPrefixOf ·)

theorem occurrences_append_le {word : Text} (nonempty : word ≠ []) (first second : Text) :
    occurrences word first + occurrences word second ≤ occurrences word (first ++ second) := by
  induction first with
  | nil =>
    have none : occurrences word [] = 0 := by simp [occurrences, nonempty]
    simp [none]
  | cons c first ih =>
    have longer : word.isPrefixOf (c :: first) → word.isPrefixOf (c :: (first ++ second)) := by
      simp only [List.isPrefixOf_iff_prefix]
      exact fun start => start.trans (List.prefix_append (c :: first) second)
    simp only [occurrences, List.cons_append, List.tails_cons, List.countP_cons] at ih ⊢
    split <;> rename_i here
    · rw [if_pos (longer here)]
      omega
    · omega

example : occurrences "aa".toList ("a".toList ++ "aab".toList) = 2 := by decide

section
variable {tags : List Text} {word : Text} (nonempty : word ≠ [])
  (inside : ∀ tag ∈ tags, 0 < occurrences word tag)
include nonempty inside

theorem length_le_occurrences_links {links : List Link} (members : ∀ link ∈ links, link.tag ∈ tags) :
    links.length ≤ occurrences word (links.flatMap Link.text) := by
  induction links with
  | nil => exact Nat.zero_le _
  | cons link links ih =>
    have here := inside link.tag (members link (by simp))
    have later := ih fun other member => members other (by simp [member])
    have parts := occurrences_append_le nonempty link.tag
      (link.run ++ links.flatMap Link.text)
    have behind := occurrences_append_le nonempty link.run (links.flatMap Link.text)
    simp only [List.flatMap_cons, Link.text, List.append_assoc, List.length_cons]
    omega

theorem Document.length_links_le_occurrences {document : Document} (valid : document.Valid tags) :
    ∀ chain ∈ document.chains, chain.links.length ≤ occurrences word document.text := by
  induction document with
  | plain gap => nofun
  | chained gap chain rest ih =>
    obtain ⟨_, _, chainValid, _, restValid⟩ := valid
    have here := length_le_occurrences_links nonempty inside chainValid.mem_tags
    have leadParts := occurrences_append_le nonempty chain.lead (chain.links.flatMap Link.text)
    have gapParts := occurrences_append_le nonempty gap chain.text
    have parts := occurrences_append_le nonempty (gap ++ chain.text) rest.text
    rw [← Chain.text] at leadParts
    intro other member
    rw [Document.text]
    rcases List.mem_cons.mp member with rfl | later
    · omega
    · have := ih restValid other later
      omega

end

open Function (IsFixedPt IsPeriodicPt) in
theorem isFixedPt_of_isPeriodicPt {State : Type} {step : State → State} {state : State}
    {times period : Nat} (fixed : IsFixedPt step (step^[times] state))
    (periodic : IsPeriodicPt step period state) (positive : 0 < period) : IsFixedPt step state := by
  have back : step^[period * times] state = state := periodic.mul_const times
  have enough : times ≤ period * times := Nat.le_mul_of_pos_left times positive
  have rested : step^[period * times] state = step^[times] state := by
    rw [← Nat.sub_add_cancel enough, Function.iterate_add_apply]
    exact fixed.iterate _
  rwa [← rested, back] at fixed

namespace Mac

open Function (IsFixedPt IsPeriodicPt)

theorem isFixedPt_iterate_toggle (text : Text) :
    IsFixedPt (toggle .sequential)
      ((toggle .sequential)^[occurrences "MAC".toList text] text) := by
  have inside : ∀ tag ∈ table.tags, 0 < occurrences "MAC".toList tag := by decide
  have valid := Document.valid_ofText table_regular.distinguishable text
  have short := Document.length_links_le_occurrences (by decide) inside valid
  rw [Document.text_ofText] at short
  exact table_regular.isFixedPt_iterate_applySequentially short

/-- A text comes to rest within as many togglings as `MAC` occurs in it, and on the way there
no text comes back that a toggling has changed. -/
theorem iterate_toggle_occurrences (text : Text) :
    let times := occurrences "MAC".toList text
    (toggle .sequential)^[times + 1] text = (toggle .sequential)^[times] text ∧
      ∀ earlier period, 0 < period →
        (toggle .sequential)^[earlier + period] text = (toggle .sequential)^[earlier] text →
        (toggle .sequential)^[earlier + 1] text = (toggle .sequential)^[earlier] text := by
  intro times
  have fixed := isFixedPt_iterate_toggle text
  refine ⟨?_, fun earlier period positive back => ?_⟩
  · rw [Function.iterate_succ_apply']
    exact fixed
  · have periodic : IsPeriodicPt (toggle .sequential) period
        ((toggle .sequential)^[earlier] text) := by
      rwa [Nat.add_comm, Function.iterate_add_apply] at back
    have later : IsFixedPt (toggle .sequential)
        ((toggle .sequential)^[times] ((toggle .sequential)^[earlier] text)) := by
      rw [← Function.iterate_add_apply, Nat.add_comm, Function.iterate_add_apply, fixed.iterate]
      exact fixed
    rw [Function.iterate_succ_apply']
    exact isFixedPt_of_isPeriodicPt later periodic positive

theorem iterate_toggle_occurrences_glued :
    let text := "/END-MACIF-NOT-MAC/".toList
    let rested := "//END-MAC*/IF-NOT-MAC".toList
    occurrences "MAC".toList text = 2 ∧ toggle .sequential text ≠ rested ∧
      (toggle .sequential)^[2] text = rested ∧ (toggle .sequential)^[3] text = rested := by
  intro text rested
  have twice : (toggle .sequential)^[2] text = rested := by decide
  have later : (toggle .sequential)^[2 + 3] text = (toggle .sequential)^[2] text := by decide
  have still := (iterate_toggle_occurrences text).2 2 3 (by decide) later
  exact ⟨by decide, by decide, twice, still.trans twice⟩

end Mac

end PlatformMarkers
