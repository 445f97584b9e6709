import PlatformMarkers.Proofs.OrderIndependence
import PlatformMarkers.Mac.Toggling

/-! Rewriting a text a second time. The passes of the first rewriting can leave a run before
a tag whose own pass is over, or take away the run before a tag that had one. The second
rewriting then finds other markers than the first, and these are the only cases in which
it changes the text again. -/

set_option autoImplicit false

namespace PlatformMarkers

namespace Sweep

/-- A sweep that comes to a chain after `again`, and finds there what a sweep that came to
it after `before` has left, leaves that as it is. -/
def Repeats (sweep : Sweep) (again before : Option Text) (run : Text) (links : List Link) : Prop :=
  let left := sweep.chainFrom before run links
  sweep.chainFrom again left.lead left.links = left

theorem repeats_nil_iff (sweep : Sweep) (again before : Option Text) (run : Text) :
    sweep.Repeats again before run [] ↔
      sweep.leaves again (sweep.leaves before run none) none = sweep.leaves before run none := by
  simp [Repeats, chainFrom]

theorem repeats_cons_iff (sweep : Sweep) (again before : Option Text) (run tag next : Text)
    (links : List Link) : sweep.Repeats again before run (⟨tag, next⟩ :: links) ↔
      let here := sweep.marker? before run tag
      let left := sweep.leaves before run here
      let hereAgain := sweep.marker? again left tag
      sweep.leaves again left hereAgain = left ∧ sweep.Repeats hereAgain here next links := by
  simp [Repeats, chainFrom, Chain.ext_iff]

end Sweep

namespace Frame

section
variable (frame : Frame) (order : List Text)

/-- The run after a tag is another one than the tag leaves there if it becomes a marker. -/
def Replaces (tag run : Text) (following : Option Text) : Prop :=
  if frame.trail tag = [] then run ≠ []
  else
    match following with
    | none => run ≠ frame.trail tag
    | some after => Precedes order tag after → run = []

/-- The trail of a tag would go before another tag, if the tag were no marker any more. -/
def Withdraws (tag : Text) (following : Option Text) : Prop :=
  frame.trail tag ≠ [] ∧ ∃ after ∈ following, ¬ Precedes order tag after

/-- A marker whose pass comes after that of the tag behind it leaves a run there where none
was, or none where one was, and the tag is treated in another way the next time. -/
def Stirs (marker run tag next : Text) (following : Option Text) : Prop :=
  Precedes order tag marker ∧
    (run = [] ∧ frame.trail marker ≠ [] ∧ Replaces frame order tag next following ∨
      run ≠ [] ∧ frame.trail marker = [] ∧ Withdraws frame order tag following)

def Restless : Option Text → Text → List Link → Prop
  | _, _, [] => False
  | before, run, ⟨tag, next⟩ :: links =>
    (∃ marker ∈ before, Stirs frame order marker run tag next (links.head?.map Link.tag)) ∨
      Restless ((frame.passes order).marker? before run tag) next links

instance decidableReplaces (tag run : Text) : (following : Option Text) →
    Decidable (Replaces frame order tag run following)
  | none =>
    inferInstanceAs (Decidable (if frame.trail tag = [] then run ≠ [] else run ≠ frame.trail tag))
  | some after => inferInstanceAs
    (Decidable (if frame.trail tag = [] then run ≠ [] else Precedes order tag after → run = []))

instance (tag : Text) (following : Option Text) : Decidable (Withdraws frame order tag following) :=
  inferInstanceAs (Decidable (_ ∧ ∃ after ∈ following, _))

instance (marker run tag next : Text) (following : Option Text) :
    Decidable (Stirs frame order marker run tag next following) :=
  inferInstanceAs (Decidable (_ ∧ (_ ∨ _)))

instance decidableRestless : (before : Option Text) → (run : Text) → (links : List Link) →
    Decidable (Restless frame order before run links)
  | _, _, [] => isFalse not_false
  | before, run, ⟨tag, next⟩ :: links =>
    have := decidableRestless ((frame.passes order).marker? before run tag) next links
    inferInstanceAs (Decidable ((∃ marker ∈ before,
      Stirs frame order marker run tag next (links.head?.map Link.tag)) ∨ _))

/-- When a second sweep leaves what a first one has left along the links. The marker before
them may be one for both sweeps, for the second alone or for the first alone. -/
structure Compares (links : List Link) : Prop where
  same : ∀ before run, (∀ marker ∈ before, marker ∈ order) →
    ((frame.passes order).Repeats before before run links ↔ ¬ frame.Restless order before run links)
  gained : ∀ marker ∈ order, ∀ run,
    ((frame.passes order).Repeats (some marker) none run links ↔
      ¬ frame.Replaces order marker run (links.head?.map Link.tag) ∧
        ¬ frame.Restless order none run links)
  lost : ∀ marker ∈ order, ∀ run,
    ((frame.passes order).Repeats none (some marker) run links ↔
      ¬ frame.Withdraws order marker (links.head?.map Link.tag) ∧
        ¬ frame.Restless order (some marker) run links)

variable {frame order}

theorem precedes_trichotomy {first : Text} (firstMember : first ∈ order) (second : Text) :
    first = second ∨ Precedes order first second ∨ Precedes order second first := by
  rcases Nat.lt_trichotomy (order.idxOf first) (order.idxOf second) with less | same | greater
  · exact Or.inr (Or.inl less)
  · exact Or.inl ((List.idxOf_inj firstMember).mp same)
  · exact Or.inr (Or.inr greater)

theorem not_precedes_self (tag : Text) : ¬ Precedes order tag tag := Nat.lt_irrefl _

theorem Precedes.ne {first second : Text} (precedes : Precedes order first second) :
    first ≠ second := by
  rintro rfl
  exact not_precedes_self first precedes

theorem Precedes.not_precedes {first second : Text} (precedes : Precedes order first second) :
    ¬ Precedes order second first := Nat.lt_asymm precedes

theorem compares_nil : frame.Compares order [] where
  same before run _ := by
    cases before <;> simp [Sweep.repeats_nil_iff, Restless]
  gained marker _ run := by
    by_cases trail : frame.trail marker = [] <;>
      simp [Sweep.repeats_nil_iff, Restless, Replaces, trail, eq_comm]
  lost marker _ run := by
    simp [Sweep.repeats_nil_iff, Restless, Withdraws]

open Sweep

-- The three laws for one more link. Each proof splits on which of the two neighbouring tags
-- has its pass first, and then on whether a run stands between them before or afterwards.
section
variable (valid : frame.Valid order) {links : List Link} (compares : frame.Compares order links)
  {tag : Text} (member : tag ∈ order)
include valid compares member

theorem repeats_same_cons_iff {before : Option Text} (members : ∀ marker ∈ before, marker ∈ order)
    (run next : Text) :
    (frame.passes order).Repeats before before run (⟨tag, next⟩ :: links) ↔
      ¬ frame.Restless order before run (⟨tag, next⟩ :: links) := by
  have nobody : ∀ marker ∈ (none : Option Text), marker ∈ order := nofun
  have alone : ∀ marker ∈ some tag, marker ∈ order := by simpa using member
  have lead := valid.lead_ne_nil tag member
  rw [repeats_cons_iff]
  cases before with
  | none =>
    by_cases empty : run = []
    · simp [marker?_passes_none, empty, Restless, compares.same none next nobody]
    · simp [marker?_passes_none, empty, member, lead, Restless, compares.same (some tag) next alone]
  | some marker =>
    rcases precedes_trichotomy (members marker rfl) tag with rfl | earlier | later
    · simp [marker?_passes_some, Restless, Stirs, not_precedes_self, compares.same none next nobody]
    · by_cases trail : frame.trail marker = []
      · simp [marker?_passes_some, earlier, earlier.not_precedes, trail, Restless, Stirs,
          compares.same none next nobody]
      · simp [marker?_passes_some, earlier, earlier.ne, earlier.not_precedes, trail, member,
          leaves_passes_both, Restless, Stirs, compares.same (some tag) next alone]
    · by_cases trail : frame.trail marker = [] <;> by_cases empty : run = [] <;>
        simp [marker?_passes_some, later, later.ne.symm, later.not_precedes, trail, empty, member,
          leaves_passes_both, Restless, Stirs, compares.same _ next nobody,
          compares.same (some tag) next alone, compares.gained tag member next,
          compares.lost tag member next]

-- What is left between two tags tells which of them has set it.
variable (contrast : ∀ marker ∈ order, frame.trail marker ≠ frame.lead tag)
include contrast

theorem repeats_gained_cons_iff {marker : Text} (markerMember : marker ∈ order) (run next : Text) :
    (frame.passes order).Repeats (some marker) none run (⟨tag, next⟩ :: links) ↔
      ¬ frame.Replaces order marker run (some tag) ∧
        ¬ frame.Restless order none run (⟨tag, next⟩ :: links) := by
  have nobody : ∀ marker ∈ (none : Option Text), marker ∈ order := nofun
  have alone : ∀ marker ∈ some tag, marker ∈ order := by simpa using member
  have lead := valid.lead_ne_nil tag member
  have differ := contrast marker markerMember
  rw [repeats_cons_iff]
  rcases precedes_trichotomy markerMember tag with rfl | earlier | later
  · by_cases trail : frame.trail marker = [] <;> by_cases empty : run = [] <;>
      simp [marker?_passes_none, marker?_passes_some, trail, empty, member, lead, Restless,
        Replaces, not_precedes_self, differ, compares.same none next nobody]
  · by_cases trail : frame.trail marker = [] <;> by_cases empty : run = [] <;>
      simp [marker?_passes_none, marker?_passes_some, earlier, earlier.ne, trail, empty, member, lead,
        lead.symm, leaves_passes_both, Restless, Replaces, compares.same none next nobody,
        compares.same (some tag) next alone]
  · by_cases trail : frame.trail marker = [] <;> by_cases empty : run = [] <;>
      simp [marker?_passes_none, marker?_passes_some, later.ne.symm, later.not_precedes, trail, empty,
        member, lead, lead.symm, differ, leaves_passes_both, Restless, Replaces,
        compares.same none next nobody]

theorem repeats_lost_cons_iff {marker : Text} (markerMember : marker ∈ order) (run next : Text) :
    (frame.passes order).Repeats none (some marker) run (⟨tag, next⟩ :: links) ↔
      ¬ frame.Withdraws order marker (some tag) ∧
        ¬ frame.Restless order (some marker) run (⟨tag, next⟩ :: links) := by
  have nobody : ∀ marker ∈ (none : Option Text), marker ∈ order := nofun
  have alone : ∀ marker ∈ some tag, marker ∈ order := by simpa using member
  have lead := valid.lead_ne_nil tag member
  have differ := contrast marker markerMember
  rw [repeats_cons_iff]
  rcases precedes_trichotomy markerMember tag with rfl | earlier | later
  · by_cases trail : frame.trail marker = [] <;>
      simp [marker?_passes_none, marker?_passes_some, trail, member, Restless, Withdraws, Stirs,
        not_precedes_self, differ.symm, compares.same none next nobody]
  · by_cases trail : frame.trail marker = [] <;>
      simp [marker?_passes_none, marker?_passes_some, earlier, earlier.ne, earlier.not_precedes, trail,
        member, lead, leaves_passes_both, Restless, Withdraws, Stirs, compares.same none next nobody,
        compares.same (some tag) next alone]
  · by_cases trail : frame.trail marker = [] <;> by_cases empty : run = [] <;>
      simp [marker?_passes_none, marker?_passes_some, later, later.ne.symm, later.not_precedes, trail,
        empty, member, differ.symm, leaves_passes_both, Restless, Withdraws, Stirs,
        compares.same none next nobody, compares.lost tag member next]

end

theorem compares_of_mem (valid : frame.Valid order)
    (contrast : ∀ marker ∈ order, ∀ tag ∈ order, frame.trail marker ≠ frame.lead tag)
    {links : List Link} (members : ∀ link ∈ links, link.tag ∈ order) : frame.Compares order links := by
  induction links with
  | nil => exact compares_nil
  | cons link links ih =>
    have compares := ih fun link member => members link (by simp [member])
    have member : link.tag ∈ order := members link (by simp)
    have differs := fun marker markerMember => contrast marker markerMember link.tag member
    exact {
      same := fun _ run beforeMembers =>
        repeats_same_cons_iff valid compares member beforeMembers run link.run
      gained := fun _ markerMember run =>
        repeats_gained_cons_iff valid compares member differs markerMember run link.run
      lost := fun _ markerMember run =>
        repeats_lost_cons_iff valid compares member differs markerMember run link.run }

end

end Frame

theorem Table.Regular.applySequentially_applySequentially_iff {table : Table}
    (regular : table.Regular)
    (contrast : ∀ marker ∈ table.tags, ∀ tag ∈ table.tags,
      table.frame.trail marker ≠ table.frame.lead tag) (text : Text) :
    table.applySequentially (table.applySequentially text) = table.applySequentially text ↔
      ∀ chain ∈ (Document.ofText table.tags text).chains,
        ¬ table.frame.Restless table.tags none chain.lead chain.links := by
  have distinguishable := regular.distinguishable
  have framed := regular.valid_frame
  have valid := Document.valid_ofText distinguishable text
  let sweep := table.frame.passes table.tags
  have keeps : ∀ chain : Chain, chain.Valid table.tags → (sweep.chain chain).Valid table.tags :=
    fun _ chainValid => Sweep.valid_chain framed chainValid
  have keepsTwice : ∀ chain : Chain, chain.Valid table.tags →
      ((sweep.chain ∘ sweep.chain) chain).Valid table.tags :=
    fun chain chainValid => keeps _ (keeps chain chainValid)
  have tagsSame (chain : Chain) : ((sweep.chain ∘ sweep.chain) chain).links.map Link.tag =
      (sweep.chain chain).links.map Link.tag := by
    simp [Sweep.chain]
  have once := regular.applySequentially_text valid
  rw [Document.text_ofText] at once
  rw [once, regular.applySequentially_text (Document.valid_map keeps valid), Document.map_map,
    Document.text_map_eq_iff distinguishable keepsTwice keeps tagsSame valid]
  refine forall₂_congr fun chain member => ?_
  have compares := Frame.compares_of_mem framed contrast (valid.of_mem member).mem_tags
  exact compares.same none chain.lead (by simp)

namespace Mac

theorem table_contrast : ∀ marker ∈ table.tags, ∀ tag ∈ table.tags,
    table.frame.trail marker ≠ table.frame.lead tag := by
  decide

/-- Toggling a text twice is toggling it once exactly if no chain of its markers is restless. -/
theorem toggle_toggle_eq_iff (text : Text) :
    toggle .sequential (toggle .sequential text) = toggle .sequential text ↔
      ∀ chain ∈ (Document.ofText Tag.texts text).chains,
        ¬ table.frame.Restless Tag.texts none chain.lead chain.links :=
  table_regular.applySequentially_applySequentially_iff table_contrast text

example : table.frame.Restless Tag.texts none "/".toList
    [⟨"END-MAC".toList, []⟩, ⟨"IF-NOT-MAC".toList, "/".toList⟩] := by decide

/-- A tag glued to the end of a region becomes a marker only the second time, and then takes
away the run after it. -/
theorem toggle_toggle_ne :
    let text := "/END-MACIF-NOT-MAC/".toList
    toggle .sequential text = "//END-MAC*/IF-NOT-MAC/".toList ∧
      toggle .sequential (toggle .sequential text) = "//END-MAC*/IF-NOT-MAC".toList := by
  decide

theorem toggle_toggle_of_separated {text : Text} (separated : Separated Tag.texts text) :
    toggle .sequential (toggle .sequential text) = toggle .sequential text := by
  refine (table_regular.applySequentially_applySequentially_iff table_contrast text).mpr ?_
  have valid := Document.valid_ofText Tag.distinguishable text
  have single : (Document.ofText Tag.texts text).Single := by
    rwa [← Document.separated_text_iff Tag.distinguishable valid, Document.text_ofText]
  intro chain member
  obtain ⟨link, alone⟩ := single chain member
  simp [alone, Frame.Restless]

end Mac

end PlatformMarkers
