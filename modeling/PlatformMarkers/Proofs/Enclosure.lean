import PlatformMarkers.Proofs.Nesting

/-! Places between the markers of a balanced document. A place lies in dead code exactly if a
marker before it opens a block comment and the marker that closes this one comes after it. -/

set_option autoImplicit false

namespace PlatformMarkers.Mac

def Zone.after (zone : Zone) : Tag → Zone
  | .opens region => zone.within region
  | .closes region => if region.isBlock then .live else zone

/-- Tags that pair off, whatever regions they open and close. -/
inductive Paired : List Tag → Prop where
  | nil : Paired []
  | region {region : Region} {inner outer : List Tag} : Paired inner → Paired outer →
      Paired (.opens region :: inner ++ .closes region :: outer)

/-- Some tag before the place opens a block comment, and the tag that closes it comes after. -/
def Enclosed (before after : List Tag) : Prop :=
  ∃ outer region first second rest, region.isBlock = true ∧ before = outer ++ .opens region :: first ∧
    after = second ++ .closes region :: rest ∧ Paired (first ++ second)

theorem Enclosed.extend {before after : List Tag} (enclosed : Enclosed before after)
    (earlier later : List Tag) : Enclosed (earlier ++ before) (after ++ later) := by
  obtain ⟨outer, region, first, second, rest, block, rfl, rfl, paired⟩ := enclosed
  exact ⟨earlier ++ outer, region, first, second, rest ++ later, block, by simp, by simp, paired⟩

namespace WellNested

theorem paired {zone : Zone} {tags : List Tag} (nested : WellNested zone tags) : Paired tags := by
  induction nested with
  | nil => exact .nil
  | notMac _ _ inner outer => exact .region inner outer
  | mac _ _ inner outer => exact .region inner outer
  | elseMac _ _ inner outer => exact .region inner outer

theorem foldl_after {zone : Zone} {tags : List Tag} (nested : WellNested zone tags) :
    tags.foldl Zone.after zone = zone := by
  induction nested with
  | nil => rfl
  | notMac _ _ inner outer => simp [Zone.after, Zone.within, Region.isBlock, inner, outer]
  | mac _ _ inner outer => simp [Zone.after, Zone.within, Region.isBlock, inner, outer]
  | elseMac _ _ inner outer => simp [Zone.after, Zone.within, Region.isBlock, inner, outer]

end WellNested

theorem region_append_cases {region : Region} {inner outer before after : List Tag}
    (same : .opens region :: inner ++ .closes region :: outer = before ++ after) :
    before = [] ∨
      (∃ first second, before = .opens region :: first ∧ inner = first ++ second ∧
        after = second ++ .closes region :: outer) ∨
      ∃ first, before = .opens region :: inner ++ .closes region :: first ∧ outer = first ++ after := by
  cases before with
  | nil => exact Or.inl rfl
  | cons tag before =>
    right
    obtain ⟨rfl, behind⟩ := List.cons.inj same
    rcases List.append_eq_append_iff.mp behind with ⟨middle, rfl, closer⟩ | ⟨second, rfl, rfl⟩
    · cases middle with
      | nil => exact Or.inl ⟨inner, [], by simp, by simp, closer.symm⟩
      | cons tag first =>
        obtain ⟨rfl, rfl⟩ := List.cons.inj closer
        exact Or.inr ⟨first, by simp, rfl⟩
    · exact Or.inl ⟨before, second, rfl, rfl, rfl⟩

theorem enclosed_of_block {region : Region} (block : region.isBlock = true) {inner outer : List Tag}
    (innerNested : WellNested .dead inner) (outerNested : ∀ before after, outer = before ++ after →
      before.foldl Zone.after .live = .dead → Enclosed before after) {before after : List Tag}
    (same : .opens region :: inner ++ .closes region :: outer = before ++ after)
    (dead : before.foldl Zone.after .live = .dead) : Enclosed before after := by
  rcases region_append_cases same with rfl | ⟨first, second, rfl, rfl, rfl⟩ | ⟨first, rfl, rfl⟩
  · cases dead
  · exact ⟨[], region, first, second, outer, block, rfl, rfl, innerNested.paired⟩
  · simp only [List.foldl_append, List.foldl_cons, Zone.after, Zone.within, block, if_true] at dead
    have enclosed := (outerNested first after rfl dead).extend
      (.opens region :: inner ++ [.closes region]) []
    simpa using enclosed

-- Inside dead code the statement says nothing, so that the derivation is followed in live
-- code only; a region of dead code is one step of it.
theorem enclosed_of_dead {zone : Zone} {tags : List Tag} (nested : WellNested zone tags)
    (live : zone = .live) : ∀ before after, tags = before ++ after →
      before.foldl Zone.after .live = .dead → Enclosed before after := by
  induction nested with
  | nil =>
    intro before after same dead
    obtain ⟨rfl, -⟩ := List.append_eq_nil_iff.mp same.symm
    cases dead
  | @notMac zone inner outer innerNested outerNested innerIh outerIh =>
    subst live
    intro before after same dead
    rcases region_append_cases same with rfl | ⟨first, second, rfl, rfl, rfl⟩ | ⟨first, rfl, rfl⟩
    · cases dead
    · have enclosed := innerIh rfl first second rfl dead
      simpa using enclosed.extend [.opens .notMac] (.closes .notMac :: outer)
    · have inside := innerNested.foldl_after
      simp only [List.cons_append, List.foldl_append, List.foldl_cons, Zone.after, Zone.within,
        Region.isBlock, Bool.false_eq_true, if_false, inside] at dead
      have enclosed := (outerIh rfl first after rfl dead).extend
        (.opens .notMac :: inner ++ [.closes .notMac]) []
      simpa using enclosed
  | mac innerNested _ _ outerIh =>
    intro before after same dead
    exact enclosed_of_block rfl innerNested (outerIh rfl) same dead
  | elseMac innerNested _ _ outerIh =>
    intro before after same dead
    exact enclosed_of_block rfl innerNested (outerIh rfl) same dead

/-! ## Enclosed places are dead -/

theorem exists_completes_of_append {opened : List Region} {first rest : List Tag}
    (completes : Completes opened (first ++ rest)) : ∃ opened, Completes opened rest := by
  induction first generalizing opened with
  | nil => exact ⟨opened, completes⟩
  | cons tag first ih =>
    cases tag with
    | opens region => exact ih (completes_opens_iff.mp completes).2
    | closes region =>
      cases opened with
      | nil => exact absurd completes (not_completes_closes region _)
      | cons innermost opened => exact ih (completes_closes_iff.mp completes).2

theorem Completes.of_paired {tags : List Tag} (paired : Paired tags) {opened : List Region}
    {rest : List Tag} (completes : Completes opened (tags ++ rest)) :
    WellNested (zoneOf opened) tags ∧ Completes opened rest := by
  induction paired generalizing opened rest with
  | nil => exact ⟨.nil, completes⟩
  | @region region inner outer _ _ innerIh outerIh =>
    simp only [List.cons_append, List.append_assoc] at completes
    obtain ⟨admitted, behindOpener⟩ := completes_opens_iff.mp completes
    obtain ⟨innerNested, atCloser⟩ := innerIh behindOpener
    obtain ⟨outerNested, restCompletes⟩ := outerIh (completes_closes_iff.mp atCloser).2
    rw [zoneOf_cons] at innerNested
    exact ⟨.region admitted innerNested outerNested, restCompletes⟩

theorem WellNested.after_dead {zone : Zone} {tags : List Tag} (nested : WellNested zone tags)
    (dead : zone = .dead) : ∀ tag ∈ tags, Zone.after .dead tag = .dead := by
  induction nested with
  | nil => simp
  | notMac _ _ inner outer =>
    have innerDead := inner dead
    have outerDead := outer dead
    simp only [List.cons_append, List.mem_cons, List.mem_append]
    rintro tag (rfl | member | rfl | member)
    · rfl
    · exact innerDead tag member
    · rfl
    · exact outerDead tag member
  | mac => cases dead
  | elseMac => cases dead

theorem foldl_after_dead {tags : List Tag} (stays : ∀ tag ∈ tags, Zone.after .dead tag = .dead) :
    tags.foldl Zone.after .dead = .dead := by
  induction tags with
  | nil => rfl
  | cons tag tags ih =>
    rw [List.foldl_cons, stays tag List.mem_cons_self]
    exact ih fun other member => stays other (List.mem_cons_of_mem _ member)

theorem dead_of_enclosed {before after : List Tag} (nested : WellNested .live (before ++ after))
    (enclosed : Enclosed before after) : before.foldl Zone.after .live = .dead := by
  obtain ⟨outer, region, first, second, rest, block, rfl, rfl, paired⟩ := enclosed
  have completes :
      Completes [] (outer ++ .opens region :: (first ++ second ++ .closes region :: rest)) := by
    simpa [Completes] using nested
  -- Whatever is open at the opener, the tags up to its closing one are nested in dead code.
  obtain ⟨opened, atOpener⟩ := exists_completes_of_append completes
  obtain ⟨inside, _⟩ := Completes.of_paired paired (completes_opens_iff.mp atOpener).2
  rw [zoneOf_cons, Zone.within, if_pos block] at inside
  have stays := inside.after_dead rfl
  rw [List.foldl_append, List.foldl_cons, Zone.after, Zone.within, if_pos block]
  exact foldl_after_dead fun tag member => stays tag (List.mem_append_left second member)

/-- Between the markers of a balanced document, dead code is what a block comment encloses. -/
theorem dead_iff_enclosed {before after : List Tag} (nested : WellNested .live (before ++ after)) :
    before.foldl Zone.after .live = .dead ↔ Enclosed before after :=
  ⟨enclosed_of_dead nested rfl before after rfl, dead_of_enclosed nested⟩

end PlatformMarkers.Mac
