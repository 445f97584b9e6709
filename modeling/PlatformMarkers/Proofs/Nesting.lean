import PlatformMarkers.Mac.Balance
import PlatformMarkers.Proofs.Pieces
import Mathlib.Data.List.Basic

/-! The grammar of balanced documents. The markers of a document are in balance exactly if
their tags are well nested: every region is closed by its own tag, and no region of dead code
stands inside another one. -/

set_option autoImplicit false

namespace PlatformMarkers

theorem mem_tags_of_mem_markers {tags : List Text} {text : Text} {marker : Marker}
    (member : marker ∈ markers tags text) : marker.tag ∈ tags := by
  obtain ⟨piece, pieceMember, found⟩ := List.mem_filterMap.mp member
  cases piece with
  | plain c => cases found
  | marker other =>
    cases found
    exact mem_tags_of_mem_scan pieceMember

namespace Mac

def markerTags (text : Text) : List Tag :=
  (markers Tag.texts text).filterMap fun marker => Tag.ofText? marker.tag

theorem map_text_markerTags (text : Text) :
    (markerTags text).map Tag.text = (markers Tag.texts text).map Marker.tag := by
  have known : ∀ marker ∈ markers Tag.texts text,
      (Tag.ofText? marker.tag).map Tag.text = some marker.tag := by
    intro marker member
    obtain ⟨tag, _, same⟩ := List.mem_map.mp (mem_tags_of_mem_markers member)
    rw [← same, Tag.ofText?_text]
    rfl
  rw [markerTags, List.map_filterMap, List.filterMap_eq_map_iff_forall_eq_some]
  exact known

theorem map_tag_sightingsFrom (line : Nat) (pieces : List Piece) :
    (sightingsFrom line pieces).map Sighting.tag =
      (pieces.filterMap Piece.marker?).filterMap fun marker => Tag.ofText? marker.tag := by
  induction pieces generalizing line with
  | nil => rfl
  | cons piece pieces ih =>
    cases piece with
    | plain c => exact ih _
    | marker marker =>
      cases known : Tag.ofText? marker.tag <;> simp [sightingsFrom, Piece.marker?, known, ih]

theorem map_tag_sightings (text : Text) : (sightings text).map Sighting.tag = markerTags text :=
  map_tag_sightingsFrom 1 _

/-! ## Well-nested tags -/

/-- Whether code stands inside a region of dead code. -/
inductive Zone where
  | live
  | dead
  deriving DecidableEq, Repr

def Zone.within (zone : Zone) (region : Region) : Zone := if region.isBlock then .dead else zone

/-- A block comment cannot be opened inside another one. -/
def Zone.Admits (zone : Zone) (region : Region) : Prop := region.isBlock = true → zone = .live

inductive WellNested : Zone → List Tag → Prop where
  | nil {zone : Zone} : WellNested zone []
  | notMac {zone : Zone} {inner outer : List Tag} : WellNested zone inner → WellNested zone outer →
      WellNested zone (.opens .notMac :: inner ++ .closes .notMac :: outer)
  | mac {inner outer : List Tag} : WellNested .dead inner → WellNested .live outer →
      WellNested .live (.opens .mac :: inner ++ .closes .mac :: outer)
  | elseMac {inner outer : List Tag} : WellNested .dead inner → WellNested .live outer →
      WellNested .live (.opens .elseMac :: inner ++ .closes .elseMac :: outer)

namespace WellNested

theorem region {zone : Zone} {region : Region} {inner outer : List Tag}
    (admitted : zone.Admits region) (innerNested : WellNested (zone.within region) inner)
    (outerNested : WellNested zone outer) :
    WellNested zone (.opens region :: (inner ++ .closes region :: outer)) := by
  cases region with
  | notMac => exact notMac innerNested outerNested
  | mac =>
    obtain rfl := admitted rfl
    exact mac innerNested outerNested
  | elseMac =>
    obtain rfl := admitted rfl
    exact elseMac innerNested outerNested

theorem not_closes {zone : Zone} {region : Region} {tags : List Tag} :
    ¬ WellNested zone (.closes region :: tags) := nofun

theorem opens_iff {zone : Zone} {region : Region} {tags : List Tag} :
    WellNested zone (.opens region :: tags) ↔ zone.Admits region ∧
      ∃ inner outer, tags = inner ++ .closes region :: outer ∧
        WellNested (zone.within region) inner ∧ WellNested zone outer := by
  constructor
  · intro nested
    cases nested with
    | notMac inner outer => exact ⟨nofun, _, _, rfl, inner, outer⟩
    | mac inner outer => exact ⟨fun _ => rfl, _, _, rfl, inner, outer⟩
    | elseMac inner outer => exact ⟨fun _ => rfl, _, _, rfl, inner, outer⟩
  · rintro ⟨admitted, inner, outer, rfl, innerNested, outerNested⟩
    exact .region admitted innerNested outerNested

end WellNested

/-! ## The stack of open regions -/

def zoneOf (opened : List Region) : Zone := if opened.any Region.isBlock then .dead else .live

theorem zoneOf_cons (region : Region) (opened : List Region) :
    zoneOf (region :: opened) = (zoneOf opened).within region := by
  cases region <;> simp [zoneOf, Zone.within, Region.isBlock]

/-- The tags close all open regions, innermost first, and are well nested in between. -/
def Completes : List Region → List Tag → Prop
  | [], tags => WellNested .live tags
  | region :: opened, tags => ∃ inner outer, tags = inner ++ .closes region :: outer ∧
      WellNested (zoneOf (region :: opened)) inner ∧ Completes opened outer

theorem completes_nil_iff (opened : List Region) : Completes opened [] ↔ opened = [] := by
  cases opened with
  | nil => simp [Completes, WellNested.nil]
  | cons region opened => simp [Completes]

theorem completes_opens_iff {opened : List Region} {region : Region} {tags : List Tag} :
    Completes opened (.opens region :: tags) ↔
      (zoneOf opened).Admits region ∧ Completes (region :: opened) tags := by
  rw [Completes, zoneOf_cons]
  cases opened with
  | nil => exact WellNested.opens_iff
  | cons innermost opened =>
    constructor
    · rintro ⟨inner, outer, same, innerNested, completes⟩
      cases inner with
      | nil => cases same
      | cons tag inner =>
        obtain ⟨rfl, rfl⟩ := List.cons.inj same
        obtain ⟨admitted, first, second, rfl, firstNested, secondNested⟩ :=
          WellNested.opens_iff.mp innerNested
        -- Behind the region that is opened here, the innermost open one goes on.
        refine ⟨admitted, first, second ++ .closes innermost :: outer, by simp, firstNested, ?_⟩
        exact ⟨second, outer, rfl, secondNested, completes⟩
    · rintro ⟨admitted, first, _, rfl, firstNested, second, outer, rfl, secondNested, completes⟩
      exact ⟨_, outer, by simp, .region admitted firstNested secondNested, completes⟩

theorem not_completes_closes (region : Region) (tags : List Tag) :
    ¬ Completes [] (.closes region :: tags) := WellNested.not_closes

theorem completes_closes_iff {innermost region : Region} {opened : List Region} {tags : List Tag} :
    Completes (innermost :: opened) (.closes region :: tags) ↔
      region = innermost ∧ Completes opened tags := by
  constructor
  · rintro ⟨inner, outer, same, nested, completes⟩
    cases inner with
    | nil =>
      obtain ⟨closer, rfl⟩ := List.cons.inj same
      exact ⟨Tag.closes.inj closer, completes⟩
    | cons tag inner =>
      obtain ⟨rfl, -⟩ := List.cons.inj same
      exact absurd nested WellNested.not_closes
  · rintro ⟨rfl, completes⟩
    exact ⟨[], tags, rfl, .nil, completes⟩

theorem outermostBlock?_eq_none_iff (opened : List Site) :
    outermostBlock? opened = none ↔ zoneOf (opened.map Site.region) = .live := by
  simp [outermostBlock?, zoneOf]

theorem imbalancesFrom_eq_nil_iff (opened : List Site) (sightings : List Sighting) :
    imbalancesFrom opened sightings = [] ↔
      Completes (opened.map Site.region) (sightings.map Sighting.tag) := by
  -- Both sides take the sightings one by one and hold the same open regions.
  induction sightings generalizing opened with
  | nil => simp [imbalancesFrom, completes_nil_iff]
  | cons sighting sightings ih =>
    obtain ⟨region | region, line⟩ := sighting
    · have later := ih (⟨region, line⟩ :: opened)
      have live := outermostBlock?_eq_none_iff opened
      rw [List.map_cons, completes_opens_iff, imbalancesFrom, Zone.Admits, ← live]
      split
      next outer found =>
        rw [found]
        split
        next block => simp [block]
        next open_ => simpa [open_] using later
      next found => simpa [found] using later
    · cases opened with
      | nil => simp [imbalancesFrom, not_completes_closes]
      | cons innermost opened =>
        rw [List.map_cons, List.map_cons, completes_closes_iff, imbalancesFrom]
        split
        next same => simpa [same] using ih opened
        next differ => simp [differ]

theorem imbalances_eq_nil_iff (text : Text) :
    imbalances text = [] ↔ WellNested .live (markerTags text) := by
  unfold imbalances
  rw [imbalancesFrom_eq_nil_iff, map_tag_sightings]
  rfl

/-- A document is in balance exactly if the tags of its markers are well nested. -/
theorem balanced_iff_wellNested (text : Text) :
    (markerTags text).map Tag.text = (markers Tag.texts text).map Marker.tag ∧
      (imbalances text = [] ↔ WellNested .live (markerTags text)) :=
  ⟨map_text_markerTags text, imbalances_eq_nil_iff text⟩

end Mac

end PlatformMarkers
