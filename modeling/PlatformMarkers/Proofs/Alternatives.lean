import PlatformMarkers.Proofs.VisibleState
import PlatformMarkers.Proofs.RegularTable
import PlatformMarkers.Marker.Pattern

/-! The order of the tags in one pass. The alternatives are tried from the longest to the
shortest, and those of one length in the order of the table. That order cannot be seen: of
different tags with one length at most one begins at a place. -/

set_option autoImplicit false

namespace PlatformMarkers

namespace Pattern

theorem mem_longestFirst {tag : Text} {tags : List Text} : tag ∈ longestFirst tags ↔ tag ∈ tags := by
  induction tags with
  | nil => rfl
  | cons first rest ih =>
    rw [longestFirst, List.foldr_cons, mem_insertByLength, List.mem_cons, ← longestFirst, ih]

theorem pairwise_insertByLength (tag : Text) {tags : List Text}
    (sorted : tags.Pairwise fun first later => later.length ≤ first.length) :
    (insertByLength tag tags).Pairwise fun first later => later.length ≤ first.length := by
  induction tags with
  | nil => exact List.pairwise_singleton _ _
  | cons first rest ih =>
    obtain ⟨shorter, restSorted⟩ := List.pairwise_cons.mp sorted
    rw [insertByLength]
    split
    next longer =>
      refine List.pairwise_cons.mpr ⟨fun other member => ?_, ih restSorted⟩
      rcases mem_insertByLength.mp member with rfl | member
      · exact longer.le
      · exact shorter other member
    next noLonger =>
      have bounded := Nat.le_of_not_lt noLonger
      refine List.pairwise_cons.mpr ⟨fun other member => ?_, sorted⟩
      rcases List.mem_cons.mp member with rfl | member
      · exact bounded
      · exact (shorter other member).trans bounded

theorem pairwise_longestFirst (tags : List Text) :
    (longestFirst tags).Pairwise fun first later => later.length ≤ first.length := by
  induction tags with
  | nil => exact List.Pairwise.nil
  | cons first rest ih => exact pairwise_insertByLength first ih

end Pattern

theorem longestTag?_eq_find? (tags : List Text) (text : Text) :
    longestTag? tags text = (Pattern.longestFirst tags).find? (·.isPrefixOf text) := by
  cases found : (Pattern.longestFirst tags).find? (·.isPrefixOf text) with
  | none =>
    rw [List.find?_eq_none] at found
    exact longestTag?_eq_none_iff.mpr fun tag member start =>
      found tag (Pattern.mem_longestFirst.mpr member) (List.isPrefixOf_iff_prefix.mpr start)
  | some tag =>
    obtain ⟨start, before, later, same, refused⟩ := List.find?_eq_some_iff_append.mp found
    refine longestTag?_eq_some_iff.mpr ⟨Pattern.mem_longestFirst.mp (by simp [same]),
      List.isPrefixOf_iff_prefix.mp start, fun other member otherStart => ?_⟩
    have sorted := Pattern.pairwise_longestFirst tags
    have place := Pattern.mem_longestFirst.mpr member
    rw [same] at sorted place
    rcases List.mem_append.mp place with earlier | notEarlier
    · have fails := refused other earlier
      rw [List.isPrefixOf_iff_prefix.mpr otherStart] at fails
      cases fails
    · rcases List.mem_cons.mp notEarlier with rfl | behind
      · exact Nat.le_refl _
      · exact List.rel_of_pairwise_cons (List.pairwise_append.mp sorted).2.1 behind

/-! ## Tags in another order -/

section
variable {tags shuffled : List Text} (same : ∀ tag, tag ∈ shuffled ↔ tag ∈ tags)
include same

theorem longestTag?_of_same_mem (text : Text) : longestTag? shuffled text = longestTag? tags text := by
  refine Option.ext fun tag => ?_
  simp only [longestTag?_eq_some_iff, same]

theorem leadAndTag?_of_same_mem (text : Text) :
    leadAndTag? shuffled text = leadAndTag? tags text := by
  induction text with
  | nil => rfl
  | cons c rest ih => rw [leadAndTag?, leadAndTag?, ih, longestTag?_of_same_mem same]

theorem scanFrom_of_same_mem (skip : Nat) (found : List Piece) (text : Text) :
    scanFrom shuffled skip found text = scanFrom tags skip found text := by
  induction text generalizing skip found with
  | nil => rfl
  | cons c rest ih =>
    cases skip with
    | succ skip => exact ih skip found
    | zero => simp only [scanFrom, markerAt?, leadAndTag?_of_same_mem same, ih]

theorem scan_of_same_mem (text : Text) : scan shuffled text = scan tags text :=
  scanFrom_of_same_mem same 0 [] text

end

namespace Table

theorem applySimultaneously_perm {table shuffled : Table} (distinct : table.tags.Nodup)
    (permuted : shuffled.Perm table) (text : Text) :
    shuffled.applySimultaneously text = table.applySimultaneously text := by
  have tagsPermuted : shuffled.tags.Perm table.tags := permuted.map Rule.tag
  rw [applySimultaneously, replaceMarkers, scan_of_same_mem fun _ => tagsPermuted.mem_iff]
  refine List.flatMap_congr fun piece member => ?_
  cases piece with
  | plain c => rfl
  | marker marker =>
    obtain ⟨rule, ruleMember, sameTag⟩ := List.mem_map.mp (mem_tags_of_mem_scan member)
    rw [Piece.replace, Piece.replace, ← sameTag, substituteFor_of_mem distinct ruleMember]
    exact substituteFor_of_mem (tagsPermuted.nodup_iff.mpr distinct) (permuted.mem_iff.mpr ruleMember)

end Table

/-! ## Entries in another order -/

namespace TableDraft

theorem kept_step (draft : TableDraft) (step : Step) :
    (draft.step step).2.name = draft.name ∧ (draft.step step).2.verbose = draft.verbose := by
  cases step with
  | put entry =>
    rw [snd_step_put]
    split <;> exact ⟨rfl, rfl⟩
  | setMode mode =>
    rw [snd_step_setMode]
    split <;> exact ⟨rfl, rfl⟩
  | commit =>
    rw [snd_step_commit, commit_eq]
    exact ⟨rfl, rfl⟩
  | apply text => exact ⟨rfl, rfl⟩

theorem kept_after (draft : TableDraft) (steps : List Step) :
    (draft.after steps).name = draft.name ∧ (draft.after steps).verbose = draft.verbose := by
  induction steps generalizing draft with
  | nil => exact ⟨rfl, rfl⟩
  | cons step steps ih =>
    obtain ⟨sameName, sameVerbose⟩ := draft.kept_step step
    exact ⟨(ih _).1.trans sameName, (ih _).2.trans sameVerbose⟩

theorem nodup_tags_visible {draft : TableDraft} (flawless : draft.flaw? = none)
    (distinct : (draft.entries.map Entry.tag).Nodup) : draft.visible.tags.Nodup := by
  have tags := congrArg (List.map Prod.fst) (map_visible flawless)
  simp only [List.map_map, Function.comp_def] at tags
  rw [← tags] at distinct
  refine List.Nodup.of_map some ?_
  simpa [Table.tags, Function.comp_def] using distinct

theorem apply_of_perm (name : Text) (verbose : Bool) {steps others : List Step}
    (committed : (after { name, verbose } steps).committed = true)
    (otherCommitted : (after { name, verbose } others).committed = true)
    (simultaneous : (after { name, verbose } steps).mode = .simultaneous)
    (otherSimultaneous : (after { name, verbose } others).mode = .simultaneous)
    (permuted : (after { name, verbose } others).entries.Perm (after { name, verbose } steps).entries)
    (text : Text) :
    (after { name, verbose } others).apply text = (after { name, verbose } steps).apply text := by
  have flawless := (settled_fresh name verbose).after steps committed
  have distinct : ((after { name, verbose } steps).entries.map Entry.tag).Nodup := by
    rw [entries_after]
    exact (Entry.tabulates_putAll _).nodup
  have visiblePermuted : (after { name, verbose } others).visible.Perm
      (after { name, verbose } steps).visible := permuted.filterMap _
  have same := Table.applySimultaneously_perm (nodup_tags_visible flawless distinct)
    visiblePermuted text
  rw [apply_of_simultaneous committed simultaneous,
    apply_of_simultaneous otherCommitted otherSimultaneous, same]
  simp only [kept_after]

theorem after_puts_commit (name : Text) (verbose : Bool) {entries : List Entry}
    (tagged : ∀ entry ∈ entries, entry.tag.isSome = true) (distinct : (entries.map Entry.tag).Nodup) :
    after { name, verbose } (.setMode .simultaneous :: (entries.map .put ++ [.commit])) =
      { name, verbose, entries, mode := .simultaneous, committed := true } := by
  have puts := after_puts { name, verbose, mode := .simultaneous } rfl entries
  rw [Entry.foldl_put_of_nodup (by simpa using distinct)] at puts
  have noUntagged : entries.any (·.tag.isNone) = false := by
    simpa [Option.isSome_iff_ne_none] using tagged
  rw [← List.cons_append, after_append]
  refine (congrArg (fun draft => (step draft .commit).2) puts).trans ?_
  simp [step, commit, noUntagged]

end TableDraft

/-- The tag of a marker is the first alternative that begins behind its run, and in which order
alternatives of one length are tried cannot be seen: entries with different tags can be put into a
table in any order before it is committed for a single pass. -/
theorem apply_eq_of_perm_entries :
    (∀ tags text, longestTag? tags text =
      (Pattern.longestFirst tags).find? (·.isPrefixOf text)) ∧
    (∀ (name : Text) (verbose : Bool) (entries shuffled : List Entry),
      (∀ entry ∈ entries, entry.tag.isSome = true) → (entries.map Entry.tag).Nodup →
      shuffled.Perm entries →
      let draft (entries : List Entry) := TableDraft.after { name, verbose }
        (.setMode .simultaneous :: (entries.map .put ++ [.commit]))
      ∀ text, ∃ applied, (draft entries).apply text = .ok applied ∧
        (draft shuffled).apply text = .ok applied) ∧
    ∀ (name : Text) (verbose : Bool) (steps others : List TableDraft.Step),
      let draft := TableDraft.after { name, verbose } steps
      let other := TableDraft.after { name, verbose } others
      draft.committed = true → other.committed = true → draft.mode = .simultaneous →
        other.mode = .simultaneous → other.entries.Perm draft.entries →
        ∀ text, other.apply text = draft.apply text := by
  refine ⟨longestTag?_eq_find?, ?_, ?_⟩
  · intro name verbose entries shuffled tagged distinct permuted draft text
    have built : draft entries = _ := TableDraft.after_puts_commit name verbose tagged distinct
    have shuffledBuilt : draft shuffled = _ := TableDraft.after_puts_commit name verbose
      (fun entry member => tagged entry (permuted.subset member))
      ((permuted.map Entry.tag).nodup_iff.mpr distinct)
    have committed : (draft entries).committed = true := by rw [built]
    have shuffledCommitted : (draft shuffled).committed = true := by rw [shuffledBuilt]
    have simultaneous : (draft entries).mode = .simultaneous := by rw [built]
    have shuffledSimultaneous : (draft shuffled).mode = .simultaneous := by rw [shuffledBuilt]
    have sameEntries : (draft shuffled).entries.Perm (draft entries).entries := by
      rwa [built, shuffledBuilt]
    have applies := TableDraft.apply_of_simultaneous committed simultaneous text
    have same := TableDraft.apply_of_perm name verbose committed shuffledCommitted simultaneous
      shuffledSimultaneous sameEntries text
    exact ⟨_, applies, same.trans applies⟩
  · intro name verbose steps others draft other committed otherCommitted simultaneous
      otherSimultaneous permuted text
    exact TableDraft.apply_of_perm name verbose committed otherCommitted simultaneous
      otherSimultaneous permuted text

/-- Two tags of one length, of which only the second begins behind the first run, a tag that begins
with it, and the empty tag, which follows every run. In the other steps that second tag comes first,
and takes its substitute later. -/
theorem apply_eq_of_perm_entries_reversed :
    let entries : List Entry := [⟨some "b".toList, some "1".toList⟩,
      ⟨some "a".toList, some "2".toList⟩, ⟨some "ab".toList, some "3".toList⟩, ⟨some [], none⟩]
    let fresh : TableDraft := { name := "t".toList, verbose := true }
    let draft (entries : List Entry) := fresh.after
      (.setMode .simultaneous :: (entries.map .put ++ [.commit]))
    let other := fresh.after (.put ⟨some "a".toList, none⟩ :: .setMode .simultaneous ::
      (entries.map .put ++ [.commit]))
    let text := "x/a */ab //d".toList
    let applied : Applied := ⟨"x2 3 d".toList, [⟨"t".toList, text, "x2 3 d".toList⟩]⟩
    (entries.map Entry.tag).Nodup ∧ entries.reverse.Perm entries ∧
      (draft entries).apply text = .ok applied ∧ (draft entries.reverse).apply text = .ok applied ∧
      other.entries ≠ entries ∧ other.apply text = .ok applied := by
  intro entries fresh draft other text applied
  have permuted : entries.reverse.Perm entries := List.reverse_perm entries
  obtain ⟨given, first, second⟩ := apply_eq_of_perm_entries.2.1 "t".toList true entries
    entries.reverse (by decide) (by decide) permuted text
  have evaluated : (draft entries).apply text = .ok applied := by decide
  have same : given = applied := Except.ok.inj (first.symm.trans evaluated)
  have otherSame : other.apply text = (draft entries).apply text :=
    apply_eq_of_perm_entries.2.2 "t".toList true _ _ rfl rfl rfl rfl (by decide) text
  exact ⟨by decide, permuted, evaluated, second.trans (by rw [same]), by decide,
    otherSame.trans evaluated⟩

end PlatformMarkers
