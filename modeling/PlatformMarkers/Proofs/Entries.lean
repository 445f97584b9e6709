import PlatformMarkers.Proofs.CommittedTable
import Mathlib.Data.List.Induction

/-! The entries of a table. Put one after another, entries make a table of distinct tags in the
order in which they first came, each with the substitute that came last. A commit takes over
the longest beginning of such a table in which no entry lacks a part. -/

set_option autoImplicit false

namespace PlatformMarkers.Entry

/-! ## Entries put one after another -/

theorem map_tag_put (entry : Entry) (entries : List Entry) : (entry.put entries).map tag =
    if entry.tag ∈ entries.map tag then entries.map tag else entries.map tag ++ [entry.tag] := by
  split
  next known =>
    induction entries with
    | nil => cases known
    | cons first rest ih =>
      rw [put]
      split
      next same => rw [List.map_cons, List.map_cons, same]
      next different =>
        have later : entry.tag ∈ rest.map tag :=
          (List.mem_cons.mp known).resolve_left (Ne.symm different)
        rw [List.map_cons, ih later, List.map_cons]
  next fresh => rw [put_of_fresh fresh, List.map_append, List.map_singleton]

theorem mem_put_self (entry : Entry) (entries : List Entry) : entry ∈ entry.put entries := by
  induction entries with
  | nil => exact List.mem_cons_self
  | cons first rest ih =>
    rw [put]
    split
    · exact List.mem_cons_self
    · exact List.mem_cons_of_mem first ih

theorem mem_of_mem_put {entry other : Entry} {entries : List Entry}
    (member : other ∈ entry.put entries) : other = entry ∨ other ∈ entries := by
  induction entries with
  | nil => exact Or.inl (List.mem_singleton.mp member)
  | cons first rest ih =>
    rw [put] at member
    split at member
    · exact (List.mem_cons.mp member).imp_right (List.mem_cons_of_mem first)
    · rcases List.mem_cons.mp member with rfl | later
      · exact Or.inr List.mem_cons_self
      · exact (ih later).imp_right (List.mem_cons_of_mem first)

theorem eq_or_mem_of_mem_put {entry other : Entry} {entries : List Entry}
    (distinct : (entries.map tag).Nodup) (member : other ∈ entry.put entries) :
    other = entry ∨ other ∈ entries ∧ other.tag ≠ entry.tag := by
  by_cases same : other.tag = entry.tag
  · have distinctAfter := nodup_tags_put entry distinct
    exact Or.inl (List.inj_on_of_nodup_map distinctAfter member (mem_put_self entry entries) same)
  · exact (mem_of_mem_put member).imp_right fun earlier => ⟨earlier, same⟩

theorem putAll_concat (entries : List Entry) (entry : Entry) :
    putAll (entries ++ [entry]) = entry.put (putAll entries) :=
  List.foldl_concat ..

theorem eraseDups_concat {Key : Type} [BEq Key] [LawfulBEq Key] (keys : List Key) (key : Key) :
    (keys ++ [key]).eraseDups = if key ∈ keys then keys.eraseDups else keys.eraseDups ++ [key] := by
  rw [List.eraseDups_append, List.removeAll]
  split <;> rename_i known <;> simp [known, List.eraseDups_cons]

/-- The table that is made of entries put one after another. -/
structure Tabulates (puts table : List Entry) : Prop where
  nodup : (table.map tag).Nodup
  tags_eq : table.map tag = (puts.map tag).eraseDups
  last : ∀ entry ∈ table, puts.reverse.find? (·.tag = entry.tag) = some entry

theorem tabulates_putAll (puts : List Entry) : Tabulates puts (putAll puts) := by
  induction puts using List.reverseRecOn with
  | nil => exact ⟨List.nodup_nil, rfl, nofun⟩
  | append_singleton puts entry ih =>
    rw [putAll_concat]
    refine ⟨nodup_tags_put entry ih.nodup, ?_, fun other member => ?_⟩
    · rw [map_tag_put, ih.tags_eq, List.map_append, List.map_singleton, eraseDups_concat]
      simp only [List.mem_eraseDups]
    · rw [List.reverse_concat, List.find?_cons]
      rcases eq_or_mem_of_mem_put ih.nodup member with rfl | ⟨earlier, different⟩
      · simp
      · simpa [Ne.symm different] using ih.last other earlier

/-! ## Complete entries -/

/-- The rules of the longest beginning of the entries in which none lacks a part. -/
structure LongestComplete (entries : List Entry) (rules : Table) : Prop where
  isPrefix : rules.map Rule.entry <+: entries
  longest : ∀ others : Table, others.map Rule.entry <+: entries → others <+: rules

theorem longestComplete_completeRules (entries : List Entry) :
    LongestComplete entries (completeRules entries) := by
  fun_induction completeRules entries with
  | case1 rest tag substitute ih =>
    refine ⟨List.cons_prefix_cons.mpr ⟨rfl, ih.isPrefix⟩, fun others start => ?_⟩
    cases others with
    | nil => exact List.nil_prefix
    | cons rule others =>
      obtain ⟨same, later⟩ := List.cons_prefix_cons.mp start
      cases same
      exact List.cons_prefix_cons.mpr ⟨rfl, ih.longest others later⟩
  | case2 entries incomplete =>
    refine ⟨List.nil_prefix, fun others start => ?_⟩
    cases others with
    | nil => exact List.nil_prefix
    | cons rule others =>
      obtain ⟨rest, rfl⟩ := start
      exact absurd rfl (incomplete rule.tag rule.substitute _)

theorem entry_mem_of_mem_completeRules {rule : Rule} {entries : List Entry}
    (member : rule ∈ completeRules entries) : rule.entry ∈ entries :=
  (longestComplete_completeRules entries).isPrefix.subset (List.mem_map_of_mem member)

theorem firstMissing?_eq_none_iff {entries : List Entry} :
    firstMissing? entries = none ↔ (completeRules entries).map Rule.entry = entries := by
  fun_induction firstMissing? entries with
  | case1 => simp [completeRules]
  | case2 => simp [completeRules]
  | case3 => simp [completeRules]
  | case4 rest tag substitute ih => simp [completeRules, Rule.entry, ih]

end PlatformMarkers.Entry
