import PlatformMarkers.Rule.Outcome

/-! The life of a table of rules. Entries may lack a tag or a substitute until the table
is committed. Each commit in sequential mode appends its rules to those of the commits
before it, also when it stops at an incomplete entry. -/

set_option autoImplicit false

namespace PlatformMarkers

structure Entry where
  tag : Option Text
  substitute : Option Text
  deriving DecidableEq, Repr

namespace Entry

/-- A known tag keeps its place and takes the new substitute; a new one comes last. -/
def put (entry : Entry) : List Entry → List Entry
  | [] => [entry]
  | first :: rest =>
    if first.tag = entry.tag then entry :: rest else first :: put entry rest

theorem mem_tags_put {tag : Option Text} (entry : Entry) (entries : List Entry) :
    tag ∈ (entry.put entries).map Entry.tag ↔ tag = entry.tag ∨ tag ∈ entries.map Entry.tag := by
  induction entries with
  | nil => simp [put]
  | cons first rest ih =>
    rw [put]
    split
    · next same => simp [same]
    · simp only [List.map_cons, List.mem_cons, ih]
      exact or_left_comm

theorem nodup_tags_put (entry : Entry) {entries : List Entry}
    (distinct : (entries.map Entry.tag).Nodup) : ((entry.put entries).map Entry.tag).Nodup := by
  induction entries with
  | nil => simp [put]
  | cons first rest ih =>
    simp only [List.map_cons, List.nodup_cons] at distinct
    rw [put]
    split
    · next same => simpa [← same] using distinct
    · next different =>
      simp only [List.map_cons, List.nodup_cons, mem_tags_put, not_or]
      exact ⟨⟨different, distinct.1⟩, ih distinct.2⟩

def putAll (entries : List Entry) : List Entry :=
  entries.foldl (fun placed entry => entry.put placed) []

/-- In simultaneous mode an entry without a substitute removes its markers. -/
def simultaneousRule? (entry : Entry) : Option Rule :=
  entry.tag.map fun tag => ⟨tag, entry.substitute.getD []⟩

def completeRules : List Entry → List Rule
  | ⟨some tag, some substitute⟩ :: rest => ⟨tag, substitute⟩ :: completeRules rest
  | _ => []

/-- The part that the first incomplete entry lacks, the tag before the substitute. -/
def firstMissing? : List Entry → Option Part
  | [] => none
  | ⟨none, _⟩ :: _ => some .tag
  | ⟨some _, none⟩ :: _ => some .substitute
  | ⟨some _, some _⟩ :: rest => firstMissing? rest

end Entry

structure TableDraft where
  name : Text
  verbose : Bool
  entries : List Entry := []
  mode : Mode := .sequential
  /-- The rules that the sequential commits have appended so far. -/
  appended : List Rule := []
  committed : Bool := false
  deriving DecidableEq, Repr

namespace TableDraft

def put (draft : TableDraft) (entry : Entry) : Except Fault TableDraft :=
  if draft.committed then .error .fixedEntries
  else .ok { draft with entries := entry.put draft.entries }

def setMode (draft : TableDraft) (mode : Mode) : Except Fault TableDraft :=
  if draft.committed then .error .fixedMode else .ok { draft with mode }

/-- The commit, and the draft that it leaves behind even on a fault. -/
def commit (draft : TableDraft) : Except Fault Unit × TableDraft :=
  match draft.mode with
  | .sequential =>
    let appended := draft.appended ++ Entry.completeRules draft.entries
    match Entry.firstMissing? draft.entries with
    | some part => (.error (.missing part), { draft with appended })
    | none => (.ok (), { draft with appended, committed := true })
  | .simultaneous =>
    if draft.entries.any (·.tag.isNone) then (.error .untagged, draft)
    else (.ok (), { draft with committed := true })

def table (draft : TableDraft) : Table :=
  match draft.mode with
  | .sequential => draft.appended
  | .simultaneous => draft.entries.filterMap Entry.simultaneousRule?

def apply (draft : TableDraft) (text : Text) : Except Fault Applied :=
  if draft.committed then
    .ok ⟨draft.table.apply draft.mode text,
      if draft.verbose then draft.table.passes draft.name draft.mode text else []⟩
  else .error .uncommitted

inductive Step where
  | put (entry : Entry)
  | setMode (mode : Mode)
  | commit
  | apply (text : Text)
  deriving DecidableEq, Repr

def step (draft : TableDraft) : Step → Outcome × TableDraft
  | .put entry => Outcome.orKeep draft (draft.put entry)
  | .setMode mode => Outcome.orKeep draft (draft.setMode mode)
  | .commit =>
    match draft.commit with
    | (.ok (), committed) => (Outcome.done, committed)
    | (.error fault, left) => (Outcome.fault fault, left)
  | .apply text => (Outcome.ofApplied (draft.apply text), draft)

def run (draft : TableDraft) : List Step → List (Outcome × TableDraft)
  | [] => []
  | next :: steps =>
    let answer := draft.step next
    answer :: run answer.2 steps

end TableDraft

end PlatformMarkers
