import PlatformMarkers.Proofs.CheckMode
import PlatformMarkers.Proofs.Frame

/-! How a run of the command line ends. The files of its names are toggled one after another, and
the first one that cannot be toggled decides on the error output and the exit status. -/

set_option autoImplicit false

namespace PlatformMarkers

/-! ## What is read and told -/

def Event.read? : Event → Option Text
  | .read name => some name
  | _ => none

def reads (events : List Event) : List Text := events.filterMap Event.read?

theorem reads_append (first second : List Event) : reads (first ++ second) =
    reads first ++ reads second :=
  List.filterMap_append

theorem read?_of_not_landmark (event : Event) (unmarked : event.isLandmark = false) :
    event.read? = none := by
  cases event with
  | read => cases unmarked
  | write => rfl
  | tell => rfl

namespace CommandLine

def errorText (message : Text) : Text := "error: ".toList ++ message ++ "\n".toList

/-! ## The names that are toggled -/

inductive Selects (tree : FileTree) (settings : Settings) : Selection → Prop where
  | operands (unlisted : settings.list = none) (given : settings.files ≠ []) :
      Selects tree settings ⟨settings.files, .operands⟩
  | default (unlisted : settings.list = none) (empty : settings.files = []) :
      Selects tree settings ⟨defaultNames, .elsewhere⟩
  | listed {name content : Text} (listed : settings.list = some (.named name))
      (alone : settings.files = []) (found : tree.readText name = .ok content) :
      Selects tree settings ⟨NameList.names content name, .elsewhere⟩

/-- The settings for which no name is toggled, with how the run then ends. -/
inductive Rejects (tree : FileTree) (settings : Settings) : Ending → List Text → Prop where
  | crowded {list : ListFile} (listed : settings.list = some list) (given : settings.files ≠ []) :
      Rejects tree settings (.exit .misuse) [errorText
        "option -l (or --list) cannot be used with positional argument".toList]
  | unnamed (listed : settings.list = some .unnamed) (alone : settings.files = []) :
      Rejects tree settings (.escaped .unnamedList) []
  | missing {name : Text} (listed : settings.list = some (.named name))
      (alone : settings.files = [])
      (refused : tree.readText name = .error (.access .notFound name)) :
      Rejects tree settings (.exit .misuse) [errorText
        ("argument `-l/--list`: file ".toList ++ Text.ticked name ++ " not found".toList)]
  | unread {name : Text} {failure : FileFailure} (listed : settings.list = some (.named name))
      (alone : settings.files = []) (refused : tree.readText name = .error failure)
      (other : failure ≠ .access .notFound name) :
      Rejects tree settings (.escaped (.file failure)) []

def Settings.listName? (settings : Settings) : Option Text :=
  match settings.list, settings.files with
  | some (.named name), [] => some name
  | _, _ => none

/-! ## The names one after another -/

/-- The files of all the names are toggled, each in the tree that the one before it leaves. -/
inductive Toggles (check : Bool) : FileTree → List Text → FileTree → Prop where
  | nil (tree : FileTree) : Toggles check tree [] tree
  | cons {tree final : FileTree} {file : LocatedFile} {name text : Text} {names : List Text}
      (opened : tree.openFile name = .ok file) (decoded : Text.ofUtf8? file.bytes = some text)
      (accepted : check = true → Mac.imbalances (Mac.toggle .sequential text) = [])
      (rest : Toggles check
        (tree.setBytes file.location (Text.toUtf8 (Mac.toggle .sequential text))) names final) :
      Toggles check tree (name :: names) final

/-- How a run ends at a name whose file is not toggled, with the lines on the error output. -/
inductive Halts (check : Bool) (origin : Origin) (tree : FileTree) (name : Text) :
    Ending → List Text → Prop where
  | missingOperand (refused : tree.openFile name = .error (.access .notFound name))
      (operands : origin = .operands) :
      Halts check origin tree name (.exit .misuse)
        [errorText ("argument ".toList ++ Text.ticked name ++ ": file not found".toList)]
  | missingElsewhere (refused : tree.openFile name = .error (.access .notFound name))
      (elsewhere : origin = .elsewhere) :
      Halts check origin tree name (.exit .failure)
        [errorText ("file ".toList ++ Text.ticked name ++ " not found".toList)]
  | denied {fault : AccessFault} (refused : tree.openFile name = .error (.access fault name))
      (present : fault ≠ .notFound) :
      Halts check origin tree name (.exit .failure)
        [errorText ("cannot access ".toList ++ Text.ticked name ++ ": ".toList ++ fault.message)]
  | unbalanced {file : LocatedFile} {text : Text} (opened : tree.openFile name = .ok file)
      (decoded : Text.ofUtf8? file.bytes = some text) (checked : check = true)
      (found : Mac.imbalances (Mac.toggle .sequential text) ≠ []) :
      Halts check origin tree name (.exit .failure)
        ((Mac.imbalances (Mac.toggle .sequential text)).map fun imbalance =>
          errorText (Batch.remark name imbalance))
  | undecodable {file : LocatedFile} (opened : tree.openFile name = .ok file)
      (undecoded : Text.ofUtf8? file.bytes = none) :
      Halts check origin tree name (.escaped (.file .undecodable)) []
  | nul (inside : '\x00' ∈ name) (refused : tree.openFile name = .error .embeddedNul) :
      Halts check origin tree name (.escaped (.file .embeddedNul)) []

/-- How the run over the names ends, with the lines on the error output and the names read. -/
inductive Ends (check : Bool) (origin : Origin) (tree : FileTree) :
    List Text → FileTree → Ending → List Text → List Text → Prop where
  | toggled {names : List Text} {final : FileTree} (toggles : Toggles check tree names final) :
      Ends check origin tree names final (.exit .success) [] names
  | halted {completed later lines : List Text} {name : Text} {final : FileTree} {ending : Ending}
      (toggles : Toggles check tree completed final)
      (halts : Halts check origin final name ending lines) :
      Ends check origin tree (completed ++ name :: later) final ending lines (completed ++ [name])

namespace Toggles

variable {check : Bool} {tree final : FileTree}

theorem unique {names : List Text} {other : FileTree} (toggles : Toggles check tree names final)
    (again : Toggles check tree names other) : other = final := by
  induction toggles with
  | nil tree =>
    cases again
    rfl
  | cons opened decoded accepted rest ih =>
    cases again with
    | cons openedAgain decodedAgain _ restAgain =>
      cases opened.symm.trans openedAgain
      cases decoded.symm.trans decodedAgain
      exact ih restAgain

theorem of_append {first second : List Text}
    (toggles : Toggles check tree (first ++ second) final) :
    ∃ middle, Toggles check tree first middle ∧ Toggles check middle second final := by
  induction first generalizing tree with
  | nil => exact ⟨tree, .nil tree, toggles⟩
  | cons name names ih =>
    cases toggles with
    | cons opened decoded accepted rest =>
      obtain ⟨middle, early, late⟩ := ih rest
      exact ⟨middle, .cons opened decoded accepted early, late⟩

theorem readText_eq_error_iff {names : List Text} (toggles : Toggles check tree names final)
    (name : Text) (failure : FileFailure) :
    final.readText name = .error failure ↔ tree.readText name = .error failure := by
  induction toggles with
  | nil tree => rfl
  | cons opened decoded accepted rest ih =>
    exact ih.trans (FileTree.readText_setBytes_eq_error_iff opened decoded _ name)

end Toggles

namespace Halts

variable {check : Bool} {origin : Origin} {tree : FileTree} {name : Text} {ending : Ending}
  {lines : List Text} (halts : Halts check origin tree name ending lines)
include halts

theorem not_toggles (later : List Text) (final : FileTree) :
    ¬ Toggles check tree (name :: later) final := by
  intro toggles
  cases toggles with
  | cons opened decoded accepted rest =>
    cases halts with
    | missingOperand refused | missingElsewhere refused | denied refused | nul _ refused =>
      cases opened.symm.trans refused
    | unbalanced openedAgain decodedAgain checked found =>
      cases opened.symm.trans openedAgain
      cases decoded.symm.trans decodedAgain
      exact found (accepted checked)
    | undecodable openedAgain undecoded =>
      cases opened.symm.trans openedAgain
      cases decoded.symm.trans undecoded

theorem ending_ne_success : ending ≠ .exit .success := by
  cases halts <;> simp

end Halts

/-! ## The run over the names -/

section
variable {options : Batch.Options} {tree final : FileTree} {name text : Text} {names : List Text}
  {events : List Event}

theorem diagnostics_shown (text : Text) : diagnostics ((options.shown text).map .tell) = [] := by
  refine diagnostics_eq_nil fun event member line same => ?_
  obtain ⟨note, shown, rfl⟩ := List.mem_map.mp member
  obtain ⟨output, rfl⟩ := Batch.exists_output_of_mem_shown shown
  cases same

theorem diagnostics_warnings (toggled : Text) :
    diagnostics ((Batch.warnings name toggled).map .tell) = [] := by
  refine diagnostics_eq_nil fun event member line same => ?_
  obtain ⟨note, warned, rfl⟩ := List.mem_map.mp member
  obtain ⟨imbalance, _, rfl⟩ := List.mem_map.mp warned
  cases same

theorem diagnostics_refusals (toggled : Text) :
    diagnostics ((Batch.refusals name toggled).map .tell) =
      (Mac.imbalances toggled).map fun imbalance => errorText (Batch.remark name imbalance) := by
  rw [Batch.refusals, List.map_map, diagnostics, List.filterMap_map]
  exact congrFun List.filterMap_eq_map _

theorem diagnostics_notes (notes : List Note) :
    diagnostics (.read name :: (options.shown text ++ notes).map .tell) =
      diagnostics (notes.map .tell) := by
  have unread : ∀ events, diagnostics (.read name :: events) = diagnostics events := fun _ => rfl
  rw [unread, List.map_append, diagnostics_append, diagnostics_shown, List.nil_append]

theorem toggles_of_completed
    (turn : Batch.Turn treeStorage options tree name ⟨events, final, .ok ()⟩) {last : FileTree}
    (rest : Toggles options.check final names last) :
    Toggles options.check tree (name :: names) last := by
  obtain ⟨file, text, opened, decoded, accepted, rfl⟩ := tree_of_completed turn
  exact .cons opened decoded accepted rest

theorem diagnostics_of_completed
    (turn : Batch.Turn treeStorage options tree name ⟨events, final, .ok ()⟩) :
    diagnostics events = [] := by
  cases turn with
  | completed =>
    rw [diagnostics_append, diagnostics_notes, diagnostics_warnings]
    rfl

theorem halts_of_unread {failure : FileFailure} (refused : tree.readText name = .error failure)
    (check : Bool) (origin : Origin) :
    let course := (conclude origin (.error (.file failure))).run treeStorage tree
    Halts check origin tree name course.value (diagnostics course.events) := by
  rcases FileTree.readText_eq_error_iff.mp refused with unopened | ⟨rfl, file, opened, undecoded⟩
  · rcases FileTree.openFile_eq_error unopened with ⟨rfl, inside⟩ | ⟨fault, rfl⟩
    · exact .nul inside unopened
    · by_cases missing : fault = .notFound
      · subst missing
        cases origin with
        | operands => exact .missingOperand unopened rfl
        | elsewhere => exact .missingElsewhere unopened rfl
      · cases fault with
        | notFound => exact absurd rfl missing
        | _ => exact .denied unopened missing
  · exact .undecodable opened undecoded

theorem halts_of_failed {failure : Batch.Failure}
    (turn : Batch.Turn treeStorage options tree name ⟨events, final, .error failure⟩)
    (origin : Origin) :
    let course := (conclude origin (.error failure)).run treeStorage final
    Halts options.check origin tree name course.value
      (diagnostics events ++ diagnostics course.events) := by
  intro course
  cases turn with
  | unread refused => exact halts_of_unread refused options.check origin
  | @unbalanced text content checked found =>
    obtain ⟨file, opened, decoded⟩ := FileTree.readText_eq_ok_iff.mp content
    have value : course.value = .exit .failure := rfl
    have unsaid : diagnostics course.events = [] := rfl
    rw [value, unsaid, List.append_nil, diagnostics_notes, diagnostics_refusals]
    exact .unbalanced opened decoded checked found
  | unwritten content accepted refused =>
    obtain ⟨file, opened, _⟩ := FileTree.readText_eq_ok_iff.mp content
    cases (FileTree.writeText_of_openFile opened _).symm.trans refused

theorem ends_of_completes {final : FileTree}
    (completes : Batch.Completes treeStorage options tree names events final) :
    Toggles options.check tree names final ∧ diagnostics events = [] ∧ reads events = names := by
  refine ⟨?_, ?_, completes.filterMap_eq read?_of_not_landmark fun name => rfl⟩
  · induction completes with
    | nil tree => exact .nil tree
    | cons turn rest ih => exact toggles_of_completed turn ih
  · induction completes with
    | nil => rfl
    | cons turn rest ih =>
      rw [diagnostics_append, diagnostics_of_completed turn, ih, List.append_nil]

theorem reads_of_failed {failure : Batch.Failure}
    (turn : Batch.Turn treeStorage options tree name ⟨events, final, .error failure⟩) :
    reads events = [name] := by
  have fails := turn.fails
  rw [reads, ← Batch.filterMap_landmarks read?_of_not_landmark]
  generalize landmarks events = marks at fails ⊢
  cases fails <;> rfl

theorem reads_conclude (origin : Origin) (result : Except Batch.Failure Unit) :
    reads ((conclude origin result).run treeStorage tree).events = [] := by
  rw [conclude.eq_def]
  split
  · rfl
  · rfl
  · split <;> rfl
  · rfl
  · rfl

end

theorem ends_toggleSelection (options : Batch.Options) (selection : Selection) (tree : FileTree) :
    let course := (toggleSelection options selection).run treeStorage tree
    Ends options.check selection.origin tree selection.names course.state course.value
      (diagnostics course.events) (reads course.events) := by
  obtain ⟨names, origin⟩ := selection
  obtain ⟨completed, later, earlier, last, rfl, events, completes, stops⟩ :=
    Batch.exists_completes_stops treeStorage options tree names
  obtain ⟨toggles, unsaid, read⟩ := ends_of_completes completes
  simp only [toggleSelection, Interaction.run_bind, ((quiet_conclude _ _).run _ _).1,
    diagnostics_append, reads_append, reads_conclude, List.append_nil, events, unsaid, read,
    List.nil_append]
  generalize ((Batch.toggleFiles options (completed ++ later)).run treeStorage tree).value = value
    at stops ⊢
  generalize ((Batch.toggleFiles options (completed ++ later)).run treeStorage tree).state = final
    at toggles stops ⊢
  cases stops with
  | ended =>
    have unread : reads [] = [] := rfl
    rw [unread, List.append_nil]
    exact .toggled toggles
  | failed turn =>
    rw [reads_of_failed turn]
    exact .halted toggles (halts_of_failed turn origin)

/-! ## The whole run -/

theorem Selects.unique {tree : FileTree} {settings : Settings} {selection other : Selection}
    (selects : Selects tree settings selection) (again : Selects tree settings other) :
    other = selection := by
  cases selects <;> cases again <;> simp_all

theorem Rejects.not_selects {tree : FileTree} {settings : Settings} {ending : Ending}
    {lines : List Text} (rejects : Rejects tree settings ending lines) (selection : Selection) :
    ¬ Selects tree settings selection := by
  intro selects
  cases rejects <;> cases selects <;> simp_all

theorem run_select (settings : Settings) (tree : FileTree) :
    let course := (select settings).run treeStorage tree
    course.state = tree ∧ reads course.events = settings.listName?.toList ∧
      match course.value with
      | .ok selection => Selects tree settings selection ∧ diagnostics course.events = []
      | .error ending => Rejects tree settings ending (diagnostics course.events) := by
  obtain ⟨list, verbose, check, files⟩ := settings
  refine ⟨((quiet_select _).run treeStorage tree).1, ?_⟩
  cases list with
  | none =>
    cases files with
    | nil => exact ⟨rfl, .default rfl rfl, rfl⟩
    | cons name names => exact ⟨rfl, .operands rfl (List.cons_ne_nil name names), rfl⟩
  | some list =>
    cases files with
    | cons name names => exact ⟨by cases list <;> rfl, .crowded rfl (List.cons_ne_nil name names)⟩
    | nil =>
      cases list with
      | unnamed => exact ⟨rfl, .unnamed rfl rfl⟩
      | named name =>
        simp only [select, readNames, Interaction.run]
        cases found : treeStorage.read tree name with
        | ok content => exact ⟨rfl, .listed rfl rfl found, rfl⟩
        | error failure =>
          by_cases missing : failure = .access .notFound name
          · subst missing
            exact ⟨rfl, .missing rfl rfl found⟩
          · cases failure with
            | access fault other =>
              obtain rfl := FileTree.name_of_readText found
              cases fault with
              | notFound => exact absurd rfl missing
              | _ => exact ⟨rfl, .unread rfl rfl found missing⟩
            | embeddedNul => exact ⟨rfl, .unread rfl rfl found missing⟩
            | undecodable => exact ⟨rfl, .unread rfl rfl found missing⟩

inductive Runs (tree : FileTree) (settings : Settings) :
    FileTree → Ending → List Text → List Text → Prop where
  | rejected {ending : Ending} {lines : List Text}
      (rejects : Rejects tree settings ending lines) :
      Runs tree settings tree ending lines settings.listName?.toList
  | selected {selection : Selection} {final : FileTree} {ending : Ending} {lines names : List Text}
      (selects : Selects tree settings selection)
      (ends : Ends settings.check selection.origin tree selection.names final ending lines names) :
      Runs tree settings final ending lines (settings.listName?.toList ++ names)

theorem runs_toggle (settings : Settings) (tree : FileTree) :
    let course := (toggle settings).run treeStorage tree
    Runs tree settings course.state course.value (diagnostics course.events)
      (reads course.events) := by
  obtain ⟨stays, read, selected⟩ := run_select settings tree
  simp only [toggle, Interaction.run_bind, diagnostics_append, reads_append, stays, read]
  cases value : ((select settings).run treeStorage tree).value with
  | error ending =>
    rw [value] at selected
    have rejects := Runs.rejected selected
    simpa [Interaction.run, diagnostics, reads] using rejects
  | ok selection =>
    rw [value] at selected
    obtain ⟨selects, unsaid⟩ := selected
    rw [unsaid, List.nil_append]
    exact .selected selects (ends_toggleSelection ⟨settings.verbose, settings.check⟩ selection tree)

theorem runs_session {arguments : List Text} {settings : Settings}
    (asked : request arguments = .toggle settings) (tree : FileTree) :
    let course := sessionOn tree arguments
    Runs tree settings course.state course.value (diagnostics course.events)
      (reads course.events) := by
  intro course
  have whole : course = ((toggle settings).warnOnce []).run treeStorage tree := by
    simp only [course, sessionOn, session, asked]
  let plain := (toggle settings).run treeStorage tree
  obtain ⟨sameState, sameValue, sameEvents⟩ :
      course.state = plain.state ∧ course.value = plain.value ∧
        unwarned course.events = unwarned plain.events := by
    rw [whole]
    exact (toggle settings).run_warnOnce treeStorage [] tree
  have sameLines : diagnostics course.events = diagnostics plain.events :=
    filterMap_eq_of_unwarned (fun _ => rfl) sameEvents
  have sameReads : reads course.events = reads plain.events :=
    filterMap_eq_of_unwarned (fun _ => rfl) sameEvents
  rw [sameState, sameValue, sameLines, sameReads]
  exact runs_toggle settings tree

/-- A run over selected names succeeds, without a line on the error output, exactly if the files of
all its names can be toggled one after another, and leaves what this makes of the tree. Otherwise
the first name whose file is not toggled decides alone how the run ends, and the files of exactly
the names before it have been toggled. -/
theorem session_ends_at_first {tree : FileTree} {arguments : List Text} {settings : Settings}
    {selection : Selection} (asked : request arguments = .toggle settings)
    (selects : Selects tree settings selection) :
    let course := sessionOn tree arguments
    let lines := diagnostics course.events
    (course.value = .exit .success ∧ lines = [] ↔
      ∃ final, Toggles settings.check tree selection.names final) ∧
    (∀ final, Toggles settings.check tree selection.names final → course.state = final) ∧
    ((¬ ∃ final, Toggles settings.check tree selection.names final) →
      ∃ completed name later, selection.names = completed ++ name :: later ∧
        Toggles settings.check tree completed course.state ∧
        Halts settings.check selection.origin course.state name course.value lines) := by
  intro course lines
  have runs : Runs tree settings course.state course.value lines (reads course.events) :=
    runs_session asked tree
  generalize course.state = final, course.value = ending, lines = told, reads course.events = read
    at runs ⊢
  cases runs with
  | rejected rejects => exact absurd selects (rejects.not_selects selection)
  | selected again ends =>
    cases again.unique selects
    generalize selection.names = names at ends ⊢
    cases ends with
    | toggled toggles =>
      exact ⟨iff_of_true ⟨rfl, rfl⟩ ⟨final, toggles⟩,
        fun other again => (toggles.unique again).symm,
        fun none => absurd ⟨final, toggles⟩ none⟩
    | @halted completed later _ name _ _ toggles halts =>
      have stuck : ¬ ∃ last, Toggles settings.check tree (completed ++ name :: later) last := by
        rintro ⟨last, whole⟩
        obtain ⟨middle, early, late⟩ := whole.of_append
        cases toggles.unique early
        exact halts.not_toggles later last late
      exact ⟨iff_of_false (fun ended => halts.ending_ne_success ended.1) stuck,
        fun last whole => absurd ⟨last, whole⟩ stuck,
        fun _ => ⟨completed, name, later, rfl, toggles, halts⟩⟩

/-- The second name of the list leads to the file of the first one, and the third to a directory. -/
theorem session_ends_at_first_directory :
    let tree : FileTree := {
      directories := [["d".toList]]
      files := [(["a".toList], Text.toUtf8 "/IF-MAC\n/END-MAC/".toList),
        (["l".toList], Text.toUtf8 "a\n# b\nd/../a\nd\na".toList)] }
    let arguments := ["--check".toList, "-l".toList, "l".toList]
    let settings : Settings := { list := some (.named "l".toList), check := true }
    let selection : Selection := ⟨["a".toList, "a".toList, "d".toList, "a".toList], .elsewhere⟩
    let course := sessionOn tree arguments
    request arguments = .toggle settings ∧ Selects tree settings selection ∧
      course.value = .exit .failure ∧
      diagnostics course.events = ["error: cannot access `d`: Is a directory\n".toList] ∧
      course.state.bytesAt? ["a".toList] = some (Text.toUtf8 "/*IF-MAC\n//END-MAC*/".toList) ∧
      (¬ ∃ final, Toggles true tree selection.names final) ∧
      ∃ completed name later, selection.names = completed ++ name :: later ∧
        Toggles true tree completed course.state ∧
        Halts true .elsewhere course.state name course.value (diagnostics course.events) := by
  intro tree arguments settings selection course
  have asked : request arguments = .toggle settings := by decide +kernel
  have listed : selection =
      ⟨NameList.names "a\n# b\nd/../a\nd\na".toList "l".toList, .elsewhere⟩ := by decide +kernel
  have selects : Selects tree settings selection := by
    rw [listed]
    exact .listed rfl rfl rfl
  have value : course.value = .exit .failure := by decide +kernel
  obtain ⟨success, _, failure⟩ := session_ends_at_first asked selects
  have stuck : ¬ ∃ final, Toggles true tree selection.names final := by
    intro toggles
    cases value.symm.trans (success.mpr toggles).1
  exact ⟨asked, selects, value, by decide +kernel, by decide +kernel, stuck, failure stuck⟩

end CommandLine

end PlatformMarkers
