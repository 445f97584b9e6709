import PlatformMarkers.Proofs.Halting

/-! Failures that leave a run of the command line without a message. At most one read of a run
fails, and it is reported unless a file is not text, a name holds a NUL, or it is the file list
that is there but cannot be opened. -/

set_option autoImplicit false

namespace PlatformMarkers.CommandLine

def listName? (arguments : List Text) : Option Text :=
  match request arguments with
  | .toggle settings => settings.listName?
  | _ => none

def Settings.Nameless (settings : Settings) : Prop :=
  settings.list = some .unnamed ∧ settings.files = []

def Nameless (arguments : List Text) : Prop :=
  ∃ settings, request arguments = .toggle settings ∧ settings.Nameless

/-- There is no message for a failure to read the file of the name. If access is refused, this is
so for the file list alone, and not if the file is missing. -/
def Unreported (list? : Option Text) (name : Text) : FileFailure → Prop
  | .access fault _ => fault ≠ .notFound ∧ list? = some name
  | .embeddedNul => True
  | .undecodable => True

def Readable (tree : FileTree) (names : List Text) : Prop :=
  ∀ name ∈ names, ∀ failure, tree.readText name ≠ .error failure

/-- Of the names, the file of this one alone cannot be read. -/
structure Blocked (tree : FileTree) (names : List Text) (name : Text) (failure : FileFailure) :
    Prop where
  member : name ∈ names
  refused : tree.readText name = .error failure
  alone : ∀ other ∈ names, ∀ another, tree.readText other = .error another → other = name

/-- How a run that reads the names can end, with the lines on the error output. -/
inductive Answers (tree : FileTree) (list? : Option Text) (names : List Text) :
    Ending → List Text → Prop where
  | readable {status : ExitStatus} {lines : List Text} (readable : Readable tree names) :
      Answers tree list? names (.exit status) lines
  | reported {name message : Text} {failure : FileFailure} {status : ExitStatus}
      (blocked : Blocked tree names name failure) (reported : ¬ Unreported list? name failure)
      (failed : status ≠ .success) (named : Text.ticked name <:+: message) :
      Answers tree list? names (.exit status) [errorText message]
  | escaped {name : Text} {failure : FileFailure} (blocked : Blocked tree names name failure)
      (unreported : Unreported list? name failure) :
      Answers tree list? names (.escaped (.file failure)) []

/-! ## The reads of a run -/

section
variable {tree final : FileTree} {settings : Settings} {names lines : List Text} {ending : Ending}

theorem readable_nil (tree : FileTree) : Readable tree [] := nofun

theorem Readable.append {first second : List Text} (early : Readable tree first)
    (late : Readable tree second) : Readable tree (first ++ second) := by
  intro name member
  rcases List.mem_append.mp member with inside | inside
  · exact early name inside
  · exact late name inside

theorem Readable.blocked {name : Text} {failure : FileFailure} (readable : Readable tree names)
    (refused : tree.readText name = .error failure) :
    Blocked tree (names ++ [name]) name failure := by
  refine ⟨List.mem_concat_self, refused, fun other member another otherRefused => ?_⟩
  rcases List.mem_append.mp member with inside | last
  · exact absurd otherRefused (readable other inside another)
  · exact List.mem_singleton.mp last

theorem Toggles.readable {check : Bool} (toggles : Toggles check tree names final) :
    Readable tree names := by
  induction toggles with
  | nil => exact readable_nil _
  | @cons tree _ file name text _ opened decoded accepted rest ih =>
    intro other member failure refused
    rcases List.mem_cons.mp member with rfl | later
    · cases (FileTree.readText_eq_ok_iff.mpr ⟨file, opened, decoded⟩).symm.trans refused
    · exact ih other later failure
        ((FileTree.readText_setBytes_eq_error_iff opened decoded _ other).mpr refused)

theorem Selects.readable {selection : Selection} (selects : Selects tree settings selection) :
    Readable tree settings.listName?.toList := by
  obtain ⟨list, verbose, check, files⟩ := settings
  cases selects with
  | operands unlisted | default unlisted =>
    cases unlisted
    exact readable_nil tree
  | listed listed alone found =>
    cases listed
    cases alone
    intro name member failure refused
    cases List.mem_singleton.mp member
    cases found.symm.trans refused

theorem listName?_of_given (given : settings.files ≠ []) : settings.listName? = none := by
  obtain ⟨list, verbose, check, files⟩ := settings
  cases files with
  | nil => exact absurd rfl given
  | cons name names =>
    rw [Settings.listName?]
    split
    · next alone => cases alone
    · rfl

theorem Rejects.answers (rejects : Rejects tree settings ending lines)
    (named : ¬ settings.Nameless) :
    Answers tree settings.listName? settings.listName?.toList ending lines := by
  cases rejects with
  | crowded listed given =>
    rw [listName?_of_given given]
    exact .readable (readable_nil tree)
  | unnamed listed alone => exact absurd ⟨listed, alone⟩ named
  | @missing name listed alone refused =>
    have list : settings.listName? = some name := by rw [Settings.listName?, listed, alone]
    rw [list]
    exact .reported ((readable_nil tree).blocked refused) (fun unreported => unreported.1 rfl)
      (by simp) ⟨_, _, rfl⟩
  | @unread name failure listed alone refused other =>
    have list : settings.listName? = some name := by rw [Settings.listName?, listed, alone]
    rw [list]
    refine .escaped ((readable_nil tree).blocked refused) ?_
    cases failure with
    | access fault another =>
      cases FileTree.name_of_readText refused
      exact ⟨fun same => other (by rw [same]), rfl⟩
    | embeddedNul => trivial
    | undecodable => trivial

theorem Ends.answers {check : Bool} {origin : Origin} {selected : List Text} {list? : Option Text}
    (ends : Ends check origin tree selected final ending lines names)
    (listRead : Readable tree list?.toList) :
    Answers tree list? (list?.toList ++ names) ending lines := by
  cases ends with
  | toggled toggles => exact .readable (listRead.append toggles.readable)
  | @halted completed _ _ name _ _ toggles halts =>
    have earlier : Readable tree (list?.toList ++ completed) := listRead.append toggles.readable
    have blocked {failure : FileFailure} (refused : final.readText name = .error failure) :
        Blocked tree (list?.toList ++ (completed ++ [name])) name failure := by
      rw [← List.append_assoc]
      exact earlier.blocked ((toggles.readText_eq_error_iff name failure).mp refused)
    have unopened {failure : FileFailure} (refused : final.openFile name = .error failure) :
        Blocked tree (list?.toList ++ (completed ++ [name])) name failure :=
      blocked (FileTree.readText_eq_error_iff.mpr (.inl refused))
    cases halts with
    | missingOperand refused | missingElsewhere refused =>
      exact .reported (unopened refused) (fun unreported => unreported.1 rfl) (by simp) ⟨_, _, rfl⟩
    | @denied fault refused present =>
      -- The file list has been read, so it is not the file that cannot be opened.
      have other : ¬ Unreported list? name (.access fault name) := by
        rintro ⟨_, rfl⟩
        exact listRead name List.mem_cons_self _ (unopened refused).refused
      exact .reported (unopened refused) other (by simp) ⟨_, _, (List.append_assoc _ _ _).symm⟩
    | unbalanced opened decoded =>
      refine .readable ?_
      rw [← List.append_assoc]
      refine earlier.append fun other member failure refused => ?_
      cases List.mem_singleton.mp member
      have found := FileTree.readText_eq_ok_iff.mpr ⟨_, opened, decoded⟩
      cases found.symm.trans ((toggles.readText_eq_error_iff name failure).mpr refused)
    | undecodable opened undecoded =>
      have refused := FileTree.readText_eq_error_iff.mpr (.inr ⟨rfl, _, opened, undecoded⟩)
      exact .escaped (blocked refused) trivial
    | nul inside refused => exact .escaped (unopened refused) trivial

theorem Rejects.ending_of_nameless (rejects : Rejects tree settings ending lines)
    (nameless : settings.Nameless) : ending = .escaped .unnamedList := by
  obtain ⟨unnamed, alone⟩ := nameless
  cases rejects with
  | crowded _ given => exact absurd alone given
  | unnamed => rfl
  | missing listed | unread listed => cases unnamed.symm.trans listed

theorem Selects.not_nameless {selection : Selection} (selects : Selects tree settings selection) :
    ¬ settings.Nameless := by
  rintro ⟨unnamed, _⟩
  cases selects with
  | operands unlisted | default unlisted => cases unnamed.symm.trans unlisted
  | listed listed => cases unnamed.symm.trans listed

end

/-! ## The failing read -/

section
variable {tree : FileTree} {list? : Option Text} {names lines : List Text} {name : Text}
  {failure : FileFailure} {ending : Ending}

theorem Blocked.unique {other : Text} {another : FileFailure}
    (blocked : Blocked tree names name failure) (member : other ∈ names)
    (refused : tree.readText other = .error another) : other = name ∧ another = failure := by
  have same : other = name := blocked.alone other member another refused
  subst same
  exact ⟨rfl, Except.error.inj (refused.symm.trans blocked.refused)⟩

namespace Answers

variable (answers : Answers tree list? names ending lines)
include answers

theorem escaped_iff (escape : Escape) : ending = .escaped escape ↔
    ∃ name failure, escape = .file failure ∧ name ∈ names ∧
      tree.readText name = .error failure ∧ Unreported list? name failure := by
  constructor
  · rintro rfl
    cases answers with
    | escaped blocked unreported => exact ⟨_, _, rfl, blocked.member, blocked.refused, unreported⟩
  · rintro ⟨name, failure, rfl, member, refused, unreported⟩
    cases answers with
    | readable readable => exact absurd refused (readable name member failure)
    | reported blocked reported =>
      obtain ⟨rfl, rfl⟩ := blocked.unique member refused
      exact absurd unreported reported
    | escaped blocked =>
      obtain ⟨_, rfl⟩ := blocked.unique member refused
      rfl

theorem report (member : name ∈ names) (refused : tree.readText name = .error failure)
    (reported : ¬ Unreported list? name failure) :
    ∃ status message, ending = .exit status ∧ status ≠ .success ∧
      Text.ticked name <:+: message ∧ lines = [errorText message] := by
  cases answers with
  | readable readable => exact absurd refused (readable name member failure)
  | reported blocked _ failed named =>
    obtain ⟨rfl, _⟩ := blocked.unique member refused
    exact ⟨_, _, rfl, failed, named, rfl⟩
  | escaped blocked unreported =>
    obtain ⟨rfl, rfl⟩ := blocked.unique member refused
    exact absurd unreported reported

end Answers

end

theorem session_answers (tree : FileTree) (arguments : List Text) :
    let course := sessionOn tree arguments
    (Nameless arguments ∧ course.value = .escaped .unnamedList ∧ reads course.events = []) ∨
      ¬ Nameless arguments ∧ Answers tree (listName? arguments) (reads course.events) course.value
        (diagnostics course.events) := by
  intro course
  by_cases toggled : ∃ settings, request arguments = .toggle settings
  · obtain ⟨settings, asked⟩ := toggled
    have runs : Runs tree settings course.state course.value (diagnostics course.events)
      (reads course.events) := runs_session asked tree
    have list : listName? arguments = settings.listName? := by rw [listName?, asked]
    have same : Nameless arguments ↔ settings.Nameless := by simp [Nameless, asked]
    rw [list, same]
    generalize course.state = final, course.value = ending, diagnostics course.events = lines,
      reads course.events = names at runs ⊢
    cases runs with
    | rejected rejects =>
      by_cases nameless : settings.Nameless
      · have unread : settings.listName? = none := by rw [Settings.listName?, nameless.1]
        exact .inl ⟨nameless, rejects.ending_of_nameless nameless, by rw [unread]; rfl⟩
      · exact .inr ⟨nameless, rejects.answers nameless⟩
    | selected selects ends => exact .inr ⟨selects.not_nameless, ends.answers selects.readable⟩
  · have ends : ∃ status, course.value = .exit status ∧ reads course.events = [] := by
      simp only [course, sessionOn, session]
      cases asked : request arguments with
      | toggle settings => exact absurd ⟨settings, asked⟩ toggled
      | help | version | refuse error => exact ⟨_, rfl, rfl⟩
    obtain ⟨status, value, read⟩ := ends
    have named : ¬ Nameless arguments := by
      rintro ⟨settings, asked, _⟩
      exact toggled ⟨settings, asked⟩
    rw [value, read]
    exact .inr ⟨named, .readable (readable_nil tree)⟩

/-- A run escapes exactly at a file list without a name and at a read whose failure has no message.
Every other read that fails is reported on the one line of the error output, which names the file,
and the run ends with an exit status other than success. -/
theorem session_escapes_iff (tree : FileTree) (arguments : List Text) :
    let course := sessionOn tree arguments
    let list? := listName? arguments
    (∀ escape, course.value = .escaped escape ↔
      escape = .unnamedList ∧ Nameless arguments ∨
        ∃ name failure, escape = .file failure ∧ name ∈ reads course.events ∧
          tree.readText name = .error failure ∧ Unreported list? name failure) ∧
    ∀ name failure, name ∈ reads course.events → tree.readText name = .error failure →
      ¬ Unreported list? name failure → ∃ status message, course.value = .exit status ∧
        status ≠ .success ∧ Text.ticked name <:+: message ∧
        diagnostics course.events = [errorText message] := by
  intro course list?
  have answers : _ ∨ _ := session_answers tree arguments
  rcases answers with ⟨nameless, value, unread⟩ | ⟨named, answers⟩
  · rw [show course.value = _ from value, show reads course.events = _ from unread]
    refine ⟨fun escape => ⟨fun same => ?_, fun cause => ?_⟩, fun name failure member => ?_⟩
    · cases same
      exact .inl ⟨rfl, nameless⟩
    · rcases cause with ⟨rfl, _⟩ | ⟨_, _, _, member, _⟩
      · rfl
      · cases member
    · cases member
  · refine ⟨fun escape => ?_, fun name failure => answers.report⟩
    exact (answers.escaped_iff escape).trans (or_iff_right fun unnamed => named unnamed.2).symm

/-- A directory among the operands is reported, and a file that is not text escapes. -/
theorem session_escapes_iff_operands :
    let tree : FileTree := {
      directories := [["d".toList]]
      files := [(["a".toList], Text.toUtf8 "/IF-MAC".toList), (["b".toList], ⟨#[255]⟩)] }
    let reported := sessionOn tree ["a".toList, "d".toList, "b".toList]
    let escaped := sessionOn tree ["a".toList, "b".toList, "d".toList]
    let denied : FileFailure := .access .isDirectory "d".toList
    tree.readText "d".toList = .error denied ∧ "d".toList ∈ reads reported.events ∧
      (∃ status message, reported.value = .exit status ∧ status ≠ .success ∧
        Text.ticked "d".toList <:+: message ∧
        diagnostics reported.events = [errorText message]) ∧
      tree.readText "b".toList = .error .undecodable ∧ "b".toList ∈ reads escaped.events ∧
      escaped.value = .escaped (.file .undecodable) := by
  intro tree reported escaped denied
  have refused : tree.readText "d".toList = .error denied := rfl
  have member : "d".toList ∈ reads reported.events := by decide +kernel
  have undecoded : tree.readText "b".toList = .error .undecodable := rfl
  have last : "b".toList ∈ reads escaped.events := by decide +kernel
  have unlisted : listName? ["a".toList, "d".toList, "b".toList] = none := by decide +kernel
  obtain ⟨_, report⟩ := session_escapes_iff tree ["a".toList, "d".toList, "b".toList]
  obtain ⟨escapes, _⟩ := session_escapes_iff tree ["a".toList, "b".toList, "d".toList]
  refine ⟨refused, member, report "d".toList denied member refused ?_, undecoded, last, ?_⟩
  · rw [unlisted]
    exact fun unreported => nomatch unreported.2
  · exact (escapes (.file .undecodable)).mpr (.inr ⟨_, _, rfl, last, undecoded, trivial⟩)

/-- The directory is the only file that the run reads, and its refusal leaves no message. -/
theorem session_escapes_at_directory_list :
    let tree : FileTree := { directories := [["d".toList]] }
    let course := sessionOn tree ["-l".toList, "d".toList]
    reads course.events = ["d".toList] ∧ '\x00' ∉ "d".toList ∧
      tree.readText "d".toList = .error (.access .isDirectory "d".toList) ∧
      course.value = .escaped (.file (.access .isDirectory "d".toList)) ∧
      diagnostics course.events = [] :=
  ⟨by decide +kernel, by decide, rfl, by decide +kernel, by decide +kernel⟩

end PlatformMarkers.CommandLine
