import PlatformMarkers.File.Path
import Mathlib.Data.List.TakeWhile

/-! The normal form of a path, without reference to how it is reached: a single dot, or leading
slashes, steps up and steps down. Normalization gives every path such a form, and leaves the paths
alone that have it. -/

set_option autoImplicit false

namespace PlatformMarkers.Path

structure IsStepDown (component : Text) : Prop where
  ne_nil : component ≠ []
  ne_dot : component ≠ ".".toList
  ne_dots : component ≠ "..".toList
  whole : '/' ∉ component

/-- Steps up stand before the steps down, and only in a path without leading slashes. -/
inductive Normal : Text → Prop where
  | dot : Normal ".".toList
  | steps {slashes up : Nat} {down : List Text} (few : slashes ≤ 2)
      (rooted : 0 < slashes → up = 0) (filled : slashes = 0 → 0 < up ∨ down ≠ [])
      (isDown : ∀ component ∈ down, IsStepDown component) :
      Normal (List.replicate slashes '/' ++
        Text.joined "/".toList (List.replicate up "..".toList ++ down))

/-! ## Normalized paths are normal -/

/-- What a stack of components holds: steps down above steps up, of which an absolute path has
none. -/
def Kept (absolute : Bool) (kept : List Text) : Prop :=
  ∃ up down, kept = down ++ List.replicate up "..".toList ∧ (absolute = true → up = 0) ∧
    ∀ component ∈ down, IsStepDown component

theorem kept_nil (absolute : Bool) : Kept absolute [] := ⟨0, [], rfl, fun _ => rfl, nofun⟩

theorem Kept.push {absolute : Bool} {kept : List Text} (isKept : Kept absolute kept)
    {component : Text} (whole : '/' ∉ component) :
    Kept absolute (pushComponent absolute kept component) := by
  obtain ⟨up, down, rfl, rooted, isDown⟩ := isKept
  unfold pushComponent
  split
  next => exact ⟨up, down, rfl, rooted, isDown⟩
  next named =>
    obtain ⟨nonempty, notDot⟩ := not_or.mp named
    split
    next dots =>
      subst dots
      cases down with
      | cons last earlier =>
        have lastDown := isDown last (by simp)
        simp only [List.cons_append, if_neg lastDown.ne_dots]
        exact ⟨up, earlier, rfl, rooted, fun other member => isDown other (by simp [member])⟩
      | nil =>
        cases up with
        | succ up =>
          -- The path is not absolute, since there is a step up already.
          have relative : absolute ≠ true := fun isAbsolute => nomatch rooted isAbsolute
          exact ⟨up + 2, [], rfl, fun isAbsolute => absurd isAbsolute relative, nofun⟩
        | zero =>
          cases absolute with
          | true => exact kept_nil true
          | false => exact ⟨1, [], rfl, nofun, nofun⟩
    next notDots =>
      refine ⟨up, component :: down, rfl, rooted, fun other member => ?_⟩
      rcases List.mem_cons.mp member with rfl | member
      · exact ⟨nonempty, notDot, notDots, whole⟩
      · exact isDown other member

theorem kept_foldl_components (absolute : Bool) (path : Text) :
    Kept absolute ((components path).foldl (pushComponent absolute) []) :=
  List.foldlRecOn _ _ (kept_nil absolute) fun _ isKept _ member =>
    isKept.push (Text.not_mem_of_mem_splitOn member)

theorem exists_root_eq (path : Text) : ∃ slashes ≤ 2, root path = List.replicate slashes '/' := by
  unfold root
  split
  · exact ⟨0, by omega, rfl⟩
  · exact ⟨2, by omega, rfl⟩
  · exact ⟨1, by omega, rfl⟩

theorem normal_normalize (path : Text) : Normal (normalize path) := by
  obtain ⟨slashes, few, rootEq⟩ := exists_root_eq path
  obtain ⟨up, down, stack, rooted, isDown⟩ := kept_foldl_components (!(root path).isEmpty) path
  have parts : normalComponents path = List.replicate up "..".toList ++ down.reverse := by
    rw [normalComponents, stack, List.reverse_append, List.reverse_replicate]
  rw [normalize, parts, rootEq]
  split
  next => exact .dot
  next nonempty =>
    refine .steps few (fun positive => rooted ?_) (fun noSlash => ?_) (by simpa using isDown)
    · simp [rootEq, Nat.ne_of_gt positive]
    · rcases Nat.eq_zero_or_pos up with noUp | isUp
      · refine .inr fun noDown => nonempty ?_
        rw [noSlash, noUp, noDown]
        rfl
      · exact .inl isUp

/-! ## Normal paths stay as they are -/

theorem pushComponent_stepDown {absolute : Bool} {kept : List Text} {component : Text}
    (isDown : IsStepDown component) :
    pushComponent absolute kept component = component :: kept := by
  unfold pushComponent
  rw [if_neg (not_or.mpr ⟨isDown.ne_nil, isDown.ne_dot⟩), if_neg isDown.ne_dots]

theorem foldl_pushComponent_down {absolute : Bool} {kept down : List Text}
    (isDown : ∀ component ∈ down, IsStepDown component) :
    down.foldl (pushComponent absolute) kept = down.reverse ++ kept := by
  induction down generalizing kept with
  | nil => rfl
  | cons component down ih =>
    rw [List.foldl_cons, pushComponent_stepDown (isDown component (by simp)),
      ih fun other member => isDown other (by simp [member])]
    simp

theorem foldl_pushComponent_up (up below : Nat) :
    (List.replicate up "..".toList).foldl (pushComponent false) (List.replicate below "..".toList) =
      List.replicate (up + below) "..".toList := by
  induction up generalizing below with
  | zero => simp
  | succ up ih =>
    have pushed : pushComponent false (List.replicate below "..".toList) "..".toList =
        List.replicate (below + 1) "..".toList := by
      cases below <;> rfl
    rw [List.replicate_succ, List.foldl_cons, pushed, ih, Nat.add_assoc, Nat.add_comm below]

theorem foldl_pushComponent_nils (absolute : Bool) (kept : List Text) (count : Nat) :
    (List.replicate count []).foldl (pushComponent absolute) kept = kept := by
  induction count with
  | zero => rfl
  | succ count ih => exact ih

theorem components_slashes_append (slashes : Nat) (path : Text) :
    components (List.replicate slashes '/' ++ path) =
      List.replicate slashes [] ++ components path := by
  induction slashes with
  | zero => rfl
  | succ slashes ih =>
    rw [components, List.replicate_succ, List.cons_append, List.splitOn_cons_eq_if_modifyHead,
      if_pos (by rfl), ← components, ih]
    rfl

def Separable (parts : List Text) : Prop := ∀ part ∈ parts, part ≠ [] ∧ '/' ∉ part

section
variable {parts : List Text} (separable : Separable parts)
include separable

theorem foldl_components_joined (push : List Text → Text → List Text)
    (skips : ∀ kept, push kept [] = kept) (kept : List Text) :
    (components (Text.joined "/".toList parts)).foldl push kept = parts.foldl push kept := by
  cases parts with
  | nil => exact skips kept
  | cons first rest =>
    have apart : components (Text.joined "/".toList (first :: rest)) = first :: rest :=
      List.splitOn_intercalate '/' (fun part member => (separable part member).2) (by simp)
    rw [apart]

theorem exists_joined_eq_cons (nonempty : parts ≠ []) :
    ∃ c rest, Text.joined "/".toList parts = c :: rest ∧ c ≠ '/' := by
  obtain ⟨first, others, rfl⟩ := List.exists_cons_of_ne_nil nonempty
  obtain ⟨named, whole⟩ := separable first (by simp)
  obtain ⟨c, rest, rfl⟩ := List.exists_cons_of_ne_nil named
  have notSlash : c ≠ '/' := fun same => whole (by simp [same])
  cases others with
  | nil => exact ⟨c, rest, by simp [Text.joined], notSlash⟩
  | cons second others =>
    refine ⟨c, rest ++ "/".toList ++ Text.joined "/".toList (second :: others), ?_, notSlash⟩
    rw [Text.joined, List.intercalate_cons_cons]
    rfl

theorem root_slashes_append {slashes : Nat} (few : slashes ≤ 2) :
    root (List.replicate slashes '/' ++ Text.joined "/".toList parts) =
      List.replicate slashes '/' := by
  have stops : (Text.joined "/".toList parts).takeWhile (· == '/') = [] := by
    by_cases nothing : parts = []
    · rw [nothing]
      rfl
    · obtain ⟨c, rest, same, notSlash⟩ := exists_joined_eq_cons separable nothing
      rw [same, List.takeWhile_cons_of_neg (by simpa using notSlash)]
  have slashesTaken : ((List.replicate slashes '/' ++ Text.joined "/".toList parts).takeWhile
      (· == '/')).length = slashes := by
    rw [List.takeWhile_append_of_pos (by simp), stops]
    simp
  rw [root.eq_def, slashesTaken]
  obtain rfl | rfl | rfl : slashes = 0 ∨ slashes = 1 ∨ slashes = 2 := by omega
  all_goals rfl

end

theorem separable_steps {up : Nat} {down : List Text}
    (isDown : ∀ component ∈ down, IsStepDown component) :
    Separable (List.replicate up "..".toList ++ down) := by
  intro part member
  rcases List.mem_append.mp member with isUp | member
  · rw [List.eq_of_mem_replicate isUp]
    decide
  · exact ⟨(isDown part member).ne_nil, (isDown part member).whole⟩

theorem Normal.ne_nil {path : Text} (normal : Normal path) : path ≠ [] := by
  cases normal with
  | dot => decide
  | @steps slashes up down few rooted filled isDown =>
    cases slashes with
    | succ slashes => simp [List.replicate_succ]
    | zero =>
      have nonempty : List.replicate up "..".toList ++ down ≠ [] := by
        rcases filled rfl with isUp | isDown
        · simp [Nat.ne_of_gt isUp]
        · simp [isDown]
      obtain ⟨c, rest, same, _⟩ := exists_joined_eq_cons (separable_steps isDown) nonempty
      rw [same]
      exact List.cons_ne_nil c rest

theorem normalize_of_normal {path : Text} (normal : Normal path) : normalize path = path := by
  have nonempty := normal.ne_nil
  cases normal with
  | dot => rfl
  | @steps slashes up down few rooted filled isDown =>
    have separable : Separable (List.replicate up "..".toList ++ down) := separable_steps isDown
    have sameRoot := root_slashes_append separable few
    have stack : ∀ absolute, (absolute = true → up = 0) →
        (components (List.replicate slashes '/' ++
          Text.joined "/".toList (List.replicate up "..".toList ++ down))).foldl
            (pushComponent absolute) [] = down.reverse ++ List.replicate up "..".toList := by
      intro absolute rooted
      rw [components_slashes_append, List.foldl_append, foldl_pushComponent_nils,
        foldl_components_joined separable _ (fun _ => rfl), List.foldl_append,
        foldl_pushComponent_down isDown]
      congr 1
      cases absolute with
      | true =>
        rw [rooted rfl]
        rfl
      | false => exact foldl_pushComponent_up up 0
    have sameComponents : normalComponents (List.replicate slashes '/' ++
        Text.joined "/".toList (List.replicate up "..".toList ++ down)) =
          List.replicate up "..".toList ++ down := by
      rw [normalComponents, sameRoot, stack]
      · simp
      · cases slashes with
        | zero => simp
        | succ slashes => exact fun _ => rooted slashes.succ_pos
    rw [normalize, sameRoot, sameComponents]
    split
    next empty => exact absurd empty nonempty
    next => rfl

theorem root_append_slash {path : Text} (nonempty : path ≠ [])
    (closed : path.getLast? ≠ some '/') : root (path ++ "/".toList) = root path := by
  have stops : (path ++ "/".toList).takeWhile (· == '/') = path.takeWhile (· == '/') := by
    rw [List.takeWhile_append, if_neg]
    intro whole
    have slashes := List.takeWhile_eq_self_iff.mp ((List.takeWhile_prefix _).eq_of_length whole)
    have last : path.getLast nonempty = '/' := by
      simpa using slashes _ (List.getLast_mem nonempty)
    exact closed (by rw [List.getLast?_eq_some_getLast nonempty, last])
  rw [root.eq_def, root.eq_def, stops]

theorem normalize_join_nil (base : Text) : normalize (join base []) = normalize base := by
  rw [join, if_neg (by simp)]
  split
  next => rw [List.append_nil]
  next named =>
    simp only [Bool.or_eq_true, List.isEmpty_iff, decide_eq_true_eq, not_or] at named
    obtain ⟨nonempty, closed⟩ := named
    have sameRoot := root_append_slash nonempty closed
    have further : components (base ++ "/".toList) = components base ++ [[]] :=
      List.splitOn_append_cons_self base []
    have sameComponents : normalComponents (base ++ "/".toList) = normalComponents base := by
      rw [normalComponents, sameRoot, further, List.foldl_append]
      rfl
    rw [List.append_nil, normalize, sameRoot, sameComponents, normalize]

theorem normalize_eq_self_iff {path : Text} : normalize path = path ↔ Normal path :=
  ⟨fun same => same ▸ normal_normalize path, normalize_of_normal⟩

end PlatformMarkers.Path
