import PlatformMarkers.Batch.Interaction

/-! Files held in memory by name, with names whose reading or writing fails. -/

set_option autoImplicit false

namespace PlatformMarkers

structure Memory where
  files : List (Text × Text)
  readFaults : List (Text × AccessFault) := []
  writeFaults : List (Text × AccessFault) := []
  deriving DecidableEq, Repr

namespace Memory

/-- A known name keeps its place, and a new one comes last. -/
def put (name content : Text) : List (Text × Text) → List (Text × Text)
  | [] => [(name, content)]
  | first :: rest =>
    if first.1 = name then (name, content) :: rest else first :: put name content rest

theorem lookup_put_self (name content : Text) (files : List (Text × Text)) :
    (put name content files).lookup name = some content := by
  induction files with
  | nil => simp [put]
  | cons first rest ih =>
    obtain ⟨key, value⟩ := first
    simp only [put]
    split
    · simp
    · next other => simpa [List.lookup_cons, beq_eq_false_iff_ne.mpr (Ne.symm other)] using ih

theorem lookup_put_of_ne {name other : Text} (different : other ≠ name) (content : Text)
    (files : List (Text × Text)) : (put name content files).lookup other = files.lookup other := by
  induction files with
  | nil => simp [put, List.lookup_cons, beq_eq_false_iff_ne.mpr different]
  | cons first rest ih =>
    obtain ⟨key, value⟩ := first
    simp only [put]
    split
    · next same =>
      subst same
      simp [List.lookup_cons, beq_eq_false_iff_ne.mpr different]
    · simp [List.lookup_cons, ih]

def read (memory : Memory) (name : Text) : Except FileFailure Text :=
  match memory.readFaults.lookup name, memory.files.lookup name with
  | some fault, _ => .error (.access fault name)
  | none, none => .error (.access .notFound name)
  | none, some content => .ok content

def write (memory : Memory) (name content : Text) : Except FileFailure Memory :=
  match memory.writeFaults.lookup name with
  | some fault => .error (.access fault name)
  | none => .ok { memory with files := put name content memory.files }

def storage : Storage Memory := ⟨read, write⟩

end Memory

end PlatformMarkers
