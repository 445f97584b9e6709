import PlatformMarkers.Marker.Basic

/-! The scan of a text for markers, from left to right and without overlap. It splits
the text into plain characters and markers, and replacing the markers joins the
pieces again. -/

set_option autoImplicit false

namespace PlatformMarkers

inductive Piece where
  | plain (c : Char)
  | marker (marker : Marker)
  deriving DecidableEq, Repr

namespace Piece

def text : Piece → Text
  | .plain c => [c]
  | .marker found => found.text

def marker? : Piece → Option Marker
  | .plain _ => none
  | .marker found => some found

def replace (substitute : Text → Text) : Piece → Text
  | .plain c => [c]
  | .marker found => substitute found.tag

end Piece

/-- The scan of the text behind `skip` characters, which belong to the marker found
last. The pieces found so far are held in reverse, so that the stack stays flat. -/
def scanFrom (tags : List Text) (skip : Nat) (found : List Piece) : Text → List Piece
  | [] => found.reverse
  | c :: rest =>
    match skip with
    | skip + 1 => scanFrom tags skip found rest
    | 0 =>
      match markerAt? tags (c :: rest) with
      | some marker => scanFrom tags (marker.text.length - 1) (.marker marker :: found) rest
      | none => scanFrom tags 0 (.plain c :: found) rest

def scan (tags : List Text) (text : Text) : List Piece := scanFrom tags 0 [] text

theorem scanFrom_eq (tags : List Text) (skip : Nat) (found : List Piece) (text : Text) :
    scanFrom tags skip found text = found.reverse ++ scan tags (text.drop skip) := by
  induction text generalizing skip found with
  | nil => simp [scan, scanFrom]
  | cons c rest ih =>
    cases skip with
    | succ skip => simpa [scanFrom] using ih skip found
    | zero =>
      simp only [List.drop_zero, scan, scanFrom]
      split <;> rw [ih, ih] <;> simp

@[simp] theorem scan_nil (tags : List Text) : scan tags [] = [] := rfl

theorem scan_of_no_marker {tags : List Text} {c : Char} {rest : Text}
    (absent : markerAt? tags (c :: rest) = none) :
    scan tags (c :: rest) = .plain c :: scan tags rest := by
  simp only [scan, scanFrom, absent]
  exact scanFrom_eq tags 0 [.plain c] rest

theorem scan_of_marker {tags : List Text} {text : Text} {marker : Marker}
    (found : markerAt? tags text = some marker) :
    scan tags text = .marker marker :: scan tags (text.drop marker.text.length) := by
  cases text with
  | nil => simp [markerAt?, leadAndTag?] at found
  | cons c rest =>
    obtain ⟨length, same⟩ := Nat.exists_eq_add_of_lt (length_text_pos_of_markerAt? found)
    simp only [scan, scanFrom, found]
    rw [scanFrom_eq, same]
    simp [scan]

def markers (tags : List Text) (text : Text) : List Marker := (scan tags text).filterMap Piece.marker?

def replaceMarkers (tags : List Text) (substitute : Text → Text) (text : Text) : Text :=
  (scan tags text).flatMap (Piece.replace substitute)

theorem flatMap_text_scan (tags : List Text) (text : Text) :
    (scan tags text).flatMap Piece.text = text := by
  induction size : text.length using Nat.strongRecOn generalizing text with
  | _ size ih =>
    cases text with
    | nil => rfl
    | cons c rest =>
      cases here : markerAt? tags (c :: rest) with
      | none =>
        rw [scan_of_no_marker here, List.flatMap_cons, ih rest.length (by simp [← size]) rest rfl]
        rfl
      | some marker =>
        obtain ⟨after, same⟩ := text_isPrefix_of_markerAt? here
        have shorter := length_text_pos_of_markerAt? here
        rw [scan_of_marker here, List.flatMap_cons, ← same, List.drop_left,
          ih after.length (by rw [← size, ← same, List.length_append]; omega) after rfl]
        rfl

end PlatformMarkers
