import PlatformMarkers.Batch.Interaction
import PlatformMarkers.Mac.Toggling
import PlatformMarkers.Mac.Balance

/-! Toggling files in place, one after another. Each file is read, toggled and written
back before the next one is touched, and the first failure ends the batch. -/

set_option autoImplicit false

namespace PlatformMarkers.Batch

structure Options where
  verbose : Bool := false
  /-- Refuse a file with imbalances instead of warning of them. -/
  check : Bool := false
  deriving DecidableEq, Repr

inductive Failure where
  | file (failure : FileFailure)
  | unbalanced (found : List Mac.Imbalance)
  deriving DecidableEq, Repr

def remark (name : Text) (imbalance : Mac.Imbalance) : Text :=
  Text.ticked name ++ ", ".toList ++ imbalance.report

def warning (name : Text) (imbalance : Mac.Imbalance) : Note := .warning (remark name imbalance)

def refusal (name : Text) (imbalance : Mac.Imbalance) : Note :=
  .diagnostic ("error: ".toList ++ remark name imbalance ++ "\n".toList)

def success (name : Text) : Note :=
  .output ("success: wrote to ".toList ++ Text.ticked name ++ "\n".toList)

def trace (text : Text) : List Note := (Mac.passes .sequential text).map (.output ·.render)

def save (name toggled : Text) : Interaction (Except Failure Unit) :=
  .write name toggled fun
    | .error failure => .done (.error (.file failure))
    | .ok () => .tell (success name) (.done (.ok ()))

def settle (options : Options) (name toggled : Text) : Interaction (Except Failure Unit) :=
  let found := Mac.imbalances toggled
  if options.check && !found.isEmpty then
    Interaction.tellAll (found.map (refusal name)) (.done (.error (.unbalanced found)))
  else Interaction.tellAll (found.map (warning name)) (save name toggled)

def toggleFile (options : Options) (name : Text) : Interaction (Except Failure Unit) :=
  .read name fun
    | .error failure => .done (.error (.file failure))
    | .ok text =>
      Interaction.tellAll (if options.verbose then trace text else [])
        (settle options name (Mac.toggle .sequential text))

def toggleFiles (options : Options) : List Text → Interaction (Except Failure Unit)
  | [] => .done (.ok ())
  | name :: names =>
    (toggleFile options name).bind fun
      | .error failure => .done (.error failure)
      | .ok () => toggleFiles options names

end PlatformMarkers.Batch
