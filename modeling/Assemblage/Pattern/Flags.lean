import Assemblage.Pattern.Sign

/-!
# Flags

What can be switched on and off inside a pattern, and the notation of the
switches: the letters before a hyphen switch on, those after it off.
-/

namespace Assemblage.Pattern

inductive Flag where
  | ignoresCase
  /-- `^` and `$` stand for the ends of a line. -/
  | multiline
  /-- The period stands for every character. -/
  | periodIsAll
  /-- Repetitions prefer few copies.  What matches is the same. -/
  | prefersFew
  /-- Texts are made of characters, which cannot be switched off. -/
  | characters
deriving DecidableEq

def Flag.ofSign? : Sign → Option Flag
  | .plain 'i' => some .ignoresCase
  | .plain 'm' => some .multiline
  | .plain 's' => some .periodIsAll
  | .plain 'U' => some .prefersFew
  | .plain 'u' => some .characters
  | _ => none

structure Switch where
  flag : Flag
  value : Bool

/-- Whether the switches leave texts made of characters and change no flag twice. -/
def areConsistent : List Switch → Bool
  | [] => true
  | switch :: others =>
    others.all (·.flag ≠ switch.flag) && (switch.value || switch.flag ≠ .characters) &&
      areConsistent others

/-- The switches of some letters, of which those before the hyphen set `value`. -/
def switchesFrom? (value : Bool) : List Sign → Option (List Switch)
  | [] => some []
  | sign :: rest =>
    if sign = .plain '-' then
      if value && !rest.isEmpty then switchesFrom? false rest else none
    else do
      let flag ← Flag.ofSign? sign
      return { flag, value } :: (← switchesFrom? value rest)

def switches? (letters : List Sign) : Option (List Switch) :=
  (switchesFrom? true letters).filter areConsistent

/-- The flags that make a difference to what matches. -/
structure Flags where
  ignoresCase : Bool := false
  multiline : Bool := false
  periodIsAll : Bool := false

namespace Flags

def set (flags : Flags) (switch : Switch) : Flags :=
  match switch.flag with
  | .ignoresCase => { flags with ignoresCase := switch.value }
  | .multiline => { flags with multiline := switch.value }
  | .periodIsAll => { flags with periodIsAll := switch.value }
  | .prefersFew | .characters => flags

def setAll (flags : Flags) (switches : List Switch) : Flags :=
  switches.foldl set flags

end Flags

end Assemblage.Pattern
