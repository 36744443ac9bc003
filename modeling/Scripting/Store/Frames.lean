import Scripting.Store
import Scripting.Fault

/-!
# Variables in frames

A frame and the frames around it form a chain. A variable is found by its name, in the nearest
frame of the chain that has it, or in the one frame at a given distance. Writes go to one frame and
are seen through every chain that the frame is part of.
-/

namespace Scripting

namespace Store

/-- A frame and the frames around it, the nearest first. -/
def chain (s : Store) (f : FrameId) : List FrameId :=
  f :: ((s.frames[f]?).map Frame.outer).getD []

/-- The frame directly around a frame. -/
def enclosing? (s : Store) (f : FrameId) : Option FrameId :=
  (s.chain f).tail.head?

/-- The store with a new frame inside of `f`, and its place. -/
def openFrame (s : Store) (kind : FrameKind) (f : FrameId) (vars : Record (Option Value)) :
    FrameId × Store :=
  let outer := s.chain f
  s.addFrame ⟨kind, outer, vars⟩

/-- What a frame itself holds under a name. -/
def slot? (s : Store) (f : FrameId) (name : String) : Option (Option Value) :=
  (s.frames[f]?).bind fun frame => frame.vars.get? name

/-- The store in which a frame itself holds the given under a name. -/
def setSlot (s : Store) (f : FrameId) (name : String) (slot : Option Value) : Store :=
  { s with
    frames := s.frames.modify f fun frame =>
      { frame with vars := frame.vars.insert name slot } }

/-- Give a variable of a frame a value, as a new one or over an old one. -/
def define (s : Store) (f : FrameId) (name : String) (value : Value) : Store :=
  s.setSlot f name (some value)

/-- Introduce a variable of a frame without a value. -/
def declare (s : Store) (f : FrameId) (name : String) : Store :=
  s.setSlot f name none

/-- The value in a slot. -/
def readSlot : Option Value → Except Cause Value
  | some value => .ok value
  | none => .error .uninitialized

/-- The nearest frame of a chain that has a variable. -/
def locate (s : Store) (f : FrameId) (name : String) : Except Cause FrameId :=
  match (s.chain f).find? fun g => (s.slot? g name).isSome with
  | some g => .ok g
  | none => .error (.undefinedVariable name)

/-- The frame at a distance, if it has a variable. -/
def locateAt (s : Store) (f : FrameId) (distance : Nat) (name : String) : Except Cause FrameId :=
  match (s.chain f)[distance]? with
  | none => .error (.noBinding name distance)
  | some g => if (s.slot? g name).isSome then .ok g else .error (.noBinding name 0)

/-- The value of the nearest variable of a name. -/
def get (s : Store) (f : FrameId) (name : String) : Except Cause Value :=
  match (s.chain f).findSome? (s.slot? · name) with
  | some slot => readSlot slot
  | none => .error (.undefinedVariable name)

/-- The value of the variable at a distance. -/
def getAt (s : Store) (f : FrameId) (distance : Nat) (name : String) : Except Cause Value :=
  match (s.chain f)[distance]? with
  | none => .error (.noBinding name distance)
  | some g =>
    match s.slot? g name with
    | some slot => readSlot slot
    | none => .error (.noBinding name 0)

/-- Assign to the nearest variable of a name. -/
def assign (s : Store) (f : FrameId) (name : String) (value : Value) : Except Cause Store :=
  (s.locate f name).map fun g => s.define g name value

/-- Assign to the variable at a distance. -/
def assignAt (s : Store) (f : FrameId) (distance : Nat) (name : String) (value : Value) :
    Except Cause Store :=
  (s.locateAt f distance name).map fun g => s.define g name value

end Store

end Scripting
