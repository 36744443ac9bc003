import Scripting.Store

/-!
# Who refers to whom

The frames, callables, classes and instances of a store refer to one another, and a running program
refers to some of them directly. What nothing refers to is abandoned. It then refers to nothing
itself, so that more may become abandoned. Things that refer to one another in a circle are never
abandoned, even if no program can get at them any more.
-/

namespace Scripting

/-- Something in a store that can be referred to. -/
inductive Reference where
  | frame (id : FrameId)
  | callable (id : CallableId)
  | classRef (id : ClassId)
  | instanceRef (id : InstanceId)
deriving DecidableEq

/-- What a value refers to. -/
def Value.references : Value → List Reference
  | .callable id => [.callable id]
  | .classRef id => [.classRef id]
  | .instanceRef id => [.instanceRef id]
  | _ => []

/-- What a frame refers to: the frame around it, and what its variables hold. -/
def Frame.references (f : Frame) : List Reference :=
  f.outer.head?.toList.map .frame ++
    f.vars.flatMap fun (_, slot) => (slot.map Value.references).getD []

/-- What a callable refers to: the frame it was made in, or its receiver. -/
def Callable.references : Callable → List Reference
  | .function f => [.frame f.closure]
  | .getter g => [.frame g.closure]
  | .builtin _ => []
  | .hostMethod _ receiver => [.instanceRef receiver]

/-- What a class refers to: its superclass, and the frames that its members were made in. -/
def Class.references (c : Class) : List Reference :=
  c.ancestors.head?.toList.map .classRef ++
    c.methods.map (fun (_, method) => .frame method.closure) ++
    c.getters.map (fun (_, getter) => .frame getter.closure)

/-- What an instance refers to: its class, and what its fields hold. -/
def Instance.references (i : Instance) : List Reference :=
  .classRef i.classId :: i.fields.flatMap fun (_, value) => value.references

namespace Store

/-- What something in a store refers to. -/
def referencesOf (s : Store) : Reference → List Reference
  | .frame f => ((s.frames[f]?).map Frame.references).getD []
  | .callable c => ((s.callables[c]?).map Callable.references).getD []
  | .classRef c => ((s.classes[c]?).map Class.references).getD []
  | .instanceRef i => ((s.instances[i]?).map Instance.references).getD []

/-- Everything in a store. -/
def contents (s : Store) : List Reference :=
  (List.range s.frames.size).map .frame ++
    ((List.range s.callables.size).map .callable ++
      ((List.range s.classes.size).map .classRef ++
        (List.range s.instances.size).map .instanceRef))

/-- The place of something among the contents of a store. -/
def placeOf (s : Store) : Reference → Nat
  | .frame f => f
  | .callable c => s.frames.size + c
  | .classRef c => s.frames.size + s.callables.size + c
  | .instanceRef i => s.frames.size + s.callables.size + s.classes.size + i

/-- Count further references, by place. -/
def countAll (s : Store) (counts : Array Nat) (references : List Reference) : Array Nat :=
  references.foldl (fun counts r => counts.modify (s.placeOf r) (· + 1)) counts

/-- How many references there are to everything in a store, by place: those from within the store
and the ones given. -/
def referenceCounts (s : Store) (roots : List Reference) : Array Nat :=
  let none := Array.replicate
    (s.frames.size + s.callables.size + s.classes.size + s.instances.size) 0
  s.contents.foldl (fun counts r => s.countAll counts (s.referencesOf r)) (s.countAll none roots)

/-- Take references away. Also gives what is not referred to any more, before what was `abandoned`
already. -/
def uncountAll (s : Store) (counts : Array Nat) (abandoned : List Reference) :
    List Reference → Array Nat × List Reference
  | [] => (counts, abandoned)
  | r :: rest =>
    let place := s.placeOf r
    match counts[place]? with
    | some 1 => s.uncountAll (counts.modify place fun _ => 0) (r :: abandoned) rest
    | _ => s.uncountAll (counts.modify place (· - 1)) abandoned rest

/-- Take away the references of what is abandoned, and of what becomes so. Everything can be
abandoned once, so `steps` need not exceed the size of the store. -/
def abandon (s : Store) : Nat → Array Nat → List Reference → Array Nat
  | 0, counts, _ => counts
  | _, counts, [] => counts
  | steps + 1, counts, r :: abandoned =>
    let (counts, abandoned) := s.uncountAll counts abandoned (s.referencesOf r)
    s.abandon steps counts abandoned

/-- How many references there are to everything in a store, by place, not counting those of what is
abandoned. -/
def liveCounts (s : Store) (roots : List Reference) : Array Nat :=
  let counts := s.referenceCounts roots
  let abandoned := s.contents.filter fun r => counts[s.placeOf r]? = some 0
  s.abandon counts.size counts abandoned

/-- The abandoned instances that stand for something outside of the program, with what that is. -/
def abandonedHandles (s : Store) (roots : List Reference) : List (InstanceId × Handle) :=
  let counts := s.liveCounts roots
  (List.range s.instances.size).filterMap fun i =>
    if counts[s.placeOf (.instanceRef i)]? = some 0 then
      ((s.instances[i]?).bind Instance.handle).map fun handle => (i, handle)
    else none

end Store

end Scripting
