import Slash.Host.Packets

/-!
# Bodies of control operations

What `buildControlImage` collects before it lays a control operation out: the commands of each
role, and which scalars a boundary gives a second name.
-/

namespace Slash.Host

/-! ## Bodies -/

def roleCommands (dg : QueueProgram) (controlId : String) (role : ChildRole) : List Command :=
  (dg.children.filter fun c => c.parentCommandId = controlId ∧ c.role = role).flatMap fun c =>
    c.programs.flatten

def Command.isStart : Command → Bool
  | boundary b => b.atStart
  | _ => false

def Command.isEnd : Command → Bool
  | boundary b => !b.atStart
  | _ => false

def predecessors (commands : List Command) (i : Nat) : List Nat :=
  match commands[i]? with
  | none => []
  | some c => c.dependsOn.filterMap (posOf commands)

/-- The lowest position not taken yet whose predecessors are all taken. -/
def nextReady (commands : List Command) (taken : List Nat) : Option Nat :=
  (List.range commands.length).find? fun i =>
    i ∉ taken ∧ (predecessors commands i).all (· ∈ taken)

/-- The ready loop of `collectControlBody`, `steps` times. -/
def readyOrder (commands : List Command) : Nat → List Nat → List Nat
  | 0, taken => taken
  | steps + 1, taken =>
    match nextReady commands taken with
    | none => taken
    | some i => readyOrder commands steps (taken ++ [i])

/-- The topological order of `collectControlBody`; a cyclic work set keeps source order. -/
def sortWork (work : List Command) : List Command :=
  let order := readyOrder work work.length []
  if order.length = work.length then order.filterMap (work[·]?) else work

def collectControlBody (dg : QueueProgram) (controlId : String) (role : ChildRole) :
    List Command :=
  let commands := roleCommands dg controlId role
  commands.filter Command.isStart ++
    sortWork (commands.filter fun c => !c.isStart && !c.isEnd) ++
    commands.filter Command.isEnd

/-! ## Loop bodies -/

/-- `collectLoopScalarAliases`: local key to parent key, imports or exports, newest first. -/
def scalarAliases (commands : List Command) (start : Bool) : List (ScalarKey × ScalarKey) :=
  (commands.flatMap fun
    | .boundary b =>
      if b.atStart = start then
        b.scalarCopies.map fun c =>
          if start then (⟨c.targetScope, c.targetName⟩, ⟨c.sourceScope, c.sourceName⟩)
          else (⟨c.sourceScope, c.sourceName⟩, ⟨c.targetScope, c.targetName⟩)
      else []
    | _ => []).reverse

end Slash.Host
