import SchemaBridge.Compile.Assembly
import SchemaBridge.Options.Basic
import SchemaBridge.Registry

/-!
# Ledgers

The books of one compilation: which nodes are in progress, under which names nodes are referred to,
and what has been defined under those names. A node that is met again while it is in progress is
named once, and every such meeting is a reference to that name.

## Main definitions

* `Ledger` : the books.
* `CompileM` : computations on the books.
* `Ledger.refer` : a reference to a node in progress.
* `Ledger.complete`, `Ledger.abandon` : the definitions of named nodes.
-/

namespace SchemaBridge

/-- The books of one compilation. -/
structure Ledger where
  /-- The nodes in progress, the latest first. -/
  active : List Identity
  /-- The names of the nodes that were met again while in progress. -/
  names : Table Identity String
  /-- The bounds families of nodes in progress whose structure is known. -/
  families : Table Identity BoundsFamily
  /-- The names in use. -/
  used : List String
  /-- The definitions, in the order in which they were completed. -/
  definitions : Table String Json.Fields
  /-- The number of the next generated name. -/
  nextNumber : Nat
  /-- The next unused identity. -/
  supply : Nat
  /-- What has been reported, the latest first. -/
  events : List Event

/-- Computations on the books of a compilation. -/
abbrev CompileM := StateM Ledger

/-! ### Computations with a state, one step at a time -/

namespace Stateful

variable {α β ε σ : Type}

theorem bind_apply (x : StateM σ α) (f : α → StateM σ β) (s : σ) :
    (x >>= f) s = f (x s).1 (x s).2 := rfl

theorem pure_apply (a : α) (s : σ) : (pure a : StateM σ α) s = (a, s) := rfl

theorem run_apply (x : ExceptT ε (StateM σ) α) (s : σ) : x.run s = x s := rfl

theorem lift_apply (x : StateM σ α) (s : σ) :
    (ExceptT.lift x : ExceptT ε (StateM σ) α) s = (.ok (x s).1, (x s).2) := rfl

theorem throw_apply (failure : ε) (s : σ) :
    (throw failure : ExceptT ε (StateM σ) α) s = (.error failure, s) := rfl

theorem bind_of_ok {x : ExceptT ε (StateM σ) α} {s t : σ} {a : α}
    (f : α → ExceptT ε (StateM σ) β) (h : x s = (.ok a, t)) : (x >>= f) s = f a t := by
  change ExceptT.bindCont f (x s).1 (x s).2 = _
  rw [h]
  rfl

theorem bind_of_error {x : ExceptT ε (StateM σ) α} {s t : σ}
    {failure : ε} (f : α → ExceptT ε (StateM σ) β)
    (h : x s = (.error failure, t)) : (x >>= f) s = (.error failure, t) := by
  change ExceptT.bindCont f (x s).1 (x s).2 = _
  rw [h]
  rfl

end Stateful

/-! ### Reading and writing the books -/

namespace CompileM

theorem modify_apply (f : Ledger → Ledger) (s : Ledger) :
    (modify f : CompileM Unit) s = ((), f s) := rfl

theorem get_apply (s : Ledger) : (get : CompileM Ledger) s = (s, s) := rfl

end CompileM

/-- What a compilation is given. -/
structure CompileContext (π : Type) where
  registry : Registry π
  options : DocumentOptions

namespace Ledger

variable {π : Type}

/-- The books before anything is compiled. -/
def start (supply : Nat) : Ledger := ⟨[], [], [], [], [], 0, supply, []⟩

/-- Reports an event. -/
def report (event : Event) : CompileM Unit := modify fun s => { s with events := event :: s.events }

/-- Puts a question to an adapter. -/
def ask {α : Type} (answer : Answer α) : ExceptT CompileFailure CompileM α :=
  ExceptT.mk fun s =>
    let (result, supply) := answer.run s.supply
    (result.mapError .raised, { s with supply })

/-- The adapter of a node. -/
def resolve (context : CompileContext π) (node : Node π) : CompileM (Option (Adapter π)) := do
  let resolved := context.registry.resolve node
  modify fun s => { s with events := resolved.events.reverse ++ s.events }
  return resolved.value

/-! ### Nodes in progress -/

/-- The node is in progress. -/
def isActive (node : Node π) : CompileM Bool := do
  return (← get).active.contains node.id

/-- Starts work on a node. -/
def beginWork (node : Node π) : CompileM Unit :=
  modify fun s => { s with active := node.id :: s.active }

/-- Ends work on nodes. -/
def endWork (ids : List Identity) : CompileM Unit :=
  modify fun s =>
    { s with
      active := s.active.filter fun id => !ids.contains id
      families := s.families.filter fun entry => !ids.contains entry.1 }

/-- Notes the bounds family of nodes in progress. -/
def noteFamily (family : BoundsFamily) (ids : List Identity) : CompileM Unit :=
  modify fun s => { s with families := ids.foldl (fun t id => Table.put t id family) s.families }

section Apply

variable (context : CompileContext π) (node : Node π) (s : Ledger)

theorem report_apply (event : Event) :
    report event s = ((), { s with events := event :: s.events }) :=
  rfl

theorem resolve_apply : resolve context node s = ((context.registry.resolve node).value,
    { s with events := (context.registry.resolve node).events.reverse ++ s.events }) := rfl

theorem isActive_apply : isActive node s = (s.active.contains node.id, s) := rfl

theorem beginWork_apply : beginWork node s = ((), { s with active := node.id :: s.active }) := rfl

theorem endWork_apply (ids : List Identity) :
    endWork ids s = ((), { s with
      active := s.active.filter fun id => !ids.contains id
      families := s.families.filter fun entry => !ids.contains entry.1 }) := rfl

theorem noteFamily_apply (family : BoundsFamily) (ids : List Identity) :
    noteFamily family ids s =
      ((), { s with families := ids.foldl (fun t id => Table.put t id family) s.families }) := rfl

end Apply

/-! ### Names -/

/-- The text can be a name as it is: it is not empty, and has only letters, digits, `_`, `-` and `.`
of ASCII. -/
def isPlainName (text : String) : Bool :=
  !text.isEmpty && text.toList.all fun c => c.isAlphanum || c = '_' || c = '-' || c = '.'

/-- The first name made of a stem and a number from `counter` on that is not in use, and the number
after it. At most `tries` names are looked at. -/
def firstFree (stem : String) (used : List String) : Nat → Nat → String × Nat
  | 0, counter => (stem ++ toString counter, counter + 1)
  | tries + 1, counter =>
    let candidate := stem ++ toString counter
    if used.contains candidate then firstFree stem used tries (counter + 1)
    else (candidate, counter + 1)

/-- A new name made of the stem and a number. There is a free one among one more than are in use. -/
def generatedName (stem : String) : CompileM String := do
  let s ← get
  let (name, nextNumber) := firstFree stem s.used s.used.length s.nextNumber
  set { s with nextNumber }
  return name

/-- The title of a node, if definitions are named after titles and it can be a new name. -/
def titleName? (context : CompileContext π) (node : Node π) : CompileM (Option String) := do
  if context.options.nameDefsFromTitle then
    let adapter? ← resolve context node
    let used := (← get).used
    return (adapter?.bind fun adapter => adapter.title node).filter fun title =>
      isPlainName title && !used.contains title
  else return none

/-- A new name for a node: its title if possible, else a generated one. -/
def newName (context : CompileContext π) (node : Node π) : CompileM String := do
  match ← titleName? context node with
  | some title => return title
  | none => generatedName context.options.defStem

/-- The name of a node, which is given to it on the first use. -/
def nameOf (context : CompileContext π) (node : Node π) : CompileM String := do
  match Table.get? (← get).names node.id with
  | some name => return name
  | none =>
    let name ← newName context node
    modify fun s => { s with used := name :: s.used, names := Table.put s.names node.id name }
    return name

/-- The reference to a definition. -/
def refSchema (name : String) : Json.Fields := [("$ref", .string ("#/$defs/" ++ name))]

/-- A reference to a node in progress, with the bounds family of what it refers to as far as that is
known. -/
def refer (context : CompileContext π) (node : Node π) :
    CompileM (Json.Fields × BoundsFamily) := do
  let name ← nameOf context node
  report (.referred name)
  let family := (Table.get? (← get).families node.id).getD .value
  return (refSchema name, family)

/-! ### Definitions -/

/-- Stores a schema as the definition of a node that has a name, unless there is a definition. -/
def define (id : Identity) (schema : Json.Fields) : CompileM Unit :=
  modify fun s =>
    match Table.get? s.names id with
    | some name =>
      if Table.has s.definitions name then s
      else { s with definitions := Table.put s.definitions name schema }
    | none => s

/-- Stores the schema of an assembly as the definition of a node that has a name. -/
def complete (node : Node π) (assembly : Assembly) : CompileM Unit :=
  define node.id assembly.schema

/-- Stores the empty schema as the definition of those nodes that have a name but no definition. -/
def abandon (ids : List Identity) : CompileM Unit := ids.forM fun id => define id []

end Ledger

end SchemaBridge
