import SchemaBridge.Proofs.Compile.Runs

/-!
# Where names come from

A node only gets a name when some call comes upon it while it is in progress. So what is said of the
names before and after a call follows from what references do to the names. In particular every name
in the books at the end of a call was there before it, or goes back to such a meeting in a call that
it makes.

## Main definitions

* `Call.NamesFollow` : what is said of the names before and after calls holds of references.
* `Call.Accounts` : names that are new go back to a meeting within a call.

## Main results

* `Ledger.names_refer_eq`, `Ledger.names_refer` : what a reference does to the names.
* `Call.names_follow` : what holds of references holds of calls.
* `Call.accounts` : new names go back to a meeting.
-/

namespace SchemaBridge

open Chain Ledger Compile Plan CompileM Stateful

variable {π : Type} {context : CompileContext π}

/-- A reference leaves the names alone, or gives its node a new one. -/
theorem Ledger.names_refer_eq (context : CompileContext π) (node : Node π) (s : Ledger) :
    (refer context node s).2.names = s.names ∨
      (refer context node s).2.names = Table.put s.names node.id (newName context node s).1 := by
  cases named : Table.get? s.names node.id with
  | some old =>
    rw [refer_of_named context node s named]
    exact .inl rfl
  | none =>
    obtain ⟨number, events, -, -, result⟩ := refer_of_unnamed context node s named
    rw [result]
    exact .inr rfl

/-- A reference names no other node. -/
theorem Ledger.names_refer (context : CompileContext π) (node : Node π) (s : Ledger)
    {id : Identity} {name : String}
    (named : Table.get? (refer context node s).2.names id = some name) :
    Table.get? s.names id = some name ∨ id = node.id := by
  rcases names_refer_eq context node s with same | put
  · exact .inl (same ▸ named)
  · rw [put, Table.get?_put] at named
    split at named
    next same => exact .inr same.symm
    next => exact .inl named

namespace Call

/-! ### Names before and after a call -/

/-- What is said of the names before and after calls: it is passed on from a call to the call that
makes it, and holds when a call refers to a node that it comes upon in progress. -/
structure NamesFollow (context : CompileContext π)
    (related : Call π → Table Identity String → Table Identity String → Prop) : Prop where
  refl : ∀ call names, related call names names
  trans : ∀ {call before during after}, related call before during → related call during after →
    related call before after
  spawned : ∀ {outer inner before after}, Spawns context outer inner → related inner before after →
    related outer before after
  referred : ∀ {call again} (s : Ledger), Meets context again.id call →
    related call s.names (refer context again s).2.names

section Follow

variable {related : Call π → Table Identity String → Table Identity String → Prop}
  {root call : Call π} {s t : Ledger}

section Claimed

variable {levels : Nat} {node : Node π} {adapter : Adapter π} {layers : List (PeeledLayer π)}
  {isOptional : Bool} {ids : List Identity} (follow : NamesFollow context related)
  (new : node.id ∉ s.active) (claims : (context.registry.resolve node).value = some adapter)
  (within : Within context root ⟨levels + 1, node, s⟩)
  (spawned : ∀ inner, Spawns context ⟨levels + 1, node, s⟩ inner →
    Trusted context root inner.books →
      related inner inner.books.names (inner.after context).names)
include follow new claims within spawned

/-- What becomes of the names while the structure of a base is compiled. -/
theorem names_follow_structure {base : Node π} {baseAdapter : Adapter π}
    {modifier : Option Modifier}
    (peels : Peels context node adapter (resolved context ⟨levels + 1, node, s⟩) layers isOptional
      (.ok (.base base baseAdapter modifier)) ids t)
    (h : Trusted context root (noted base baseAdapter ids t)) :
    related ⟨levels + 1, node, s⟩ (noted base baseAdapter ids t).names
      (Structure.compile context (Compile.node context levels) base baseAdapter
        (noted base baseAdapter ids t)).2.names := by
  cases seen : baseAdapter.shape? base with
  | none =>
    rw [Structure.compile, seen]
    exact follow.refl _ _
  | some shape =>
    rw [Structure.compile, seen]
    refine (@Structure.carryOut_spec π _ _ (Trusted context root)
      (fun v w => related ⟨levels + 1, node, s⟩ v.names w.names) (fun _ _ _ => True)
      (fun _ => follow.refl _ _) (fun _ _ _ _ => follow.trans)
      (fun s supply h => ⟨h.of_supply_events supply [], follow.refl _ _⟩)
      (fun _ _ _ _ _ _ => trivial) _ _ ?_ h).2.1
    intro part v visits trusted
    have spawns : Spawns context ⟨levels + 1, node, s⟩ ⟨levels, part, v⟩ :=
      .intro new claims peels seen visits
    exact ⟨(Call.keeps (within.tail spawns) trusted).1,
      follow.spawned spawns (spawned _ spawns trusted), trivial⟩

/-- What becomes of the names during a call on a claimed node. -/
theorem names_follow_claimed (trusted : Trusted context root s) :
    related ⟨levels + 1, node, s⟩ s.names (after context ⟨levels + 1, node, s⟩).names := by
  have atStart : Trusted context root (resolved context ⟨levels + 1, node, s⟩) :=
    trusted_resolved trusted
  have result := @outcome π context levels node adapter s new claims
  generalize answer context ⟨levels + 1, node, s⟩ = c, after context ⟨levels + 1, node, s⟩ = v
    at result ⊢
  have unchanged {layers : List (PeeledLayer π)} {isOptional : Bool}
      {stop : Except CompileFailure (ChainEnd π)} {ids : List Identity} {t : Ledger}
      (peels : Peels context node adapter (resolved context ⟨levels + 1, node, s⟩) layers isOptional
        stop ids t) : t.names = s.names := (peels.opened atStart.toSound).names
  have built {base : Node π} {baseAdapter : Adapter π} {modifier : Option Modifier}
      {layers : List (PeeledLayer π)} {isOptional : Bool} {ids : List Identity} {t u : Ledger}
      {result : Except CompileFailure Assembly}
      (peels : Peels context node adapter (resolved context ⟨levels + 1, node, s⟩) layers isOptional
        (.ok (.base base baseAdapter modifier)) ids t)
      (runs : Structure.compile context (Compile.node context levels) base baseAdapter
        (noted base baseAdapter ids t) = (result, u)) :
      related ⟨levels + 1, node, s⟩ s.names u.names := by
    have opened := (peels.opened atStart.toSound).noted
      (((baseAdapter.shape? base).map Shape.bounds).getD .value)
    have followed := names_follow_structure follow new claims within spawned peels
      (atStart.opened opened)
    rw [runs] at followed
    exact unchanged peels ▸ followed
  cases result with
  | @success layers isOptional stop ids t u core peels atEnd =>
    cases atEnd with
    | built runs =>
      have followed := built peels runs
      exact followed
    | @looped again =>
      have followed := follow.referred t (.inside new claims peels rfl)
      exact unchanged peels ▸ followed
    | unclaimed => exact unchanged peels ▸ follow.refl _ _
  | givenUp peels => exact unchanged peels ▸ follow.refl _ _
  | broken peels runs =>
    have followed := built peels runs
    exact followed

end Claimed

/-- What is said of the names before and after references holds of every call of a run. -/
theorem names_follow (follow : NamesFollow context related) (within : Within context root call)
    (trusted : Trusted context root call.books) :
    related call call.books.names (call.after context).names := by
  induction call using induct context with
  | step call ih =>
    cases call.begins context with
    | @inProgress levels node s active =>
      rw [after, node_of_active active]
      exact follow.referred s (.here rfl active)
    | tooDeep new =>
      rw [after, Compile.node, step_none context new]
      exact follow.refl _ _
    | unclaimed new nobody =>
      rw [after, Compile.node, step_of_unclaimed context new nobody]
      exact follow.refl _ _
    | claimed new claims =>
      exact names_follow_claimed follow new claims within
        (fun inner spawns atInner => ih inner spawns (within.tail spawns) atInner) trusted

end Follow

/-! ### Names go back to meetings -/

/-- What names there are in later books was in the earlier ones, or goes back to a meeting within a
call. -/
def Accounts (context : CompileContext π) (call : Call π) (s t : Ledger) : Prop :=
  ∀ id name, Table.get? t.names id = some name → Table.get? s.names id = some name ∨
    ∃ inner, Within context call inner ∧ Meets context id inner

/-- The names that are new after a call of a run go back to a meeting. -/
theorem accounts {root call : Call π} (within : Within context root call)
    (trusted : Trusted context root call.books) :
    Accounts context call call.books (call.after context) := by
  refine @names_follow π context (fun call before after => ∀ id name,
    Table.get? after id = some name → Table.get? before id = some name ∨
      ∃ inner, Within context call inner ∧ Meets context id inner) root call ?_ within trusted
  constructor
  case refl => exact fun _ _ _ _ => .inl
  case trans => exact fun first second id name named =>
    (second id name named).elim (first id name) .inr
  case spawned =>
    exact fun spawns h id name named =>
      (h id name named).imp_right fun ⟨other, within, meets⟩ => ⟨other, .head spawns within, meets⟩
  case referred =>
    intro call again s meets id name named
    rcases names_refer context again s named with old | rfl
    · exact .inl old
    · exact .inr ⟨call, .refl, meets⟩

end Call

end SchemaBridge
