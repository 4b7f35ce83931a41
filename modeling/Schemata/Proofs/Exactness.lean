import Mathlib.Data.List.Basic
import Schemata.Node.Check
import Schemata.Proofs.Places

/-!
# What the check of generated source finds

The check goes through a tree once, with the functions around it in scope, and leaves out
parts of which it knows enough.  It finds nothing exactly where every place of the tree is as
it should be (`Fits`): the scope is the list of the functions in whose bodies a place is, and
what is left out cannot be at fault.

**Algorithm.**  `faultByPlaces?` is the fault of a call of a method where arguments are taken
out of their list by their places, so that it has no answer if there is none at a place.

**Results.**

* `checkIn_iff`: a tree passes where it fits its scope and its parts pass inside of it.
* `faultByPlaces?_eq`: arguments are only looked for where they are.
* `check_exact`: a tree passes the check if and only if every place in it fits.
-/

namespace Schemata
namespace Node

/-! ## What is asked of a place -/

/-- Arguments that begin with an array of literals, at least one. -/
def ListLiterals (args : List Node) : Prop :=
  ∃ (values : List Literal) (rest : List Node),
    values ≠ [] ∧ args = .array (values.map .literal) :: rest

/-- Arguments that begin with an object. -/
def NameFields (args : List Node) : Prop :=
  ∃ (fields : List (String × Node)) (rest : List Node), args = .object fields :: rest

/-- What a method of the root asks of the form of its arguments. -/
def ArgumentsFit (root name : String) (args : List Node) : Prop :=
  match name with
  | "literal" => ∃ value rest, args = .literal value :: rest
  | "literals" => ListLiterals args
  | "literalsOr" => ListLiterals args
  | "type" => NameFields args
  | "partial" => NameFields args
  | "sum" => ∃ tag rest, args = .literal (.string tag) :: rest
  | "lazy" => ∃ id body rest,
      args = .literal (.string id) :: .function (definitionName id root) body :: rest
  | _ => True

/-- What is asked of a tree itself in the bodies of the functions of a scope. -/
structure Fits (root : String) (scope : List String) (node : Node) : Prop where
  /-- A function does not hide the root. -/
  function : ∀ name body, node = .function name body → name ≠ root
  /-- A method of the root is in the catalog, takes so many arguments, and takes them in this
  form. -/
  method : ∀ name args, node = .call (.member (.ident root) name) args →
    (∃ combinator ∈ Combinator.catalog,
      combinator.name = name ∧ combinator.arity.accepts args.length = true) ∧
    ArgumentsFit root name args
  /-- Methods are called on nothing but the root. -/
  target : ∀ target property args, node = .call (.member target property) args →
    target = .ident root
  /-- A bare call has no arguments and is inside of the function that it calls. -/
  reference : ∀ name args, node = .call (.ident name) args → args = [] ∧ name ∈ scope
  /-- The tag of a sum is followed by one object. -/
  members : ∀ tag args, node = .call (.call (.member (.ident root) "sum") tag) args →
    ∃ fields, args = [.object fields]

variable {root name : String} {scope : List String} {args : List Node}

/-! ## Faults of calls -/

/-- Trees that are all literals, as a list of literals. -/
theorem exists_literals : ∀ {items : List Node}, (∀ item ∈ items, item.literal? ≠ none) →
    ∃ values : List Literal, items = values.map .literal
  | [], _ => ⟨[], rfl⟩
  | item :: rest, h => by
      obtain ⟨hitem, hrest⟩ := List.forall_mem_cons.1 h
      obtain ⟨values, rfl⟩ := exists_literals hrest
      cases item with
      | literal value => exact ⟨value :: values, rfl⟩
      | _ => exact absurd rfl hitem

theorem literalsFault?_eq_none {values : Node} {rest : List Node} :
    argumentFault?.literalsFault? name values = none ↔ ListLiterals (values :: rest) := by
  constructor
  · intro h
    cases values with
    | array items =>
        have h : items ≠ [] ∧ ∀ item ∈ items, item.literal? ≠ none := by
          simpa [argumentFault?.literalsFault?, items?] using h
        obtain ⟨values, rfl⟩ := exists_literals h.2
        exact ⟨values, rest, by simpa using h.1, rfl⟩
    | _ => simp [argumentFault?.literalsFault?, items?] at h
  · rintro ⟨values, _, hvalues, h⟩
    obtain rfl := (List.cons.inj h).1
    simp [argumentFault?.literalsFault?, items?, hvalues, literal?]

theorem fieldsFault?_eq_none {fields : Node} {rest : List Node} :
    argumentFault?.fieldsFault? name fields = none ↔ NameFields (fields :: rest) := by
  cases fields <;> simp [argumentFault?.fieldsFault?, fields?, NameFields]

theorem literalFault?_eq_none {value : Node} :
    argumentFault? root "literal" [value] = none ↔ ArgumentsFit root "literal" [value] := by
  cases value <;> simp [argumentFault?, literal?, ArgumentsFit]

theorem tagFault?_eq_none {tag : Node} :
    argumentFault? root "sum" [tag] = none ↔ ArgumentsFit root "sum" [tag] := by
  cases tag with
  | literal value => cases value <;> simp [argumentFault?, text?, ArgumentsFit]
  | _ => simp [argumentFault?, text?, ArgumentsFit]

theorem lazyFault?_eq_none {id definition : Node} :
    argumentFault? root "lazy" [id, definition] = none ↔
      ArgumentsFit root "lazy" [id, definition] := by
  constructor
  · intro h
    cases id with
    | literal value =>
        cases value with
        | string id =>
            cases definition with
            | function given body =>
                simp only [argumentFault?, text?, function?] at h
                split at h
                · cases h
                · split at h
                  · rename_i hgiven
                    exact ⟨id, body, [], by rw [hgiven]⟩
                  · cases h
            | _ => simp [argumentFault?, text?, function?] at h
        | _ => simp [argumentFault?, text?] at h
    | _ => simp [argumentFault?, text?] at h
  · rintro ⟨id, body, _, h⟩
    simp only [List.cons.injEq] at h
    obtain ⟨rfl, rfl, _⟩ := h
    simp [argumentFault?, text?, function?, definitionName_ne_root]

/-- The methods that ask something of the form of their arguments. -/
def formed : List String :=
  ["literal", "literals", "literalsOr", "type", "partial", "sum", "lazy"]

/-- They take as many arguments as they look at. -/
theorem arity_of_formed : ∀ combinator ∈ Combinator.catalog, combinator.name ∈ formed →
    combinator.arity =
      .exactly (if combinator.name = "literalsOr" ∨ combinator.name = "lazy" then 2 else 1) := by
  decide

theorem argumentFault?_of_not_formed (root : String) (h : name ∉ formed) (args : List Node) :
    argumentFault? root name args = none ∧ ArgumentsFit root name args := by
  simp only [formed, List.mem_cons, List.not_mem_nil, or_false, not_or] at h
  simp [argumentFault?, ArgumentsFit, h]

/-- Arguments of the number that a method takes, where it looks at them. -/
inductive Counted : String → List Node → Prop
  | literal (value : Node) : Counted "literal" [value]
  | literals (values : Node) : Counted "literals" [values]
  | literalsOr (values fallback : Node) : Counted "literalsOr" [values, fallback]
  | required (fields : Node) : Counted "type" [fields]
  | optional (fields : Node) : Counted "partial" [fields]
  | sum (tag : Node) : Counted "sum" [tag]
  | lazy (id definition : Node) : Counted "lazy" [id, definition]
  | unformed {name : String} (args : List Node) : name ∉ formed → Counted name args

/-- What the catalog lets through are arguments of the number that the method takes. -/
theorem counted_of_accepts {combinator : Combinator} (h : combinator ∈ Combinator.catalog)
    (hcount : combinator.arity.accepts args.length = true) : Counted combinator.name args := by
  by_cases hformed : combinator.name ∈ formed
  · rw [arity_of_formed combinator h hformed, Arity.accepts, beq_iff_eq] at hcount
    simp only [formed, List.mem_cons, List.not_mem_nil, or_false] at hformed
    rcases hformed with hname | hname | hname | hname | hname | hname | hname
    all_goals simp only [hname] at hcount ⊢
    · obtain ⟨value, rfl⟩ := List.length_eq_one_iff.1 hcount
      exact .literal value
    · obtain ⟨values, rfl⟩ := List.length_eq_one_iff.1 hcount
      exact .literals values
    · obtain ⟨values, fallback, rfl⟩ := List.length_eq_two.1 hcount
      exact .literalsOr values fallback
    · obtain ⟨fields, rfl⟩ := List.length_eq_one_iff.1 hcount
      exact .required fields
    · obtain ⟨fields, rfl⟩ := List.length_eq_one_iff.1 hcount
      exact .optional fields
    · obtain ⟨tag, rfl⟩ := List.length_eq_one_iff.1 hcount
      exact .sum tag
    · obtain ⟨id, definition, rfl⟩ := List.length_eq_two.1 hcount
      exact .lazy id definition
  · exact .unformed args hformed

/-- Arguments of the right number have no fault where they have the right form. -/
theorem argumentFault?_eq_none (h : Counted name args) :
    argumentFault? root name args = none ↔ ArgumentsFit root name args := by
  cases h with
  | literal value => exact literalFault?_eq_none
  | literals values => exact literalsFault?_eq_none
  | literalsOr values fallback => exact literalsFault?_eq_none
  | required fields => exact fieldsFault?_eq_none
  | optional fields => exact fieldsFault?_eq_none
  | sum tag => exact tagFault?_eq_none
  | lazy id definition => exact lazyFault?_eq_none
  | unformed args hformed =>
      obtain ⟨hfault, hfit⟩ := argumentFault?_of_not_formed root hformed args
      exact ⟨fun _ => hfit, fun _ => hfault⟩

theorem find?_of_mem_catalog : ∀ combinator ∈ Combinator.catalog,
    Combinator.find? combinator.name = some combinator := by
  decide

/-- A call of a method has no fault where the catalog has the method, with this number of
arguments, and they have the right form. -/
theorem methodFault?_eq_none :
    methodFault? root name args = none ↔
      (∃ combinator ∈ Combinator.catalog,
        combinator.name = name ∧ combinator.arity.accepts args.length = true) ∧
      ArgumentsFit root name args := by
  constructor
  · intro h
    rw [methodFault?] at h
    split at h
    · cases h
    · rename_i combinator hfind
      have hmem : combinator ∈ Combinator.catalog := List.mem_of_find?_eq_some hfind
      obtain rfl : combinator.name = name := by simpa using List.find?_some hfind
      split at h
      · rename_i hcount
        exact ⟨⟨combinator, hmem, rfl, hcount⟩,
          (argumentFault?_eq_none (counted_of_accepts hmem hcount)).1 h⟩
      · cases h
  · rintro ⟨⟨combinator, hmem, rfl, hcount⟩, hfit⟩
    rw [methodFault?, find?_of_mem_catalog combinator hmem]
    simp only [if_pos hcount]
    exact (argumentFault?_eq_none (counted_of_accepts hmem hcount)).2 hfit

theorem membersFault?_eq_none : membersFault? args = none ↔ ∃ fields, args = [.object fields] := by
  match args with
  | [] => simp [membersFault?]
  | [members] => cases members <;> simp [membersFault?, fields?]
  | _ :: _ :: _ => simp [membersFault?]

theorem referenceFault?_eq_none :
    referenceFault? scope name args = none ↔ args = [] ∧ name ∈ scope := by
  rw [referenceFault?]
  by_cases hname : name ∈ scope
  · cases args <;> simp [hname]
  · simp [hname]

/-! ## Arguments by their places -/

/-- The fault of the arguments of a method, each taken out of the list by its place; no answer
if the list has none there. -/
def faultByPlaces? (root name : String) (args : List Node) : Option (Option CheckError) :=
  match name with
  | "literal" => do
      let value ← args[0]?
      pure (if value.literal?.isSome then none
        else some (.argument name "argument must be a literal"))
  | "literals" => do pure (argumentFault?.literalsFault? name (← args[0]?))
  | "literalsOr" => do pure (argumentFault?.literalsFault? name (← args[0]?))
  | "type" => do pure (argumentFault?.fieldsFault? name (← args[0]?))
  | "partial" => do pure (argumentFault?.fieldsFault? name (← args[0]?))
  | "sum" => do
      let tag ← args[0]?
      pure (if tag.text?.isSome then none else some (.argument name "tag must be a string"))
  | "lazy" => do
      let id ← args[0]?
      match id.text? with
      | none => pure (some (.argument name "id must be a string"))
      | some id => do
          let definition ← args[1]?
          match definition.function? with
          | none => pure (some (.argument name "definition must be a function"))
          | some (given, _) =>
              pure (if given = root then some (.shadowedRoot given)
                else if given = definitionName id root then none
                else some (.argument name ("function " ++ given ++ " does not match id " ++ id)))
  | _ => pure none

/-- The fault of a call of a method, its number of arguments first. -/
def methodFaultByPlaces? (root name : String) (args : List Node) : Option (Option CheckError) :=
  match Combinator.find? name with
  | none => some (some (.unknownCombinator name))
  | some combinator =>
      if combinator.arity.accepts args.length then faultByPlaces? root name args
      else some (some (.argumentCount name combinator.arity.text args.length))

theorem faultByPlaces?_lazy (id definition : Node) :
    faultByPlaces? root "lazy" [id, definition] =
      some (argumentFault? root "lazy" [id, definition]) := by
  cases hid : id.text? with
  | none => simp [faultByPlaces?, argumentFault?, hid]
  | some text =>
      cases hdefinition : definition.function? with
      | none => simp [faultByPlaces?, argumentFault?, hid, hdefinition]
      | some function => simp [faultByPlaces?, argumentFault?, hid, hdefinition]

/-- Arguments of the right number are there where they are looked for. -/
theorem faultByPlaces?_eq (h : Counted name args) :
    faultByPlaces? root name args = some (argumentFault? root name args) := by
  cases h with
  | literal value => rfl
  | literals values => rfl
  | literalsOr values fallback => rfl
  | required fields => rfl
  | optional fields => rfl
  | sum tag => rfl
  | lazy id definition => exact faultByPlaces?_lazy id definition
  | unformed args hformed =>
      rw [(argumentFault?_of_not_formed root hformed args).1]
      simp only [formed, List.mem_cons, List.not_mem_nil, or_false, not_or] at hformed
      simp [faultByPlaces?, hformed]

/-! ## One step of the check -/

theorem require_eq_ok {fault : Option CheckError} : require fault = .ok () ↔ fault = none := by
  cases fault <;> simp [require]

theorem bind_eq_ok {first second : Except CheckError Unit} :
    (first >>= fun _ => second) = .ok () ↔ first = .ok () ∧ second = .ok () := by
  cases first with
  | error fault => simp [bind, Except.bind]
  | ok value => simp [bind, Except.bind]

theorem checkAll_eq_ok : ∀ {nodes : List Node},
    checkAll root scope nodes = .ok () ↔ ∀ node ∈ nodes, checkIn root scope node = .ok ()
  | [] => by simp [checkAll]
  | node :: rest => by
      rw [checkAll, bind_eq_ok, checkAll_eq_ok, List.forall_mem_cons]

theorem checkFields_eq_ok : ∀ {fields : List (String × Node)},
    checkFields root scope fields = .ok () ↔
      ∀ node ∈ fields.map Prod.snd, checkIn root scope node = .ok ()
  | [] => by simp [checkFields]
  | (_, node) :: rest => by
      rw [checkFields, bind_eq_ok, checkFields_eq_ok, List.map_cons, List.forall_mem_cons]

/-- The callees of a call, by its role. -/
inductive Called (root : String) : Node → Role → Prop
  | method (name : String) : Called root (.member (.ident root) name) (.method name)
  | foreign {target : Node} (property text : String) : target ≠ .ident root →
      Called root (.member target property) (.foreign text)
  | reference (name : String) : Called root (.ident name) (.reference name)
  | members (tag : List Node) : Called root (.call (.member (.ident root) "sum") tag) .members
  | other {callee : Node} : (∀ target property, callee ≠ .member target property) →
      (∀ name, callee ≠ .ident name) →
      (∀ tag, callee ≠ .call (.member (.ident root) "sum") tag) → Called root callee .other

theorem methodName?_eq_some {node : Node} {property : String}
    (h : node.methodName? root = some property) :
    ∃ args, node = .call (.member (.ident root) property) args := by
  unfold methodName? at h
  split at h
  · split at h
    · rename_i hname
      obtain rfl := hname
      obtain rfl := Option.some.inj h
      exact ⟨_, rfl⟩
    · cases h
  · cases h

theorem called_role (root : String) (callee : Node) : Called root callee (callee.role root) := by
  have hother : (∀ target property, callee ≠ .member target property) →
      (∀ name, callee ≠ .ident name) →
      Called root callee (if callee.methodName? root = some "sum" then .members else .other) := by
    intro hmember hident
    by_cases hsum : callee.methodName? root = some "sum"
    · obtain ⟨tag, rfl⟩ := methodName?_eq_some hsum
      rw [if_pos hsum]
      exact .members tag
    · rw [if_neg hsum]
      refine .other hmember hident fun tag htag => hsum ?_
      simp [htag, methodName?]
  cases callee with
  | member target property =>
      cases target with
      | ident name =>
          by_cases hname : name = root
          · subst hname
            simp only [role, if_pos]
            exact .method property
          · simp only [role, if_neg hname]
            exact .foreign property name fun h => hname (ident.inj h)
      | _ => exact .foreign property _ nofun
  | ident name => exact .reference name
  | _ => exact hother nofun nofun

/-- Of a tree that is neither a function nor a call nothing is asked. -/
theorem fits_of_plain {node : Node} (hfunction : ∀ name body, node ≠ .function name body)
    (hcall : ∀ callee args, node ≠ .call callee args) : node.Fits root scope where
  function _ _ h := absurd h (hfunction _ _)
  method _ _ h := absurd h (hcall _ _)
  target _ _ _ h := absurd h (hcall _ _)
  reference _ _ h := absurd h (hcall _ _)
  members _ _ h := absurd h (hcall _ _)

theorem fits_function {body : Node} : (function name body).Fits root scope ↔ name ≠ root := by
  constructor
  · exact fun h => h.function name body rfl
  · intro h
    refine ⟨?_, nofun, nofun, nofun, nofun⟩
    rintro _ _ ⟨⟩
    exact h

/-- What is asked of a call goes by its role. -/
theorem fits_call {callee : Node} {role : Role} (hrole : Called root callee role) :
    (call callee args).Fits root scope ↔
      match role with
      | .method name => methodFault? root name args = none
      | .members => membersFault? args = none
      | .reference name => referenceFault? scope name args = none
      | .foreign _ => False
      | .other => True := by
  cases hrole with
  | method name =>
      simp only [methodFault?_eq_none]
      constructor
      · exact fun h => h.method name args rfl
      · intro h
        refine ⟨nofun, ?_, ?_, nofun, nofun⟩
        · rintro _ _ ⟨⟩
          exact h
        · rintro _ _ _ ⟨⟩
          rfl
  | foreign property text htarget =>
      exact ⟨fun h => htarget (h.target _ property args rfl), False.elim⟩
  | reference name =>
      simp only [referenceFault?_eq_none]
      constructor
      · exact fun h => h.reference name args rfl
      · intro h
        refine ⟨nofun, nofun, nofun, ?_, nofun⟩
        rintro _ _ ⟨⟩
        exact h
  | members tag =>
      simp only [membersFault?_eq_none]
      constructor
      · exact fun h => h.members tag args rfl
      · intro h
        refine ⟨nofun, nofun, nofun, nofun, ?_⟩
        rintro _ _ ⟨⟩
        exact h
  | other hmember hident hsum =>
      refine ⟨fun _ => trivial, fun _ => ⟨nofun, ?_, ?_, ?_, ?_⟩⟩
      · rintro _ _ ⟨⟩
        exact absurd rfl (hmember _ _)
      · rintro _ _ _ ⟨⟩
        exact absurd rfl (hmember _ _)
      · rintro _ _ ⟨⟩
        exact absurd rfl (hident _)
      · rintro _ _ ⟨⟩
        exact absurd rfl (hsum _)

/-- **A tree passes the check where it fits its scope itself and its parts pass the check in the
scope inside of it.** -/
theorem checkIn_iff {node : Node} :
    checkIn root scope node = .ok () ↔
      node.Fits root scope ∧
        ∀ part ∈ node.parts, checkIn root (node.scopeIn scope) part = .ok () := by
  cases node with
  | literal value => simp [checkIn, parts, fits_of_plain]
  | ident name => simp [checkIn, parts, fits_of_plain]
  | member target property => simp [checkIn, parts, scopeIn, fits_of_plain]
  | object fields => simp [checkIn, parts, scopeIn, fits_of_plain, checkFields_eq_ok]
  | array items => simp [checkIn, parts, scopeIn, fits_of_plain, checkAll_eq_ok]
  | function name body =>
      rw [checkIn, bind_eq_ok, require_eq_ok, fits_function]
      simp [functionFault?, parts, scopeIn]
  | call callee args =>
      have hrole := called_role root callee
      rw [fits_call hrole, checkIn, parts, List.forall_mem_cons, ← checkAll_eq_ok]
      simp only [scopeIn]
      generalize callee.role root = role at hrole
      cases hrole with
      | method name =>
          -- What is called has no parts that could be at fault.
          simp [bind_eq_ok, require_eq_ok, checkIn]
      | foreign property text htarget => simp
      | reference name =>
          simp only [require_eq_ok, checkIn, true_and]
          refine ⟨fun h => ⟨h, ?_⟩, And.left⟩
          rw [(referenceFault?_eq_none.1 h).1, checkAll]
      | members tag =>
          simp only [bind_eq_ok, require_eq_ok]
          exact and_left_comm
      | other hmember hident hsum => simp [bind_eq_ok]

/-! ## The whole check -/

/-- What passes the check passes it at every place below. -/
theorem checkIn_of_leads {place other : Place} (hleads : place.Leads other)
    (h : checkIn root place.scope place.node = .ok ()) :
    checkIn root other.scope other.node = .ok () := by
  induction hleads with
  | refl => exact h
  | tail _ henters ih =>
      cases henters with
      | part hnode =>
          rw [Place.scope_part]
          exact (checkIn_iff.1 ih).2 _ hnode

/-- A place below which everything fits passes the check. -/
theorem checkIn_of_fits (place : Place)
    (h : ∀ other, place.Leads other → other.node.Fits root other.scope) :
    checkIn root place.scope place.node = .ok () := by
  refine checkIn_iff.2 ⟨h place .refl, fun node hnode => ?_⟩
  rw [← Place.scope_part place node]
  exact checkIn_of_fits (place.part node) fun other hother =>
    h other (Place.leads_iff.2 (.inr ⟨node, hnode, hother⟩))
termination_by place.node.size
decreasing_by exact size_lt_of_mem_parts hnode

/-- **The check is exact.**  It finds nothing in a tree if and only if every place in the tree
fits the functions in whose bodies it is; and arguments are looked for by their places only
where they are. -/
theorem check_exact (node : Node) (root : String) :
    (node.check root = .ok () ↔
      ∀ place, (Place.top node).Leads place → place.node.Fits root place.scope) ∧
    ∀ name args, methodFaultByPlaces? root name args = some (methodFault? root name args) := by
  constructor
  · constructor
    · intro h place hplace
      exact (checkIn_iff.1 (checkIn_of_leads hplace h)).1
    · exact checkIn_of_fits (.top node)
  · intro name args
    rw [methodFaultByPlaces?, methodFault?]
    cases hfind : Combinator.find? name with
    | none => rfl
    | some combinator =>
        have hmem : combinator ∈ Combinator.catalog := List.mem_of_find?_eq_some hfind
        obtain rfl : combinator.name = name := by simpa using List.find?_some hfind
        by_cases hcount : combinator.arity.accepts args.length = true
        · simp only [if_pos hcount]
          exact faultByPlaces?_eq (counted_of_accepts hmem hcount)
        · simp only [if_neg hcount]

end Node
end Schemata
