import Schemata.Proofs.Exactness
import Schemata.Proofs.Naming
import Schemata.Proofs.Reading

/-!
# No name is captured in generated source

In the text of a tree a bare call is of the innermost function around it that is written with the
same identifier.  So what a bare call means is said of the identifiers of the functions around
its place, without the document.

**Algorithm.**  `linked?` replaces bare calls by the ids of what they mean at their places, and
lazy schemas by their ids.  The body of a function with this done is to be the definition of its
id again, with its references in their places.

**Results.**

* `Written`: what the source of a definition can be, and of what it is the source.
* `Written.linked`: a written tree is linked to that.
* `Place.Uncaptured`: what is so at every place where no name is captured.
* `Document.source_uncaptured`: it is so at every place of the source of a document.
-/

namespace Schemata

namespace Node

/-! ## What a bare call means -/

/-- The id of a lazy schema on a root identifier. -/
def lazyId? (root : String) : Node → Option String
  | .call (.member (.ident name) "lazy") [.literal (.string id), _] =>
      if name = root then some id else none
  | _ => none

/-- A function and the id of the lazy schema directly around it. -/
def binding? (root : String) (inner outer : Node) : Option (String × String) := do
  pure (← inner.functionName?, ← outer.lazyId? root)

/-- The functions of lazy schemas around a place, innermost first, with the ids of these. -/
def Place.bindings (root : String) (place : Place) : List (String × String) :=
  (place.above.zip place.above.tail).filterMap fun (inner, outer) => binding? root inner outer

/-- The id of the innermost function that is written with the identifier of a name. -/
def meant? (bound : List (String × String)) (name : String) : Option String :=
  (bound.find? fun binding => identifier binding.1 == identifier name).map Prod.snd

/-- The call that stands for the definition of an id. -/
def reference (id : String) : Node := .call (.ident id) []

mutual
/-- A tree with bare calls and lazy schemas replaced by the definitions for which they stand,
inside of bound functions.  A bare call that means nothing has no definition, and a function
stands for none. -/
def linked? (root : String) (bound : List (String × String)) : Node → Option Node
  | .literal value => some (.literal value)
  | .ident name => some (.ident name)
  | .member target property => do some (.member (← linked? root bound target) property)
  | .object fields => do some (.object (← linkedFields? root bound fields))
  | .array items => do some (.array (← linkedAll? root bound items))
  | .function _ _ => none
  | .call (.ident name) [] => (meant? bound name).map reference
  | .call callee args =>
      match lazyId? root (.call callee args) with
      | some id => some (reference id)
      | none => do some (.call (← linked? root bound callee) (← linkedAll? root bound args))

def linkedAll? (root : String) (bound : List (String × String)) : List Node → Option (List Node)
  | [] => some []
  | node :: rest => do some ((← linked? root bound node) :: (← linkedAll? root bound rest))

def linkedFields? (root : String) (bound : List (String × String)) :
    List (String × Node) → Option (List (String × Node))
  | [] => some []
  | (key, node) :: rest => do
      some ((key, ← linked? root bound node) :: (← linkedFields? root bound rest))
end

end Node

/-- The source of a definition with every reference in its place. -/
def Definition.skeleton (definition : Definition) (root : String) : Node :=
  Id.run ((definition.fold fun name => (⟨fun _ => Node.reference name⟩ : Sourcing Id)).node root)

namespace Node

/-- What is so at a place of generated source where no name is captured. -/
structure Place.Uncaptured (document : Document) (root : String) (place : Place) : Prop where
  /-- The functions around are those of lazy schemas. -/
  functions : place.scope = (place.bindings root).map Prod.fst
  /-- They have distinct names, none of them the root. -/
  names : (root :: place.scope).Nodup
  /-- They have distinct identifiers, none of them that of the root. -/
  identifiers : ((root :: place.scope).map identifier).Nodup
  /-- There are no more of them than definitions. -/
  nesting : place.scope.length ≤ document.definitions.length
  /-- Methods are called on the root. -/
  target : ∀ target property args, place.node = .call (.member target property) args →
    target = .ident root
  /-- A bare call is of the function of a definition, and that is what it means. -/
  reference : ∀ name args, place.node = .call (.ident name) args →
    args = [] ∧ ∃ id, name = definitionName id root ∧ meant? (place.bindings root) name = some id
  /-- The function of a lazy schema is that of its definition, which its body is: what stands for
  a definition in it stands where that is referred to. -/
  body : ∀ id name body,
    place.node = .method root "lazy" [.literal (.string id), .function name body] →
    name = definitionName id root ∧ ∃ definition, document.find? id = some definition ∧
      body.linked? root ((name, id) :: place.bindings root) = some (definition.skeleton root)

/-! ## Written trees -/

section Written

variable {document : Document} {root : String}

mutual
/-- A tree is the source of another one, in which references are in their places, inside of the
functions of the names around it. -/
inductive Written (document : Document) (root : String) : List String → Node → Node → Prop
  | literal {around : List String} (value : Literal) :
      Written document root around (.literal value) (.literal value)
  | array {around : List String} {nodes others : List Node} :
      WrittenAll document root around nodes others →
      Written document root around (.array nodes) (.array others)
  | object {around : List String} {fields others : List (String × Node)} :
      WrittenFields document root around fields others →
      Written document root around (.object fields) (.object others)
  | method {around : List String} {name : String} {args others : List Node} : name ≠ "lazy" →
      WrittenAll document root around args others →
      Written document root around (.method root name args) (.method root name others)
  | members {around : List String} {name : String} {args args' others others' : List Node} :
      Written document root around (.method root name args) (.method root name others) →
      WrittenAll document root around args' others' →
      Written document root around (.call (.method root name args) args')
        (.call (.method root name others) others')
  | reference {around : List String} {id : String} : id ∈ around →
      Written document root around (.call (.ident (definitionName id root)) []) (reference id)
  | lazy {around : List String} {id : String} {definition : Definition} {body : Node} :
      id ∉ around → document.find? id = some definition →
      Written document root (id :: around) body (definition.skeleton root) →
      Written document root around
        (.method root "lazy" [.literal (.string id), .function (definitionName id root) body])
        (reference id)

inductive WrittenAll (document : Document) (root : String) :
    List String → List Node → List Node → Prop
  | nil {around : List String} : WrittenAll document root around [] []
  | cons {around : List String} {node other : Node} {nodes others : List Node} :
      Written document root around node other → WrittenAll document root around nodes others →
      WrittenAll document root around (node :: nodes) (other :: others)

inductive WrittenFields (document : Document) (root : String) :
    List String → List (String × Node) → List (String × Node) → Prop
  | nil {around : List String} : WrittenFields document root around [] []
  | cons {around : List String} {key : String} {node other : Node}
      {fields others : List (String × Node)} :
      Written document root around node other →
      WrittenFields document root around fields others →
      WrittenFields document root around ((key, node) :: fields) ((key, other) :: others)
end

/-! ### What written trees are linked to -/

theorem lazyId?_method (root : String) {name : String} (h : name ≠ "lazy") (args : List Node) :
    lazyId? root (.method root name args) = none := by
  rw [method]
  unfold lazyId?
  split
  case h_1 heq =>
    injection heq with hcallee _
    injection hcallee with _ hname
    exact absurd hname h
  case h_2 => rfl

/-- The function of a name around is what that name's bare call means. -/
theorem meant?_functionsOf {id : String} : ∀ {around : List String}, id ∈ around →
    meant? (Document.functionsOf root around) (definitionName id root) = some id
  | other :: rest, h => by
      rw [Document.functionsOf, List.map_cons, meant?, List.find?_cons]
      by_cases hid : id = other
      · subst hid
        simp
      · have hne : (identifier (definitionName other root) ==
            identifier (definitionName id root)) = false :=
          beq_eq_false_iff_ne.2 fun heq =>
            hid (definitionName_injective (identifier_injective heq.symm))
        rw [hne]
        rcases List.mem_cons.1 h with heq | h
        · exact absurd heq hid
        · exact meant?_functionsOf h

mutual
/-- A written tree is linked to the tree of which it is the source. -/
theorem Written.linked {around : List String} {node other : Node} :
    Written document root around node other →
      node.linked? root (Document.functionsOf root around) = some other
  | .literal value => by rw [linked?]
  | .array h => by
      rw [linked?, h.linked]
      rfl
  | .object h => by
      rw [linked?, h.linked]
      rfl
  | .method hname h => by
      have hlazy := lazyId?_method root hname
      simp only [method] at hlazy ⊢
      simp [linked?, hlazy, h.linked]
  | .members h h' => by
      have hcallee := h.linked
      rw [linked?, hcallee, h'.linked]
      · rfl
      · exact nofun
  | .reference h => by
      rw [linked?, meant?_functionsOf h]
      rfl
  | .lazy _ _ _ => by simp [method, linked?, lazyId?]

theorem WrittenAll.linked {around : List String} {nodes others : List Node} :
    WrittenAll document root around nodes others →
      linkedAll? root (Document.functionsOf root around) nodes = some others
  | .nil => by rw [linkedAll?]
  | .cons h hs => by
      rw [linkedAll?, h.linked, hs.linked]
      rfl

theorem WrittenFields.linked {around : List String} {fields others : List (String × Node)} :
    WrittenFields document root around fields others →
      linkedFields? root (Document.functionsOf root around) fields = some others
  | .nil => by rw [linkedFields?]
  | .cons h hs => by
      rw [linkedFields?, h.linked, hs.linked]
      rfl
end

/-! ### Places in written trees -/

theorem bindings_part_of_no_function {place : Place} (h : place.node.functionName? = none)
    (node : Node) : (place.part node).bindings root = place.bindings root := by
  obtain ⟨tree, above⟩ := place
  cases above with
  | nil => rfl
  | cons outer rest => simp [Place.bindings, Place.part, binding?, h]

/-- In the body of the function of a lazy schema there is one more function. -/
theorem bindings_body (place : Place) (id name : String) (body : Node) :
    Place.bindings root ⟨body, .function name body ::
      .method root "lazy" [.literal (.string id), .function name body] :: place.above⟩ =
      (name, id) :: Place.bindings root
        ⟨body,
          .method root "lazy" [.literal (.string id), .function name body] :: place.above⟩ := by
  simp [Place.bindings, binding?, functionName?, lazyId?, method]

/-- A place is inside of the functions of names, innermost first, and of no others. -/
structure Place.Inside (document : Document) (root : String) (around : List String)
    (place : Place) : Prop where
  scope : place.scope = around.map (definitionName · root)
  bindings : place.bindings root = Document.functionsOf root around
  nodup : around.Nodup
  defined : around ⊆ document.definitions.keys

/-- A tree that is a lazy schema is that of a definition, with the source of this as its body. -/
def Defines (document : Document) (root : String) (around : List String) (node : Node) : Prop :=
  ∀ id name body, node = .method root "lazy" [.literal (.string id), .function name body] →
    name = definitionName id root ∧ ∃ definition, document.find? id = some definition ∧
      body.linked? root (Document.functionsOf root (id :: around)) =
        some (definition.skeleton root)

/-- All lazy schemas below a tree are those of definitions. -/
def Settled (document : Document) (root : String) (around : List String) (node : Node) : Prop :=
  ∀ place : Place, place.node = node → place.Inside document root around →
    ∀ other, place.Leads other → ∃ names, other.Inside document root names ∧
      Defines document root names other.node

variable {around : List String}

theorem Place.Inside.part {place : Place} (h : place.Inside document root around)
    (hfunction : place.node.functionName? = none) (node : Node) :
    (place.part node).Inside document root around where
  scope := by
    rw [scope_part, ← h.scope]
    cases hnode : place.node with
    | function name body => simp [hnode, functionName?] at hfunction
    | _ => rfl
  bindings := by rw [bindings_part_of_no_function hfunction, h.bindings]
  nodup := h.nodup
  defined := h.defined

theorem settled_of_parts {node : Node} (hfunction : node.functionName? = none)
    (hlazy : node.lazyId? root = none)
    (hparts : ∀ part ∈ node.parts, Settled document root around part) :
    Settled document root around node := by
  rintro place rfl hinside other hleads
  rcases Place.leads_iff.1 hleads with rfl | ⟨part, hpart, hleads⟩
  · refine ⟨around, hinside, fun id name body hnode => ?_⟩
    simp [hnode, method, lazyId?] at hlazy
  · exact hparts part hpart _ rfl (hinside.part hfunction part) other hleads

theorem settled_literal (value : Literal) : Settled document root around (.literal value) :=
  settled_of_parts rfl rfl nofun

theorem settled_ident (name : String) : Settled document root around (.ident name) :=
  settled_of_parts rfl rfl nofun

theorem settled_member (target name : String) :
    Settled document root around (.member (.ident target) name) :=
  settled_of_parts rfl rfl (List.forall_mem_singleton.2 (settled_ident target))

theorem settled_method {name : String} {args : List Node} (hname : name ≠ "lazy")
    (hargs : ∀ arg ∈ args, Settled document root around arg) :
    Settled document root around (.method root name args) := by
  refine settled_of_parts rfl (lazyId?_method root hname args) ?_
  exact List.forall_mem_cons.2 ⟨settled_member root name, hargs⟩

theorem settled_lazy {id : String} {definition : Definition} {body : Node} (hid : id ∉ around)
    (hfind : document.find? id = some definition)
    (hlinked : body.linked? root (Document.functionsOf root (id :: around)) =
      some (definition.skeleton root))
    (hbody : Settled document root (id :: around) body) :
    Settled document root around
      (.method root "lazy" [.literal (.string id), .function (definitionName id root) body]) := by
  rintro place hnode hinside other hleads
  have hpart : ∀ node, (place.part node).Inside document root around := fun node =>
    hinside.part (by rw [hnode]; rfl) node
  rcases Place.leads_iff.1 hleads with rfl | ⟨part, hmem, hleads⟩
  · refine ⟨around, hinside, ?_⟩
    rintro id' name body' heq
    rw [hnode] at heq
    simp only [method, call.injEq, List.cons.injEq, literal.injEq, Literal.string.injEq,
      function.injEq] at heq
    obtain ⟨_, rfl, ⟨rfl, rfl⟩, _⟩ := heq
    exact ⟨rfl, definition, hfind, hlinked⟩
  · rw [hnode] at hmem
    simp only [method, parts, List.mem_cons, List.not_mem_nil, or_false] at hmem
    rcases hmem with rfl | rfl | rfl
    · exact settled_member root "lazy" _ rfl (hpart _) other hleads
    · exact settled_literal _ _ rfl (hpart _) other hleads
    · rcases Place.leads_iff.1 hleads with rfl | ⟨part, hmem, hleads⟩
      · refine ⟨around, hpart _, fun _ _ _ heq => ?_⟩
        simp [Place.part, method] at heq
      · have hbodyPart : part = body := List.mem_singleton.1 hmem
        subst part
        refine hbody _ rfl ?_ other hleads
        have hpart := hpart body
        simp only [Place.part, hnode] at hpart ⊢
        refine ⟨?_, ?_, List.nodup_cons.2 ⟨hid, hinside.nodup⟩, ?_⟩
        · rw [List.map_cons, ← hpart.scope]
          rfl
        · rw [bindings_body, hpart.bindings]
          rfl
        · exact List.cons_subset.2
            ⟨List.mem_map_of_mem (Entries.mem_of_lookup hfind), hinside.defined⟩

mutual
/-- All lazy schemas in a written tree are those of definitions. -/
theorem Written.settled {around : List String} {node other : Node} :
    Written document root around node other → Settled document root around node
  | .literal value => settled_literal value
  | .array h => settled_of_parts rfl rfl h.settled
  | .object h => settled_of_parts rfl rfl h.settled
  | .method hname h => settled_method hname h.settled
  | .members h h' => settled_of_parts rfl rfl (List.forall_mem_cons.2 ⟨h.settled, h'.settled⟩)
  | .reference _ => settled_of_parts rfl rfl (List.forall_mem_singleton.2 (settled_ident _))
  | .lazy hid hfind h => settled_lazy hid hfind h.linked h.settled

theorem WrittenAll.settled {around : List String} {nodes others : List Node} :
    WrittenAll document root around nodes others →
      ∀ node ∈ nodes, Settled document root around node
  | .nil => nofun
  | .cons h hs => List.forall_mem_cons.2 ⟨h.settled, hs.settled⟩

theorem WrittenFields.settled {around : List String} {fields others : List (String × Node)} :
    WrittenFields document root around fields others →
      ∀ node ∈ fields.map Prod.snd, Settled document root around node
  | .nil => nofun
  | .cons h hs => List.forall_mem_cons.2 ⟨h.settled, hs.settled⟩
end

end Written
end Node

/-! ## Sources are written trees -/

namespace Sourcing

variable {document : Document} {root : String} {around : List String}

open Node (Written WrittenAll WrittenFields)

/-- The source comes to be one of the other tree, in which references are in their places. -/
def Writes (document : Document) (root : String) (around : List String) (d : Sourcing Option)
    (e : Sourcing Id) : Prop :=
  ∀ node, d.node root = some node → Written document root around node (Id.run (e.node root))

theorem writtenAll_nodes {ds : List (Sourcing Option)} {es : List (Sourcing Id)}
    (h : List.Forall₂ (Writes document root around) ds es) : ∀ ns, nodes root ds = some ns →
      WrittenAll document root around ns (Id.run (nodes root es)) := by
  induction h with
  | nil =>
      intro ns hns
      obtain rfl := Option.some.inj hns
      exact .nil
  | cons hde _ ih =>
      intro ns hns
      obtain ⟨n, hn, hns⟩ := Option.bind_eq_some_iff.1 hns
      obtain ⟨rest, hrest, hns⟩ := Option.bind_eq_some_iff.1 hns
      obtain rfl := Option.some.inj hns
      exact .cons (hde n hn) (ih rest hrest)

theorem writtenFields_fields {ds : Entries (Sourcing Option)} {es : Entries (Sourcing Id)}
    (h : List.Forall₂ (Keyed (Writes document root around)) ds es) :
    ∀ ns, fields root ds = some ns →
      WrittenFields document root around ns (Id.run (fields root es)) := by
  induction h with
  | nil =>
      intro ns hns
      obtain rfl := Option.some.inj hns
      exact .nil
  | @cons d e _ _ hde _ ih =>
      intro ns hns
      obtain ⟨key, d⟩ := d
      obtain ⟨_, e⟩ := e
      obtain ⟨rfl, hde⟩ := hde
      obtain ⟨n, hn, hns⟩ := Option.bind_eq_some_iff.1 hns
      obtain ⟨rest, hrest, hns⟩ := Option.bind_eq_some_iff.1 hns
      obtain rfl := Option.some.inj hns
      exact .cons (hde n hn) (ih rest hrest)

theorem written_literals : ∀ values : List Literal,
    WrittenAll document root around (values.map .literal) (values.map .literal)
  | [] => .nil
  | value :: rest => .cons (.literal value) (written_literals rest)

theorem written_literalArray (values : NonEmpty Literal) :
    Written document root around (literalArray values) (literalArray values) :=
  .array (written_literals values.toList)

theorem writes_call {name : String} (hname : name ≠ "lazy") {ds : List (Sourcing Option)}
    {es : List (Sourcing Id)} (h : List.Forall₂ (Writes document root around) ds es) :
    Writes document root around (call name ds) (call name es) := by
  intro node hnode
  obtain ⟨ns, hns, hnode⟩ := Option.bind_eq_some_iff.1 hnode
  obtain rfl := Option.some.inj hnode
  exact .method hname (writtenAll_nodes h ns hns)

theorem writes_object {name : String} (hname : name ≠ "lazy") {ds : Entries (Sourcing Option)}
    {es : Entries (Sourcing Id)} (h : List.Forall₂ (Keyed (Writes document root around)) ds es) :
    Writes document root around (object name ds) (object name es) := by
  intro node hnode
  obtain ⟨ns, hns, hnode⟩ := Option.bind_eq_some_iff.1 hnode
  obtain rfl := Option.some.inj hnode
  exact .method hname (.cons (.object (writtenFields_fields h ns hns)) .nil)

/-- What combinators write is written where their parts are. -/
theorem writes_congruence :
    Congruence (Writes document root around) (Writes document root around) where
  literal value := by
    intro node hnode
    obtain rfl := Option.some.inj hnode
    exact .method (by decide) (.cons (.literal value) .nil)
  literals values := by
    intro node hnode
    obtain rfl := Option.some.inj hnode
    exact .method (by decide) (.cons (written_literalArray values) .nil)
  literalsOr values {d e} h := by
    intro node hnode
    obtain ⟨n, hn, hnode⟩ := Option.bind_eq_some_iff.1 hnode
    obtain rfl := Option.some.inj hnode
    exact .method (by decide) (.cons (written_literalArray values) (.cons (h n hn) .nil))
  primitive kind := by
    intro node hnode
    obtain rfl := Option.some.inj hnode
    exact .method (by cases kind <;> decide) .nil
  object kind {_ _} _ h := by
    cases kind with
    | required => exact writes_object (by decide) h
    | optional => exact writes_object (by decide) h
  record {_ _} h := writes_call (by decide) (.cons h .nil)
  array {_ _} h := writes_call (by decide) (.cons h .nil)
  tuple {_ _} h := writes_call (by decide) h
  intersection {_ _ _ _} h h' := writes_call (by decide) (.cons h (.cons h' .nil))
  sum tag {ds es} _ h := by
    intro node hnode
    obtain ⟨ns, hns, hnode⟩ := Option.bind_eq_some_iff.1 hnode
    obtain rfl := Option.some.inj hnode
    exact .members (.method (by decide) (.cons (.literal (.string tag)) .nil))
      (.cons (.object (writtenFields_fields h ns hns)) .nil)
  union {_ _ _ _} h hs := writes_call (by decide) (.cons h hs)
  readonly {_ _} h := writes_call (by decide) (.cons h .nil)

end Sourcing

/-! ## Documents -/

namespace Document

variable {document : Document}

/-- **The source of a name is written**: it is the source of a reference to the name. -/
theorem writes_expansion (root : String) : ∀ (depth : Nat) (around : List String) (name : String),
    Sourcing.Writes document root around (document.expansion depth around name)
      ⟨fun _ => Node.reference name⟩
  | 0, _, _ => fun _ h => nomatch h
  | depth + 1, around, name => by
      intro node hnode
      by_cases haround : name ∈ around
      · rw [expansion_mem haround] at hnode
        obtain rfl := Option.some.inj hnode
        exact .reference haround
      · cases hfind : document.find? name with
        | none => simp [expansion, haround, hfind] at hnode
        | some definition =>
            rw [expansion_succ haround hfind] at hnode
            obtain ⟨body, hbody, rfl⟩ := Option.map_eq_some_iff.1 hnode
            have hwrites := definition.fold_rel Sourcing.writes_congruence fun next _ =>
              writes_expansion root depth (name :: around) next
            exact .lazy haround hfind (hwrites body hbody)

/-- **No name is captured.**  The source of a document on any root identifier comes to an end,
as the source of a reference to its root.  At every place in it the functions around have
distinct names and distinct identifiers, other than the root, and are no more than the
definitions; a bare call means, by the identifiers around it, the very definition to which the
document refers in its place, and methods are called on the root. -/
theorem source_uncaptured (document : Document) (root : String) :
    ∃ node, document.source root = .ok node ∧
      node.linked? root [] = some (Node.reference document.root) ∧
      ∀ place, (Node.Place.top node).Leads place → place.Uncaptured document root := by
  obtain ⟨node, hnode, hcheck⟩ := document.expansion_valid root document.sourceDepth []
    document.root document.root_mem (.root document)
  have hwritten : node.Written document root [] (Node.reference document.root) :=
    writes_expansion root document.sourceDepth [] document.root node hnode
  refine ⟨node, source_eq hnode, hwritten.linked, fun place hleads => ?_⟩
  have hfits := (Node.checkIn_iff.1 (Node.checkIn_of_leads hleads hcheck)).1
  obtain ⟨around, hinside, hdefines⟩ := hwritten.settled (.top node) rfl
    ⟨rfl, rfl, List.nodup_nil, List.nil_subset _⟩ place hleads
  have hnames : (root :: place.scope).Nodup := by
    rw [hinside.scope]
    refine List.nodup_cons.2 ⟨?_, hinside.nodup.map fun _ _ => Node.definitionName_injective⟩
    intro hroot
    obtain ⟨id, _, hid⟩ := List.mem_map.1 hroot
    exact Node.definitionName_ne_root id root hid
  exact {
    functions := by
      rw [hinside.scope, hinside.bindings, functionsOf, List.map_map]
      rfl
    names := hnames
    identifiers := hnames.map fun _ _ => Node.identifier_injective
    nesting := by
      have hle := (hinside.nodup.subperm hinside.defined).length_le
      simpa [hinside.scope, Entries.keys] using hle
    target := hfits.target
    reference := by
      intro name args hcall
      obtain ⟨hargs, hscope⟩ := hfits.reference name args hcall
      rw [hinside.scope] at hscope
      obtain ⟨id, hid, rfl⟩ := List.mem_map.1 hscope
      rw [hinside.bindings]
      exact ⟨hargs, id, rfl, Node.meant?_functionsOf hid⟩
    body := by
      intro id name body hlazy
      obtain ⟨rfl, hdefinition⟩ := hdefines id name body hlazy
      rw [hinside.bindings]
      exact ⟨rfl, hdefinition⟩ }

end Document

end Schemata
