import Schemata.CommandLine
import Schemata.Node.Check
import Schemata.Proofs.Lazy.Writing
import Schemata.Proofs.Transparency

/-!
# Generated source is valid

The source of a document passes the check of generated source.  Every combinator is
written as a call that the catalog knows, with arguments of the right number and form.
A reference is a bare call only inside of the function of its definition, which no other
function hides and which is not the root.  It comes to an end, since a name around a
reference is not written out again, so fewer names are left than before.

**Results.**

* `Sourcing.valid_congruence`: sources are valid when those of their parts are.
* `Document.expansion_valid`: the plain source of a name comes to an end and is valid.
* `Document.source_valid`: so is the source of every document, on every root, and the
  command that checks a document has nothing to find.
-/

namespace Schemata

/-! ## The check of calls -/

namespace Node

variable {root name : String} {scope : List String} {args : List Node}

theorem checkIn_method (hargs : methodFault? root name args = none)
    (hparts : checkAll root scope args = .ok ()) :
    checkIn root scope (.method root name args) = .ok () := by
  have hrole : role root (.member (.ident root) name) = .method name := by
    simp [role]
  rw [method, checkIn, hrole]
  simp only [hargs, require]
  exact hparts

theorem checkIn_members {tag : String} {fields : List (String × Node)}
    (hparts : checkFields root scope fields = .ok ()) :
    checkIn root scope (.call (.method root "sum" [.literal (.string tag)]) [.object fields]) =
      .ok () := by
  have hrole : role root (.method root "sum" [.literal (.string tag)]) = .members := by
    simp [role, method, methodName?]
  have hcallee : checkIn root scope (.method root "sum" [.literal (.string tag)]) = .ok () :=
    checkIn_method rfl rfl
  rw [checkIn, hrole]
  simp only [hcallee, membersFault?, fields?, Option.isSome_some, if_true, require]
  rw [checkAll, checkIn, hparts]
  rfl

theorem checkIn_reference (hname : name ∈ scope) :
    checkIn root scope (.call (.ident name) []) = .ok () := by
  rw [checkIn]
  simp [role, referenceFault?, hname, require]

theorem checkAll_literals : ∀ values : List Literal,
    checkAll root scope (values.map .literal) = .ok ()
  | [] => rfl
  | value :: rest => by
      rw [List.map_cons, checkAll, checkIn, checkAll_literals rest]
      rfl

theorem checkIn_literalArray (values : NonEmpty Literal) :
    checkIn root scope (Sourcing.literalArray values) = .ok () := by
  rw [Sourcing.literalArray, checkIn, checkAll_literals]

theorem literalsFault?_literalArray (values : NonEmpty Literal) :
    argumentFault?.literalsFault? name (Sourcing.literalArray values) = none := by
  simp [argumentFault?.literalsFault?, Sourcing.literalArray, items?, literal?, NonEmpty.toList]

/-- A lazy schema passes the check where its body does inside of its function. -/
theorem checkIn_lazy {id : String} {body : Node}
    (hbody : checkIn root (definitionName id root :: scope) body = .ok ()) :
    checkIn root scope (.method root "lazy"
      [.literal (.string id), .function (definitionName id root) body]) = .ok () := by
  have hroot := definitionName_ne_root id root
  refine checkIn_method ?_ ?_
  · simp [methodFault?, Combinator.find?, Combinator.catalog, Arity.accepts, argumentFault?,
      text?, function?, hroot]
  · rw [checkAll, checkIn, checkAll, checkIn, functionFault?, if_neg hroot]
    simp only [require]
    rw [hbody]
    rfl

end Node

/-! ## Valid sources -/

namespace Sourcing

/-- A source that comes to an end with a tree that passes the check inside the functions
of a scope. -/
def Valid (root : String) (scope : List String) (d : Sourcing Option) : Prop :=
  ∃ node, d.node root = some node ∧ node.checkIn root scope = .ok ()

variable {root : String} {scope : List String}

theorem valid_nodes : ∀ {ds : List (Sourcing Option)}, (∀ d ∈ ds, Valid root scope d) →
    ∃ ns, nodes root ds = some ns ∧ ns.length = ds.length ∧ Node.checkAll root scope ns = .ok ()
  | [], _ => ⟨[], rfl, rfl, rfl⟩
  | d :: ds, h => by
      obtain ⟨n, hn, hcheck⟩ := h d List.mem_cons_self
      obtain ⟨ns, hns, hlength, hchecks⟩ :=
        valid_nodes fun d hd => h d (List.mem_cons_of_mem _ hd)
      refine ⟨n :: ns, by simp [nodes, hn, hns], by simp [hlength], ?_⟩
      rw [Node.checkAll, hcheck]
      exact hchecks

theorem valid_fields : ∀ {ds : Entries (Sourcing Option)}, (∀ d ∈ ds, Valid root scope d.2) →
    ∃ ns, fields root ds = some ns ∧ Node.checkFields root scope ns = .ok ()
  | [], _ => ⟨[], rfl, rfl⟩
  | (key, d) :: ds, h => by
      obtain ⟨n, hn, hcheck⟩ : Valid root scope d := h (key, d) List.mem_cons_self
      obtain ⟨ns, hns, hchecks⟩ := valid_fields fun d hd => h d (List.mem_cons_of_mem _ hd)
      refine ⟨(key, n) :: ns, by simp [fields, hn, hns], ?_⟩
      rw [Node.checkFields, hcheck]
      exact hchecks

/-- A call of schemas is valid when they are and their number is right. -/
theorem valid_call {name : String} {ds : List (Sourcing Option)}
    (hargs : ∀ ns : List Node, ns.length = ds.length → Node.methodFault? root name ns = none)
    (h : ∀ d ∈ ds, Valid root scope d) : Valid root scope (call name ds) := by
  obtain ⟨ns, hns, hlength, hcheck⟩ := valid_nodes h
  exact ⟨.method root name ns, by simp [call, hns], Node.checkIn_method (hargs ns hlength) hcheck⟩

theorem valid_call_one {name : String} {d : Sourcing Option}
    (hargs : ∀ n : Node, Node.methodFault? root name [n] = none) (h : Valid root scope d) :
    Valid root scope (call name [d]) := by
  refine valid_call (fun ns hns => ?_) (List.forall_mem_singleton.2 h)
  obtain ⟨n, rfl⟩ := List.length_eq_one_iff.1 hns
  exact hargs n

/-- An object of schemas is valid when they are. -/
theorem valid_object {name : String} {ds : Entries (Sourcing Option)}
    (hargs : ∀ ns, Node.methodFault? root name [.object ns] = none)
    (h : ∀ d ∈ ds, Valid root scope d.2) : Valid root scope (object name ds) := by
  obtain ⟨ns, hns, hcheck⟩ := valid_fields h
  refine ⟨.method root name [.object ns], by simp [object, hns],
    Node.checkIn_method (hargs ns) ?_⟩
  rw [Node.checkAll, Node.checkIn, hcheck]
  rfl

/-- Sources are valid when those of their parts are. -/
theorem valid_congruence :
    Congruence (fun d (_ : Sourcing Option) => Valid root scope d)
      (fun d _ => Valid root scope d) where
  literal value := ⟨_, rfl, Node.checkIn_method rfl rfl⟩
  literals values := by
    refine ⟨_, rfl, Node.checkIn_method (Node.literalsFault?_literalArray values) ?_⟩
    rw [Node.checkAll, Node.checkIn_literalArray]
    rfl
  literalsOr values {d _} h := by
    obtain ⟨node, hnode, hcheck⟩ := h
    refine ⟨.method root "literalsOr" [literalArray values, node], ?_,
      Node.checkIn_method (Node.literalsFault?_literalArray values) ?_⟩
    · show (d.node root >>= fun fallback => _) = _
      rw [hnode]
      rfl
    · rw [Node.checkAll, Node.checkIn_literalArray, Node.checkAll, hcheck]
      rfl
  primitive kind := by
    refine ⟨_, rfl, Node.checkIn_method ?_ rfl⟩
    cases kind <;> rfl
  object kind {ds _} _ h := by
    have h : ∀ d ∈ ds, Valid root scope d.2 := forall_of_forall₂ (h.imp fun _ _ hd => hd.2)
    cases kind with
    | required => exact valid_object (fun _ => rfl) h
    | optional => exact valid_object (fun _ => rfl) h
  record {_ _} h := valid_call_one (fun _ => rfl) h
  array {_ _} h := valid_call_one (fun _ => rfl) h
  tuple {_ _} h := by
    refine valid_call (fun ns _ => ?_) (forall_of_forall₂ h)
    simp [Node.methodFault?, Combinator.find?, Combinator.catalog, Arity.accepts,
      Node.argumentFault?]
  intersection {d d' _ _} h h' := by
    refine valid_call (fun ns hns => ?_)
      (List.forall_mem_cons.2 ⟨h, List.forall_mem_singleton.2 h'⟩)
    obtain ⟨n, n', rfl⟩ := List.length_eq_two.1 hns
    rfl
  sum tag {ds _} _ h := by
    have h : ∀ d ∈ ds, Valid root scope d.2 := forall_of_forall₂ (h.imp fun _ _ hd => hd.2)
    obtain ⟨ns, hns, hcheck⟩ := valid_fields h
    refine ⟨.call (.method root "sum" [.literal (.string tag)]) [.object ns], ?_,
      Node.checkIn_members hcheck⟩
    show (fields root ds >>= fun ns => _) = _
    rw [hns]
    rfl
  union {_ _ _ _} h hs := by
    refine valid_call (fun ns hns => ?_)
      (List.forall_mem_cons.2 ⟨h, forall_of_forall₂ hs⟩)
    obtain ⟨n, ns, rfl⟩ := List.exists_cons_of_length_eq_add_one hns
    simp [Node.methodFault?, Combinator.find?, Combinator.catalog, Arity.accepts,
      Node.argumentFault?]
  readonly {_ _} h := valid_call_one (fun _ => rfl) h

end Sourcing

/-! ## Documents -/

namespace Document

variable {document : Document}

/-- Distinct names that are defined, and a level for each name that is not among them. -/
structure Around (document : Document) (depth : Nat) (around : List String) : Prop where
  nodup : around.Nodup
  defined : around ⊆ document.definitions.keys
  room : document.definitions.length < depth + around.length

namespace Around

theorem root (document : Document) : document.Around document.sourceDepth [] where
  nodup := List.nodup_nil
  defined := List.nil_subset _
  room := by
    simp only [sourceDepth, List.length_nil]
    omega

theorem depth_ne_zero {around : List String} (h : document.Around 0 around) : False := by
  have hle := (h.nodup.subperm h.defined).length_le
  have hroom := h.room
  simp only [Entries.keys, List.length_map] at hle
  omega

/-- A name that is not yet around takes one level. -/
theorem cons {depth : Nat} {around : List String} (h : document.Around (depth + 1) around)
    {name : String} (hname : name ∈ document.definitions.keys) (haround : name ∉ around) :
    document.Around depth (name :: around) where
  nodup := List.nodup_cons.2 ⟨haround, h.nodup⟩
  defined := List.cons_subset.2 ⟨hname, h.defined⟩
  room := by
    have hroom := h.room
    simp only [List.length_cons]
    omega

end Around

/-- **The plain source of a name comes to an end and is valid** inside the functions of
the names around it. -/
theorem expansion_valid (root : String) : ∀ (depth : Nat) (around : List String) (name : String),
    name ∈ document.definitions.keys → document.Around depth around →
    Sourcing.Valid root (around.map (Node.definitionName · root))
      (document.expansion depth around name)
  | 0, _, _, _, haround => haround.depth_ne_zero.elim
  | depth + 1, around, name, hname, haround => by
      by_cases hmem : name ∈ around
      · refine ⟨_, expansion_mem hmem depth root, Node.checkIn_reference ?_⟩
        exact List.mem_map.2 ⟨name, hmem, rfl⟩
      · obtain ⟨definition, hfind⟩ := document.exists_find? hname
        have hbody : Sourcing.Valid root ((name :: around).map (Node.definitionName · root))
            (definition.fold (document.expansion depth (name :: around))) := by
          refine definition.fold_rel Sourcing.valid_congruence
            (g := document.expansion depth (name :: around)) fun next hnext => ?_
          exact expansion_valid root depth (name :: around) next
            (mem_keys_of_reference hfind hnext) (haround.cons hname hmem)
        obtain ⟨body, hnode, hcheck⟩ := hbody
        refine ⟨_, ?_, Node.checkIn_lazy hcheck⟩
        rw [expansion_succ hmem hfind, hnode]
        rfl

/-- The source of a document is the plain source of its root. -/
theorem source_eq {root : String} {node : Node}
    (h : (document.expansion document.sourceDepth [] document.root).node root = some node) :
    document.source root = .ok node := by
  have hserves : (document.interpret (A := Blueprint)).Serves document document.definitions :=
    Interpretation.serves_fresh
  have hnone : ∀ j, ¬ (document.interpret (A := Blueprint)).store.IsWriting j := by
    rintro j ⟨c, hc, hwriting⟩
    have hmem := Array.mem_of_getElem? hc
    obtain rfl := Array.mem_singleton.1 hmem
    cases hwriting
  obtain ⟨s, hrun⟩ := Lazy.write_runs (k := 0) (c := ⟨document.root, .definition, [], none, false⟩)
    hserves.sound rfl rfl hnone h
  have hsource : (document.interpret (A := Blueprint)).source document root =
      .ok (node, ⟨Artifact.owner 0, s⟩) := Interpretation.after_eq hrun
  rw [Document.source, hsource]
  rfl

/-- **Generated source is valid.**  The source of a document, on any root identifier, comes
to an end and passes the check; so the command that checks a document finds nothing in
one that loads. -/
theorem source_valid :
    (∀ (document : Document) (root : String),
      ∃ node, document.source root = .ok node ∧ node.check root = .ok ()) ∧
    ∀ (path : String) (content input : Content),
      CommandLine.Command.answer (.check path) content input =
        match Document.ofFile path content with
        | .ok _ => .printed (path ++ ": ok")
        | .error error => .failed error.message := by
  have hvalid : ∀ (document : Document) (root : String),
      ∃ node, document.source root = .ok node ∧ node.check root = .ok () := by
    intro document root
    obtain ⟨node, hnode, hcheck⟩ := document.expansion_valid root document.sourceDepth []
      document.root document.root_mem (.root document)
    exact ⟨node, source_eq hnode, hcheck⟩
  refine ⟨hvalid, fun path content input => ?_⟩
  simp only [CommandLine.Command.answer, CommandLine.documentOf]
  cases Document.ofFile path content with
  | error error => rfl
  | ok document =>
      obtain ⟨node, hnode, hcheck⟩ := hvalid document Node.defaultRoot
      have hsource : CommandLine.sourceOf document Node.defaultRoot = .ok node := by
        simp only [CommandLine.sourceOf, hnode]
        rfl
      simp only [Except.mapError, bind, Except.bind, hsource, hcheck]
      rfl

end Document

end Schemata
