import Schemata.Proofs.Agreement
import Schemata.Proofs.Validity

/-!
# Reading generated source back

Generated source is read as the calls that it makes: a method of the root is the
combinator of that name on its arguments, a function binds its name to the handle of the
lazy schema that it defines, and a bare call is the innermost function of that name.

What is read back from the source of a document is its root again, with other leaves: a
bare call for a name around, a lazy schema for every other name.  Functions of distinct
names have distinct names, so a bare call finds the function that it stands for.

**Results.**

* `Document.read_expansion`: the source of a name is read back as `Document.rebuilt`.
* `Document.rebuilt_denotes`: that schema stands for the name.
* `Document.read_back`: it decodes, encodes and accepts as the document does.
-/

namespace Schemata

open Json (Value)
open Lazy (Denotes Runs Store)

/-! ## The reader -/

namespace Node

/-- What an argument of a call is read as. -/
inductive Piece (A : Type) where
  | schema (x : Schema A)
  | literal (value : Literal)
  | literals (values : NonEmpty Literal)
  | fields (fields : List (String × Schema A))
  | function (name : String) (body : Schema A)

variable {A : Type}

/-- The schema that a piece is. -/
def Piece.schema? : Piece A → Option (Schema A)
  | .schema x => some x
  | _ => none

/-- The schema of the primitive whose combinator has a name. -/
def primitive? (name : String) : Option (Schema A) :=
  ([.string, .number, .boolean, .array, .object].find? (·.combinator == name)).map .primitive

/-- The schema that a method of the root makes of its arguments. -/
def method? (name : String) (args : List (Piece A)) : Option (Schema A) :=
  match name, args with
  | "literal", [.literal value] => some (.literal value)
  | "literals", [.literals values] => some (.literals values)
  | "literalsOr", [.literals values, .schema fallback] => some (.literalsOr values fallback)
  | "type", [.fields fields] => some (.object .required fields)
  | "partial", [.fields fields] => some (.object .optional fields)
  | "record", [.schema codomain] => some (.record codomain)
  | "array", [.schema item] => some (.array item)
  | "readonly", [.schema inner] => some (.readonly inner)
  | "intersection", [.schema left, .schema right] => some (.intersection left right)
  | "lazy", [.literal (.string id), .function binder body] => some (.lazy id binder body none)
  | "tuple", args => (args.mapM Piece.schema?).map .tuple
  | "union", args => do
      let members ← NonEmpty.ofList? (← args.mapM Piece.schema?)
      some (.union members)
  | name, [] => primitive? name
  | _, _ => none

/-- What a call is read as, by what is called. -/
def call? (root : String) (callee : Node) (args : List (Piece A)) : Option (Schema A) :=
  match callee, args with
  | .member (.ident name) method, args => if name = root then method? method args else none
  | .call (.member (.ident name) "sum") [.literal (.string tag)], [.fields members] =>
      if name = root then some (.sum tag members) else none
  | .ident name, [] => some (.self name)
  | _, _ => none

mutual
/-- What a tree is read as. -/
def piece? (root : String) : Node → Option (Piece A)
  | .literal value => some (.literal value)
  | .array items => do
      let values ← NonEmpty.ofList? (← items.mapM literal?)
      some (.literals values)
  | .object fields => do some (.fields (← fieldPieces? root fields))
  | .function name body => do
      let body ← (← piece? root body).schema?
      some (.function name body)
  | .call callee args => do some (.schema (← call? root callee (← pieces? root args)))
  | .ident _ => none
  | .member _ _ => none

/-- What several trees are read as. -/
def pieces? (root : String) : List Node → Option (List (Piece A))
  | [] => some []
  | node :: rest => do
      let piece ← piece? root node
      let pieces ← pieces? root rest
      some (piece :: pieces)

/-- What fields are read as. -/
def fieldPieces? (root : String) : List (String × Node) → Option (List (String × Schema A))
  | [] => some []
  | (key, node) :: rest => do
      let schema ← (← piece? root node).schema?
      let schemas ← fieldPieces? root rest
      some ((key, schema) :: schemas)
end

/-- The schema that generated source is read as. -/
def read? (root : String) (node : Node) : Option (Schema A) := do (← piece? root node).schema?

end Node

/-! ## Reading what combinators write -/

namespace Sourcing

variable {A : Type}

/-- The source comes to be read as a schema. -/
def Reads (root : String) (d : Sourcing Option) (x : Schema A) : Prop :=
  ∀ node, d.node root = some node → node.piece? root = some (.schema x)

variable {root : String}

theorem pieces?_of_reads {ds : List (Sourcing Option)} {xs : List (Schema A)}
    (h : List.Forall₂ (Reads root) ds xs) : ∀ ns, nodes root ds = some ns →
      Node.pieces? root ns = some (xs.map .schema) := by
  induction h with
  | nil =>
      intro ns hns
      obtain rfl := Option.some.inj hns
      rw [Node.pieces?, List.map_nil]
  | cons hdx _ ih =>
      intro ns hns
      obtain ⟨n, hn, hns⟩ := Option.bind_eq_some_iff.1 hns
      obtain ⟨rest, hrest, hns⟩ := Option.bind_eq_some_iff.1 hns
      obtain rfl := Option.some.inj hns
      simp [Node.pieces?, hdx n hn, ih rest hrest]

theorem fieldPieces?_of_reads {ds : Entries (Sourcing Option)} {xs : Entries (Schema A)}
    (h : List.Forall₂ (Keyed (Reads root)) ds xs) : ∀ ns, fields root ds = some ns →
      Node.fieldPieces? root ns = some xs := by
  induction h with
  | nil =>
      intro ns hns
      obtain rfl := Option.some.inj hns
      rw [Node.fieldPieces?]
  | @cons d x _ _ hdx _ ih =>
      intro ns hns
      obtain ⟨key, d⟩ := d
      obtain ⟨_, x⟩ := x
      obtain ⟨rfl, hdx⟩ := hdx
      obtain ⟨n, hn, hns⟩ := Option.bind_eq_some_iff.1 hns
      obtain ⟨rest, hrest, hns⟩ := Option.bind_eq_some_iff.1 hns
      obtain rfl := Option.some.inj hns
      simp [Node.fieldPieces?, hdx n hn, ih rest hrest, Node.Piece.schema?]

theorem literals_of_map : ∀ values : List Literal,
    (values.map Node.literal).mapM Node.literal? = some values := by
  intro values
  induction values with
  | nil => rfl
  | cons value rest ih => simp [Node.literal?, ih]

theorem piece?_literalArray (values : NonEmpty Literal) :
    (literalArray values).piece? root = some (.literals values : Node.Piece A) := by
  rw [literalArray, Node.piece?, literals_of_map]
  rfl

/-- A method of the root is read as what its name makes of the pieces. -/
theorem piece?_method {name : String} {args : List Node} {pieces : List (Node.Piece A)}
    {x : Schema A} (hargs : Node.pieces? root args = some pieces)
    (hmethod : Node.method? name pieces = some x) :
    (Node.method root name args).piece? root = some (.schema x) := by
  simp [Node.method, Node.piece?, hargs, Node.call?, hmethod]

/-- A lazy schema is read as one whose body binds the name of the function. -/
theorem piece?_lazy {id binder : String} {body : Node} {x : Schema A}
    (hbody : body.piece? root = some (.schema x)) :
    (Node.method root "lazy" [.literal (.string id), .function binder body]).piece? root =
      some (.schema (.lazy id binder x none)) := by
  have hpieces : Node.pieces? root [.literal (.string id), .function binder body] =
      some [.literal (.string id), .function binder x] := by
    simp [Node.pieces?, Node.piece?, hbody, Node.Piece.schema?]
  exact piece?_method hpieces rfl

theorem schemas_of_map (xs : List (Schema A)) :
    (xs.map Node.Piece.schema).mapM Node.Piece.schema? = some xs := by
  induction xs with
  | nil => rfl
  | cons x rest ih => simp [Node.Piece.schema?, ih]

/-- A call of schemas is read as what its name makes of them. -/
theorem reads_call {name : String} {ds : List (Sourcing Option)} {xs : List (Schema A)}
    {x : Schema A} (hmethod : Node.method? name (xs.map .schema) = some x)
    (h : List.Forall₂ (Reads root) ds xs) : Reads root (call name ds) x := by
  intro node hnode
  obtain ⟨ns, hns, hnode⟩ := Option.bind_eq_some_iff.1 hnode
  obtain rfl := Option.some.inj hnode
  exact piece?_method (pieces?_of_reads h ns hns) hmethod

theorem reads_object {name : String} {ds : Entries (Sourcing Option)} {xs : Entries (Schema A)}
    {x : Schema A} (hmethod : Node.method? name [.fields xs] = some x)
    (h : List.Forall₂ (Keyed (Reads root)) ds xs) : Reads root (object name ds) x := by
  intro node hnode
  obtain ⟨ns, hns, hnode⟩ := Option.bind_eq_some_iff.1 hnode
  obtain rfl := Option.some.inj hnode
  refine piece?_method ?_ hmethod
  simp [Node.pieces?, Node.piece?, fieldPieces?_of_reads h ns hns]

/-- What combinators write is read as the combinators again. -/
theorem reads_congruence : Congruence (Reads (A := A) root) (Reads root) where
  literal value := by
    intro node hnode
    obtain rfl := Option.some.inj hnode
    exact piece?_method rfl rfl
  literals values := by
    intro node hnode
    obtain rfl := Option.some.inj hnode
    have hpieces : Node.pieces? root [literalArray values] =
        some [(.literals values : Node.Piece A)] := by
      simp [Node.pieces?, piece?_literalArray]
    exact piece?_method hpieces rfl
  literalsOr values {d x} h := by
    intro node hnode
    obtain ⟨n, hn, hnode⟩ := Option.bind_eq_some_iff.1 hnode
    obtain rfl := Option.some.inj hnode
    have hpieces : Node.pieces? root [literalArray values, n] =
        some [.literals values, .schema x] := by
      simp [Node.pieces?, piece?_literalArray, h n hn]
    exact piece?_method hpieces rfl
  primitive kind := by
    intro node hnode
    obtain rfl := Option.some.inj hnode
    cases kind <;> exact piece?_method rfl rfl
  object kind {_ _} _ h := by
    cases kind with
    | required => exact reads_object rfl h
    | optional => exact reads_object rfl h
  record {_ _} h := reads_call rfl (.cons h .nil)
  array {_ _} h := reads_call rfl (.cons h .nil)
  tuple {_ xs} h := by
    refine reads_call ?_ h
    have hmethod : ∀ pieces : List (Node.Piece A), Node.method? "tuple" pieces =
        (pieces.mapM Node.Piece.schema?).map .tuple := by
      intro pieces
      simp [Node.method?]
    rw [hmethod, schemas_of_map]
    rfl
  intersection {_ _ _ _} h h' := reads_call rfl (.cons h (.cons h' .nil))
  sum tag {ds xs} _ h := by
    intro node hnode
    obtain ⟨ns, hns, hnode⟩ := Option.bind_eq_some_iff.1 hnode
    obtain rfl := Option.some.inj hnode
    simp [Node.piece?, Node.pieces?, fieldPieces?_of_reads h ns hns, Node.call?, Node.method]
    rfl
  union {_ x _ xs} h hs := by
    refine reads_call ?_ (.cons h hs)
    have hmethod : ∀ pieces : List (Node.Piece A), Node.method? "union" pieces = (do
        let members ← NonEmpty.ofList? (← pieces.mapM Node.Piece.schema?)
        some (.union members)) := by
      intro pieces
      simp [Node.method?]
    rw [hmethod, schemas_of_map]
    rfl
  readonly {_ _} h := reads_call rfl (.cons h .nil)

end Sourcing

/-! ## Reading documents back -/

namespace Document

variable {document : Document} {A : Type}

/-- The schema that the source of a name is read back as. -/
def rebuilt (document : Document) (root : String) : Nat → List String → String → Schema A
  | 0, _, name => .ref name
  | depth + 1, around, name =>
      if name ∈ around then .self (Node.definitionName name root)
      else
        match document.find? name with
        | some definition =>
            .lazy name (Node.definitionName name root)
              (definition.fold (rebuilt document root depth (name :: around))) none
        | none => .ref name

theorem rebuilt_succ {root : String} {around : List String} {name : String}
    (h : name ∉ around) {definition : Definition} (hfind : document.find? name = some definition)
    (depth : Nat) :
    (document.rebuilt root (depth + 1) around name : Schema A) =
      .lazy name (Node.definitionName name root)
        (definition.fold (document.rebuilt root depth (name :: around))) none := by
  simp only [rebuilt, if_neg h, hfind]

/-- **The source of a name is read back as the schema that is rebuilt from it.** -/
theorem read_expansion (root : String) : ∀ (depth : Nat) (around : List String) (name : String),
    Sourcing.Reads (A := A) root (document.expansion depth around name)
      (document.rebuilt root depth around name)
  | 0, _, _ => fun _ h => nomatch h
  | depth + 1, around, name => by
      intro node hnode
      by_cases haround : name ∈ around
      · rw [expansion_mem haround] at hnode
        obtain rfl := Option.some.inj hnode
        simp [Node.piece?, Node.pieces?, Node.call?, rebuilt, haround]
      · cases hfind : document.find? name with
        | none => simp [expansion, haround, hfind] at hnode
        | some definition =>
            rw [expansion_succ haround hfind] at hnode
            obtain ⟨body, hbody, rfl⟩ := Option.map_eq_some_iff.1 hnode
            have hread : Sourcing.Reads (A := A) root
                (definition.fold (document.expansion depth (name :: around)))
                (definition.fold (document.rebuilt root depth (name :: around))) :=
              definition.fold_rel Sourcing.reads_congruence fun next _ =>
                read_expansion root depth (name :: around) next
            rw [rebuilt_succ haround hfind]
            exact Sourcing.piece?_lazy (hread body hbody)

/-- The functions of the names around, with these names. -/
def functionsOf (root : String) (around : List String) : List (String × String) :=
  around.map fun name => (Node.definitionName name root, name)

/-- A name around is found by its function. -/
theorem lookup_functionsOf (root : String) {name : String} : ∀ {around : List String},
    name ∈ around → (functionsOf root around).lookup (Node.definitionName name root) = some name
  | other :: rest, h => by
      rw [functionsOf, List.map_cons, List.lookup_cons]
      by_cases hname : name = other
      · subst hname
        rw [beq_self_eq_true]
      · have hne : Node.definitionName name root ≠ Node.definitionName other root :=
          fun heq => hname (Node.definitionName_injective heq)
        rw [beq_eq_false_iff_ne.2 hne]
        rcases List.mem_cons.1 h with heq | h
        · exact absurd heq hname
        · exact lookup_functionsOf root h

/-- **What is read back stands for the name.** -/
theorem rebuilt_denotes (root : String) (definitions : Entries Definition) :
    ∀ (depth : Nat) (around : List String) (name : String),
      name ∈ document.definitions.keys → document.Around depth around →
      Denotes document definitions (functionsOf root around)
        (document.rebuilt root depth around name : Schema A) name
  | 0, _, _, _, haround => haround.depth_ne_zero.elim
  | depth + 1, around, name, hname, haround => by
      by_cases hmem : name ∈ around
      · simp only [rebuilt, if_pos hmem]
        exact .self (lookup_functionsOf root hmem)
      · obtain ⟨definition, hfind⟩ := document.exists_find? hname
        rw [rebuilt_succ hmem hfind]
        refine .lazy hfind ?_ fun next hnext => ?_
        · intro bound hbound
          obtain ⟨other, hother, rfl⟩ := List.mem_map.1 hbound
          rintro rfl
          exact hmem hother
        · exact rebuilt_denotes root definitions depth (name :: around) next
            (mem_keys_of_reference hfind hnext) (haround.cons hname hmem)

/-- A schema that stands for the root, built, serves the document. -/
theorem serves_of_denotes [Artifact A] {definitions : Entries Definition} {x : Schema A}
    (h : Denotes document definitions [] x document.root) :
    ∃ built : Interpretation A,
      Runs (Lazy.build [] x) {} built.artifact built.store ∧ built.Serves document definitions := by
  have hserves : ∀ body : Lazy.Body A, Lazy.build [] x = Lazy.allocate document.root body [] →
      Lazy.Cell.Faithful document definitions ⟨document.root, body, [], none, false⟩ [] →
      ∃ built : Interpretation A, Runs (Lazy.build [] x) {} built.artifact built.store ∧
        built.Serves document definitions := by
    intro body hbuild hfaithful
    refine ⟨_, ?_, Interpretation.serves_of_cell hfaithful⟩
    rw [hbuild]
    exact .allocate _ _ _ _
  cases h with
  | ref hdefinitions hname _ =>
      subst hdefinitions
      exact hserves _ rfl (Lazy.faithful_definition hname (by simp))
  | self hlookup => simp at hlookup
  | lazy hfind _ hleaf => exact hserves _ rfl ⟨rfl, _, _, hfind, rfl, hleaf⟩

/-- **Generated source rebuilds the schema.**  What is read back from the source of a
guarded document, on any root identifier, and built anew decodes, encodes and accepts
every value as the document does. -/
theorem read_back (hguarded : document.Guarded) (root : String) :
    ∃ (node : Node) (schema : Schema Blueprint) (built : Interpretation Blueprint),
      document.source root = .ok node ∧ node.read? root = some schema ∧
      (Lazy.build [] schema).run {} = .ok (built.artifact, built.store) ∧
      ∀ value, ∃ outcome encoded accepted,
        document.decode value = .ok outcome ∧ document.encode value = .ok encoded ∧
        document.accepts value = .ok accepted ∧
        ∀ depth, document.callDepth value ≤ depth → ∃ i₁ i₂ i₃,
          built.after (Lazy.decode [] depth built.artifact value) = .ok (outcome, i₁) ∧
          built.after (Lazy.encode [] depth built.artifact value) = .ok (encoded, i₂) ∧
          built.after (Lazy.accepts [] depth built.artifact value) = .ok (accepted, i₃) := by
  obtain ⟨node, hnode, _⟩ := document.expansion_valid root document.sourceDepth []
    document.root document.root_mem (.root document)
  have hread := read_expansion (A := Blueprint) root document.sourceDepth [] document.root node
    hnode
  have hdenotes := rebuilt_denotes (A := Blueprint) root [] document.sourceDepth [] document.root
    document.root_mem (.root document)
  obtain ⟨built, hbuild, hserves⟩ := serves_of_denotes hdenotes
  refine ⟨node, _, built, source_eq hnode, by rw [Node.read?, hread]; rfl, hbuild, fun value => ?_⟩
  obtain ⟨outcome, houtcome⟩ := exists_outcome hguarded value
  obtain ⟨encoded, accepted, hencoded⟩ := exists_encoded hguarded value
  have henough := hencoded _ (Nat.le_refl _)
  refine ⟨outcome, encoded, accepted, decode_eq (houtcome _ (Nat.le_refl _)),
    encode_eq henough.1, accepts_eq henough.2, fun depth hdepth => ?_⟩
  obtain ⟨s₁, hdecode, _⟩ := hserves.decode_runs (houtcome depth hdepth)
  obtain ⟨s₂, hencode, _⟩ := hserves.encode_runs (hencoded depth hdepth).1
  obtain ⟨s₃, haccept, _⟩ := hserves.accepts_runs (hencoded depth hdepth).2
  exact ⟨_, _, _, Interpretation.after_eq hdecode, Interpretation.after_eq hencode,
    Interpretation.after_eq haccept⟩

/-- Read back from source on a root of the same name as a definition, whose function is
renamed, a list of two nodes is decoded, encoded and accepted as before. -/
theorem linkedList_read_back :
    ∃ (node : Node) (schema : Schema Blueprint) (built : Interpretation Blueprint) (depth : Nat)
      (i₁ i₂ i₃ : Interpretation Blueprint),
      linkedList.source "List" = .ok node ∧ node.read? "List" = some schema ∧
      (Lazy.build [] schema).run {} = .ok (built.artifact, built.store) ∧
      built.after (Lazy.decode [] depth built.artifact namedList) = .ok (.ok plainList, i₁) ∧
      built.after (Lazy.encode [] depth built.artifact namedList) = .ok (plainList, i₂) ∧
      built.after (Lazy.accepts [] depth built.artifact namedList) = .ok (true, i₃) := by
  have hdecode : linkedList.decode namedList = .ok (.ok plainList) := decode_eq (by rfl)
  have hencode : linkedList.encode namedList = .ok plainList := encode_eq (by rfl)
  have haccept : linkedList.accepts namedList = .ok true := accepts_eq (by rfl)
  obtain ⟨node, schema, built, hsource, hread, hbuild, huse⟩ :=
    read_back linkedList_guarded "List"
  obtain ⟨outcome, encoded, accepted, ho, he, ha, hbuilt⟩ := huse namedList
  obtain rfl := Except.ok.inj (hdecode.symm.trans ho)
  obtain rfl := Except.ok.inj (hencode.symm.trans he)
  obtain rfl := Except.ok.inj (haccept.symm.trans ha)
  obtain ⟨i₁, i₂, i₃, h₁, h₂, h₃⟩ := hbuilt _ (Nat.le_refl _)
  exact ⟨node, schema, built, _, i₁, i₂, i₃, hsource, hread, hbuild, h₁, h₂, h₃⟩

end Document

end Schemata
