import Schemata.Proofs.Texts
import Schemata.Proofs.Validity

/-!
# Generated source is unambiguous

**Input.**  Documents without literals that are no number, on any root identifiers.

**Algorithm.**  The literals of a definition are one more reading of it (`Named`).  What the
combinators write is made of regular trees, if the sources of their parts are and no literal is
no number, and so are the references to definitions.  So the text of a source can be read back.

**Results.**

* `Sourcing.regular_congruence`: combinators write regular trees.
* `Document.regular_expansion`: the plain source of a name is a regular tree.
* `Document.source_unambiguous`: sources of one text are the same tree, on the same root.
-/

namespace Schemata

open Node (Callee)

/-- The literals that a schema names. -/
structure Named where
  literals : List Literal

instance : Vocabulary Named where
  literal value := ⟨[value]⟩
  literals values := ⟨values.toList⟩
  literalsOr values fallback := ⟨values.toList ++ fallback.literals⟩
  primitive _ := ⟨[]⟩
  object _ parts := ⟨parts.flatMap fun part => part.2.literals⟩
  record part := part
  array part := part
  tuple parts := ⟨parts.flatMap Named.literals⟩
  intersection left right := ⟨left.literals ++ right.literals⟩
  sum _ parts := ⟨parts.flatMap fun part => part.2.literals⟩
  union parts := ⟨parts.toList.flatMap Named.literals⟩
  readonly part := part
  custom _ part := part
  pair decoder _ := decoder

namespace Node

theorem regular_literal {value : Literal} (h : value.isNaN = false) :
    Regular (.literal value) := by
  cases value with
  | string text => exact .text text
  | _ => exact .word rfl h

theorem regular_literalArray {values : NonEmpty Literal}
    (h : ∀ value ∈ values.toList, value.isNaN = false) :
    Regular (Sourcing.literalArray values) := by
  refine .array fun item hitem => ?_
  obtain ⟨value, hvalue, rfl⟩ := List.mem_map.1 hitem
  exact regular_literal (h value hvalue)

theorem regular_method (root : String) {name : String} {args : List Node}
    (hname : name.toList.all isPart = true) (hargs : ∀ arg ∈ args, Regular arg) :
    Regular (.method root name args) := .call (.method root hname) hargs

end Node

/-! ## Sources are regular trees -/

namespace Sourcing

variable {root : String}

/-- The source comes to be a regular tree, if no literal of the schema is no number. -/
def Regular (root : String) (named : Named) (d : Sourcing Option) : Prop :=
  (∀ value ∈ named.literals, value.isNaN = false) → ∀ node, d.node root = some node →
    node.Regular

theorem regular_nodes {names : List Named} {ds : List (Sourcing Option)}
    (h : List.Forall₂ (Regular root) names ds)
    (hnames : ∀ value ∈ names.flatMap Named.literals, value.isNaN = false) :
    ∀ ns, nodes root ds = some ns → ∀ node ∈ ns, node.Regular := by
  induction h with
  | nil =>
      intro ns hns
      obtain rfl := Option.some.inj hns
      exact nofun
  | @cons name d names ds hd _ ih =>
      intro ns hns
      obtain ⟨n, hn, hns⟩ := Option.bind_eq_some_iff.1 hns
      obtain ⟨rest, hrest, hns⟩ := Option.bind_eq_some_iff.1 hns
      obtain rfl := Option.some.inj hns
      rw [List.flatMap_cons, List.forall_mem_append] at hnames
      exact List.forall_mem_cons.2 ⟨hd hnames.1 n hn, ih hnames.2 rest hrest⟩

theorem regular_fields {names : Entries Named} {ds : Entries (Sourcing Option)}
    (h : List.Forall₂ (Keyed (Regular root)) names ds)
    (hnames : ∀ value ∈ names.flatMap fun name => name.2.literals, value.isNaN = false) :
    ∀ ns, fields root ds = some ns → ∀ field ∈ ns, field.2.Regular := by
  induction h with
  | nil =>
      intro ns hns
      obtain rfl := Option.some.inj hns
      exact nofun
  | @cons name d names ds hd _ ih =>
      intro ns hns
      obtain ⟨n, hn, hns⟩ := Option.bind_eq_some_iff.1 hns
      obtain ⟨rest, hrest, hns⟩ := Option.bind_eq_some_iff.1 hns
      obtain rfl := Option.some.inj hns
      rw [List.flatMap_cons, List.forall_mem_append] at hnames
      exact List.forall_mem_cons.2 ⟨hd.2 hnames.1 n hn, ih hnames.2 rest hrest⟩

theorem regular_call {name : String} (hname : name.toList.all Node.isPart = true)
    {names : List Named} {ds : List (Sourcing Option)}
    (h : List.Forall₂ (Regular root) names ds) :
    Regular root ⟨names.flatMap Named.literals⟩ (call name ds) := by
  intro hnames node hnode
  obtain ⟨ns, hns, hnode⟩ := Option.bind_eq_some_iff.1 hnode
  obtain rfl := Option.some.inj hnode
  exact Node.regular_method root hname (regular_nodes h hnames ns hns)

theorem regular_call_one {name : String} (hname : name.toList.all Node.isPart = true)
    {named : Named} {d : Sourcing Option} (h : Regular root named d) :
    Regular root named (call name [d]) := by
  have hcall := regular_call hname (.cons h .nil)
  rwa [List.flatMap_singleton] at hcall

theorem regular_object {name : String} (hname : name.toList.all Node.isPart = true)
    {names : Entries Named} {ds : Entries (Sourcing Option)}
    (h : List.Forall₂ (Keyed (Regular root)) names ds) :
    Regular root ⟨names.flatMap fun name => name.2.literals⟩ (object name ds) := by
  intro hnames node hnode
  obtain ⟨ns, hns, hnode⟩ := Option.bind_eq_some_iff.1 hnode
  obtain rfl := Option.some.inj hnode
  exact Node.regular_method root hname
    (List.forall_mem_singleton.2 (.object (regular_fields h hnames ns hns)))

/-- **Combinators write regular trees.** -/
theorem regular_congruence : Congruence (Regular root) (Regular root) where
  literal value := by
    intro hvalue node hnode
    obtain rfl := Option.some.inj hnode
    have hliteral := Node.regular_literal (hvalue value (List.mem_singleton_self _))
    exact Node.regular_method root (by decide) (List.forall_mem_singleton.2 hliteral)
  literals values := by
    intro hvalues node hnode
    obtain rfl := Option.some.inj hnode
    exact Node.regular_method root (by decide)
      (List.forall_mem_singleton.2 (Node.regular_literalArray hvalues))
  literalsOr values {named d} h := by
    intro hvalues node hnode
    obtain ⟨n, hn, hnode⟩ := Option.bind_eq_some_iff.1 hnode
    obtain rfl := Option.some.inj hnode
    obtain ⟨hvalues, hnamed⟩ := List.forall_mem_append.1 hvalues
    exact Node.regular_method root (by decide) (List.forall_mem_cons.2
      ⟨Node.regular_literalArray hvalues, List.forall_mem_singleton.2 (h hnamed n hn)⟩)
  primitive kind := by
    intro _ node hnode
    obtain rfl := Option.some.inj hnode
    exact Node.regular_method root (by cases kind <;> decide) nofun
  object kind {_ _} _ h := by
    cases kind with
    | required => exact regular_object (by decide) h
    | optional => exact regular_object (by decide) h
  record {_ _} h := regular_call_one (by decide) h
  array {_ _} h := regular_call_one (by decide) h
  tuple {_ _} h := regular_call (by decide) h
  intersection {_ _ _ _} h h' := by
    have hcall := regular_call (by decide : "intersection".toList.all Node.isPart = true)
      (.cons h (.cons h' .nil))
    simp only [List.flatMap_cons, List.flatMap_nil, List.append_nil] at hcall
    exact hcall
  sum tag {_ _} _ h := by
    intro hnames node hnode
    obtain ⟨ns, hns, hnode⟩ := Option.bind_eq_some_iff.1 hnode
    obtain rfl := Option.some.inj hnode
    exact .curried (.method root (by decide)) (List.forall_mem_singleton.2 (.text tag))
      (List.forall_mem_singleton.2 (.object (regular_fields h hnames ns hns)))
  union {_ _ _ _} h hs := regular_call (by decide) (.cons h hs)
  readonly {_ _} h := regular_call_one (by decide) h

end Sourcing

/-! ## Documents -/

namespace Document

variable {document : Document}

/-- The literals of the definitions of a document. -/
def literals (document : Document) : List Literal :=
  document.definitions.flatMap fun entry => (entry.2.fold fun _ => (⟨[]⟩ : Named)).literals

/-- **The plain source of a name is a regular tree**, inside of any functions. -/
theorem regular_expansion (hliterals : ∀ value ∈ document.literals, value.isNaN = false)
    (root : String) : ∀ (depth : Nat) (around : List String) (name : String) (node : Node),
    (document.expansion depth around name).node root = some node → node.Regular
  | 0, _, _, _, h => nomatch h
  | depth + 1, around, name, node, hnode => by
      by_cases haround : name ∈ around
      · rw [expansion_mem haround] at hnode
        obtain rfl := Option.some.inj hnode
        exact .call (.ident _) nofun
      · cases hfind : document.find? name with
        | none => simp [expansion, haround, hfind] at hnode
        | some definition =>
            rw [expansion_succ haround hfind] at hnode
            obtain ⟨body, hbody, rfl⟩ := Option.map_eq_some_iff.1 hnode
            have hregular := definition.fold_rel Sourcing.regular_congruence
              (f := fun _ => (⟨[]⟩ : Named)) (g := document.expansion depth (name :: around))
              fun next _ _ => regular_expansion hliterals root depth (name :: around) next
            have hbody := hregular (fun value hvalue => hliterals value
              (List.mem_flatMap.2 ⟨_, Entries.mem_of_lookup hfind, hvalue⟩)) body hbody
            refine Node.regular_method root (by decide) (List.forall_mem_cons.2 ⟨.text name, ?_⟩)
            exact List.forall_mem_singleton.2 (.function _ hbody)

/-- The source of a document is a call on the root identifier. -/
theorem expansion_method {root : String} {node : Node}
    (h : (document.expansion document.sourceDepth [] document.root).node root = some node) :
    ∃ args, node = .method root "lazy" args := by
  obtain ⟨definition, hfind⟩ := document.exists_find? document.root_mem
  rw [sourceDepth, expansion_succ List.not_mem_nil hfind] at h
  obtain ⟨body, _, rfl⟩ := Option.map_eq_some_iff.1 h
  exact ⟨_, rfl⟩

/-- **Generated source is unambiguous.**  The sources of two documents, on any root identifiers,
come to an end; if no literal of the documents is no number, sources of one text are the same
tree, on the same root. -/
theorem source_unambiguous (document other : Document) (root root' : String)
    (h : ∀ value ∈ document.literals, value.isNaN = false)
    (hother : ∀ value ∈ other.literals, value.isNaN = false) :
    ∃ node node', document.source root = .ok node ∧ other.source root' = .ok node' ∧
      (node.render = node'.render → node = node' ∧ root = root') := by
  obtain ⟨node, hnode, _⟩ := document.expansion_valid root document.sourceDepth []
    document.root document.root_mem (.root document)
  obtain ⟨node', hnode', _⟩ := other.expansion_valid root' other.sourceDepth []
    other.root other.root_mem (.root other)
  refine ⟨node, node', source_eq hnode, source_eq hnode', fun hrender => ?_⟩
  have hregular := regular_expansion h root _ _ _ node hnode
  have hregular' := regular_expansion hother root' _ _ _ node' hnode'
  obtain rfl := hregular.eq_of_write hregular' hrender
  obtain ⟨args, rfl⟩ := expansion_method hnode
  obtain ⟨args', hroot⟩ := expansion_method hnode'
  injection hroot with hcallee _
  injection hcallee with htarget _
  exact ⟨rfl, Node.ident.inj htarget⟩

/-- A document of one number. -/
def single (value : Float) : Document where
  root := "number"
  definitions := [("number", .literal (.number value))]
  root_mem := List.mem_singleton_self _
  references_mem := List.forall_mem_nil _

/-- The two zeros have sources of distinct texts. -/
theorem zeros_unambiguous :
    ∃ node node', (single 0.0).source "schemable" = .ok node ∧
      (single (-0.0)).source "schemable" = .ok node' ∧ node.render ≠ node'.render := by
  obtain ⟨node, node', hnode, hnode', hunique⟩ :=
    source_unambiguous (single 0.0) (single (-0.0)) "schemable" "schemable"
      (List.forall_mem_singleton.2 rfl) (List.forall_mem_singleton.2 rfl)
  refine ⟨node, node', hnode, hnode', fun hrender => ?_⟩
  obtain ⟨rfl, _⟩ := hunique hrender
  have htree : ∀ value, (single value).source "schemable" = .ok (.method "schemable" "lazy"
      [.literal (.string "number"), .function (Node.definitionName "number" "schemable")
        (.method "schemable" "literal" [.literal (.number value)])]) :=
    fun _ => source_eq rfl
  have hzeros := (htree 0.0).symm.trans (hnode.trans (hnode'.symm.trans (htree (-0.0))))
  have hsame : (0.0 : Float) = -0.0 := by simpa [Node.method] using hzeros
  exact absurd (congrArg Float.toBits hsame) (by decide)

end Document
end Schemata
