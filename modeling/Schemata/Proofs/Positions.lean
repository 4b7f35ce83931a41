import Schemata.Proofs.Answers
import Schemata.Proofs.Reports

/-!
# Where failures are

A failure leads into the value that was decoded.  Along the steps to a leaf lies the part of the
value that the leaf shows; along the steps to something missing lies an object or array that does
not have what the last step names.

**Input.**  A guarded document, and what fails to decode by it.

**Algorithm.**  Composites put the failures of parts after the step to the part; alternatives and
references put theirs after a step that stays.

**Results.**

* `Decoding.Reports.points`: what a composite with parts reports points into its value, where its
  parts lie in the value.
* `Decoding.points_congruence`: so do failures of composites, where those of their parts do.
* `DecodeError.paths_ne_nil`: a failure has paths.
* `Document.failures_point`: so do failures by a document, and none of them is empty.
-/

namespace Schemata

open Json (Value Members)

/-! ## Ways into a value -/

/-- A step leads from a value to a part of it: to the member under a key or to the item at an index.
All other steps stay at the value. -/
inductive Step.Leads : Step → Value → Value → Prop
  | key {key : String} {kind : FieldKind} {members : Members} {part : Value} :
      (key, part) ∈ members → Leads (.key key kind) (.object members) part
  | index {index : Nat} {kind : FieldKind} {items : List Value} {part : Value} :
      items[index]? = some part → Leads (.index index kind) (.array items) part
  | member (index : Nat) (value : Value) : Leads (.member index) value value
  | lazy (id : String) (value : Value) : Leads (.lazy id) value value
  | wrap (message : String) (value : Value) : Leads (.wrap message) value value

/-- A step leads to something that is missing: to a key that an object does not have, or to an
index beyond an array. -/
inductive Step.Misses : Step → Value → Prop
  | key {key : String} {kind : FieldKind} {members : Members} :
      key ∉ Entries.keys members → Misses (.key key kind) (.object members)
  | index {index : Nat} {kind : FieldKind} {items : List Value} :
      items.length ≤ index → Misses (.index index kind) (.array items)

/-- Steps lead from a value to a part of it, one after the other. -/
inductive Leads : List Step → Value → Value → Prop
  | nil (value : Value) : Leads [] value value
  | cons {step : Step} {way : List Step} {value inner part : Value} :
      step.Leads value inner → Leads way inner part → Leads (step :: way) value part

/-! ## Nodes of failures -/

namespace DecodeError

/-- A failure holds a node after some steps. -/
inductive Holds : DecodeError → List Step → ErrorNode → Prop
  | here {error : DecodeError} {node : ErrorNode} : node ∈ error.toList → Holds error [] node
  | under {error inner : DecodeError} {step : Step} {way : List Step} {node : ErrorNode} :
      .under step inner ∈ error.toList → Holds inner way node → Holds error (step :: way) node

/-- A failure points into a value: each leaf that it holds shows the part of the value that the
steps lead to, and each thing missing is missing from an object or array that they lead to, but for
the last one. -/
structure PointsInto (error : DecodeError) (value : Value) : Prop where
  leaf : ∀ way actual expected, error.Holds way (.leaf actual expected) → Leads way value actual
  missing : ∀ way, error.Holds way .missing →
    ∃ before step whole, way = before ++ [step] ∧ Leads before value whole ∧ step.Misses whole

variable {error : DecodeError} {step : Step} {way : List Step} {node : ErrorNode}
  {value part : Value}

theorem holds_iff : error.Holds way node ↔
    ∃ top ∈ error.toList, Holds (.singleton top) way node := by
  constructor
  · intro h
    cases h with
    | here hnode => exact ⟨node, hnode, .here (List.mem_singleton.2 rfl)⟩
    | under hunder hinner => exact ⟨_, hunder, .under (List.mem_singleton.2 rfl) hinner⟩
  · rintro ⟨top, htop, h⟩
    cases h with
    | here hnode =>
        obtain rfl := List.mem_singleton.1 hnode
        exact .here htop
    | under hunder hinner =>
        obtain rfl := List.mem_singleton.1 hunder
        exact .under htop hinner

/-- What a failure holds after a step, but for what stands on the way. -/
theorem holds_under (h : (under step error).Holds way node) :
    (way = [] ∧ node = .under step error) ∨ ∃ rest, way = step :: rest ∧ error.Holds rest node := by
  cases h with
  | here hnode => exact .inl ⟨rfl, List.mem_singleton.1 hnode⟩
  | under hunder hinner =>
      obtain ⟨rfl, rfl⟩ := ErrorNode.under.inj (List.mem_singleton.1 hunder)
      exact .inr ⟨_, rfl, hinner⟩

theorem holds_leaf {actual : Value} {expected : String}
    (h : (leaf actual expected).Holds way node) : way = [] ∧ node = .leaf actual expected := by
  cases h with
  | here hnode => exact ⟨rfl, List.mem_singleton.1 hnode⟩
  | under hunder _ => cases List.mem_singleton.1 hunder

theorem holds_missing (h : missing.Holds way node) : way = [] ∧ node = .missing := by
  cases h with
  | here hnode => exact ⟨rfl, List.mem_singleton.1 hnode⟩
  | under hunder _ => cases List.mem_singleton.1 hunder

namespace PointsInto

/-- A failure points into a value when its nodes do, each by itself. -/
theorem of_nodes (h : ∀ top ∈ error.toList, PointsInto (.singleton top) value) :
    error.PointsInto value where
  leaf way actual expected hholds := by
    obtain ⟨top, htop, hholds⟩ := holds_iff.1 hholds
    exact (h top htop).leaf way actual expected hholds
  missing way hholds := by
    obtain ⟨top, htop, hholds⟩ := holds_iff.1 hholds
    exact (h top htop).missing way hholds

theorem of_mem (h : error.PointsInto value) {top : ErrorNode} (htop : top ∈ error.toList) :
    PointsInto (.singleton top) value where
  leaf way actual expected hholds := h.leaf way actual expected (holds_iff.2 ⟨top, htop, hholds⟩)
  missing way hholds := h.missing way (holds_iff.2 ⟨top, htop, hholds⟩)

/-- A value of the wrong shape shows itself. -/
theorem of_leaf (value : Value) (expected : String) :
    (DecodeError.leaf value expected).PointsInto value where
  leaf way actual expected' hholds := by
    obtain ⟨rfl, hnode⟩ := holds_leaf hholds
    obtain ⟨rfl, -⟩ := ErrorNode.leaf.inj hnode
    exact .nil actual
  missing way hholds := by cases (holds_leaf hholds).2

/-- What points into a part points into the whole after the step to the part. -/
theorem under (hstep : step.Leads value part) (h : error.PointsInto part) :
    (DecodeError.under step error).PointsInto value where
  leaf way actual expected hholds := by
    rcases holds_under hholds with ⟨_, hnode⟩ | ⟨rest, rfl, hinner⟩
    · cases hnode
    · exact .cons hstep (h.leaf rest actual expected hinner)
  missing way hholds := by
    rcases holds_under hholds with ⟨_, hnode⟩ | ⟨rest, rfl, hinner⟩
    · cases hnode
    · obtain ⟨before, last, whole, rfl, hbefore, hmisses⟩ := h.missing rest hinner
      exact ⟨step :: before, last, whole, rfl, .cons hstep hbefore, hmisses⟩

/-- What a value does not have is missing from it. -/
theorem absent (hstep : step.Misses value) :
    (DecodeError.under step DecodeError.missing).PointsInto value where
  leaf way actual expected hholds := by
    rcases holds_under hholds with ⟨_, hnode⟩ | ⟨rest, _, hinner⟩
    · cases hnode
    · cases (holds_missing hinner).2
  missing way hholds := by
    rcases holds_under hholds with ⟨_, hnode⟩ | ⟨rest, rfl, hinner⟩
    · cases hnode
    · obtain ⟨rfl, _⟩ := holds_missing hinner
      exact ⟨[], step, value, rfl, .nil value, hstep⟩

end PointsInto
end DecodeError

/-! ## Paths of failures -/

theorem ErrorNode.paths_ne_nil (path : String) : ∀ node : ErrorNode, node.paths path ≠ []
  | .leaf _ _ => by simp [paths]
  | .missing => by simp [paths]
  | .under step ⟨head, tail⟩ => by
      have hhead := paths_ne_nil (path ++ step.segment) head
      simp [paths, hhead]

/-- A failure has a path, since its first node has one. -/
theorem DecodeError.paths_ne_nil (error : DecodeError) : error.paths ≠ [] := by
  have hhead := ErrorNode.paths_ne_nil "" error.head
  simp [paths, NonEmpty.toList, ErrorNode.pathsOfAll, hhead]

/-! ## Failures of decoders -/

namespace Decoding

/-- The failure of a decoder on a value points into the value. -/
def PointsAt (d : Decoding Id) (value : Value) : Prop :=
  ∀ ⦃error : DecodeError⦄, d.decode value = .error error → error.PointsInto value

/-- A part lies in a value: its step leads to what is there, where its decoder points into it, or
to something that the value does not have. -/
structure Part.LiesIn (part : Part) (value : Value) : Prop where
  found : ∀ inner, part.found = some inner →
    part.step.Leads value inner ∧ part.decoding.PointsAt inner
  absent : part.found = none → part.step.Misses value

theorem Part.LiesIn.points {part : Part} {value : Value} (h : part.LiesIn value)
    {node : ErrorNode} (hnode : part.report? = some node) :
    DecodeError.PointsInto (.singleton node) value := by
  rcases report?_eq_some hnode with ⟨inner, error, hfound, hdecode, rfl⟩ | ⟨hfound, _, rfl⟩
  · obtain ⟨hleads, hpoints⟩ := h.found inner hfound
    exact .under hleads (hpoints hdecode)
  · exact .absent (h.absent hfound)

/-- A composite points into a value that its parts lie in. -/
theorem Reports.points {parts : List Part} {gives : Value → Prop} {outcome : Outcome Value}
    {value : Value} (h : Reports parts gives outcome) (hparts : ∀ part ∈ parts, part.LiesIn value)
    {error : DecodeError} (herror : outcome = .error error) : error.PointsInto value := by
  refine .of_nodes fun node hnode => ?_
  rw [h.nodes error herror] at hnode
  obtain ⟨part, hpart, hreport⟩ := List.mem_filterMap.1 hnode
  exact (hparts part hpart).points hreport

variable {value : Value} {d left right : Decoding Id} {ds : List (Decoding Id)}

theorem test_points (holds : Value → Bool) (expected : String) (value : Value) :
    PointsAt (test holds expected) value := by
  intro error h
  have h : (if holds value then .ok value else .error (.leaf value expected) : Outcome Value) =
    .error error := h
  split at h
  · cases h
  · obtain rfl := Except.error.inj h
    exact .of_leaf value expected

theorem literalsOr_points (values : NonEmpty Literal) (h : d.PointsAt value) :
    PointsAt (literalsOr values d) value := by
  intro error herror
  have herror : (if values.toList.any (·.isMatch value) then .ok value else d.decode value) =
    (.error error : Outcome Value) := herror
  split at herror
  · cases herror
  · exact h herror

theorem object_points (kind : FieldKind) {fields : Entries (Decoding Id)}
    (h : ∀ field ∈ fields, ∀ inner : Value, inner.depth < value.depth → field.2.PointsAt inner) :
    PointsAt (object kind fields) value := by
  intro error herror
  cases value with
  | object members =>
      refine (object_reports kind fields members).points (fun part hpart => ?_) herror
      obtain ⟨field, hfield, rfl⟩ := List.mem_map.1 hpart
      exact ⟨fun inner hinner => ⟨.key (Entries.mem_of_lookup hinner),
        h field hfield inner (Value.depth_lt_of_get? hinner)⟩,
        fun habsent => .key (Entries.not_mem_keys_of_lookup habsent)⟩
  | _ =>
      obtain rfl := Except.error.inj herror
      exact .of_leaf _ _

theorem record_points
    (h : ∀ inner : Value, inner.depth < value.depth → d.PointsAt inner) :
    PointsAt (record d) value := by
  intro error herror
  cases value with
  | object members =>
      refine (record_reports d members).points (fun part hpart => ?_) herror
      obtain ⟨entry, hentry, rfl⟩ := List.mem_map.1 hpart
      refine ⟨fun inner hinner => ?_, fun habsent => nomatch habsent⟩
      obtain rfl := Option.some.inj hinner
      exact ⟨.key hentry, h entry.2 (Value.depth_lt_of_member hentry)⟩
  | _ =>
      obtain rfl := Except.error.inj herror
      exact .of_leaf _ _

theorem array_points
    (h : ∀ inner : Value, inner.depth < value.depth → d.PointsAt inner) :
    PointsAt (array d) value := by
  intro error herror
  cases value with
  | array values =>
      refine (array_reports d values).points (fun part hpart => ?_) herror
      obtain ⟨index, hindex, rfl⟩ := List.mem_mapIdx.1 hpart
      refine ⟨fun inner hinner => ?_, fun habsent => nomatch habsent⟩
      obtain rfl := Option.some.inj hinner
      refine ⟨.index ?_, h _ (Value.depth_lt_of_item (List.getElem_mem hindex))⟩
      rw [Nat.zero_add, List.getElem?_eq_getElem hindex]
  | _ =>
      obtain rfl := Except.error.inj herror
      exact .of_leaf _ _

theorem tuple_points
    (h : ∀ d ∈ ds, ∀ inner : Value, inner.depth < value.depth → d.PointsAt inner) :
    PointsAt (tuple ds) value := by
  intro error herror
  cases value with
  | array values =>
      refine (tuple_reports ds values).points (fun part hpart => ?_) herror
      obtain ⟨index, hindex, rfl⟩ := List.mem_mapIdx.1 hpart
      refine ⟨fun inner hinner => ⟨.index ?_, ?_⟩, fun habsent => .index ?_⟩
      · rw [Nat.zero_add]
        exact hinner
      · exact h _ (List.getElem_mem hindex) inner
          (Value.depth_lt_of_item (List.mem_of_getElem? hinner))
      · rw [Nat.zero_add]
        exact List.getElem?_eq_none_iff.1 habsent
  | _ =>
      obtain rfl := Except.error.inj herror
      exact .of_leaf _ _

theorem intersection_points (hleft : left.PointsAt value) (hright : right.PointsAt value) :
    PointsAt (intersection left right) value := by
  have hside {side : Decoding Id} (h : side.PointsAt value) {node : ErrorNode}
      (hnode : node ∈ Outcome.failures (side.decode value)) :
      DecodeError.PointsInto (.singleton node) value := by
    cases hdecode : side.decode value with
    | ok _ =>
        rw [hdecode] at hnode
        cases hnode
    | error error =>
        rw [hdecode] at hnode
        exact (h hdecode).of_mem hnode
  intro error herror
  refine .of_nodes fun node hnode => ?_
  rw [(intersection_reports left right value).nodes error herror] at hnode
  rcases List.mem_append.1 hnode with hnode | hnode
  · exact hside hleft hnode
  · exact hside hright hnode

/-- A sum that finds no member reports its tag: that it is missing, or what it is instead. -/
theorem sum_points (tag : String) {members : Entries (Decoding Id)}
    (h : ∀ member ∈ members, member.2.PointsAt value) : PointsAt (sum tag members) value := by
  intro error herror
  cases value with
  | object fields =>
      simp only [sum] at herror
      cases htag : Value.get? tag fields with
      | none =>
          rw [htag] at herror
          obtain rfl := Except.error.inj herror
          exact .absent (.key (Entries.not_mem_keys_of_lookup htag))
      | some named =>
          cases hmember : memberOf? tag members (.object fields) with
          | none =>
              rw [htag, hmember] at herror
              obtain rfl := Except.error.inj herror
              exact .under (.key (Entries.mem_of_lookup htag)) (.of_leaf named _)
          | some member =>
              rw [htag, hmember] at herror
              obtain ⟨key, hmem⟩ := mem_of_memberOf? hmember
              exact h (key, member) hmem herror
  | _ =>
      obtain rfl := Except.error.inj herror
      exact .of_leaf _ _

theorem union_points {members : NonEmpty (Decoding Id)}
    (h : ∀ member ∈ members.toList, member.PointsAt value) : PointsAt (union members) value := by
  intro error herror
  refine .of_nodes fun node hnode => ?_
  have hnode := List.mem_map_of_mem (f := some) hnode
  rw [← (union_reports members value).nodes error herror] at hnode
  obtain ⟨part, hpart, hreport⟩ := List.mem_map.1 hnode
  obtain ⟨index, hindex, rfl⟩ := List.mem_mapIdx.1 hpart
  refine Part.LiesIn.points ⟨fun inner hinner => ?_, fun habsent => by cases habsent⟩ hreport
  obtain rfl := Option.some.inj hinner
  exact ⟨.member _ value, h _ (List.getElem_mem hindex)⟩

/-- Failures of composites point into their value when those of their parts do. -/
theorem points_congruence (value : Value) :
    Congruence
      (fun (d _ : Decoding Id) => ∀ inner : Value, inner.depth < value.depth → d.PointsAt inner)
      (fun (d _ : Decoding Id) => d.PointsAt value) where
  literal _ := test_points _ _ value
  literals _ := test_points _ _ value
  literalsOr values {_ _} h := literalsOr_points values h
  primitive _ := test_points _ _ value
  object kind {_ _} _ h := object_points kind (forall_of_forall₂ (h.imp fun _ _ hd => hd.2))
  record {_ _} h := record_points h
  array {_ _} h := array_points h
  tuple {_ _} h := tuple_points (forall_of_forall₂ h)
  intersection {_ _ _ _} hleft hright := intersection_points hleft hright
  sum tag {_ _} _ h := sum_points tag (forall_of_forall₂ (h.imp fun _ _ hd => hd.2))
  union {_ _ _ _} h hs := union_points (List.forall_mem_cons.2 ⟨h, forall_of_forall₂ hs⟩)
  readonly {_ _} h := h

end Decoding

/-! ## Documents -/

namespace Document

variable {document : Document}

/-- Failures by the definitions of a guarded document point into their value. -/
theorem fold_points (hguarded : document.Guarded) {definition : Definition}
    (hnames : ∀ name ∈ definition.references, name ∈ document.definitions.keys) (value : Value) :
    (definition.fold document.decoder).PointsAt value :=
  fold_related hguarded (f := document.decoder) (g := document.decoder)
    (r := fun value d _ => d.PointsAt value) Decoding.points_congruence
    (fun name definition value hfind h error herror => by
      rw [decoder_of_find? hguarded hfind] at herror
      cases hdecode : (definition.fold document.decoder).decode value with
      | ok _ =>
          rw [hdecode] at herror
          cases herror
      | error inner =>
          rw [hdecode] at herror
          obtain rfl := Except.error.inj herror
          exact .under (.lazy name value) (h hdecode))
    hnames value

theorem decoder_points (hguarded : document.Guarded) {name : String}
    (hname : name ∈ document.definitions.keys) (value : Value) :
    (document.decoder name).PointsAt value := by
  have hnames : ∀ next ∈ (Definition.ref name).references, next ∈ document.definitions.keys := by
    simpa [Definition.references] using hname
  simpa only [Definition.fold] using fold_points hguarded hnames value

variable {A : Type} [Artifact A] [LawfulArtifact A] {i i' : Interpretation A}

/-- **Failures point at the truth.**  What an interpretation of a guarded document reports leads
into the value: every leaf shows the part of the value that the steps before it lead to, and
everything missing is missing from an object or array there.  No level of the failure is empty, and
neither are its paths. -/
theorem failures_point (hguarded : document.Guarded) (hi : i.Used document) {value : Value}
    {error : DecodeError} (h : i.decode document value = .ok (.error error, i')) :
    error.PointsInto value ∧
      (error.toList ≠ [] ∧
        ∀ way step inner, error.Holds way (.under step inner) → inner.toList ≠ []) ∧
      error.paths ≠ [] := by
  obtain ⟨_, hanswer, _⟩ := hi.decode_answer hguarded value
  obtain ⟨hdecode, _⟩ := Prod.mk.inj (Except.ok.inj (hanswer.symm.trans h))
  have hpoints := Document.decoder_points hguarded document.root_mem value hdecode
  exact ⟨hpoints, ⟨error.toList_ne_nil, fun _ _ inner _ => inner.toList_ne_nil⟩, error.paths_ne_nil⟩

/-- The text in the second node of a broken list is found along the steps to its leaf. -/
theorem linkedList_failures_point :
    ∃ (error : DecodeError) (i' : Interpretation Blueprint),
      linkedList.interpret.decode linkedList brokenList = .ok (.error error, i') ∧
      Leads [.lazy "List", .lazy "Node", .key "next" .required, .lazy "List", .lazy "Node",
        .key "value" .required] brokenList (.string "two") ∧
      error.paths ≠ [] := by
  obtain ⟨i', hanswer, _⟩ := (Interpretation.Used.fresh (A := Blueprint)).decode_answer
    linkedList_guarded brokenList
  have hdecode : linkedList.interpret.decode linkedList brokenList =
      .ok (.error (.under (.lazy "List") (.under (.lazy "Node")
        (.under (.key "next" .required) (.under (.lazy "List") (.under (.lazy "Node")
          (.under (.key "value" .required) (.leaf (.string "two") "number"))))))), i') := hanswer
  obtain ⟨hpoints, _, hpaths⟩ := failures_point linkedList_guarded .fresh hdecode
  refine ⟨_, i', hdecode, hpoints.leaf _ _ "number" ?_, hpaths⟩
  repeat refine .under (List.mem_singleton.2 rfl) ?_
  exact .here (List.mem_singleton.2 rfl)

end Document

end Schemata
