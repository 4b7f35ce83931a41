import Schemata.Proofs.Positions

/-!
# What is left of a value

Decoders and encoders leave out members and items and change nothing else.  What they make of a
value, also of one that is not accepted, is the value with parts cut off.

**Input.**  A guarded document and any value.

**Algorithm.**  Objects keep their declared members and tuples the items that have a place; an
intersection unites what its sides keep.

**Results.**

* `prunesItems_iff` and `prunesMembers_iff`: prunings of items and of members, one by one.
* `Prunes.merge`: two prunings of a value merge to one.
* `Prunes.holds_eq` and `Prunes.leads`: a pruning is of the same kind, and all of its parts are
  prunings of parts in the same places.
* `Encoding.prunes_congruence`: composites prune what they encode when their parts do.
* `Document.only_prunes`: so do documents, in both directions.
-/

namespace Schemata

open Json (Value Members)

/-! ## Prunings -/

mutual

/-- A value is a pruning of another one: the same scalar, the first items of an array, pruned, or
some members of an object, pruned. -/
inductive Prunes : Value → Value → Prop
  | scalar {value : Value} : value.isScalar = true → Prunes value value
  | array {items wholes : List Value} :
      PrunesItems items wholes → Prunes (.array items) (.array wholes)
  | object {members wholes : Members} :
      PrunesMembers members wholes → Prunes (.object members) (.object wholes)

/-- Items are prunings of the first ones of others, in their order. -/
inductive PrunesItems : List Value → List Value → Prop
  | nil (wholes : List Value) : PrunesItems [] wholes
  | cons {item whole : Value} {items wholes : List Value} : Prunes item whole →
      PrunesItems items wholes → PrunesItems (item :: items) (whole :: wholes)

/-- Members are prunings of others, each of one under its key. -/
inductive PrunesMembers : Members → Members → Prop
  | nil (wholes : Members) : PrunesMembers [] wholes
  | cons {key : String} {value whole : Value} {members wholes : Members} : (key, whole) ∈ wholes →
      Prunes value whole → PrunesMembers members wholes →
      PrunesMembers ((key, value) :: members) wholes

end

/-- Each item prunes the one at its index, and there are no more items than before. -/
theorem prunesItems_iff : ∀ {items wholes : List Value}, PrunesItems items wholes ↔
    items.length ≤ wholes.length ∧ ∀ (index : Nat) (item whole : Value),
      items[index]? = some item → wholes[index]? = some whole → Prunes item whole
  | [], _ => iff_of_true (.nil _) (by simp)
  | _ :: _, [] => iff_of_false (fun h => by cases h) (by simp)
  | item :: items, whole :: wholes => by
      constructor
      · rintro (_ | ⟨hitem, hitems⟩)
        obtain ⟨hlength, hall⟩ := prunesItems_iff.1 hitems
        refine ⟨Nat.succ_le_succ hlength, fun index part wholePart hpart hwhole => ?_⟩
        cases index with
        | zero =>
            obtain rfl := Option.some.inj hpart
            obtain rfl := Option.some.inj hwhole
            exact hitem
        | succ index => exact hall index part wholePart hpart hwhole
      · rintro ⟨hlength, hall⟩
        exact .cons (hall 0 item whole rfl rfl) (prunesItems_iff.2
          ⟨Nat.le_of_succ_le_succ hlength, fun index => hall (index + 1)⟩)

/-- Each member prunes one under its key. -/
theorem prunesMembers_iff {wholes : Members} : ∀ {members : Members},
    PrunesMembers members wholes ↔
      ∀ entry ∈ members, ∃ whole, (entry.1, whole) ∈ wholes ∧ Prunes entry.2 whole
  | [] => iff_of_true (.nil wholes) (by simp)
  | (key, value) :: members => by
      rw [List.forall_mem_cons, ← prunesMembers_iff]
      constructor
      · rintro (_ | ⟨hmem, hvalue, hmembers⟩)
        exact ⟨⟨_, hmem, hvalue⟩, hmembers⟩
      · rintro ⟨⟨whole, hmem, hvalue⟩, hmembers⟩
        exact .cons hmem hvalue hmembers

mutual

theorem Prunes.refl : ∀ value : Value, Prunes value value
  | .null => .scalar rfl
  | .bool _ => .scalar rfl
  | .number _ => .scalar rfl
  | .string _ => .scalar rfl
  | .array items => .array (prunesItems_refl items)
  | .object members => .object (prunesMembers_of_subset members fun _ hentry => hentry)

theorem prunesItems_refl : ∀ items : List Value, PrunesItems items items
  | [] => .nil []
  | item :: items => .cons (.refl item) (prunesItems_refl items)

theorem prunesMembers_of_subset : ∀ (members : Members) {wholes : Members},
    (∀ entry ∈ members, entry ∈ wholes) → PrunesMembers members wholes
  | [], _, _ => .nil _
  | (key, value) :: members, _, h =>
      .cons (h (key, value) List.mem_cons_self) (.refl value)
        (prunesMembers_of_subset members fun entry hentry =>
          h entry (List.mem_cons_of_mem _ hentry))

end

namespace Prunes

variable {a b value : Value}

/-- What two prunings of a value leave, united, is one as well. -/
theorem merge (ha : Prunes a value) (hb : Prunes b value) : Prunes (merge a b) value := by
  cases hb with
  | scalar hscalar =>
      cases b with
      | object _ => cases hscalar
      | _ => cases a <;> exact .scalar hscalar
  | array hitems => cases a <;> exact .array hitems
  | object hright =>
      cases ha with
      | scalar hscalar => cases hscalar
      | object hleft =>
          refine .object (prunesMembers_iff.2 fun entry hentry => ?_)
          rcases Entries.mem_of_mem_setAll hentry with hentry | hentry
          · exact prunesMembers_iff.1 hright entry hentry
          · exact prunesMembers_iff.1 hleft entry hentry

/-- A pruning is of the kind of its value. -/
theorem holds_eq (h : Prunes a value) (kind : Primitive) : kind.holds a = kind.holds value := by
  cases h with
  | scalar _ => rfl
  | array _ => cases kind <;> rfl
  | object _ => cases kind <;> rfl

theorem step {part : Value} {step : Step} (h : Prunes a value) (hstep : step.Leads a part) :
    ∃ whole, step.Leads value whole ∧ Prunes part whole := by
  cases hstep with
  | @key key _ _ _ hmem =>
      cases h with
      | scalar _ => exact ⟨part, .key hmem, .refl part⟩
      | object hmembers =>
          obtain ⟨whole, hwhole, hpart⟩ := prunesMembers_iff.1 hmembers (key, part) hmem
          exact ⟨whole, .key hwhole, hpart⟩
  | @index index _ _ _ hitem =>
      cases h with
      | scalar _ => exact ⟨part, .index hitem, .refl part⟩
      | @array _ wholes hitems =>
          obtain ⟨hlength, hall⟩ := prunesItems_iff.1 hitems
          have hindex : index < wholes.length :=
            (List.getElem?_eq_some_iff.1 hitem).1.trans_le hlength
          have hwhole := List.getElem?_eq_getElem hindex
          exact ⟨wholes[index], .index hwhole, hall index part _ hitem hwhole⟩
  | member index => exact ⟨value, .member index value, h⟩
  | lazy id => exact ⟨value, .lazy id value, h⟩
  | wrap message => exact ⟨value, .wrap message value, h⟩

/-- Whatever is in a pruning is a pruning of what is in the same place of its value. -/
theorem leads {way : List Step} {part : Value} (h : Prunes a value) (hway : Leads way a part) :
    ∃ whole, Leads way value whole ∧ Prunes part whole := by
  induction hway generalizing value with
  | nil _ => exact ⟨value, .nil value, h⟩
  | cons hstep _ ih =>
      obtain ⟨inner, hinner, hprunes⟩ := h.step hstep
      obtain ⟨whole, hwhole, hpart⟩ := ih hprunes
      exact ⟨whole, .cons hinner hwhole, hpart⟩

end Prunes

/-! ## Encoders -/

namespace Encoding

/-- An encoder prunes a value. -/
def PrunesAt (e : Encoding Id) (value : Value) : Prop :=
  Prunes (e.encode value) value

variable {value : Value} {e left right : Encoding Id} {es : List (Encoding Id)}

theorem literalsOr_prunes (values : NonEmpty Literal) (h : e.PrunesAt value) :
    PrunesAt (literalsOr values e) value := by
  show Prunes (if _ then value else e.encode value) value
  split
  · exact .refl value
  · exact h

theorem encodeFields_prunes {members : Members} : ∀ {fields : Entries (Encoding Id)},
    (∀ field ∈ fields, ∀ key value, (key, value) ∈ members → field.2.PrunesAt value) →
    PrunesMembers (encodeFields (m := Id) members fields) members
  | [], _ => .nil members
  | (key, part) :: fields, h => by
      have hfields := encodeFields_prunes fun field hfield =>
        h field (List.mem_cons_of_mem _ hfield)
      rw [encodeFields]
      cases hget : Value.get? key members with
      | none => exact hfields
      | some value =>
          have hmem := Entries.mem_of_lookup hget
          exact .cons hmem (h (key, part) List.mem_cons_self key value hmem) hfields

theorem object_prunes (kind : FieldKind) {fields : Entries (Encoding Id)}
    (h : ∀ field ∈ fields, ∀ inner : Value, inner.depth < value.depth → field.2.PrunesAt inner) :
    PrunesAt (object kind fields) value := by
  cases value with
  | object members =>
      exact .object (encodeFields_prunes fun field hfield _ inner hmem =>
        h field hfield inner (Value.depth_lt_of_member hmem))
  | _ => exact .refl _

theorem encodeEntries_prunes {wholes : Members} : ∀ {members : Members},
    (∀ entry ∈ members, entry ∈ wholes ∧ e.PrunesAt entry.2) →
    PrunesMembers (encodeEntries (m := Id) e members) wholes
  | [], _ => .nil wholes
  | (key, value) :: members, h => by
      obtain ⟨hmem, hprunes⟩ := h (key, value) List.mem_cons_self
      exact .cons hmem hprunes
        (encodeEntries_prunes fun entry hentry => h entry (List.mem_cons_of_mem _ hentry))

theorem record_prunes (h : ∀ inner : Value, inner.depth < value.depth → e.PrunesAt inner) :
    PrunesAt (record e) value := by
  cases value with
  | object members =>
      exact .object (encodeEntries_prunes fun entry hentry =>
        ⟨hentry, h entry.2 (Value.depth_lt_of_member hentry)⟩)
  | _ => exact .refl _

theorem encodeAll_prunes : ∀ {values : List Value}, (∀ value ∈ values, e.PrunesAt value) →
    PrunesItems (encodeAll (m := Id) e values) values
  | [], _ => .nil []
  | value :: _, h =>
      .cons (h value List.mem_cons_self)
        (encodeAll_prunes fun value hvalue => h value (List.mem_cons_of_mem _ hvalue))

theorem array_prunes (h : ∀ inner : Value, inner.depth < value.depth → e.PrunesAt inner) :
    PrunesAt (array e) value := by
  cases value with
  | array values =>
      exact .array (encodeAll_prunes fun inner hinner => h inner (Value.depth_lt_of_item hinner))
  | _ => exact .refl _

theorem encodePlaces_prunes : ∀ {es : List (Encoding Id)} {values : List Value},
    (∀ e ∈ es, ∀ value ∈ values, e.PrunesAt value) →
    PrunesItems (encodePlaces (m := Id) es values) values
  | [], _, _ => .nil _
  | _ :: _, [], _ => .nil []
  | e :: _, value :: _, h =>
      .cons (h e List.mem_cons_self value List.mem_cons_self)
        (encodePlaces_prunes fun e he value hvalue =>
          h e (List.mem_cons_of_mem _ he) value (List.mem_cons_of_mem _ hvalue))

theorem tuple_prunes
    (h : ∀ e ∈ es, ∀ inner : Value, inner.depth < value.depth → e.PrunesAt inner) :
    PrunesAt (tuple es) value := by
  cases value with
  | array values =>
      exact .array (encodePlaces_prunes fun e he inner hinner =>
        h e he inner (Value.depth_lt_of_item hinner))
  | _ => exact .refl _

theorem sum_prunes (tag : String) {members : Entries (Encoding Id)}
    (h : ∀ member ∈ members, member.2.PrunesAt value) : PrunesAt (sum tag members) value := by
  cases hmember : Decoding.memberOf? tag members value with
  | none =>
      simp only [PrunesAt, sum, hmember]
      exact .refl value
  | some member =>
      obtain ⟨key, hmem⟩ := Decoding.mem_of_memberOf? hmember
      rw [PrunesAt, encode_sum hmember]
      exact h (key, member) hmem

/-- A union encodes by one of its members, or not at all where none accepts the value. -/
theorem encodeFirst_prunes : ∀ {es : List (Encoding Id)}, (∀ e ∈ es, e.PrunesAt value) →
    Prunes (encodeFirst (m := Id) value es) value
  | [], _ => .refl value
  | e :: es, h => by
      have hrest := encodeFirst_prunes fun e he => h e (List.mem_cons_of_mem _ he)
      cases haccepts : e.accepts value with
      | true =>
          rw [encodeFirst_of_accepts haccepts]
          exact h e List.mem_cons_self
      | false =>
          rw [encodeFirst_of_rejects haccepts]
          exact hrest

/-- Composites prune what they encode when their parts do. -/
theorem prunes_congruence (value : Value) :
    Congruence
      (fun (e _ : Encoding Id) => ∀ inner : Value, inner.depth < value.depth → e.PrunesAt inner)
      (fun (e _ : Encoding Id) => e.PrunesAt value) where
  literal _ := .refl value
  literals _ := .refl value
  literalsOr values {_ _} h := literalsOr_prunes values h
  primitive _ := .refl value
  object kind {_ _} _ h := object_prunes kind (forall_of_forall₂ (h.imp fun _ _ he => he.2))
  record {_ _} h := record_prunes h
  array {_ _} h := array_prunes h
  tuple {_ _} h := tuple_prunes (forall_of_forall₂ h)
  intersection {_ _ _ _} hleft hright := Prunes.merge hleft hright
  sum tag {_ _} _ h := sum_prunes tag (forall_of_forall₂ (h.imp fun _ _ he => he.2))
  union {_ _ _ _} h hs := encodeFirst_prunes (List.forall_mem_cons.2 ⟨h, forall_of_forall₂ hs⟩)
  readonly {_ _} h := h

end Encoding

/-! ## Documents -/

namespace Document

variable {document : Document}

/-- The definitions of a guarded document prune what they encode. -/
theorem fold_prunes (hguarded : document.Guarded) {definition : Definition}
    (hnames : ∀ name ∈ definition.references, name ∈ document.definitions.keys) (value : Value) :
    (definition.fold document.encoder).PrunesAt value :=
  fold_related hguarded (f := document.encoder) (g := document.encoder)
    (r := fun value e _ => e.PrunesAt value) Encoding.prunes_congruence
    (fun _ _ value hfind h => by
      rw [Encoding.PrunesAt, (encoder_of_find? hguarded hfind value).1]
      exact h)
    hnames value

/-- What a name decodes a value to, and what it encodes the value to, are prunings of it. -/
theorem name_prunes (hguarded : document.Guarded) {name : String}
    (hname : name ∈ document.definitions.keys) {value a : Value}
    (ha : (document.decoder name).decode value = .ok a ∨
      (document.encoder name).encode value = a) : Prunes a value := by
  have hnames : ∀ next ∈ (Definition.ref name).references, next ∈ document.definitions.keys := by
    simpa [Definition.references] using hname
  have hencode := fold_prunes hguarded hnames value
  rcases ha with ha | rfl
  · have hdecode : ((Definition.ref name).fold document.decoder).decode value = .ok a := by
      simpa only [Definition.fold] using ha
    rw [← fold_encode hguarded hnames hdecode]
    exact hencode
  · simpa only [Definition.fold, Encoding.PrunesAt] using hencode

variable {A : Type} [Artifact A] [LawfulArtifact A] {i : Interpretation A}

/-- **Decoding and encoding only prune.**  What a guarded document decodes a value to is a pruning
of the value, and so is what it encodes the value to, whether it accepts the value or not.  So its
kind is the same, and whatever is in it is a pruning of what was in that place. -/
theorem only_prunes (hguarded : document.Guarded) (hi : i.Used document) (value : Value) :
    ∃ outcome encoded i₁ i₂,
      i.decode document value = .ok (outcome, i₁) ∧
      i.encode document value = .ok (encoded, i₂) ∧
      ∀ a, outcome = .ok a ∨ encoded = a →
        Prunes a value ∧ (∀ kind : Primitive, kind.holds a = kind.holds value) ∧
          ∀ way part, Leads way a part → ∃ whole, Leads way value whole ∧ Prunes part whole := by
  obtain ⟨i₁, hdecode, _⟩ := hi.decode_answer hguarded value
  obtain ⟨i₂, hencode, _⟩ := hi.encode_answer hguarded value
  refine ⟨_, _, i₁, i₂, hdecode, hencode, fun a ha => ?_⟩
  have hprunes := name_prunes hguarded document.root_mem ha
  exact ⟨hprunes, hprunes.holds_eq, fun _ _ => hprunes.leads⟩

/-- A list of one node with a label, which nodes do not declare. -/
def labelledList : Value :=
  .object [("label", .string "first"), ("value", .number (.integer 1)), ("next", .null)]

/-- The label of a labelled list is left out in both directions, and nothing else is. -/
theorem linkedList_only_prunes :
    ∃ (a : Value) (i₁ i₂ : Interpretation Blueprint),
      a = .object [("value", .number (.integer 1)), ("next", .null)] ∧
      linkedList.interpret.decode linkedList labelledList = .ok (.ok a, i₁) ∧
      linkedList.interpret.encode linkedList labelledList = .ok (a, i₂) ∧
      Prunes a labelledList := by
  have hfresh : (linkedList.interpret (A := Blueprint)).Used linkedList := .fresh
  obtain ⟨_, hdecode, _⟩ := hfresh.decode_answer linkedList_guarded labelledList
  obtain ⟨_, hencode, _⟩ := hfresh.encode_answer linkedList_guarded labelledList
  obtain ⟨outcome, encoded, i₁, i₂, hdecode', hencode', hprunes⟩ :=
    only_prunes linkedList_guarded hfresh labelledList
  obtain ⟨rfl, _⟩ := Prod.mk.inj (Except.ok.inj (hdecode.symm.trans hdecode'))
  obtain ⟨rfl, _⟩ := Prod.mk.inj (Except.ok.inj (hencode.symm.trans hencode'))
  exact ⟨_, i₁, i₂, rfl, hdecode', hencode', (hprunes _ (.inl rfl)).1⟩

end Document

end Schemata
