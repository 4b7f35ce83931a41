import Schemata.Proofs.Reordering

/-!
# Which schemas fix the order of keys

The order of the keys in what is decoded comes from the schema where objects are declared
field by field, and from the input where a record or an untyped array or object takes what
it is given (`KeyOrder`).

**Input.**  A guarded document, and two values that are equal up to the order of keys.

**Results.**

* `Decoding.follows_congruence`: composites decode both values to values that are equal up to
  the order of keys when their parts do, and to the same value if the order is fixed.
* `Document.name_follows` and `Document.name_alike`: so do the names of a document, and they
  encode both values to values that are equal up to the order of keys.
* `Document.key_order_irrelevant`: the order of keys in the input counts for nothing but the
  order of keys in the output, and not for that where the document fixes it.
-/

namespace Schemata

open Json (Value Members)

/-- Whether a schema fixes the order of the keys in what it decodes. -/
structure KeyOrder where
  fixed : Bool
deriving DecidableEq, Repr

/-- Records and untyped arrays and objects leave the order to the input. -/
instance : Vocabulary KeyOrder where
  literal _ := ⟨true⟩
  literals _ := ⟨true⟩
  literalsOr _ fallback := fallback
  primitive kind := ⟨kind != .array && kind != .object⟩
  object _ parts := ⟨parts.all fun part => part.2.fixed⟩
  record _ := ⟨false⟩
  array part := part
  tuple parts := ⟨parts.all fun part => part.fixed⟩
  intersection left right := ⟨left.fixed && right.fixed⟩
  sum _ parts := ⟨parts.all fun part => part.2.fixed⟩
  union parts := ⟨parts.toList.all fun part => part.fixed⟩
  readonly part := part
  custom _ part := part
  pair decoder _ := decoder

section Forall

variable {α β : Type} {p : α → Prop} {q : β → Prop} {xs : List α} {ys : List β}

/-- What holds of the right items where it does of the left ones holds of all of them if it does
of all left ones. -/
theorem forall_right_of_left (h : List.Forall₂ (fun x y => p x → q y) xs ys)
    (hxs : ∀ x ∈ xs, p x) : ∀ y ∈ ys, q y := by
  induction h with
  | nil => simp
  | cons hxy _ ih =>
      obtain ⟨hx, hxs⟩ := List.forall_mem_cons.1 hxs
      exact List.forall_mem_cons.2 ⟨hxy hx, ih hxs⟩

theorem forall_right (h : List.Forall₂ (fun (_ : α) y => q y) xs ys) : ∀ y ∈ ys, q y :=
  forall_of_forall₂ h.flip

end Forall

namespace Decoding

/-- A decoder carries over equality up to the order of keys, and equality itself where the
order is fixed. -/
structure Follows (value : Value) (order : KeyOrder) (d : Decoding Id) : Prop where
  reorders : d.Carries Reorders value
  same : order.fixed = true → d.Carries Eq value

theorem primitive_follows (value : Value) (kind : Primitive) :
    Follows value (Vocabulary.primitive kind) (Vocabulary.primitive kind) where
  reorders := test_carries _ (fun _ h => h.holds_eq kind) fun _ h _ => h
  same hfixed := by
    refine test_carries _ (fun _ h => h.holds_eq kind) fun _ h hholds => h.eq_of_isScalar ?_
    cases kind with
    | array => cases hfixed
    | object => cases hfixed
    | _ =>
        cases value with
        | array _ => cases hholds
        | object _ => cases hholds
        | _ => rfl

variable {value : Value}

/-- Decoders that follow orders on the values inside of a value, as `Carries` has it. -/
theorem Follows.inner {order : KeyOrder} {d : Decoding Id}
    (h : ∀ inner : Value, inner.depth < value.depth → Follows inner order d) :
    (∀ inner : Value, inner.depth < value.depth → d.Carries Reorders inner) ∧
      (order.fixed = true → ∀ inner : Value, inner.depth < value.depth → d.Carries Eq inner) :=
  ⟨fun inner hinner => (h inner hinner).reorders,
    fun hfixed inner hinner => (h inner hinner).same hfixed⟩

/-- **Composites follow the orders of their parts.** -/
theorem follows_congruence (value : Value) :
    Congruence
      (fun order d => ∀ inner : Value, inner.depth < value.depth → Follows inner order d)
      (Follows value) where
  literal literal :=
    ⟨literals_carries carried_reorders _, fun _ => literals_carries carried_eq _⟩
  literals values :=
    ⟨literals_carries carried_reorders _, fun _ => literals_carries carried_eq _⟩
  literalsOr values {_ _} h :=
    ⟨literalsOr_carries carried_reorders values h.reorders,
      fun hfixed => literalsOr_carries carried_eq values (h.same hfixed)⟩
  primitive kind := primitive_follows value kind
  object kind {xs ys} hnodup h := by
    have hkeys : ys.keys.Nodup := Entries.keys_eq_of_forall₂ h ▸ hnodup
    constructor
    · have hparts := h.imp fun _ _ hxy => (Follows.inner hxy.2).1
      exact object_carries carried_reorders kind hkeys (forall_right hparts)
    · intro hfixed
      have hparts := h.imp fun _ _ hxy => (Follows.inner hxy.2).2
      exact object_carries carried_eq kind hkeys
        (forall_right_of_left hparts (List.all_eq_true.1 hfixed))
  record {_ _} h := ⟨record_carries (Follows.inner h).1, nofun⟩
  array {_ _} h :=
    ⟨array_carries carried_reorders (Follows.inner h).1,
      fun hfixed => array_carries carried_eq ((Follows.inner h).2 hfixed)⟩
  tuple {xs ys} h := by
    constructor
    · have hparts := h.imp fun _ _ hxy => (Follows.inner hxy).1
      exact tuple_carries carried_reorders (forall_right hparts)
    · intro hfixed
      have hparts := h.imp fun _ _ hxy => (Follows.inner hxy).2
      exact tuple_carries carried_eq (forall_right_of_left hparts (List.all_eq_true.1 hfixed))
  intersection {_ _ _ _} hleft hright := by
    refine ⟨intersection_carries carried_reorders hleft.reorders hright.reorders, fun hfixed => ?_⟩
    obtain ⟨hl, hr⟩ := Bool.and_eq_true_iff.1 hfixed
    exact intersection_carries carried_eq (hleft.same hl) (hright.same hr)
  sum tag {xs ys} _ h := by
    constructor
    · have hparts := h.imp fun _ _ hxy => hxy.2.reorders
      exact sum_carries tag (forall_right hparts)
    · intro hfixed
      have hparts := h.imp fun _ _ hxy => hxy.2.same
      exact sum_carries tag (forall_right_of_left hparts (List.all_eq_true.1 hfixed))
  union {a b xs ys} h hs := by
    have hall : List.Forall₂ (Follows value) (a :: xs) (b :: ys) := .cons h hs
    constructor
    · have hparts := hall.imp fun _ _ hxy => hxy.reorders
      exact fun _ hother => firstOf_carries hother 0 (forall_right hparts)
    · intro hfixed
      have hparts := hall.imp fun _ _ hxy => hxy.same
      exact fun _ hother => firstOf_carries hother 0
        (forall_right_of_left hparts (List.all_eq_true.1 hfixed))
  readonly {_ _} h := h

end Decoding

/-! ## Documents -/

namespace Document

variable {document : Document}

/-- No definition uses a record, an untyped array or an untyped object. -/
def FixesOrder (document : Document) : Prop :=
  ∀ entry ∈ document.definitions, (entry.2.fold fun _ => (⟨true⟩ : KeyOrder)).fixed = true

/-- A name decodes two values that are equal up to the order of keys to such values, and to
the same value if the document fixes the order. -/
theorem name_follows (hguarded : document.Guarded) {fixes : Bool}
    (hfixes : fixes = true → document.FixesOrder) {name : String}
    (hname : name ∈ document.definitions.keys) (value : Value) :
    Decoding.Follows value ⟨fixes⟩ (document.decoder name) := by
  have hnames : ∀ next ∈ (Definition.ref name).references, next ∈ document.definitions.keys := by
    simpa [Definition.references] using hname
  have hfold := fold_related hguarded (f := fun _ => (⟨fixes⟩ : KeyOrder)) (g := document.decoder)
    (r := Decoding.Follows) Decoding.follows_congruence ?_ hnames value
  · simpa only [Definition.fold] using hfold
  intro name definition value hfind h
  have hunder {s : Value → Value → Prop} (hd : (definition.fold document.decoder).Carries s value) :
      (document.decoder name).Carries s value := by
    intro other hother
    rw [decoder_of_find? hguarded hfind, decoder_of_find? hguarded hfind]
    exact (hd hother).under _ _
  refine ⟨hunder h.reorders, fun hfixed => hunder (h.same ?_)⟩
  obtain rfl : fixes = true := hfixed
  exact hfixes rfl (name, definition) (Entries.mem_of_lookup hfind)

/-- A name encodes two values that are equal up to the order of keys to such values, and
accepts both or none. -/
theorem name_alike (hguarded : document.Guarded) {name : String}
    (hname : name ∈ document.definitions.keys) (value : Value) :
    (document.encoder name).Alike value := by
  have hnames : ∀ next ∈ (Definition.ref name).references, next ∈ document.definitions.keys := by
    simpa [Definition.references] using hname
  have hfold := fold_related hguarded (f := document.encoder) (g := document.encoder)
    (r := fun value e _ => e.Alike value) Encoding.reorders_congruence ?_ hnames value
  · simpa only [Definition.fold] using hfold
  intro name definition value hfind h other hother
  have hvalue := encoder_of_find? hguarded hfind value
  have hother' := encoder_of_find? hguarded hfind other
  rw [hvalue.1, hvalue.2, hother'.1, hother'.2]
  exact h hother

variable {A : Type} [Artifact A] [LawfulArtifact A] {i j : Interpretation A}

/-- **The order of keys in the input does not count.**  Of two values that are equal up to the
order of keys, used interpretations of a guarded document decode both or none, to values that
are equal up to the order of keys, or to the same value if the document fixes the order; they
accept both or none, and encode them to values that are equal up to the order of keys. -/
theorem key_order_irrelevant (hguarded : document.Guarded) (hi : i.Used document)
    (hj : j.Used document) {value other : Value} (h : Reorders value other) :
    ∃ outcome outcome' encoded encoded' accepted i₁ i₂ i₃ j₁ j₂ j₃,
      (i.decode document value = .ok (outcome, i₁) ∧
        j.decode document other = .ok (outcome', j₁) ∧
        Outcome.Rel Reorders outcome outcome' ∧
        (document.FixesOrder → Outcome.Rel Eq outcome outcome')) ∧
      (i.accepts document value = .ok (accepted, i₂) ∧
        j.accepts document other = .ok (accepted, j₂)) ∧
      i.encode document value = .ok (encoded, i₃) ∧
        j.encode document other = .ok (encoded', j₃) ∧ Reorders encoded encoded' := by
  obtain ⟨i₁, hdecode, _⟩ := hi.decode_answer hguarded value
  obtain ⟨j₁, hdecode', _⟩ := hj.decode_answer hguarded other
  obtain ⟨i₂, haccepts, _⟩ := hi.accepts_answer hguarded value
  obtain ⟨j₂, haccepts', _⟩ := hj.accepts_answer hguarded other
  obtain ⟨i₃, hencode, _⟩ := hi.encode_answer hguarded value
  obtain ⟨j₃, hencode', _⟩ := hj.encode_answer hguarded other
  obtain ⟨hencoded, haccepted⟩ := name_alike hguarded document.root_mem value h
  rw [← haccepted] at haccepts'
  have hfollows (fixes : Bool) (hfixes : fixes = true → document.FixesOrder) :=
    name_follows hguarded hfixes document.root_mem value
  refine ⟨_, _, _, _, _, i₁, i₂, i₃, j₁, j₂, j₃,
    ⟨hdecode, hdecode', ?_, fun hfixes => ?_⟩, ⟨haccepts, haccepts'⟩,
    hencode, hencode', hencoded⟩
  · exact (hfollows false nofun).reorders h
  · exact (hfollows true fun _ => hfixes).same rfl h

theorem linkedList_fixesOrder : linkedList.FixesOrder := by
  simp only [FixesOrder, linkedList, List.forall_mem_cons]
  exact ⟨rfl, rfl, List.forall_mem_nil _⟩

/-- A list of two nodes, the first of which has a label. -/
def valueFirst : Value :=
  .object [("value", .number (.integer 1)), ("label", .string "first"),
    ("next", .object [("value", .number (.integer 2)), ("next", .null)])]

/-- The same list, with the keys of both nodes in another order. -/
def nextFirst : Value :=
  .object [("label", .string "first"),
    ("next", .object [("next", .null), ("value", .number (.integer 2))]),
    ("value", .number (.integer 1))]

theorem valueFirst_reorders : Reorders valueFirst nextFirst := by
  have hnext : Reorders
      (.object [("value", .number (.integer 2)), ("next", .null)])
      (.object [("next", .null), ("value", .number (.integer 2))]) :=
    .object (by decide) rfl (.cons (.scalar rfl) (.cons (.scalar rfl) .nil)) (.swap _ _ _)
  let label : Members := [("label", .string "first"),
    ("next", .object [("next", .null), ("value", .number (.integer 2))])]
  have hperm : (("value", .number (.integer 1)) :: label).Perm
      (label ++ [("value", .number (.integer 1))]) := (List.perm_append_singleton _ _).symm
  refine .object (by decide) ?_ ?_ hperm
  · rfl
  · exact .cons (.scalar rfl) (.cons (.scalar rfl) (.cons hnext .nil))

/-- Both lists decode to the same, with the keys in the order of their declaration. -/
theorem linkedList_key_order_irrelevant :
    ∃ i j : Interpretation Blueprint,
      linkedList.interpret.decode linkedList valueFirst = .ok (.ok (.object
        [("value", .number (.integer 1)),
          ("next", .object [("value", .number (.integer 2)), ("next", .null)])]), i) ∧
      linkedList.interpret.decode linkedList nextFirst = .ok (.ok (.object
        [("value", .number (.integer 1)),
          ("next", .object [("value", .number (.integer 2)), ("next", .null)])]), j) := by
  have hfresh : (linkedList.interpret (A := Blueprint)).Used linkedList := .fresh
  obtain ⟨_, hdecode, _⟩ := hfresh.decode_answer linkedList_guarded valueFirst
  obtain ⟨outcome, outcome', _, _, _, i, _, _, j, _, _, ⟨hfirst, hsecond, _, hsame⟩, _⟩ :=
    key_order_irrelevant linkedList_guarded hfresh hfresh valueFirst_reorders
  obtain ⟨rfl, _⟩ := Prod.mk.inj (Except.ok.inj (hdecode.symm.trans hfirst))
  cases hsame linkedList_fixesOrder with
  | ok heq => exact ⟨i, j, hfirst, heq ▸ hsecond⟩

end Document
end Schemata
