import Schemata.Proofs.Agreement

/-!
# Answers without a depth

A guarded document has an answer for every value, so its names mean decoders and
encoders that nothing bounds: they nest references as deep as the value needs.

**Input.**  A guarded document, and definitions over its names.

**Results.**

* `Document.fold_decoder` and `Document.fold_encoder`: at every depth that is enough a
  definition answers what it answers without one.
* `Document.decoder_of_find?` and `Document.encoder_of_find?`: a name is the reading of
  its definition.
* `Document.guarded_induction` and `Document.fold_related`: what is kept from the values
  inside of a value, and along bare references, holds of all names and definitions.
* `Document.fold_encode_scalar` and `Document.eq_of_decode_scalar`: a scalar is encoded and
  decoded to nothing but itself.
* `Interpretation.Used.decode_answer` and its companions: used interpretations give these
  answers, whatever their artifacts are.
* `Document.codec_halves`: a codec decodes as a decoder does, and encodes and accepts as an
  encoder does.
-/

namespace Schemata

open Json (Value)

namespace Document

/-- Decoding by a name, with references nested as deep as the value needs. -/
def decoder (document : Document) (name : String) : Decoding Id where
  decode value :=
    ((document.decoding (document.callDepth value) name).decode value).getD
      (.error DecodeError.missing)

/-- Encoding by a name, with references nested as deep as the value needs. -/
def encoder (document : Document) (name : String) : Encoding Id where
  encode value := ((document.encoding (document.callDepth value) name).encode value).getD value
  accepts value := ((document.encoding (document.callDepth value) name).accepts value).getD false

/-- A computation that has an answer, beside the answer. -/
def answers : Correspondence Option Id where
  rel x a := x = some a.run
  pure _ := rfl
  bind {_ _ _ _ _ _} hxy hfg := by
    rw [hxy]
    exact hfg _

variable {document : Document}

theorem mem_keys_of_find? {name : String} {definition : Definition}
    (hfind : document.find? name = some definition) : name ∈ document.definitions.keys :=
  List.mem_map.2 ⟨(name, definition), Entries.mem_of_lookup hfind, rfl⟩

/-! ## Depths that are enough -/

theorem decoding_eq (hguarded : document.Guarded) {name : String}
    (hname : name ∈ document.definitions.keys) {value : Value} {depth : Nat}
    (hdepth : document.callDepth value ≤ depth) :
    (document.decoding depth name).decode value = some ((document.decoder name).decode value) := by
  have hcost := document.cost_le_callDepth name value
  obtain ⟨outcome, h, h'⟩ := decoding_ends hguarded depth (document.callDepth value) name value
    hname (hcost.trans hdepth) hcost
  simp only [decoder, h, h', Option.getD_some]

theorem encoding_eq (hguarded : document.Guarded) {name : String}
    (hname : name ∈ document.definitions.keys) {value : Value} {depth : Nat}
    (hdepth : document.callDepth value ≤ depth) :
    (document.encoding depth name).encode value = some ((document.encoder name).encode value) ∧
      (document.encoding depth name).accepts value =
        some ((document.encoder name).accepts value) := by
  have hcost := document.cost_le_callDepth name value
  obtain ⟨⟨encoded, h, h'⟩, accepted, g, g'⟩ := encoding_ends hguarded depth
    (document.callDepth value) name value hname (hcost.trans hdepth) hcost
  constructor
  · simp only [encoder, h, h', Option.getD_some]
  · simp only [encoder, g, g', Option.getD_some]

variable {definition : Definition}

/-- At every depth that is enough, a definition decodes a value as it does without one. -/
theorem fold_decoder (hguarded : document.Guarded)
    (hnames : ∀ name ∈ definition.references, name ∈ document.definitions.keys) {value : Value}
    {depth : Nat} (hdepth : document.callDepth value ≤ depth) :
    (definition.fold (document.decoding depth)).decode value =
      some ((definition.fold document.decoder).decode value) := by
  have hends : Decoding.RelOn answers (fun inner => inner.depth ≤ value.depth)
      (definition.fold (document.decoding depth)) (definition.fold document.decoder) :=
    definition.fold_rel (Decoding.congruence_on answers fun _ _ hv hw => by omega)
      fun name hname inner hinner =>
        decoding_eq hguarded (hnames name hname)
          ((document.callDepth_le_of_depth_le hinner).trans hdepth)
  exact hends value (Nat.le_refl _)

/-- At every depth that is enough, a definition encodes and accepts a value as it does
without one. -/
theorem fold_encoder (hguarded : document.Guarded)
    (hnames : ∀ name ∈ definition.references, name ∈ document.definitions.keys) {value : Value}
    {depth : Nat} (hdepth : document.callDepth value ≤ depth) :
    (definition.fold (document.encoding depth)).encode value =
        some ((definition.fold document.encoder).encode value) ∧
      (definition.fold (document.encoding depth)).accepts value =
        some ((definition.fold document.encoder).accepts value) := by
  have hends : Encoding.RelOn answers (fun inner => inner.depth ≤ value.depth)
      (definition.fold (document.encoding depth)) (definition.fold document.encoder) :=
    definition.fold_rel (Encoding.congruence_on answers fun _ _ hv hw => by omega)
      fun name hname inner hinner =>
        encoding_eq hguarded (hnames name hname)
          ((document.callDepth_le_of_depth_le hinner).trans hdepth)
  exact hends value (Nat.le_refl _)

/-- A name decodes as its definition does, and its failures are put under it. -/
theorem decoder_of_find? (hguarded : document.Guarded) {name : String}
    (hfind : document.find? name = some definition) (value : Value) :
    (document.decoder name).decode value =
      Outcome.under (.lazy name) ((definition.fold document.decoder).decode value) := by
  have hname := decoding_eq hguarded (mem_keys_of_find? hfind)
    (Nat.le_succ (document.callDepth value))
  rw [decoding_succ hfind, fold_decoder hguarded (fun _ => mem_keys_of_reference hfind)
    (Nat.le_refl _)] at hname
  exact (Option.some.inj hname).symm

/-- A name encodes and accepts as its definition does. -/
theorem encoder_of_find? (hguarded : document.Guarded) {name : String}
    (hfind : document.find? name = some definition) (value : Value) :
    (document.encoder name).encode value = (definition.fold document.encoder).encode value ∧
      (document.encoder name).accepts value =
        (definition.fold document.encoder).accepts value := by
  have hname := encoding_eq hguarded (mem_keys_of_find? hfind)
    (Nat.le_succ (document.callDepth value))
  have hfold := fold_encoder hguarded (fun _ => mem_keys_of_reference hfind)
    (Nat.le_refl (document.callDepth value))
  rw [encoding_succ hfind] at hname
  exact ⟨Option.some.inj (hname.1.symm.trans hfold.1), Option.some.inj (hname.2.symm.trans hfold.2)⟩

/-! ## Both directions -/

/-- The guard of a definition holds of the values that the definition decodes. -/
theorem fold_accepts (hguarded : document.Guarded)
    (hnames : ∀ name ∈ definition.references, name ∈ document.definitions.keys) (value : Value) :
    (definition.fold document.encoder).accepts value =
      Except.isOk ((definition.fold document.decoder).decode value) := by
  have hdepth := Nat.le_refl (document.callDepth value)
  exact (fold_agrees (document.callDepth value) definition value).isOk
    (fold_decoder hguarded hnames hdepth) (fold_encoder hguarded hnames hdepth).2

/-- A value that decodes is encoded to what it decodes to. -/
theorem fold_encode (hguarded : document.Guarded)
    (hnames : ∀ name ∈ definition.references, name ∈ document.definitions.keys) {value a : Value}
    (h : (definition.fold document.decoder).decode value = .ok a) :
    (definition.fold document.encoder).encode value = a := by
  have hdepth := Nat.le_refl (document.callDepth value)
  have hdecode := fold_decoder hguarded hnames hdepth
  rw [h] at hdecode
  exact (fold_agrees (document.callDepth value) definition value).value hdecode
    (fold_encoder hguarded hnames hdepth).1

/-! ## Induction -/

/-- What a name inherits on a value, from all names on the values inside of it and from
bare references on the value itself, holds of every name on every value. -/
theorem guarded_induction (hguarded : document.Guarded) {p : String → Value → Prop}
    (hstep : ∀ name definition value, document.find? name = some definition →
      (∀ next ∈ definition.references, ∀ inner : Value, inner.depth < value.depth →
        p next inner) →
      (∀ next ∈ definition.bareReferences, p next value) → p name value)
    (name : String) (value : Value) (hname : name ∈ document.definitions.keys) :
    p name value := by
  obtain ⟨definition, hfind⟩ := document.exists_find? hname
  refine hstep name definition value hfind ?_ ?_
  · intro next hnext inner hinner
    have := document.cost_lt_of_depth_lt name next hinner
    exact guarded_induction hguarded hstep next inner (mem_keys_of_reference hfind hnext)
  · intro next hnext
    have := cost_lt_of_bare hguarded hfind hnext value
    exact guarded_induction hguarded hstep next value
      (mem_keys_of_reference hfind (Definition.mem_references_of_bare hnext))
termination_by document.cost name value

variable {A B : Type} [Vocabulary A] [Vocabulary B]

/-- Two readings of a definition are related on a value where combinators relate wholes by
their parts and names are related as their definitions are. -/
theorem fold_related (hguarded : document.Guarded) {r : Value → A → B → Prop}
    (hr : ∀ value,
      Congruence (fun a b => ∀ inner : Value, inner.depth < value.depth → r inner a b) (r value))
    {f : String → A} {g : String → B}
    (hstep : ∀ name definition value, document.find? name = some definition →
      r value (definition.fold f) (definition.fold g) → r value (f name) (g name))
    (hnames : ∀ name ∈ definition.references, name ∈ document.definitions.keys) (value : Value) :
    r value (definition.fold f) (definition.fold g) := by
  have hbelow (value : Value) :
      Congruence (fun a b => ∀ inner : Value, inner.depth < value.depth → r inner a b)
        (fun a b => ∀ inner : Value, inner.depth < value.depth → r inner a b) :=
    .forall_below hr fun _ _ hv hw => Nat.lt_trans hw hv
  have hname := guarded_induction hguarded (p := fun name value => r value (f name) (g name))
    fun name definition value hfind hinner hbare =>
      hstep name definition value hfind
        (definition.fold_outer (hbelow value) (hr value) hinner hbare)
  exact definition.fold_outer (hbelow value) (hr value)
    (fun next hnext inner _ => hname next inner (hnames next hnext))
    fun next hnext => hname next value (hnames next (Definition.mem_references_of_bare hnext))

end Document

/-! ## Scalars -/

/-- A value without parts. -/
def Json.Value.isScalar : Value → Bool
  | .array _ => false
  | .object _ => false
  | _ => true

namespace Encoding

section Union

variable {value : Value} {e : Encoding Id}

theorem encodeFirst_of_accepts (h : e.accepts value = true) (es : List (Encoding Id)) :
    encodeFirst value (e :: es) = e.encode value := by
  rw [encodeFirst, h]
  rfl

theorem encodeFirst_of_rejects (h : e.accepts value = false) (es : List (Encoding Id)) :
    encodeFirst value (e :: es) = encodeFirst value es := by
  rw [encodeFirst, h]
  rfl

theorem acceptsAny_cons (value : Value) (e : Encoding Id) (es : List (Encoding Id)) :
    acceptsAny value (e :: es) = (e.accepts value || acceptsAny (m := Id) value es : Bool) := by
  show orElse (m := Id) (e.accepts value) (acceptsAny (m := Id) value es) = _
  generalize (e.accepts value : Bool) = accepted
  cases accepted <;> rfl

end Union

theorem encodeFirst_scalar {value : Value} (hscalar : value.isScalar = true)
    {es es' : List (Encoding Id)}
    (h : List.Forall₂ (fun e _ => value.isScalar = true → e.encode value = value) es es') :
    encodeFirst value es = value := by
  induction h with
  | nil => rfl
  | @cons e _ es _ h _ ih =>
      cases haccepts : e.accepts value with
      | true => exact (encodeFirst_of_accepts haccepts es).trans (h hscalar)
      | false => exact (encodeFirst_of_rejects haccepts es).trans ih

/-- Composites encode a scalar to itself when their parts do. -/
theorem scalar_congruence {inner : Encoding Id → Encoding Id → Prop} (value : Value) :
    Congruence inner
      (fun e (_ : Encoding Id) => value.isScalar = true → e.encode value = value) where
  literal _ _ := rfl
  literals _ _ := rfl
  literalsOr values {e _} h hscalar := by
    show (if _ then value else e.encode value) = value
    rw [h hscalar, ite_self]
  primitive _ _ := rfl
  object _ {_ _} _ _ hscalar := by
    cases value with
    | object _ => cases hscalar
    | _ => rfl
  record {_ _} _ hscalar := by
    cases value with
    | object _ => cases hscalar
    | _ => rfl
  array {_ _} _ hscalar := by
    cases value with
    | array _ => cases hscalar
    | _ => rfl
  tuple {_ _} _ hscalar := by
    cases value with
    | array _ => cases hscalar
    | _ => rfl
  intersection {d e _ _} hleft hright hscalar := by
    show merge (d.encode value) (e.encode value) = value
    rw [hleft hscalar, hright hscalar]
    cases value with
    | object _ => cases hscalar
    | _ => rfl
  sum _ {_ _} _ _ hscalar := by
    cases value with
    | object _ => cases hscalar
    | _ => rfl
  union {d e ds es} h hs hscalar :=
    encodeFirst_scalar hscalar (List.Forall₂.cons (a := d) (b := e) h hs)
  readonly {_ _} h hscalar := h hscalar

end Encoding

namespace Document

variable {document : Document} {definition : Definition}

/-- A scalar is encoded to itself. -/
theorem fold_encode_scalar (hguarded : document.Guarded)
    (hnames : ∀ name ∈ definition.references, name ∈ document.definitions.keys) {value : Value}
    (hscalar : value.isScalar = true) :
    (definition.fold document.encoder).encode value = value :=
  fold_related hguarded (f := document.encoder) (g := document.encoder)
    (r := fun value e _ => value.isScalar = true → e.encode value = value)
    (fun value => Encoding.scalar_congruence value)
    (fun _ _ value hfind h hscalar =>
      (encoder_of_find? hguarded hfind value).1.trans (h hscalar)) hnames value hscalar

/-- A scalar decodes to nothing but itself. -/
theorem eq_of_decode_scalar (hguarded : document.Guarded)
    (hnames : ∀ name ∈ definition.references, name ∈ document.definitions.keys) {value a : Value}
    (hscalar : value.isScalar = true)
    (h : (definition.fold document.decoder).decode value = .ok a) : a = value := by
  rw [← fold_encode hguarded hnames h, fold_encode_scalar hguarded hnames hscalar]

end Document

/-! ## Interpretations -/

namespace Interpretation.Used

variable {A : Type} [Artifact A] [LawfulArtifact A] {document : Document} {i : Interpretation A}

/-- A used interpretation decodes a value as the root does. -/
theorem decode_answer (hguarded : document.Guarded) (hi : i.Used document) (value : Value) :
    ∃ i', i.decode document value = .ok ((document.decoder document.root).decode value, i') ∧
      i'.Used document := by
  have hroot := Document.decoding_eq hguarded document.root_mem
    (Nat.le_refl (document.callDepth value))
  obtain ⟨_, hrun, _⟩ := (hi.serves hguarded).decode_runs hroot
  have hdecode : i.decode document value = _ := after_eq hrun
  exact ⟨_, hdecode, hi.decode hdecode⟩

/-- A used interpretation encodes a value as the root does. -/
theorem encode_answer (hguarded : document.Guarded) (hi : i.Used document) (value : Value) :
    ∃ i', i.encode document value = .ok ((document.encoder document.root).encode value, i') ∧
      i'.Used document := by
  have hroot := Document.encoding_eq hguarded document.root_mem
    (Nat.le_refl (document.callDepth value))
  obtain ⟨_, hrun, _⟩ := (hi.serves hguarded).encode_runs hroot.1
  have hencode : i.encode document value = _ := after_eq hrun
  exact ⟨_, hencode, hi.encode hencode⟩

/-- A used interpretation accepts a value as the root does. -/
theorem accepts_answer (hguarded : document.Guarded) (hi : i.Used document) (value : Value) :
    ∃ i', i.accepts document value = .ok ((document.encoder document.root).accepts value, i') ∧
      i'.Used document := by
  have hroot := Document.encoding_eq hguarded document.root_mem
    (Nat.le_refl (document.callDepth value))
  obtain ⟨_, hrun, _⟩ := (hi.serves hguarded).accepts_runs hroot.2
  have haccepts : i.accepts document value = _ := after_eq hrun
  exact ⟨_, haccepts, hi.accepts haccepts⟩

end Interpretation.Used

/-! ## The halves of a codec -/

namespace Document

variable {document : Document}

/-- **A codec is its two halves.**  Whatever they have been used for, a codec of a guarded
document decodes a value as a decoder of it does, with the same failure, and encodes and
accepts it as an encoder does. -/
theorem codec_halves (hguarded : document.Guarded) {codec : Interpretation Codec}
    {decoder encoder : Interpretation Blueprint} (hcodec : codec.Used document)
    (hdecoder : decoder.Used document) (hencoder : encoder.Used document) (value : Value) :
    ∃ outcome encoded accepted,
      (∃ c d, codec.decode document value = .ok (outcome, c) ∧
        decoder.decode document value = .ok (outcome, d)) ∧
      (∃ c e, codec.encode document value = .ok (encoded, c) ∧
        encoder.encode document value = .ok (encoded, e)) ∧
      (∃ c e, codec.accepts document value = .ok (accepted, c) ∧
        encoder.accepts document value = .ok (accepted, e)) := by
  obtain ⟨c₁, hdecode, _⟩ := hcodec.decode_answer hguarded value
  obtain ⟨c₂, hencode, _⟩ := hcodec.encode_answer hguarded value
  obtain ⟨c₃, haccept, _⟩ := hcodec.accepts_answer hguarded value
  obtain ⟨d, hdecode', _⟩ := hdecoder.decode_answer hguarded value
  obtain ⟨e₂, hencode', _⟩ := hencoder.encode_answer hguarded value
  obtain ⟨e₃, haccept', _⟩ := hencoder.accepts_answer hguarded value
  exact ⟨_, _, _, ⟨c₁, d, hdecode, hdecode'⟩, ⟨c₂, e₂, hencode, hencode'⟩,
    ⟨c₃, e₃, haccept, haccept'⟩⟩

/-- A list of two nodes, the second of which holds a text. -/
def brokenList : Value :=
  .object [("value", .number (.integer 1)),
    ("next", .object [("value", .string "two"), ("next", .null)])]

/-- A codec that has decoded the empty list fails on a broken list as a fresh decoder does,
under each list and node on the way. -/
theorem linkedList_codec_halves :
    ∃ (codec c c' : Interpretation Codec) (d e : Interpretation Blueprint),
      let error : DecodeError := .under (.lazy "List") (.under (.lazy "Node")
        (.under (.key "next" .required) (.under (.lazy "List") (.under (.lazy "Node")
          (.under (.key "value" .required) (.leaf (.string "two") "number"))))))
      linkedList.interpret.decode linkedList .null = .ok (.ok .null, codec) ∧
      codec.decode linkedList brokenList = .ok (.error error, c) ∧
      linkedList.interpret.decode linkedList brokenList = .ok (.error error, d) ∧
      codec.accepts linkedList brokenList = .ok (false, c') ∧
      linkedList.interpret.accepts linkedList brokenList = .ok (false, e) := by
  have hfresh : (linkedList.interpret (A := Blueprint)).Used linkedList := .fresh
  obtain ⟨codec, hnull, hused⟩ := (Interpretation.Used.fresh (A := Codec)).decode_answer
    linkedList_guarded .null
  obtain ⟨_, _, _, ⟨c, d, hc, hd⟩, _, c', e, hc', he⟩ :=
    codec_halves linkedList_guarded hused hfresh hfresh brokenList
  obtain ⟨_, hdecode, _⟩ := hfresh.decode_answer linkedList_guarded brokenList
  obtain ⟨_, haccept, _⟩ := hfresh.accepts_answer linkedList_guarded brokenList
  obtain ⟨rfl, _⟩ := Prod.mk.inj (Except.ok.inj (hd.symm.trans hdecode))
  obtain ⟨rfl, _⟩ := Prod.mk.inj (Except.ok.inj (he.symm.trans haccept))
  exact ⟨codec, c, c', d, e, hnull, hc, hd, hc', he⟩

end Document

end Schemata
