import Schemata.Proofs.Correspondence

/-!
# Relations that all combinators respect

A congruence between readings is asked for definitions, whose fields have distinct keys and which
have no changes and no pairs of directions.  Artifacts are made with all combinators and in any
order; the relations between their readings respect all of them (`Compatible`).

**Results.**

* `Decoding.compatible`, `Encoding.compatible` and `Sourcing.compatible`: computations that
  correspond for all parts correspond for the whole.
* `Compatible.comap` and `Compatible.forall`: compatible relations go back along readings, and hold
  together.
-/

namespace Schemata

open Json (Value)

/-- A relation between vocabularies that every combinator respects, whatever the keys. -/
structure Compatible {A B : Type} [Vocabulary A] [Vocabulary B] (rel : A → B → Prop) : Prop where
  literal (value : Literal) : rel (Vocabulary.literal value) (Vocabulary.literal value)
  literals (values : NonEmpty Literal) :
    rel (Vocabulary.literals values) (Vocabulary.literals values)
  literalsOr (values : NonEmpty Literal) {a : A} {b : B} : rel a b →
    rel (Vocabulary.literalsOr values a) (Vocabulary.literalsOr values b)
  primitive (kind : Primitive) : rel (Vocabulary.primitive kind) (Vocabulary.primitive kind)
  object (kind : FieldKind) {xs : Entries A} {ys : Entries B} : List.Forall₂ (Keyed rel) xs ys →
    rel (Vocabulary.object kind xs) (Vocabulary.object kind ys)
  record {a : A} {b : B} : rel a b → rel (Vocabulary.record a) (Vocabulary.record b)
  array {a : A} {b : B} : rel a b → rel (Vocabulary.array a) (Vocabulary.array b)
  tuple {xs : List A} {ys : List B} : List.Forall₂ rel xs ys →
    rel (Vocabulary.tuple xs) (Vocabulary.tuple ys)
  intersection {a c : A} {b d : B} : rel a b → rel c d →
    rel (Vocabulary.intersection a c) (Vocabulary.intersection b d)
  sum (tag : String) {xs : Entries A} {ys : Entries B} : List.Forall₂ (Keyed rel) xs ys →
    rel (Vocabulary.sum tag xs) (Vocabulary.sum tag ys)
  union {a : A} {b : B} {xs : List A} {ys : List B} : rel a b → List.Forall₂ rel xs ys →
    rel (Vocabulary.union ⟨a, xs⟩) (Vocabulary.union ⟨b, ys⟩)
  readonly {a : A} {b : B} : rel a b → rel (Vocabulary.readonly a) (Vocabulary.readonly b)
  custom (change : Custom) {a : A} {b : B} : rel a b →
    rel (Vocabulary.custom change a) (Vocabulary.custom change b)
  pair {a c : A} {b d : B} : rel a b → rel c d →
    rel (Vocabulary.pair a c) (Vocabulary.pair b d)

/-- A relation that all combinators respect goes back along a function that respects them. -/
theorem Compatible.comap {A B C : Type} [Vocabulary A] [Vocabulary B] [Vocabulary C]
    {rel : B → C → Prop} (h : Compatible rel) {f : A → B} (hf : Respects f)
    (hcustom : ∀ change a, f (Vocabulary.custom change a) = Vocabulary.custom change (f a))
    (hpair : ∀ {a b c d}, rel (f a) c → rel (f b) d →
      rel (f (Vocabulary.pair a b)) (Vocabulary.pair c d)) :
    Compatible fun a c => rel (f a) c where
  literal value := by
    rw [hf.literal]
    exact h.literal value
  literals values := by
    rw [hf.literals]
    exact h.literals values
  literalsOr values {_ _} ha := by
    rw [hf.literalsOr]
    exact h.literalsOr values ha
  primitive kind := by
    rw [hf.primitive]
    exact h.primitive kind
  object kind {_ _} hxs := by
    rw [hf.object]
    exact h.object kind (List.forall₂_map_left_iff.2 hxs)
  record {_ _} ha := by
    rw [hf.record]
    exact h.record ha
  array {_ _} ha := by
    rw [hf.array]
    exact h.array ha
  tuple {_ _} hxs := by
    rw [hf.tuple]
    exact h.tuple (List.forall₂_map_left_iff.2 hxs)
  intersection {_ _ _ _} ha hb := by
    rw [hf.intersection]
    exact h.intersection ha hb
  sum tag {_ _} hxs := by
    rw [hf.sum]
    exact h.sum tag (List.forall₂_map_left_iff.2 hxs)
  union {_ _ _ _} ha hxs := by
    rw [hf.union]
    exact h.union ha (List.forall₂_map_left_iff.2 hxs)
  readonly {_ _} ha := by
    rw [hf.readonly]
    exact h.readonly ha
  custom change {_ _} ha := by
    rw [hcustom]
    exact h.custom change ha
  pair {_ _ _ _} ha hb := hpair ha hb

/-- Relations that all combinators respect hold together of wholes when they do of parts. -/
theorem Compatible.forall {ι : Sort*} {A B : Type} [Vocabulary A] [Vocabulary B]
    {rel : ι → A → B → Prop} (h : ∀ i, Compatible (rel i)) :
    Compatible fun a b => ∀ i, rel i a b where
  literal value i := (h i).literal value
  literals values i := (h i).literals values
  literalsOr values {_ _} ha i := (h i).literalsOr values (ha i)
  primitive kind i := (h i).primitive kind
  object kind {_ _} hxs i := (h i).object kind (hxs.imp fun _ _ hx => hx.imp fun _ _ hx => hx i)
  record {_ _} ha i := (h i).record (ha i)
  array {_ _} ha i := (h i).array (ha i)
  tuple {_ _} hxs i := (h i).tuple (hxs.imp fun _ _ hx => hx i)
  intersection {_ _ _ _} ha hb i := (h i).intersection (ha i) (hb i)
  sum tag {_ _} hxs i := (h i).sum tag (hxs.imp fun _ _ hx => hx.imp fun _ _ hx => hx i)
  union {_ _ _ _} ha hxs i := (h i).union (ha i) (hxs.imp fun _ _ hx => hx i)
  readonly {_ _} ha i := (h i).readonly (ha i)
  custom change {_ _} ha i := (h i).custom change (ha i)
  pair {_ _ _ _} ha hb i := (h i).pair (ha i) (hb i)

variable {m n : Type → Type} [Monad m] [Monad n] (R : Correspondence m n)

/-- Decoders that correspond on all values make such decoders. -/
theorem Decoding.compatible : Compatible (Decoding.RelOn R fun _ => True) where
  literal _ _ _ := R.pure _
  literals _ _ _ := R.pure _
  literalsOr values {_ _} h := (Decoding.congruence_all R).literalsOr values h
  primitive _ _ _ := R.pure _
  object kind {_ _} h value _ := by
    cases value with
    | object members =>
        exact R.bind (Decoding.fields_rel kind (fun _ _ _ => trivial) h) fun _ => R.pure _
    | _ => exact R.pure _
  record {_ _} h := (Decoding.congruence_all R).record h
  array {_ _} h := (Decoding.congruence_all R).array h
  tuple {_ _} h := (Decoding.congruence_all R).tuple h
  intersection {_ _ _ _} h h' := (Decoding.congruence_all R).intersection h h'
  sum _ {_ _} h value _ :=
    Decoding.sum_rel (h.imp fun _ _ hde => hde.imp fun _ _ hde => hde value trivial)
  union {_ _ _ _} h h' := (Decoding.congruence_all R).union h h'
  readonly {_ _} h := h
  custom _ {_ _} h value _ := R.bind (h value trivial) fun _ => R.pure _
  pair {_ _ _ _} h _ := h

/-- Encoders that correspond on all values make such encoders. -/
theorem Encoding.compatible : Compatible (Encoding.RelOn R fun _ => True) where
  literal _ _ _ := ⟨R.pure _, R.pure _⟩
  literals _ _ _ := ⟨R.pure _, R.pure _⟩
  literalsOr values {_ _} h := (Encoding.congruence_all R).literalsOr values h
  primitive _ _ _ := ⟨R.pure _, R.pure _⟩
  object kind {_ _} h value _ := by
    have hp {members : Json.Members} : ∀ key inner, Value.get? key members = some inner → True :=
      fun _ _ _ => trivial
    cases value with
    | object members =>
        exact ⟨R.bind (Encoding.encodeFields_rel hp h) fun _ => R.pure _,
          Encoding.acceptsFields_rel kind hp h⟩
    | _ => exact ⟨R.pure _, R.pure _⟩
  record {_ _} h := (Encoding.congruence_all R).record h
  array {_ _} h := (Encoding.congruence_all R).array h
  tuple {_ _} h := (Encoding.congruence_all R).tuple h
  intersection {_ _ _ _} h h' := (Encoding.congruence_all R).intersection h h'
  sum _ {_ _} h value _ :=
    Encoding.sum_rel (h.imp fun _ _ hde => hde.imp fun _ _ hde => hde value trivial)
  union {_ _ _ _} h h' := (Encoding.congruence_all R).union h h'
  readonly {_ _} h := h
  custom change {_ _} h value _ :=
    have hpart := h (Encoding.customValue value change) trivial
    ⟨hpart.1, Encoding.andAlso_rel hpart.2 (R.pure _)⟩
  pair {_ _ _ _} _ h := h

/-- Sources that correspond on a root identifier make such sources. -/
theorem Sourcing.compatible (root : String) :
    Compatible fun (d : Sourcing m) (e : Sourcing n) => R.rel (d.node root) (e.node root) where
  literal _ := R.pure _
  literals _ := R.pure _
  literalsOr values {_ _} h := (Sourcing.congruence R root).literalsOr values h
  primitive _ := R.pure _
  object kind {_ _} h := by
    cases kind with
    | required => exact R.bind (Sourcing.fields_rel h) fun _ => R.pure _
    | optional => exact R.bind (Sourcing.fields_rel h) fun _ => R.pure _
  record {_ _} h := (Sourcing.congruence R root).record h
  array {_ _} h := (Sourcing.congruence R root).array h
  tuple {_ _} h := (Sourcing.congruence R root).tuple h
  intersection {_ _ _ _} h h' := (Sourcing.congruence R root).intersection h h'
  sum _ {_ _} h := R.bind (Sourcing.fields_rel h) fun _ => R.pure _
  union {_ _ _ _} h h' := (Sourcing.congruence R root).union h h'
  readonly {_ _} h := (Sourcing.congruence R root).readonly h
  custom _ {_ _} h := h
  pair {_ _ _ _} h _ := h

end Schemata
