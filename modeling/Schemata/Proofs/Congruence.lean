import Mathlib.Data.List.Forall2
import Schemata.Blueprint
import Schemata.Document.Guarded
import Schemata.Schema

/-!
# Congruences between readings of schemas

A relation between two vocabularies is a congruence when combinators take related
parts to related wholes.  A part can be used on the very value that the whole is
used on, or only on values inside of it; a congruence has one relation for parts of
the second kind (`inner`) and one for the others and for wholes (`outer`).  Fields and
members have distinct keys.

**Results.**

* `Definition.fold_rel`: two readings of a definition are related when the meanings
  of its references are.
* `Definition.fold_outer`: at the outer relation only bare references have to be.
* `Congruence.comap`: congruences go back along readings, functions that respect
  the combinators (`Respects`); the readings of artifacts do (`LawfulArtifact`).
* `Congruence.Least`: the least congruence among those that relate given pairs.
-/

namespace Schemata

/-! ## Entries side by side -/

/-- Two entries of one key with related values. -/
def Keyed {α β : Type} (rel : α → β → Prop) (x : String × α) (y : String × β) : Prop :=
  x.1 = y.1 ∧ rel x.2 y.2

theorem Keyed.imp {α β : Type} {rel rel' : α → β → Prop} (h : ∀ a b, rel a b → rel' a b)
    {x : String × α} {y : String × β} (hxy : Keyed rel x y) : Keyed rel' x y :=
  ⟨hxy.1, h _ _ hxy.2⟩

/-- What holds of each left item beside a right one holds of all left items. -/
theorem forall_of_forall₂ {α β : Type} {p : α → Prop} {as : List α} {bs : List β}
    (h : List.Forall₂ (fun a _ => p a) as bs) : ∀ a ∈ as, p a := by
  induction h with
  | nil => simp
  | cons ha _ ih => exact List.forall_mem_cons.2 ⟨ha, ih⟩

namespace Entries

variable {α β : Type} {rel : α → β → Prop}

theorem keys_eq_of_forall₂ {xs : Entries α} {ys : Entries β}
    (h : List.Forall₂ (Keyed rel) xs ys) : xs.keys = ys.keys := by
  induction h with
  | nil => rfl
  | cons hxy _ ih =>
      simp only [keys, List.map_cons] at ih ⊢
      rw [hxy.1, ih]

/-- Entries side by side have related values under a key, or none. -/
theorem lookup_rel (key : String) {xs : Entries α} {ys : Entries β}
    (h : List.Forall₂ (Keyed rel) xs ys) : Option.Rel rel (xs.lookup key) (ys.lookup key) := by
  induction h with
  | nil => exact .none
  | @cons x y _ _ hxy _ ih =>
      obtain ⟨k, a⟩ := x
      obtain ⟨l, b⟩ := y
      obtain ⟨rfl, hab⟩ := hxy
      rw [List.lookup_cons, List.lookup_cons]
      cases key == k with
      | true => exact .some hab
      | false => exact ih

theorem forall₂_set (key : String) {a : α} {b : β} (hab : rel a b) {xs : Entries α}
    {ys : Entries β} (h : List.Forall₂ (Keyed rel) xs ys) :
    List.Forall₂ (Keyed rel) (xs.set key a) (ys.set key b) := by
  induction h with
  | nil => exact .cons ⟨rfl, hab⟩ .nil
  | @cons x y _ _ hxy hrest ih =>
      obtain ⟨k, a'⟩ := x
      obtain ⟨l, b'⟩ := y
      obtain ⟨rfl, hab'⟩ := hxy
      rw [set, set]
      split
      · exact .cons ⟨rfl, hab⟩ hrest
      · exact .cons ⟨rfl, hab'⟩ ih

theorem forall₂_setAll {xs : List (String × α)} {ys : List (String × β)}
    (h : List.Forall₂ (Keyed rel) xs ys) :
    ∀ {old : Entries α} {old' : Entries β}, List.Forall₂ (Keyed rel) old old' →
      List.Forall₂ (Keyed rel) (old.setAll xs) (old'.setAll ys) := by
  induction h with
  | nil => exact fun hold => hold
  | @cons x y _ _ hxy _ ih =>
      intro old old' hold
      obtain ⟨k, a⟩ := x
      obtain ⟨l, b⟩ := y
      obtain ⟨rfl, hab⟩ := hxy
      exact ih (forall₂_set k hab hold)

/-- Writing entries side by side keeps them side by side. -/
theorem forall₂_ofList {xs : List (String × α)} {ys : List (String × β)}
    (h : List.Forall₂ (Keyed rel) xs ys) : List.Forall₂ (Keyed rel) (ofList xs) (ofList ys) :=
  forall₂_setAll h .nil

/-- The images of entries under their keys. -/
def mapValues (f : α → β) (xs : Entries α) : Entries β := xs.map fun x => (x.1, f x.2)

theorem keys_mapValues (f : α → β) (xs : Entries α) : (xs.mapValues f).keys = xs.keys := by
  simp only [keys, mapValues, List.map_map]
  rfl

theorem mapValues_id (xs : Entries α) : xs.mapValues (fun a => a) = xs := List.map_id' xs

theorem eq_mapValues_of_forall₂ {f : α → β} {xs : Entries α} {ys : Entries β}
    (h : List.Forall₂ (Keyed fun a b => f a = b) xs ys) : ys = xs.mapValues f := by
  induction h with
  | nil => rfl
  | @cons x y _ _ hxy _ ih =>
      obtain ⟨k, a⟩ := x
      obtain ⟨l, b⟩ := y
      obtain ⟨rfl, rfl⟩ := hxy
      rw [ih]
      rfl

/-- Images can be written as well as entries. -/
theorem ofList_mapValues (f : α → β) (xs : List (String × α)) :
    ofList (mapValues f xs) = (ofList xs).mapValues f := by
  refine eq_mapValues_of_forall₂ (forall₂_ofList ?_)
  exact List.forall₂_map_right_iff.2 (List.forall₂_same.2 fun _ _ => ⟨rfl, rfl⟩)

theorem forall₂_mapValues {γ δ : Type} {rel : γ → δ → Prop} {f : α → γ} {g : β → δ}
    {xs : Entries α} {ys : Entries β}
    (h : List.Forall₂ (Keyed fun a b => rel (f a) (g b)) xs ys) :
    List.Forall₂ (Keyed rel) (xs.mapValues f) (ys.mapValues g) := by
  induction h with
  | nil => exact .nil
  | cons hxy _ ih => exact .cons hxy ih

end Entries

/-! ## Congruences -/

/-- What makes a relation between vocabularies a congruence. -/
structure Congruence {A B : Type} [Vocabulary A] [Vocabulary B] (inner outer : A → B → Prop) :
    Prop where
  literal (value : Literal) : outer (Vocabulary.literal value) (Vocabulary.literal value)
  literals (values : NonEmpty Literal) :
    outer (Vocabulary.literals values) (Vocabulary.literals values)
  literalsOr (values : NonEmpty Literal) {a : A} {b : B} : outer a b →
    outer (Vocabulary.literalsOr values a) (Vocabulary.literalsOr values b)
  primitive (kind : Primitive) : outer (Vocabulary.primitive kind) (Vocabulary.primitive kind)
  object (kind : FieldKind) {xs : Entries A} {ys : Entries B} : xs.keys.Nodup →
    List.Forall₂ (Keyed inner) xs ys →
    outer (Vocabulary.object kind xs) (Vocabulary.object kind ys)
  record {a : A} {b : B} : inner a b → outer (Vocabulary.record a) (Vocabulary.record b)
  array {a : A} {b : B} : inner a b → outer (Vocabulary.array a) (Vocabulary.array b)
  tuple {xs : List A} {ys : List B} : List.Forall₂ inner xs ys →
    outer (Vocabulary.tuple xs) (Vocabulary.tuple ys)
  intersection {a c : A} {b d : B} : outer a b → outer c d →
    outer (Vocabulary.intersection a c) (Vocabulary.intersection b d)
  sum (tag : String) {xs : Entries A} {ys : Entries B} : xs.keys.Nodup →
    List.Forall₂ (Keyed outer) xs ys → outer (Vocabulary.sum tag xs) (Vocabulary.sum tag ys)
  union {a : A} {b : B} {xs : List A} {ys : List B} : outer a b → List.Forall₂ outer xs ys →
    outer (Vocabulary.union ⟨a, xs⟩) (Vocabulary.union ⟨b, ys⟩)
  readonly {a : A} {b : B} : outer a b → outer (Vocabulary.readonly a) (Vocabulary.readonly b)

/-! ## Readings of definitions side by side -/

section Fold

variable {A B : Type} [Vocabulary A] [Vocabulary B] {inner : A → B → Prop}
  {f : String → A} {g : String → B}

mutual

/-- Two readings of a definition are related on the outside when the meanings of
bare references are, and those of all references on the inside. -/
theorem Definition.fold_outer (hinner : Congruence inner inner) :
    ∀ (definition : Definition) {outer : A → B → Prop},
    Congruence inner outer →
    (∀ name ∈ definition.references, inner (f name) (g name)) →
    (∀ name ∈ definition.bareReferences, outer (f name) (g name)) →
    outer (definition.fold f) (definition.fold g)
  | .literal value, _, houter, _, _ => by
      simpa only [Definition.fold] using houter.literal value
  | .literals values, _, houter, _, _ => by
      simpa only [Definition.fold] using houter.literals values
  | .literalsOr values fallback, _, houter, hin, hbare => by
      simp only [Definition.references] at hin
      simp only [Definition.bareReferences] at hbare
      simpa only [Definition.fold] using
        houter.literalsOr values (Definition.fold_outer hinner fallback houter hin hbare)
  | .primitive kind, _, houter, _, _ => by
      simpa only [Definition.fold] using houter.primitive kind
  | .object kind fields, _, houter, hin, _ => by
      simp only [Definition.references] at hin
      simpa only [Definition.fold] using houter.object kind (Entries.nodup_ofList _)
        (Entries.forall₂_ofList (foldFields_rel hinner fields hin))
  | .record codomain, _, houter, hin, _ => by
      simp only [Definition.references] at hin
      have hcodomain := Definition.fold_outer hinner codomain hinner hin fun name hname =>
        hin name (codomain.mem_references_of_bare hname)
      simpa only [Definition.fold] using houter.record hcodomain
  | .array item, _, houter, hin, _ => by
      simp only [Definition.references] at hin
      have hitem := Definition.fold_outer hinner item hinner hin fun name hname =>
        hin name (item.mem_references_of_bare hname)
      simpa only [Definition.fold] using houter.array hitem
  | .tuple components, _, houter, hin, _ => by
      simp only [Definition.references] at hin
      have hbare : ∀ name ∈ bareComponentReferences components, inner (f name) (g name) :=
        fun name hname => hin name (mem_componentReferences_of_bare hname)
      simpa only [Definition.fold] using
        houter.tuple (foldComponents_outer hinner components hinner hin hbare)
  | .intersection left right, _, houter, hin, hbare => by
      simp only [Definition.references, List.mem_append] at hin
      simp only [Definition.bareReferences, List.mem_append] at hbare
      have hleft := Definition.fold_outer hinner left houter
        (fun name hname => hin name (.inl hname)) fun name hname => hbare name (.inl hname)
      have hright := Definition.fold_outer hinner right houter
        (fun name hname => hin name (.inr hname)) fun name hname => hbare name (.inr hname)
      simpa only [Definition.fold] using houter.intersection hleft hright
  | .sum tag members, _, houter, hin, _ => by
      simp only [Definition.references] at hin
      simpa only [Definition.fold] using houter.sum tag (Entries.nodup_ofList _)
        (Entries.forall₂_ofList (foldMembers_outer hinner members houter hin))
  | .union ⟨head, tail⟩, _, houter, hin, hbare => by
      simp only [Definition.references, List.mem_append] at hin
      simp only [Definition.bareReferences, List.mem_append] at hbare
      have hhead := Definition.fold_outer hinner head houter
        (fun name hname => hin name (.inl hname)) fun name hname => hbare name (.inl hname)
      have htail := foldComponents_outer hinner tail houter
        (fun name hname => hin name (.inr hname)) fun name hname => hbare name (.inr hname)
      simpa only [Definition.fold] using houter.union hhead htail
  | .readonly part, _, houter, hin, hbare => by
      simp only [Definition.references] at hin
      simp only [Definition.bareReferences] at hbare
      simpa only [Definition.fold] using
        houter.readonly (Definition.fold_outer hinner part houter hin hbare)
  | .ref name, _, _, _, hbare => by
      simpa only [Definition.fold] using hbare name (by simp [Definition.bareReferences])

/-- A definition of objects has no bare references. -/
theorem ObjectDefinition.fold_outer (hinner : Congruence inner inner) :
    ∀ (definition : ObjectDefinition) {outer : A → B → Prop},
    Congruence inner outer → (∀ name ∈ definition.references, inner (f name) (g name)) →
    outer (definition.fold f) (definition.fold g)
  | .unknown, _, houter, _ => by
      simpa only [ObjectDefinition.fold] using houter.primitive .object
  | .object kind fields, _, houter, hin => by
      simp only [ObjectDefinition.references] at hin
      simpa only [ObjectDefinition.fold] using houter.object kind (Entries.nodup_ofList _)
        (Entries.forall₂_ofList (foldFields_rel hinner fields hin))
  | .record codomain, _, houter, hin => by
      simp only [ObjectDefinition.references] at hin
      have hcodomain := Definition.fold_outer hinner codomain hinner hin fun name hname =>
        hin name (codomain.mem_references_of_bare hname)
      simpa only [ObjectDefinition.fold] using houter.record hcodomain
  | .sum tag members, _, houter, hin => by
      simp only [ObjectDefinition.references] at hin
      simpa only [ObjectDefinition.fold] using houter.sum tag (Entries.nodup_ofList _)
        (Entries.forall₂_ofList (foldMembers_outer hinner members houter hin))
  | .intersection left right, _, houter, hin => by
      simp only [ObjectDefinition.references, List.mem_append] at hin
      have hleft := ObjectDefinition.fold_outer hinner left houter fun name hname =>
        hin name (.inl hname)
      have hright := ObjectDefinition.fold_outer hinner right houter fun name hname =>
        hin name (.inr hname)
      simpa only [ObjectDefinition.fold] using houter.intersection hleft hright
  | .readonly part, _, houter, hin => by
      simp only [ObjectDefinition.references] at hin
      simpa only [ObjectDefinition.fold] using
        houter.readonly (ObjectDefinition.fold_outer hinner part houter hin)

theorem foldFields_rel (hinner : Congruence inner inner) :
    ∀ fields : List (String × Definition),
    (∀ name ∈ fieldReferences fields, inner (f name) (g name)) →
    List.Forall₂ (Keyed inner) (foldFields f fields) (foldFields g fields)
  | [], _ => by
      simp only [foldFields]
      exact .nil
  | (key, definition) :: rest, hin => by
      simp only [fieldReferences, List.mem_append] at hin
      have hfirst := Definition.fold_outer hinner definition hinner
        (fun name hname => hin name (.inl hname)) fun name hname =>
          hin name (.inl (definition.mem_references_of_bare hname))
      have hrest := foldFields_rel hinner rest fun name hname => hin name (.inr hname)
      simp only [foldFields]
      exact .cons ⟨rfl, hfirst⟩ hrest

theorem foldComponents_outer (hinner : Congruence inner inner) :
    ∀ (components : List Definition) {outer : A → B → Prop},
    Congruence inner outer →
    (∀ name ∈ componentReferences components, inner (f name) (g name)) →
    (∀ name ∈ bareComponentReferences components, outer (f name) (g name)) →
    List.Forall₂ outer (foldComponents f components) (foldComponents g components)
  | [], _, _, _, _ => by
      simp only [foldComponents]
      exact .nil
  | definition :: rest, _, houter, hin, hbare => by
      simp only [componentReferences, List.mem_append] at hin
      simp only [bareComponentReferences, List.mem_append] at hbare
      have hfirst := Definition.fold_outer hinner definition houter
        (fun name hname => hin name (.inl hname)) fun name hname => hbare name (.inl hname)
      have hrest := foldComponents_outer hinner rest houter
        (fun name hname => hin name (.inr hname)) fun name hname => hbare name (.inr hname)
      simp only [foldComponents]
      exact .cons hfirst hrest

theorem foldMembers_outer (hinner : Congruence inner inner) :
    ∀ (members : List (String × ObjectDefinition)) {outer : A → B → Prop}, Congruence inner outer →
    (∀ name ∈ memberReferences members, inner (f name) (g name)) →
    List.Forall₂ (Keyed outer) (foldMembers f members) (foldMembers g members)
  | [], _, _, _ => by
      simp only [foldMembers]
      exact .nil
  | (key, definition) :: rest, _, houter, hin => by
      simp only [memberReferences, List.mem_append] at hin
      have hfirst := ObjectDefinition.fold_outer hinner definition houter
        fun name hname => hin name (.inl hname)
      have hrest := foldMembers_outer hinner rest houter fun name hname => hin name (.inr hname)
      simp only [foldMembers]
      exact .cons ⟨rfl, hfirst⟩ hrest

end

/-- Two readings of a definition are related when the meanings of its references
are. -/
theorem Definition.fold_rel (hinner : Congruence inner inner) (definition : Definition)
    (hin : ∀ name ∈ definition.references, inner (f name) (g name)) :
    inner (definition.fold f) (definition.fold g) :=
  definition.fold_outer hinner hinner hin fun name hname =>
    hin name (definition.mem_references_of_bare hname)

end Fold

namespace Congruence

variable {A B : Type} [Vocabulary A] [Vocabulary B]

/-- A family of relations of which each is a congruence over those below it is a
congruence as a whole, on every part of it that is closed downwards. -/
theorem forall_below {ι : Type} {below : ι → ι → Prop} {rel : ι → A → B → Prop}
    (h : ∀ i, Congruence (fun a b => ∀ j, below j i → rel j a b) (rel i)) {p : ι → Prop}
    (hp : ∀ i j, p i → below j i → p j) :
    Congruence (fun a b => ∀ i, p i → rel i a b) (fun a b => ∀ i, p i → rel i a b) where
  literal value i _ := (h i).literal value
  literals values i _ := (h i).literals values
  literalsOr values {_ _} hab i hi := (h i).literalsOr values (hab i hi)
  primitive kind i _ := (h i).primitive kind
  object kind {_ _} hnodup hxy i hi := (h i).object kind hnodup
    (hxy.imp fun _ _ hab => hab.imp fun _ _ hab j hj => hab j (hp i j hi hj))
  record {_ _} hab i hi := (h i).record fun j hj => hab j (hp i j hi hj)
  array {_ _} hab i hi := (h i).array fun j hj => hab j (hp i j hi hj)
  tuple {_ _} hxy i hi := (h i).tuple (hxy.imp fun _ _ hab j hj => hab j (hp i j hi hj))
  intersection {_ _ _ _} hab hcd i hi := (h i).intersection (hab i hi) (hcd i hi)
  sum tag {_ _} hnodup hxy i hi := (h i).sum tag hnodup
    (hxy.imp fun _ _ hab => hab.imp fun _ _ hab => hab i hi)
  union {_ _ _ _} hab hxy i hi := (h i).union (hab i hi) (hxy.imp fun _ _ hab => hab i hi)
  readonly {_ _} hab i hi := (h i).readonly (hab i hi)

end Congruence

/-! ## Functions that respect the combinators -/

/-- A function between vocabularies that takes combinators to combinators. -/
structure Respects {A B : Type} [Vocabulary A] [Vocabulary B] (f : A → B) : Prop where
  literal (value : Literal) : f (Vocabulary.literal value) = Vocabulary.literal value
  literals (values : NonEmpty Literal) :
    f (Vocabulary.literals values) = Vocabulary.literals values
  literalsOr (values : NonEmpty Literal) (a : A) :
    f (Vocabulary.literalsOr values a) = Vocabulary.literalsOr values (f a)
  primitive (kind : Primitive) : f (Vocabulary.primitive kind) = Vocabulary.primitive kind
  object (kind : FieldKind) (xs : Entries A) :
    f (Vocabulary.object kind xs) = Vocabulary.object kind (xs.mapValues f)
  record (a : A) : f (Vocabulary.record a) = Vocabulary.record (f a)
  array (a : A) : f (Vocabulary.array a) = Vocabulary.array (f a)
  tuple (xs : List A) : f (Vocabulary.tuple xs) = Vocabulary.tuple (xs.map f)
  intersection (a b : A) :
    f (Vocabulary.intersection a b) = Vocabulary.intersection (f a) (f b)
  sum (tag : String) (xs : Entries A) :
    f (Vocabulary.sum tag xs) = Vocabulary.sum tag (xs.mapValues f)
  union (a : A) (xs : List A) :
    f (Vocabulary.union ⟨a, xs⟩) = Vocabulary.union ⟨f a, xs.map f⟩
  readonly (a : A) : f (Vocabulary.readonly a) = Vocabulary.readonly (f a)

theorem respects_id {A : Type} [Vocabulary A] : Respects fun a : A => a where
  literal _ := rfl
  literals _ := rfl
  literalsOr _ _ := rfl
  primitive _ := rfl
  object _ xs := by rw [Entries.mapValues_id]
  record _ := rfl
  array _ := rfl
  tuple xs := by rw [List.map_id']
  intersection _ _ := rfl
  sum _ xs := by rw [Entries.mapValues_id]
  union _ xs := by rw [List.map_id']
  readonly _ := rfl

namespace Blueprint

variable {A : Type} [Vocabulary A] (owned referred : CellId → A)

theorem foldFields_eq : ∀ xs : Entries Blueprint,
    foldFields owned referred xs = xs.mapValues (fold owned referred)
  | [] => by rw [foldFields]; rfl
  | (key, blueprint) :: rest => by
      rw [foldFields, foldFields_eq rest]
      rfl

theorem foldAll_eq : ∀ xs : List Blueprint, foldAll owned referred xs = xs.map (fold owned referred)
  | [] => by rw [foldAll, List.map_nil]
  | blueprint :: rest => by rw [foldAll, foldAll_eq rest, List.map_cons]

/-- Reading a blueprint respects the combinators. -/
theorem respects_fold : Respects (fold owned referred) where
  literal value := by
    show fold owned referred (.literal value) = _
    rw [fold]
  literals values := by
    show fold owned referred (.literals values) = _
    rw [fold]
  literalsOr values a := by
    show fold owned referred (.literalsOr values a) = _
    rw [fold]
  primitive kind := by
    show fold owned referred (.primitive kind) = _
    rw [fold]
  object kind xs := by
    show fold owned referred (.object kind xs) = _
    rw [fold, foldFields_eq]
  record a := by
    show fold owned referred (.record a) = _
    rw [fold]
  array a := by
    show fold owned referred (.array a) = _
    rw [fold]
  tuple xs := by
    show fold owned referred (.tuple xs) = _
    rw [fold, foldAll_eq]
  intersection a b := by
    show fold owned referred (.intersection a b) = _
    rw [fold]
  sum tag xs := by
    show fold owned referred (.sum tag xs) = _
    rw [fold, foldFields_eq]
  union a xs := by
    show fold owned referred (.union ⟨a, xs⟩) = _
    rw [fold, foldAll_eq]
  readonly a := by
    show fold owned referred (.readonly a) = _
    rw [fold]

end Blueprint

/-- An artifact whose readings in both directions take it apart as it was built. -/
class LawfulArtifact (A : Type) [Artifact A] : Prop where
  respects_decoder : Respects (Artifact.decoder : A → Blueprint)
  respects_encoder : Respects (Artifact.encoder : A → Blueprint)
  decoder_owner (k : CellId) : Artifact.decoder (Artifact.owner k : A) = .owner k
  encoder_owner (k : CellId) : Artifact.encoder (Artifact.owner k : A) = .owner k
  decoder_handle (k : CellId) : Artifact.decoder (Artifact.handle k : A) = .handle k
  encoder_handle (k : CellId) : Artifact.encoder (Artifact.handle k : A) = .handle k

namespace LawfulArtifact

instance : LawfulArtifact Blueprint where
  respects_decoder := respects_id
  respects_encoder := respects_id
  decoder_owner _ := rfl
  encoder_owner _ := rfl
  decoder_handle _ := rfl
  encoder_handle _ := rfl

instance : LawfulArtifact Codec where
  respects_decoder :=
    ⟨fun _ => rfl, fun _ => rfl, fun _ _ => rfl, fun _ => rfl, fun _ _ => rfl, fun _ => rfl,
      fun _ => rfl, fun _ => rfl, fun _ _ => rfl, fun _ _ => rfl, fun _ _ => rfl, fun _ => rfl⟩
  respects_encoder :=
    ⟨fun _ => rfl, fun _ => rfl, fun _ _ => rfl, fun _ => rfl, fun _ _ => rfl, fun _ => rfl,
      fun _ => rfl, fun _ => rfl, fun _ _ => rfl, fun _ _ => rfl, fun _ _ => rfl, fun _ => rfl⟩
  decoder_owner _ := rfl
  encoder_owner _ := rfl
  decoder_handle _ := rfl
  encoder_handle _ := rfl

/-- Distinct cells have distinct handles. -/
theorem handle_injective {A : Type} [Artifact A] [LawfulArtifact A] {j k : CellId}
    (h : (Artifact.handle j : A) = Artifact.handle k) : j = k := by
  have h := congrArg Artifact.decoder h
  rw [decoder_handle, decoder_handle] at h
  exact Blueprint.handle.inj h

/-- An artifact that owns a cell keeps it. -/
theorem mem_cells_owner {A : Type} [Artifact A] [LawfulArtifact A] (k : CellId) :
    k ∈ Artifact.cells (Artifact.owner k : A) := by
  rw [Artifact.cells, decoder_owner, Blueprint.cells]
  exact List.mem_cons_self

end LawfulArtifact

namespace Congruence

variable {A B C D : Type} [Vocabulary A] [Vocabulary B] [Vocabulary C] [Vocabulary D]

/-- Congruences go back along functions that respect the combinators. -/
theorem comap {inner outer : C → D → Prop} (h : Congruence inner outer) {f : A → C} {g : B → D}
    (hf : Respects f) (hg : Respects g) :
    Congruence (fun a b => inner (f a) (g b)) (fun a b => outer (f a) (g b)) where
  literal value := by
    rw [hf.literal, hg.literal]
    exact h.literal value
  literals values := by
    rw [hf.literals, hg.literals]
    exact h.literals values
  literalsOr values {_ _} hab := by
    rw [hf.literalsOr, hg.literalsOr]
    exact h.literalsOr values hab
  primitive kind := by
    rw [hf.primitive, hg.primitive]
    exact h.primitive kind
  object kind {_ _} hnodup hxy := by
    rw [hf.object, hg.object]
    rw [← Entries.keys_mapValues f] at hnodup
    exact h.object kind hnodup (Entries.forall₂_mapValues hxy)
  record {_ _} hab := by
    rw [hf.record, hg.record]
    exact h.record hab
  array {_ _} hab := by
    rw [hf.array, hg.array]
    exact h.array hab
  tuple {_ _} hxy := by
    rw [hf.tuple, hg.tuple]
    exact h.tuple (List.forall₂_map_left_iff.2 (List.forall₂_map_right_iff.2 hxy))
  intersection {_ _ _ _} hab hcd := by
    rw [hf.intersection, hg.intersection]
    exact h.intersection hab hcd
  sum tag {_ _} hnodup hxy := by
    rw [hf.sum, hg.sum]
    rw [← Entries.keys_mapValues f] at hnodup
    exact h.sum tag hnodup (Entries.forall₂_mapValues hxy)
  union {_ _ _ _} hab hxy := by
    rw [hf.union, hg.union]
    exact h.union hab (List.forall₂_map_left_iff.2 (List.forall₂_map_right_iff.2 hxy))
  readonly {_ _} hab := by
    rw [hf.readonly, hg.readonly]
    exact h.readonly hab

end Congruence

/-! ## The least congruence -/

/-- The pairs that every congruence relates that relates the pairs of `leaf`. -/
def Congruence.Least {A B : Type} [Vocabulary A] [Vocabulary B] (leaf : A → B → Prop) (a : A)
    (b : B) : Prop :=
  ∀ rel : A → B → Prop, Congruence rel rel → (∀ a b, leaf a b → rel a b) → rel a b

namespace Congruence.Least

variable {A B : Type} [Vocabulary A] [Vocabulary B] {leaf leaf' : A → B → Prop}

theorem of_leaf {a : A} {b : B} (hab : leaf a b) : Least leaf a b :=
  fun _ _ hleaf => hleaf a b hab

theorem mono (h : ∀ a b, leaf a b → leaf' a b) {a : A} {b : B} (hab : Least leaf a b) :
    Least leaf' a b :=
  fun rel hrel hleaf => hab rel hrel fun a b hab => hleaf a b (h a b hab)

theorem congruence : Congruence (Least leaf) (Least leaf) where
  literal value _ hrel _ := hrel.literal value
  literals values _ hrel _ := hrel.literals values
  literalsOr values {_ _} hab rel hrel hleaf := hrel.literalsOr values (hab rel hrel hleaf)
  primitive kind _ hrel _ := hrel.primitive kind
  object kind {_ _} hnodup hxy rel hrel hleaf := hrel.object kind hnodup
    (hxy.imp fun _ _ hab => hab.imp fun _ _ hab => hab rel hrel hleaf)
  record {_ _} hab rel hrel hleaf := hrel.record (hab rel hrel hleaf)
  array {_ _} hab rel hrel hleaf := hrel.array (hab rel hrel hleaf)
  tuple {_ _} hxy rel hrel hleaf := hrel.tuple (hxy.imp fun _ _ hab => hab rel hrel hleaf)
  intersection {_ _ _ _} hab hcd rel hrel hleaf :=
    hrel.intersection (hab rel hrel hleaf) (hcd rel hrel hleaf)
  sum tag {_ _} hnodup hxy rel hrel hleaf := hrel.sum tag hnodup
    (hxy.imp fun _ _ hab => hab.imp fun _ _ hab => hab rel hrel hleaf)
  union {_ _ _ _} hab hxy rel hrel hleaf :=
    hrel.union (hab rel hrel hleaf) (hxy.imp fun _ _ hab => hab rel hrel hleaf)
  readonly {_ _} hab rel hrel hleaf := hrel.readonly (hab rel hrel hleaf)

end Congruence.Least

end Schemata
