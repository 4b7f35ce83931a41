import Schemata.Encoding
import Schemata.Proofs.Congruence
import Schemata.Sourcing

/-!
# Corresponding computations

The combinators of decoders, encoders and source run in any monad and look at
nothing but the answers of their parts.  So where the computations of the parts
correspond in two monads, those of the whole do.

**Input.**  A `Correspondence`: a relation between the computations of two monads
that `pure` and `bind` respect.

**Results.**

* `Decoding.congruence` and `Encoding.congruence`: on a value, composites correspond
  when their parts do, on the value itself for parts that are used on it and on all
  values of smaller depth for the others.
* `Decoding.congruence_all` and `Encoding.congruence_all`: the same on all values.
* `Sourcing.congruence`: sources correspond when those of their parts do.
-/

namespace Schemata

open Json

/-! ## The depth of parts -/

namespace Json.Value

theorem depth_lt_of_item {items : List Value} {item : Value} (h : item ∈ items) :
    item.depth < (Value.array items).depth := by
  have hle : item.depth ≤ itemsDepth items := by
    induction items with
    | nil => cases h
    | cons first rest ih =>
        rw [itemsDepth]
        rcases List.mem_cons.1 h with rfl | h
        · omega
        · have := ih h
          omega
  rw [depth]
  omega

theorem depth_lt_of_member {members : Members} {entry : String × Value} (h : entry ∈ members) :
    entry.2.depth < (Value.object members).depth := by
  have hle : entry.2.depth ≤ membersDepth members := by
    induction members with
    | nil => cases h
    | cons first rest ih =>
        obtain ⟨key, value⟩ := first
        rw [membersDepth]
        rcases List.mem_cons.1 h with rfl | h
        · show value.depth ≤ _
          omega
        · have := ih h
          omega
  rw [depth]
  omega

theorem depth_lt_of_get? {members : Members} {key : String} {value : Value}
    (h : get? key members = some value) : value.depth < (Value.object members).depth :=
  depth_lt_of_member (Entries.mem_of_lookup h)

end Json.Value

/-! ## Correspondences -/

/-- A relation between the computations of two monads that `pure` and `bind`
respect. -/
structure Correspondence (m n : Type → Type) [Monad m] [Monad n] where
  rel {α : Type} : m α → n α → Prop
  pure {α : Type} (a : α) : rel (pure a) (pure a)
  bind {α β : Type} {x : m α} {y : n α} {f : α → m β} {g : α → n β} :
    rel x y → (∀ a, rel (f a) (g a)) → rel (x >>= f) (y >>= g)

namespace Correspondence

variable {m n : Type → Type} [Monad m] [Monad n] (R : Correspondence m n)

theorem ite {α : Type} {c : Prop} [Decidable c] {x x' : m α} {y y' : n α} (h : R.rel x y)
    (h' : R.rel x' y') : R.rel (if c then x else x') (if c then y else y') := by
  by_cases hc : c
  · rwa [if_pos hc, if_pos hc]
  · rwa [if_neg hc, if_neg hc]

end Correspondence

/-! ## Decoders -/

namespace Decoding

variable {m n : Type → Type} [Monad m] [Monad n] (R : Correspondence m n)

/-- Two decoders correspond on the values of a predicate. -/
def RelOn (p : Value → Prop) (d : Decoding m) (e : Decoding n) : Prop :=
  ∀ value, p value → R.rel (d.decode value) (e.decode value)

variable {R} {p : Value → Prop}

theorem field_rel (kind : FieldKind) (key : String) {d : Decoding m} {e : Decoding n}
    (h : RelOn R p d e) : ∀ {given : Option Value}, (∀ value, given = some value → p value) →
    R.rel (field kind key d given) (field kind key e given)
  | some value, hp => R.bind (h value (hp value rfl)) fun _ => R.pure _
  | none, _ => by
      cases kind with
      | required => exact R.pure _
      | optional => exact R.pure _

theorem fields_rel (kind : FieldKind) {members : Members}
    (hp : ∀ key value, Value.get? key members = some value → p value)
    {ds : Entries (Decoding m)} {es : Entries (Decoding n)}
    (h : List.Forall₂ (Keyed (RelOn R p)) ds es) :
    R.rel (fields kind members ds) (fields kind members es) := by
  induction h with
  | nil => exact R.pure _
  | @cons d e _ _ hde _ ih =>
      obtain ⟨key, d⟩ := d
      obtain ⟨_, e⟩ := e
      obtain ⟨rfl, hde⟩ := hde
      have hfirst := field_rel kind key hde (hp key)
      exact R.bind hfirst fun _ => R.bind ih fun _ => R.pure _

theorem entries_rel {d : Decoding m} {e : Decoding n} (h : RelOn R p d e) :
    ∀ {members : Members}, (∀ entry ∈ members, p entry.2) →
      R.rel (entries d members) (entries e members)
  | [], _ => R.pure _
  | (key, value) :: rest, hp => by
      have hfirst := h value (hp (key, value) List.mem_cons_self)
      have hrest := entries_rel h fun entry hentry => hp entry (List.mem_cons_of_mem _ hentry)
      exact R.bind hfirst fun _ => R.bind hrest fun _ => R.pure _

theorem items_rel {d : Decoding m} {e : Decoding n} (h : RelOn R p d e) :
    ∀ {values : List Value} (index : Nat), (∀ value ∈ values, p value) →
      R.rel (items d index values) (items e index values)
  | [], _, _ => R.pure _
  | value :: rest, index, hp => by
      have hfirst := h value (hp value List.mem_cons_self)
      have hrest := items_rel h (index + 1) fun value hvalue =>
        hp value (List.mem_cons_of_mem _ hvalue)
      exact R.bind hfirst fun _ => R.bind hrest fun _ => R.pure _

theorem places_rel {ds : List (Decoding m)} {es : List (Decoding n)}
    (h : List.Forall₂ (RelOn R p) ds es) :
    ∀ {values : List Value} (index : Nat), (∀ value ∈ values, p value) →
      R.rel (places index ds values) (places index es values) := by
  induction h with
  | nil => exact fun _ _ => R.pure _
  | cons hde _ ih =>
      intro values index hp
      cases values with
      | nil => exact R.bind (ih (index + 1) hp) fun _ => R.pure _
      | cons value rest =>
          have hfirst := hde value (hp value List.mem_cons_self)
          have hrest := ih (index + 1) fun value hvalue => hp value (List.mem_cons_of_mem _ hvalue)
          exact R.bind hfirst fun _ => R.bind hrest fun _ => R.pure _

theorem firstOf_rel {value : Value} {ds : List (Decoding m)} {es : List (Decoding n)}
    (h : List.Forall₂ (fun d e => R.rel (d.decode value) (e.decode value)) ds es) :
    ∀ {d : Decoding m} {e : Decoding n} (index : Nat), R.rel (d.decode value) (e.decode value) →
      R.rel (firstOf value index d ds) (firstOf value index e es) := by
  induction h with
  | nil => exact fun _ hde => R.bind hde fun _ => R.pure _
  | cons hnext _ ih =>
      intro d e index hde
      refine R.bind hde fun outcome => ?_
      cases outcome with
      | ok decoded => exact R.pure _
      | error error =>
          refine R.bind (ih (index + 1) hnext) fun others => ?_
          cases others with
          | ok decoded => exact R.pure _
          | error errors => exact R.pure _

theorem memberOf?_rel {α β : Type} {rel : α → β → Prop} (tag : String) (value : Value)
    {xs : Entries α} {ys : Entries β} (h : List.Forall₂ (Keyed rel) xs ys) :
    Option.Rel rel (memberOf? tag xs value) (memberOf? tag ys value) := by
  unfold memberOf?
  cases value.member? tag with
  | none => exact .none
  | some named =>
      cases hkey : named.text? with
      | none => simp [hkey]
      | some key => simpa [hkey] using Entries.lookup_rel key h

theorem sum_rel {value : Value} {tag : String} {ds : Entries (Decoding m)}
    {es : Entries (Decoding n)}
    (h : List.Forall₂ (Keyed fun d e => R.rel (d.decode value) (e.decode value)) ds es) :
    R.rel ((sum tag ds).decode value) ((sum tag es).decode value) := by
  cases value with
  | object members =>
      have hmember := memberOf?_rel tag (.object members) h
      simp only [sum]
      rw [Entries.keys_eq_of_forall₂ h]
      cases Value.get? tag members with
      | none => exact R.pure _
      | some named =>
          generalize memberOf? tag ds (.object members) = d at hmember
          generalize memberOf? tag es (.object members) = e at hmember
          cases hmember with
          | none => exact R.pure _
          | some hde => exact hde
  | _ => exact R.pure _

variable (R)

/-- Decoders correspond on a value when their parts do. -/
theorem congruence (value : Value) :
    Congruence (RelOn R fun w => w.depth < value.depth)
      (fun d e => R.rel (d.decode value) (e.decode value)) where
  literal _ := R.pure _
  literals _ := R.pure _
  literalsOr _ {_ _} h := R.ite (R.pure _) h
  primitive _ := R.pure _
  object kind {_ _} _ h := by
    cases value with
    | object members =>
        exact R.bind (fields_rel kind (fun _ _ => Value.depth_lt_of_get?) h) fun _ => R.pure _
    | _ => exact R.pure _
  record {_ _} h := by
    cases value with
    | object members =>
        exact R.bind (entries_rel h fun _ => Value.depth_lt_of_member) fun _ => R.pure _
    | _ => exact R.pure _
  array {_ _} h := by
    cases value with
    | array values =>
        exact R.bind (items_rel h 0 fun _ => Value.depth_lt_of_item) fun _ => R.pure _
    | _ => exact R.pure _
  tuple {_ _} h := by
    cases value with
    | array values =>
        exact R.bind (places_rel h 0 fun _ => Value.depth_lt_of_item) fun _ => R.pure _
    | _ => exact R.pure _
  intersection {_ _ _ _} hleft hright := R.bind hleft fun _ => R.bind hright fun _ => R.pure _
  sum tag {_ _} _ h := sum_rel h
  union {_ _ _ _} h hs := firstOf_rel hs 0 h
  readonly {_ _} h := h

/-- Decoders correspond on all values of a predicate that holds of the values inside of
others when their parts do. -/
theorem congruence_on (hp : ∀ value inner, p value → inner.depth < value.depth → p inner) :
    Congruence (RelOn R p) (RelOn R p) :=
  .forall_below (congruence R) hp

/-- Decoders correspond on all values when their parts do. -/
theorem congruence_all : Congruence (RelOn R fun _ => True) (RelOn R fun _ => True) :=
  congruence_on R fun _ _ _ _ => trivial

end Decoding

/-! ## Encoders -/

namespace Encoding

variable {m n : Type → Type} [Monad m] [Monad n] (R : Correspondence m n)

/-- Two encoders correspond on a value, with their guards. -/
def RelAt (value : Value) (d : Encoding m) (e : Encoding n) : Prop :=
  R.rel (d.encode value) (e.encode value) ∧ R.rel (d.accepts value) (e.accepts value)

/-- Two encoders correspond on the values of a predicate. -/
def RelOn (p : Value → Prop) (d : Encoding m) (e : Encoding n) : Prop :=
  ∀ value, p value → RelAt R value d e

variable {R} {p : Value → Prop}

theorem andAlso_rel {x x' : m Bool} {y y' : n Bool} (h : R.rel x y) (h' : R.rel x' y') :
    R.rel (andAlso x x') (andAlso y y') :=
  R.bind h fun _ => R.ite h' (R.pure _)

theorem orElse_rel {x x' : m Bool} {y y' : n Bool} (h : R.rel x y) (h' : R.rel x' y') :
    R.rel (orElse x x') (orElse y y') :=
  R.bind h fun _ => R.ite (R.pure _) h'

theorem encodeFields_rel {members : Members}
    (hp : ∀ key value, Value.get? key members = some value → p value)
    {ds : Entries (Encoding m)} {es : Entries (Encoding n)}
    (h : List.Forall₂ (Keyed (RelOn R p)) ds es) :
    R.rel (encodeFields members ds) (encodeFields members es) := by
  induction h with
  | nil => exact R.pure _
  | @cons d e _ _ hde _ ih =>
      obtain ⟨key, d⟩ := d
      obtain ⟨_, e⟩ := e
      obtain ⟨rfl, hde⟩ := hde
      simp only [encodeFields]
      cases hget : Value.get? key members with
      | none => exact ih
      | some value =>
          have hfirst := (hde value (hp key value hget)).1
          exact R.bind hfirst fun _ => R.bind ih fun _ => R.pure _

theorem acceptsFields_rel (kind : FieldKind) {members : Members}
    (hp : ∀ key value, Value.get? key members = some value → p value)
    {ds : Entries (Encoding m)} {es : Entries (Encoding n)}
    (h : List.Forall₂ (Keyed (RelOn R p)) ds es) :
    R.rel (acceptsFields kind members ds) (acceptsFields kind members es) := by
  induction h with
  | nil => exact R.pure _
  | @cons d e _ _ hde _ ih =>
      obtain ⟨key, d⟩ := d
      obtain ⟨_, e⟩ := e
      obtain ⟨rfl, hde⟩ := hde
      simp only [acceptsFields]
      cases hget : Value.get? key members with
      | none =>
          cases kind with
          | required => exact R.pure _
          | optional => exact ih
      | some value => exact andAlso_rel (hde value (hp key value hget)).2 ih

theorem encodeEntries_rel {d : Encoding m} {e : Encoding n} (h : RelOn R p d e) :
    ∀ {members : Members}, (∀ entry ∈ members, p entry.2) →
      R.rel (encodeEntries d members) (encodeEntries e members)
  | [], _ => R.pure _
  | (key, value) :: rest, hp => by
      have hfirst := (h value (hp (key, value) List.mem_cons_self)).1
      have hrest := encodeEntries_rel h fun entry hentry =>
        hp entry (List.mem_cons_of_mem _ hentry)
      exact R.bind hfirst fun _ => R.bind hrest fun _ => R.pure _

theorem encodeAll_rel {d : Encoding m} {e : Encoding n} (h : RelOn R p d e) :
    ∀ {values : List Value}, (∀ value ∈ values, p value) →
      R.rel (encodeAll d values) (encodeAll e values)
  | [], _ => R.pure _
  | value :: rest, hp => by
      have hfirst := (h value (hp value List.mem_cons_self)).1
      have hrest := encodeAll_rel h fun value hvalue => hp value (List.mem_cons_of_mem _ hvalue)
      exact R.bind hfirst fun _ => R.bind hrest fun _ => R.pure _

theorem acceptsAll_rel {d : Encoding m} {e : Encoding n} (h : RelOn R p d e) :
    ∀ {values : List Value}, (∀ value ∈ values, p value) →
      R.rel (acceptsAll d values) (acceptsAll e values)
  | [], _ => R.pure _
  | value :: rest, hp => by
      have hfirst := (h value (hp value List.mem_cons_self)).2
      have hrest := acceptsAll_rel h fun value hvalue => hp value (List.mem_cons_of_mem _ hvalue)
      exact andAlso_rel hfirst hrest

theorem encodePlaces_rel {ds : List (Encoding m)} {es : List (Encoding n)}
    (h : List.Forall₂ (RelOn R p) ds es) :
    ∀ {values : List Value}, (∀ value ∈ values, p value) →
      R.rel (encodePlaces ds values) (encodePlaces es values) := by
  induction h with
  | nil => exact fun _ => R.pure _
  | cons hde _ ih =>
      intro values hp
      cases values with
      | nil => exact R.pure _
      | cons value rest =>
          have hfirst := (hde value (hp value List.mem_cons_self)).1
          have hrest := ih fun value hvalue => hp value (List.mem_cons_of_mem _ hvalue)
          exact R.bind hfirst fun _ => R.bind hrest fun _ => R.pure _

theorem acceptsPlaces_rel {ds : List (Encoding m)} {es : List (Encoding n)}
    (h : List.Forall₂ (RelOn R p) ds es) :
    ∀ {values : List Value}, (∀ value ∈ values, p value) →
      R.rel (acceptsPlaces ds values) (acceptsPlaces es values) := by
  induction h with
  | nil => exact fun _ => R.pure _
  | cons hde _ ih =>
      intro values hp
      cases values with
      | nil => exact R.pure _
      | cons value rest =>
          have hfirst := (hde value (hp value List.mem_cons_self)).2
          have hrest := ih fun value hvalue => hp value (List.mem_cons_of_mem _ hvalue)
          exact andAlso_rel hfirst hrest

theorem encodeFirst_rel {value : Value} {ds : List (Encoding m)} {es : List (Encoding n)}
    (h : List.Forall₂ (RelAt R value) ds es) :
    R.rel (encodeFirst value ds) (encodeFirst value es) := by
  induction h with
  | nil => exact R.pure _
  | cons hde _ ih => exact R.bind hde.2 fun _ => R.ite hde.1 ih

theorem acceptsAny_rel {value : Value} {ds : List (Encoding m)} {es : List (Encoding n)}
    (h : List.Forall₂ (RelAt R value) ds es) :
    R.rel (acceptsAny value ds) (acceptsAny value es) := by
  induction h with
  | nil => exact R.pure _
  | cons hde _ ih => exact orElse_rel hde.2 ih

theorem sum_rel {value : Value} {tag : String} {ds : Entries (Encoding m)}
    {es : Entries (Encoding n)} (h : List.Forall₂ (Keyed (RelAt R value)) ds es) :
    RelAt R value (sum tag ds) (sum tag es) := by
  have hmember := Decoding.memberOf?_rel tag value h
  simp only [RelAt, sum]
  generalize Decoding.memberOf? tag ds value = d at hmember
  generalize Decoding.memberOf? tag es value = e at hmember
  cases hmember with
  | none => exact ⟨R.pure _, R.pure _⟩
  | some hde => exact hde

variable (R)

/-- Encoders correspond on a value when their parts do. -/
theorem congruence (value : Value) :
    Congruence (RelOn R fun w => w.depth < value.depth) (RelAt R value) where
  literal _ := ⟨R.pure _, R.pure _⟩
  literals _ := ⟨R.pure _, R.pure _⟩
  literalsOr _ {_ _} h := ⟨R.ite (R.pure _) h.1, R.ite (R.pure _) h.2⟩
  primitive _ := ⟨R.pure _, R.pure _⟩
  object kind {_ _} _ h := by
    cases value with
    | object members =>
        have hp : ∀ key inner, Value.get? key members = some inner →
            inner.depth < (Value.object members).depth := fun _ _ => Value.depth_lt_of_get?
        exact ⟨R.bind (encodeFields_rel hp h) fun _ => R.pure _, acceptsFields_rel kind hp h⟩
    | _ => exact ⟨R.pure _, R.pure _⟩
  record {_ _} h := by
    cases value with
    | object members =>
        have hp : ∀ entry ∈ members, entry.2.depth < (Value.object members).depth :=
          fun _ => Value.depth_lt_of_member
        refine ⟨R.bind (encodeEntries_rel h hp) fun _ => R.pure _, acceptsAll_rel h ?_⟩
        intro inner hinner
        obtain ⟨entry, hentry, rfl⟩ := List.mem_map.1 hinner
        exact hp entry hentry
    | _ => exact ⟨R.pure _, R.pure _⟩
  array {_ _} h := by
    cases value with
    | array values =>
        have hp : ∀ item ∈ values, item.depth < (Value.array values).depth :=
          fun _ => Value.depth_lt_of_item
        exact ⟨R.bind (encodeAll_rel h hp) fun _ => R.pure _, acceptsAll_rel h hp⟩
    | _ => exact ⟨R.pure _, R.pure _⟩
  tuple {_ _} h := by
    cases value with
    | array values =>
        have hp : ∀ item ∈ values, item.depth < (Value.array values).depth :=
          fun _ => Value.depth_lt_of_item
        refine ⟨R.bind (encodePlaces_rel h hp) fun _ => R.pure _, ?_⟩
        show R.rel (if _ then _ else _) (if _ then _ else _)
        rw [h.length_eq]
        exact R.ite (acceptsPlaces_rel h hp) (R.pure _)
    | _ => exact ⟨R.pure _, R.pure _⟩
  intersection {_ _ _ _} hleft hright :=
    ⟨R.bind hleft.1 fun _ => R.bind hright.1 fun _ => R.pure _, andAlso_rel hleft.2 hright.2⟩
  sum tag {_ _} _ h := sum_rel h
  union {_ _ _ _} h hs := ⟨encodeFirst_rel (.cons h hs), acceptsAny_rel (.cons h hs)⟩
  readonly {_ _} h := h

/-- Encoders correspond on all values of a predicate that holds of the values inside of
others when their parts do. -/
theorem congruence_on (hp : ∀ value inner, p value → inner.depth < value.depth → p inner) :
    Congruence (RelOn R p) (RelOn R p) :=
  .forall_below (congruence R) hp

/-- Encoders correspond on all values when their parts do. -/
theorem congruence_all : Congruence (RelOn R fun _ => True) (RelOn R fun _ => True) :=
  congruence_on R fun _ _ _ _ => trivial

end Encoding

/-! ## Source -/

namespace Sourcing

variable {m n : Type → Type} [Monad m] [Monad n] {R : Correspondence m n} {root : String}

theorem nodes_rel {ds : List (Sourcing m)} {es : List (Sourcing n)}
    (h : List.Forall₂ (fun d e => R.rel (d.node root) (e.node root)) ds es) :
    R.rel (nodes root ds) (nodes root es) := by
  induction h with
  | nil => exact R.pure _
  | cons hde _ ih => exact R.bind hde fun _ => R.bind ih fun _ => R.pure _

theorem fields_rel {ds : Entries (Sourcing m)} {es : Entries (Sourcing n)}
    (h : List.Forall₂ (Keyed fun d e => R.rel (d.node root) (e.node root)) ds es) :
    R.rel (fields root ds) (fields root es) := by
  induction h with
  | nil => exact R.pure _
  | @cons d e _ _ hde _ ih =>
      obtain ⟨key, d⟩ := d
      obtain ⟨_, e⟩ := e
      obtain ⟨rfl, hde⟩ := hde
      exact R.bind hde fun _ => R.bind ih fun _ => R.pure _

variable (R root)

/-- Sources on a root identifier correspond when those of their parts do. -/
theorem congruence :
    Congruence (fun (d : Sourcing m) (e : Sourcing n) => R.rel (d.node root) (e.node root))
      (fun d e => R.rel (d.node root) (e.node root)) where
  literal _ := R.pure _
  literals _ := R.pure _
  literalsOr _ {_ _} h := R.bind h fun _ => R.pure _
  primitive _ := R.pure _
  object kind {_ _} _ h := by
    cases kind with
    | required => exact R.bind (fields_rel h) fun _ => R.pure _
    | optional => exact R.bind (fields_rel h) fun _ => R.pure _
  record {_ _} h := R.bind (nodes_rel (.cons h .nil)) fun _ => R.pure _
  array {_ _} h := R.bind (nodes_rel (.cons h .nil)) fun _ => R.pure _
  tuple {_ _} h := R.bind (nodes_rel h) fun _ => R.pure _
  intersection {_ _ _ _} h h' := R.bind (nodes_rel (.cons h (.cons h' .nil))) fun _ => R.pure _
  sum _ {_ _} _ h := R.bind (fields_rel h) fun _ => R.pure _
  union {_ _ _ _} h hs := R.bind (nodes_rel (.cons h hs)) fun _ => R.pure _
  readonly {_ _} h := R.bind (nodes_rel (.cons h .nil)) fun _ => R.pure _

end Sourcing

end Schemata
