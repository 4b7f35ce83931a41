import Schemata.Proofs.Idempotence

/-!
# Results of the form of their input

What a schema makes of an object is an object, and of any other value no object: every combinator
looks at the value it is given, and merges only what its parts make of that value.  Keys of the
result are distinct where those of the input are.  Changes can break this, by mapping values to
values of another form.

**Input.**  Decoders and encoders in any monad, and an `Assurance` about its computations.

**Algorithm.**  Merging is associative on results of one form (`Json.Value.merge_assoc`), though
it is not on others: a value that is no object replaces what is to its left.

**Results.**

* `Composing`: what is kept by all combinators, where objects have distinct keys and changes keep
  to the form of values.
* `Decoding.retains_composing` and `Encoding.retains_composing`: results retain their input where
  those of all parts do.
* `Json.Value.merge_assoc` and `Outcome.both_assoc`: results of one form are merged, and outcomes
  joined, in either order of grouping.
-/

namespace Schemata

open Json (Value Members)

/-! ## Members written over members -/

namespace Entries

universe u

variable {α : Type u} {k l : String} {v w : α}

theorem set_set_self : ∀ xs : Entries α, (xs.set k v).set k w = xs.set k w
  | [] => by simp [set]
  | (key, value) :: rest => by
      by_cases hk : key = k
      · simp [set, hk]
      · simp [set, hk, set_set_self rest]

/-- Writes under two keys can be swapped where the one that is then first moves nothing. -/
theorem set_swap (hne : k ≠ l) : ∀ {xs : Entries α}, k ∈ xs.keys →
    (xs.set l w).set k v = (xs.set k v).set l w
  | (key, value) :: rest, h => by
      by_cases hk : key = k
      · subst hk
        simp [set, hne]
      · have hrest : k ∈ keys rest := (List.mem_cons.1 h).resolve_left (Ne.symm hk)
        by_cases hl : key = l
        · subst hl
          simp [set, hk]
        · simp [set, hk, hl, set_swap hne hrest]

theorem setAll_cons (xs : Entries α) (k : String) (v : α) (ys : Entries α) :
    xs.setAll ((k, v) :: ys) = (xs.set k v).setAll ys := rfl

theorem setAll_set_swap : ∀ {ys xs : Entries α}, k ∉ ys.keys → k ∈ xs.keys →
    (xs.setAll ys).set k v = (xs.set k v).setAll ys
  | [], _, _, _ => rfl
  | (key, value) :: rest, xs, hys, hxs => by
      obtain ⟨hne, hrest⟩ : k ≠ key ∧ k ∉ keys rest := by simpa [keys] using hys
      rw [setAll_cons, setAll_cons, setAll_set_swap hrest ((mem_keys_set xs).2 (.inr hxs)),
        set_swap hne hxs]

/-- Writing entries and then one more is writing the entries with that one among them. -/
theorem setAll_set : ∀ {ys : Entries α}, ys.keys.Nodup → ∀ xs : Entries α,
    xs.setAll (ys.set k v) = (xs.setAll ys).set k v
  | [], _, _ => rfl
  | (key, value) :: rest, hys, xs => by
      obtain ⟨hkey, hrest⟩ : key ∉ keys rest ∧ (keys rest).Nodup := List.nodup_cons.1 hys
      by_cases hk : key = k
      · subst hk
        rw [set, if_pos rfl, setAll_cons, setAll_cons,
          setAll_set_swap hkey ((mem_keys_set xs).2 (.inl rfl)), set_set_self]
      · rw [set, if_neg hk, setAll_cons, setAll_cons, setAll_set hrest]

/-- **Writing over is associative** where no key is written twice on the way. -/
theorem setAll_assoc (xs : Entries α) : ∀ {zs ys : Entries α}, ys.keys.Nodup →
    (xs.setAll ys).setAll zs = xs.setAll (ys.setAll zs)
  | [], _, _ => rfl
  | (key, value) :: rest, ys, hys => by
      rw [setAll_cons, setAll_cons, ← setAll_set hys, setAll_assoc xs (nodup_set key value hys)]

end Entries

/-! ## The form of values -/

namespace Json.Value

/-- Whether no member of an object has the key of another, as in every object that is read. -/
def Distinct : Value → Prop
  | .object members => (Entries.keys members).Nodup
  | _ => True

/-- A result of the form of a value: an object just where the value is one, with distinct keys
where the value has them. -/
structure Retains (value a : Value) : Prop where
  object : a.members?.isSome = value.members?.isSome
  distinct : value.Distinct → a.Distinct

variable {value a b c : Value}

theorem Retains.refl (value : Value) : value.Retains value := ⟨rfl, fun h => h⟩

theorem Retains.trans (h : value.Retains a) (h' : a.Retains b) : value.Retains b where
  object := h'.object.trans h.object
  distinct hvalue := h'.distinct (h.distinct hvalue)

theorem retains_object {members out : Members}
    (h : (Entries.keys members).Nodup → (Entries.keys out).Nodup) :
    (Value.object members).Retains (.object out) := ⟨rfl, h⟩

theorem retains_array (items out : List Value) : (Value.array items).Retains (.array out) :=
  ⟨rfl, fun _ => trivial⟩

/-- What retains an object is one. -/
theorem Retains.exists_members {members : Members} (h : (Value.object members).Retains a) :
    ∃ out, a = .object out := by
  have hsome := h.object
  cases a with
  | object out => exact ⟨out, rfl⟩
  | _ => cases hsome

theorem merge_of_members?_eq_none (h : b.members? = none) (a : Value) : merge a b = b := by
  cases b with
  | object => cases h
  | _ => cases a <;> rfl

/-- What retains a value that is no object is none. -/
theorem Retains.members?_eq_none (h : value.Retains a) (hvalue : value.members? = none) :
    a.members? = none := by
  have hnone := h.object
  rw [hvalue] at hnone
  simpa using hnone

/-- Results that retain a value are merged to one. -/
theorem Retains.merge (ha : value.Retains a) (hb : value.Retains b) :
    value.Retains (merge a b) := by
  cases hvalue : value.members? with
  | none =>
      rw [merge_of_members?_eq_none (hb.members?_eq_none hvalue)]
      exact hb
  | some members =>
      cases value with
      | object =>
          obtain ⟨xs, rfl⟩ := ha.exists_members
          obtain ⟨ys, rfl⟩ := hb.exists_members
          exact retains_object fun hnodup => Entries.nodup_setAll ys (ha.distinct hnodup)
      | _ => cases hvalue

/-- **Merging is associative on results of one form.** -/
theorem merge_assoc (hvalue : value.Distinct) (ha : value.Retains a) (hb : value.Retains b)
    (hc : value.Retains c) : Schemata.merge (Schemata.merge a b) c =
      Schemata.merge a (Schemata.merge b c) := by
  cases hmembers : value.members? with
  | none =>
      have hnone := hc.members?_eq_none hmembers
      rw [merge_of_members?_eq_none hnone, merge_of_members?_eq_none hnone,
        merge_of_members?_eq_none hnone]
  | some members =>
      cases value with
      | object =>
          obtain ⟨xs, rfl⟩ := ha.exists_members
          obtain ⟨ys, rfl⟩ := hb.exists_members
          obtain ⟨zs, rfl⟩ := hc.exists_members
          exact congrArg Value.object (Entries.setAll_assoc xs (hb.distinct hvalue))
      | _ => cases hmembers

end Json.Value

/-! ## Outcomes -/

theorem NonEmpty.append_assoc {α : Type} (xs ys zs : NonEmpty α) :
    xs ++ ys ++ zs = xs ++ (ys ++ zs) :=
  congrArg (NonEmpty.mk xs.head) (List.append_assoc xs.tail ys.toList zs.toList)

namespace Outcome

variable {α : Type} {join : α → α → α}

/-- **Outcomes are joined associatively** where their values are: the failures of all of them
stand one after the other, whichever of them have failed. -/
theorem both_assoc {o p q : Outcome α} (h : ∀ a b c, o = .ok a → p = .ok b → q = .ok c →
    join (join a b) c = join a (join b c)) :
    (o.both join p).both join q = o.both join (p.both join q) := by
  cases o with
  | ok a =>
      cases p with
      | ok b =>
          cases q with
          | ok c => exact congrArg Except.ok (h a b c rfl rfl rfl)
          | error g => rfl
      | error f => cases q <;> rfl
  | error e =>
      cases p with
      | ok b => cases q <;> rfl
      | error f =>
          cases q with
          | ok c => rfl
          | error g => exact congrArg Except.error (NonEmpty.append_assoc e f g)

/-- An outcome whose value, if it is one, retains an input. -/
def Retains (value : Value) (o : Outcome Value) : Prop := ∀ a, o = .ok a → value.Retains a

theorem retains_error (value : Value) (e : DecodeError) :
    Outcome.Retains value (.error e) := by
  intro a h
  cases h

end Outcome

/-! ## What all combinators keep -/

/-- A change that keeps to the form of values, if it changes values at all. -/
def Custom.Retains : Custom → Prop
  | .imap forth back => ∀ value : Value, value.Retains (forth value) ∧ value.Retains (back value)
  | .parse step => ∀ value : Value, Outcome.Retains value (step value)
  | _ => True

/-- A predicate on a vocabulary that holds of what combinators make of parts of which it holds,
where objects have distinct keys and changes keep to the form of values. -/
structure Composing {A : Type} [Vocabulary A] (p : A → Prop) : Prop where
  literal (value : Literal) : p (Vocabulary.literal value)
  literals (values : NonEmpty Literal) : p (Vocabulary.literals values)
  literalsOr (values : NonEmpty Literal) {a : A} : p a → p (Vocabulary.literalsOr values a)
  primitive (kind : Primitive) : p (Vocabulary.primitive kind)
  object (kind : FieldKind) {xs : Entries A} : xs.keys.Nodup → (∀ x ∈ xs, p x.2) →
    p (Vocabulary.object kind xs)
  record {a : A} : p a → p (Vocabulary.record a)
  array {a : A} : p a → p (Vocabulary.array a)
  tuple {xs : List A} : (∀ x ∈ xs, p x) → p (Vocabulary.tuple xs)
  intersection {a b : A} : p a → p b → p (Vocabulary.intersection a b)
  sum (tag : String) {xs : Entries A} : (∀ x ∈ xs, p x.2) → p (Vocabulary.sum tag xs)
  union {a : A} {xs : List A} : p a → (∀ x ∈ xs, p x) → p (Vocabulary.union ⟨a, xs⟩)
  readonly {a : A} : p a → p (Vocabulary.readonly a)
  custom {change : Custom} {a : A} : change.Retains → p a → p (Vocabulary.custom change a)
  pair {a b : A} : p a → p b → p (Vocabulary.pair a b)

/-! ## Assurances -/

/-- What can be said of the answers of computations in a monad: where it is said of all that
follows an answer of which something is said, it is said of the whole. -/
structure Assurance (m : Type → Type) [Monad m] where
  holds {α : Type} : (α → Prop) → m α → Prop
  imp {α : Type} {p q : α → Prop} {x : m α} : (∀ a, p a → q a) → holds p x → holds q x
  pure {α : Type} {p : α → Prop} {a : α} : p a → holds p (pure a)
  bind {α β : Type} {p : α → Prop} {q : β → Prop} {x : m α} {f : α → m β} :
    holds p x → (∀ a, p a → holds q (f a)) → holds q (x >>= f)

namespace Decoding

variable {m : Type → Type} [Monad m] (R : Assurance m)

/-- A decoder whose values retain their input. -/
def Retains (d : Decoding m) : Prop :=
  ∀ value, R.holds (Outcome.Retains value) (d.decode value)

variable {R} {d e : Decoding m}

/-- Of fields, no others than those that are declared come out, in their order. -/
theorem fields_retain (kind : FieldKind) (members : Members) :
    ∀ {parts : Entries (Decoding m)}, (∀ part ∈ parts, part.2.Retains R) →
      R.holds (fun o => ∀ out, o = .ok out → (Entries.keys out).Sublist parts.keys)
        (fields kind members parts)
  | [], _ => R.pure fun out h => by
      obtain rfl := Except.ok.inj h
      exact List.Sublist.refl _
  | (key, part) :: rest, h => by
      have hpart := h (key, part) List.mem_cons_self
      have hrest := fields_retain kind members fun part hpart =>
        h part (List.mem_cons_of_mem _ hpart)
      have hfield : R.holds (fun o => ∀ out, o = .ok out → (Entries.keys out).Sublist [key])
          (field kind key part (Value.get? key members)) := by
        cases Value.get? key members with
        | some value =>
            refine R.bind (hpart value) fun o _ => R.pure fun out hout => ?_
            obtain ⟨_, _, rfl⟩ := Outcome.map_eq_ok hout
            exact List.Sublist.refl _
        | none =>
            cases kind with
            | required => exact R.pure fun out hout => nomatch hout
            | optional =>
                refine R.pure fun out hout => ?_
                obtain rfl := Except.ok.inj hout
                exact List.nil_sublist _
      refine R.bind hfield fun first hfirst => R.bind hrest fun others hothers => R.pure ?_
      intro out hout
      obtain ⟨xs, ys, hxs, hys, rfl⟩ := Outcome.both_eq_ok hout
      have hkeys : Entries.keys (xs ++ ys) = Entries.keys xs ++ Entries.keys ys :=
        List.map_append
      rw [hkeys]
      exact (hfirst xs hxs).append (hothers ys hys)

/-- Of members, those under the same keys come out. -/
theorem entries_retain (h : d.Retains R) : ∀ members : Members,
    R.holds (fun o => ∀ out, o = .ok out → Entries.keys out = Entries.keys members)
      (entries d members)
  | [] => R.pure fun out hout => by rw [← Except.ok.inj hout]
  | (key, value) :: rest => by
      refine R.bind (h value) fun o _ => R.bind (entries_retain h rest) fun others hothers =>
        R.pure fun out hout => ?_
      obtain ⟨x, ys, hx, hys, rfl⟩ := Outcome.both_eq_ok hout
      obtain ⟨_, _, rfl⟩ := Outcome.map_eq_ok hx
      exact congrArg (key :: ·) (hothers ys hys)

theorem items_retain (h : d.Retains R) : ∀ (index : Nat) (values : List Value),
    R.holds (fun _ => True) (items d index values)
  | _, [] => R.pure trivial
  | index, value :: rest =>
      R.bind (h value) fun _ _ => R.bind (items_retain h (index + 1) rest) fun _ _ => R.pure trivial

theorem places_retain : ∀ {parts : List (Decoding m)}, (∀ part ∈ parts, part.Retains R) →
    ∀ (index : Nat) (values : List Value), R.holds (fun _ => True) (places index parts values)
  | [], _, _, _ => by
      rw [places]
      exact R.pure trivial
  | part :: parts, h, index, values => by
      have hrest := places_retain (fun part hpart => h part (List.mem_cons_of_mem _ hpart))
        (index + 1)
      cases values with
      | nil => exact R.bind (hrest []) fun _ _ => R.pure trivial
      | cons value rest =>
          exact R.bind (h part List.mem_cons_self value) fun _ _ =>
            R.bind (hrest rest) fun _ _ => R.pure trivial

theorem firstOf_retains {value : Value} : ∀ {parts : List (Decoding m)} {d : Decoding m}
    (index : Nat), d.Retains R → (∀ part ∈ parts, part.Retains R) →
    R.holds (Outcome.Retains value) (firstOf value index d parts)
  | [], d, index, hd, _ => by
      refine R.bind (hd value) fun o ho => R.pure fun a ha => ?_
      exact ho a (Outcome.under_eq_ok ha)
  | next :: rest, d, index, hd, h => by
      refine R.bind (hd value) fun o ho => ?_
      cases o with
      | ok decoded => exact R.pure ho
      | error error =>
          have hrest : R.holds (Outcome.Retains value) (firstOf value (index + 1) next rest) :=
            firstOf_retains (index + 1) (h next List.mem_cons_self)
              fun part hpart => h part (List.mem_cons_of_mem _ hpart)
          refine R.bind hrest fun others hothers => ?_
          cases others with
          | ok decoded => exact R.pure hothers
          | error errors => exact R.pure (Outcome.retains_error _ _)

theorem customOutcome_retains {change : Custom} (hchange : change.Retains) {value : Value}
    {o : Outcome Value} (h : Outcome.Retains value o) :
    Outcome.Retains value (customOutcome value change o) := by
  intro a ha
  cases o with
  | error error => cases change <;> cases ha
  | ok decoded =>
      have hdecoded := h decoded rfl
      cases change with
      | imap forth back =>
          obtain rfl := Except.ok.inj ha
          exact hdecoded.trans (hchange decoded).1
      | parse step => exact hdecoded.trans (hchange decoded a ha)
      | refine holds expected =>
          rw [customOutcome] at ha
          split at ha
          · obtain rfl := Except.ok.inj ha
            exact hdecoded
          · cases ha
      | relabel expected =>
          obtain rfl := Except.ok.inj ha
          exact hdecoded
      | annotate message =>
          obtain rfl := Except.ok.inj ha
          exact hdecoded

variable (R)

theorem test_retains (holds : Value → Bool) (expected : String) :
    (test holds expected : Decoding m).Retains R := by
  refine fun value => R.pure fun a ha => ?_
  split at ha
  · obtain rfl := Except.ok.inj ha
    exact .refl _
  · cases ha

/-- **What is decoded retains the input** where it does for all parts. -/
theorem retains_composing : Composing fun d : Decoding m => d.Retains R where
  literal _ := test_retains R _ _
  literals _ := test_retains R _ _
  literalsOr values {d} h value := by
    show R.holds _ (if _ then Pure.pure (Except.ok value) else d.decode value)
    split
    · refine R.pure fun a ha => ?_
      obtain rfl := Except.ok.inj ha
      exact .refl _
    · exact h value
  primitive kind := test_retains R _ _
  object kind {parts} hnodup h value := by
    cases value with
    | object members =>
        refine R.bind (fields_retain kind members h) fun o ho => R.pure fun a ha => ?_
        obtain ⟨out, hout, rfl⟩ := Outcome.map_eq_ok ha
        exact Value.retains_object fun _ => hnodup.sublist (ho out hout)
    | _ => exact R.pure (Outcome.retains_error _ _)
  record {d} h value := by
    cases value with
    | object members =>
        refine R.bind (entries_retain h members) fun o ho => R.pure fun a ha => ?_
        obtain ⟨out, hout, rfl⟩ := Outcome.map_eq_ok ha
        exact Value.retains_object fun hkeys => ho out hout ▸ hkeys
    | _ => exact R.pure (Outcome.retains_error _ _)
  array {d} h value := by
    cases value with
    | array values =>
        refine R.bind (items_retain h 0 values) fun o _ => R.pure fun a ha => ?_
        obtain ⟨out, _, rfl⟩ := Outcome.map_eq_ok ha
        exact Value.retains_array values out
    | _ => exact R.pure (Outcome.retains_error _ _)
  tuple {parts} h value := by
    cases value with
    | array values =>
        refine R.bind (places_retain h 0 values) fun o _ => R.pure fun a ha => ?_
        obtain ⟨out, _, rfl⟩ := Outcome.map_eq_ok ha
        exact Value.retains_array values out
    | _ => exact R.pure (Outcome.retains_error _ _)
  intersection {d e} hd he value := by
    refine R.bind (hd value) fun o ho => R.bind (he value) fun p hp => R.pure fun c hc => ?_
    obtain ⟨a, b, ha, hb, rfl⟩ := Outcome.both_eq_ok hc
    exact (ho a ha).merge (hp b hb)
  sum tag {parts} h value := by
    cases value with
    | object members =>
        show R.holds _ ((sum tag parts).decode (.object members))
        simp only [sum]
        cases Value.get? tag members with
        | none => exact R.pure (Outcome.retains_error _ _)
        | some named =>
            cases hmember : memberOf? tag parts (.object members) with
            | none => exact R.pure (Outcome.retains_error _ _)
            | some part =>
                obtain ⟨key, hpart⟩ := mem_of_memberOf? hmember
                exact h (key, part) hpart _
    | _ => exact R.pure (Outcome.retains_error _ _)
  union {d parts} hd h value := firstOf_retains 0 hd h
  readonly {_} h := h
  custom {_ _} hchange h value :=
    R.bind (h value) fun _ ho => R.pure (customOutcome_retains hchange ho)
  pair {_ _} h _ := h

end Decoding

namespace Encoding

variable {m : Type → Type} [Monad m] (R : Assurance m)

/-- An encoder whose values retain their input. -/
def Retains (e : Encoding m) : Prop :=
  ∀ value : Value, R.holds value.Retains (e.encode value) ∧
    R.holds (fun _ => True) (e.accepts value)

variable {R} {d e : Encoding m}

theorem andAlso_holds {x y : m Bool} (hx : R.holds (fun _ => True) x)
    (hy : R.holds (fun _ => True) y) : R.holds (fun _ => True) (andAlso x y) := by
  refine R.bind hx fun accepted _ => ?_
  cases accepted with
  | true => exact hy
  | false => exact R.pure trivial

theorem orElse_holds {x y : m Bool} (hx : R.holds (fun _ => True) x)
    (hy : R.holds (fun _ => True) y) : R.holds (fun _ => True) (orElse x y) := by
  refine R.bind hx fun accepted _ => ?_
  cases accepted with
  | true => exact R.pure trivial
  | false => exact hy

/-- Of fields, no others than those that are declared are encoded, in their order. -/
theorem encodeFields_retain (members : Members) : ∀ {parts : Entries (Encoding m)},
    (∀ part ∈ parts, part.2.Retains R) →
      R.holds (fun out => (Entries.keys out).Sublist parts.keys) (encodeFields members parts)
  | [], _ => R.pure (List.Sublist.refl _)
  | (key, part) :: rest, h => by
      have hrest := encodeFields_retain members fun part hpart =>
        h part (List.mem_cons_of_mem _ hpart)
      rw [encodeFields]
      cases Value.get? key members with
      | some value =>
          exact R.bind (h (key, part) List.mem_cons_self value).1 fun _ _ =>
            R.bind hrest fun _ hothers => R.pure (hothers.cons_cons key)
      | none => exact R.imp (fun _ hout => hout.cons key) hrest

theorem acceptsFields_holds (kind : FieldKind) (members : Members) :
    ∀ {parts : Entries (Encoding m)}, (∀ part ∈ parts, part.2.Retains R) →
      R.holds (fun _ => True) (acceptsFields kind members parts)
  | [], _ => R.pure trivial
  | (key, part) :: rest, h => by
      have hrest := acceptsFields_holds kind members fun part hpart =>
        h part (List.mem_cons_of_mem _ hpart)
      simp only [acceptsFields]
      cases Value.get? key members with
      | some value => exact andAlso_holds (h (key, part) List.mem_cons_self value).2 hrest
      | none =>
          cases kind with
          | required => exact R.pure trivial
          | optional => exact hrest

/-- Of members, those under the same keys are encoded. -/
theorem encodeEntries_retain (h : e.Retains R) : ∀ members : Members,
    R.holds (fun out => Entries.keys out = Entries.keys members) (encodeEntries e members)
  | [] => R.pure rfl
  | (key, value) :: rest =>
      R.bind (h value).1 fun _ _ => R.bind (encodeEntries_retain h rest) fun _ hothers =>
        R.pure (congrArg (key :: ·) hothers)

theorem acceptsAll_holds (h : e.Retains R) (values : List Value) :
    R.holds (fun _ => True) (acceptsAll e values) := by
  induction values with
  | nil => exact R.pure trivial
  | cons value rest ih => exact andAlso_holds (h value).2 ih

theorem encodeAll_holds (h : e.Retains R) (values : List Value) :
    R.holds (fun _ => True) (encodeAll e values) := by
  induction values with
  | nil => exact R.pure trivial
  | cons value rest ih => exact R.bind (h value).1 fun _ _ => R.bind ih fun _ _ => R.pure trivial

theorem places_hold {parts : List (Encoding m)} (h : ∀ part ∈ parts, part.Retains R)
    (values : List Value) : R.holds (fun _ => True) (encodePlaces parts values) ∧
      R.holds (fun _ => True) (acceptsPlaces parts values) := by
  induction parts generalizing values with
  | nil => cases values <;> exact ⟨R.pure trivial, R.pure trivial⟩
  | cons part parts ih =>
      obtain ⟨hpart, hparts⟩ := List.forall_mem_cons.1 h
      cases values with
      | nil => exact ⟨R.pure trivial, R.pure trivial⟩
      | cons value rest =>
          obtain ⟨hencode, haccepts⟩ := ih hparts rest
          constructor
          · exact R.bind (hpart value).1 fun _ _ => R.bind hencode fun _ _ => R.pure trivial
          · exact andAlso_holds (hpart value).2 haccepts

/-- The first member that accepts a value, or none. -/
theorem first_retains (value : Value) : ∀ {parts : List (Encoding m)},
    (∀ part ∈ parts, part.Retains R) → R.holds value.Retains (encodeFirst value parts) ∧
      R.holds (fun _ => True) (acceptsAny value parts)
  | [], _ => ⟨R.pure (.refl value), R.pure trivial⟩
  | part :: rest, h => by
      have hpart := h part List.mem_cons_self value
      have hrest := first_retains value fun part hpart => h part (List.mem_cons_of_mem _ hpart)
      refine ⟨R.bind hpart.2 fun accepted _ => ?_, orElse_holds hpart.2 hrest.2⟩
      cases accepted with
      | true => exact hpart.1
      | false => exact hrest.1

theorem customValue_retains {change : Custom} (hchange : change.Retains) (value : Value) :
    value.Retains (customValue value change) := by
  cases change with
  | imap forth back => exact (hchange value).2
  | _ => exact .refl value

variable (R)

theorem test_retains (holds : Value → Bool) : (test holds : Encoding m).Retains R :=
  fun value => ⟨R.pure (.refl value), R.pure trivial⟩

/-- **What is encoded retains the input** where it does for all parts. -/
theorem retains_composing : Composing fun e : Encoding m => e.Retains R where
  literal _ := test_retains R _
  literals _ := test_retains R _
  literalsOr values {e} h value := by
    show R.holds _ (if _ then Pure.pure value else e.encode value) ∧
      R.holds _ (if _ then Pure.pure true else e.accepts value)
    split
    · exact ⟨R.pure (.refl value), R.pure trivial⟩
    · exact h value
  primitive kind := test_retains R _
  object kind {parts} hnodup h value := by
    cases value with
    | object members =>
        refine ⟨R.bind (encodeFields_retain members h) fun out hout => R.pure ?_,
          acceptsFields_holds kind members h⟩
        exact Value.retains_object fun _ => hnodup.sublist hout
    | _ => exact ⟨R.pure (.refl _), R.pure trivial⟩
  record {e} h value := by
    cases value with
    | object members =>
        refine ⟨R.bind (encodeEntries_retain h members) fun out hout => R.pure ?_,
          acceptsAll_holds h _⟩
        exact Value.retains_object fun hkeys => hout ▸ hkeys
    | _ => exact ⟨R.pure (.refl _), R.pure trivial⟩
  array {e} h value := by
    cases value with
    | array values =>
        exact ⟨R.bind (encodeAll_holds h values) fun out _ => R.pure (Value.retains_array _ out),
          acceptsAll_holds h values⟩
    | _ => exact ⟨R.pure (.refl _), R.pure trivial⟩
  tuple {parts} h value := by
    cases value with
    | array values =>
        have hplaces := places_hold h values
        refine ⟨R.bind hplaces.1 fun out _ => R.pure (Value.retains_array _ out), ?_⟩
        show R.holds _ (if _ then acceptsPlaces parts values else Pure.pure false)
        split
        · exact hplaces.2
        · exact R.pure trivial
    | _ => exact ⟨R.pure (.refl _), R.pure trivial⟩
  intersection {d e} hd he value :=
    ⟨R.bind (hd value).1 fun _ ha => R.bind (he value).1 fun _ hb => R.pure (ha.merge hb),
      andAlso_holds (hd value).2 (he value).2⟩
  sum tag {parts} h value := by
    show R.holds _ ((sum tag parts).encode value) ∧ R.holds _ ((sum tag parts).accepts value)
    simp only [sum]
    cases hmember : Decoding.memberOf? tag parts value with
    | some part =>
        obtain ⟨key, hpart⟩ := Decoding.mem_of_memberOf? hmember
        exact h (key, part) hpart value
    | none => exact ⟨R.pure (.refl value), R.pure trivial⟩
  union {_ _} hd h value := first_retains value (List.forall_mem_cons.2 ⟨hd, h⟩)
  readonly {_} h := h
  custom {change _} hchange h value := by
    have hvalue := customValue_retains hchange value
    have hpart := h (customValue value change)
    exact ⟨R.imp (fun _ ha => hvalue.trans ha) hpart.1, andAlso_holds hpart.2 (R.pure trivial)⟩
  pair {_ _} _ h := h

end Encoding

end Schemata
