import Schemata.Proofs.Lazy.Rendering
import Schemata.Proofs.Lazy.Steadiness
import Schemata.Proofs.Retention

/-!
# Artifacts made of combinators

Combinators make schemas of schemas, lazy ones among them, and of artifacts that were made like
this before.  In a store in which only such schemas have been built, the bodies of cells, and what
they resolve to, are made of combinators as well; so what is decoded and encoded retains its
input, through cells and handles of any kind, alive or not.

**Input.**  Stores that a program comes to that builds schemas of combinators, whose changes keep
to the form of values, and makes any calls (`Conduct.composing`).

**Results.**

* `build_composes`, `run_composes` and `resolve_composes`: what building and running keep.
* `cellDecoding_retains` and `cellEncoding_retains`: what cells make of a value retains it.
* `Conduct.Reached.composed`: every store of such a program is composed.
-/

namespace Schemata

open Json (Value)

/-! ## Predicates that combinators keep -/

namespace Composing

variable {A : Type} [Vocabulary A]

/-- What combinators keep goes back along a function that respects them. -/
theorem comap {B : Type} [Vocabulary B] {p : B → Prop} (h : Composing p) {f : A → B}
    (hf : Respects f)
    (hcustom : ∀ change a, f (Vocabulary.custom change a) = Vocabulary.custom change (f a))
    (hpair : ∀ a b, p (f a) → p (f b) → p (f (Vocabulary.pair a b))) :
    Composing fun a => p (f a) where
  literal value := by
    rw [hf.literal]
    exact h.literal value
  literals values := by
    rw [hf.literals]
    exact h.literals values
  literalsOr values {_} ha := by
    rw [hf.literalsOr]
    exact h.literalsOr values ha
  primitive kind := by
    rw [hf.primitive]
    exact h.primitive kind
  object kind {_} hnodup hxs := by
    rw [hf.object]
    rw [← Entries.keys_mapValues f] at hnodup
    exact h.object kind hnodup (List.forall_mem_map.2 hxs)
  record {_} ha := by
    rw [hf.record]
    exact h.record ha
  array {_} ha := by
    rw [hf.array]
    exact h.array ha
  tuple {_} hxs := by
    rw [hf.tuple]
    exact h.tuple (List.forall_mem_map.2 hxs)
  intersection {_ _} ha hb := by
    rw [hf.intersection]
    exact h.intersection ha hb
  sum tag {_} hxs := by
    rw [hf.sum]
    exact h.sum tag (List.forall_mem_map.2 hxs)
  union {_ _} ha hxs := by
    rw [hf.union]
    exact h.union ha (List.forall_mem_map.2 hxs)
  readonly {_} ha := by
    rw [hf.readonly]
    exact h.readonly ha
  custom {_ _} hchange ha := by
    rw [hcustom]
    exact h.custom hchange ha
  pair {_ _} ha hb := hpair _ _ ha hb

/-- What combinators keep is related to everything by a congruence. -/
theorem congruence {B : Type} [Vocabulary B] {p : A → Prop} (h : Composing p) :
    Congruence (fun a (_ : B) => p a) fun a _ => p a where
  literal := h.literal
  literals := h.literals
  literalsOr values {_ _} := h.literalsOr values
  primitive := h.primitive
  object kind {_ _} hnodup hxs :=
    h.object kind hnodup (forall_of_forall₂ (hxs.imp fun _ _ hx => hx.2))
  record := h.record
  array := h.array
  tuple hxs := h.tuple (forall_of_forall₂ hxs)
  intersection := h.intersection
  sum tag {_ _} _ hxs := h.sum tag (forall_of_forall₂ (hxs.imp fun _ _ hx => hx.2))
  union ha hxs := h.union ha (forall_of_forall₂ hxs)
  readonly := h.readonly

end Composing

/-! ## Artifacts -/

namespace Artifact

variable {A : Type} [Artifact A]

/-- An artifact that combinators make of cells and handles. -/
def Composed (a : A) : Prop :=
  ∀ ⦃p : A → Prop⦄, Composing p → (∀ k, p (owner k)) → (∀ k, p (handle k)) → p a

theorem composed_owner (k : CellId) : Composed (owner k : A) := fun _ _ howner _ => howner k

theorem composed_handle (k : CellId) : Composed (handle k : A) := fun _ _ _ hhandle => hhandle k

/-- Combinators make such artifacts of such artifacts. -/
theorem composed_composing : Composing (Composed : A → Prop) where
  literal value _ hp _ _ := hp.literal value
  literals values _ hp _ _ := hp.literals values
  literalsOr values {_} ha _ hp ho hh := hp.literalsOr values (ha hp ho hh)
  primitive kind _ hp _ _ := hp.primitive kind
  object kind {_} hnodup hxs _ hp ho hh := hp.object kind hnodup fun x hx => hxs x hx hp ho hh
  record {_} ha _ hp ho hh := hp.record (ha hp ho hh)
  array {_} ha _ hp ho hh := hp.array (ha hp ho hh)
  tuple {_} hxs _ hp ho hh := hp.tuple fun x hx => hxs x hx hp ho hh
  intersection {_ _} ha hb _ hp ho hh := hp.intersection (ha hp ho hh) (hb hp ho hh)
  sum tag {_} hxs _ hp ho hh := hp.sum tag fun x hx => hxs x hx hp ho hh
  union {_ _} ha hxs _ hp ho hh := hp.union (ha hp ho hh) fun x hx => hxs x hx hp ho hh
  readonly {_} ha _ hp ho hh := hp.readonly (ha hp ho hh)
  custom {_ _} hchange ha _ hp ho hh := hp.custom hchange (ha hp ho hh)
  pair {_ _} ha hb _ hp ho hh := hp.pair (ha hp ho hh) (hb hp ho hh)

section Readings

variable {B : Type} [Vocabulary B] {p : B → Prop} {owned referred : CellId → B} {a : A}

/-- **What combinators keep holds of a reading of such an artifact** where it does of the readings
of cells and handles, and where pairs are read as pairs or as one of their parts. -/
theorem Composed.reading (ha : Composed a) (hp : Composing p) (howned : ∀ k, p (owned k))
    (hreferred : ∀ k, p (referred k)) {f : A → Blueprint} (hf : Respects f)
    (hcustom : ∀ change b, f (Vocabulary.custom change b) = Vocabulary.custom change (f b))
    (hpair : ∀ b b', f (Vocabulary.pair b b') = f b ∨ f (Vocabulary.pair b b') = f b' ∨
      f (Vocabulary.pair b b') = Vocabulary.pair (f b) (f b'))
    (howner : ∀ k, f (owner k) = .owner k) (hhandle : ∀ k, f (handle k) = .handle k) :
    p ((f a).fold owned referred) := by
  have hfold := hp.comap (Blueprint.respects_fold owned referred)
    (Blueprint.fold_custom owned referred) fun b b' hb hb' => by
      rw [Blueprint.fold_pair]
      exact hp.pair hb hb'
  have hread := hfold.comap hf hcustom fun b b' hb hb' => by
    rcases hpair b b' with h | h | h
    · rwa [h]
    · rwa [h]
    · rw [h]
      exact hfold.pair hb hb'
  refine ha hread (fun k => ?_) fun k => ?_
  · rw [howner, Blueprint.fold]
    exact howned k
  · rw [hhandle, Blueprint.fold]
    exact hreferred k

variable [ThoroughArtifact A]

theorem Composed.decoder (ha : Composed a) (hp : Composing p) (howned : ∀ k, p (owned k))
    (hreferred : ∀ k, p (referred k)) : p ((Artifact.decoder a).fold owned referred) :=
  ha.reading hp howned hreferred LawfulArtifact.respects_decoder ThoroughArtifact.decoder_custom
    (fun b b' => (ThoroughArtifact.decoder_pair b b').imp_right .inr) LawfulArtifact.decoder_owner
    LawfulArtifact.decoder_handle

theorem Composed.encoder (ha : Composed a) (hp : Composing p) (howned : ∀ k, p (owned k))
    (hreferred : ∀ k, p (referred k)) : p ((Artifact.encoder a).fold owned referred) :=
  ha.reading hp howned hreferred LawfulArtifact.respects_encoder ThoroughArtifact.encoder_custom
    (fun b b' => .inr (ThoroughArtifact.encoder_pair b b')) LawfulArtifact.encoder_owner
    LawfulArtifact.encoder_handle

end Readings

end Artifact

/-! ## Schemas -/

namespace Schema

variable {A : Type} [Artifact A]

/-- A schema that combinators make of lazy schemas and of artifacts that they have made, without a
change that gives a value another form. -/
inductive Composed : Schema A → Prop
  | literal (value : Literal) : Composed (.literal value)
  | literals (values : NonEmpty Literal) : Composed (.literals values)
  | literalsOr (values : NonEmpty Literal) {fallback : Schema A} :
      Composed fallback → Composed (.literalsOr values fallback)
  | primitive (kind : Primitive) : Composed (.primitive kind)
  | object (kind : FieldKind) {fields : List (String × Schema A)} :
      (∀ field ∈ fields, Composed field.2) → Composed (.object kind fields)
  | record {codomain : Schema A} : Composed codomain → Composed (.record codomain)
  | array {item : Schema A} : Composed item → Composed (.array item)
  | tuple {components : List (Schema A)} :
      (∀ component ∈ components, Composed component) → Composed (.tuple components)
  | intersection {left right : Schema A} :
      Composed left → Composed right → Composed (.intersection left right)
  | sum (tag : String) {members : List (String × Schema A)} :
      (∀ member ∈ members, Composed member.2) → Composed (.sum tag members)
  | union {head : Schema A} {tail : List (Schema A)} :
      Composed head → (∀ member ∈ tail, Composed member) → Composed (.union ⟨head, tail⟩)
  | readonly {inner : Schema A} : Composed inner → Composed (.readonly inner)
  | custom {change : Custom} {inner : Schema A} :
      change.Retains → Composed inner → Composed (.custom change inner)
  | pair {decoder encoder : Schema A} :
      Composed decoder → Composed encoder → Composed (.pair decoder encoder)
  | lazy (id binder : String) {body : Schema A} (stash : Option String) :
      Composed body → Composed (.lazy id binder body stash)
  | self (binder : String) : Composed (.self binder)
  | ref (name : String) : Composed (.ref name)
  | artifact {built : A} : Artifact.Composed built → Composed (.artifact built)

theorem composed_composing : Composing (Composed : Schema A → Prop) where
  literal := .literal
  literals := .literals
  literalsOr values {_} := .literalsOr values
  primitive := .primitive
  object kind {_} _ := .object kind
  record := .record
  array := .array
  tuple := .tuple
  intersection := .intersection
  sum tag {_} := .sum tag
  union := .union
  readonly := .readonly
  custom := .custom
  pair := .pair

/-- A definition, read as a schema, is made by combinators. -/
theorem composed_fold (definition : Definition) {leaf : String → Schema A}
    (h : ∀ name ∈ definition.references, (leaf name).Composed) : (definition.fold leaf).Composed :=
  definition.fold_rel (composed_composing.congruence (B := Schema A)) (g := leaf) h

end Schema

namespace Lazy

variable {A : Type} [Artifact A]

/-! ## Stores -/

/-- A cell whose body, scope and resolved artifact are made by combinators. -/
structure Cell.Composed (c : Cell A) : Prop where
  body {binder : String} {x : Schema A} {stash : Option String} :
    c.body = .schema binder x stash → x.Composed
  scope : ∀ entry ∈ c.scope, Artifact.Composed entry.2
  resolved {a : A} : c.resolved = some a → Artifact.Composed a

/-- A store all of whose cells, and all that is held, are made by combinators. -/
structure Store.Composed (s : Store A) : Prop where
  cells {k : CellId} {c : Cell A} : s.cells[k]? = some c → c.Composed
  holds {a : A} : s.Holds a → Artifact.Composed a

/-- What is said of the answers of calls from such stores, which leave such stores. -/
def composing : Assurance (Run A) where
  holds p x := ∀ s a s', s.Composed → Runs x s a s' → p a ∧ s'.Composed
  imp h hx s a s' hs hrun := (hx s a s' hs hrun).imp_left (h a)
  pure ha s b s' hs hrun := by
    obtain ⟨rfl, rfl⟩ := hrun.of_pure
    exact ⟨ha, hs⟩
  bind hx hf s b s'' hs hrun := by
    obtain ⟨a, s', hcall, hrun⟩ := hrun.of_bind
    obtain ⟨ha, hs'⟩ := hx s a s' hs hcall
    exact hf a ha s' b s'' hs' hrun

section Steps

variable {α : Type} {p : α → Prop} {x : Run A α} {k : CellId}

theorem composing_throw (halt : Halt) : composing.holds p (throw halt : Run A α) :=
  fun _ _ _ _ hrun => nomatch hrun

theorem composing_modify {f : Store A → Store A} (h : ∀ s : Store A, s.Composed → (f s).Composed) :
    composing.holds (fun _ => True) (modify f : Run A Unit) := by
  intro s _ s' hs hrun
  obtain ⟨_, rfl⟩ := (Runs.update f s).unique hrun
  exact ⟨trivial, h s hs⟩

theorem composing_cell : composing.holds Cell.Composed (cell k : Run A (Cell A)) := by
  intro s c s' hs hrun
  obtain ⟨hc, rfl⟩ := hrun.of_cell
  exact ⟨hs.cells hc, hs⟩

/-- A store of which no more is held than of one that is composed. -/
theorem Store.Composed.of_cells {s s' : Store A} (hs : s.Composed) (hcells : s'.cells = s.cells)
    (hholds : ∀ a, s'.Holds a → Artifact.Composed a) : s'.Composed where
  cells hc := hs.cells (hcells ▸ hc)
  holds := hholds _

theorem Store.Composed.hold {s : Store A} (hs : s.Composed) {a : A} (ha : Artifact.Composed a) :
    (s.hold a).Composed :=
  hs.of_cells rfl fun b hb => by
    rcases Store.holds_hold.1 hb with rfl | hb
    · exact ha
    · exact hs.holds hb

theorem composing_holding {a : A} (ha : Artifact.Composed a) (h : composing.holds p x) :
    composing.holds p (holding a x) := by
  refine composing.bind (composing_modify fun s hs => hs.hold ha) fun _ _ => ?_
  refine composing.bind h fun b hb => ?_
  refine composing.bind (composing_modify fun s hs => ?_) fun _ _ => composing.pure hb
  exact hs.of_cells rfl fun b hb => hs.holds (hb.imp_left List.mem_of_mem_tail)

theorem composing_alive {y : Run A α} (hx : composing.holds p x) (hy : composing.holds p y) :
    composing.holds p (do if (← get).isAlive k then x else y) := by
  have hget : composing.holds (fun _ => True) (get : Run A (Store A)) := by
    intro s t s' hs hrun
    obtain ⟨_, rfl⟩ := (Runs.get s).unique hrun
    exact ⟨trivial, hs⟩
  refine composing.bind hget fun t _ => ?_
  split
  · exact hx
  · exact hy

theorem composing_allocate {id : String} {body : Body A} {scope : List (String × A)}
    (hbody : ∀ {binder x stash}, body = .schema binder x stash → x.Composed)
    (hscope : ∀ entry ∈ scope, Artifact.Composed entry.2) :
    composing.holds Artifact.Composed (allocate id body scope) := by
  intro s a s' hs hrun
  obtain ⟨rfl, rfl⟩ := (Runs.allocate id body scope s).unique hrun
  refine ⟨Artifact.composed_owner _, ⟨fun {k c} hc => ?_, hs.holds⟩⟩
  replace hc : (s.cells.push ⟨id, body, scope, none, false⟩)[k]? = some c := hc
  rw [Array.getElem?_push] at hc
  split at hc
  · obtain rfl := Option.some.inj hc
    exact ⟨hbody, hscope, fun h => nomatch h⟩
  · exact hs.cells hc

end Steps

/-! ## Building and running -/

section Building

variable {scope : List (String × A)}

/-- A list of schemas is built to a list of artifacts that combinators make when each is. -/
theorem buildAll_composes {xs : List (Schema A)}
    (h : ∀ x ∈ xs, composing.holds Artifact.Composed (build scope x)) :
    composing.holds (fun as : List A => ∀ a ∈ as, Artifact.Composed a) (buildAll scope xs) := by
  induction xs with
  | nil =>
      rw [buildAll]
      exact composing.pure (by simp)
  | cons x rest ih =>
      rw [buildAll]
      have hrest := ih fun y hy => h y (List.mem_cons_of_mem _ hy)
      exact composing.bind (h x List.mem_cons_self) fun _ ha => composing.bind hrest fun _ has =>
        composing.pure (List.forall_mem_cons.2 ⟨ha, has⟩)

theorem buildFields_composes {xs : List (String × Schema A)}
    (h : ∀ x ∈ xs, composing.holds Artifact.Composed (build scope x.2)) :
    composing.holds (fun as : Entries A => ∀ a ∈ as, Artifact.Composed a.2)
      (buildFields scope xs) := by
  induction xs with
  | nil =>
      rw [buildFields]
      exact composing.pure (by simp)
  | cons x rest ih =>
      rw [buildFields]
      have hrest := ih fun y hy => h y (List.mem_cons_of_mem _ hy)
      exact composing.bind (h x List.mem_cons_self) fun _ ha => composing.bind hrest fun _ has =>
        composing.pure (List.forall_mem_cons.2 ⟨ha, has⟩)

/-- **A schema made by combinators is built to an artifact made by them.** -/
theorem build_composes {x : Schema A} (hx : x.Composed)
    (hscope : ∀ entry ∈ scope, Artifact.Composed entry.2) :
    composing.holds Artifact.Composed (build scope x) := by
  have hmake : Composing (Artifact.Composed : A → Prop) := Artifact.composed_composing
  have hlookup {name : String} {a : A} (h : scope.lookup name = some a) : Artifact.Composed a :=
    hscope _ (Entries.mem_of_lookup h)
  have hofList {as : Entries A} (has : ∀ a ∈ as, Artifact.Composed a.2) :
      ∀ a ∈ Entries.ofList as, Artifact.Composed a.2 :=
    fun a ha => has a (Entries.mem_of_mem_ofList ha)
  induction hx with
  | literal value => exact composing.pure (hmake.literal value)
  | literals values => exact composing.pure (hmake.literals values)
  | literalsOr values _ ih =>
      exact composing.bind ih fun _ ha => composing.pure (hmake.literalsOr values ha)
  | primitive kind => exact composing.pure (hmake.primitive kind)
  | object kind _ ih =>
      exact composing.bind (buildFields_composes ih) fun as has =>
        composing.pure (hmake.object kind (Entries.nodup_ofList as) (hofList has))
  | record _ ih => exact composing.bind ih fun _ ha => composing.pure (hmake.record ha)
  | array _ ih => exact composing.bind ih fun _ ha => composing.pure (hmake.array ha)
  | tuple _ ih =>
      exact composing.bind (buildAll_composes ih) fun _ has => composing.pure (hmake.tuple has)
  | intersection _ _ ih ih' =>
      exact composing.bind ih fun _ ha => composing.bind ih' fun _ hb =>
        composing.pure (hmake.intersection ha hb)
  | sum tag _ ih =>
      exact composing.bind (buildFields_composes ih) fun as has =>
        composing.pure (hmake.sum tag (hofList has))
  | union _ _ ih ih' =>
      exact composing.bind ih fun _ ha => composing.bind (buildAll_composes ih') fun _ has =>
        composing.pure (hmake.union ha has)
  | readonly _ ih => exact composing.bind ih fun _ ha => composing.pure (hmake.readonly ha)
  | custom hchange _ ih =>
      exact composing.bind ih fun _ ha => composing.pure (hmake.custom hchange ha)
  | pair _ _ ih ih' =>
      exact composing.bind ih fun _ ha => composing.bind ih' fun _ hb =>
        composing.pure (hmake.pair ha hb)
  | lazy id binder stash hbody _ =>
      refine composing_allocate (fun h => ?_) hscope
      obtain ⟨_, rfl, _⟩ := Body.schema.inj h
      exact hbody
  | self binder =>
      rw [build]
      cases h : scope.lookup binder with
      | some a => exact composing.pure (hlookup h)
      | none => exact composing_throw _
  | ref name =>
      rw [build]
      cases h : scope.lookup name with
      | some a => exact composing.pure (hlookup h)
      | none => exact composing_allocate (fun h => nomatch h) hscope
  | artifact ha => exact composing.pure ha

end Building

section Running

variable {definitions : Entries Definition} {k : CellId}

theorem bodySchema_composes {c : Cell A} (hc : c.Composed) :
    composing.holds Schema.Composed (bodySchema definitions c) := by
  rw [bodySchema]
  cases hbody : c.body with
  | schema binder x stash => exact composing.pure (hc.body hbody)
  | definition =>
      cases definitions.lookup c.id with
      | some definition =>
          exact composing.pure (Schema.composed_fold definition fun name _ => .ref name)
      | none => exact composing_throw _

/-- **A definition that runs gives an artifact made by combinators.** -/
theorem run_composes : composing.holds Artifact.Composed (run definitions k : Run A A) := by
  refine composing.bind composing_cell fun c hc => ?_
  refine composing.bind (bodySchema_composes hc) fun x hx => ?_
  refine composing.bind (composing_modify fun s hs => ?_) fun _ _ => build_composes hx ?_
  · refine hs.of_cells rfl fun a ha => ?_
    rcases ha with ha | ha
    · exact hs.holds (.inl ha)
    · rcases Store.names_enter (k := k) (c := c) (s := s) ha with rfl | ha
      · exact Artifact.composed_handle k
      · exact hs.holds (.inr ha)
  · exact List.forall_mem_cons.2 ⟨Artifact.composed_handle k, hc.scope⟩

/-- **A cell resolves to an artifact made by combinators.** -/
theorem resolve_composes : composing.holds Artifact.Composed (resolve definitions k : Run A A) := by
  refine composing.bind composing_cell fun c hc => ?_
  cases hresolved : c.resolved with
  | some a => exact composing.pure (hc.resolved hresolved)
  | none =>
      refine composing.bind run_composes fun a ha => ?_
      refine composing.bind (composing_modify fun s hs => ?_) fun _ _ => composing.pure ha
      refine ⟨fun {j d} hd => ?_, hs.holds⟩
      replace hd : (s.cells.modify k fun c => { c with resolved := some a })[j]? = some d := hd
      rw [Array.getElem?_modify] at hd
      split at hd
      · obtain ⟨c, hc, rfl⟩ := Option.map_eq_some_iff.1 hd
        have hold := hs.cells hc
        refine ⟨hold.body, hold.scope, fun h => ?_⟩
        obtain rfl := Option.some.inj h
        exact ha
      · exact hs.cells hd

end Running

/-! ## Calls of cells -/

section Calls

variable [ThoroughArtifact A] (definitions : Entries Definition)

/-- Decoding by an artifact made by combinators retains the input when cells do. -/
theorem decoding_retains {depth : Nat}
    (hcells : ∀ k, (cellDecoding (A := A) definitions depth k).Retains composing) {a : A}
    (ha : Artifact.Composed a) :
    ((Artifact.decoder a).fold (cellDecoding (A := A) definitions depth)
      (fun k => handleDecoding k (cellDecoding definitions depth k))).Retains composing := by
  refine ha.decoder (Decoding.retains_composing composing) hcells fun k value => ?_
  exact composing_alive (hcells k value) (composing.pure fun _ h => nomatch h)

/-- **What a cell decodes a value to retains it.** -/
theorem cellDecoding_retains : ∀ (depth : Nat) (k : CellId),
    (cellDecoding (A := A) definitions depth k).Retains composing
  | 0, _, _ => composing_throw _
  | depth + 1, k, value => by
      refine composing_holding (Artifact.composed_owner k) ?_
      refine composing.bind resolve_composes fun a ha => ?_
      have hdecode := decoding_retains definitions (cellDecoding_retains depth) ha value
      refine composing.bind hdecode fun o ho => ?_
      refine composing.bind composing_cell fun c _ => composing.pure fun b hb => ?_
      exact ho b (Outcome.under_eq_ok hb)

/-- Encoding by an artifact made by combinators retains the input when cells do. -/
theorem encoding_retains {depth : Nat}
    (hcells : ∀ k, (cellEncoding (A := A) definitions depth k).Retains composing) {a : A}
    (ha : Artifact.Composed a) : (encoding definitions depth a).Retains composing := by
  refine ha.encoder (Encoding.retains_composing composing) hcells fun k value => ⟨?_, ?_⟩
  · exact composing_alive (hcells k value).1 (composing.pure (.refl value))
  · exact composing_alive (hcells k value).2 (composing.pure trivial)

/-- **What a cell encodes a value to retains it.** -/
theorem cellEncoding_retains : ∀ (depth : Nat) (k : CellId),
    (cellEncoding (A := A) definitions depth k).Retains composing
  | 0, _, _ => ⟨composing_throw _, composing_throw _⟩
  | depth + 1, k, value => by
      have howner : Artifact.Composed (Artifact.owner k : A) := Artifact.composed_owner k
      have hpart (a : A) (ha : Artifact.Composed a) :=
        encoding_retains definitions (cellEncoding_retains depth) ha value
      constructor
      · exact composing_holding howner (composing.bind resolve_composes fun a ha => (hpart a ha).1)
      · exact composing_holding howner (composing.bind resolve_composes fun a ha => (hpart a ha).2)

/-- Any use of an artifact made by combinators leaves a composed store. -/
theorem use_composes {depth : Nat} {a : A} (ha : Artifact.Composed a) (how : Use) :
    composing.holds (fun _ => True) (use definitions depth a how) := by
  have hencoding : (encoding definitions depth a).Retains composing :=
    encoding_retains definitions (cellEncoding_retains definitions depth) ha
  cases how with
  | decode value =>
      have hdecode := decoding_retains definitions (cellDecoding_retains definitions depth) ha value
      exact composing.bind (composing_holding ha hdecode) fun _ _ => composing.pure trivial
  | encode value =>
      exact composing.bind (composing_holding ha (hencoding value).1) fun _ _ =>
        composing.pure trivial
  | accepts value =>
      exact composing.bind (composing_holding ha (hencoding value).2) fun _ _ =>
        composing.pure trivial

end Calls

/-! ## Histories -/

namespace Conduct

/-- The conduct of a program that builds schemas made by combinators and uses any artifacts that it
holds. -/
def composing (definitions : Entries Definition) : Conduct A where
  Builds := Schema.Composed
  Calls := (uses definitions).Calls

variable [ThoroughArtifact A] {definitions : Entries Definition} {s s' : Store A}

/-- **A step of such a program keeps stores composed.** -/
theorem Step.composed (hs : s.Composed) (h : (composing definitions).Step s s') : s'.Composed := by
  rcases h.kinds with ⟨x, a, t, hx, _, hrun, rfl⟩ | ⟨hcells, hholds⟩ | ⟨a, ha, _, how, _, hrun⟩
  · obtain ⟨ha, ht⟩ := build_composes hx (by simp) s a t hs hrun
    exact ht.hold ha
  · exact hs.of_cells hcells fun b hb => hs.holds (hholds b hb)
  · exact (use_composes definitions (hs.holds ha) how s _ s' hs hrun).2

omit [ThoroughArtifact A] in
theorem composed_empty : ({} : Store A).Composed where
  cells hc := by simp at hc
  holds ha := by simp [Store.Holds] at ha

/-- **Every store of such a program is composed.** -/
theorem Reached.composed (h : (composing definitions).Reached s) : s.Composed :=
  h.induction composed_empty fun _ _ => Step.composed

end Conduct

end Lazy
end Schemata
