import Schemata.Proofs.Lazy.Leaves
import Schemata.Proofs.Lazy.Logging

/-!
# What building and running leave behind

Building a schema puts new cells at the end of a store and touches nothing else.  The new cells
are those of the lazy schemas in the schema, in the scope in which it is built; what their bodies
mention the schema mentions.  The artifact owns new cells, and its other leaves come from the
scope and from the artifacts that the schema mentions.

**Results.**

* `build_adds`: what building a schema does to a store, and where the leaves of the artifact come
  from.
* `run_adds`: the same of running a definition, which is logged before its body is built.
* `resolve_cases`: a cell is resolved by what it has resolved to, or by running its definition.
-/

namespace Schemata

open Blueprint (Leaf)

/-! ## Rules for schemas -/

/-- A rule for schemas: what may stand where names are bound. -/
structure Schema.Rule where
  /-- The names that may be referred to as bound by a lazy schema around. -/
  self : List String → String → Prop
  /-- The names that may be referred to as definitions. -/
  ref : List String → String → Prop

namespace Schema

variable {A : Type}

mutual
/-- Whether a schema follows a rule where names are bound around it. -/
def Follows (rule : Rule) (names : List String) : Schema A → Prop
  | .literal _ => True
  | .literals _ => True
  | .literalsOr _ fallback => Follows rule names fallback
  | .primitive _ => True
  | .object _ fields => FollowsInFields rule names fields
  | .record codomain => Follows rule names codomain
  | .array item => Follows rule names item
  | .tuple components => FollowsInAll rule names components
  | .intersection left right => Follows rule names left ∧ Follows rule names right
  | .sum _ members => FollowsInFields rule names members
  | .union ⟨head, tail⟩ => Follows rule names head ∧ FollowsInAll rule names tail
  | .readonly inner => Follows rule names inner
  | .custom _ inner => Follows rule names inner
  | .pair decoder encoder => Follows rule names decoder ∧ Follows rule names encoder
  | .lazy _ binder body _ => Follows rule (binder :: names) body
  | .self binder => rule.self names binder
  | .ref name => rule.ref names name
  | .artifact _ => True

def FollowsInAll (rule : Rule) (names : List String) : List (Schema A) → Prop
  | [] => True
  | schema :: rest => Follows rule names schema ∧ FollowsInAll rule names rest

def FollowsInFields (rule : Rule) (names : List String) : List (String × Schema A) → Prop
  | [] => True
  | (_, schema) :: rest => Follows rule names schema ∧ FollowsInFields rule names rest
end

theorem followsInAll_iff {rule : Rule} {names : List String} {xs : List (Schema A)} :
    FollowsInAll rule names xs ↔ ∀ x ∈ xs, x.Follows rule names := by
  induction xs with
  | nil => simp [FollowsInAll]
  | cons x rest ih => simp [FollowsInAll, ih]

theorem followsInFields_iff {rule : Rule} {names : List String} {xs : List (String × Schema A)} :
    FollowsInFields rule names xs ↔ ∀ x ∈ xs, x.2.Follows rule names := by
  induction xs with
  | nil => simp [FollowsInFields]
  | cons x rest ih => simp [FollowsInFields, ih]

theorem mem_givenInAll {a : A} {xs : List (Schema A)} :
    a ∈ givenInAll xs ↔ ∃ x ∈ xs, a ∈ x.given := by
  induction xs with
  | nil => simp [givenInAll]
  | cons x rest ih => simp [givenInAll, ih]

theorem mem_givenInFields {a : A} {xs : List (String × Schema A)} :
    a ∈ givenInFields xs ↔ ∃ x ∈ xs, a ∈ x.2.given := by
  induction xs with
  | nil => simp [givenInFields]
  | cons x rest ih => simp [givenInFields, ih]

/-- Schemas that mention no artifact and follow a rule make such schemas. -/
theorem closed_follows (rule : Rule) (names : List String) :
    Closed fun x : Schema A => x.given = [] ∧ x.Follows rule names where
  literal value := by
    show (Schema.literal value).given = [] ∧ (Schema.literal value).Follows rule names
    simp [given, Follows]
  literals values := by
    show (Schema.literals values).given = [] ∧ (Schema.literals values).Follows rule names
    simp [given, Follows]
  literalsOr values {x} h := by
    show (Schema.literalsOr values x).given = [] ∧ (Schema.literalsOr values x).Follows rule names
    rwa [given, Follows]
  primitive kind := by
    show (Schema.primitive kind).given = [] ∧ (Schema.primitive kind).Follows rule names
    simp [given, Follows]
  object kind {xs} h := by
    show (Schema.object kind xs).given = [] ∧ (Schema.object kind xs).Follows rule names
    rw [given, Follows, List.eq_nil_iff_forall_not_mem, followsInFields_iff]
    refine ⟨fun a ha => ?_, fun x hx => (h x hx).2⟩
    obtain ⟨x, hx, ha⟩ := mem_givenInFields.1 ha
    simp [(h x hx).1] at ha
  record {x} h := by
    show (Schema.record x).given = [] ∧ (Schema.record x).Follows rule names
    rwa [given, Follows]
  array {x} h := by
    show (Schema.array x).given = [] ∧ (Schema.array x).Follows rule names
    rwa [given, Follows]
  tuple {xs} h := by
    show (Schema.tuple xs).given = [] ∧ (Schema.tuple xs).Follows rule names
    rw [given, Follows, List.eq_nil_iff_forall_not_mem, followsInAll_iff]
    refine ⟨fun a ha => ?_, fun x hx => (h x hx).2⟩
    obtain ⟨x, hx, ha⟩ := mem_givenInAll.1 ha
    simp [(h x hx).1] at ha
  intersection {x y} hx hy := by
    show (Schema.intersection x y).given = [] ∧ (Schema.intersection x y).Follows rule names
    rw [given, Follows, hx.1, hy.1]
    exact ⟨rfl, hx.2, hy.2⟩
  sum tag {xs} h := by
    show (Schema.sum tag xs).given = [] ∧ (Schema.sum tag xs).Follows rule names
    rw [given, Follows, List.eq_nil_iff_forall_not_mem, followsInFields_iff]
    refine ⟨fun a ha => ?_, fun x hx => (h x hx).2⟩
    obtain ⟨x, hx, ha⟩ := mem_givenInFields.1 ha
    simp [(h x hx).1] at ha
  union {x xs} hx h := by
    show (Schema.union ⟨x, xs⟩).given = [] ∧ (Schema.union ⟨x, xs⟩).Follows rule names
    rw [given, Follows, hx.1, List.nil_append, List.eq_nil_iff_forall_not_mem, followsInAll_iff]
    refine ⟨fun a ha => ?_, hx.2, fun x hx => (h x hx).2⟩
    obtain ⟨x, hx, ha⟩ := mem_givenInAll.1 ha
    simp [(h x hx).1] at ha
  readonly {x} h := by
    show (Schema.readonly x).given = [] ∧ (Schema.readonly x).Follows rule names
    rwa [given, Follows]
  custom change {x} h := by
    show (Schema.custom change x).given = [] ∧ (Schema.custom change x).Follows rule names
    rwa [given, Follows]
  pair {x y} hx hy := by
    show (Schema.pair x y).given = [] ∧ (Schema.pair x y).Follows rule names
    rw [given, Follows, hx.1, hy.1]
    exact ⟨rfl, hx.2, hy.2⟩

/-- A definition, read as a schema, follows a rule when its references do. -/
theorem fold_ref_follows (rule : Rule) (names : List String) (definition : Definition)
    (h : ∀ name ∈ definition.references, rule.ref names name) :
    (definition.fold .ref : Schema A).Follows rule names := by
  have hclosed := (closed_follows (A := A) rule names).congruence (B := Schema A)
  refine (definition.fold_rel hclosed (f := .ref) (g := .ref) fun name hname => ?_).2
  rw [given, Follows]
  exact ⟨rfl, h name hname⟩

/-- A definition, read as a schema, mentions no artifact. -/
theorem given_fold_ref (definition : Definition) :
    (definition.fold .ref : Schema A).given = [] := by
  let free : Rule := ⟨fun _ _ => True, fun _ _ => True⟩
  have hclosed := (closed_follows (A := A) free []).congruence (B := Schema A)
  refine (definition.fold_rel hclosed (f := .ref) (g := .ref) fun name _ => ?_).1
  rw [given, Follows]
  exact ⟨rfl, trivial⟩

end Schema

namespace Lazy

/-- Whether the body of a cell with an id follows a rule. -/
def Body.Follows {A : Type} (rule : Schema.Rule) (names : List String) (id : String) :
    Body A → Prop
  | .schema binder body _ => body.Follows rule (binder :: names)
  | .definition => rule.ref names id

/-! ## New cells -/

variable {A : Type}

/-- A cell that was put into a store in a scope, for a schema that mentions some artifacts and
follows some rules there. -/
structure Cell.New (c : Cell A) (around : List (String × A)) (given : List A)
    (follows : Schema.Rule → Prop) : Prop where
  scope : c.scope = around
  resolved : c.resolved = none
  writing : c.writing = false
  given : c.body.given ⊆ given
  follows (rule : Schema.Rule) : follows rule → c.body.Follows rule (Entries.keys around) c.id

/-- A store with new cells at its end, and nothing else changed. -/
structure Store.Adds (s : Store A) (scope : List (String × A)) (given : List A)
    (follows : Schema.Rule → Prop) (s' : Store A) : Prop where
  size : s.cells.size ≤ s'.cells.size
  old (k : CellId) : k < s.cells.size → s'.cells[k]? = s.cells[k]?
  new (k : CellId) (c : Cell A) : s.cells.size ≤ k → s'.cells[k]? = some c →
    c.New scope given follows
  names : s'.names = s.names
  held : s'.held = s.held
  runs : s'.runs = s.runs

theorem Store.lt_size {s : Store A} {k : CellId} {c : Cell A} (h : s.cells[k]? = some c) :
    k < s.cells.size := (Array.getElem?_eq_some_iff.1 h).1

theorem Store.exists_cell {s : Store A} {k : CellId} (h : k < s.cells.size) :
    ∃ c, s.cells[k]? = some c := ⟨s.cells[k], Array.getElem?_eq_getElem h⟩

theorem Store.Ages.lt {s s' : Store A} {k : CellId} (h : s.Ages s') (hk : k < s.cells.size) :
    k < s'.cells.size := by
  obtain ⟨c, hc⟩ := exists_cell hk
  obtain ⟨c', hc', _⟩ := h k c hc
  exact lt_size hc'

theorem Store.Ages.size {s s' : Store A} (h : s.Ages s') : s.cells.size ≤ s'.cells.size :=
  Nat.le_of_not_lt fun hlt => Nat.lt_irrefl _ (h.lt hlt)

namespace Store.Adds

variable {scope : List (String × A)} {given given' : List A} {follows follows' : Schema.Rule → Prop}
  {s s' s'' : Store A}

theorem refl (s : Store A) (scope : List (String × A)) (given : List A)
    (follows : Schema.Rule → Prop) : s.Adds scope given follows s where
  size := Nat.le_refl _
  old _ _ := rfl
  new _ _ hk h := absurd (Store.lt_size h) (Nat.not_lt_of_le hk)
  names := rfl
  held := rfl
  runs := rfl

theorem mono (hgiven : given ⊆ given') (hfollows : ∀ rule, follows' rule → follows rule)
    (h : s.Adds scope given follows s') : s.Adds scope given' follows' s' where
  size := h.size
  old := h.old
  new k c hk hc :=
    have hnew := h.new k c hk hc
    { hnew with
      given := List.Subset.trans hnew.given hgiven
      follows := fun rule hrule => hnew.follows rule (hfollows rule hrule) }
  names := h.names
  held := h.held
  runs := h.runs

theorem trans (h : s.Adds scope given follows s') (h' : s'.Adds scope given follows s'') :
    s.Adds scope given follows s'' where
  size := Nat.le_trans h.size h'.size
  old k hk := (h'.old k (Nat.lt_of_lt_of_le hk h.size)).trans (h.old k hk)
  new k c hk hc := by
    by_cases hk' : k < s'.cells.size
    · rw [h'.old k hk'] at hc
      exact h.new k c hk hc
    · exact h'.new k c (Nat.le_of_not_lt hk') hc
  names := h'.names.trans h.names
  held := h'.held.trans h.held
  runs := h'.runs.trans h.runs

/-- A store with one new cell. -/
theorem push (s : Store A) {c : Cell A} (h : c.New scope given follows) :
    s.Adds scope given follows { s with cells := s.cells.push c } where
  size := by simp
  old k hk := by
    show (s.cells.push c)[k]? = _
    rw [Array.getElem?_push, if_neg (Nat.ne_of_lt hk)]
  new k d hk hd := by
    replace hd : (s.cells.push c)[k]? = some d := hd
    rw [Array.getElem?_push] at hd
    split at hd
    · obtain rfl := Option.some.inj hd
      exact h
    · exact absurd (Store.lt_size hd) (Nat.not_lt_of_le hk)
  names := rfl
  held := rfl
  runs := rfl

theorem get (h : s.Adds scope given follows s') {k : CellId} {c : Cell A}
    (hc : s.cells[k]? = some c) : s'.cells[k]? = some c :=
  (h.old k (Store.lt_size hc)).trans hc

theorem grows (h : s.Adds scope given follows s') : s.Grows s' where
  ages _ c hc := ⟨c, h.get hc, .refl c⟩
  held := h.held
  writing k := by
    by_cases hk : k < s.cells.size
    · rw [Store.IsWriting, Store.IsWriting, h.old k hk]
    · constructor
      · rintro ⟨c, hc, hwriting⟩
        rw [(h.new k c (Nat.le_of_not_lt hk) hc).writing] at hwriting
        cases hwriting
      · rintro ⟨c, hc, _⟩
        exact absurd (Store.lt_size hc) hk

end Store.Adds

/-! ## Building -/

variable [Artifact A]

/-- The leaves that come in when a schema is built: new cells, the leaves of the scope, and those
of the artifacts that the schema mentions. -/
inductive Store.Brings (s : Store A) (scope : List (String × A)) (given : List A)
    (s' : Store A) : Blueprint.Leaf → Prop
  | new {k : CellId} : s.cells.size ≤ k → k < s'.cells.size → Brings s scope given s' (.owner k)
  | scope {e : String × A} {leaf : Blueprint.Leaf} : e ∈ scope → leaf ∈ Artifact.leaves e.2 →
      Brings s scope given s' leaf
  | given {a : A} {leaf : Blueprint.Leaf} : a ∈ given → leaf ∈ Artifact.leaves a →
      Brings s scope given s' leaf

/-- A call that puts new cells into a store, where the leaves of its answer come in. -/
def Lays {α : Type} (scope : List (String × A)) (given : List A) (follows : Schema.Rule → Prop)
    (leaves : α → Leaf → Prop) (call : Run A α) : Prop :=
  ∀ (s : Store A) (a : α) (s' : Store A), Runs call s a s' →
    s.Adds scope given follows s' ∧ ∀ leaf, leaves a leaf → s.Brings scope given s' leaf

namespace Lays

variable {α β γ : Type} {scope : List (String × A)} {given given' : List A}
  {follows follows' : Schema.Rule → Prop} {leaves : α → Leaf → Prop} {leaves' : β → Leaf → Prop}
  {leaves'' : γ → Leaf → Prop} {call : Run A α} {call' : Run A β}

theorem pure {a : α} (h : ∀ leaf, leaves a leaf → ∃ e ∈ scope, leaf ∈ Artifact.leaves e.2) :
    Lays scope given follows leaves (Pure.pure a) := by
  intro s b s' hrun
  obtain ⟨rfl, rfl⟩ := hrun.of_pure
  refine ⟨.refl s scope given follows, fun leaf hleaf => ?_⟩
  obtain ⟨e, he, hleaf⟩ := h leaf hleaf
  exact .scope he hleaf

theorem throw (halt : Halt) : Lays scope given follows leaves (throw halt) := by
  intro s a s' h
  cases h

/-- A call whose answer is made of that of another call. -/
theorem map {f : α → β} (h : Lays scope given follows leaves call)
    (hf : ∀ a leaf, leaves' (f a) leaf → leaves a leaf) :
    Lays scope given follows leaves' (call >>= fun a => Pure.pure (f a)) := by
  intro s b s' hrun
  obtain ⟨a, s₁, hcall, hrun⟩ := hrun.of_bind
  obtain ⟨rfl, rfl⟩ := hrun.of_pure
  obtain ⟨hadds, hleaves⟩ := h s a s₁ hcall
  exact ⟨hadds, fun leaf hleaf => hleaves leaf (hf a leaf hleaf)⟩

/-- A call whose answer is made of those of two calls one after the other. -/
theorem map₂ {f : α → β → γ} (h : Lays scope given follows leaves call)
    (h' : Lays scope given' follows' leaves' call')
    (hf : ∀ a b leaf, leaves'' (f a b) leaf → leaves a leaf ∨ leaves' b leaf) :
    Lays scope (given ++ given') (fun rule => follows rule ∧ follows' rule) leaves''
      (call >>= fun a => call' >>= fun b => Pure.pure (f a b)) := by
  intro s c s'' hrun
  obtain ⟨a, s₁, hcall, hrun⟩ := hrun.of_bind
  obtain ⟨b, s₂, hcall', hrun⟩ := hrun.of_bind
  obtain ⟨rfl, rfl⟩ := hrun.of_pure
  obtain ⟨hadds, hleaves⟩ := h s a s₁ hcall
  obtain ⟨hadds', hleaves'⟩ := h' s₁ b s₂ hcall'
  have hleft : given ⊆ given ++ given' := List.subset_append_left _ _
  have hright : given' ⊆ given ++ given' := List.subset_append_right _ _
  refine ⟨(hadds.mono hleft fun _ => And.left).trans (hadds'.mono hright fun _ => And.right), ?_⟩
  intro leaf hleaf
  rcases hf a b leaf hleaf with hleaf | hleaf
  · cases hleaves leaf hleaf with
    | new hk hk' => exact .new hk (Nat.lt_of_lt_of_le hk' hadds'.size)
    | scope he hleaf => exact .scope he hleaf
    | given ha hleaf => exact .given (hleft ha) hleaf
  · cases hleaves' leaf hleaf with
    | new hk hk' => exact .new (Nat.le_trans hadds.size hk) hk'
    | scope he hleaf => exact .scope he hleaf
    | given ha hleaf => exact .given (hright ha) hleaf

variable [ThoroughArtifact A]

/-- A new cell. -/
theorem allocate {id : String} {body : Body A} :
    Lays scope body.given (fun rule => body.Follows rule (Entries.keys scope) id)
      (fun (a : A) leaf => leaf ∈ Artifact.leaves a) (allocate id body scope) := by
  intro s a s' hrun
  obtain ⟨rfl, rfl⟩ := (Runs.allocate id body scope s).unique hrun
  refine ⟨.push s ⟨rfl, rfl, rfl, fun _ h => h, fun _ h => h⟩, fun leaf hleaf => ?_⟩
  replace hleaf : leaf ∈ Artifact.leaves (Artifact.owner s.cells.size : A) := hleaf
  obtain rfl := Artifact.mem_leaves_owner.1 hleaf
  exact .new (Nat.le_refl _) (by simp)

end Lays

/-- Whether a leaf is one of several artifacts. -/
def LeafOfAll (as : List A) (leaf : Leaf) : Prop := ∃ a ∈ as, leaf ∈ Artifact.leaves a

/-- Whether a leaf is one of several entries. -/
def LeafOfFields (as : Entries A) (leaf : Leaf) : Prop := ∃ a ∈ as, leaf ∈ Artifact.leaves a.2

/-- A call whose answer has no leaves. -/
theorem lays_constant {scope : List (String × A)} {given : List A}
    {follows : Schema.Rule → Prop} {a : A} (h : ∀ leaf ∈ Artifact.leaves a, False) :
    Lays scope given follows (fun (a : A) leaf => leaf ∈ Artifact.leaves a) (pure a) :=
  .pure fun leaf hleaf => (h leaf hleaf).elim

/-- What is built of entries, of which the later counts among two with one key. -/
theorem leafOfFields_ofList {as : Entries A} {leaf : Leaf}
    (h : LeafOfFields (Entries.ofList as) leaf) : LeafOfFields as leaf := by
  obtain ⟨a, ha, hleaf⟩ := h
  exact ⟨a, Entries.mem_of_mem_ofList ha, hleaf⟩

mutual
/-- **Building a schema puts its lazy schemas into the store as new cells**, and the leaves of
the artifact are new cells or come from the scope and from what the schema mentions. -/
theorem build_adds [ThoroughArtifact A] (scope : List (String × A)) :
    ∀ x : Schema A,
    Lays scope x.given (x.Follows · (Entries.keys scope))
      (fun (a : A) leaf => leaf ∈ Artifact.leaves a) (build scope x)
  | .literal value => by
      rw [build]
      exact lays_constant ((Artifact.leaves_closed _).literal value)
  | .literals values => by
      rw [build]
      exact lays_constant ((Artifact.leaves_closed _).literals values)
  | .literalsOr values fallback => by
      simp only [build, Schema.given, Schema.Follows]
      exact (build_adds scope fallback).map fun a =>
        (Artifact.leaves_closed _).literalsOr values fun _ h => h
  | .primitive kind => by
      rw [build]
      exact lays_constant ((Artifact.leaves_closed _).primitive kind)
  | .object kind fields => by
      simp only [build, Schema.given, Schema.Follows]
      exact (buildFields_adds scope fields).map fun as leaf hleaf =>
        leafOfFields_ofList ((Artifact.leaves_closed (LeafOfFields _)).object kind
          (fun a ha _ h => ⟨a, ha, h⟩) leaf hleaf)
  | .record codomain => by
      simp only [build, Schema.given, Schema.Follows]
      exact (build_adds scope codomain).map fun a =>
        (Artifact.leaves_closed _).record fun _ h => h
  | .array item => by
      simp only [build, Schema.given, Schema.Follows]
      exact (build_adds scope item).map fun a => (Artifact.leaves_closed _).array fun _ h => h
  | .tuple components => by
      simp only [build, Schema.given, Schema.Follows]
      exact (buildAll_adds scope components).map fun as =>
        (Artifact.leaves_closed (LeafOfAll as)).tuple fun a ha _ h => ⟨a, ha, h⟩
  | .intersection left right => by
      simp only [build, Schema.given, Schema.Follows]
      exact (build_adds scope left).map₂ (build_adds scope right) fun a b =>
        (Artifact.leaves_closed _).intersection (fun _ h => .inl h) fun _ h => .inr h
  | .sum tag members => by
      simp only [build, Schema.given, Schema.Follows]
      exact (buildFields_adds scope members).map fun as leaf hleaf =>
        leafOfFields_ofList ((Artifact.leaves_closed (LeafOfFields _)).sum tag
          (fun a ha _ h => ⟨a, ha, h⟩) leaf hleaf)
  | .union ⟨head, tail⟩ => by
      simp only [build, Schema.given, Schema.Follows]
      exact (build_adds scope head).map₂ (buildAll_adds scope tail) fun a as =>
        (Artifact.leaves_closed _).union (fun _ h => .inl h) fun b hb _ h => .inr ⟨b, hb, h⟩
  | .readonly inner => by
      simp only [build, Schema.given, Schema.Follows]
      exact (build_adds scope inner).map fun a => (Artifact.leaves_closed _).readonly fun _ h => h
  | .custom change inner => by
      simp only [build, Schema.given, Schema.Follows]
      exact (build_adds scope inner).map fun a =>
        (Artifact.leaves_closed _).custom change fun _ h => h
  | .pair decoder encoder => by
      simp only [build, Schema.given, Schema.Follows]
      exact (build_adds scope decoder).map₂ (build_adds scope encoder) fun a b =>
        (Artifact.leaves_closed _).pair (fun _ h => .inl h) fun _ h => .inr h
  | .lazy id binder body stash => by
      simp only [build, Schema.given, Schema.Follows]
      exact .allocate
  | .self binder => by
      rw [build]
      cases hlookup : scope.lookup binder with
      | none => exact .throw _
      | some handle =>
          exact .pure fun leaf hleaf => ⟨_, Entries.mem_of_lookup hlookup, hleaf⟩
  | .ref name => by
      simp only [build, Schema.given, Schema.Follows]
      cases hlookup : scope.lookup name with
      | none => exact .allocate
      | some handle =>
          exact .pure fun leaf hleaf => ⟨_, Entries.mem_of_lookup hlookup, hleaf⟩
  | .artifact built => by
      intro s a s' hrun
      rw [build] at hrun
      obtain ⟨rfl, rfl⟩ := hrun.of_pure
      exact ⟨.refl _ _ _ _, fun leaf hleaf => .given (by simp [Schema.given]) hleaf⟩

theorem buildAll_adds [ThoroughArtifact A] (scope : List (String × A)) :
    ∀ xs : List (Schema A),
    Lays scope (Schema.givenInAll xs) (Schema.FollowsInAll · (Entries.keys scope) xs) LeafOfAll
      (buildAll scope xs)
  | [] => by
      rw [buildAll]
      exact .pure fun _ ⟨_, h, _⟩ => nomatch h
  | x :: rest => by
      simp only [buildAll, Schema.givenInAll, Schema.FollowsInAll]
      refine (build_adds scope x).map₂ (buildAll_adds scope rest) fun a as leaf hleaf => ?_
      obtain ⟨b, hb, hleaf⟩ := hleaf
      rcases List.mem_cons.1 hb with rfl | hb
      · exact .inl hleaf
      · exact .inr ⟨b, hb, hleaf⟩

theorem buildFields_adds [ThoroughArtifact A] (scope : List (String × A)) :
    ∀ xs : List (String × Schema A),
    Lays scope (Schema.givenInFields xs) (Schema.FollowsInFields · (Entries.keys scope) xs)
      LeafOfFields (buildFields scope xs)
  | [] => by
      rw [buildFields]
      exact .pure fun _ ⟨_, h, _⟩ => nomatch h
  | (key, x) :: rest => by
      simp only [buildFields, Schema.givenInFields, Schema.FollowsInFields]
      refine (build_adds scope x).map₂ (buildFields_adds scope rest) fun a as leaf hleaf => ?_
      obtain ⟨b, hb, hleaf⟩ := hleaf
      rcases List.mem_cons.1 hb with rfl | hb
      · exact .inl hleaf
      · exact .inr ⟨b, hb, hleaf⟩
end

/-! ## Running and resolving -/

/-- A store in which the definition of a cell has started to run. -/
def Store.enter (s : Store A) (k : CellId) (c : Cell A) : Store A :=
  { s with
    runs := k :: s.runs
    names := match c.stash with
      | some name => s.names.set name (Artifact.handle k)
      | none => s.names }

/-- The names of a store are those from before, and handles, while definitions run. -/
theorem Store.names_enter {s : Store A} {k : CellId} {c : Cell A} {a : A}
    (h : ∃ name, (name, a) ∈ (s.enter k c).names) :
    a = Artifact.handle k ∨ ∃ name, (name, a) ∈ s.names := by
  obtain ⟨name, h⟩ := h
  rw [enter] at h
  cases hstash : c.stash with
  | none =>
      rw [hstash] at h
      exact .inr ⟨name, h⟩
  | some stash =>
      rw [hstash] at h
      rcases Entries.mem_of_mem_set h with heq | h
      · exact .inl (Prod.mk.inj heq).2
      · exact .inr ⟨name, h⟩

/-- A rule that definitions do not break: wherever one may be referred to, so may those that it
refers to. -/
def Admits (definitions : Entries Definition) (rule : Schema.Rule) : Prop :=
  ∀ names id definition, rule.ref names id → definitions.lookup id = some definition →
    ∀ name ∈ definition.references, rule.ref (id :: names) name

variable [ThoroughArtifact A] {definitions : Entries Definition} {s s' : Store A} {k : CellId}
  {a : A}

omit [Artifact A] [ThoroughArtifact A] in
/-- The schema of a body mentions what the body does, and follows the rules that the body does. -/
theorem bodySchema_follows {c : Cell A} {x : Schema A}
    (h : Runs (bodySchema definitions c) s x s') :
    s = s' ∧ x.given ⊆ c.body.given ∧ ∀ rule, Admits definitions rule →
      c.body.Follows rule (Entries.keys c.scope) c.id →
        x.Follows rule (c.binder :: Entries.keys c.scope) := by
  rw [bodySchema] at h
  rw [Cell.binder]
  cases hbody : c.body with
  | schema binder body stash =>
      rw [hbody] at h
      obtain ⟨rfl, rfl⟩ := h.of_pure
      exact ⟨rfl, List.Subset.refl _, fun _ _ h => h⟩
  | definition =>
      rw [hbody] at h
      cases hlookup : definitions.lookup c.id with
      | none =>
          rw [hlookup] at h
          cases h
      | some definition =>
          rw [hlookup] at h
          obtain ⟨rfl, rfl⟩ := h.of_pure
          refine ⟨rfl, ?_, fun rule hadmits h => ?_⟩
          · rw [Schema.given_fold_ref]
            exact List.nil_subset _
          · exact Schema.fold_ref_follows rule _ definition (hadmits _ _ _ h hlookup)

/-- **A definition that runs is logged, and then its schema is built** in the scope inside of its
cell. -/
theorem run_adds (h : Runs (run definitions k) s a s') :
    ∃ c, s.cells[k]? = some c ∧
      (s.enter k c).Adds (c.inner k) c.body.given
        (fun rule => Admits definitions rule ∧ c.body.Follows rule (Entries.keys c.scope) c.id) s' ∧
      ∀ leaf ∈ Artifact.leaves a, (s.enter k c).Brings (c.inner k) c.body.given s' leaf := by
  unfold run at h
  obtain ⟨c, _, hcell, h⟩ := h.of_bind
  obtain ⟨hc, rfl⟩ := hcell.of_cell
  obtain ⟨x, _, hbody, h⟩ := h.of_bind
  obtain ⟨rfl, hgiven, hfollows⟩ := bodySchema_follows hbody
  obtain ⟨_, s₁, hupdate, h⟩ := h.of_bind
  obtain ⟨_, rfl⟩ : () = _ ∧ s.enter k c = s₁ := (Runs.update _ s).unique hupdate
  obtain ⟨hadds, hleaves⟩ := build_adds _ x _ _ _ h
  refine ⟨c, hc, hadds.mono hgiven fun rule hrule => hfollows rule hrule.1 hrule.2, ?_⟩
  intro leaf hleaf
  cases hleaves leaf hleaf with
  | new hk hk' => exact .new hk hk'
  | scope he hleaf => exact .scope he hleaf
  | given hb hleaf => exact .given (hgiven hb) hleaf

/-- A store in which a cell has resolved since to an artifact, its definition having run. -/
structure Store.Resolves (s : Store A) (definitions : Entries Definition) (k : CellId) (c : Cell A)
    (a : A) (s' : Store A) : Prop where
  size : s.cells.size ≤ s'.cells.size
  self : s'.cells[k]? = some { c with resolved := some a }
  old (j : CellId) : j < s.cells.size → j ≠ k → s'.cells[j]? = s.cells[j]?
  new (j : CellId) (d : Cell A) : s.cells.size ≤ j → s'.cells[j]? = some d →
    d.New (c.inner k) c.body.given fun rule =>
      Admits definitions rule ∧ c.body.Follows rule (Entries.keys c.scope) c.id
  names : s'.names = (s.enter k c).names
  held : s'.held = s.held
  leaves : ∀ leaf ∈ Artifact.leaves a, s.Brings (c.inner k) c.body.given s' leaf

/-- **A cell is resolved by what it has resolved to**, or by running its definition. -/
theorem resolve_cases (h : Runs (resolve definitions k) s a s') :
    ∃ c, s.cells[k]? = some c ∧
      (c.resolved = some a ∧ s' = s ∨ c.resolved = none ∧ s.Resolves definitions k c a s') := by
  unfold resolve at h
  obtain ⟨c, _, hcell, h⟩ := h.of_bind
  obtain ⟨hc, rfl⟩ := hcell.of_cell
  refine ⟨c, hc, ?_⟩
  cases hresolved : c.resolved with
  | some b =>
      rw [hresolved] at h
      obtain ⟨rfl, rfl⟩ := h.of_pure
      exact .inl ⟨rfl, rfl⟩
  | none =>
      rw [hresolved] at h
      obtain ⟨b, s₁, hrun, h⟩ := h.of_bind
      obtain ⟨_, s₂, hchange, h⟩ := h.of_bind
      obtain ⟨_, rfl⟩ : () = _ ∧ s₁.resolveTo k b = s₂ := (Runs.update _ s₁).unique hchange
      obtain ⟨rfl, rfl⟩ := h.of_pure
      obtain ⟨c', hc', hadds, hleaves⟩ := run_adds hrun
      obtain rfl : c = c' := Option.some.inj (hc.symm.trans hc')
      have hcells (j : CellId) : (s₁.resolveTo k b).cells[j]? =
          if k = j then s₁.cells[j]?.map fun c => { c with resolved := some b }
          else s₁.cells[j]? := Array.getElem?_modify
      have hk : k < s.cells.size := Store.lt_size hc
      have hsize : (s₁.resolveTo k b).cells.size = s₁.cells.size := Array.size_modify
      refine .inr ⟨rfl, hsize ▸ hadds.size, ?_, fun j hj hne => ?_, fun j d hj hd => ?_,
        hadds.names, hadds.held, fun leaf hleaf => ?_⟩
      · rw [hcells, if_pos rfl, hadds.get hc, Option.map_some]
      · rw [hcells, if_neg (Ne.symm hne), hadds.old j hj]
        rfl
      · have hne : k ≠ j := Nat.ne_of_lt (Nat.lt_of_lt_of_le hk hj)
        rw [hcells, if_neg hne] at hd
        exact hadds.new j d hj hd
      · cases hleaves leaf hleaf with
        | new hj hj' => exact .new hj (hsize ▸ hj')
        | scope he hleaf => exact .scope he hleaf
        | given hb hleaf => exact .given hb hleaf

omit [ThoroughArtifact A] in
theorem Store.Resolves.grows {c : Cell A} (hc : s.cells[k]? = some c)
    (h : s.Resolves definitions k c a s') : s.Grows s' where
  ages j d hd := by
    by_cases hj : j = k
    · subst hj
      obtain rfl : c = d := Option.some.inj (hc.symm.trans hd)
      exact ⟨_, h.self, ⟨rfl, rfl, rfl⟩⟩
    · exact ⟨d, (h.old j (Store.lt_size hd) hj).trans hd, .refl d⟩
  held := h.held
  writing j := by
    by_cases hj : j = k
    · subst hj
      simp [IsWriting, h.self, hc]
    · by_cases hlt : j < s.cells.size
      · rw [IsWriting, IsWriting, h.old j hlt hj]
      · constructor
        · rintro ⟨d, hd, hwriting⟩
          rw [(h.new j d (Nat.le_of_not_lt hlt) hd).writing] at hwriting
          cases hwriting
        · rintro ⟨d, hd, _⟩
          exact absurd (Store.lt_size hd) hlt

end Lazy
end Schemata
