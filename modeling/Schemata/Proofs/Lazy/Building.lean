import Schemata.Document.Basic
import Schemata.Proofs.Lazy.Growth

/-!
# What is built

A body stands for the definition of an id when it is that definition with other
leaves: each reference is a name that the scope binds to a cell of that id, or a new
lazy schema whose body stands for the definition of its own id (`Denotes`).  What is
built from such a body is the definition again, with cells of the store for its
references (`Store.Means`): those around the body, or new ones inside of it.

**Results.**

* `builds_fold`: building a body that stands for a definition comes to an end, keeps
  the store `Sound` and gives an artifact that means the definition.
* `run_runs` and `resolve_runs`: so do running the definition of a cell and resolving
  it.
-/

namespace Schemata
namespace Lazy

open Congruence (Least)

variable {A : Type} [Artifact A] (document : Document) (definitions : Entries Definition)

/-! ## Bodies -/

/-- A leaf of a body that stands for the reference to a name, where names are bound to
lazy schemas with ids. -/
inductive Denotes : List (String × String) → Schema A → String → Prop
  | ref {ids : List (String × String)} {name : String} :
      definitions = document.definitions → name ∈ definitions.keys →
      (∀ bound ∈ ids, bound.1 = bound.2) → Denotes ids (.ref name) name
  | self {ids : List (String × String)} {binder name : String} :
      ids.lookup binder = some name → Denotes ids (.self binder) name
  | lazy {ids : List (String × String)} {binder name : String} {definition : Definition}
      {leaf : String → Schema A} :
      document.find? name = some definition → (∀ bound ∈ ids, bound.2 ≠ name) →
      (∀ next ∈ definition.references, Denotes ((binder, name) :: ids) (leaf next) next) →
      Denotes ids (.lazy name binder (definition.fold leaf) none) name

/-- The body of a cell stands for the definition of its id. -/
def Cell.Faithful (c : Cell A) (ids : List (String × String)) : Prop :=
  c.stash = none ∧ ∃ definition leaf, document.find? c.id = some definition ∧
    bodySchema definitions c = pure (definition.fold leaf) ∧
    ∀ next ∈ definition.references,
      Denotes document definitions ((c.binder, c.id) :: ids) (leaf next) next

omit [Artifact A] in
theorem Cell.Faithful.ages {document : Document} {definitions : Entries Definition} {c c' : Cell A}
    (hage : c.Ages c') {ids : List (String × String)}
    (h : c.Faithful document definitions ids) : c'.Faithful document definitions ids := by
  obtain ⟨hstash, definition, leaf, hfind, hbody, hleaf⟩ := h
  refine ⟨hage.stash.trans hstash, definition, leaf, hage.id ▸ hfind, ?_, ?_⟩
  · rw [← hbody]
    simp only [bodySchema, hage.body, hage.id]
  · rw [hage.binder, hage.id]
    exact hleaf

omit [Artifact A] in
/-- A cell of a definition stands for it where cells are bound under their ids. -/
theorem faithful_definition {document : Document} {name : String}
    (hname : name ∈ document.definitions.keys) {ids : List (String × String)}
    (hdiag : ∀ bound ∈ ids, bound.1 = bound.2) {scope : List (String × A)} :
    Cell.Faithful document document.definitions ⟨name, .definition, scope, none, false⟩ ids := by
  obtain ⟨definition, hfind⟩ := document.exists_find? hname
  refine ⟨rfl, definition, .ref, hfind, ?_, fun next hnext => .ref rfl ?_ ?_⟩
  · have hfind' : document.definitions.lookup name = some definition := hfind
    simp only [bodySchema, hfind']
  · exact Document.mem_keys_of_reference hfind hnext
  · intro bound hbound
    rcases List.mem_cons.1 hbound with rfl | hbound
    · rfl
    · exact hdiag bound hbound

/-! ## Artifacts -/

/-- A leaf of an artifact that was built in a scope, with the id of its cell: a new
cell inside of the scope, of an id that no cell around has, or the handle of a cell
around. -/
inductive Store.Leaf (s : Store A) (scope : List (String × A)) (ids : List (String × String)) :
    A → String → Prop
  | owner {k : CellId} {c : Cell A} : s.cells[k]? = some c → c.scope = scope →
      (∀ bound ∈ ids, bound.2 ≠ c.id) → Leaf s scope ids (Artifact.owner k) c.id
  | handle {name : String} {k : CellId} {c : Cell A} : (name, Artifact.handle k) ∈ scope →
      s.cells[k]? = some c → Leaf s scope ids (Artifact.handle k) c.id

/-- A leaf of an artifact and what its id means. -/
def Store.LeafOf {B : Type} (s : Store A) (scope : List (String × A))
    (ids : List (String × String)) (g : String → B) (a : A) (b : B) : Prop :=
  ∃ name, s.Leaf scope ids a name ∧ g name = b

/-- An artifact that was built in a scope and is a definition with leaves of that scope
for the references, however schemas are read. -/
def Store.Means (s : Store A) (scope : List (String × A)) (ids : List (String × String)) (a : A)
    (definition : Definition) : Prop :=
  ∀ (B : Type) [Vocabulary B] (g : String → B),
    Least (s.LeafOf scope ids g) a (definition.fold g)

/-- An artifact that means the definition of the id of a cell, inside of the cell. -/
def Store.Gives (s : Store A) (k : CellId) (c : Cell A) (a : A) : Prop :=
  ∃ ids definition, s.Binds c.scope ids ∧ document.find? c.id = some definition ∧
    s.Means (c.inner k) ((c.binder, c.id) :: ids) a definition

/-- A cell whose scope is bound, whose body stands for the definition of its id, and
which has resolved to an artifact that means this definition, if at all. -/
def Store.SoundAt (s : Store A) (k : CellId) (c : Cell A) : Prop :=
  (∃ ids, s.Binds c.scope ids ∧ c.Faithful document definitions ids) ∧
    ∀ a, c.resolved = some a → s.Gives document k c a

/-- A store all of whose cells are sound. -/
def Store.Sound (s : Store A) : Prop :=
  ∀ k c, s.cells[k]? = some c → s.SoundAt document definitions k c

variable {document definitions} {s s' : Store A} {scope : List (String × A)}
  {ids : List (String × String)}

theorem Store.Leaf.ages (hage : s.Ages s') {a : A} {name : String}
    (h : s.Leaf scope ids a name) : s'.Leaf scope ids a name := by
  cases h with
  | owner hc hscope hid =>
      obtain ⟨c', hc', hcell⟩ := hage _ _ hc
      rw [← hcell.id] at hid ⊢
      exact .owner hc' (hcell.scope.trans hscope) hid
  | handle hmem hc =>
      obtain ⟨c', hc', hcell⟩ := hage _ _ hc
      rw [← hcell.id]
      exact .handle hmem hc'

theorem Store.LeafOf.ages (hage : s.Ages s') {B : Type} {g : String → B} (a : A) (b : B)
    (h : s.LeafOf scope ids g a b) : s'.LeafOf scope ids g a b := by
  obtain ⟨name, hleaf, rfl⟩ := h
  exact ⟨name, hleaf.ages hage, rfl⟩

theorem Store.Means.ages (hage : s.Ages s') {a : A} {definition : Definition}
    (h : s.Means scope ids a definition) : s'.Means scope ids a definition :=
  fun B _ g => (h B g).mono (Store.LeafOf.ages hage)

theorem Store.Gives.ages (hage : s.Ages s') {k : CellId} {c : Cell A} {a : A}
    (h : s.Gives document k c a) : s'.Gives document k c a := by
  obtain ⟨ids, definition, hbinds, hfind, hmeans⟩ := h
  exact ⟨ids, definition, hbinds.ages hage, hfind, hmeans.ages hage⟩

theorem Store.Gives.of_cell {k : CellId} {c c' : Cell A} (hcell : c.Ages c') {a : A}
    (h : s.Gives document k c a) : s.Gives document k c' a := by
  obtain ⟨ids, definition, hbinds, hfind, hmeans⟩ := h
  refine ⟨ids, definition, hcell.scope ▸ hbinds, hcell.id ▸ hfind, ?_⟩
  simpa only [Cell.inner, hcell.id, hcell.scope, hcell.binder] using hmeans

theorem Store.SoundAt.ages (hage : s.Ages s') {k : CellId} {c : Cell A}
    (h : s.SoundAt document definitions k c) : s'.SoundAt document definitions k c := by
  obtain ⟨⟨ids, hbinds, hfaithful⟩, hresolved⟩ := h
  exact ⟨⟨ids, hbinds.ages hage, hfaithful⟩, fun a ha => (hresolved a ha).ages hage⟩

namespace Store.Sound

theorem empty : Store.Sound document definitions ({} : Store A) := by
  intro k c hc
  simp at hc

/-- A sound store stays sound when a sound cell is pushed. -/
theorem push (h : s.Sound document definitions) {c : Cell A} (hresolved : c.resolved = none)
    (hbinds : s.Binds c.scope ids) (hfaithful : c.Faithful document definitions ids) :
    Store.Sound document definitions { s with cells := s.cells.push c } := by
  have hage : s.Ages { s with cells := s.cells.push c } := .push s c
  intro k d hd
  replace hd : (s.cells.push c)[k]? = some d := hd
  rw [Array.getElem?_push] at hd
  split at hd
  · obtain rfl := Option.some.inj hd
    refine ⟨⟨ids, hbinds.ages hage, hfaithful⟩, fun a ha => ?_⟩
    rw [hresolved] at ha
    cases ha
  · exact (h k d hd).ages hage

/-- A sound store stays sound when a cell changes in what it has resolved to or in
whether it is being written. -/
theorem modify (h : s.Sound document definitions) (k : CellId) {change : Cell A → Cell A}
    (hchange : ∀ c : Cell A, c.Ages (change c))
    (hresolved : ∀ c, s.cells[k]? = some c →
      ∀ a, (change c).resolved = some a → s.Gives document k c a) :
    Store.Sound document definitions { s with cells := s.cells.modify k change } := by
  have hage := Store.Ages.modify s k hchange
  intro j d hd
  replace hd : (s.cells.modify k change)[j]? = some d := hd
  rw [Array.getElem?_modify] at hd
  split at hd
  · subst j
    obtain ⟨c, hc, rfl⟩ := Option.map_eq_some_iff.1 hd
    obtain ⟨⟨ids, hbinds, hfaithful⟩, _⟩ := h k c hc
    have hbinds' : s.Binds (change c).scope ids := (hchange c).scope ▸ hbinds
    refine ⟨⟨ids, hbinds'.ages hage, hfaithful.ages (hchange c)⟩, fun a ha => ?_⟩
    exact ((hresolved c hc a ha).of_cell (hchange c)).ages hage
  · exact (h j d hd).ages hage

/-- A sound store stays sound when no cell changes. -/
theorem of_cells (h : s.Sound document definitions) (hcells : s'.cells = s.cells) :
    s'.Sound document definitions := by
  intro k c hc
  rw [hcells] at hc
  exact (h k c hc).ages (.of_cells hcells)

end Store.Sound

/-! ## Building -/

variable (document definitions) in
/-- Building a schema comes to an end in every sound store that binds the scope, and
what it gives is related to a reading when names have a meaning in its vocabulary. -/
def Builds {B : Type} [Vocabulary B] (scope : List (String × A)) (ids : List (String × String))
    (g : String → B) (x : Schema A) (y : B) : Prop :=
  ∀ s : Store A, s.Sound document definitions → s.Binds scope ids →
    ∃ a s', Runs (build scope x) s a s' ∧ s.Grows s' ∧ s'.Sound document definitions ∧
      Least (s'.LeafOf scope ids g) a y

section Builds

variable {B : Type} [Vocabulary B] {g : String → B}

theorem buildAll_runs {xs : List (Schema A)} {ys : List B}
    (h : List.Forall₂ (Builds document definitions scope ids g) xs ys) :
    ∀ s : Store A, s.Sound document definitions → s.Binds scope ids →
      ∃ as s', Runs (buildAll scope xs) s as s' ∧ s.Grows s' ∧ s'.Sound document definitions ∧
        List.Forall₂ (Least (s'.LeafOf scope ids g)) as ys := by
  induction h with
  | nil =>
      intro s hs _
      refine ⟨[], s, ?_, .refl s, hs, .nil⟩
      rw [buildAll]
      exact .pure _ _
  | cons hxy _ ih =>
      intro s hs hb
      obtain ⟨a, s₁, hrun, hgrow, hs₁, hleast⟩ := hxy s hs hb
      obtain ⟨as, s₂, hruns, hgrow', hs₂, hleasts⟩ := ih s₁ hs₁ (hb.ages hgrow.ages)
      refine ⟨a :: as, s₂, ?_, hgrow.trans hgrow', hs₂, .cons ?_ hleasts⟩
      · rw [buildAll]
        exact hrun.bind (hruns.bind (.pure _ _))
      · exact hleast.mono (Store.LeafOf.ages hgrow'.ages)

theorem buildFields_runs {xs : List (String × Schema A)} {ys : List (String × B)}
    (h : List.Forall₂ (Keyed (Builds document definitions scope ids g)) xs ys) :
    ∀ s : Store A, s.Sound document definitions → s.Binds scope ids →
      ∃ as s', Runs (buildFields scope xs) s as s' ∧ s.Grows s' ∧
        s'.Sound document definitions ∧
        List.Forall₂ (Keyed (Least (s'.LeafOf scope ids g))) as ys := by
  induction h with
  | nil =>
      intro s hs _
      refine ⟨[], s, ?_, .refl s, hs, .nil⟩
      rw [buildFields]
      exact .pure _ _
  | @cons x y _ _ hxy _ ih =>
      intro s hs hb
      obtain ⟨key, x⟩ := x
      obtain ⟨_, y⟩ := y
      obtain ⟨rfl, hxy⟩ := hxy
      obtain ⟨a, s₁, hrun, hgrow, hs₁, hleast⟩ := hxy s hs hb
      obtain ⟨as, s₂, hruns, hgrow', hs₂, hleasts⟩ := ih s₁ hs₁ (hb.ages hgrow.ages)
      refine ⟨(key, a) :: as, s₂, ?_, hgrow.trans hgrow', hs₂, .cons ⟨rfl, ?_⟩ hleasts⟩
      · rw [buildFields]
        exact hrun.bind (hruns.bind (.pure _ _))
      · exact hleast.mono (Store.LeafOf.ages hgrow'.ages)

/-- A schema without parts builds to itself. -/
theorem builds_pure {x : Schema A} {y : B} {a : A} (hbuild : build scope x = pure a)
    (h : ∀ s : Store A, Least (s.LeafOf scope ids g) a y) :
    Builds document definitions scope ids g x y := by
  intro s hs _
  refine ⟨a, s, ?_, .refl s, hs, h s⟩
  rw [hbuild]
  exact .pure _ _

/-- A combinator of one schema builds to the combinator of what that builds to. -/
theorem builds_map {x x' : Schema A} {y y' : B} {f : A → A}
    (hbuild : build scope x' = build scope x >>= fun a => pure (f a))
    (hleast : ∀ (s : Store A) a, Least (s.LeafOf scope ids g) a y →
      Least (s.LeafOf scope ids g) (f a) y')
    (h : Builds document definitions scope ids g x y) :
    Builds document definitions scope ids g x' y' := by
  intro s hs hb
  obtain ⟨a, s', hrun, hgrow, hs', ha⟩ := h s hs hb
  refine ⟨f a, s', ?_, hgrow, hs', hleast s' a ha⟩
  rw [hbuild]
  exact hrun.bind (.pure _ _)

/-- A combinator of fields builds to the combinator of what these build to. -/
theorem builds_fields {x : Schema A} {y : B} {xs : Entries (Schema A)} {ys : Entries B}
    {f : Entries A → A}
    (hbuild : build scope x = buildFields scope xs >>= fun as => pure (f (.ofList as)))
    (hleast : ∀ (s : Store A) (as : Entries A), as.keys.Nodup →
      List.Forall₂ (Keyed (Least (s.LeafOf scope ids g))) as ys →
      Least (s.LeafOf scope ids g) (f as) y)
    (hnodup : xs.keys.Nodup)
    (h : List.Forall₂ (Keyed (Builds document definitions scope ids g)) xs ys) :
    Builds document definitions scope ids g x y := by
  intro s hs hb
  obtain ⟨as, s', hrun, hgrow, hs', has⟩ := buildFields_runs h s hs hb
  have hkeys : as.keys = xs.keys := by
    rw [Entries.keys_eq_of_forall₂ h, Entries.keys_eq_of_forall₂ has]
  rw [← hkeys] at hnodup
  refine ⟨f as, s', ?_, hgrow, hs', hleast s' as hnodup has⟩
  rw [hbuild]
  refine hrun.bind ?_
  rw [Entries.ofList_eq_self hnodup]
  exact .pure _ _

/-- Building goes through the combinators. -/
theorem builds_congruence :
    Congruence (Builds document definitions scope ids g)
      (Builds document definitions scope ids g) where
  literal value := builds_pure rfl fun _ => Least.congruence.literal value
  literals values := builds_pure rfl fun _ => Least.congruence.literals values
  literalsOr values {_ _} h := builds_map rfl (fun _ _ => Least.congruence.literalsOr values) h
  primitive kind := builds_pure rfl fun _ => Least.congruence.primitive kind
  object kind {_ _} hnodup h :=
    builds_fields rfl (fun _ _ => Least.congruence.object kind) hnodup h
  record {_ _} h := builds_map rfl (fun _ _ => Least.congruence.record) h
  array {_ _} h := builds_map rfl (fun _ _ => Least.congruence.array) h
  tuple {_ _} h := by
    intro s hs hb
    obtain ⟨as, s', hrun, hgrow, hs', has⟩ := buildAll_runs h s hs hb
    exact ⟨Vocabulary.tuple as, s', hrun.bind (.pure _ _), hgrow, hs', Least.congruence.tuple has⟩
  intersection {_ _ _ _} h h' := by
    intro s hs hb
    obtain ⟨a, s₁, hrun, hgrow, hs₁, ha⟩ := h s hs hb
    obtain ⟨b, s₂, hrun', hgrow', hs₂, hb'⟩ := h' s₁ hs₁ (hb.ages hgrow.ages)
    have ha' := ha.mono (Store.LeafOf.ages hgrow'.ages)
    exact ⟨Vocabulary.intersection a b, s₂, hrun.bind (hrun'.bind (.pure _ _)),
      hgrow.trans hgrow', hs₂, Least.congruence.intersection ha' hb'⟩
  sum tag {_ _} hnodup h :=
    builds_fields rfl (fun _ _ => Least.congruence.sum tag) hnodup h
  union {_ _ _ _} h h' := by
    intro s hs hb
    obtain ⟨a, s₁, hrun, hgrow, hs₁, ha⟩ := h s hs hb
    obtain ⟨as, s₂, hrun', hgrow', hs₂, has⟩ := buildAll_runs h' s₁ hs₁ (hb.ages hgrow.ages)
    have ha' := ha.mono (Store.LeafOf.ages hgrow'.ages)
    exact ⟨Vocabulary.union ⟨a, as⟩, s₂, hrun.bind (hrun'.bind (.pure _ _)),
      hgrow.trans hgrow', hs₂, Least.congruence.union ha' has⟩
  readonly {_ _} h := builds_map rfl (fun _ _ => Least.congruence.readonly) h

/-- A new cell is built where no cell around has its id. -/
theorem builds_owner {x : Schema A} {id : String} {body : Body A}
    (hbuild : ∀ s : Store A, s.Binds scope ids → build scope x = allocate id body scope)
    (hid : ∀ bound ∈ ids, bound.2 ≠ id)
    (hfaithful : Cell.Faithful document definitions ⟨id, body, scope, none, false⟩ ids) :
    Builds document definitions scope ids g x (g id) := by
  intro s hs hb
  rw [hbuild s hb]
  refine ⟨_, _, .allocate id body scope s, .push s _ rfl, hs.push rfl hb hfaithful, ?_⟩
  exact .of_leaf ⟨id, .owner (c := ⟨id, body, scope, none, false⟩) (by simp) rfl hid, rfl⟩

/-- The handle of a cell around is built where a name is bound to it. -/
theorem builds_handle {x : Schema A} {binder name : String}
    (hbuild : ∀ handle, scope.lookup binder = some handle → build scope x = pure handle)
    (hlookup : ids.lookup binder = some name) :
    Builds document definitions scope ids g x (g name) := by
  intro s hs hb
  have hscope := hb.lookup binder
  rw [hlookup] at hscope
  cases ha : scope.lookup binder with
  | none =>
      rw [ha] at hscope
      cases hscope
  | some a =>
      rw [ha] at hscope
      obtain ⟨hmem, k, c, rfl, hc, rfl⟩ : _ ∧ _ := by
        cases hscope with
        | some h => exact h
      rw [hbuild _ ha]
      exact ⟨_, s, .pure _ _, .refl s, hs, .of_leaf ⟨c.id, .handle hmem hc, rfl⟩⟩

/-- The reference to a name is the innermost cell around that has it, or a new one. -/
theorem builds_ref {name : String} (hname : name ∈ document.definitions.keys)
    (hdiag : ∀ bound ∈ ids, bound.1 = bound.2) :
    Builds document document.definitions scope ids g (.ref name) (g name) := by
  cases hlookup : ids.lookup name with
  | some id =>
      obtain rfl : name = id := hdiag _ (Entries.mem_of_lookup hlookup)
      refine builds_handle (fun handle hhandle => ?_) hlookup
      simp only [build, hhandle]
  | none =>
      have hid : ∀ bound ∈ ids, bound.2 ≠ name := by
        intro bound hbound heq
        have hkey := List.lookup_eq_none_iff.1 hlookup bound hbound
        rw [hdiag bound hbound, heq] at hkey
        simp at hkey
      refine builds_owner (fun s hb => ?_) hid (faithful_definition hname hdiag)
      have hscope := hb.lookup name
      rw [hlookup] at hscope
      cases ha : scope.lookup name with
      | none => simp only [build, ha]
      | some a =>
          rw [ha] at hscope
          cases hscope

/-- Leaves that stand for a reference build to cells of its name. -/
theorem builds_leaf {x : Schema A} {name : String} (h : Denotes document definitions ids x name) :
    Builds document definitions scope ids g x (g name) := by
  cases h with
  | ref hdefs hname hdiag =>
      subst hdefs
      exact builds_ref hname hdiag
  | self hlookup =>
      refine builds_handle (fun handle hhandle => ?_) hlookup
      simp only [build, hhandle]
  | lazy hfind hid hleaf =>
      exact builds_owner (fun _ _ => rfl) hid ⟨rfl, _, _, hfind, rfl, hleaf⟩

end Builds

/-- **A body that stands for a definition builds to an artifact that means it.** -/
theorem builds_fold {definition : Definition} {leaf : String → Schema A}
    (hleaf : ∀ next ∈ definition.references, Denotes document definitions ids (leaf next) next)
    (hs : s.Sound document definitions) (hb : s.Binds scope ids) :
    ∃ a s', Runs (build scope (definition.fold leaf)) s a s' ∧ s.Grows s' ∧
      s'.Sound document definitions ∧ s'.Means scope ids a definition := by
  have hbuilds {B : Type} [Vocabulary B] (g : String → B) :
      Builds document definitions scope ids g (definition.fold leaf) (definition.fold g) :=
    definition.fold_rel builds_congruence fun next hnext => builds_leaf (hleaf next hnext)
  obtain ⟨a, s', hrun, hgrow, hs', _⟩ := hbuilds (Schema.ref (A := A)) s hs hb
  refine ⟨a, s', hrun, hgrow, hs', fun B _ g => ?_⟩
  obtain ⟨_, _, hrun', _, _, hleast⟩ := hbuilds g s hs hb
  obtain ⟨rfl, rfl⟩ := hrun.unique hrun'
  exact hleast

/-! ## Running and resolving -/

variable {k : CellId} {c : Cell A}

/-- **The definition of a cell comes to an end and gives what the cell is for.** -/
theorem run_runs (hs : s.Sound document definitions) (hc : s.cells[k]? = some c) :
    ∃ a s', Runs (run definitions k) s a s' ∧ s.Grows s' ∧ s'.Sound document definitions ∧
      s'.Gives document k c a := by
  obtain ⟨⟨ids, hbinds, hstash, definition, leaf, hfind, hbody, hleaf⟩, _⟩ := hs k c hc
  -- Running puts the cell on record before its body is built.
  let s₁ : Store A := { s with runs := k :: s.runs }
  have hgrow : s.Grows s₁ := .of_cells rfl rfl
  have hs₁ : s₁.Sound document definitions := hs.of_cells rfl
  have hb₁ : s₁.Binds (c.inner k) ((c.binder, c.id) :: ids) := .cons hc (hbinds.ages hgrow.ages)
  obtain ⟨a, s', hrun, hgrow', hs', hmeans⟩ := builds_fold hleaf hs₁ hb₁
  have hage := hgrow.trans hgrow'
  refine ⟨a, s', ?_, hage, hs', ids, definition, hbinds.ages hage.ages, hfind, hmeans⟩
  unfold run
  refine (Runs.cell hc).bind ?_
  rw [hbody, hstash]
  exact (Runs.pure _ s).bind ((Runs.update _ s).bind hrun)

/-- **Resolving a cell gives what the cell is for, whether its definition has run or
not.** -/
theorem resolve_runs (hs : s.Sound document definitions) (hc : s.cells[k]? = some c) :
    ∃ a s', Runs (resolve definitions k) s a s' ∧ s.Grows s' ∧ s'.Sound document definitions ∧
      s'.Gives document k c a := by
  cases hresolved : c.resolved with
  | some a =>
      refine ⟨a, s, ?_, .refl s, hs, (hs k c hc).2 a hresolved⟩
      unfold resolve
      refine (Runs.cell hc).bind ?_
      rw [hresolved]
      exact .pure a s
  | none =>
      obtain ⟨a, s₁, hrun, hgrow, hs₁, hgives⟩ := run_runs hs hc
      have hgrow' := Store.Grows.resolve s₁ k a
      obtain ⟨c₁, hc₁, hcell⟩ := hgrow.ages k c hc
      refine ⟨a, { s₁ with cells := s₁.cells.modify k fun c => { c with resolved := some a } }, ?_,
        hgrow.trans hgrow', hs₁.modify k (fun _ => ⟨rfl, rfl, rfl⟩) ?_, hgives.ages hgrow'.ages⟩
      · unfold resolve
        refine (Runs.cell hc).bind ?_
        rw [hresolved]
        exact hrun.bind ((Runs.update _ s₁).bind (.pure a _))
      · intro d hd b hb
        obtain rfl : c₁ = d := Option.some.inj (hc₁.symm.trans hd)
        obtain rfl : a = b := Option.some.inj hb
        exact hgives.of_cell hcell

end Lazy
end Schemata
