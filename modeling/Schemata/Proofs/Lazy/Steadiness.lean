import Schemata.Proofs.Lazy.Rendering

/-!
# Sources stay what they are

The source of an artifact is written by running definitions, each time anew and in whatever store
there is by then.  What a body is written to depends only on the schema, on what the names around
it are written to, and on what the artifacts that it mentions are: so it is the same in every later
store, and inside of whatever newer cells.

**Input.**  A legible store, and an artifact of its cells.

**Algorithm.**  A plain source tells what a reading comes to when it does in all later worlds
(`Tells`): in later stores, and inside of other cells that are not among the older ones.  Schemas
are built to what has a plain source, by induction on their structure and, for references to
definitions, on the number of definitions that are not bound around them.  Cells then have plain
sources by induction on their age.

**Results.**

* `build_sourced`: a scoped schema is built to an artifact with a plain source.
* `cells_tell`: every cell of a legible store has a plain source.
* `writeIn_steady`: every artifact of cells of a legible store is written, to the same node in all
  later stores.
-/

namespace Schemata

namespace Blueprint

variable {A : Type} [Vocabulary A] (owned referred : CellId → A)

theorem fold_custom (change : Custom) (b : Blueprint) :
    (Vocabulary.custom change b : Blueprint).fold owned referred =
      Vocabulary.custom change (b.fold owned referred) := by
  show fold owned referred (.custom change b) = _
  rw [fold]

theorem fold_pair (b b' : Blueprint) :
    (Vocabulary.pair b b' : Blueprint).fold owned referred =
      Vocabulary.pair (b.fold owned referred) (b'.fold owned referred) := by
  show fold owned referred (.pair b b') = _
  rw [fold]

end Blueprint

namespace Lazy

variable {A : Type} [Artifact A]

/-! ## Worlds -/

/-- Calls that end on all later stores, each time with the same answer. -/
def steady (s : Store A) : Correspondence (Run A) Id where
  rel x a := ∀ t, s.Ages t → ∃ t', Runs x t a.run t' ∧ t.Ages t'
  pure a t _ := ⟨t, .pure a t, .of_cells rfl⟩
  bind {_ _ _ _ _ _} hx hf t ht := by
    obtain ⟨t₁, hrun₁, hage₁⟩ := hx t ht
    obtain ⟨t₂, hrun₂, hage₂⟩ := hf _ t₁ (ht.trans hage₁)
    exact ⟨t₂, hrun₁.bind hrun₂, hage₁.trans hage₂⟩

/-- A store, and the cells of it inside of which source is being written. -/
structure World (A : Type) where
  store : Store A
  around : List CellId
  lt : ∀ k ∈ around, k < store.cells.size

/-- A later world: the store has aged, and the same of some older cells are around. -/
structure World.Within (bound : Nat) (w w' : World A) : Prop where
  ages : w.store.Ages w'.store
  around : ∀ k < bound, k ∈ w'.around ↔ k ∈ w.around

namespace World

variable {bound bound' : Nat} {w w' w'' : World A}

omit [Artifact A]

theorem Within.refl (bound : Nat) (w : World A) : w.Within bound w :=
  ⟨.of_cells rfl, fun _ _ => .rfl⟩

theorem Within.trans (h : w.Within bound w') (h' : w'.Within bound w'') : w.Within bound w'' where
  ages := h.ages.trans h'.ages
  around k hk := (h'.around k hk).trans (h.around k hk)

theorem Within.anti (h : w.Within bound w') (hbound : bound' ≤ bound) : w.Within bound' w' where
  ages := h.ages
  around k hk := h.around k (Nat.lt_of_lt_of_le hk hbound)

/-- The world in a later store. -/
def later (w : World A) (t : Store A) (h : w.store.Ages t) : World A where
  store := t
  around := w.around
  lt k hk := h.lt (w.lt k hk)

theorem within_later (w : World A) {t : Store A} (h : w.store.Ages t) :
    w.Within bound (w.later t h) := ⟨h, fun _ _ => .rfl⟩

/-- The world inside of one more cell. -/
def enter (w : World A) (k : CellId) (hk : k < w.store.cells.size) : World A where
  store := w.store
  around := k :: w.around
  lt := List.forall_mem_cons.2 ⟨hk, w.lt⟩

/-- Older cells do not see that a newer one is around. -/
theorem within_enter (w : World A) {k : CellId} (hk : k < w.store.cells.size) (hbound : bound ≤ k) :
    w.Within bound (w.enter k hk) where
  ages := .of_cells rfl
  around j hj := by
    have hne : j ≠ k := Nat.ne_of_lt (Nat.lt_of_lt_of_le hj hbound)
    rw [enter, List.mem_cons]
    exact or_iff_right hne

end World

/-! ## Plain sources -/

/-- A reading comes to a plain source, with cells nested to some depth or deeper, in all later
worlds. -/
def World.Tells (w : World A) (root : String) (bound depth : Nat)
    (reading : Nat → List CellId → Sourcing (Run A)) (e : Sourcing Id) : Prop :=
  ∀ w', w.Within bound w' → ∀ deeper, depth ≤ deeper →
    (steady w'.store).rel ((reading deeper w'.around).node root) (e.node root)

/-- The readings of a cell as source. -/
def cellReading (definitions : Entries Definition) (k : CellId) (depth : Nat)
    (around : List CellId) : Sourcing (Run A) := cellSourcingIn definitions depth around k

/-- The readings of an artifact as source. -/
def reading (definitions : Entries Definition) (a : A) (depth : Nat) (around : List CellId) :
    Sourcing (Run A) := sourcingIn definitions depth around a

/-- The source of a lazy schema whose body has a plain source. -/
def lazySource (id : String) (e : Sourcing Id) : Sourcing Id where
  node root := .method root "lazy" [.literal (.string id),
    .function (Node.definitionName id root) (e.node root)]

/-- The source of a lazy schema inside of its body. -/
def callSource (id : String) : Sourcing Id where
  node root := .call (.ident (Node.definitionName id root)) []

section Tells

variable {definitions : Entries Definition} {root : String} {w w' : World A}
  {bound bound' depth depth' : Nat} {e : Sourcing Id} {k : CellId} {c : Cell A}

omit [Artifact A] in
theorem World.Tells.mono {reading : Nat → List CellId → Sourcing (Run A)}
    (h : w.Tells root bound depth reading e) (hw : w.Within bound w') (hbound : bound ≤ bound')
    (hdepth : depth ≤ depth') : w'.Tells root bound' depth' reading e :=
  fun w'' hw' deeper hdeeper =>
    h w'' (hw.trans (hw'.anti hbound)) deeper (Nat.le_trans hdepth hdeeper)

/-- Plain sources of artifacts are made with all combinators. -/
theorem tells_compatible [ThoroughArtifact A] : Compatible fun (a : A) e =>
    w.Tells root bound depth (reading definitions a) e := by
  refine .forall fun w' => .forall fun hw' => .forall fun deeper => .forall fun hdeeper => ?_
  have hfold : Compatible fun (b : Blueprint) (e : Sourcing Id) => (steady w'.store).rel
      ((b.fold (cellSourcingIn definitions deeper w'.around)
        (cellSourcingIn definitions deeper w'.around)).node root) (e.node root) := by
    refine (Sourcing.compatible (steady w'.store) root).comap (Blueprint.respects_fold _ _)
      (Blueprint.fold_custom _ _) fun {_ _ _ _} ha hb => ?_
    rw [Blueprint.fold_pair]
    exact (Sourcing.compatible (steady w'.store) root).pair ha hb
  refine hfold.comap LawfulArtifact.respects_decoder ThoroughArtifact.decoder_custom ?_
  intro a b c d ha hb
  rcases ThoroughArtifact.decoder_pair a b with h | h
  · rw [h]
    exact ha
  · rw [h]
    exact hfold.pair ha hb

theorem reading_owner [LawfulArtifact A] :
    reading definitions (Artifact.owner k : A) = cellReading definitions k := by
  funext depth around
  rw [reading, sourcingIn, LawfulArtifact.decoder_owner, Blueprint.fold, cellReading]

theorem reading_handle [LawfulArtifact A] :
    reading definitions (Artifact.handle k : A) = cellReading definitions k := by
  funext depth around
  rw [reading, sourcingIn, LawfulArtifact.decoder_handle, Blueprint.fold, cellReading]

/-- Inside of its body a cell is a call. -/
theorem call_tells (hc : w.store.cells[k]? = some c) (hk : k ∈ w.around) (hbound : k < bound) :
    w.Tells root bound 1 (cellReading definitions k) (callSource c.id) := by
  rintro w' hw' (_ | deeper) hdeeper
  · exact absurd hdeeper (Nat.not_succ_le_zero 0)
  · intro t ht
    obtain ⟨d, hd, hage⟩ := (hw'.ages.trans ht) k c hc
    refine ⟨t, (Runs.cell hd).bind ?_, .of_cells rfl⟩
    rw [if_pos ((hw'.around k hbound).2 hk), hage.id]
    exact .pure _ t

end Tells

/-! ## Building in all worlds -/

section Grounds

variable (definitions : Entries Definition) (root : String) (given : List A)
  (plain : A → Sourcing Id)

/-- A world in which a scope has some plain sources, and given artifacts have theirs. -/
structure Grounds (w : World A) (bound depth : Nat) (scope : List (String × A))
    (env : Entries (Sourcing Id)) : Prop where
  scope : List.Forall₂
    (Keyed fun a e => w.Tells root bound depth (reading definitions a) e) scope env
  given : ∀ a ∈ given, w.Tells root bound depth (reading definitions a) (plain a)

/-- What building gives in all worlds in which the scope has some plain sources. -/
def Yields (env : Entries (Sourcing Id)) (depth deeper : Nat) {α β : Type}
    (call : List (String × A) → Run A α) (rel : World A → Nat → α → β → Prop) (b : β) : Prop :=
  ∀ w scope, Grounds definitions root given plain w w.store.cells.size depth scope env →
    ∃ a s', ∃ hages : w.store.Ages s', Runs (call scope) w.store a s' ∧
      rel (w.later s' hages) deeper a b

end Grounds

/-- An artifact has a plain source in a world. -/
def World.Reads (definitions : Entries Definition) (root : String) (w : World A) (depth : Nat)
    (a : A) (e : Sourcing Id) : Prop :=
  w.Tells root w.store.cells.size depth (reading definitions a) e

section Building

variable {definitions : Entries Definition} {root : String} {given : List A}
  {plain : A → Sourcing Id} {w w' : World A} {bound bound' depth depth' deeper deeper' : Nat}
  {scope : List (String × A)} {env : Entries (Sourcing Id)} {e : Sourcing Id} {k : CellId}
  {c : Cell A}

theorem Grounds.mono (h : Grounds definitions root given plain w bound depth scope env)
    (hw : w.Within bound w') (hbound : bound ≤ bound') (hdepth : depth ≤ depth') :
    Grounds definitions root given plain w' bound' depth' scope env where
  scope := h.scope.imp fun _ _ hx => hx.imp fun _ _ hx => hx.mono hw hbound hdepth
  given a ha := (h.given a ha).mono hw hbound hdepth

variable [ThoroughArtifact A]

omit [Artifact A] [ThoroughArtifact A] in
theorem bodySchema_ages {d : Cell A} (h : c.Ages d) :
    bodySchema definitions d = bodySchema definitions c := by
  rw [bodySchema, bodySchema, h.body, h.id]

/-- **A cell has a plain source when its body has one**, in all worlds inside of the cell. -/
theorem cell_tells {x : Schema A} (hc : w.store.cells[k]? = some c) (hk : k ∉ w.around)
    (hbody : bodySchema definitions c = pure x)
    (hground : Grounds definitions root given plain w k depth c.scope env)
    (hyields : Yields definitions root given plain ((c.binder, callSource c.id) :: env) (depth + 1)
      deeper (fun scope => build scope x) (World.Reads definitions root) e) :
    w.Tells root (k + 1) (deeper + 1) (cellReading definitions k) (lazySource c.id e) := by
  rintro w' hw' (_ | n) hn
  · exact absurd hn (Nat.not_succ_le_zero deeper)
  intro t ht
  obtain ⟨d, hd, hage⟩ := (hw'.ages.trans ht) k c hc
  have hlt : k < (t.enter k d).cells.size := Store.lt_size hd
  have hnot : k ∉ w'.around := fun h => hk ((hw'.around k (Nat.lt_succ_self k)).1 h)
  -- The body is built inside of the cell, in the store that there is by then.
  let inside : World A := (w'.later (t.enter k d) (ht.trans (.of_cells rfl))).enter k hlt
  have hinside : w.Within k inside :=
    ((hw'.anti (Nat.le_succ k)).trans (w'.within_later _)).trans
      (World.within_enter _ hlt (Nat.le_refl k))
  have hself : inside.Tells root inside.store.cells.size (depth + 1)
      (reading definitions (Artifact.handle k)) (callSource c.id) := by
    rw [reading_handle, ← hage.id]
    exact (call_tells hd List.mem_cons_self hlt).mono (.refl _ _) (Nat.le_refl _)
      (Nat.le_add_left 1 depth)
  have hground' := hground.mono hinside (Nat.le_of_lt hlt) (Nat.le_succ depth)
  have hscope : d.inner k = (c.binder, Artifact.handle k) :: c.scope := by
    rw [Cell.inner, hage.binder, hage.scope]
  obtain ⟨a, s', hages, hbuild, hreads⟩ := hyields inside (d.inner k)
    ⟨hscope ▸ .cons ⟨rfl, hself⟩ hground'.scope, hground'.given⟩
  have hbodySchema : Runs (bodySchema definitions d) t x t := by
    rw [bodySchema_ages hage, hbody]
    exact .pure x t
  have hrun : Runs (run definitions k) t a s' :=
    (Runs.cell hd).bind (hbodySchema.bind ((Runs.update _ t).bind hbuild))
  have hsteady := hreads _ (.refl _ _) n (Nat.le_of_succ_le_succ hn)
  obtain ⟨s'', hwrite, hages'⟩ := hsteady s' (.of_cells rfl)
  refine ⟨s'', (Runs.cell hd).bind ?_, .trans (.of_cells rfl) (hages.trans hages')⟩
  rw [if_neg hnot, hage.id]
  exact hrun.bind (hwrite.bind (.pure _ _))

/-- **A new cell has a plain source when its body has one.** -/
theorem allocate_yields {id : String} {body : Body A} {x : Schema A}
    (hbody : ∀ scope, bodySchema definitions ⟨id, body, scope, none, false⟩ = pure x)
    (hyields : Yields definitions root given plain
      ((Cell.binder ⟨id, body, [], none, false⟩, callSource id) :: env) (depth + 1) deeper
      (fun scope => build scope x) (World.Reads definitions root) e) :
    Yields definitions root given plain env depth (deeper + 1)
      (fun scope => allocate id body scope) (World.Reads definitions root) (lazySource id e) := by
  intro w scope hground
  let s' : Store A := { w.store with cells := w.store.cells.push ⟨id, body, scope, none, false⟩ }
  have hages : w.store.Ages s' := .push _ _
  have hc : s'.cells[w.store.cells.size]? = some ⟨id, body, scope, none, false⟩ :=
    Array.getElem?_push_size
  have hsize : s'.cells.size = w.store.cells.size + 1 := Array.size_push ..
  refine ⟨Artifact.owner w.store.cells.size, s', hages, .allocate id body scope _, ?_⟩
  have hk : w.store.cells.size ∉ w.around := fun h => Nat.lt_irrefl _ (w.lt _ h)
  have htells := cell_tells (w := w.later s' hages) hc hk (hbody scope)
    (hground.mono (w.within_later hages) (Nat.le_refl _) (Nat.le_refl _)) hyields
  rw [World.Reads, reading_owner]
  exact htells.mono (.refl _ _) (Nat.le_of_eq hsize.symm) (Nat.le_refl _)

/-- What holds of artifacts in a world stays so in later ones, with cells nested deeper. -/
def Persists {α β : Type} (rel : World A → Nat → α → β → Prop) : Prop :=
  ∀ {w w' depth depth' a b}, w.Within w.store.cells.size w' → depth ≤ depth' → rel w depth a b →
    rel w' depth' a b

omit [ThoroughArtifact A] in
theorem persists_reads : Persists (World.Reads (A := A) definitions root) := by
  intro w w' depth depth' a e hw hdepth h
  exact h.mono hw hw.ages.size hdepth

omit [ThoroughArtifact A] in
theorem persists_all : Persists fun (w : World A) depth =>
    List.Forall₂ (World.Reads definitions root w depth) :=
  fun hw hdepth h => h.imp fun _ _ hx => persists_reads hw hdepth hx

omit [ThoroughArtifact A] in
theorem persists_fields : Persists fun (w : World A) depth =>
    List.Forall₂ (Keyed (World.Reads definitions root w depth)) :=
  fun hw hdepth h => h.imp fun _ _ hx => hx.imp fun _ _ hx => persists_reads hw hdepth hx

namespace Yields

omit [ThoroughArtifact A]

variable {α α' α'' β β' β'' : Type} {call : List (String × A) → Run A α}
  {call' : List (String × A) → Run A α'} {rel : World A → Nat → α → β → Prop}
  {rel' : World A → Nat → α' → β' → Prop} {rel'' : World A → Nat → α'' → β'' → Prop} {b : β}
  {b' : β'} {b'' : β''}

theorem pure {a : α} (h : ∀ w depth, rel w depth a b) :
    Yields definitions root given plain env depth 0 (fun _ => Pure.pure a) rel b :=
  fun w _ _ => ⟨a, w.store, .of_cells rfl, .pure a _, h _ _⟩

theorem map {f : α → α'} (h : Yields definitions root given plain env depth deeper call rel b)
    (hf : ∀ {w depth a}, rel w depth a b → rel' w depth (f a) b') :
    Yields definitions root given plain env depth deeper
      (fun scope => call scope >>= fun a => Pure.pure (f a)) rel' b' := by
  intro w scope hground
  obtain ⟨a, s', hages, hrun, ha⟩ := h w scope hground
  exact ⟨f a, s', hages, hrun.bind (.pure _ _), hf ha⟩

/-- What is built one after the other has plain sources at the end. -/
theorem map₂ {f : α → α' → α''}
    (h : Yields definitions root given plain env depth deeper call rel b)
    (h' : Yields definitions root given plain env depth deeper' call' rel' b')
    (hrel : Persists rel) (hrel' : Persists rel')
    (hf : ∀ {w depth a a'}, rel w depth a b → rel' w depth a' b' → rel'' w depth (f a a') b'') :
    Yields definitions root given plain env depth (max deeper deeper')
      (fun scope => do
        let a ← call scope
        let a' ← call' scope
        Pure.pure (f a a')) rel'' b'' := by
  intro w scope hground
  obtain ⟨a, s₁, hages, hrun, ha⟩ := h w scope hground
  obtain ⟨a', s₂, hages', hrun', ha'⟩ := h' (w.later s₁ hages) scope
    (hground.mono (w.within_later hages) hages.size (Nat.le_refl _))
  refine ⟨f a a', s₂, hages.trans hages', hrun.bind (hrun'.bind (.pure _ _)), hf ?_ ?_⟩
  · exact hrel (World.within_later _ hages') (Nat.le_max_left _ _) ha
  · exact hrel' (.refl _ _) (Nat.le_max_right _ _) ha'

end Yields

/-! ## Plain sources of schemas -/

theorem reads_compatible (w : World A) (depth : Nat) :
    Compatible (World.Reads definitions root w depth) := tells_compatible

/-- A call that gives artifacts with plain sources in all worlds in which the scope has some. -/
def Sourced (definitions : Entries Definition) (root : String) (given : List A)
    (plain : A → Sourcing Id) (env : Entries (Sourcing Id)) (depth : Nat)
    (call : List (String × A) → Run A A) : Prop :=
  ∃ e deeper, Yields definitions root given plain env depth deeper call
    (World.Reads definitions root) e

omit [ThoroughArtifact A] in
theorem Grounds.lookup (h : Grounds definitions root given plain w bound depth scope env)
    (name : String) : Option.Rel (fun a e => w.Tells root bound depth (reading definitions a) e)
      (scope.lookup name) (env.lookup name) := Entries.lookup_rel name h.scope

omit [ThoroughArtifact A] in
/-- A name that is bound has the plain source that it is bound to. -/
theorem bound_sourced {name : String} {x : Schema A} (hlookup : env.lookup name = some e)
    (hbuild : ∀ scope a, scope.lookup name = some a → build scope x = pure a) :
    Sourced definitions root given plain env depth fun scope => build scope x := by
  refine ⟨e, depth, fun w scope hground => ?_⟩
  have hrel := hground.lookup name
  rw [hlookup] at hrel
  generalize hscope : scope.lookup name = found at hrel
  cases hrel with
  | @some a _ ha =>
      refine ⟨a, w.store, .of_cells rfl, ?_, ha⟩
      show Runs (build scope x) w.store a w.store
      rw [hbuild scope a hscope]
      exact .pure a w.store

/-- The definitions that are not bound in a scope. -/
def missing (definitions : Entries Definition) (env : Entries (Sourcing Id)) : Finset String :=
  definitions.keys.toFinset \ env.keys.toFinset

theorem missing_cons (definitions : Entries Definition) (name : String) (e : Sourcing Id) :
    missing definitions ((name, e) :: env) ⊆ missing definitions env := by
  intro other hother
  simp only [missing, Finset.mem_sdiff, List.mem_toFinset, Entries.keys, List.map_cons,
    List.mem_cons, not_or] at hother ⊢
  exact ⟨hother.1, hother.2.2⟩

theorem missing_lt {name : String} (hname : name ∈ definitions.keys) (hnot : name ∉ env.keys)
    (e : Sourcing Id) :
    (missing definitions ((name, e) :: env)).card < (missing definitions env).card := by
  refine Finset.card_lt_card ((Finset.ssubset_iff_of_subset (missing_cons definitions name e)).2 ?_)
  refine ⟨name, ?_, ?_⟩
  · simp [missing, hname, hnot]
  · simp [missing, Entries.keys]

/-- Definitions are built to artifacts with plain sources where fewer names than a count are
missing, and those that they refer to are there. -/
structure SourcedBelow (definitions : Entries Definition) (root : String) (given : List A)
    (plain : A → Sourcing Id) (count : Nat) : Prop where
  complete : Complete definitions
  sourced (env : Entries (Sourcing Id)) (depth : Nat) (definition : Definition) :
    (missing definitions env).card < count →
      (∀ name ∈ definition.references, name ∈ definitions.keys) →
        Sourced definitions root given plain env depth fun scope =>
          build scope (definition.fold .ref)

section Schemas

omit [ThoroughArtifact A]

variable {count : Nat}

mutual
/-- A scoped schema is built to an artifact with a plain source, given that definitions are inside
of one more of them. -/
theorem schema_sourced [ThoroughArtifact A]
    (hbelow : SourcedBelow definitions root given plain count) :
    ∀ (x : Schema A) (env : Entries (Sourcing Id)) (depth : Nat),
    (missing definitions env).card ≤ count → x.Follows (scoping definitions) env.keys →
      x.given ⊆ given →
      Sourced definitions root given plain env depth fun scope => build scope x
  | .literal value, _, _, _, _, _ => by
      simp only [build]
      exact ⟨_, _, .pure fun w depth => (reads_compatible w depth).literal value⟩
  | .literals values, _, _, _, _, _ => by
      simp only [build]
      exact ⟨_, _, .pure fun w depth => (reads_compatible w depth).literals values⟩
  | .literalsOr values fallback, env, depth, hcount, hx, hgiven => by
      rw [Schema.Follows] at hx
      rw [Schema.given] at hgiven
      obtain ⟨e, deeper, h⟩ := schema_sourced hbelow fallback env depth hcount hx hgiven
      simp only [build]
      exact ⟨_, _, h.map fun ha => (reads_compatible _ _).literalsOr values ha⟩
  | .primitive kind, _, _, _, _, _ => by
      simp only [build]
      exact ⟨_, _, .pure fun w depth => (reads_compatible w depth).primitive kind⟩
  | .object kind fields, env, depth, hcount, hx, hgiven => by
      rw [Schema.Follows] at hx
      rw [Schema.given] at hgiven
      obtain ⟨es, deeper, h⟩ := fields_sourced hbelow fields env depth hcount hx hgiven
      simp only [build]
      exact ⟨_, _, h.map fun ha => (reads_compatible _ _).object kind (Entries.forall₂_ofList ha)⟩
  | .record codomain, env, depth, hcount, hx, hgiven => by
      rw [Schema.Follows] at hx
      rw [Schema.given] at hgiven
      obtain ⟨e, deeper, h⟩ := schema_sourced hbelow codomain env depth hcount hx hgiven
      simp only [build]
      exact ⟨_, _, h.map fun ha => (reads_compatible _ _).record ha⟩
  | .array item, env, depth, hcount, hx, hgiven => by
      rw [Schema.Follows] at hx
      rw [Schema.given] at hgiven
      obtain ⟨e, deeper, h⟩ := schema_sourced hbelow item env depth hcount hx hgiven
      simp only [build]
      exact ⟨_, _, h.map fun ha => (reads_compatible _ _).array ha⟩
  | .tuple components, env, depth, hcount, hx, hgiven => by
      rw [Schema.Follows] at hx
      rw [Schema.given] at hgiven
      obtain ⟨es, deeper, h⟩ := all_sourced hbelow components env depth hcount hx hgiven
      simp only [build]
      exact ⟨_, _, h.map fun ha => (reads_compatible _ _).tuple ha⟩
  | .intersection left right, env, depth, hcount, hx, hgiven => by
      rw [Schema.Follows] at hx
      rw [Schema.given, List.append_subset] at hgiven
      obtain ⟨e, deeper, h⟩ := schema_sourced hbelow left env depth hcount hx.1 hgiven.1
      obtain ⟨e', deeper', h'⟩ := schema_sourced hbelow right env depth hcount hx.2 hgiven.2
      simp only [build]
      exact ⟨_, _, h.map₂ h' persists_reads persists_reads fun ha ha' =>
        (reads_compatible _ _).intersection ha ha'⟩
  | .sum tag members, env, depth, hcount, hx, hgiven => by
      rw [Schema.Follows] at hx
      rw [Schema.given] at hgiven
      obtain ⟨es, deeper, h⟩ := fields_sourced hbelow members env depth hcount hx hgiven
      simp only [build]
      exact ⟨_, _, h.map fun ha => (reads_compatible _ _).sum tag (Entries.forall₂_ofList ha)⟩
  | .union ⟨head, tail⟩, env, depth, hcount, hx, hgiven => by
      rw [Schema.Follows] at hx
      rw [Schema.given, List.append_subset] at hgiven
      obtain ⟨e, deeper, h⟩ := schema_sourced hbelow head env depth hcount hx.1 hgiven.1
      obtain ⟨es, deeper', h'⟩ := all_sourced hbelow tail env depth hcount hx.2 hgiven.2
      simp only [build]
      exact ⟨_, _, h.map₂ h' persists_reads persists_all fun ha ha' =>
        (reads_compatible _ _).union ha ha'⟩
  | .readonly inner, env, depth, hcount, hx, hgiven => by
      rw [Schema.Follows] at hx
      rw [Schema.given] at hgiven
      obtain ⟨e, deeper, h⟩ := schema_sourced hbelow inner env depth hcount hx hgiven
      simp only [build]
      exact ⟨_, _, h.map fun ha => (reads_compatible _ _).readonly ha⟩
  | .custom change inner, env, depth, hcount, hx, hgiven => by
      rw [Schema.Follows] at hx
      rw [Schema.given] at hgiven
      obtain ⟨e, deeper, h⟩ := schema_sourced hbelow inner env depth hcount hx hgiven
      simp only [build]
      exact ⟨_, _, h.map fun ha => (reads_compatible _ _).custom change ha⟩
  | .pair decoder encoder, env, depth, hcount, hx, hgiven => by
      rw [Schema.Follows] at hx
      rw [Schema.given, List.append_subset] at hgiven
      obtain ⟨e, deeper, h⟩ := schema_sourced hbelow decoder env depth hcount hx.1 hgiven.1
      obtain ⟨e', deeper', h'⟩ := schema_sourced hbelow encoder env depth hcount hx.2 hgiven.2
      simp only [build]
      exact ⟨_, _, h.map₂ h' persists_reads persists_reads fun ha ha' =>
        (reads_compatible _ _).pair ha ha'⟩
  | .lazy id binder body stash, env, depth, hcount, hx, hgiven => by
      rw [Schema.Follows] at hx
      rw [Schema.given] at hgiven
      have hcount' := Nat.le_trans
        (Finset.card_le_card (missing_cons definitions binder (callSource id))) hcount
      obtain ⟨e, deeper, h⟩ := schema_sourced hbelow body ((binder, callSource id) :: env)
        (depth + 1) hcount' hx hgiven
      simp only [build]
      exact ⟨_, _, allocate_yields (fun _ => rfl) h⟩
  | .self binder, env, depth, _, hx, _ => by
      rw [Schema.Follows] at hx
      replace hx : binder ∈ env.keys := hx
      obtain ⟨e, hlookup⟩ := Entries.exists_lookup hx
      refine bound_sourced hlookup fun scope a hscope => ?_
      simp only [build, hscope]
  | .ref name, env, depth, hcount, hx, _ => by
      rw [Schema.Follows] at hx
      replace hx : name ∈ definitions.keys := hx
      cases hlookup : env.lookup name with
      | some e =>
          refine bound_sourced hlookup fun scope a hscope => ?_
          simp only [build, hscope]
      | none =>
          have hnot : name ∉ env.keys := by
            intro hname
            obtain ⟨e, hlookup'⟩ := Entries.exists_lookup hname
            cases hlookup.symm.trans hlookup'
          obtain ⟨definition, hdefinition⟩ := Entries.exists_lookup hx
          have hcount' := Nat.lt_of_lt_of_le (missing_lt hx hnot (callSource name)) hcount
          obtain ⟨e, deeper, h⟩ := hbelow.sourced ((name, callSource name) :: env) (depth + 1)
            definition hcount' (hbelow.complete.admits [] name definition hx hdefinition)
          have hbody (scope : List (String × A)) :
              bodySchema definitions (⟨name, .definition, scope, none, false⟩ : Cell A) =
                pure (definition.fold .ref) := by
            simp only [bodySchema, hdefinition]
          have hall := allocate_yields hbody h
          refine ⟨lazySource name e, deeper + 1, fun w scope hground => ?_⟩
          have hrel := hground.lookup name
          rw [hlookup] at hrel
          generalize hscope : scope.lookup name = found at hrel
          cases hrel
          simp only [build, hscope]
          exact hall w scope hground
  | .artifact built, env, depth, _, _, hgiven => by
      rw [Schema.given] at hgiven
      simp only [build]
      refine ⟨plain built, depth, fun w scope hground => ?_⟩
      exact ⟨built, w.store, .of_cells rfl, .pure built _,
        hground.given built (hgiven List.mem_cons_self)⟩

theorem all_sourced [ThoroughArtifact A]
    (hbelow : SourcedBelow definitions root given plain count) :
    ∀ (xs : List (Schema A)) (env : Entries (Sourcing Id)) (depth : Nat),
    (missing definitions env).card ≤ count →
      Schema.FollowsInAll (scoping definitions) env.keys xs → Schema.givenInAll xs ⊆ given →
      ∃ es deeper, Yields definitions root given plain env depth deeper
        (fun scope => buildAll scope xs) (fun w depth =>
          List.Forall₂ (World.Reads definitions root w depth)) es
  | [], _, _, _, _, _ => by
      simp only [buildAll]
      exact ⟨[], _, .pure fun _ _ => .nil⟩
  | x :: rest, env, depth, hcount, hx, hgiven => by
      rw [Schema.FollowsInAll] at hx
      rw [Schema.givenInAll, List.append_subset] at hgiven
      obtain ⟨e, deeper, h⟩ := schema_sourced hbelow x env depth hcount hx.1 hgiven.1
      obtain ⟨es, deeper', h'⟩ := all_sourced hbelow rest env depth hcount hx.2 hgiven.2
      simp only [buildAll]
      exact ⟨e :: es, _, h.map₂ h' persists_reads persists_all fun ha ha' => .cons ha ha'⟩

theorem fields_sourced [ThoroughArtifact A]
    (hbelow : SourcedBelow definitions root given plain count) :
    ∀ (xs : List (String × Schema A)) (env : Entries (Sourcing Id))
    (depth : Nat), (missing definitions env).card ≤ count →
      Schema.FollowsInFields (scoping definitions) env.keys xs → Schema.givenInFields xs ⊆ given →
      ∃ es deeper, Yields definitions root given plain env depth deeper
        (fun scope => buildFields scope xs) (fun w depth =>
          List.Forall₂ (Keyed (World.Reads definitions root w depth))) es
  | [], _, _, _, _, _ => by
      simp only [buildFields]
      exact ⟨[], _, .pure fun _ _ => .nil⟩
  | (key, x) :: rest, env, depth, hcount, hx, hgiven => by
      rw [Schema.FollowsInFields] at hx
      rw [Schema.givenInFields, List.append_subset] at hgiven
      obtain ⟨e, deeper, h⟩ := schema_sourced hbelow x env depth hcount hx.1 hgiven.1
      obtain ⟨es, deeper', h'⟩ := fields_sourced hbelow rest env depth hcount hx.2 hgiven.2
      simp only [buildFields]
      exact ⟨(key, e) :: es, _, h.map₂ h' persists_reads persists_fields fun ha ha' =>
        .cons ⟨rfl, ha⟩ ha'⟩
end

end Schemas

/-- **A scoped schema is built to an artifact with a plain source**, in all worlds in which the
names around it have some. -/
theorem build_sourced (hcomplete : Complete definitions) {x : Schema A}
    (hx : x.Follows (scoping definitions) env.keys) (hgiven : x.given ⊆ given) :
    Sourced definitions root given plain env depth fun scope => build scope x := by
  generalize hcount : (missing definitions env).card = count
  induction count using Nat.strong_induction_on generalizing x env depth with
  | _ count ih =>
      have hbelow : SourcedBelow definitions root given plain count := by
        refine ⟨hcomplete, fun env depth definition hlt hreferences => ?_⟩
        have hfollows := Schema.fold_ref_follows (A := A) (scoping definitions) env.keys definition
          hreferences
        refine ih _ hlt hfollows ?_ rfl
        rw [Schema.given_fold_ref]
        exact List.nil_subset _
      exact schema_sourced hbelow x env depth (Nat.le_of_eq hcount) hx hgiven

/-! ## Plain sources of cells -/

/-- The world of a store in which no source is being written. -/
def World.outside (s : Store A) : World A := ⟨s, [], fun _ h => nomatch h⟩

/-- The plain source of an artifact of cells with plain sources. -/
def plainSource (sources : CellId → Sourcing Id) (a : A) : Sourcing Id :=
  (Artifact.decoder a).fold sources sources

variable {sources : CellId → Sourcing Id} {s : Store A} {a : A} {count : Nat}

omit [ThoroughArtifact A] in
theorem plainSource_tells (h : ∀ k < count, (World.outside s).Tells root (k + 1) depth
      (cellReading definitions k) (sources k))
    (ha : ∀ leaf ∈ Artifact.leaves a, leaf.cell < count) :
    (World.outside s).Tells root count depth (reading definitions a) (plainSource sources a) := by
  intro w' hw' deeper hdeeper
  refine Blueprint.fold_rel (Sourcing.compatible (steady w'.store) root) _ fun leaf hleaf => ?_
  have hlt := ha leaf (List.mem_append_left _ hleaf)
  have htells := h leaf.cell hlt w' (hw'.anti hlt) deeper hdeeper
  cases leaf with
  | owner j => exact htells
  | handle j => exact htells

/-- **Every cell of a legible store has a plain source**, inside of whatever newer cells. -/
theorem cells_tell (root : String) (hcomplete : Complete definitions)
    (hs : s.Legible definitions) : ∀ count ≤ s.cells.size,
      ∃ (sources : CellId → Sourcing Id) (depth : Nat), ∀ k < count,
      (World.outside s).Tells root (k + 1) depth (cellReading definitions k) (sources k)
  | 0, _ => ⟨fun _ => callSource "", 0, fun k hk => absurd hk (Nat.not_lt_zero k)⟩
  | count + 1, hcount => by
      obtain ⟨sources, depth, h⟩ := cells_tell root hcomplete hs count (Nat.le_of_succ_le hcount)
      obtain ⟨c, hc⟩ := Store.exists_cell hcount
      have hlegible := hs.cells count c hc
      obtain ⟨x, hbody, hgiven, hx⟩ := hlegible.schema hcomplete
      -- The names around the body, and what it mentions, are of older cells.
      let env : Entries (Sourcing Id) := Entries.mapValues (plainSource sources) c.scope
      have hground : Grounds definitions root c.body.given (plainSource sources) (.outside s) count
          depth c.scope env := by
        refine ⟨List.forall₂_map_right_iff.2 (List.forall₂_same.2 fun entry hentry => ⟨rfl, ?_⟩),
          fun a ha => plainSource_tells h (hlegible.given a ha)⟩
        refine plainSource_tells h fun leaf hleaf => ?_
        obtain ⟨j, hhandle, hj⟩ := hlegible.scope entry hentry
        rw [hhandle] at hleaf
        obtain rfl := Artifact.mem_leaves_handle.1 hleaf
        exact hj
      have hkeys : Entries.keys (c.inner count) =
          Entries.keys ((c.binder, callSource c.id) :: env) := by
        show c.binder :: Entries.keys c.scope = c.binder :: env.keys
        rw [Entries.keys_mapValues]
      have hsourced : Sourced definitions root c.body.given (plainSource sources)
          ((c.binder, callSource c.id) :: env) (depth + 1) fun scope => build scope x :=
        build_sourced hcomplete (hkeys ▸ hx) hgiven
      obtain ⟨e, deeper, hyields⟩ := hsourced
      have htells := cell_tells (w := .outside s) hc (List.not_mem_nil) hbody hground hyields
      refine ⟨Function.update sources count (lazySource c.id e), max depth (deeper + 1),
        fun k hk => ?_⟩
      rcases Nat.lt_succ_iff_lt_or_eq.1 hk with hk | rfl
      · rw [Function.update_of_ne (Nat.ne_of_lt hk)]
        exact (h k hk).mono (.refl _ _) (Nat.le_refl _) (Nat.le_max_left _ _)
      · rw [Function.update_self]
        exact htells.mono (.refl _ _) (Nat.le_refl _) (Nat.le_max_right _ _)

/-- **Every artifact of cells of a legible store is written, to the same node in all later stores**
and with cells nested to any depth that is enough. -/
theorem writeIn_steady (hcomplete : Complete definitions) (hs : s.Legible definitions)
    (ha : ∀ leaf ∈ Artifact.leaves a, leaf.cell < s.cells.size) (root : String) :
    ∃ node depth, ∀ t, s.Ages t → ∀ deeper, depth ≤ deeper →
      ∃ t', Runs (writeIn definitions deeper [] root a) t node t' := by
  obtain ⟨sources, depth, h⟩ := cells_tell root hcomplete hs s.cells.size (Nat.le_refl _)
  refine ⟨(plainSource sources a).node root, depth, fun t ht deeper hdeeper => ?_⟩
  obtain ⟨t', hrun, _⟩ := plainSource_tells h ha (.outside t) ⟨ht, fun _ _ => .rfl⟩ deeper hdeeper
    (t.hold a) (.of_cells rfl)
  exact ⟨_, (Runs.update _ t).bind (hrun.bind ((Runs.update _ t').bind (.pure _ _)))⟩

end Building

end Lazy
end Schemata
