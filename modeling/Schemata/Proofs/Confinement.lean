import Schemata.Proofs.Lazy.History

/-!
# No schema that is used meets a dead handle

A handle in a body is of a cell around the body, and the call that uses it holds that cell.  So a
call of an artifact meets no dead handle when no handle has got into the artifact in another way:
when no schema that it is made of mentions an artifact with a handle in it.

**Input.**  A history, and an artifact that was built in it, at any time, from such artifacts
(`Conduct.Made`).

**Algorithm.**  Some cells are confined when their scopes are of handles of cells around, and what
their bodies mention and what they have resolved to has no other leaves than such handles and
further confined cells.  Whatever is resolved or built, confined cells stay so and those made inside
of them are so too (`Confines.resolves`); and what calls come across in confined cells is held or
around what is held (`confinement`).

**Results.**

* `Conduct.Step.secure`: what one step of a history preserves.
* `Conduct.Made.sealed`: what holds of an artifact however the history goes on.
* `confined`: handles that are dead are not met, whatever they would answer.
-/

namespace Schemata
namespace Lazy

open Json (Value)

variable {A : Type} [Artifact A]

/-! ## Confined cells -/

namespace Store

/-- A leaf inside of a scope: a cell among some whose scope is around, or a handle that the scope
has. -/
def Inside (s : Store A) (S : CellId → Prop) (scope : List (String × A)) : Blueprint.Leaf → Prop
  | .owner k => S k ∧ ∃ c, s.cells[k]? = some c ∧ c.scope ⊆ scope
  | .handle k => ∃ name, (name, Artifact.handle k) ∈ scope

/-- A cell that is confined to some cells: around it are handles of such cells, what its body
mentions has no handles in it, and what it has resolved to is inside of it. -/
structure ConfinedAt (s : Store A) (S : CellId → Prop) (k : CellId) (c : Cell A) : Prop where
  scope : ∀ e ∈ c.scope, ∃ j d, e.2 = Artifact.handle j ∧ S j ∧ s.cells[j]? = some d ∧
    d.scope ⊆ c.scope
  given : ∀ a ∈ c.body.given, ∀ leaf ∈ Artifact.leaves a, s.Inside S [] leaf
  resolved (a : A) : c.resolved = some a → ∀ leaf ∈ Artifact.leaves a, s.Inside S (c.inner k) leaf

/-- Cells that are confined to each other. -/
def Confines (s : Store A) (S : CellId → Prop) : Prop :=
  ∀ k, S k → ∃ c, s.cells[k]? = some c ∧ s.ConfinedAt S k c

/-- A cell is secure when it is among cells that are confined to each other. -/
def Secure (s : Store A) (k : CellId) : Prop := ∃ S, s.Confines S ∧ S k

variable {s s' : Store A} {S S' : CellId → Prop} {k : CellId} {c : Cell A}

theorem Inside.mono {scope scope' : List (String × A)} {leaf : Blueprint.Leaf}
    (h : s.Inside S scope leaf) (hS : ∀ j, S j → S' j) (hage : s.Ages s')
    (hscope : scope ⊆ scope') :
    s'.Inside S' scope' leaf := by
  cases leaf with
  | owner j =>
      obtain ⟨hj, d, hd, hsub⟩ := h
      obtain ⟨d', hd', hcell⟩ := hage j d hd
      refine ⟨hS j hj, d', hd', ?_⟩
      rw [hcell.scope]
      exact List.Subset.trans hsub hscope
  | handle j =>
      obtain ⟨name, hmem⟩ := h
      exact ⟨name, hscope hmem⟩

theorem ConfinedAt.mono (h : s.ConfinedAt S k c) (hS : ∀ j, S j → S' j) (hage : s.Ages s') :
    s'.ConfinedAt S' k c where
  scope e he := by
    obtain ⟨j, d, hhandle, hj, hd, hsub⟩ := h.scope e he
    obtain ⟨d', hd', hcell⟩ := hage j d hd
    exact ⟨j, d', hhandle, hS j hj, hd', hcell.scope ▸ hsub⟩
  given a ha leaf hleaf := (h.given a ha leaf hleaf).mono hS hage (List.Subset.refl _)
  resolved a ha leaf hleaf := (h.resolved a ha leaf hleaf).mono hS hage (List.Subset.refl _)

/-- The secure cells are confined to each other. -/
theorem confines_secure (s : Store A) : s.Confines s.Secure := by
  rintro k ⟨S, hS, hk⟩
  obtain ⟨c, hc, hconfined⟩ := hS k hk
  exact ⟨c, hc, hconfined.mono (fun j hj => ⟨S, hS, hj⟩) (.of_cells rfl)⟩

/-- Cells stay confined to each other when they do not change. -/
theorem Confines.of_old (h : s.Confines S) (hage : s.Ages s')
    (hold : ∀ k c, S k → s.cells[k]? = some c → s'.cells[k]? = some c) : s'.Confines S := by
  intro k hk
  obtain ⟨c, hc, hconfined⟩ := h k hk
  exact ⟨c, hold k c hk hc, hconfined.mono (fun _ => id) hage⟩

/-- The scope inside of a confined cell is of handles of confined cells, around each other. -/
theorem ConfinedAt.inner (h : s.ConfinedAt S k c) (hk : S k) (hc : s.cells[k]? = some c) :
    ∀ e ∈ c.inner k, ∃ j d, e.2 = Artifact.handle j ∧ S j ∧ s.cells[j]? = some d ∧
      d.scope ⊆ c.inner k := by
  intro e he
  have hsub : c.scope ⊆ c.inner k := List.subset_cons_self _ _
  rcases List.mem_cons.1 he with rfl | he
  · exact ⟨k, c, rfl, hk, hc, hsub⟩
  · obtain ⟨j, d, hhandle, hj, hd, hscope⟩ := h.scope e he
    exact ⟨j, d, hhandle, hj, hd, List.Subset.trans hscope hsub⟩

/-- A store after calls: nothing else is held, and secure cells are secure. -/
structure Secures (s s' : Store A) : Prop where
  ages : s.Ages s'
  held : s'.held = s.held
  secure : ∀ k, s.Secure k → s'.Secure k

theorem Secures.refl (s : Store A) : s.Secures s := ⟨.of_cells rfl, rfl, fun _ h => h⟩

theorem Secures.trans {s'' : Store A} (h : s.Secures s') (h' : s'.Secures s'') : s.Secures s'' where
  ages := h.ages.trans h'.ages
  held := h'.held.trans h.held
  secure k hk := h'.secure k (h.secure k hk)

theorem Secure.of_cells (hcells : s'.cells = s.cells) (h : s.Secure k) : s'.Secure k := by
  obtain ⟨S, hS, hk⟩ := h
  exact ⟨S, hS.of_old (.of_cells hcells) fun _ _ _ hc => hcells ▸ hc, hk⟩

theorem Secures.release {a : A} (h : (s.hold a).Secures s') :
    s.Secures { s' with held := s.held } where
  ages := h.ages
  held := rfl
  secure k hk := Secure.of_cells (s := s') rfl (h.secure k (Secure.of_cells (s := s) rfl hk))

variable [ThoroughArtifact A] {definitions : Entries Definition} {a : A}

/-- A cell that is confined is so when it has resolved, with the new cells inside of it. -/
theorem ConfinedAt.resolves (h : s.ConfinedAt S k c) (hk : S k) (hc : s.cells[k]? = some c)
    (hres : s.Resolves definitions k c a s') (hS : ∀ j, S j → S' j)
    (hnew : ∀ j, s.cells.size ≤ j → j < s'.cells.size → S' j) :
    s'.ConfinedAt S' k { c with resolved := some a } := by
  have hmono := h.mono hS (hres.grows hc).ages
  refine ⟨hmono.scope, hmono.given, fun b hb leaf hleaf => ?_⟩
  obtain rfl := Option.some.inj hb
  cases hres.leaves leaf hleaf with
  | new hj hj' =>
      obtain ⟨d, hd⟩ := exists_cell hj'
      exact ⟨hnew _ hj hj', d, hd, (hres.new _ d hj hd).scope ▸ List.Subset.refl _⟩
  | @scope e _ he hleaf =>
      obtain ⟨j, _, hhandle, _⟩ := h.inner hk hc e he
      rw [hhandle] at hleaf
      obtain rfl := Artifact.mem_leaves_handle.1 hleaf
      exact ⟨e.1, hhandle ▸ he⟩
  | given hb hleaf =>
      exact (hmono.given _ hb leaf hleaf).mono (fun _ => id) (.of_cells rfl) (List.nil_subset _)

omit [ThoroughArtifact A] in
/-- A new cell is confined where the cell is that is inside of. -/
theorem ConfinedAt.new (h : s.ConfinedAt S k c) (hk : S k) (hc : s.cells[k]? = some c)
    {follows : Schema.Rule → Prop} {d : Cell A} (hnew : d.New (c.inner k) c.body.given follows)
    (hS : ∀ j, S j → S' j) (hage : s.Ages s') {j : CellId} : s'.ConfinedAt S' j d where
  scope e he := by
    rw [hnew.scope] at he ⊢
    obtain ⟨i, c', hhandle, hi, hc', hsub⟩ := h.inner hk hc e he
    obtain ⟨c'', hc'', hcell⟩ := hage i c' hc'
    exact ⟨i, c'', hhandle, hS i hi, hc'', hcell.scope ▸ hsub⟩
  given b hb := (h.mono hS hage).given b (hnew.given hb)
  resolved b hb := by
    rw [hnew.resolved] at hb
    cases hb

/-- **Whatever cell resolves, confined cells stay so**, and so are those that are new inside of
them. -/
theorem Confines.resolves (h : s.Confines S) (hc : s.cells[k]? = some c)
    (hres : s.Resolves definitions k c a s') :
    s'.Confines fun j => S j ∨ S k ∧ s.cells.size ≤ j ∧ j < s'.cells.size := by
  have hage := (hres.grows hc).ages
  rintro j (hj | ⟨hk, hj, hlt⟩)
  · obtain ⟨d, hd, hconfined⟩ := h j hj
    by_cases hjk : j = k
    · subst hjk
      obtain rfl : c = d := Option.some.inj (hc.symm.trans hd)
      exact ⟨_, hres.self, hconfined.resolves hj hc hres (fun _ => .inl)
        fun i hi hi' => .inr ⟨hj, hi, hi'⟩⟩
    · exact ⟨d, (hres.old j (lt_size hd) hjk).trans hd, hconfined.mono (fun _ => .inl) hage⟩
  · obtain ⟨d, hd⟩ := exists_cell hlt
    obtain ⟨c', hc', hconfined⟩ := h k hk
    obtain rfl : c = c' := Option.some.inj (hc.symm.trans hc')
    exact ⟨d, hd, hconfined.new hk hc (hres.new j d hj hd) (fun _ => .inl) hage⟩

end Store

open Store

variable [ThoroughArtifact A] {definitions : Entries Definition} {s s' : Store A} {k : CellId}
  {a : A}

/-- Resolving a cell keeps secure cells so. -/
theorem resolve_secures (h : Runs (resolve definitions k) s a s') : s.Secures s' := by
  obtain ⟨c, hc, ⟨_, rfl⟩ | ⟨_, hres⟩⟩ := resolve_cases h
  · exact .refl s'
  · refine ⟨(hres.grows hc).ages, hres.held, ?_⟩
    rintro j ⟨S, hS, hj⟩
    exact ⟨_, hS.resolves hc hres, .inl hj⟩

/-- What a secure cell resolves to is inside of it. -/
theorem resolve_inside (hk : s.Secure k) (h : Runs (resolve definitions k) s a s') :
    ∃ c, s'.cells[k]? = some c ∧ s'.ConfinedAt s'.Secure k c ∧
      ∀ leaf ∈ Artifact.leaves a, s'.Inside s'.Secure (c.inner k) leaf := by
  obtain ⟨c', hc', hconfined⟩ := s'.confines_secure k ((resolve_secures h).secure k hk)
  refine ⟨c', hc', hconfined, ?_⟩
  obtain ⟨c, hc, ⟨hresolved, rfl⟩ | ⟨_, hres⟩⟩ := resolve_cases h
  · obtain rfl : c = c' := Option.some.inj (hc.symm.trans hc')
    exact hconfined.resolved a hresolved
  · obtain rfl := Option.some.inj (hres.self.symm.trans hc')
    exact hconfined.resolved a rfl

/-! ## Calls -/

/-- The regime of all calls: secure cells stay so. -/
def securing (definitions : Entries Definition) : Regime A definitions where
  Fine _ := True
  Later := Store.Secures
  May _ _ := True
  Usable _ _ := True
  Halts _ := True
  refl := .refl
  trans := .trans
  ages h := h.ages
  held h := h.held
  may _ _ := trivial
  depth := trivial
  owner _ _ := trivial
  handle _ _ _ := trivial
  holds _ _ := ⟨trivial, fun _ _ => trivial⟩
  resolves _ _ _ := .of_forall fun _ _ h => ⟨trivial, resolve_secures h, fun _ _ => trivial⟩
  releases _ _ _ h := ⟨trivial, h.release⟩

namespace Store

/-- A secure cell around which everything is held. -/
def Guarded (s : Store A) (k : CellId) : Prop :=
  s.Secure k ∧ ∃ c, s.cells[k]? = some c ∧ s.Attends c.scope

/-- A leaf that calls may come across: a cell around which everything is held, and if it is
referred to by a handle it is held as well. -/
def Safe (s : Store A) : Blueprint.Leaf → Prop
  | .owner k => s.Guarded k
  | .handle k => k ∈ owned s.held ∧ s.Guarded k

omit [ThoroughArtifact A] in
theorem Guarded.later (h : s.Secures s') (hk : s.Guarded k) : s'.Guarded k := by
  obtain ⟨hsecure, c, hc, hattends⟩ := hk
  obtain ⟨c', hc', hcell⟩ := h.ages k c hc
  refine ⟨h.secure k hsecure, c', hc', fun name j hmem => ?_⟩
  rw [h.held]
  exact hattends name j (hcell.scope ▸ hmem)

omit [ThoroughArtifact A] in
theorem Safe.later (h : s.Secures s') {leaf : Blueprint.Leaf} (hleaf : s.Safe leaf) :
    s'.Safe leaf := by
  cases leaf with
  | owner k => exact Guarded.later h hleaf
  | handle k => exact ⟨h.held ▸ hleaf.1, Guarded.later h hleaf.2⟩

omit [ThoroughArtifact A] in
theorem Guarded.hold (a : A) (hk : s.Guarded k) : (s.hold a).Guarded k := by
  obtain ⟨hsecure, c, hc, hattends⟩ := hk
  exact ⟨Secure.of_cells (s := s) rfl hsecure, c, hc, fun name j hmem =>
    List.mem_append_right _ (hattends name j hmem)⟩

omit [ThoroughArtifact A] in
theorem Safe.hold (a : A) {leaf : Blueprint.Leaf} (hleaf : s.Safe leaf) : (s.hold a).Safe leaf := by
  cases leaf with
  | owner k => exact Guarded.hold a hleaf
  | handle k => exact ⟨List.mem_append_right _ hleaf.1, Guarded.hold a hleaf.2⟩

theorem safe_owner (hk : s.Guarded k) :
    ∀ leaf ∈ Artifact.leaves (Artifact.owner k : A), s.Safe leaf := by
  intro leaf hleaf
  obtain rfl := Artifact.mem_leaves_owner.1 hleaf
  exact hk

/-- What is inside of a confined cell is safe while the cells around are held. -/
theorem Inside.safe {scope : List (String × A)} (hattends : s.Attends scope)
    (hscope : ∀ e ∈ scope, ∃ j d, e.2 = Artifact.handle j ∧ s.Secure j ∧ s.cells[j]? = some d ∧
      d.scope ⊆ scope) {leaf : Blueprint.Leaf} (h : s.Inside s.Secure scope leaf) :
    s.Safe leaf := by
  cases leaf with
  | owner j =>
      obtain ⟨hj, d, hd, hsub⟩ := h
      exact ⟨hj, d, hd, fun name i hmem => hattends name i (hsub hmem)⟩
  | handle j =>
      obtain ⟨name, hmem⟩ := h
      obtain ⟨i, d, hhandle, hi, hd, hsub⟩ := hscope _ hmem
      obtain rfl := LawfulArtifact.handle_injective hhandle
      exact ⟨hattends name j hmem, hi, d, hd, fun name i hmem => hattends name i (hsub hmem)⟩

end Store

/-- What a guarded cell that is held resolves to has safe leaves. -/
theorem resolve_safe (hk : s.Guarded k) (hheld : k ∈ owned s.held)
    (h : Runs (resolve definitions k) s a s') : ∀ leaf ∈ Artifact.leaves a, s'.Safe leaf := by
  have hlater := resolve_secures h
  obtain ⟨c, hc, hconfined, hinside⟩ := resolve_inside hk.1 h
  obtain ⟨hsecure, c', hc', hattends⟩ := hk.later hlater
  obtain rfl : c = c' := Option.some.inj (hc.symm.trans hc')
  have hinner : s'.Attends (c.inner k) := by
    intro name j hmem
    rcases List.mem_cons.1 hmem with heq | hmem
    · obtain rfl := LawfulArtifact.handle_injective (Prod.mk.inj heq).2
      exact hlater.held ▸ hheld
    · exact hattends name j hmem
  exact fun leaf hleaf => (hinside leaf hleaf).safe hinner (hconfined.inner hsecure hc)

/-- The regime of calls in confined cells: all handles that they come across are held. -/
def confinement (definitions : Entries Definition) : Regime A definitions where
  Fine _ := True
  Later := Store.Secures
  May := Store.Safe
  Usable s a := ∀ leaf ∈ Artifact.leaves a, s.Safe leaf
  Halts _ := True
  refl := .refl
  trans := .trans
  ages h := h.ages
  held h := h.held
  may h hleaf := hleaf.later h
  depth := trivial
  owner _ hmay := safe_owner hmay
  handle _ hmay _ := safe_owner hmay.2
  holds _ ha := ⟨trivial, fun leaf hleaf => (ha leaf hleaf).hold _⟩
  resolves _ hmay hheld := .of_forall fun _ _ h =>
    ⟨trivial, resolve_secures h, resolve_safe hmay hheld h⟩
  releases _ _ _ h := ⟨trivial, h.release⟩

/-- Calls in confined cells do not tell refusals apart: they meet no handle that is dead. -/
theorem confinement_refuses (refusal refusal' : Refusal A) :
    (confinement definitions).Refuses refusal refusal' := by
  have hmet {s : Store A} {k : CellId} (hmay : s.Safe (.handle k)) : ¬ s.isAlive k = false := by
    have hroot : k ∈ s.roots := List.mem_append_left _ hmay.1
    rw [Bool.not_eq_false, isAlive, Bool.or_eq_true]
    exact .inl (List.contains_iff_mem.2 hroot)
  constructor
  · exact fun hmay hdead => absurd hdead (hmet hmay)
  · exact fun hmay hdead => absurd hdead (hmet hmay)
  · exact fun hmay hdead => absurd hdead (hmet hmay)

/-! ## Histories -/

/-- An artifact of secure cells with no scope, and without handles. -/
def Store.Sealed (s : Store A) (a : A) : Prop :=
  ∀ leaf ∈ Artifact.leaves a, s.Inside s.Secure [] leaf

namespace Store

/-- A sealed artifact may be used by calls. -/
theorem Sealed.usable (h : s.Sealed a) : (confinement definitions).Usable s a :=
  fun leaf hleaf => (h leaf hleaf).safe (by intro _ _ hmem; cases hmem) (by intro _ he; cases he)

omit [ThoroughArtifact A] in
theorem Sealed.mono (h : s.Sealed a) (hage : s.Ages s') (hsecure : ∀ k, s.Secure k → s'.Secure k) :
    s'.Sealed a :=
  fun leaf hleaf => (h leaf hleaf).mono hsecure hage (List.Subset.refl _)

omit [ThoroughArtifact A] in
/-- New cells outside of others are confined where what they mention is sealed. -/
theorem Adds.confines {given : List A} {follows : Schema.Rule → Prop}
    (hadds : s.Adds [] given follows s') (hgiven : ∀ b ∈ given, s.Sealed b) :
    s'.Confines fun j => s.Secure j ∨ s.cells.size ≤ j ∧ j < s'.cells.size := by
  have hage := hadds.grows.ages
  rintro j (hj | ⟨hj, hlt⟩)
  · obtain ⟨c, hc, hconfined⟩ := s.confines_secure j hj
    exact ⟨c, hadds.get hc, hconfined.mono (fun _ => .inl) hage⟩
  · obtain ⟨d, hd⟩ := exists_cell hlt
    have hnew := hadds.new j d hj hd
    refine ⟨d, hd, fun e he => ?_, fun b hb leaf hleaf => ?_, fun b hb => ?_⟩
    · rw [hnew.scope] at he
      cases he
    · exact (hgiven b (hnew.given hb) leaf hleaf).mono (fun _ => .inl) hage (List.Subset.refl _)
    · rw [hnew.resolved] at hb
      cases hb

end Store

/-- **Building a schema over sealed artifacts gives one.** -/
theorem build_sealed {x : Schema A} (hgiven : ∀ b ∈ x.given, s.Sealed b)
    (h : Runs (build [] x) s a s') : s'.Sealed a := by
  obtain ⟨hadds, hleaves⟩ := build_adds [] x s a s' h
  have hconfines := hadds.confines hgiven
  intro leaf hleaf
  cases hleaves leaf hleaf with
  | new hj hlt =>
      obtain ⟨d, hd⟩ := exists_cell hlt
      exact ⟨⟨_, hconfines, .inr ⟨hj, hlt⟩⟩, d, hd,
        (hadds.new _ d hj hd).scope ▸ List.Subset.refl _⟩
  | scope he _ => cases he
  | given hb hleaf =>
      exact (hgiven _ hb leaf hleaf).mono (fun j hj => ⟨_, hconfines, .inl hj⟩) hadds.grows.ages
        (List.Subset.refl _)

namespace Conduct

/-- **Whatever a program does, secure cells stay so.** -/
theorem Step.secure (h : (uses definitions).Step s s') :
    s.Ages s' ∧ ∀ k, s.Secure k → s'.Secure k := by
  obtain ⟨x, a, t, _, _, hrun, rfl⟩ | ⟨hcells, _⟩ | ⟨a, _, depth, how, answer, hrun⟩ := h.kinds
  · obtain ⟨hadds, _⟩ := build_adds [] x s a t hrun
    refine ⟨hadds.grows.ages.trans (.of_cells rfl), ?_⟩
    rintro k ⟨S, hS, hk⟩
    exact Secure.of_cells (s := t) rfl ⟨S, hS.of_old hadds.grows.ages fun _ _ _ => hadds.get, hk⟩
  · exact ⟨.of_cells hcells, fun _ hk => hk.of_cells hcells⟩
  · obtain ⟨_, hlater⟩ :=
      (Regime.use_ensures (R := securing definitions) depth trivial trivial how).runs hrun
    exact ⟨hlater.ages, hlater.secure⟩

/-- The artifacts that are built from no others: a handle is in one only where a body refers to a
lazy schema around it. -/
inductive Made (conduct : Conduct A) : Store A → A → Prop
  | built {x : Schema A} {s s' : Store A} {a : A} : (∀ b ∈ x.given, Made conduct s b) →
      Runs (build [] x) s a s' → Made conduct (s'.hold a) a
  | later {s s' : Store A} {a : A} : Made conduct s a → conduct.Step s s' → Made conduct s' a

/-- **An artifact that is built from such artifacts is sealed, however the history goes on.** -/
theorem Made.sealed (h : (uses definitions).Made s a) : s.Sealed a := by
  induction h with
  | @built x s s' a _ hrun ih =>
      exact (build_sealed ih hrun).mono (.of_cells rfl) fun _ hk => Secure.of_cells (s := s') rfl hk
  | later _ hstep ih => exact ih.mono hstep.secure.1 hstep.secure.2

omit [ThoroughArtifact A] in
theorem Made.leads (h : (uses definitions).Made s a) (hleads : (uses definitions).Leads s s') :
    (uses definitions).Made s' a :=
  hleads.induction (p := fun s => (uses definitions).Made s a) h fun _ _ => .later

end Conduct

omit [ThoroughArtifact A] in
/-- The interpretation of a document is built from no artifact. -/
theorem interpret_made (document : Document) :
    (Conduct.uses document.definitions).Made
      ((document.interpret (A := A)).store.hold document.interpret.artifact)
      document.interpret.artifact := by
  refine .built (x := .ref document.root) (fun b hb => ?_)
    (Interpretation.interpret_runs document).1
  rw [Schema.given] at hb
  cases hb

/-- **No schema that is used meets a dead handle.**  Whatever handles would answer when their cells
are not alive, halts of their own among it, every use of an artifact that is built from no others
is the same, after whatever else a program does; and so it is for the interpretation of every
document. -/
theorem confined :
    (∀ (definitions : Entries Definition) (s : Store A) (a : A),
      (Conduct.uses definitions).Made s a → ∀ refusal depth how,
        useUnder definitions refusal depth a how s = use definitions depth a how s) ∧
    ∀ (document : Document) (s : Store A),
      (Conduct.uses document.definitions).Leads
        ((document.interpret (A := A)).store.hold document.interpret.artifact) s →
      ∀ refusal depth how,
        useUnder document.definitions refusal depth document.interpret.artifact how s =
          use document.definitions depth document.interpret.artifact how s := by
  have hmade {definitions : Entries Definition} {s : Store A} {a : A}
      (h : (Conduct.uses definitions).Made s a) (refusal : Refusal A) (depth : Nat) (how : Use) :
      useUnder definitions refusal depth a how s = use definitions depth a how s := by
    rw [← useUnder_dead]
    exact (Regime.use_at (confinement_refuses refusal .dead) depth h.sealed.usable how trivial).1
  exact ⟨fun _ _ _ => hmade,
    fun document s hleads => hmade ((interpret_made document).leads hleads)⟩

/-- A codec of lists of lists, to any depth, that has decoded one, encodes it by its handle, though
dead handles were to halt. -/
theorem lists_confined :
    ∃ s : Store Codec, (Conduct.uses []).Made s (Artifact.owner 0) ∧ s.runs = [0] ∧
      useUnder [] ⟨fun _ => throw (.noCell 0), fun _ => throw (.noCell 0),
          fun _ => throw (.noCell 0)⟩ 2 (Artifact.owner 0) (.encode (.array [.array []])) s =
        .ok (.encoded (.array [.array []]), s) := by
  let body : Schema Codec := .array (.self "List")
  let unresolved : Cell Codec := ⟨"List", .schema "List" body none, [], none, false⟩
  let resolved : Cell Codec :=
    { unresolved with resolved := some (Vocabulary.array (Artifact.handle 0)) }
  let built : Store Codec := ⟨#[unresolved], [], [Artifact.owner 0], []⟩
  let decoded : Store Codec := ⟨#[resolved], [], [Artifact.owner 0], [0]⟩
  have hrun : Runs (build [] (.lazy "List" "List" body none)) {} (Artifact.owner 0)
      { built with held := [] } := rfl
  have hbuilt : (Conduct.uses []).Made built (Artifact.owner 0) :=
    .built (by simp [body, Schema.given]) hrun
  have huse : Runs (use [] 2 (Artifact.owner 0) (.decode (.array [.array []]))) built
      (.decoded (.ok (.array [.array []]))) decoded := rfl
  have hmade : (Conduct.uses []).Made decoded (Artifact.owner 0) :=
    hbuilt.later (.call (.inl List.mem_cons_self) ⟨_, _, _, huse⟩)
  refine ⟨decoded, hmade, rfl, ?_⟩
  rw [confined.1 [] decoded (Artifact.owner 0) hmade]
  rfl

end Lazy
end Schemata
