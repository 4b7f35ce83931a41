import Schemata.Proofs.Lazy.Steadiness

/-!
# Writing source leaves no trace

**Input.**  A history of a program that builds scoped schemas, and asks the artifacts that it holds
for their sources and for answers, over definitions that refer to no others than those that there
are.

**Algorithm.**  Each step of a history keeps the store legible and without marks
(`Conduct.Step.clean`).  So each source is written as if there were no marks (`write_eq`), to the
node that it has in all later stores (`writeIn_steady`).

**Results.**

* `Conduct.Step.clean`: what one step of a history preserves.
* `Conduct.Reached.clean`: what a history preserves.
* `sources_repeatable`: no cell remains marked, and the source of an artifact is the same at every
  later time.
-/

namespace Schemata
namespace Lazy

open Relation (ReflTransGen)

variable {A : Type} [Artifact A] {definitions : Entries Definition}

/-- The conduct of a program that builds scoped schemas, and asks the artifacts that it holds for
their sources and for answers. -/
def Conduct.asks (definitions : Entries Definition) : Conduct A where
  Builds x := x.Follows (scoping definitions) []
  Calls a s s' := ∃ depth what answer, Runs (request definitions a depth what) s answer s'

/-- A legible store without marks. -/
structure Store.Clean (s : Store A) (definitions : Entries Definition) : Prop where
  legible : s.Legible definitions
  marks : s.Marks []

variable [ThoroughArtifact A] {s s' : Store A} {a : A}

/-! ## Histories -/

/-- What a step does to the cells of a legible store. -/
theorem Conduct.Step.continues (hcomplete : Complete definitions) (hs : s.Legible definitions)
    (h : (Conduct.asks definitions).Step s s') :
    s.Ages s' ∧ ∀ k, s'.IsWriting k ↔ s.IsWriting k := by
  obtain ⟨x, a, t, _, _, hrun, rfl⟩ | ⟨hcells, _⟩ | ⟨a, ha, depth, what, answer, hrun⟩ := h.kinds
  · have hgrow := (build_adds [] x s a t hrun).1.grows
    exact ⟨hgrow.ages, hgrow.writing⟩
  · exact ⟨.of_cells hcells, fun k => by rw [Store.IsWriting, Store.IsWriting, hcells]⟩
  · have hgrow := ((request_legible hcomplete hs (hs.holds a ha) depth what).runs hrun).2
    exact ⟨hgrow.ages, hgrow.writing⟩

/-- **A step of a history keeps the store legible and without marks.** -/
theorem Conduct.Step.clean (hcomplete : Complete definitions) (hs : s.Clean definitions)
    (h : (Conduct.asks definitions).Step s s') : s'.Clean definitions where
  legible := by
    refine h.legible hs.legible (fun _ hx => hx) fun a t ha hcall => ?_
    obtain ⟨depth, what, answer, hrun⟩ := hcall
    have hlow := hs.legible.holds a ha
    exact ((request_legible hcomplete hs.legible hlow depth what).runs hrun).1
  marks k := ((h.continues hcomplete hs.legible).2 k).trans (hs.marks k)

omit [ThoroughArtifact A] in
theorem Store.clean_empty : ({} : Store A).Clean definitions where
  legible := {
    cells := fun _ _ hc => nomatch hc
    holds := by
      rintro a (ha | ⟨_, ha⟩) <;> cases ha }
  marks k := by
    constructor
    · rintro ⟨_, hc, _⟩
      cases hc
    · intro hk
      cases hk

/-- **Every store of a history is legible and without marks.** -/
theorem Conduct.Reached.clean (hcomplete : Complete definitions)
    (h : (Conduct.asks definitions).Reached s) : s.Clean definitions :=
  h.induction Store.clean_empty fun _ _ hs hstep => hstep.clean hcomplete hs

/-- What comes after a clean store is clean, and has its cells. -/
theorem Conduct.Leads.clean (hcomplete : Complete definitions) (hs : s.Clean definitions)
    (h : (Conduct.asks definitions).Leads s s') : s'.Clean definitions ∧ s.Ages s' := by
  refine h.induction (p := fun t => t.Clean definitions ∧ s.Ages t) ⟨hs, .of_cells rfl⟩ ?_
  rintro t t' ⟨ht, hages⟩ hstep
  exact ⟨hstep.clean hcomplete ht, hages.trans (hstep.continues hcomplete ht.legible).1⟩

/-! ## Sources -/

/-- An artifact that is a lazy schema is a call inside of its body, and its definition outside. -/
theorem writeIn_lazy {k : CellId} {c : Cell A} (hc : s.cells[k]? = some c)
    (ha : a = Artifact.owner k ∨ a = Artifact.handle k) {depth : Nat} {around : List CellId}
    {root : String} {node : Node} (h : Runs (writeIn definitions depth around root a) s node s') :
    if k ∈ around then node = .call (.ident (Node.definitionName c.id root)) []
    else ∃ body, node = .method root "lazy" [.literal (.string c.id),
      .function (Node.definitionName c.id root) body] := by
  have hreading : reading definitions a = cellReading definitions k := by
    rcases ha with rfl | rfl
    · exact reading_owner
    · exact reading_handle
  obtain ⟨_, s₁, hhold, h⟩ := h.of_bind
  obtain ⟨_, rfl⟩ : () = _ ∧ s.hold a = s₁ := (Runs.update _ s).unique hhold
  obtain ⟨node, s₂, hnode, h⟩ := h.of_bind
  obtain ⟨_, _, _, h⟩ := h.of_bind
  obtain ⟨rfl, _⟩ := h.of_pure
  replace hnode : Runs ((reading definitions a depth around).node root) (s.hold a) node s₂ := hnode
  rw [hreading] at hnode
  cases depth with
  | zero => cases hnode
  | succ depth =>
      obtain ⟨d, _, hcell, hnode⟩ := hnode.of_bind
      obtain ⟨hd, rfl⟩ := hcell.of_cell
      obtain rfl : c = d := Option.some.inj (hc.symm.trans hd)
      split at hnode
      · next hk =>
        rw [if_pos hk]
        exact hnode.of_pure.1.symm
      · next hk =>
        rw [if_neg hk]
        obtain ⟨_, _, _, hnode⟩ := hnode.of_bind
        obtain ⟨body, _, _, hnode⟩ := hnode.of_bind
        exact ⟨body, hnode.of_pure.1.symm⟩

/-- **Writing source leaves no trace.**  When no call is going on no cell is marked, and sources are
written as by passing the cells around each body instead of marking them: a lazy schema is a call
inside of its body, and its definition outside.  So the source of an artifact that is held is
there, and it is the same whatever is built, asked for and let go of before. -/
theorem sources_repeatable (hcomplete : Complete definitions)
    (h : (Conduct.asks definitions).Reached s) :
    (∀ k, ¬ s.IsWriting k) ∧
    (∀ depth root a, write definitions depth root a s = writeIn definitions depth [] root a s) ∧
    (∀ k c, s.cells[k]? = some c → ∀ a, a = Artifact.owner k ∨ a = Artifact.handle k →
      ∀ depth around root node s', Runs (writeIn definitions depth around root a) s node s' →
        if k ∈ around then node = .call (.ident (Node.definitionName c.id root)) []
        else ∃ body, node = .method root "lazy" [.literal (.string c.id),
          .function (Node.definitionName c.id root) body]) ∧
    ∀ a root, s.Holds a → ∃ node,
      (∃ depth, ∀ deeper, depth ≤ deeper → ∀ t, (Conduct.asks definitions).Leads s t →
        ∃ t', Runs (write definitions deeper root a) t node t') ∧
      ∀ t, (Conduct.asks definitions).Leads s t → ∀ depth other t',
        Runs (write definitions depth root a) t other t' → other = node := by
  have hs := h.clean hcomplete
  refine ⟨fun k hk => List.not_mem_nil ((hs.marks k).1 hk),
    fun depth root a => (write_eq depth root a hs.marks).1,
    fun k c hc a ha depth around root node s' hrun => writeIn_lazy hc ha hrun, fun a root ha => ?_⟩
  obtain ⟨node, depth, hsteady⟩ :=
    writeIn_steady hcomplete hs.legible (hs.legible.holds a ha) root
  refine ⟨node, ⟨depth, fun deeper hdeeper t hleads => ?_⟩, fun t hleads depth' other t' hrun => ?_⟩
  · obtain ⟨ht, hages⟩ := hleads.clean hcomplete hs
    obtain ⟨t', hrun⟩ := hsteady t hages deeper hdeeper
    exact ⟨t', (write_eq deeper root a ht.marks).1.trans hrun⟩
  · -- To the greater of the depths, both are what is written.
    obtain ⟨ht, hages⟩ := hleads.clean hcomplete hs
    replace hrun : Runs (writeIn definitions depth' [] root a) t other t' :=
      (write_eq depth' root a ht.marks).1.symm.trans hrun
    obtain ⟨t'', hnode⟩ := hsteady t hages (max depth depth') (Nat.le_max_left _ _)
    have hother := writeIn_covers (Nat.le_max_right depth depth') t other t' hrun
    exact (hother.unique hnode).1

/-- Lists of lists, to any depth; the handle of the lazy schema is kept when its definition runs. -/
def nestedLists : Schema Codec := .lazy "List" "List" (.array (.self "List")) (some "kept")

/-- A store that holds a codec of lists, with the handles that are kept and the definitions that
have run. -/
def listStore (names : Entries Codec) (runs : List CellId) : Store Codec where
  cells := #[⟨"List", .schema "List" (.array (.self "List")) (some "kept"), [], none, false⟩]
  names := names
  held := [Artifact.owner 0]
  runs := runs

/-- The source of lists, with its definition. -/
def listNode : Node :=
  .method "s" "lazy" [.literal (.string "List"),
    .function "List" (.method "s" "array" [.call (.ident "List") []])]

/-- Once the source of a codec of lists has been asked for, the handle that is kept from its body
is written with the definition, at every later time. -/
theorem nestedLists_sources :
    ∃ s : Store Codec, (Conduct.asks []).Reached s ∧ s.names = [("kept", Artifact.handle 0)] ∧
      (∀ k, ¬ s.IsWriting k) ∧
      ∀ t, (Conduct.asks []).Leads s t → ∀ depth node t',
        Runs (write [] depth "s" (Artifact.handle 0)) t node t' → node = listNode := by
  have hcomplete : Complete [] := by
    intro name hname
    cases hname
  have hscoped : nestedLists.Follows (scoping []) [] := by
    simp [nestedLists, Schema.Follows, scoping]
  have hrun : Runs (build [] nestedLists) {} (Artifact.owner 0)
      { listStore [] [] with held := [] } := rfl
  have hbuild : (Conduct.asks []).Step {} (listStore [] []) :=
    .build hscoped (by simp [nestedLists, Schema.given]) hrun
  have hsource : Runs (request [] (Artifact.owner 0) 2 (.source "s")) (listStore [] [])
      (.inr listNode) (listStore [("kept", Artifact.handle 0)] [0]) := rfl
  have hwrite : (Conduct.asks []).Step (listStore [] [])
      (listStore [("kept", Artifact.handle 0)] [0]) :=
    .call (.inl List.mem_cons_self) ⟨_, _, _, hsource⟩
  have hreached := (ReflTransGen.single hbuild).tail hwrite
  obtain ⟨hmarks, _, _, hsources⟩ := sources_repeatable hcomplete hreached
  obtain ⟨other, _, hsame⟩ := hsources (Artifact.handle 0) "s" (.inr ⟨"kept", List.mem_cons_self⟩)
  have hnode : Runs (write [] 2 "s" (Artifact.handle 0))
      (listStore [("kept", Artifact.handle 0)] [0]) listNode
      (listStore [("kept", Artifact.handle 0)] [0, 0]) := rfl
  refine ⟨_, hreached, rfl, hmarks, fun t hleads depth node t' hrun' => ?_⟩
  rw [hsame t hleads depth node t' hrun']
  exact (hsame _ .refl 2 listNode _ hnode).symm

end Lazy
end Schemata
