import Schemata.Proofs.Lazy.Legibility

/-!
# Sources without marks

While the source of a cell is being written the cell is marked, and a cell that is marked is
written as a call.  Here the cells around a body are passed to it instead, and the store is left
unmarked (`writeIn`).

**Input.**  Any call of `write`, on a store in which any cells are marked.

**Algorithm.**  Building schemas takes no notice of marks.  Calls that agree when the marked cells
are those that are passed agree one after the other (`marking`), and inside of one more cell
(`marked_rel`); by induction on the depth they do for cells.

**Results.**

* `cellSourcing_rel`: marks and the cells that are passed do the same.
* `write_eq`: on a store without marks, sources are written as if there were none.
* `writeIn_covers`: what is written to some depth is written alike to greater ones.
-/

namespace Schemata
namespace Lazy

variable {A : Type} [Artifact A]

/-! ## Cells around a body -/

section Definitions

variable (definitions : Entries Definition)

/-- The source of a cell inside of the bodies of some cells: a call for one of these, else the
cell with its definition. -/
def cellSourcingIn : Nat → List CellId → CellId → Sourcing (Run A)
  | 0, _, _ => ⟨fun _ => throw .depth⟩
  | depth + 1, around, id => ⟨fun root => do
      let this ← cell id
      let name := Node.definitionName this.id root
      if id ∈ around then pure (.call (.ident name) [])
      else do
        let artifact ← run definitions id
        let body ← ((Artifact.decoder artifact).fold (cellSourcingIn depth (id :: around))
          (cellSourcingIn depth (id :: around))).node root
        pure (.method root "lazy" [.literal (.string this.id), .function name body])⟩

/-- The reading of an artifact as source inside of the bodies of some cells. -/
def sourcingIn (depth : Nat) (around : List CellId) (artifact : A) : Sourcing (Run A) :=
  (Artifact.decoder artifact).fold (cellSourcingIn definitions depth around)
    (cellSourcingIn definitions depth around)

/-- The source of an artifact inside of the bodies of some cells. -/
def writeIn (depth : Nat) (around : List CellId) (root : String) (artifact : A) : Run A Node :=
  holding artifact ((sourcingIn definitions depth around artifact).node root)

end Definitions

/-! ## Marks -/

namespace Store

variable {s : Store A} {k : CellId} {c : Cell A} {around : List CellId}

/-- A store with its marks taken away. -/
def unmarked (s : Store A) : Store A :=
  { s with cells := s.cells.map fun c => { c with writing := false } }

/-- The cells that are marked. -/
def Marks (s : Store A) (around : List CellId) : Prop := ∀ k, s.IsWriting k ↔ k ∈ around

omit [Artifact A] in
theorem cells_unmarked (s : Store A) (k : CellId) :
    s.unmarked.cells[k]? = s.cells[k]?.map fun c => { c with writing := false } :=
  Array.getElem?_map

omit [Artifact A] in
theorem unmarked_mark (s : Store A) (k : CellId) (writing : Bool) :
    (s.mark k writing).unmarked = s.unmarked := by
  have hcells : (s.mark k writing).unmarked.cells = s.unmarked.cells := by
    refine Array.ext_getElem? fun j => ?_
    rw [cells_unmarked, cells_unmarked, cells_mark]
    split
    · rw [Option.map_map]
      rfl
    · rfl
  exact congrArg (fun cells => { s with cells }) hcells

omit [Artifact A] in
/-- A store without marks is as it is with its marks taken away. -/
theorem unmarked_of_marks (h : s.Marks []) : s.unmarked = s := by
  have hcells : s.unmarked.cells = s.cells := by
    refine Array.ext_getElem? fun j => ?_
    rw [cells_unmarked]
    cases hc : s.cells[j]? with
    | none => rfl
    | some c =>
        have hwriting : c.writing = false := by
          refine Bool.eq_false_iff.2 fun hwriting => ?_
          cases (h j).1 ⟨c, hc, hwriting⟩
        rw [Option.map_some, ← hwriting]
  exact congrArg (fun cells => { s with cells }) hcells

end Store

/-! ## Calls that agree -/

/-- A call from a store comes to a halt. -/
def Stops {α : Type} (call : Run A α) (s : Store A) (halt : Halt) : Prop := call s = .error halt

section Stops

omit [Artifact A]

variable {α β : Type} {call : Run A α} {next : α → Run A β} {s s' : Store A} {a : α} {halt : Halt}

theorem Stops.bind (h : Stops call s halt) : Stops (call >>= next) s halt := by
  show (call s >>= fun p => next p.1 p.2) = _
  rw [show call s = .error halt from h]
  rfl

theorem Runs.stops (h : Runs call s a s') (h' : Stops (next a) s' halt) :
    Stops (call >>= next) s halt := by
  show (call s >>= fun p => next p.1 p.2) = _
  rw [show call s = .ok (a, s') from h]
  exact h'

theorem Stops.cell {k : CellId} (h : s.cells[k]? = none) :
    Stops (Lazy.cell k) s (.noCell k) := by
  unfold Lazy.cell
  refine (Runs.get s).stops ?_
  rw [h]
  rfl

end Stops

/-- What a call ends with, with the marks taken away. -/
def unmark {α : Type} (ending : Except Halt (α × Store A)) : Except Halt (α × Store A) :=
  ending.map fun p => (p.1, p.2.unmarked)

/-- Calls from a store on which some cells are marked and from the store without its marks: they
end alike, and the same cells are marked then. -/
def Agrees {α : Type} (around : List CellId) (s : Store A) (x y : Run A α) : Prop :=
  y s.unmarked = unmark (x s) ∧ ∀ a s', Runs x s a s' → s'.Marks around

section Agrees

omit [Artifact A]

variable {α β : Type} {around : List CellId} {s s' : Store A} {x y : Run A α} {a : α} {halt : Halt}

theorem Agrees.of_stops (hx : Stops x s halt) (hy : Stops y s.unmarked halt) :
    Agrees around s x y := by
  refine ⟨?_, fun a s' hrun => nomatch hx.symm.trans hrun⟩
  rw [show x s = .error halt from hx]
  exact hy

theorem Agrees.of_runs (hx : Runs x s a s') (hy : Runs y s.unmarked a s'.unmarked)
    (hs' : s'.Marks around) : Agrees around s x y := by
  refine ⟨?_, fun b s'' hrun => ?_⟩
  · rw [show x s = .ok (a, s') from hx]
    exact hy
  · obtain ⟨rfl, rfl⟩ := hx.unique hrun
    exact hs'

/-- Calls that agree end alike. -/
theorem Agrees.cases (h : Agrees around s x y) :
    (∃ halt, Stops x s halt ∧ Stops y s.unmarked halt) ∨
      ∃ a s', Runs x s a s' ∧ Runs y s.unmarked a s'.unmarked ∧ s'.Marks around := by
  obtain ⟨heq, hmarks⟩ := h
  cases hx : x s with
  | error halt => exact .inl ⟨halt, hx, by rw [Stops, heq, hx]; rfl⟩
  | ok p => exact .inr ⟨p.1, p.2, hx, by rw [Runs, heq, hx]; rfl, hmarks p.1 p.2 hx⟩

end Agrees

/-- Calls that agree on all stores with some cells marked. -/
def marking (around : List CellId) : Correspondence (Run A) (Run A) where
  rel x y := ∀ s, s.Marks around → Agrees around s x y
  pure a s hs := .of_runs (.pure a s) (.pure a _) hs
  bind {_ _ x y f g} hx hf s hs := by
    rcases (hx s hs).cases with ⟨halt, hx, hy⟩ | ⟨a, s', hx, hy, hs'⟩
    · exact .of_stops hx.bind hy.bind
    · rcases (hf a s' hs').cases with ⟨halt, hf, hg⟩ | ⟨b, s'', hf, hg, hs''⟩
      · exact .of_stops (hx.stops hf) (hy.stops hg)
      · exact .of_runs (hx.bind hf) (hy.bind hg) hs''

/-! ## Running a definition -/

section Running

variable {around : List CellId}

omit [Artifact A] in
/-- A halt leaves no store to compare. -/
theorem throw_marking {α : Type} (halt : Halt) :
    (marking (A := A) around).rel (throw halt : Run A α) (throw halt) :=
  fun _ _ => .of_stops rfl rfl

/-- New cells have no marks. -/
theorem allocate_marking (id : String) (body : Body A) (scope : List (String × A)) :
    (marking around).rel (allocate id body scope) (allocate id body scope) := by
  intro s hs
  have hgrow := Store.Grows.push s ⟨id, body, scope, none, false⟩ rfl
  have hcells : (s.cells.push ⟨id, body, scope, none, false⟩).map
      (fun c : Cell A => { c with writing := false }) =
        s.unmarked.cells.push ⟨id, body, scope, none, false⟩ := Array.map_push
  have hsize : s.unmarked.cells.size = s.cells.size := Array.size_map
  have hrun := Runs.allocate id body scope s.unmarked
  rw [hsize, ← hcells] at hrun
  exact .of_runs (.allocate id body scope s) hrun fun k => (hgrow.writing k).trans (hs k)

omit [Artifact A] in
/-- A call that asks for a cell, and goes on in a way that does not depend on its mark. -/
theorem cell_marking {α : Type} {k : CellId} {f g : Cell A → Run A α}
    (h : ∀ c s, s.Marks around → s.cells[k]? = some c →
      Agrees around s (f c) (g { c with writing := false })) :
    (marking around).rel (cell k >>= f) (cell k >>= g) := by
  intro s hs
  have hget := s.cells_unmarked k
  cases hc : s.cells[k]? with
  | none =>
      rw [hc] at hget
      exact .of_stops (Stops.cell hc).bind (Stops.cell hget).bind
  | some c =>
      rw [hc] at hget
      rcases (h c s hs hc).cases with ⟨halt, hf, hg⟩ | ⟨a, s', hf, hg, hs'⟩
      · exact .of_stops ((Runs.cell hc).stops hf) ((Runs.cell hget).stops hg)
      · exact .of_runs ((Runs.cell hc).bind hf) ((Runs.cell hget).bind hg) hs'

/-- **Running a definition takes no notice of marks.** -/
theorem run_marking (definitions : Entries Definition) (k : CellId) :
    (marking around).rel (run (A := A) definitions k) (run definitions k) := by
  refine cell_marking fun c s hs _ => ?_
  have hbody : (marking around).rel (bodySchema definitions c)
      (bodySchema definitions { c with writing := false }) := by
    show (marking around).rel (bodySchema definitions c) (bodySchema definitions c)
    rw [bodySchema]
    cases c.body with
    | schema binder body stash => exact (marking around).pure body
    | definition =>
        cases definitions.lookup c.id with
        | some definition => exact (marking around).pure _
        | none => exact throw_marking _
  refine (marking around).bind hbody (fun x => ?_) s hs
  refine (marking around).bind (fun s hs => ?_) fun _ => ?_
  · exact .of_runs (.update _ s) (.update _ _) hs
  · exact build_rel definitions (marking around) (fun id body => allocate_marking id body _) x
      (.inl fun name => throw_marking _)

end Running

/-! ## Writing cells -/

section Writing

variable {definitions : Entries Definition} {around : List CellId} {s : Store A} {k : CellId}
  {c : Cell A}

omit [Artifact A] in
theorem Store.Marks.start (hs : s.Marks around) (hc : s.cells[k]? = some c) :
    (s.mark k true).Marks (k :: around) := by
  intro j
  rw [isWriting_start hc, hs, List.mem_cons]

omit [Artifact A] in
theorem Store.Marks.stop (hs : s.Marks (k :: around)) (hk : k ∉ around) :
    (s.mark k false).Marks around := by
  intro j
  rw [isWriting_stop, hs, List.mem_cons]
  constructor
  · rintro ⟨hne, rfl | hj⟩
    · exact absurd rfl hne
    · exact hj
  · intro hj
    refine ⟨?_, .inr hj⟩
    rintro rfl
    exact hk hj

omit [Artifact A] in
/-- **A call between the two marks of a cell agrees with one inside of the cell.** -/
theorem marked_rel {α β : Type} {x y : Run A α} (f : α → β) (hs : s.Marks around)
    (hc : s.cells[k]? = some c) (hk : k ∉ around) (h : (marking (k :: around)).rel x y) :
    Agrees around s
      (do
        changeCell k fun cell => { cell with writing := true }
        let a ← x
        changeCell k fun cell => { cell with writing := false }
        pure (f a))
      (do pure (f (← y))) := by
  have hstart : Runs (changeCell k fun cell => { cell with writing := true }) s ()
      (s.mark k true) := .update _ s
  have hagree := h (s.mark k true) (hs.start hc)
  rcases hagree.cases with ⟨halt, hx, hy⟩ | ⟨a, s', hx, hy, hs'⟩
  · rw [Store.unmarked_mark] at hy
    exact .of_stops (hstart.stops hx.bind) hy.bind
  · rw [Store.unmarked_mark, ← Store.unmarked_mark s' k false] at hy
    have hstop : Runs (changeCell k fun cell => { cell with writing := false }) s' ()
        (s'.mark k false) := .update _ s'
    exact .of_runs (hstart.bind (hx.bind (hstop.bind (.pure _ _)))) (hy.bind (.pure _ _))
      (hs'.stop hk)

/-- Artifacts are read alike when cells are. -/
theorem sourcing_rel {depth : Nat} (root : String)
    (hcells : ∀ k, (marking (A := A) around).rel ((cellSourcing definitions depth k).node root)
      ((cellSourcingIn definitions depth around k).node root)) (a : A) :
    (marking around).rel
      (((Artifact.decoder a).fold (cellSourcing definitions depth)
        (cellSourcing definitions depth)).node root)
      ((sourcingIn definitions depth around a).node root) := by
  refine Blueprint.fold_rel (Sourcing.compatible (marking around) root) _ fun leaf _ => ?_
  cases leaf with
  | owner j => exact hcells j
  | handle j => exact hcells j

/-- **The marks of a store and the cells that are passed do the same.** -/
theorem cellSourcing_rel (root : String) : ∀ (depth : Nat) (around : List CellId) (k : CellId),
    (marking (A := A) around).rel ((cellSourcing definitions depth k).node root)
      ((cellSourcingIn definitions depth around k).node root)
  | 0, _, _ => throw_marking _
  | depth + 1, around, k => by
      refine cell_marking fun c s hs hc => ?_
      have hmarked : c.writing = true ↔ k ∈ around := by
        rw [← hs k]
        constructor
        · exact fun h => ⟨c, hc, h⟩
        · rintro ⟨d, hd, h⟩
          obtain rfl : c = d := Option.some.inj (hc.symm.trans hd)
          exact h
      by_cases hk : k ∈ around
      · rw [if_pos (hmarked.2 hk), if_pos hk]
        exact (marking around).pure _ s hs
      · rw [if_neg (fun h => hk (hmarked.1 h)), if_neg hk]
        have hbody := (marking (k :: around)).bind (run_marking definitions k) fun a =>
          sourcing_rel root (cellSourcing_rel root depth (k :: around)) a
        have hagree := marked_rel (fun body => Node.method root "lazy" [.literal (.string c.id),
          .function (Node.definitionName c.id root) body]) hs hc hk hbody
        simp only [bind_assoc] at hagree
        exact hagree

omit [Artifact A] in
/-- What is held takes no notice of marks. -/
theorem holding_marking {α : Type} {x y : Run A α} (a : A) (h : (marking around).rel x y) :
    (marking around).rel (holding a x) (holding a y) := by
  have hchange (f : List A → List A) :
      (marking around).rel (modify fun store => { store with held := f store.held } : Run A Unit)
        (modify fun store => { store with held := f store.held }) :=
    fun s hs => .of_runs (.update _ s) (.update _ _) hs
  exact (marking around).bind (hchange (a :: ·)) fun _ => (marking around).bind h fun b =>
    (marking around).bind (hchange List.tail) fun _ => (marking around).pure b

/-- **On a store without marks, sources are written as if there were none**, and none are left. -/
theorem write_eq (depth : Nat) (root : String) (a : A) (hs : s.Marks []) :
    write definitions depth root a s = writeIn definitions depth [] root a s ∧
      ∀ node s', Runs (write definitions depth root a) s node s' → s'.Marks [] := by
  have hagree : Agrees [] s (write definitions depth root a)
      (writeIn definitions depth [] root a) :=
    holding_marking a (sourcing_rel root (cellSourcing_rel root depth []) a) s hs
  refine ⟨?_, hagree.2⟩
  rcases hagree.cases with ⟨halt, hwrite, hwriteIn⟩ | ⟨node, s', hwrite, hwriteIn, hs'⟩
  · rw [s.unmarked_of_marks hs] at hwriteIn
    exact hwrite.trans hwriteIn.symm
  · rw [s.unmarked_of_marks hs, s'.unmarked_of_marks hs'] at hwriteIn
    exact hwrite.trans hwriteIn.symm

end Writing

/-! ## Depth -/

section Depth

variable {definitions : Entries Definition}

/-- Artifacts are written alike to the next depth when cells are. -/
theorem sourcingIn_covers {depth : Nat} {around : List CellId} {root : String}
    (hcells : ∀ k, (covers (A := A)).rel ((cellSourcingIn definitions depth around k).node root)
      ((cellSourcingIn definitions (depth + 1) around k).node root)) (a : A) :
    covers.rel ((sourcingIn definitions depth around a).node root)
      ((sourcingIn definitions (depth + 1) around a).node root) := by
  refine Blueprint.fold_rel (Sourcing.compatible covers root) _ fun leaf _ => ?_
  cases leaf with
  | owner j => exact hcells j
  | handle j => exact hcells j

/-- **A cell that is written to some depth is written alike to the next.** -/
theorem cellSourcingIn_covers (root : String) : ∀ (depth : Nat) (around : List CellId) (k : CellId),
    (covers (A := A)).rel ((cellSourcingIn definitions depth around k).node root)
      ((cellSourcingIn definitions (depth + 1) around k).node root)
  | 0, _, _ => fun _ _ _ h => nomatch h
  | depth + 1, around, k => by
      refine covers.bind (covers_refl _) fun c => covers.ite (covers.pure _) ?_
      refine covers.bind (covers_refl _) fun a => covers.bind ?_ fun _ => covers.pure _
      exact sourcingIn_covers (cellSourcingIn_covers root depth (k :: around)) a

/-- **An artifact that is written to some depth is written alike to greater ones.** -/
theorem writeIn_covers {around : List CellId} {root : String} {a : A} {depth deeper : Nat}
    (h : depth ≤ deeper) :
    covers.rel (writeIn definitions depth around root a)
      (writeIn definitions deeper around root a) := by
  induction h with
  | refl => exact covers_refl _
  | @step deeper _ ih =>
      intro s node s' hrun
      refine covers.bind (covers_refl _) (fun _ => ?_) s node s' (ih s node s' hrun)
      refine covers.bind ?_ fun _ => covers_refl _
      exact sourcingIn_covers (cellSourcingIn_covers root deeper around) a

end Depth

end Lazy
end Schemata
