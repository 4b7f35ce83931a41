import Schemata.Lazy.Building
import Schemata.Proofs.Congruence

/-!
# How stores grow

Building schemas and running definitions adds cells to a store and fills in what
cells have resolved to.  What a cell is for never changes and no cell goes away
(`Store.Ages`); from the start of a call to its end, what is held and what is being
written stays the same as well (`Store.Grows`).

**Results.**

* `Runs.bind`, `Runs.pure`: what a computation over a store does, step by step.
* `Store.Grows.push` and `Store.Grows.resolve`: the steps by which stores grow.
* `Store.Binds`: a scope whose entries are handles of the cells around a body, with
  the ids that they have.
-/

namespace Schemata
namespace Lazy

/-! ## Runs -/

section Runs

variable {A α β : Type}

/-- A computation takes a store to an answer and a store. -/
def Runs (call : Run A α) (store : Store A) (answer : α) (store' : Store A) : Prop :=
  call store = .ok (answer, store')

namespace Runs

theorem pure (answer : α) (store : Store A) : Runs (Pure.pure answer) store answer store := rfl

theorem bind {call : Run A α} {next : α → Run A β} {store store' store'' : Store A} {answer : α}
    {last : β} (h : Runs call store answer store') (h' : Runs (next answer) store' last store'') :
    Runs (call >>= next) store last store'' := by
  show (call store >>= fun p => next p.1 p.2) = _
  rw [h]
  exact h'

theorem unique {call : Run A α} {store store' store'' : Store A} {answer last : α}
    (h : Runs call store answer store') (h' : Runs call store last store'') :
    answer = last ∧ store' = store'' := by
  have heq : Except.ok (answer, store') = (.ok (last, store'') : Except Halt _) := h.symm.trans h'
  exact Prod.mk.inj (Except.ok.inj heq)

theorem get (store : Store A) : Runs MonadState.get store store store := rfl

theorem update (f : Store A → Store A) (store : Store A) :
    Runs (modify f) store () (f store) := rfl

theorem cell {store : Store A} {k : CellId} {c : Cell A} (h : store.cells[k]? = some c) :
    Runs (cell k) store c store := by
  unfold Lazy.cell
  refine (Runs.get store).bind ?_
  rw [h]
  exact .pure c store

theorem allocate [Artifact A] (id : String) (body : Body A) (scope : List (String × A))
    (store : Store A) :
    Runs (allocate id body scope) store (Artifact.owner store.cells.size)
      { store with cells := store.cells.push ⟨id, body, scope, none, false⟩ } := rfl

end Runs

end Runs

/-! ## Growth -/

section Growth

variable {A : Type}

/-- A cell at a later time: it is for the same id, with the same body and scope. -/
structure Cell.Ages (c c' : Cell A) : Prop where
  id : c'.id = c.id
  body : c'.body = c.body
  scope : c'.scope = c.scope

namespace Cell.Ages

theorem refl (c : Cell A) : c.Ages c := ⟨rfl, rfl, rfl⟩

theorem trans {c c' c'' : Cell A} (h : c.Ages c') (h' : c'.Ages c'') : c.Ages c'' where
  id := h'.id.trans h.id
  body := h'.body.trans h.body
  scope := h'.scope.trans h.scope

theorem binder {c c' : Cell A} (h : c.Ages c') : c'.binder = c.binder := by
  simp only [Cell.binder, h.body, h.id]

theorem stash {c c' : Cell A} (h : c.Ages c') : c'.stash = c.stash := by
  simp only [Cell.stash, h.body]

end Cell.Ages

/-- A store at a later time: every cell is there, aged. -/
def Store.Ages (s s' : Store A) : Prop :=
  ∀ (k : CellId) (c : Cell A), s.cells[k]? = some c → ∃ c', s'.cells[k]? = some c' ∧ c.Ages c'

/-- Whether the source of a cell is being written. -/
def Store.IsWriting (s : Store A) (k : CellId) : Prop :=
  ∃ c, s.cells[k]? = some c ∧ c.writing = true

/-- A store after a call: it has aged, and nothing else is held or being written. -/
structure Store.Grows (s s' : Store A) : Prop where
  ages : s.Ages s'
  held : s'.held = s.held
  writing (k : CellId) : s'.IsWriting k ↔ s.IsWriting k

namespace Store.Ages

theorem trans {s s' s'' : Store A} (h : s.Ages s') (h' : s'.Ages s'') : s.Ages s'' := by
  intro k c hc
  obtain ⟨c', hc', hage⟩ := h k c hc
  obtain ⟨c'', hc'', hage'⟩ := h' k c' hc'
  exact ⟨c'', hc'', hage.trans hage'⟩

theorem of_cells {s s' : Store A} (h : s'.cells = s.cells) : s.Ages s' := by
  intro k c hc
  exact ⟨c, by rw [h, hc], .refl c⟩

/-- A store ages when a cell changes in what it has resolved to or in whether it is
being written. -/
theorem modify (s : Store A) (k : CellId) {change : Cell A → Cell A}
    (hchange : ∀ c : Cell A, c.Ages (change c)) :
    s.Ages { s with cells := s.cells.modify k change } := by
  intro j c hc
  show ∃ c', (s.cells.modify k change)[j]? = some c' ∧ _
  rw [Array.getElem?_modify, hc]
  by_cases hj : k = j
  · rw [if_pos hj]
    exact ⟨change c, rfl, hchange c⟩
  · rw [if_neg hj]
    exact ⟨c, rfl, .refl c⟩

/-- A store ages when a cell is pushed. -/
theorem push (s : Store A) (c : Cell A) : s.Ages { s with cells := s.cells.push c } := by
  intro k c' h
  obtain ⟨hk, _⟩ := Array.getElem?_eq_some_iff.1 h
  refine ⟨c', ?_, .refl c'⟩
  show (s.cells.push c)[k]? = some c'
  rw [Array.getElem?_push, if_neg (by omega), h]

end Store.Ages

namespace Store.Grows

theorem trans {s s' s'' : Store A} (h : s.Grows s') (h' : s'.Grows s'') : s.Grows s'' where
  ages := Store.Ages.trans h.ages h'.ages
  held := h'.held.trans h.held
  writing k := (h'.writing k).trans (h.writing k)

theorem of_cells {s s' : Store A} (hcells : s'.cells = s.cells) (hheld : s'.held = s.held) :
    s.Grows s' where
  ages := Store.Ages.of_cells hcells
  held := hheld
  writing k := by rw [IsWriting, IsWriting, hcells]

theorem refl (s : Store A) : s.Grows s := .of_cells rfl rfl

/-- A store grows by a cell that is pushed. -/
theorem push (s : Store A) (c : Cell A) (hc : c.writing = false) :
    s.Grows { s with cells := s.cells.push c } where
  ages := Store.Ages.push s c
  held := rfl
  writing k := by
    show (∃ c', (s.cells.push c)[k]? = some c' ∧ _) ↔ _
    rw [Array.getElem?_push]
    by_cases hk : k = s.cells.size
    · subst hk
      rw [if_pos rfl]
      constructor
      · rintro ⟨_, h, hwriting⟩
        obtain rfl := Option.some.inj h
        rw [hc] at hwriting
        cases hwriting
      · rintro ⟨_, h, _⟩
        simp at h
    · rw [if_neg hk]
      rfl

/-- A store grows when a cell resolves. -/
theorem resolve (s : Store A) (k : CellId) (a : A) :
    s.Grows { s with cells := s.cells.modify k fun c => { c with resolved := some a } } where
  ages := Store.Ages.modify s k fun _ => ⟨rfl, rfl, rfl⟩
  held := rfl
  writing j := by
    show (∃ c', (s.cells.modify k _)[j]? = some c' ∧ _) ↔ _
    rw [Array.getElem?_modify]
    by_cases hj : k = j
    · subst hj
      rw [if_pos rfl]
      cases hc : s.cells[k]? with
      | none => simp [IsWriting, hc]
      | some c => simp [IsWriting, hc]
    · rw [if_neg hj]
      rfl

end Store.Grows

end Growth

/-! ## Scopes -/

section Scopes

variable {A : Type} [Artifact A]

/-- The scope of the body of a cell: the handle of the cell and those around it. -/
def Cell.inner (c : Cell A) (k : CellId) : List (String × A) :=
  (c.binder, Artifact.handle k) :: c.scope

/-- A scope in which the handles of the cells around a body are bound, with the ids of
these cells under the same names. -/
inductive Store.Binds (s : Store A) : List (String × A) → List (String × String) → Prop
  | nil : Binds s [] []
  | cons {k : CellId} {c : Cell A} {ids : List (String × String)} :
      s.cells[k]? = some c → Binds s c.scope ids →
      Binds s (c.inner k) ((c.binder, c.id) :: ids)

namespace Store.Binds

variable {s s' : Store A} {scope : List (String × A)} {ids : List (String × String)}

theorem ages (hage : s.Ages s') (h : s.Binds scope ids) : s'.Binds scope ids := by
  induction h with
  | nil => exact .nil
  | @cons k c ids hc _ ih =>
      obtain ⟨c', hc', hcell⟩ := hage k c hc
      rw [← hcell.scope] at ih
      have := Store.Binds.cons hc' ih
      simpa only [Cell.inner, hcell.binder, hcell.id, hcell.scope] using this

/-- What a scope binds is the handle of a cell that has the id bound beside it, and
the cells around that one are bound as well. -/
theorem entry (h : s.Binds scope ids) {name : String} {a : A} (hmem : (name, a) ∈ scope) :
    ∃ k c, a = Artifact.handle k ∧ s.cells[k]? = some c ∧ c.scope ⊆ scope ∧
      c.scope.length < scope.length ∧ (name, c.id) ∈ ids := by
  induction h with
  | nil => cases hmem
  | @cons k c ids hc _ ih =>
      rcases List.mem_cons.1 hmem with h | h
      · obtain ⟨rfl, rfl⟩ := Prod.mk.inj h
        exact ⟨k, c, rfl, hc, fun _ => List.mem_cons_of_mem _, Nat.lt_succ_self _,
          List.mem_cons_self⟩
      · obtain ⟨j, d, ha, hd, hsub, hlt, hid⟩ := ih h
        exact ⟨j, d, ha, hd, fun _ hx => List.mem_cons_of_mem _ (hsub hx),
          Nat.lt_succ_of_lt hlt, List.mem_cons_of_mem _ hid⟩

/-- The names of a scope are bound in it to cells with the ids bound beside it. -/
theorem lookup (h : s.Binds scope ids) (name : String) :
    Option.Rel (fun a id => (name, a) ∈ scope ∧
      ∃ k c, a = Artifact.handle k ∧ s.cells[k]? = some c ∧ c.id = id)
      (scope.lookup name) (ids.lookup name) := by
  induction h with
  | nil => exact .none
  | @cons k c ids hc _ ih =>
      rw [Cell.inner, List.lookup_cons, List.lookup_cons]
      by_cases hname : name = c.binder
      · subst hname
        rw [beq_self_eq_true]
        exact .some ⟨List.mem_cons_self, k, c, rfl, hc, rfl⟩
      · rw [beq_eq_false_iff_ne.2 hname]
        generalize c.scope.lookup name = a at ih
        generalize ids.lookup name = id at ih
        cases ih with
        | none => exact .none
        | some h => exact .some ⟨List.mem_cons_of_mem _ h.1, h.2⟩

end Store.Binds

end Scopes

end Lazy
end Schemata
