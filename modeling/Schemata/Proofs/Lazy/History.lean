import Mathlib.Logic.Relation
import Schemata.Proofs.Lazy.Regime

/-!
# Histories

A program builds schemas over the artifacts that it holds, uses them and lets go of them, one
after the other and in any order.  A history is what that does to the store, from the empty store
on; a `Conduct` says which schemas the program may build and which calls it may make.

**Results.**

* `Conduct.Step.kinds`: what a step does.
* `Conduct.Reached.induction`: what the empty store has, and each step keeps, every store of a
  history has.
-/

namespace Schemata
namespace Lazy

variable {A : Type} [Artifact A]

/-- What a program may do: the schemas that it may build, and what its calls of an artifact may do
to a store. -/
structure Conduct (A : Type) where
  Builds : Schema A → Prop
  Calls : A → Store A → Store A → Prop

/-- The artifacts that are held: by a name, or by a call or a clone. -/
def Store.Holds (s : Store A) (a : A) : Prop := a ∈ s.held ∨ ∃ name, (name, a) ∈ s.names

omit [Artifact A] in
theorem Store.holds_hold {s : Store A} {a b : A} : (s.hold a).Holds b ↔ b = a ∨ s.Holds b := by
  rw [Holds, Holds, hold, List.mem_cons, or_assoc]

namespace Conduct

variable (conduct : Conduct A)

/-- What one action of a program does to a store. -/
inductive Step (s : Store A) : Store A → Prop
  /-- A schema over artifacts that are held is built, and the artifact is held. -/
  | build {x : Schema A} {a : A} {s' : Store A} : conduct.Builds x → (∀ b ∈ x.given, s.Holds b) →
      Runs (build [] x) s a s' → Step s (s'.hold a)
  /-- An artifact gets a name, maybe in place of another. -/
  | name {a : A} (name : String) : s.Holds a → Step s { s with names := s.names.set name a }
  /-- A name is forgotten. -/
  | forget (name : String) : Step s { s with names := s.names.filter fun entry => entry.1 != name }
  /-- A clone of an artifact is held. -/
  | clone {a : A} : s.Holds a → Step s (s.hold a)
  /-- Artifacts and clones are dropped. -/
  | drop {held : List A} : held.Sublist s.held → Step s { s with held }
  /-- A call of an artifact comes to an end. -/
  | call {a : A} {s' : Store A} : s.Holds a → conduct.Calls a s s' → Step s s'

/-- A store that a program may leave of another. -/
def Leads : Store A → Store A → Prop := Relation.ReflTransGen conduct.Step

/-- A store that a program may come to. -/
def Reached (s : Store A) : Prop := conduct.Leads {} s

variable {conduct}

/-- **What a step does**: a schema is built and the artifact is held, or nothing more is held and
the cells are as before, or a call comes to an end. -/
theorem Step.kinds {s s' : Store A} (h : conduct.Step s s') :
    (∃ x a t, conduct.Builds x ∧ (∀ b ∈ x.given, s.Holds b) ∧
      Runs (Lazy.build [] x) s a t ∧ s' = t.hold a) ∨
    (s'.cells = s.cells ∧ ∀ b, s'.Holds b → s.Holds b) ∨
    ∃ a, s.Holds a ∧ conduct.Calls a s s' := by
  cases h with
  | build hx hgiven hrun => exact .inl ⟨_, _, _, hx, hgiven, hrun, rfl⟩
  | call ha hcall => exact .inr (.inr ⟨_, ha, hcall⟩)
  | @name a name ha =>
      refine .inr (.inl ⟨rfl, fun b hb => ?_⟩)
      rcases hb with hb | ⟨other, hb⟩
      · exact .inl hb
      · rcases Entries.mem_of_mem_set hb with heq | hb
        · obtain rfl := (Prod.mk.inj heq).2
          exact ha
        · exact .inr ⟨other, hb⟩
  | forget name =>
      exact .inr (.inl ⟨rfl, fun b hb => hb.imp_right fun ⟨other, hb⟩ =>
        ⟨other, (List.mem_filter.1 hb).1⟩⟩)
  | clone ha =>
      refine .inr (.inl ⟨rfl, fun b hb => ?_⟩)
      rcases Store.holds_hold.1 hb with rfl | hb
      · exact ha
      · exact hb
  | drop hsub => exact .inr (.inl ⟨rfl, fun b hb => hb.imp_left fun hb => hsub.subset hb⟩)

/-- **What the empty store has, and each step keeps, every store of a history has.** -/
theorem Reached.induction {p : Store A → Prop} {s : Store A} (h : conduct.Reached s) (hempty : p {})
    (hstep : ∀ s s', p s → conduct.Step s s' → p s') : p s := by
  induction h with
  | refl => exact hempty
  | tail _ hlast ih => exact hstep _ _ ih hlast

/-- What each step keeps stays as a history goes on. -/
theorem Leads.induction {p : Store A → Prop} {s s' : Store A} (h : conduct.Leads s s')
    (hs : p s) (hstep : ∀ s s', p s → conduct.Step s s' → p s') : p s' := by
  induction h with
  | refl => exact hs
  | tail _ hlast ih => exact hstep _ _ ih hlast

/-- The conduct of a program that builds any schemas and uses any artifacts that it holds. -/
def uses (definitions : Entries Definition) : Conduct A where
  Builds _ := True
  Calls a s s' := ∃ depth how answer, Runs (use definitions depth a how) s answer s'

theorem Reached.leads {s s' : Store A} (h : conduct.Reached s) (h' : conduct.Leads s s') :
    conduct.Reached s' := Relation.ReflTransGen.trans h h'

end Conduct

end Lazy
end Schemata
