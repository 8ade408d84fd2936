import ClassInit.Proofs.Binding.Lookups
import ClassInit.Proofs.Binding.Stacks
import ClassInit.Proofs.Binding.Surroundings

/-!
# Names inside types

A type declaration stands inside the types around it, whatever bodies lie between
(`TypeDecl.Stands`). Once names are resolved, a name has the handle that was looked up for it among
the locals and inside the types around it, in the table of that moment (`NameUse.LookedUpIn`). A
simple name therefore has the handle of a local, or no local of that name is in scope and it has the
handle of the field that it meant inside the types around it (`NameUse.MeansIn`).
-/

set_option autoImplicit false

namespace ClassInit

open Binding

/-! ## Uses and the types around them -/

/-- If the use is of a simple name, its handle is that of a local, or no local of the name is in
scope and the name meant the field of that handle inside the types before the table became this
one. -/
def NameUse.MeansIn (t : BindingTable) (types : List TypeId) (o : NameUse) : Prop :=
  ∀ v, o.handle = some v → splitLast? o.identifier = none →
    t.IsLocal v ∨ o.scope.lookup o.identifier = none ∧
      ∃ t₁ : BindingTable, t₁.ResolvesTo t ∧ (Site.mk t₁ types).field? o.identifier = some v

/-! ## Where types stand -/

/-- The last type stands in the first, around which are the types `outer`; `types` are those around
its members, its own handle first. -/
inductive TypeDecl.Stands : List TypeId → TypeDecl → List TypeId → TypeDecl → Prop where
  | self {outer : List TypeId} {d : TypeDecl} {id : TypeId} (handle : d.head.binding = some id) :
      Stands outer d (id :: outer) d
  | inside {outer types : List TypeId} {d c x : TypeDecl} {id : TypeId}
      (handle : d.head.binding = some id) (listed : c ∈ d.inner)
      (stands : Stands (id :: outer) c types x) : Stands outer d types x

theorem TypeDecl.Stands.binding {outer types : List TypeId} {d x : TypeDecl}
    (stands : Stands outer d types x) :
    x.head.binding = types.head? := by
  induction stands with
  | self handle => exact handle
  | inside _ _ _ ih => exact ih

/-- The type stands in the unit, with the types around its members. -/
def CompilationUnit.Stands (u : CompilationUnit) (types : List TypeId) (x : TypeDecl) : Prop :=
  ∃ d ∈ u.types, TypeDecl.Stands [] d types x

theorem CompilationUnit.Stands.binding {u : CompilationUnit} {types : List TypeId} {x : TypeDecl}
    (stands : u.Stands types x) : x.head.binding = types.head? := by
  obtain ⟨d, -, stands⟩ := stands
  exact TypeDecl.Stands.binding stands

def Member.parameters : Member → List Parameter
  | .method m => m.head.parameters
  | _ => []

/-- What names in the member mean inside the types: its parameters are locals. -/
structure Member.NamesIn (t : BindingTable) (types : List TypeId) (m : Member) : Prop where
  uses : ∀ o ∈ m.uses, o.MeansIn t types
  parameters : ∀ p ∈ m.parameters, ∃ v, p.binding = some v ∧ t.IsLocal v

/-! ## Tables on the way -/

namespace Binding

/-- A relation that holds from each table on the way of resolving to those after it, and the table
from which the way goes. It may tell more than what resolving makes of a table anyway. -/
structure Trail where
  leads : BindingTable → BindingTable → Prop
  start : BindingTable
  refl : ∀ t, leads t t
  trans : ∀ {a b c}, leads a b → leads b c → leads a c
  resolves : ∀ {a b}, leads a b → a.ResolvesTo b
  locals : ∀ t, AdmitsLocals (leads t)

end Binding

/-- Resolving the head goes along the trail. -/
def TypeHead.Follows (w : Trail) (h : TypeHead) : Prop := ∀ t, h.Resolvable (w.leads t) True

variable (w : Trail)

/-- The use has the handle of what it meant, among the locals in its scope and those in `outer` and
inside the types, in a table on the trail to the last one. -/
structure NameUse.LookedUpIn (t : BindingTable) (outer : Scope) (types : List TypeId)
    (o : NameUse) : Prop where
  locals : ∀ x ∈ o.scope ++ outer, t.IsLocal x.2
  handle : ∃ t₁, w.leads w.start t₁ ∧ w.leads t₁ t ∧
    o.handle = (Site.mk t₁ types).means? (o.scope ++ outer) o.identifier

/-- The names in the member were looked up among the locals and inside the types; its parameters are
locals. -/
structure Member.LookedUpIn (t : BindingTable) (outer : Scope) (types : List TypeId) (m : Member) :
    Prop where
  uses : ∀ o ∈ m.uses, o.LookedUpIn w t outer types
  parameters : ∀ p ∈ m.parameters, ∃ v, p.binding = some v ∧ t.IsLocal v

/-- The names in every type that stands in the type were looked up where they stand. -/
def TypeDecl.LookedUpIn (t : BindingTable) (outer : Scope) (types : List TypeId) (d : TypeDecl) :
    Prop :=
  ∀ env types' x, TypeDecl.StandsIn outer types d env types' x →
    ∀ m ∈ x.members, m.LookedUpIn w t env types'

variable {w} {t : BindingTable} {outer : Scope} {types : List TypeId}

theorem NameUse.LookedUpIn.meansIn {o : NameUse} (found : o.LookedUpIn w t outer types) :
    o.MeansIn t types := by
  intro v handle simple
  obtain ⟨t₁, -, leads, resolved⟩ := found.handle
  rw [resolved, Site.means?, simple] at handle
  replace handle : ((o.scope ++ outer).lookup o.identifier).or
    ((Site.mk t₁ types).field? o.identifier) =
    some v := handle
  cases among : (o.scope ++ outer).lookup o.identifier with
  | some w =>
    rw [among, Option.some_or] at handle
    cases handle
    obtain ⟨first, rest, all, -⟩ := List.lookup_eq_some_iff.mp among
    have listed : (o.identifier, v) ∈ o.scope ++ outer := by
      rw [all]
      exact List.mem_append_right _ List.mem_cons_self
    exact .inl (found.locals _ listed)
  | none =>
    rw [among, Option.none_or] at handle
    rw [List.lookup_append, Option.or_eq_none_iff] at among
    exact .inr ⟨among.1, t₁, w.resolves leads, handle⟩

theorem TypeDecl.LookedUpIn.of_members {d : TypeDecl} {id : TypeId}
    (handle : d.head.binding = some id)
    (members : ∀ m ∈ d.members, m.LookedUpIn w t outer (id :: types) ∧
    ∀ x ∈ m.innerIn, x.2.LookedUpIn w t (x.1 ++ outer) (id :: types)) :
    d.LookedUpIn w t outer types := by
  intro env types' x stands
  cases stands with
  | self handle' =>
    rw [handle] at handle'
    cases handle'
    exact fun m hm => (members m hm).1
  | inside handle' hm listed stands =>
    rw [handle] at handle'
    cases handle'
    exact (members _ hm).2 _ listed env types' x stands

/-- What names mean in the members of a type that stands in a type whose names were looked up. -/
theorem TypeDecl.LookedUpIn.namesIn {d x : TypeDecl} {types' : List TypeId}
    (found : d.LookedUpIn w t outer types) (stands : TypeDecl.Stands types d types' x) :
    ∀ m ∈ x.members, m.NamesIn t types' := by
  induction stands generalizing outer with
  | self handle =>
    intro m hm
    have own := found _ _ _ (.self handle) m hm
    exact ⟨fun o ho => (own.uses o ho).meansIn, own.parameters⟩
  | inside handle listed stands ih =>
    obtain ⟨m, hm, scope, listed⟩ := TypeDecl.exists_innerIn listed
    exact ih fun env types' x stands => found env types' x (.inside handle hm listed stands)

end ClassInit
