import ClassInit.Proofs.Binding.Occurrences

/-!
# What surrounds local types

A local type stands among the locals that are in scope at its declaration. The walk over local types
lists each with them (`Stmt.localTypesIn`), so that for a type that stands in another, through
bodies and members, both the locals and the types around it are known (`TypeDecl.StandsIn`).
-/

set_option autoImplicit false

namespace ClassInit

open Binding

/-! ## Local types in their scopes -/

mutual

/-- The local types of a statement that stands in a scope, each with the locals in scope where it is
declared. -/
def Stmt.localTypesIn : Scope → Stmt → List (Scope × TypeDecl)
  | env, .localType _ d => [(env, d)]
  | env, .block _ ⟨_, ss⟩ => Stmt.localTypesOfIn env ss
  | env, .ifElse _ _ t none => Stmt.localTypesIn env t
  | env, .ifElse _ _ t (some e) => Stmt.localTypesIn env t ++ Stmt.localTypesIn env e
  | env, .whileLoop _ _ b => Stmt.localTypesIn env b
  | env, .forLoop _ init _ _ b =>
    Stmt.localTypesOfIn env init ++ Stmt.localTypesIn (latestFirst Stmt.declares init ++ env) b
  | env, .tryCatch _ ⟨_, ss⟩ cs none =>
    Stmt.localTypesOfIn env ss ++ CatchClause.localTypesOfIn env cs
  | env, .tryCatch _ ⟨_, ss⟩ cs (some ⟨_, fs⟩) =>
    Stmt.localTypesOfIn env ss ++ CatchClause.localTypesOfIn env cs ++ Stmt.localTypesOfIn env fs
  | _, .expression .. => []
  | _, .localVariable .. => []
  | _, .returnValue .. => []
  | _, .throwValue .. => []
  | _, .superCall .. => []
  | _, .thisCall .. => []
  | _, .empty _ => []

/-- The local types of statements one after the other, each of which sees what the ones before it
declare. -/
def Stmt.localTypesOfIn : Scope → List Stmt → List (Scope × TypeDecl)
  | _, [] => []
  | env, s :: ss => Stmt.localTypesIn env s ++ Stmt.localTypesOfIn (s.declares ++ env) ss

def CatchClause.localTypesOfIn : Scope → List CatchClause → List (Scope × TypeDecl)
  | _, [] => []
  | env, ⟨_, x, ⟨_, ss⟩⟩ :: cs =>
    Stmt.localTypesOfIn (x.declares ++ env) ss ++ CatchClause.localTypesOfIn env cs

end

/-- The local types of a member, each with the parameters and locals of the member in scope
there. -/
def Member.localTypesIn : Member → List (Scope × TypeDecl)
  | .type _ => []
  | .method m => Stmt.localTypesOfIn (latestFirst Parameter.declares m.head.parameters) m.statements
  | .initializer i => Stmt.localTypesOfIn [] i.body.statements
  | .field _ => []

/-- The types directly inside a member, each with the locals of the member in scope there. -/
def Member.innerIn (m : Member) : List (Scope × TypeDecl) :=
  m.asType.toList.map (([], ·)) ++ m.localTypesIn

mutual

theorem Stmt.map_snd_localTypesIn : ∀ (env : Scope) (s : Stmt),
    (Stmt.localTypesIn env s).map Prod.snd = s.localTypes
  | _, .localType .. => rfl
  | env, .block _ ⟨_, ss⟩ => Stmt.map_snd_localTypesOfIn env ss
  | env, .ifElse _ _ t none => Stmt.map_snd_localTypesIn env t
  | env, .ifElse _ _ t (some e) => by
    rw [Stmt.localTypesIn, List.map_append, Stmt.map_snd_localTypesIn env t,
      Stmt.map_snd_localTypesIn env e, Stmt.localTypes]
  | env, .whileLoop _ _ b => Stmt.map_snd_localTypesIn env b
  | env, .forLoop _ init _ _ b => by
    rw [Stmt.localTypesIn, List.map_append, Stmt.map_snd_localTypesOfIn env init,
      Stmt.map_snd_localTypesIn _ b, Stmt.localTypes]
  | env, .tryCatch _ ⟨_, ss⟩ cs none => by
    rw [Stmt.localTypesIn, List.map_append, Stmt.map_snd_localTypesOfIn env ss,
      CatchClause.map_snd_localTypesOfIn env cs, Stmt.localTypes]
  | env, .tryCatch _ ⟨_, ss⟩ cs (some ⟨_, fs⟩) => by
    rw [Stmt.localTypesIn, List.map_append, List.map_append, Stmt.map_snd_localTypesOfIn env ss,
      CatchClause.map_snd_localTypesOfIn env cs, Stmt.map_snd_localTypesOfIn env fs,
        Stmt.localTypes]
  | _, .expression .. => rfl
  | _, .localVariable .. => rfl
  | _, .returnValue .. => rfl
  | _, .throwValue .. => rfl
  | _, .superCall .. => rfl
  | _, .thisCall .. => rfl
  | _, .empty _ => rfl

theorem Stmt.map_snd_localTypesOfIn : ∀ (env : Scope) (ss : List Stmt),
    (Stmt.localTypesOfIn env ss).map Prod.snd = Stmt.localTypesOf ss
  | _, [] => rfl
  | env, s :: ss => by
    rw [Stmt.localTypesOfIn, List.map_append, Stmt.map_snd_localTypesIn env s,
      Stmt.map_snd_localTypesOfIn _ ss, Stmt.localTypesOf]

theorem CatchClause.map_snd_localTypesOfIn : ∀ (env : Scope) (cs : List CatchClause),
    (CatchClause.localTypesOfIn env cs).map Prod.snd = CatchClause.localTypesOf cs
  | _, [] => rfl
  | env, ⟨_, x, ⟨_, ss⟩⟩ :: cs => by
    rw [CatchClause.localTypesOfIn, List.map_append, Stmt.map_snd_localTypesOfIn _ ss,
      CatchClause.map_snd_localTypesOfIn env cs, CatchClause.localTypesOf]

end

/-- The types directly inside a member, listed with their scopes or without. -/
theorem Member.map_snd_innerIn (m : Member) : m.innerIn.map Prod.snd = m.inner := by
  have bodies : m.localTypesIn.map Prod.snd = m.localTypes := by
    rcases m with d | ⟨h, _ | ⟨i, ss⟩⟩ | ⟨i, s, ⟨b, ss⟩⟩ | f
    · rfl
    · rfl
    · exact Stmt.map_snd_localTypesOfIn _ ss
    · exact Stmt.map_snd_localTypesOfIn _ ss
    · rfl
  rw [innerIn, List.map_append, bodies, List.map_map, inner]
  exact congrArg (· ++ m.localTypes) (List.map_id _)

/-! ## Scopes in scopes -/

section

variable (outer : Scope)

/-- The type, seen in a scope that lies in another one. -/
def seenWithin (x : Scope × TypeDecl) : Scope × TypeDecl := (x.1 ++ outer, x.2)

mutual

theorem Stmt.localTypesIn_append : ∀ (env : Scope) (s : Stmt),
    Stmt.localTypesIn (env ++ outer) s = (Stmt.localTypesIn env s).map (seenWithin outer)
  | _, .localType .. => rfl
  | env, .block _ ⟨_, ss⟩ => Stmt.localTypesOfIn_append env ss
  | env, .ifElse _ _ t none => Stmt.localTypesIn_append env t
  | env, .ifElse _ _ t (some e) => by
    simp only [Stmt.localTypesIn, List.map_append, Stmt.localTypesIn_append env t,
      Stmt.localTypesIn_append env e]
  | env, .whileLoop _ _ b => Stmt.localTypesIn_append env b
  | env, .forLoop _ init _ _ b => by
    simp only [Stmt.localTypesIn, ← List.append_assoc, List.map_append,
      Stmt.localTypesOfIn_append env init, Stmt.localTypesIn_append _ b]
  | env, .tryCatch _ ⟨_, ss⟩ cs none => by
    simp only [Stmt.localTypesIn, List.map_append, Stmt.localTypesOfIn_append env ss,
      CatchClause.localTypesOfIn_append env cs]
  | env, .tryCatch _ ⟨_, ss⟩ cs (some ⟨_, fs⟩) => by
    simp only [Stmt.localTypesIn, List.map_append, Stmt.localTypesOfIn_append env ss,
      CatchClause.localTypesOfIn_append env cs, Stmt.localTypesOfIn_append env fs]
  | _, .expression .. => rfl
  | _, .localVariable .. => rfl
  | _, .returnValue .. => rfl
  | _, .throwValue .. => rfl
  | _, .superCall .. => rfl
  | _, .thisCall .. => rfl
  | _, .empty _ => rfl

theorem Stmt.localTypesOfIn_append : ∀ (env : Scope) (ss : List Stmt),
    Stmt.localTypesOfIn (env ++ outer) ss = (Stmt.localTypesOfIn env ss).map (seenWithin outer)
  | _, [] => rfl
  | env, s :: ss => by
    simp only [Stmt.localTypesOfIn, ← List.append_assoc, List.map_append,
      Stmt.localTypesIn_append env s, Stmt.localTypesOfIn_append _ ss]

theorem CatchClause.localTypesOfIn_append :
    ∀ (env : Scope) (cs : List CatchClause), CatchClause.localTypesOfIn (env ++ outer) cs =
      (CatchClause.localTypesOfIn env cs).map (seenWithin outer)
  | _, [] => rfl
  | env, ⟨_, x, ⟨_, ss⟩⟩ :: cs => by
    simp only [CatchClause.localTypesOfIn, ← List.append_assoc, List.map_append,
      Stmt.localTypesOfIn_append _ ss, CatchClause.localTypesOfIn_append env cs]

end

end

/-! ## Where types stand -/

/-- The last type stands in the first, around which are the locals `env`, the innermost and latest
first, and the types `outer`. Around its members are the locals and types that come before it, its
own handle first. -/
inductive TypeDecl.StandsIn :
    Scope → List TypeId → TypeDecl → Scope → List TypeId → TypeDecl → Prop where
  | self {env : Scope} {outer : List TypeId} {d : TypeDecl} {id : TypeId} (handle : d.head.binding =
    some id) :
      StandsIn env outer d env (id :: outer) d
  | inside {env scope env' : Scope} {outer types : List TypeId} {d c x : TypeDecl} {m : Member}
    {id : TypeId}
      (handle : d.head.binding = some id) (member : m ∈ d.members) (listed : (scope, c) ∈ m.innerIn)
      (stands : StandsIn (scope ++ env) (id :: outer) c env' types x) : StandsIn env outer d env'
        types x

/-- The type stands in the unit, with the locals and types around its members. -/
def CompilationUnit.StandsIn (u : CompilationUnit) (env : Scope) (types : List TypeId)
    (x : TypeDecl) : Prop :=
  ∃ d ∈ u.types, TypeDecl.StandsIn [] [] d env types x

/-- A type that is directly inside a type is there in some scope. -/
theorem TypeDecl.exists_innerIn {c d : TypeDecl} (listed : c ∈ d.inner) :
    ∃ m ∈ d.members, ∃ scope, (scope, c) ∈ m.innerIn := by
  obtain ⟨m, hm, listed⟩ := TypeDecl.mem_inner.mp listed
  rw [← Member.map_snd_innerIn] at listed
  obtain ⟨⟨scope, c⟩, found, rfl⟩ := List.mem_map.mp listed
  exact ⟨m, hm, scope, found⟩

theorem Member.mem_inner_of_innerIn {m : Member} {scope : Scope} {c : TypeDecl}
    (listed : (scope, c) ∈ m.innerIn) : c ∈ m.inner := by
  rw [← Member.map_snd_innerIn]
  exact List.mem_map_of_mem (f := Prod.snd) listed

end ClassInit
