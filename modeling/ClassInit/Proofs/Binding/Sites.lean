import ClassInit.Proofs.Binding.Handles
import ClassInit.Proofs.Binding.NamedTypes
import ClassInit.Proofs.Binding.Names
import ClassInit.Proofs.Step

/-!
# Sites of names

The names of a body can be resolved without any state: a site says which types are around and what
the table holds, and an environment that lists the locals in scope, the innermost and latest first,
is passed down. What a statement declares is added for the statements after it only
(`Stmt.resolveIn`). A table that has only got locals since answers the lookups of a site as before
(`BindingTable.WithLocals`).
-/

set_option autoImplicit false

namespace ClassInit

namespace Binding

/-! ## What names mean -/

/-- Where a body stands: the table in which its names are looked up, and the types around it, the
innermost first. -/
structure Site where
  table : BindingTable
  types : List TypeId

namespace Site

variable (c : Site)

/-- The field that a name means: of the innermost type that has one. -/
def field? (name : String) : Option VariableId := c.types.findSome? (c.table.findField · name)

/-- The field that a name with a qualifier means: of the type that the qualifier means. -/
def qualified? (qualifier name : String) : Option VariableId :=
  (owner? c.table qualifier).bind (c.table.findField · name)

/-- What a simple name means: the first local of that name in the environment, or else a field. -/
def simple? (env : Scope) (name : String) : Option VariableId :=
  (env.lookup name).or (c.field? name)

def means? (env : Scope) (name : String) : Option VariableId :=
  match splitLast? name with
  | some (qualifier, field) => c.qualified? qualifier field
  | none => c.simple? env name

/-- What a field access means: a field of the innermost type through `this`, or of the type that an
unbound name means. -/
def member? (target : Expr) (name : String) : Option VariableId :=
  match target.skipParens with
  | .this _ => c.types.head?.bind (c.table.findField · name)
  | .name _ qualifier none => c.qualified? qualifier name
  | _ => none

def newType (t : TypeName) : TypeName :=
  match t.binding with
  | some _ => t
  | none => { t with binding := c.table.lookupSimpleType t.simpleName }

end Site

/-- What items declare one after the other, the latest first. -/
def latestFirst {α : Type} (declares : α → Scope) (as : List α) : Scope :=
  as.reverse.flatMap declares

/-- What is declared first is found last. -/
theorem latestFirst_cons {α : Type} (declares : α → Scope) (a : α) (as : List α) :
    latestFirst declares (a :: as) = latestFirst declares as ++ declares a := by
  rw [latestFirst, List.reverse_cons, List.flatMap_append, List.flatMap_singleton]
  rfl

/-- The handle of a local, if new ones are given out from `next` on, and what is next then. -/
def localHandle (next : Nat) : Option VariableId → VariableId × Nat
  | some v => (v, next)
  | none => (⟨next⟩, next + 1)

end Binding

open Binding

/-! ## Expressions -/

section

variable (c : Site) (env : Scope)

mutual

/-- The expression with its names resolved in an environment. -/
def Expr.resolveIn : Expr → Expr
  | .literal i v => .literal i v
  | .this i => .this i
  | .name i n (some v) => .name i n (some v)
  | .name i n none => .name i n (c.means? env n)
  | .fieldAccess i t n (some v) => .fieldAccess i t.resolveIn n (some v)
  | .fieldAccess i t n none => .fieldAccess i t.resolveIn n (c.member? t.resolveIn n)
  | .unary i op e => .unary i op e.resolveIn
  | .step i op e => .step i op e.resolveIn
  | .binary i op l r => .binary i op l.resolveIn r.resolveIn
  | .conditional i c t e => .conditional i c.resolveIn t.resolveIn e.resolveIn
  | .parenthesized i e => .parenthesized i e.resolveIn
  | .cast i t e => .cast i t e.resolveIn
  | .assignment i op l r => .assignment i op l.resolveIn r.resolveIn
  | .call i none n as b => .call i none n (Expr.resolveAllIn as) b
  | .call i (some r) n as b => .call i (some r.resolveIn) n (Expr.resolveAllIn as) b
  | .new i t as b => .new i (c.newType t) (Expr.resolveAllIn as) b

def Expr.resolveAllIn : List Expr → List Expr
  | [] => []
  | e :: es => e.resolveIn :: Expr.resolveAllIn es

end

end

/-! ## Locals -/

def Parameter.declares (p : Parameter) : Scope := (p.binding.map (p.name, ·)).toList

def Parameter.resolveIn (next : Nat) (p : Parameter) : Parameter × Nat :=
  ({ p with binding := some (localHandle next p.binding).1 }, (localHandle next p.binding).2)

def Parameter.resolveAllIn : Nat → List Parameter → List Parameter × Nat
  | next, [] => ([], next)
  | next, p :: ps =>
    let q := p.resolveIn next
    let qs := Parameter.resolveAllIn q.2 ps
    (q.1 :: qs.1, qs.2)

def Fragment.declares (f : Fragment) : Scope := (f.binding.map (f.name, ·)).toList

/-- A declarator with its initializer resolved, in which its own name is not in scope yet. -/
def Fragment.resolveIn (c : Site) (env : Scope) (next : Nat) (f : Fragment) : Fragment × Nat :=
  ({ f with
      initializer := f.initializer.map (Expr.resolveIn c env)
      binding := some (localHandle next f.binding).1 },
    (localHandle next f.binding).2)

/-- Declarators one after the other, each in scope for those after it. -/
def Fragment.resolveAllIn (c : Site) : Scope → Nat → List Fragment → List Fragment × Nat
  | _, next, [] => ([], next)
  | env, next, f :: fs =>
    let g := f.resolveIn c env next
    let gs := Fragment.resolveAllIn c (g.1.declares ++ env) g.2 fs
    (g.1 :: gs.1, gs.2)

/-! ## Statements -/

/-- The locals that a statement adds to the scope that it stands in. -/
def Stmt.declares : Stmt → Scope
  | .localVariable _ _ _ fs => latestFirst Fragment.declares fs
  | _ => []

section

variable (c : Site)

mutual

/-- The statement with its names resolved in an environment, its new locals numbered from `next` on.
Local types are left as they are. -/
def Stmt.resolveIn : Scope → Nat → Stmt → Stmt × Nat
  | env, next, .expression i e => (.expression i (e.resolveIn c env), next)
  | env, next, .localVariable i m t fs =>
    let gs := Fragment.resolveAllIn c env next fs
    (.localVariable i m t gs.1, gs.2)
  | env, next, .block i ⟨b, ss⟩ =>
    let body := Stmt.resolveAllIn env next ss
    (.block i ⟨b, body.1⟩, body.2)
  | env, next, .ifElse i cond t none =>
    let t := Stmt.resolveIn env next t
    (.ifElse i (cond.resolveIn c env) t.1 none, t.2)
  | env, next, .ifElse i cond t (some e) =>
    let t := Stmt.resolveIn env next t
    let e := Stmt.resolveIn env t.2 e
    (.ifElse i (cond.resolveIn c env) t.1 (some e.1), e.2)
  | env, next, .whileLoop i cond b =>
    let b := Stmt.resolveIn env next b
    (.whileLoop i (cond.resolveIn c env) b.1, b.2)
  | env, next, .forLoop i init cond us b =>
    let init := Stmt.resolveAllIn env next init
    let inner := latestFirst Stmt.declares init.1 ++ env
    let b := Stmt.resolveIn inner init.2 b
    (.forLoop i init.1 (cond.map (Expr.resolveIn c inner)) (Expr.resolveAllIn c inner us) b.1, b.2)
  | env, next, .tryCatch i ⟨b, ss⟩ cs none =>
    let body := Stmt.resolveAllIn env next ss
    let cs := CatchClause.resolveAllIn env body.2 cs
    (.tryCatch i ⟨b, body.1⟩ cs.1 none, cs.2)
  | env, next, .tryCatch i ⟨b, ss⟩ cs (some ⟨fb, fs⟩) =>
    let body := Stmt.resolveAllIn env next ss
    let cs := CatchClause.resolveAllIn env body.2 cs
    let final := Stmt.resolveAllIn env cs.2 fs
    (.tryCatch i ⟨b, body.1⟩ cs.1 (some ⟨fb, final.1⟩), final.2)
  | env, next, .returnValue i e => (.returnValue i (e.map (Expr.resolveIn c env)), next)
  | env, next, .throwValue i e => (.throwValue i (e.resolveIn c env), next)
  | env, next, .superCall i as b => (.superCall i (Expr.resolveAllIn c env as) b, next)
  | env, next, .thisCall i as b => (.thisCall i (Expr.resolveAllIn c env as) b, next)
  | _, next, .localType i d => (.localType i d, next)
  | _, next, .empty i => (.empty i, next)

/-- Statements one after the other, in a scope that each adds its locals to. -/
def Stmt.resolveAllIn : Scope → Nat → List Stmt → List Stmt × Nat
  | _, next, [] => ([], next)
  | env, next, s :: ss =>
    let r := Stmt.resolveIn env next s
    let rs := Stmt.resolveAllIn (r.1.declares ++ env) r.2 ss
    (r.1 :: rs.1, rs.2)

/-- Catch clauses, each with its own exception parameter in scope. -/
def CatchClause.resolveAllIn : Scope → Nat → List CatchClause → List CatchClause × Nat
  | _, next, [] => ([], next)
  | env, next, ⟨sp, x, ⟨b, ss⟩⟩ :: cs =>
    let x := x.resolveIn next
    let body := Stmt.resolveAllIn (x.1.declares ++ env) x.2 ss
    let cs := CatchClause.resolveAllIn env body.2 cs
    (⟨sp, x.1, ⟨b, body.1⟩⟩ :: cs.1, cs.2)

end

end

/-- The member with the names in it resolved at a site where no scope is open. Types are left as
they are. -/
def Member.resolveIn (c : Site) (next : Nat) : Member → Member
  | .type d => .type d
  | .field f =>
    .field { f with
      fragments := f.fragments.map fun g =>
        { g with initializer := g.initializer.map (Expr.resolveIn c []) } }
  | .initializer ⟨i, s, ⟨b, ss⟩⟩ => .initializer ⟨i, s, ⟨b, (Stmt.resolveAllIn c [] next ss).1⟩⟩
  | .method ⟨h, none⟩ =>
    .method ⟨{ h with parameters := (Parameter.resolveAllIn next h.parameters).1 }, none⟩
  | .method ⟨h, some ⟨b, ss⟩⟩ =>
    let ps := Parameter.resolveAllIn next h.parameters
    let body := Stmt.resolveAllIn c (latestFirst Parameter.declares ps.1) ps.2 ss
    .method ⟨{ h with parameters := ps.1 }, some ⟨b, body.1⟩⟩

/-! ## Tables with locals -/

namespace BindingTable

variable {t t' : BindingTable}

/-- The second table has the variables of the first, with locals after them. -/
def AddsLocals (t t' : BindingTable) : Prop :=
  ∃ added : List VariableBinding, t'.vars.toList = t.vars.toList ++ added ∧
    ∀ v ∈ added, v.isField = false

namespace AddsLocals

theorem of_eq (same : t'.vars = t.vars) : t.AddsLocals t' :=
  ⟨[], by rw [same, List.append_nil], fun _ hv => absurd hv List.not_mem_nil⟩

theorem refl (t : BindingTable) : t.AddsLocals t := of_eq rfl

theorem trans {a b c : BindingTable} (first : a.AddsLocals b) (second : b.AddsLocals c) :
    a.AddsLocals c := by
  obtain ⟨added, hadded, locals⟩ := first
  obtain ⟨added', hadded', locals'⟩ := second
  refine ⟨added ++ added', ?_, fun v hv => (List.mem_append.mp hv).elim (locals v) (locals' v)⟩
  rw [hadded', hadded, List.append_assoc]

/-- A local adds to the variables without touching the fields. -/
theorem addVariable (t : BindingTable) {v : VariableBinding} (isLocal : v.isField = false) :
    t.AddsLocals (t.addVariable v).2 := by
  refine ⟨[v], ?_, fun w hw => ?_⟩
  · show (t.vars.push v).toList = _
    rw [Array.toList_push]
  · rw [List.mem_singleton.mp hw]
    exact isLocal

/-- Locals are no fields. -/
theorem declaredField (adds : t.AddsLocals t') : t'.declaredField = t.declaredField := by
  obtain ⟨added, all, locals⟩ := adds
  have listed : ∀ (t : BindingTable) owner name, t.declaredField owner name =
      (t.vars.toList.findIdx? fun v =>
        v.isField && v.declaringType == some owner && v.name == name).map VariableId.mk := by
    intro t owner name
    rw [BindingTable.declaredField, ← List.findIdx?_toArray, Array.toArray_toList]
  funext owner name
  have none : (added.findIdx? fun v =>
      v.isField && v.declaringType == some owner && v.name == name) = none := by
    rw [List.findIdx?_eq_none_iff]
    intro v hv
    rw [locals v hv, Bool.false_and, Bool.false_and]
  rw [listed, listed, all, List.findIdx?_append, none, Option.map_none, Option.or_none]

end AddsLocals

/-- Fields are found alike where types have the same superclasses and declare the same fields. -/
theorem findField_congr (types : t'.types = t.types) (fields : t'.declaredField = t.declaredField) :
    t'.findField = t.findField := by
  have within :
      ∀ name steps owner, t'.fieldWithin name steps owner = t.fieldWithin name steps owner := by
    intro name steps
    induction steps with
    | zero =>
      intro owner
      rw [fieldWithin, fieldWithin, fields]
    | succ steps ih =>
      intro owner
      rw [fieldWithin, fieldWithin, fields, types]
      simp only [ih]
  funext owner name
  rw [BindingTable.findField, BindingTable.findField, within, types]

/-- The second table is the first with locals added. -/
structure WithLocals (t t' : BindingTable) : Prop where
  types : t'.types = t.types
  adds : t.AddsLocals t'

namespace WithLocals

variable (more : t.WithLocals t')

include more

theorem lastBelow (test : TypeDescriptor → Bool) (bound : Nat) :
    t'.lastBelow test bound = t.lastBelow test bound := by
  induction bound with
  | zero => rfl
  | succ bound ih => rw [BindingTable.lastBelow, BindingTable.lastBelow, more.types, ih]

/-- Locals do not matter for lookups of types. -/
theorem lookupSimpleType (simple : String) :
    t'.lookupSimpleType simple = t.lookupSimpleType simple := by
  rw [BindingTable.lookupSimpleType, more.lastBelow, more.types, BindingTable.lookupSimpleType]

theorem owner? (qualifier : String) : Binding.owner? t' qualifier = Binding.owner? t qualifier := by
  rw [Binding.owner?, Binding.owner?, more.lookupSimpleType, lookupType_congr more.types]

/-- Locals do not matter for lookups of fields. -/
theorem findField : t'.findField = t.findField :=
  findField_congr more.types more.adds.declaredField

end WithLocals

end BindingTable

end ClassInit
