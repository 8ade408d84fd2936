import ClassInit.Proofs.Binding.Filling
import ClassInit.Proofs.Binding.Rooted
import ClassInit.Proofs.Binding.Unresolved

/-!
# Mentions of types

Binding looks types up for superclass clauses and for `new`. The mentions of a unit are these places
in the order in which names are resolved (`CompilationUnit.mentions`); declaring leaves them as they
are. What a mention is bound to depends on the names of the types in the table only, and only a
clause can add one. So all mentions can be bound one after the other with no tree at hand
(`Mention.bindAll`), from any table with the same type names.
-/

set_option autoImplicit false

namespace ClassInit

open Binding

/-- A type that is named in a superclass clause, or created by `new`. -/
inductive Mention where
  | clause (type : TypeName)
  | creation (type : TypeName)
deriving DecidableEq

/-! ## The mentions of a tree -/

mutual

/-- The types that an expression creates. A created type is looked up before the arguments are. -/
def Expr.mentions : Expr → List Mention
  | .literal .. => []
  | .this _ => []
  | .name .. => []
  | .fieldAccess _ t _ _ => t.mentions
  | .unary _ _ e => e.mentions
  | .step _ _ e => e.mentions
  | .binary _ _ l r => l.mentions ++ r.mentions
  | .conditional _ c t e => c.mentions ++ t.mentions ++ e.mentions
  | .parenthesized _ e => e.mentions
  | .cast _ _ e => e.mentions
  | .assignment _ _ l r => l.mentions ++ r.mentions
  | .call _ none _ as _ => Expr.mentionsOf as
  | .call _ (some r) _ as _ => r.mentions ++ Expr.mentionsOf as
  | .new _ t as _ => [.creation t] ++ Expr.mentionsOf as

def Expr.mentionsOf : List Expr → List Mention
  | [] => []
  | e :: es => e.mentions ++ Expr.mentionsOf es

end

/-- The mentions in an expression that may be missing. -/
def Expr.mentionsIn : Option Expr → List Mention
  | none => []
  | some e => e.mentions

def Fragment.mentions (f : Fragment) : List Mention := Expr.mentionsIn f.initializer

/-- The superclass clause of a type, and the mentions in its enum constants. -/
def TypeHead.mentions (h : TypeHead) : List Mention :=
  h.superclass.toList.map .clause ++ h.enumConstants.flatMap fun c => Expr.mentionsOf c.arguments

mutual

def Stmt.mentions : Stmt → List Mention
  | .expression _ e => e.mentions
  | .localVariable _ _ _ fs => fs.flatMap Fragment.mentions
  | .block _ ⟨_, ss⟩ => Stmt.mentionsOf ss
  | .ifElse _ c t none => c.mentions ++ t.mentions
  | .ifElse _ c t (some e) => c.mentions ++ t.mentions ++ e.mentions
  | .whileLoop _ c b => c.mentions ++ b.mentions
  | .forLoop _ init c us b =>
    Stmt.mentionsOf init ++ Expr.mentionsIn c ++ Expr.mentionsOf us ++ b.mentions
  | .tryCatch _ ⟨_, ss⟩ cs none => Stmt.mentionsOf ss ++ CatchClause.mentionsOf cs
  | .tryCatch _ ⟨_, ss⟩ cs (some ⟨_, fs⟩) =>
    Stmt.mentionsOf ss ++ CatchClause.mentionsOf cs ++ Stmt.mentionsOf fs
  | .returnValue _ e => Expr.mentionsIn e
  | .throwValue _ e => e.mentions
  | .superCall _ as _ => Expr.mentionsOf as
  | .thisCall _ as _ => Expr.mentionsOf as
  | .localType _ d => d.mentions
  | .empty _ => []

def Stmt.mentionsOf : List Stmt → List Mention
  | [] => []
  | s :: ss => s.mentions ++ Stmt.mentionsOf ss

def CatchClause.mentionsOf : List CatchClause → List Mention
  | [] => []
  | ⟨_, _, ⟨_, ss⟩⟩ :: cs => Stmt.mentionsOf ss ++ CatchClause.mentionsOf cs

def Member.mentions : Member → List Mention
  | .type d => d.mentions
  | .field f => f.fragments.flatMap Fragment.mentions
  | .method ⟨_, none⟩ => []
  | .method ⟨_, some ⟨_, ss⟩⟩ => Stmt.mentionsOf ss
  | .initializer ⟨_, _, ⟨_, ss⟩⟩ => Stmt.mentionsOf ss

def Member.mentionsOf : List Member → List Mention
  | [] => []
  | m :: ms => m.mentions ++ Member.mentionsOf ms

/-- The mentions in a type: of its head, and then of its members in their order. -/
def TypeDecl.mentions : TypeDecl → List Mention
  | ⟨h, ms⟩ => h.mentions ++ Member.mentionsOf ms

end

def CompilationUnit.mentions (u : CompilationUnit) : List Mention :=
  u.types.flatMap TypeDecl.mentions

theorem Member.mentionsOf_eq_flatMap (ms : List Member) :
    Member.mentionsOf ms = ms.flatMap Member.mentions := by
  induction ms with
  | nil => rfl
  | cons m ms ih => rw [Member.mentionsOf, ih, List.flatMap_cons]

/-- The mentions of a type are those of its head and then those of its members. -/
theorem TypeDecl.mentions_eq (d : TypeDecl) :
    d.mentions = d.head.mentions ++ d.members.flatMap Member.mentions := by
  obtain ⟨h, ms⟩ := d
  rw [TypeDecl.mentions, Member.mentionsOf_eq_flatMap]

/-! ## Declaring leaves the mentions alone -/

section

variable {σ ε : Type} {f : TypeDecl → Edit σ ε TypeDecl} {P : σ → Prop} {E : ε → Prop}

mutual

/-- An edit that keeps the mentions of types keeps those of statements with such types in them. -/
theorem Stmt.editLocalTypes_mentions
    (single : ∀ d : TypeDecl, (f d).Ends P (fun d' => d'.mentions = d.mentions) E) : ∀ s : Stmt,
    (Stmt.editLocalTypes f s).Ends P (fun s' => s'.mentions = s.mentions) E
  | .localType i d =>
    .map ((single d).imp (fun d' same => by rw [Stmt.mentions, Stmt.mentions, same]) fun _ => id)
  | .block i ⟨b, ss⟩ =>
    .map
      ((Stmt.editLocalTypesOf_mentions single ss).imp
        (fun ss' same => by rw [Stmt.mentions, Stmt.mentions, same])
      fun _ => id)
  | .ifElse i c t none =>
    .map
      ((Stmt.editLocalTypes_mentions single t).imp
        (fun t' same => by rw [Stmt.mentions, Stmt.mentions, same])
      fun _ => id)
  | .ifElse i c t (some e) => by
    refine .andThen (Stmt.editLocalTypes_mentions single t) fun t' sameT => ?_
    refine .map ((Stmt.editLocalTypes_mentions single e).imp (fun e' sameE => ?_) fun _ => id)
    rw [Stmt.mentions, Stmt.mentions, sameT, sameE]
  | .whileLoop i c body =>
    .map
      ((Stmt.editLocalTypes_mentions single body).imp
        (fun b' same => by rw [Stmt.mentions, Stmt.mentions, same])
      fun _ => id)
  | .forLoop i init c us body => by
    refine .andThen (Stmt.editLocalTypesOf_mentions single init) fun init' sameInit => ?_
    refine .map ((Stmt.editLocalTypes_mentions single body).imp (fun b' sameB => ?_) fun _ => id)
    rw [Stmt.mentions, Stmt.mentions, sameInit, sameB]
  | .tryCatch i ⟨b, ss⟩ cs none => by
    refine .andThen (Stmt.editLocalTypesOf_mentions single ss) fun ss' sameSs => ?_
    refine .map ((CatchClause.editLocalTypesOf_mentions single cs).imp (fun cs' sameCs => ?_)
      fun _ => id)
    rw [Stmt.mentions, Stmt.mentions, sameSs, sameCs]
  | .tryCatch i ⟨b, ss⟩ cs (some ⟨fb, fs⟩) => by
    refine .andThen (Stmt.editLocalTypesOf_mentions single ss) fun ss' sameSs => ?_
    refine .andThen (CatchClause.editLocalTypesOf_mentions single cs) fun cs' sameCs => ?_
    refine .map ((Stmt.editLocalTypesOf_mentions single fs).imp (fun fs' sameFs => ?_) fun _ => id)
    rw [Stmt.mentions, Stmt.mentions, sameSs, sameCs, sameFs]
  | .expression .. => .keep rfl
  | .localVariable .. => .keep rfl
  | .returnValue .. => .keep rfl
  | .throwValue .. => .keep rfl
  | .superCall .. => .keep rfl
  | .thisCall .. => .keep rfl
  | .empty _ => .keep rfl

theorem Stmt.editLocalTypesOf_mentions
    (single : ∀ d : TypeDecl, (f d).Ends P (fun d' => d'.mentions = d.mentions) E) :
    ∀ ss : List Stmt, (Stmt.editLocalTypesOf f ss).Ends P (fun ss' => Stmt.mentionsOf ss' =
      Stmt.mentionsOf ss) E
  | [] => .keep rfl
  | s :: ss => by
    refine .andThen (Stmt.editLocalTypes_mentions single s) fun s' same => ?_
    refine .map ((Stmt.editLocalTypesOf_mentions single ss).imp (fun ss' others => ?_) fun _ => id)
    rw [Stmt.mentionsOf, Stmt.mentionsOf, same, others]

theorem CatchClause.editLocalTypesOf_mentions
    (single : ∀ d : TypeDecl, (f d).Ends P (fun d' => d'.mentions = d.mentions) E) :
    ∀ cs : List CatchClause, (CatchClause.editLocalTypesOf f cs).Ends P
      (fun cs' => CatchClause.mentionsOf cs' = CatchClause.mentionsOf cs) E
  | [] => .keep rfl
  | ⟨sp, x, ⟨b, ss⟩⟩ :: cs => by
    refine .andThen (Stmt.editLocalTypesOf_mentions single ss) fun ss' same => ?_
    refine .map ((CatchClause.editLocalTypesOf_mentions single cs).imp (fun cs' others => ?_)
      fun _ => id)
    rw [CatchClause.mentionsOf, CatchClause.mentionsOf, same, others]

end

theorem Member.editLocalTypes_mentions
    (single : ∀ d : TypeDecl, (f d).Ends P (fun d' => d'.mentions = d.mentions) E) (m : Member) :
    (Member.editLocalTypes f m).Ends P (fun m' => m'.mentions = m.mentions) E := by
  rcases m with d | ⟨h, _ | ⟨i, ss⟩⟩ | ⟨i, s, ⟨b, ss⟩⟩ | g
  · exact .keep rfl
  · exact .keep rfl
  · refine .map ((Stmt.editLocalTypesOf_mentions single ss).imp (fun ss' same => ?_) fun _ => id)
    rw [Member.mentions, Member.mentions, same]
  · refine .map ((Stmt.editLocalTypesOf_mentions single ss).imp (fun ss' same => ?_) fun _ => id)
    rw [Member.mentions, Member.mentions, same]
  · exact .keep rfl

/-- An edit that goes over the members of a type and leaves their mentions alone leaves its mentions
alone. -/
theorem TypeDecl.mentions_of_list {edit : Member → Edit σ ε Member}
    (each : ∀ m, (edit m).Ends P (fun m' => m'.mentions = m.mentions) E) (d : TypeDecl) :
    ((Edit.list edit d.members).map fun ms => { d with members := ms }).Ends P
      (fun d' => d'.mentions = d.mentions)
      E := by
  refine .map ((Edit.Ends.list (R := fun m m' => m'.mentions = m.mentions) fun m _ => each m).imp
    (fun ms same => ?_)
    fun _ => id)
  have members : ms.map Member.mentions = d.members.map Member.mentions := map_eq_of_forall₂ same
  rw [TypeDecl.mentions_eq, TypeDecl.mentions_eq, List.flatMap, List.flatMap, members]

end

namespace Binding

/-- Declaring a member keeps its mentions. -/
theorem declareMember_mentions {nested : TypeDecl → Edit State ResolveError TypeDecl}
    (single : ∀ d : TypeDecl,
      (nested d).Ends (fun _ => True) (fun d' => d'.mentions = d.mentions) fun _ => True)
    (owner : TypeId) (isInterfaceLike : Bool) (m : Member) :
    (declareMember nested owner isInterfaceLike m).Ends (fun _ => True)
      (fun m' => m'.mentions = m.mentions) fun _ => True := by
  rcases m with d | ⟨h, body⟩ | i | f
  · refine .map ((single d).imp (fun d' same => ?_) fun _ => id)
    rw [Member.mentions, Member.mentions, same]
  · refine .map (.ofState fun s _ => ⟨?_, trivial⟩)
    rcases body with _ | ⟨b, ss⟩ <;> rfl
  · exact .keep rfl
  · rw [declareMember]
    refine .map (.ofState fun s _ => ⟨?_, trivial⟩)
    have initializers : (declareField owner isInterfaceLike f s).1.fragments.map Fragment.mentions =
        f.fragments.map Fragment.mentions := by
      refine map_eq_of_forall₂
        ((declareField_same owner isInterfaceLike f s).imp fun g g' same => ?_)
      rw [Fragment.mentions, Fragment.mentions, same.2]
    show (declareField owner isInterfaceLike f s).1.fragments.flatMap Fragment.mentions =
      f.fragments.flatMap _
    rw [List.flatMap, List.flatMap, initializers]

theorem declareHead_mentions (qualifier : Option String) (outer : Option TypeId) (d : TypeDecl) :
    (declareHead qualifier outer d).Ends (fun _ => True) (fun x => x.1.mentions = d.mentions)
      fun _ => True := by
  intro s _
  unfold declareHead
  cases d.head.binding with
  | none =>
    refine ⟨?_, trivial⟩
    exact (TypeDecl.mentions_eq _).trans d.mentions_eq.symm
  | some id =>
    dsimp only
    cases s.table.typeAt id with
    | error e => trivial
    | ok descriptor => exact ⟨rfl, trivial⟩

theorem declareContents_mentions {nested : String → TypeDecl → Edit State ResolveError TypeDecl}
    (single : ∀ name (d : TypeDecl),
      (nested name d).Ends (fun _ => True) (fun d' => d'.mentions = d.mentions) fun _ => True)
    (id : TypeId) (d : TypeDecl) :
    (declareContents nested id d).Ends (fun _ => True) (fun d' => d'.mentions = d.mentions) fun _ =>
      True := by
  intro s holds
  unfold declareContents
  cases s.table.typeAt id with
  | error e => trivial
  | ok descriptor =>
    have members :=
      TypeDecl.mentions_of_list
        (declareMember_mentions (single descriptor.name) id d.isInterfaceLike) d
    refine members.seq (fun d₁ same => ?_) s holds
    rw [← same]
    exact TypeDecl.mentions_of_list (Member.editLocalTypes_mentions (single _)) d₁

/-- Declaring a type leaves the mentions in it as they are. -/
theorem declareType_mentions (levels : Nat) (qualifier : Option String) (outer : Option TypeId)
    (d : TypeDecl) :
    (declareType levels qualifier outer d).Ends (fun _ => True) (fun d' => d'.mentions = d.mentions)
      fun _ => True := by
  induction levels generalizing qualifier outer d with
  | zero => exact .stop trivial
  | succ levels ih =>
    refine .andThen (declareHead_mentions qualifier outer d) fun (d₁, id) same => ?_
    rw [← same]
    exact declareContents_mentions (fun _ => ih _ _) id d₁

end Binding

/-! ## Names in a table -/

namespace BindingTable

variable {t t' : BindingTable}

/-- The qualified names of the types in the order of their handles. -/
def typeNames (t : BindingTable) : List String := t.types.toList.map (·.name)

theorem length_typeNames (t : BindingTable) : t.typeNames.length = t.types.size := by
  rw [typeNames, List.length_map, Array.length_toList]

theorem lookupType_of_typeNames (same : t'.typeNames = t.typeNames) :
    t'.lookupType = t.lookupType := by
  funext name
  rw [typeNames, typeNames] at same
  rw [lookupType, lookupType, t'.indexed, t.indexed, same]

/-- Lookups by simple name depend on the names of the types only. -/
theorem lookupSimpleType_of_typeNames (same : t'.typeNames = t.typeNames) :
    t'.lookupSimpleType = t.lookupSimpleType := by
  funext simple
  have entry : ∀ i : Nat, t'.types[i]?.map (·.name) = t.types[i]?.map (·.name) := by
    intro i
    have one := congrArg (·[i]?) same
    simpa only [typeNames, List.getElem?_map, Array.getElem?_toList] using one
  have below : ∀ bound,
      t'.lastBelow (·.simpleName == simple) bound = t.lastBelow (·.simpleName == simple) bound := by
    intro bound
    induction bound with
    | zero => rfl
    | succ bound ih =>
      have here := congrArg (Option.any (Names.simple · == simple)) (entry bound)
      rw [Option.any_map, Option.any_map] at here
      rw [lastBelow_succ, lastBelow_succ, ih]
      exact if_congr (iff_of_eq (congrArg (· = true) here)) rfl rfl
  rw [lookupSimpleType, lookupSimpleType, ← length_typeNames, ← length_typeNames, same]
  exact below _

theorem typeNames_addClass (t : BindingTable) (d : TypeDescriptor) :
    (t.addClass d).1 = ⟨t.typeNames.length⟩ ∧
      (t.addClass d).2.typeNames = t.typeNames ++ [d.name] := by
  rw [length_typeNames]
  unfold addClass
  split <;> exact ⟨rfl, by simp [pushType, typeNames]⟩

theorem typeNames_of_setSuperclass {id superclass : TypeId}
    (set : t.setSuperclass id superclass = .ok t') :
    t'.typeNames = t.typeNames := by
  obtain ⟨-, rfl⟩ := setSuperclass_eq_ok.mp set
  exact names_modify _ _ _

end BindingTable

/-! ## Binding mentions -/

namespace Mention

/-- What becomes of a mention, and of the table that types are looked up in. The superclass that a
clause records is left out, since no name depends on it. -/
def bindIn (t : BindingTable) : Mention → Mention × BindingTable
  | clause c =>
    (clause { c with binding := some (superclassOf c (.start t)).1 },
      (superclassOf c (.start t)).2.table)
  | creation c => (creation (resolveNew c (.start t)).1, t)

/-- A creation without a handle gets that of the type of its simple name. -/
theorem bindIn_creation (t : BindingTable) {c : TypeName} (free : c.binding = none) :
    (creation c).bindIn t = (creation ⟨c.name, t.lookupSimpleType c.simpleName⟩, t) := by
  simp only [bindIn, resolveNew, State.start, free]

/-- What becomes of mentions one after the other. -/
def bindAll : BindingTable → List Mention → List Mention × BindingTable
  | t, [] => ([], t)
  | t, m :: ms => ((m.bindIn t).1 :: (bindAll (m.bindIn t).2 ms).1, (bindAll (m.bindIn t).2 ms).2)

/-- Mentions are bound one after the other. -/
theorem bindAll_append (t : BindingTable) (ms ns : List Mention) :
    bindAll t (ms ++ ns) =
      ((bindAll t ms).1 ++ (bindAll (bindAll t ms).2 ns).1, (bindAll (bindAll t ms).2 ns).2) := by
  induction ms generalizing t with
  | nil => rfl
  | cons m ms ih => rw [List.cons_append, bindAll, bindAll, ih, List.cons_append]

theorem length_bindAll (t : BindingTable) (ms : List Mention) :
    (bindAll t ms).1.length = ms.length := by
  induction ms generalizing t with
  | nil => rfl
  | cons m ms ih => rw [bindAll, List.length_cons, List.length_cons, ih]

end Mention

/-- Of the state, the superclass of a clause depends on the table only. -/
theorem superclassOf_eq (c : TypeName) (s : Binding.State) :
    superclassOf c s =
      ((superclassOf c (.start s.table)).1,
        { s with table := (superclassOf c (.start s.table)).2.table }) := by
  obtain ⟨name, _ | id⟩ := c
  · show resolveSuperclass name s = _
    unfold superclassOf resolveSuperclass State.start
    dsimp only
    cases s.table.lookupType name with
    | some id => rfl
    | none =>
      dsimp only
      generalize (if name.toList.contains '.' then none else s.table.lookupSimpleType name) =
        bySimple
      cases bySimple <;> rfl
  · rfl

/-- Of the table, it depends on the names of the types only. -/
theorem superclassOf_of_typeNames (c : TypeName) {t t' : BindingTable}
    (same : t'.typeNames = t.typeNames) :
    (superclassOf c (.start t')).1 = (superclassOf c (.start t)).1 ∧
      (superclassOf c (.start t')).2.table.typeNames =
        (superclassOf c (.start t)).2.table.typeNames := by
  obtain ⟨name, _ | id⟩ := c
  · unfold superclassOf resolveSuperclass State.start
    dsimp only
    rw [BindingTable.lookupType_of_typeNames same, BindingTable.lookupSimpleType_of_typeNames same]
    cases found : t.lookupType name with
    | some id => exact ⟨rfl, same⟩
    | none =>
      dsimp only
      split
      · exact ⟨rfl, same⟩
      · -- The name is new to both tables.
        have found' : t'.lookupType name = none := by
          rw [BindingTable.lookupType_of_typeNames same, found]
        obtain ⟨id, names⟩ := t.typeNames_addClass (BindingTable.external name)
        obtain ⟨id', names'⟩ := t'.typeNames_addClass (BindingTable.external name)
        simp only [enter, BindingTable.internClass, found, found']
        exact ⟨by rw [id, id', same], by rw [names, names', same]⟩
  · exact ⟨rfl, same⟩

namespace Mention

variable {t t' : BindingTable}

/-- What a mention is bound to depends on the names of the types only. -/
theorem bindIn_of_typeNames (same : t'.typeNames = t.typeNames) (m : Mention) :
    (m.bindIn t').1 = (m.bindIn t).1 ∧ (m.bindIn t').2.typeNames = (m.bindIn t).2.typeNames := by
  cases m with
  | clause c =>
    obtain ⟨found, names⟩ := superclassOf_of_typeNames c same
    exact ⟨by rw [bindIn, bindIn, found], names⟩
  | creation c =>
    refine ⟨congrArg creation ?_, same⟩
    obtain ⟨name, _ | id⟩ := c
    · simp only [resolveNew, State.start, BindingTable.lookupSimpleType_of_typeNames same]
    · rfl

theorem bindAll_of_typeNames (same : t'.typeNames = t.typeNames) (ms : List Mention) :
    (bindAll t' ms).1 = (bindAll t ms).1 ∧
      (bindAll t' ms).2.typeNames = (bindAll t ms).2.typeNames := by
  induction ms generalizing t t' with
  | nil => exact ⟨rfl, same⟩
  | cons m ms ih =>
    obtain ⟨one, names⟩ := m.bindIn_of_typeNames same
    obtain ⟨others, names⟩ := ih names
    exact ⟨by rw [bindAll, bindAll, one, others], names⟩

end Mention

end ClassInit
