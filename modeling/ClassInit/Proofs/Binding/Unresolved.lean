import ClassInit.Proofs.Binding.Bodies

/-!
# Trees before their names are resolved

A tree in which no name and no local has a handle yet. Declaring what is in it gives handles to its
types, fields and methods only (`Binding.declareType_unresolved`).
-/

set_option autoImplicit false

namespace ClassInit

open Binding

mutual

/-- No name and no local in the statement has a handle. -/
def Stmt.Unresolved : Stmt → Prop
  | .expression _ e => Unnamed e.names
  | .localVariable _ _ _ fs => ∀ f ∈ fs, Unnamed f.names ∧ f.binding = none
  | .block _ ⟨_, ss⟩ => Stmt.UnresolvedAll ss
  | .ifElse _ c t none => Unnamed c.names ∧ t.Unresolved
  | .ifElse _ c t (some e) => Unnamed c.names ∧ t.Unresolved ∧ e.Unresolved
  | .whileLoop _ c b => Unnamed c.names ∧ b.Unresolved
  | .forLoop _ init c us b =>
    Stmt.UnresolvedAll init ∧ Unnamed (Expr.namesIn c) ∧ Unnamed (Expr.namesOf us) ∧ b.Unresolved
  | .tryCatch _ ⟨_, ss⟩ cs none => Stmt.UnresolvedAll ss ∧ CatchClause.UnresolvedAll cs
  | .tryCatch _ ⟨_, ss⟩ cs (some ⟨_, fs⟩) =>
    Stmt.UnresolvedAll ss ∧ CatchClause.UnresolvedAll cs ∧ Stmt.UnresolvedAll fs
  | .returnValue _ e => Unnamed (Expr.namesIn e)
  | .throwValue _ e => Unnamed e.names
  | .superCall _ as _ => Unnamed (Expr.namesOf as)
  | .thisCall _ as _ => Unnamed (Expr.namesOf as)
  | .localType _ d => d.Unresolved
  | .empty _ => True

def Stmt.UnresolvedAll : List Stmt → Prop
  | [] => True
  | s :: ss => s.Unresolved ∧ Stmt.UnresolvedAll ss

def CatchClause.UnresolvedAll : List CatchClause → Prop
  | [] => True
  | ⟨_, x, ⟨_, ss⟩⟩ :: cs =>
    x.binding = none ∧ Stmt.UnresolvedAll ss ∧ CatchClause.UnresolvedAll cs

/-- No name and no local in the member has a handle. -/
def Member.Unresolved : Member → Prop
  | .type d => d.Unresolved
  | .method ⟨h, none⟩ => ∀ p ∈ h.parameters, p.binding = none
  | .method ⟨h, some ⟨_, ss⟩⟩ => (∀ p ∈ h.parameters, p.binding = none) ∧ Stmt.UnresolvedAll ss
  | .initializer ⟨_, _, ⟨_, ss⟩⟩ => Stmt.UnresolvedAll ss
  | .field f => ∀ g ∈ f.fragments, Unnamed g.names

def Member.UnresolvedAll : List Member → Prop
  | [] => True
  | m :: ms => m.Unresolved ∧ Member.UnresolvedAll ms

/-- No name and no local in the type has a handle. -/
def TypeDecl.Unresolved : TypeDecl → Prop
  | ⟨_, ms⟩ => Member.UnresolvedAll ms

end

/-- No name and no local in the unit has a handle. -/
def CompilationUnit.Unresolved (u : CompilationUnit) : Prop := ∀ d ∈ u.types, d.Unresolved

theorem Member.unresolvedAll_iff {ms : List Member} :
    Member.UnresolvedAll ms ↔ ∀ m ∈ ms, m.Unresolved := by
  induction ms with
  | nil => simp [Member.UnresolvedAll]
  | cons m ms ih => rw [Member.UnresolvedAll, ih, List.forall_mem_cons]

theorem TypeDecl.unresolved_iff {d : TypeDecl} : d.Unresolved ↔ ∀ m ∈ d.members, m.Unresolved := by
  obtain ⟨h, ms⟩ := d
  rw [TypeDecl.Unresolved]
  exact Member.unresolvedAll_iff

/-! ## Editing local types -/

section

variable {σ ε : Type} {f : TypeDecl → Edit σ ε TypeDecl} {P : σ → Prop} {E : ε → Prop}

mutual

theorem Stmt.editLocalTypes_unresolved
    (single : ∀ d : TypeDecl, d.Unresolved → (f d).Ends P TypeDecl.Unresolved E) :
    ∀ s : Stmt, s.Unresolved → (Stmt.editLocalTypes f s).Ends P Stmt.Unresolved E
  | .localType i d, free => by
    rw [Stmt.Unresolved] at free
    exact .map (single d free)
  | .block i ⟨b, ss⟩, free => by
    rw [Stmt.Unresolved] at free
    exact .map (Stmt.editLocalTypesOf_unresolved single ss free)
  | .ifElse i c t none, free => by
    rw [Stmt.Unresolved] at free
    refine .map ((Stmt.editLocalTypes_unresolved single t free.2).imp (fun t' free' => ?_)
      fun _ => id)
    exact ⟨free.1, free'⟩
  | .ifElse i c t (some e), free => by
    rw [Stmt.Unresolved] at free
    refine .andThen (Stmt.editLocalTypes_unresolved single t free.2.1) fun t' freeT => ?_
    refine .map ((Stmt.editLocalTypes_unresolved single e free.2.2).imp (fun e' freeE => ?_)
      fun _ => id)
    exact ⟨free.1, freeT, freeE⟩
  | .whileLoop i c body, free => by
    rw [Stmt.Unresolved] at free
    refine .map ((Stmt.editLocalTypes_unresolved single body free.2).imp (fun b' free' => ?_)
      fun _ => id)
    exact ⟨free.1, free'⟩
  | .forLoop i init c us body, free => by
    rw [Stmt.Unresolved] at free
    obtain ⟨freeInit, freeC, freeUs, freeB⟩ := free
    refine .andThen (Stmt.editLocalTypesOf_unresolved single init freeInit)
      fun init' freeInit' => ?_
    refine .map ((Stmt.editLocalTypes_unresolved single body freeB).imp (fun b' freeB' => ?_)
      fun _ => id)
    exact ⟨freeInit', freeC, freeUs, freeB'⟩
  | .tryCatch i ⟨b, ss⟩ cs none, free => by
    rw [Stmt.Unresolved] at free
    refine .andThen (Stmt.editLocalTypesOf_unresolved single ss free.1) fun ss' free' => ?_
    refine .map
      ((CatchClause.editLocalTypesOf_unresolved single cs free.2).imp (fun cs' freeCs => ?_)
      fun _ => id)
    exact ⟨free', freeCs⟩
  | .tryCatch i ⟨b, ss⟩ cs (some ⟨fb, fs⟩), free => by
    rw [Stmt.Unresolved] at free
    refine .andThen (Stmt.editLocalTypesOf_unresolved single ss free.1) fun ss' free' => ?_
    refine .andThen (CatchClause.editLocalTypesOf_unresolved single cs free.2.1)
      fun cs' freeCs => ?_
    refine .map ((Stmt.editLocalTypesOf_unresolved single fs free.2.2).imp (fun fs' freeFs => ?_)
      fun _ => id)
    exact ⟨free', freeCs, freeFs⟩
  | .expression .., free => .keep free
  | .localVariable .., free => .keep free
  | .returnValue .., free => .keep free
  | .throwValue .., free => .keep free
  | .superCall .., free => .keep free
  | .thisCall .., free => .keep free
  | .empty _, free => .keep free

theorem Stmt.editLocalTypesOf_unresolved
    (single : ∀ d : TypeDecl, d.Unresolved → (f d).Ends P TypeDecl.Unresolved E) :
    ∀ ss : List Stmt, Stmt.UnresolvedAll ss →
      (Stmt.editLocalTypesOf f ss).Ends P Stmt.UnresolvedAll E
  | [], free => .keep free
  | s :: ss, free => by
    rw [Stmt.UnresolvedAll] at free
    refine .andThen (Stmt.editLocalTypes_unresolved single s free.1) fun s' free' => ?_
    refine .map ((Stmt.editLocalTypesOf_unresolved single ss free.2).imp (fun ss' freeSs => ?_)
      fun _ => id)
    exact ⟨free', freeSs⟩

theorem CatchClause.editLocalTypesOf_unresolved
    (single : ∀ d : TypeDecl, d.Unresolved → (f d).Ends P TypeDecl.Unresolved E) :
    ∀ cs : List CatchClause, CatchClause.UnresolvedAll cs →
    (CatchClause.editLocalTypesOf f cs).Ends P CatchClause.UnresolvedAll E
  | [], free => .keep free
  | ⟨sp, x, ⟨b, ss⟩⟩ :: cs, free => by
    rw [CatchClause.UnresolvedAll] at free
    refine .andThen (Stmt.editLocalTypesOf_unresolved single ss free.2.1) fun ss' free' => ?_
    refine .map
      ((CatchClause.editLocalTypesOf_unresolved single cs free.2.2).imp (fun cs' freeCs => ?_)
      fun _ => id)
    exact ⟨free.1, free', freeCs⟩

end

theorem Member.editLocalTypes_unresolved
    (single : ∀ d : TypeDecl, d.Unresolved → (f d).Ends P TypeDecl.Unresolved E) (m : Member)
    (free : m.Unresolved) :
    (Member.editLocalTypes f m).Ends P Member.Unresolved E := by
  rcases m with d | ⟨h, _ | ⟨i, ss⟩⟩ | ⟨i, s, ⟨b, ss⟩⟩ | g
  · exact .keep free
  · exact .keep free
  · rw [Member.Unresolved] at free
    refine .map ((Stmt.editLocalTypesOf_unresolved single ss free.2).imp (fun ss' free' => ?_)
      fun _ => id)
    exact ⟨free.1, free'⟩
  · rw [Member.Unresolved] at free
    exact .map (Stmt.editLocalTypesOf_unresolved single ss free)
  · exact .keep free

/-- A type is unresolved if its members are edited to unresolved ones. -/
theorem TypeDecl.unresolved_of_list {edit : Member → Edit σ ε Member} {d : TypeDecl}
    (each : ∀ m ∈ d.members, (edit m).Ends P Member.Unresolved E) :
    ((Edit.list edit d.members).map fun ms => { d with members := ms }).Ends P TypeDecl.Unresolved
      E := by
  refine .map ((Edit.Ends.list (R := fun _ m' => m'.Unresolved) each).imp (fun ms all => ?_)
    fun _ => id)
  refine TypeDecl.unresolved_iff.mpr fun m' hm' => ?_
  obtain ⟨m, -, free⟩ := exists_mem_left all hm'
  exact free

end

/-! ## Declaring -/

namespace Binding

theorem declareMember_unresolved {nested : TypeDecl → Edit State ResolveError TypeDecl}
    (single : ∀ d : TypeDecl, d.Unresolved →
      (nested d).Ends (fun _ => True) TypeDecl.Unresolved fun _ => True)
    (owner : TypeId) (isInterfaceLike : Bool) (m : Member) (free : m.Unresolved) :
    (declareMember nested owner isInterfaceLike m).Ends (fun _ => True) Member.Unresolved
      fun _ => True := by
  rcases m with d | ⟨h, body⟩ | i | f
  · rw [Member.Unresolved] at free
    exact .map (single d free)
  · refine .map (.ofState fun s _ => ⟨?_, trivial⟩)
    show Member.Unresolved (.method ⟨(declareMethod owner h s).1, body⟩)
    have same := declareMethod_parameters owner h s
    rcases body with _ | ⟨b, ss⟩
    · rw [Member.Unresolved, same]
      rw [Member.Unresolved] at free
      exact free
    · rw [Member.Unresolved, same]
      rw [Member.Unresolved] at free
      exact free
  · exact .keep free
  · rw [declareMember]
    refine .map (.ofState fun s _ => ⟨?_, trivial⟩)
    show Member.Unresolved (.field (declareField owner isInterfaceLike f s).1)
    rw [Member.Unresolved] at free ⊢
    intro g' hg'
    obtain ⟨g, hg, -, initializer⟩ :=
      exists_mem_left (declareField_same owner isInterfaceLike f s) hg'
    rw [Fragment.names, initializer]
    exact free g hg

theorem declareHead_members (qualifier : Option String) (outer : Option TypeId) (d : TypeDecl) :
    (declareHead qualifier outer d).Ends (fun _ => True) (fun x => x.1.members = d.members)
      fun _ => True := by
  intro s _
  unfold declareHead
  cases d.head.binding with
  | none => exact ⟨rfl, trivial⟩
  | some id =>
    dsimp only
    cases s.table.typeAt id with
    | error e => trivial
    | ok descriptor => exact ⟨rfl, trivial⟩

theorem declareContents_unresolved {nested : String → TypeDecl → Edit State ResolveError TypeDecl}
    (single : ∀ name (d : TypeDecl), d.Unresolved →
      (nested name d).Ends (fun _ => True) TypeDecl.Unresolved fun _ => True)
    (id : TypeId) (d : TypeDecl) (free : d.Unresolved) :
    (declareContents nested id d).Ends (fun _ => True) TypeDecl.Unresolved fun _ => True := by
  intro s holds
  unfold declareContents
  cases s.table.typeAt id with
  | error e => trivial
  | ok descriptor =>
    have members : ((Edit.list (declareMember (nested descriptor.name) id d.isInterfaceLike)
        d.members).map fun ms => { d with members := ms }).Ends (fun _ => True) TypeDecl.Unresolved
          fun _ => True := by
      refine TypeDecl.unresolved_of_list fun m hm => ?_
      exact declareMember_unresolved (single _) id _ m (TypeDecl.unresolved_iff.mp free m hm)
    refine members.seq (fun d₁ free₁ => TypeDecl.unresolved_of_list fun m hm => ?_) s holds
    exact Member.editLocalTypes_unresolved (single _) m (TypeDecl.unresolved_iff.mp free₁ m hm)

/-- Declaring a type gives no handle to a name or local in it. -/
theorem declareType_unresolved (levels : Nat) (qualifier : Option String) (outer : Option TypeId)
    (d : TypeDecl) (free : d.Unresolved) :
    (declareType levels qualifier outer d).Ends (fun _ => True) TypeDecl.Unresolved fun _ =>
      True := by
  induction levels generalizing qualifier outer d with
  | zero => exact .stop trivial
  | succ levels ih =>
    refine .andThen (declareHead_members qualifier outer d) fun (d₁, id) same => ?_
    refine declareContents_unresolved (fun _ => ih _ _) id d₁ (TypeDecl.unresolved_iff.mpr ?_)
    rw [same]
    exact TypeDecl.unresolved_iff.mp free

end Binding

end ClassInit
