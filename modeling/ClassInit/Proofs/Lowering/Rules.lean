import ClassInit.Lowering.Collect
import ClassInit.Lowering.Synthesis
import ClassInit.Proofs.Tree.Erase
import Mathlib.Data.List.Forall2

/-!
# The rules of lowering

What lowering makes of a type, stated without the passes that make it: which statements initialize
an instance and which the type (`initList`), and how the members of the lowered type come from the
members of the type (`TypeLowered`). Node ids play no part in the rules: statements that a rule
leaves open are told up to their ids (`SameStmts`).
-/

set_option autoImplicit false

namespace ClassInit.Lowering

/-- The two lists of statements differ in node ids at most. -/
def SameStmts (ss ss' : List Stmt) : Prop := ss.map (Stmt.erase id) = ss'.map (Stmt.erase id)

namespace SameStmts

theorem refl (ss : List Stmt) : SameStmts ss ss := rfl

theorem trans {a b c : List Stmt} (first : SameStmts a b) (second : SameStmts b c) :
    SameStmts a c := Eq.trans first second

theorem symm {ss ss' : List Stmt} (same : SameStmts ss ss') : SameStmts ss' ss := Eq.symm same

theorem append {a a' b b' : List Stmt} (first : SameStmts a a') (second : SameStmts b b') :
    SameStmts (a ++ b) (a' ++ b') := by
  unfold SameStmts at *
  rw [List.map_append, List.map_append, first, second]

/-- A copy of statements differs from them in node ids only. -/
theorem copyAll (ss : List Stmt) (s : IdSupply) : SameStmts (Stmt.copyAll ss s).1 ss := by
  have copied := Stmt.copyAll_erase id ss s
  rw [Stmt.eraseAll_eq_map, Stmt.eraseAll_eq_map] at copied
  exact copied

theorem nil_iff {ss ss' : List Stmt} (same : SameStmts ss ss') : ss = [] ↔ ss' = [] := by
  rw [← List.map_eq_nil_iff (f := Stmt.erase id), same, List.map_eq_nil_iff]

end SameStmts

/-! ## Initialization in declaration order -/

/-- Whether a field belongs to the type and not to its instances. -/
def isOnce (isInterface : Bool) (f : FieldDecl) : Bool := f.modifiers.isStatic || isInterface

/-- The assignment of a value to the variable of a fragment. -/
def assignmentTo (f : Fragment) (value : Expr) : Stmt :=
  .expression ⟨.unassigned, f.span⟩
    (.assignment ⟨.unassigned, .dummy, none⟩ .assign
      (.name ⟨.unassigned, .dummy, none⟩ f.name f.binding) value)

/-- What a block contributes: its statements, or the block as a whole if it declares names. -/
def blockInit (b : Block) : List Stmt :=
  if b.statements.any declaresName then [.block ⟨.unassigned, b.info.span⟩ b] else b.statements

theorem mem_blockInit {b : Block} {s : Stmt} (hs : s ∈ blockInit b) :
    s = .block ⟨.unassigned, b.info.span⟩ b ∨ s ∈ b.statements := by
  unfold blockInit at hs
  split at hs
  · exact .inl (List.mem_singleton.mp hs)
  · exact .inr hs

section

variable (t : BindingTable) (encoding : LiteralEncoding)

/-- Whether the initializer of a fragment has to run: always for an instance, and for the type if it
is demoted. -/
def hasToRun (once : Bool) (f : Fragment) (initializer : Expr) : Bool :=
  !once ||
    match f.binding.map (classify t encoding initializer) with
    | some (.ok .demote) => true
    | _ => false

variable {t encoding} in
/-- A static initializer that was classified has to run if it is demoted. -/
theorem hasToRun_of_classify {f : Fragment} {e : Expr} {v : VariableId} {fate : Eligibility}
    (bound : f.binding = some v) :
    classify t encoding e v = .ok fate →
      hasToRun t encoding true f e = match fate with
        | .demote => true
        | _ => false := by
  intro decided
  rw [hasToRun, bound, Option.map_some, decided]
  cases fate <;> rfl

/-- What a fragment contributes. -/
def fragmentInit (once : Bool) (f : Fragment) : List Stmt :=
  match f.initializer with
  | some e => if hasToRun t encoding once f e then [assignmentTo f e] else []
  | none => []

/-- What a member contributes to the initialization of an instance, or of the type. -/
def memberInit (isInterface once : Bool) : Member → List Stmt
  | .field f =>
    if isOnce isInterface f = once then f.fragments.flatMap (fragmentInit t encoding once) else []
  | .initializer i => if i.isStatic = once then blockInit i.body else []
  | .type _ => []
  | .method _ => []

/-- The statements that initialize an instance, or the type, in declaration order. -/
def initList (isInterface once : Bool) (ms : List Member) : List Stmt :=
  ms.flatMap (memberInit t encoding isInterface once)

variable {t encoding} in
/-- A statement that initializes is the assignment of an initializer, or comes from a block of its
kind. -/
theorem exists_of_mem_initList {isInterface once : Bool} {ms : List Member} {s : Stmt}
    (hs : s ∈ initList t encoding isInterface once ms) :
    (∃ f, .field f ∈ ms ∧ ∃ g ∈ f.fragments, ∃ e, g.initializer = some e ∧ s = assignmentTo g e) ∨
      ∃ i, .initializer i ∈ ms ∧ i.isStatic = once ∧ s ∈ blockInit i.body := by
  obtain ⟨m, hm, hs⟩ := List.mem_flatMap.mp hs
  cases m with
  | type | method => exact absurd hs List.not_mem_nil
  | field f =>
    obtain ⟨-, hs⟩ := List.mem_ite_nil_right.mp hs
    obtain ⟨g, hg, hs⟩ := List.mem_flatMap.mp hs
    unfold fragmentInit at hs
    split at hs
    · rename_i e initializer
      obtain ⟨-, hs⟩ := List.mem_ite_nil_right.mp hs
      exact .inl ⟨f, hm, g, hg, e, initializer, List.mem_singleton.mp hs⟩
    · exact absurd hs List.not_mem_nil
  | initializer i =>
    obtain ⟨kind, hs⟩ := List.mem_ite_nil_right.mp hs
    exact .inr ⟨i, hm, kind, hs⟩

/-! ## Fields -/

/-- The literal that a folded initializer becomes. -/
def literalFor (n : NodeId) (c : Constant) (type : TypeRef) : Expr :=
  .literal ⟨n, .dummy, some type⟩ (.ofConstant (foldedValue c type))

/-- How a fragment of a field of the given type comes out. -/
inductive FragmentLowered (once : Bool) (type : TypeRef) : Fragment → Fragment → Prop where
  | bare {f : Fragment} : f.initializer = none → FragmentLowered once type f f
  | moved {f : Fragment} {e : Expr} {v : VariableId} :
      f.initializer = some e → f.binding = some v → once = false →
      FragmentLowered once type f { f with initializer := none }
  | kept {f : Fragment} {e : Expr} {v : VariableId} :
      f.initializer = some e → f.binding = some v → once = true →
      classify t encoding e v = .ok .keep → FragmentLowered once type f f
  | folded {f : Fragment} {e : Expr} {v : VariableId} {c : Constant} {n : NodeId} :
      f.initializer = some e → f.binding = some v → once = true →
      classify t encoding e v = .ok (.fold c) →
      FragmentLowered once type f { f with initializer := some (literalFor n c type) }
  | demoted {f : Fragment} {e : Expr} {v : VariableId} :
      f.initializer = some e → f.binding = some v → once = true →
      classify t encoding e v = .ok .demote →
      FragmentLowered once type f { f with initializer := none }

end

/-! ## Constructors -/

/-- Whether a body starts with a call of a sibling constructor. -/
def delegates (ss : List Stmt) : Bool := (ss.head?.map Stmt.isThisCall).getD false

/-- A call of the superclass constructor that the program does not write. -/
def IsImplicitSuper (s : Stmt) : Prop :=
  ∃ n handle, s = .superCall ⟨n, .dummy⟩ [] (some handle)

theorem IsImplicitSuper.isSuperCall {call : Stmt} (implicit : IsImplicitSuper call) :
    call.isSuperCall = true := by
  obtain ⟨n, handle, rfl⟩ := implicit
  rfl

/-- How a constructor comes out when instances are initialized by the given statements. -/
inductive ConstructorLowered (instances : List Stmt) : MethodDecl → MethodDecl → Prop where
  /-- A delegating constructor stays as it is. -/
  | delegating {h : MethodHead} {b : Block} :
      delegates b.statements = true → ConstructorLowered instances ⟨h, some b⟩ ⟨h, some b⟩
  /-- Otherwise the statements follow the first call of the superclass constructor. -/
  | explicit {h : MethodHead} {i : NodeInfo} {before after copies : List Stmt} {call : Stmt} :
      delegates (before ++ call :: after) = false → (∀ s ∈ before, s.isSuperCall = false) →
      call.isSuperCall = true → SameStmts copies instances →
      ConstructorLowered instances ⟨h, some ⟨i, before ++ call :: after⟩⟩
        ⟨h, some ⟨i, before ++ call :: (copies ++ after)⟩⟩
  /-- Without such a call they come first, after a call that is put in. -/
  | implicit {h : MethodHead} {i : NodeInfo} {ss copies : List Stmt} {call : Stmt} :
      delegates ss = false → (∀ s ∈ ss, s.isSuperCall = false) → IsImplicitSuper call →
      SameStmts copies instances →
      ConstructorLowered instances ⟨h, some ⟨i, ss⟩⟩ ⟨h, some ⟨i, call :: (copies ++ ss)⟩⟩

/-! ## Members and types -/

/-- Whether a member is still there after lowering: all but the initializer blocks are. -/
def survives : Member → Bool
  | .initializer _ => false
  | _ => true

/-- How a member comes out. -/
inductive MemberLowered (t : BindingTable) (encoding : LiteralEncoding) (isInterface : Bool)
    (instances : List Stmt) : Member → Member → Prop where
  | type (d : TypeDecl) : MemberLowered t encoding isInterface instances (.type d) (.type d)
  | field {f : FieldDecl} {fs : List Fragment} :
      List.Forall₂ (FragmentLowered t encoding (isOnce isInterface f) f.type) f.fragments fs →
      MemberLowered t encoding isInterface instances (.field f)
        (.field { f with fragments := fs })
  | method {m : MethodDecl} : isInterface = true ∨ m.head.isConstructor = false →
      MemberLowered t encoding isInterface instances (.method m) (.method m)
  | constructor {m m' : MethodDecl} : isInterface = false → m.head.isConstructor = true →
      ConstructorLowered instances m m' →
      MemberLowered t encoding isInterface instances (.method m) (.method m')

/-- A synthesized method without parameters and result. -/
def IsSynthesized (name : String) (modifiers : Modifiers) (isConstructor : Bool)
    (ss : List Stmt) (m : Member) : Prop :=
  ∃ n bodyId handle, m = .method ⟨⟨n, .dummy, name, modifiers, .void, [], isConstructor,
    some handle, true⟩, some ⟨⟨bodyId, .dummy⟩, ss⟩⟩

/-- The constructor that is made for a type that declares none. -/
def DefaultConstructor (name : String) (access : Modifiers) (instances : List Stmt)
    (m : Member) : Prop :=
  ∃ call ss, IsImplicitSuper call ∧ SameStmts ss instances ∧
    IsSynthesized name access true (call :: ss) m

/-- The static routine of a type. -/
def StaticRoutine (name : String) (statics : List Stmt) (m : Member) : Prop :=
  ∃ ss, SameStmts ss statics ∧ IsSynthesized name routineModifiers false ss m

/-- How a type comes out whose nested types are lowered: its surviving members in their order, then
the default constructor if it declares no constructor, then the static routine if there is something
for it to run. -/
structure TypeLowered (options : Options) (t : BindingTable) (isInterface : Bool)
    (access : Modifiers) (d d' : TypeDecl) : Prop where
  head : d'.head = d.head
  members : ∃ kept made routine : List Member,
    d'.members = kept ++ (made ++ routine) ∧
    List.Forall₂
      (MemberLowered t options.literalEncoding isInterface
        (initList t options.literalEncoding isInterface false d.members))
      (d.members.filter survives) kept ∧
    (if isInterface = false ∧ d.constructors = [] then
      ∃ m, made = [m] ∧ DefaultConstructor d.name access
        (initList t options.literalEncoding isInterface false d.members) m
    else made = []) ∧
    (if initList t options.literalEncoding isInterface true d.members = [] then routine = []
    else
      ∃ m, routine = [m] ∧ StaticRoutine options.classInitializerName
        (initList t options.literalEncoding isInterface true d.members) m)

/-! ## Where members come from -/

section

variable {options : Options} {t : BindingTable} {isInterface : Bool} {access : Modifiers}
variable {d d' : TypeDecl} (lowered : TypeLowered options t isInterface access d d')

include lowered

/-- A member of a lowered type is what became of a member, or the default constructor, or the static
routine. -/
theorem TypeLowered.mem_cases {m' : Member} (hm' : m' ∈ d'.members) :
    (∃ m ∈ d.members, MemberLowered t options.literalEncoding isInterface
      (initList t options.literalEncoding isInterface false d.members) m m') ∨
      DefaultConstructor d.name access
        (initList t options.literalEncoding isInterface false d.members) m' ∨
      StaticRoutine options.classInitializerName
        (initList t options.literalEncoding isInterface true d.members) m' := by
  obtain ⟨kept, made, routine, members, hkept, hmade, hroutine⟩ := lowered.members
  rw [members] at hm'
  rcases List.mem_append.mp hm' with hm' | hm'
  · obtain ⟨m, hm, one⟩ := exists_mem_left hkept hm'
    exact .inl ⟨m, (List.mem_filter.mp hm).1, one⟩
  rcases List.mem_append.mp hm' with hm' | hm'
  · split at hmade
    · obtain ⟨m, rfl, default⟩ := hmade
      rw [List.mem_singleton.mp hm']
      exact .inr (.inl default)
    · rw [hmade] at hm'
      exact absurd hm' List.not_mem_nil
  · split at hroutine
    · rw [hroutine] at hm'
      exact absurd hm' List.not_mem_nil
    · obtain ⟨m, rfl, runs⟩ := hroutine
      rw [List.mem_singleton.mp hm']
      exact .inr (.inr runs)

/-- A surviving member is there after lowering. -/
theorem TypeLowered.exists_lowered {m : Member} (hm : m ∈ d.members)
    (survivor : survives m = true) :
    ∃ m' ∈ d'.members, MemberLowered t options.literalEncoding isInterface
      (initList t options.literalEncoding isInterface false d.members) m m' := by
  obtain ⟨kept, made, routine, members, hkept, -, -⟩ := lowered.members
  obtain ⟨m', hm', one⟩ := exists_mem_right hkept (List.mem_filter.mpr ⟨hm, survivor⟩)
  rw [members]
  exact ⟨m', List.mem_append_left _ hm', one⟩

/-- A field of a lowered type is a field of the type with its fragments lowered. -/
theorem TypeLowered.exists_field {f' : FieldDecl} (hf' : .field f' ∈ d'.members) :
    ∃ f fs, .field f ∈ d.members ∧ f' = { f with fragments := fs } ∧
      List.Forall₂ (FragmentLowered t options.literalEncoding (isOnce isInterface f) f.type)
        f.fragments fs := by
  rcases lowered.mem_cases hf' with ⟨m, hm, one⟩ | ⟨call, ss, -, -, made⟩ | ⟨ss, -, made⟩
  · cases one with
    | field fragments => exact ⟨_, _, hm, rfl, fragments⟩
  all_goals
    obtain ⟨n, bodyId, handle, isMethod⟩ := made
    cases isMethod

/-- A field of the type is there after lowering, with its fragments lowered. -/
theorem TypeLowered.exists_lowered_field {f : FieldDecl} (hf : .field f ∈ d.members) :
    ∃ fs, .field { f with fragments := fs } ∈ d'.members ∧
      List.Forall₂ (FragmentLowered t options.literalEncoding (isOnce isInterface f) f.type)
        f.fragments fs := by
  obtain ⟨m', hm', one⟩ := lowered.exists_lowered hf rfl
  cases one with
  | field fragments => exact ⟨_, hm', fragments⟩

end

end ClassInit.Lowering
