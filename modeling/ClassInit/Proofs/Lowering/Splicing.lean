import ClassInit.Proofs.Binding.FieldNames
import ClassInit.Proofs.Lowering.Origins
import ClassInit.Proofs.Lowering.Outlines

/-!
# Statements that are spliced into constructors

Every type of a lowered unit stands inside the same types as the type that it comes from
(`CompilationUnit.lower_stands`). A constructor that initializes instances has, right after its
first call of the superclass constructor, the instance list of its type (`Origin.spliced`).
-/

set_option autoImplicit false

namespace ClassInit

open Binding (Scope)

/-! ## Where lowered types stand -/

/-- A type that stands in one of two types that erase alike has a counterpart in the other. -/
theorem TypeDecl.Stands.exists_of_erase (h : Option MethodId → Option MethodId)
    {outer types : List TypeId} {d d' x' : TypeDecl} (stands : TypeDecl.Stands outer d' types x')
    (same : d.erase h = d'.erase h) :
    ∃ x, TypeDecl.Stands outer d types x ∧ x.erase h = x'.erase h := by
  induction stands generalizing d with
  | self handle => exact ⟨d, .self ((TypeDecl.binding_of_erase h same).trans handle), same⟩
  | inside handle listed _ ih =>
    obtain ⟨c, hc, sameInside⟩ := TypeDecl.exists_inner_of_erase h same listed
    obtain ⟨x, stands, erased⟩ := ih sameInside
    exact ⟨x, .inside ((TypeDecl.binding_of_erase h same).trans handle) hc stands, erased⟩

namespace Lowering

/-- What stands in a lowered type comes from a type that stood inside the same types. `t` and `t'`
are the tables at the start and at the end of a longer run. -/
theorem lowerType_stands {options : Options} {t t' : BindingTable} (levels : Nat)
    {outer types : List TypeId} {d d' x' : TypeDecl} {s s' : State} (before : t.Grows s.table)
    (after : s'.table.Grows t') (run : lowerType options levels d s = (.done d', s'))
    (stands : TypeDecl.Stands outer d' types x') :
    ∃ x, TypeDecl.Stands outer d types x ∧ Origin options t x x' := by
  induction levels generalizing d d' x' s s' outer with
  | zero => exact absurd run Edit.stop_ne_done
  | succ levels ih =>
    have origin := lowerType_origin before run
    obtain ⟨type, handle, handle'⟩ := origin.binding
    cases stands with
    | self bound =>
      rw [handle'] at bound
      cases bound
      exact ⟨d, .self handle, origin⟩
    | inside bound listed stands =>
      rw [handle'] at bound
      cases bound
      obtain ⟨c, hc, c₁, s₁, s₂, before₁, step, after₂, same⟩ :=
        lowerType_inner before after run listed
      obtain ⟨x₁, stands₁, sameInside⟩ := stands.exists_of_erase id same
      obtain ⟨x, stood, origin⟩ := ih before₁ after₂ step stands₁
      exact ⟨x, .inside handle hc stood, origin.of_erase sameInside⟩

end Lowering

/-- Every type of a lowered unit comes from a type that stood inside the same types. -/
theorem CompilationUnit.lower_stands {u : CompilationUnit} {t : BindingTable}
    {options : Lowering.Options} {stats : Lowering.Stats}
    (success : (u.lower t options).result = .ok stats) {types : List TypeId} {x' : TypeDecl}
    (stands : (u.lower t options).unit.Stands types x') :
    ∃ x, u.Stands types x ∧ Lowering.Origin options t x x' := by
  obtain ⟨d', hd', stands⟩ := stands
  obtain ⟨d, hd, s₁, s₂, before, step, after⟩ :=
    Edit.exists_step_of_mem Lowering.State.Grows.refl Lowering.State.Grows.trans
      (Lowering.lowerType_moves options (Limits.typeNesting + 1)) (lower_run success) hd'
  obtain ⟨x, stood, origin⟩ := Lowering.lowerType_stands _ before after step stands
  exact ⟨x, ⟨d, hd, stood⟩, origin⟩

namespace Lowering

/-! ## Spliced statements -/

/-- In the body the statements follow the first call of the superclass constructor. -/
def FollowsSuper (ss body : List Stmt) : Prop :=
  ∃ before call after, body = before ++ call :: (ss ++ after) ∧
    (∀ s ∈ before, s.isSuperCall = false) ∧ call.isSuperCall = true

/-- The statements are spliced into the body: up to node ids and to the contents of local types they
are the given list. -/
structure Spliced (instances ss body : List Stmt) : Prop where
  follows : FollowsSuper ss body
  same : ∃ copied, SameStmts ss copied ∧ copied.map Stmt.outline = instances.map Stmt.outline

theorem FollowsSuper.of_same {ss body body' : List Stmt} (follows : FollowsSuper ss body)
    (same : SameStmts body' body) : ∃ ss', SameStmts ss' ss ∧ FollowsSuper ss' body' := by
  obtain ⟨before, call, after, rfl, first, isCall⟩ := follows
  unfold SameStmts at same
  rw [List.map_append, List.map_cons, List.map_append] at same
  obtain ⟨before', rest, rfl, sameBefore, same⟩ := List.map_eq_append_iff.mp same
  obtain ⟨call', rest', rfl, sameCall, same⟩ := List.map_eq_cons_iff.mp same
  obtain ⟨ss', after', rfl, sameSs, -⟩ := List.map_eq_append_iff.mp same
  refine ⟨ss', sameSs, before', call', after', rfl, fun s' hs' => ?_, ?_⟩
  · have listed : s'.erase id ∈ before.map (Stmt.erase id) := sameBefore ▸ List.mem_map_of_mem hs'
    obtain ⟨s, hs, erased⟩ := List.mem_map.mp listed
    rw [← Stmt.isSuperCall_erase id, ← erased, Stmt.isSuperCall_erase]
    exact first s hs
  · rw [← Stmt.isSuperCall_erase id, sameCall, Stmt.isSuperCall_erase]
    exact isCall

/-- The spliced statements use names as the list does. -/
theorem Spliced.uses_eq {instances ss body : List Stmt} (spliced : Spliced instances ss body)
    (env : Scope) :
    ss.flatMap (Stmt.uses env) = instances.flatMap (Stmt.uses env) := by
  have erased : ∀ ss : List Stmt, (ss.map (Stmt.erase id)).flatMap (Stmt.uses env) =
      ss.flatMap (Stmt.uses env) := by
    intro ss
    rw [List.flatMap_map]
    exact List.flatMap_congr fun s _ => Stmt.uses_erase id env s
  have outlined : ∀ ss : List Stmt, (ss.map Stmt.outline).flatMap (Stmt.uses env) =
      ss.flatMap (Stmt.uses env) := by
    intro ss
    rw [List.flatMap_map]
    exact List.flatMap_congr fun s _ => Stmt.uses_outline env s
  obtain ⟨copied, same, outline⟩ := spliced.same
  rw [← erased ss, same, erased, ← outlined copied, outline, outlined]

/-! ## Constructors -/

section

variable {options : Options} {t : BindingTable} {encoding : LiteralEncoding}

theorem isConstructor_of_isDesignated {c : MethodDecl} (designated : c.isDesignated = true) :
    c.head.isConstructor = true := (Bool.and_eq_true_iff.mp designated).1

theorem ConstructorLowered.follows {instances : List Stmt} {c c' : MethodDecl}
    (lowered : ConstructorLowered instances c c') (designated : c'.isDesignated = true) :
    ∃ ss, FollowsSuper ss c'.statements ∧ SameStmts ss instances := by
  cases lowered with
  | @delegating h b isCall =>
    have notCall : (!delegates b.statements) = true := (Bool.and_eq_true_iff.mp designated).2
    rw [isCall] at notCall
    cases notCall
  | explicit _ first isCall copied => exact ⟨_, ⟨_, _, _, rfl, first, isCall⟩, copied⟩
  | @implicit h i ss copies call _ _ implied copied =>
    exact ⟨copies, ⟨[], call, ss, rfl, fun _ hs => absurd hs List.not_mem_nil, implied.isSuperCall⟩,
      copied⟩

/-- A constructor of a lowered type that initializes instances does so by the instance list, and its
parameters are those of a constructor of the type. -/
theorem TypeLowered.follows {access : Modifiers} {d d' : TypeDecl} {c' : MethodDecl}
    (lowered : TypeLowered options t false access d d') (hc' : .method c' ∈ d'.members)
    (designated : c'.isDesignated = true) :
    (∃ ss, FollowsSuper ss c'.statements ∧
        SameStmts ss (initList t options.literalEncoding false false d.members)) ∧
      ∀ p ∈ c'.head.parameters, ∃ m ∈ d.members, p ∈ m.parameters := by
  have isConstructor := isConstructor_of_isDesignated designated
  rcases lowered.mem_cases hc' with
    ⟨m, hm, one⟩ | ⟨call, ss, implied, copied, n, bodyId, handle, same⟩ |
    ⟨ss, -, n, bodyId, handle, same⟩
  · cases one with
    | method isMethod =>
      rcases isMethod with isInterface | isMethod
      · cases isInterface
      · rw [isConstructor] at isMethod
        cases isMethod
    | constructor _ _ made =>
      refine ⟨made.follows designated, fun p hp => ⟨_, hm, ?_⟩⟩
      cases made <;> exact hp
  · cases same
    refine ⟨⟨ss, ⟨[], call, [], ?_, fun _ hs => absurd hs List.not_mem_nil, implied.isSuperCall⟩,
      copied⟩,
      fun p hp => absurd hp List.not_mem_nil⟩
    rw [List.append_nil]
    rfl
  · -- The static routine is no constructor.
    cases same
    cases isConstructor

end

/-! ## Every constructor of the output -/

theorem parameters_outline (m : Member) : m.outline.parameters = m.parameters := by
  rcases m with d | ⟨h, _ | ⟨i, ss⟩⟩ | ⟨i, s, ⟨b, ss⟩⟩ | f <;> rfl

/-- Constructors of a class that comes from another one: those that initialize instances do so by
its instance list, and have parameters of its members. -/
theorem Origin.spliced {options : Options} {t : BindingTable} {x x' : TypeDecl}
    (origin : Origin options t x x') :
    ∃ type descriptor, x.head.binding = some type ∧ t.typeAt type = .ok descriptor ∧
      (descriptor.isInterface = false → ∀ c ∈ x'.constructors, c.isDesignated = true →
        (∃ ss, Spliced (initList t options.literalEncoding false false x.members) ss c.statements) ∧
          ∀ p ∈ c.head.parameters, ∃ m ∈ x.members, p ∈ m.parameters) := by
  obtain ⟨type, descriptor, d₁, d₂, bound, described, -, outline, lowered, same⟩ := origin.lowered
  refine ⟨type, descriptor, bound, described, fun isClass c hc designated => ?_⟩
  rw [isClass] at lowered
  obtain ⟨m', hm', isMethod⟩ := List.mem_filterMap.mp (List.mem_filter.mp hc).1
  have listed : .method c ∈ x'.members := by
    cases m' with
    | method c' =>
      cases isMethod
      exact hm'
    | type | initializer | field => cases isMethod
  -- The constructor is that of `d₂` up to node ids, and the one of `d₂` came out by the rules.
  obtain ⟨c₂, hc₂, erased⟩ := TypeDecl.exists_method_of_erase id same listed
  have designated₂ : c₂.isDesignated = true := by
    rw [← c₂.isDesignated_erase id, erased, c.isDesignated_erase]
    exact designated
  have statements : SameStmts c.statements c₂.statements := by
    unfold SameStmts
    rw [← c.statements_erase, ← erased, c₂.statements_erase]
  obtain ⟨⟨ss, follows, copied⟩, parameters⟩ := lowered.follows hc₂ designated₂
  constructor
  · obtain ⟨ss', same', follows'⟩ := follows.of_same statements
    exact ⟨ss', follows', _, same'.trans copied, initList_outline outline⟩
  · intro p hp
    have sameParameters : (c₂.erase id).head.parameters = (c.erase id).head.parameters := by
      rw [erased]
    obtain ⟨m₁, hm₁, hp⟩ := parameters p (sameParameters ▸ hp)
    have outlined : m₁.outline ∈ x.members.map Member.outline := outline ▸ List.mem_map_of_mem hm₁
    obtain ⟨m, hm, sameOutline⟩ := List.mem_map.mp outlined
    refine ⟨m, hm, ?_⟩
    rw [← parameters_outline, sameOutline, parameters_outline]
    exact hp

end Lowering

end ClassInit
