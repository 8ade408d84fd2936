import ClassInit.Proofs.Lowering.Types

/-!
# Creating instances

What runs when a constructor is called, before lowering and after it. Before, a constructor that
starts by calling a sibling leaves initialization to the sibling; any other one runs the instance
list between its call of the superclass constructor and the rest of its body (`Creates`). After,
bodies run as they are written and only calls of siblings are followed (`Runs`). Both mean the same
(`creation_preserved`): along any finite chain of constructors the instance list runs once, right
after the call of the superclass constructor.
-/

set_option autoImplicit false

namespace ClassInit.Lowering

/-! ## Traces -/

/-- The traces differ in node ids and method handles at most. -/
def SameTrace (es es' : List Stmt) : Prop :=
  es.map (Stmt.erase fun _ => none) = es'.map (Stmt.erase fun _ => none)

namespace SameTrace

theorem refl (es : List Stmt) : SameTrace es es := rfl

theorem append {a a' b b' : List Stmt} (first : SameTrace a a') (second : SameTrace b b') :
    SameTrace (a ++ b) (a' ++ b') := by
  unfold SameTrace at *
  rw [List.map_append, List.map_append, first, second]

end SameTrace

/-- What differs in node ids only makes the same trace. -/
theorem SameStmts.sameTrace {ss ss' : List Stmt} (same : SameStmts ss ss') : SameTrace ss ss' := by
  have cleared : ∀ ts : List Stmt, ts.map (Stmt.erase fun _ => none) =
      (ts.map (Stmt.erase id)).map (Stmt.erase fun _ => none) := by
    intro ts
    rw [List.map_map]
    exact List.map_congr_left fun s _ => (Stmt.erase_erase id (fun _ => none) s).symm
  unfold SameTrace
  rw [cleared ss, cleared ss', same]

/-- Whether statements have no call of a sibling among them. -/
def Plain (ss : List Stmt) : Prop := ∀ s ∈ ss, s.isThisCall = false

theorem Plain.append {a b : List Stmt} (first : Plain a) (second : Plain b) : Plain (a ++ b) := by
  intro s hs
  rcases List.mem_append.mp hs with hs | hs
  · exact first s hs
  · exact second s hs

theorem Plain.of_same {ss ss' : List Stmt} (same : SameStmts ss ss') (plain : Plain ss') :
    Plain ss := by
  intro s hs
  have erased : s.erase id ∈ ss'.map (Stmt.erase id) := by
    rw [← show ss.map (Stmt.erase id) = ss'.map (Stmt.erase id) from same]
    exact List.mem_map_of_mem hs
  obtain ⟨s', hs', eq⟩ := List.mem_map.mp erased
  rw [← Stmt.isThisCall_erase id s, ← eq, Stmt.isThisCall_erase]
  exact plain s' hs'

/-! ## What a constructor means -/

/-- Whether a body starts with a call of the superclass constructor. -/
def callsSuper (ss : List Stmt) : Bool := (ss.head?.map Stmt.isSuperCall).getD false

/-- The call of the superclass constructor that a body without one implies. -/
def impliedSuper : Stmt := .superCall ⟨.unassigned, .dummy⟩ [] none

/-- The statements of a body after its call of a constructor. -/
def ownPart (ss : List Stmt) : List Stmt :=
  if delegates ss || callsSuper ss then ss.tail else ss

section

variable (instances : List Stmt) (bodies : List (List Stmt)) (delegate : Nat → Nat)

/-- What the constructor with an index does before lowering, when the constructors have the given
bodies and `delegate` says which sibling a delegating constructor calls. -/
inductive Creates : Nat → List Stmt → Prop where
  /-- A sibling creates the instance, and the rest of the body follows. -/
  | delegating {i : Nat} {call : Stmt} {rest es : List Stmt} :
      bodies[i]? = some (call :: rest) → call.isThisCall = true → Creates (delegate i) es →
      Creates i (es ++ rest)
  | explicit {i : Nat} {call : Stmt} {rest : List Stmt} :
      bodies[i]? = some (call :: rest) → call.isSuperCall = true →
      Creates i (call :: (instances ++ rest))
  | implicit {i : Nat} {ss : List Stmt} :
      bodies[i]? = some ss → delegates ss = false → callsSuper ss = false →
      Creates i (impliedSuper :: (instances ++ ss))

/-- What statements of the constructor with an index do when they run as they are written. -/
inductive Executes : Nat → List Stmt → List Stmt → Prop where
  | nil {i : Nat} : Executes i [] []
  | call {i : Nat} {s : Stmt} {ss body es es' : List Stmt} :
      s.isThisCall = true → bodies[delegate i]? = some body → Executes (delegate i) body es →
      Executes i ss es' → Executes i (s :: ss) (es ++ es')
  | stmt {i : Nat} {s : Stmt} {ss es : List Stmt} :
      s.isThisCall = false → Executes i ss es → Executes i (s :: ss) (s :: es)

/-- What the constructor with an index does after lowering. -/
def Runs (i : Nat) (es : List Stmt) : Prop :=
  ∃ body, bodies[i]? = some body ∧ Executes bodies delegate i body es

/-- The bodies from a constructor to the one that its chain of calls ends at. -/
inductive ChainFrom : Nat → List (List Stmt) → Prop where
  | top {i : Nat} {ss : List Stmt} :
      bodies[i]? = some ss → delegates ss = false → ChainFrom i [ss]
  | link {i : Nat} {ss : List Stmt} {above : List (List Stmt)} :
      bodies[i]? = some ss → delegates ss = true → ChainFrom (delegate i) above →
      ChainFrom i (ss :: above)

end

variable {instances : List Stmt} {bodies bodies' : List (List Stmt)} {delegate : Nat → Nat}

theorem delegates_cons (s : Stmt) (ss : List Stmt) : delegates (s :: ss) = s.isThisCall := rfl

theorem callsSuper_cons (s : Stmt) (ss : List Stmt) : callsSuper (s :: ss) = s.isSuperCall := rfl

theorem isThisCall_eq_false_of_isSuperCall {s : Stmt} (h : s.isSuperCall = true) :
    s.isThisCall = false := by
  cases s <;> first | rfl | cases h

/-- A constructor means one thing only. -/
theorem Creates.unique {i : Nat} {es es' : List Stmt}
    (first : Creates instances bodies delegate i es)
    (second : Creates instances bodies delegate i es') : es = es' := by
  -- What the body starts with decides the rule, so that only equal rules meet.
  induction first generalizing es' with
  | delegating body isCall _ ih =>
    cases second with
    | delegating body' isCall' rest' =>
      rw [body] at body'
      cases body'
      rw [ih rest']
    | explicit body' isCall' =>
      rw [body] at body'
      cases body'
      rw [isThisCall_eq_false_of_isSuperCall isCall'] at isCall
      cases isCall
    | implicit body' designated _ =>
      rw [body] at body'
      cases body'
      rw [delegates_cons, isCall] at designated
      cases designated
  | explicit body isCall =>
    cases second with
    | delegating body' isCall' rest' =>
      rw [body] at body'
      cases body'
      rw [isThisCall_eq_false_of_isSuperCall isCall] at isCall'
      cases isCall'
    | explicit body' isCall' =>
      rw [body] at body'
      cases body'
      rfl
    | implicit body' _ none =>
      rw [body] at body'
      cases body'
      rw [callsSuper_cons, isCall] at none
      cases none
  | implicit body designated none =>
    cases second with
    | delegating body' isCall' rest' =>
      rw [body] at body'
      cases body'
      rw [delegates_cons, isCall'] at designated
      cases designated
    | explicit body' isCall' =>
      rw [body] at body'
      cases body'
      rw [callsSuper_cons, isCall'] at none
      cases none
    | implicit body' _ _ =>
      rw [body] at body'
      cases body'
      rfl

theorem Executes.unique {i : Nat} {ss es es' : List Stmt}
    (first : Executes bodies delegate i ss es) (second : Executes bodies delegate i ss es') :
    es = es' := by
  induction first generalizing es' with
  | nil =>
    cases second
    rfl
  | call isCall body _ _ ih ih' =>
    cases second with
    | call _ body' callee rest =>
      rw [body] at body'
      cases body'
      rw [ih callee, ih' rest]
    | stmt notCall _ =>
      rw [isCall] at notCall
      cases notCall
  | stmt notCall _ ih =>
    cases second with
    | call isCall _ _ _ =>
      rw [isCall] at notCall
      cases notCall
    | stmt _ rest => rw [ih rest]

theorem Runs.unique {i : Nat} {es es' : List Stmt} (first : Runs bodies delegate i es)
    (second : Runs bodies delegate i es') : es = es' := by
  obtain ⟨body, found, executes⟩ := first
  obtain ⟨body', found', executes'⟩ := second
  rw [found] at found'
  cases found'
  exact executes.unique executes'

/-- Statements without calls of siblings run as they stand. -/
theorem Executes.of_plain {i : Nat} {ss : List Stmt} (plain : Plain ss) :
    Executes bodies delegate i ss ss := by
  induction ss with
  | nil => exact .nil
  | cons s ss ih =>
    exact .stmt (plain s List.mem_cons_self) (ih fun s hs => plain s (List.mem_cons_of_mem _ hs))

/-! ## Bodies before and after -/

/-- How a body comes out in which calls of constructors stand at the start only. -/
inductive BodyLowered (instances : List Stmt) : List Stmt → List Stmt → Prop where
  | delegating {call : Stmt} {rest : List Stmt} :
      call.isThisCall = true → Plain rest → BodyLowered instances (call :: rest) (call :: rest)
  | explicit {call : Stmt} {rest copies : List Stmt} :
      call.isSuperCall = true → Plain rest → SameStmts copies instances →
      BodyLowered instances (call :: rest) (call :: (copies ++ rest))
  | implicit {ss copies : List Stmt} {call : Stmt} :
      delegates ss = false → callsSuper ss = false → Plain ss → IsImplicitSuper call →
      SameStmts copies instances → BodyLowered instances ss (call :: (copies ++ ss))

/-- A call that is put in is the call that was implied. -/
theorem IsImplicitSuper.sameTrace {call : Stmt} (implicit : IsImplicitSuper call) :
    SameTrace [impliedSuper] [call] := by
  obtain ⟨n, handle, rfl⟩ := implicit
  rfl

theorem ownPart_of_delegates {call : Stmt} {rest : List Stmt} (isCall : call.isThisCall = true) :
    ownPart (call :: rest) = rest := by
  rw [ownPart, delegates_cons, isCall, Bool.true_or, if_pos rfl, List.tail_cons]

theorem ownPart_of_callsSuper {call : Stmt} {rest : List Stmt} (isCall : call.isSuperCall = true) :
    ownPart (call :: rest) = rest := by
  rw [ownPart, callsSuper_cons, isCall, Bool.or_true, if_pos rfl, List.tail_cons]

theorem ownPart_of_neither {ss : List Stmt} (designated : delegates ss = false)
    (none : callsSuper ss = false) : ownPart ss = ss := by
  rw [ownPart, designated, none, Bool.or_false, if_neg Bool.false_ne_true]

/-- Body by body, a finite chain of constructors creates before lowering what it runs after: the
call of the superclass constructor, the instance list once, and the bodies from the top of the chain
down. -/
theorem creates_and_runs (lowered : List.Forall₂ (BodyLowered instances) bodies bodies')
    (plain : Plain instances) {i : Nat} {above : List (List Stmt)}
    (chain : ChainFrom bodies delegate i above) :
    ∃ es call copies, Creates instances bodies delegate i es ∧
      Runs bodies' delegate i (call :: (copies ++ above.reverse.flatMap ownPart)) ∧
      SameTrace es (call :: (copies ++ above.reverse.flatMap ownPart)) ∧
      call.isSuperCall = true ∧ SameStmts copies instances := by
  have counterpart : ∀ {j : Nat} {ss : List Stmt}, bodies[j]? = some ss →
      ∃ ss', bodies'[j]? = some ss' ∧ BodyLowered instances ss ss' := by
    intro j ss found
    obtain ⟨bound, rfl⟩ := List.getElem?_eq_some_iff.mp found
    have bound' : j < bodies'.length := by
      rw [← lowered.length_eq]
      exact bound
    exact ⟨bodies'[j], List.getElem?_eq_getElem bound', lowered.get bound bound'⟩
  -- The induction follows the calls: the top of the chain runs the list, and each constructor below
  -- it adds its own part at the end.
  induction chain with
  | @top j ss found designated =>
    obtain ⟨ss', found', body⟩ := counterpart found
    have single : [ss].reverse.flatMap ownPart = ownPart ss := by
      rw [List.reverse_singleton, List.flatMap_singleton]
    rw [single]
    cases body with
    | delegating isCall _ =>
      rw [delegates_cons, isCall] at designated
      cases designated
    | @explicit call rest copies isCall plainRest copied =>
      rw [ownPart_of_callsSuper isCall]
      have notCall := isThisCall_eq_false_of_isSuperCall isCall
      have runs : Runs bodies' delegate _ (call :: (copies ++ rest)) :=
        ⟨_, found', .stmt notCall (.of_plain ((Plain.of_same copied plain).append plainRest))⟩
      have same : SameTrace (call :: (instances ++ rest)) (call :: (copies ++ rest)) :=
        (SameTrace.refl [call]).append
          ((SameStmts.sameTrace copied.symm).append (SameTrace.refl rest))
      exact ⟨_, call, copies, .explicit found isCall, runs, same, isCall, copied⟩
    | @implicit _ copies call _ none plainRest implied copied =>
      rw [ownPart_of_neither designated none]
      have notCall := isThisCall_eq_false_of_isSuperCall implied.isSuperCall
      have runs : Runs bodies' delegate _ (call :: (copies ++ ss)) :=
        ⟨_, found', .stmt notCall (.of_plain ((Plain.of_same copied plain).append plainRest))⟩
      have same : SameTrace (impliedSuper :: (instances ++ ss)) (call :: (copies ++ ss)) :=
        implied.sameTrace.append ((SameStmts.sameTrace copied.symm).append (SameTrace.refl ss))
      exact ⟨_, call, copies, .implicit found designated none, runs, same, implied.isSuperCall,
        copied⟩
  | @link j ss above found delegating _ ih =>
    obtain ⟨ss', found', body⟩ := counterpart found
    obtain ⟨es, call, copies, creates, ⟨callee, foundCallee, executes⟩, same, isSuper, copied⟩ := ih
    have last :
        (ss :: above).reverse.flatMap ownPart = above.reverse.flatMap ownPart ++ ownPart ss := by
      rw [List.reverse_cons, List.flatMap_append, List.flatMap_singleton]
    rw [last]
    cases body with
    | @delegating first rest isCall plainRest =>
      rw [ownPart_of_delegates isCall]
      have runs : Executes bodies' delegate j (first :: rest)
          (call :: (copies ++ above.reverse.flatMap ownPart) ++ rest) :=
        .call isCall foundCallee executes (.of_plain plainRest)
      have same' := same.append (SameTrace.refl rest)
      rw [List.cons_append, List.append_assoc] at runs same'
      exact ⟨es ++ rest, call, copies, .delegating found isCall creates, ⟨_, found', runs⟩, same',
        isSuper, copied⟩
    | explicit isCall _ _ =>
      rw [delegates_cons, isThisCall_eq_false_of_isSuperCall isCall] at delegating
      cases delegating
    | implicit designated _ _ _ _ =>
      rw [designated] at delegating
      cases delegating

/-! ## The constructors of a type -/

def constructorsOf (ms : List Member) : List MethodDecl :=
  (ms.filterMap Member.asMethod).filter (·.head.isConstructor)

/-- The bodies of the declared constructors. -/
def constructorBodies (d : TypeDecl) : List (List Stmt) := d.constructors.map MethodDecl.statements

/-- The bodies with which instances are created: a type without a declared constructor has one with
an empty body. -/
def sourceBodies (d : TypeDecl) : List (List Stmt) :=
  match constructorBodies d with
  | [] => [[]]
  | body :: bodies => body :: bodies

/-- Calls of constructors stand only at the start of constructors, and not in the blocks that
initialize instances. -/
structure CallsFirst (d : TypeDecl) : Prop where
  constructors : ∀ c ∈ d.constructors, ∀ s ∈ c.statements.tail,
    s.isThisCall = false ∧ s.isSuperCall = false
  blocks : ∀ i ∈ d.initializers, i.isStatic = false → ∀ s ∈ i.body.statements,
    s.isThisCall = false ∧ s.isSuperCall = false

variable {options : Options} {t : BindingTable} {encoding : LiteralEncoding}

theorem constructorsOf_append (ms ms' : List Member) :
    constructorsOf (ms ++ ms') = constructorsOf ms ++ constructorsOf ms' := by
  rw [constructorsOf, List.filterMap_append, List.filter_append]
  rfl

theorem constructorsOf_survivors (ms : List Member) :
    constructorsOf (ms.filter survives) = constructorsOf ms := by
  induction ms with
  | nil => rfl
  | cons m ms ih =>
    have single : constructorsOf ([m].filter survives) = constructorsOf [m] := by
      cases m <;> rfl
    have split : m :: ms = [m] ++ ms := rfl
    rw [split, List.filter_append, constructorsOf_append, constructorsOf_append, single, ih]

/-- The constructors come out in their order. -/
theorem constructorsOf_lowered {ms ms' : List Member}
    (lowered : List.Forall₂ (MemberLowered t encoding false instances) ms ms') :
    List.Forall₂ (ConstructorLowered instances) (constructorsOf ms) (constructorsOf ms') := by
  induction lowered with
  | nil => exact .nil
  | @cons m m' ms ms' one _ ih =>
    have split : m :: ms = [m] ++ ms := rfl
    have split' : m' :: ms' = [m'] ++ ms' := rfl
    rw [split, split', constructorsOf_append, constructorsOf_append]
    refine List.rel_append ?_ ih
    cases one with
    | type d => exact .nil
    | field _ => exact .nil
    | @method m isMethod =>
      rcases isMethod with h | h
      · cases h
      · have none : constructorsOf [.method m] = [] := by
          show [m].filter _ = []
          rw [List.filter_singleton, h]
          rfl
        rw [none]
        exact .nil
    | @constructor c c' _ isConstructor made =>
      have isConstructor' : c'.head.isConstructor = true := by
        cases made <;> exact isConstructor
      have some : constructorsOf [.method c] = [c] := by
        show [c].filter _ = [c]
        rw [List.filter_singleton, isConstructor]
        rfl
      have some' : constructorsOf [.method c'] = [c'] := by
        show [c'].filter _ = [c']
        rw [List.filter_singleton, isConstructor']
        rfl
      rw [some, some']
      exact .cons made .nil

/-- The body of a constructor that calls constructors at its start only. -/
theorem ConstructorLowered.body {m m' : MethodDecl} (lowered : ConstructorLowered instances m m')
    (first : ∀ s ∈ m.statements.tail, s.isThisCall = false ∧ s.isSuperCall = false) :
    BodyLowered instances m.statements m'.statements := by
  cases lowered with
  | @delegating h b isCall =>
    obtain ⟨i, _ | ⟨call, rest⟩⟩ := b
    · cases isCall
    · exact .delegating isCall fun s hs => (first s hs).1
  | @explicit h i before after copies call designated none isCall copied =>
    cases before with
    | nil => exact .explicit isCall (fun s hs => (first s hs).1) copied
    | cons s before =>
      have inTail : call ∈ before ++ call :: after := List.mem_append_right _ List.mem_cons_self
      have notCall := (first call inTail).2
      rw [isCall] at notCall
      cases notCall
  | @implicit h i ss copies call designated none implied copied =>
    refine .implicit designated ?_ ?_ implied copied
    · cases ss with
      | nil => rfl
      | cons s ss => exact none s List.mem_cons_self
    · cases ss with
      | nil => exact fun s hs => absurd hs List.not_mem_nil
      | cons s ss =>
        intro s' hs'
        rcases List.mem_cons.mp hs' with rfl | hs'
        · exact designated
        · exact (first s' hs').1

/-- The instance list of a type that calls constructors at their start only has no such call. -/
theorem CallsFirst.plain {d : TypeDecl} (first : CallsFirst d) (isInterface : Bool) :
    Plain (initList t encoding isInterface false d.members) := by
  intro s hs
  rcases exists_of_mem_initList hs with ⟨f, -, g, -, e, -, rfl⟩ | ⟨i, hi, instanceBlock, hs⟩
  · rfl
  · rcases mem_blockInit hs with rfl | hs
    · rfl
    · exact (first.blocks i (List.mem_filterMap.mpr ⟨_, hi, rfl⟩) instanceBlock s hs).1

/-- The constructors of a type come out body by body; a type without one gets one. -/
theorem TypeLowered.bodies_lowered {access : Modifiers} {d d' : TypeDecl}
    (lowered : TypeLowered options t false access d d') (first : CallsFirst d) :
    List.Forall₂
      (BodyLowered (initList t options.literalEncoding false false d.members))
      (sourceBodies d) (constructorBodies d') := by
  obtain ⟨kept, made, routine, members, hkept, hmade, hroutine⟩ := lowered.members
  have declared := constructorsOf_lowered hkept
  rw [constructorsOf_survivors] at declared
  have noRoutine : constructorsOf routine = [] := by
    split at hroutine
    · rw [hroutine]
      rfl
    · obtain ⟨m, rfl, ss, -, n, bodyId, handle, rfl⟩ := hroutine
      rfl
  have all : d'.constructors = constructorsOf kept ++ constructorsOf made := by
    have unfolded : d'.constructors = constructorsOf d'.members := rfl
    rw [unfolded, members, constructorsOf_append, constructorsOf_append, noRoutine,
      List.append_nil]
  have unfolded : d.constructors = constructorsOf d.members := rfl
  -- Without constructors the source has the empty body of the implicit one, which the constructor
  -- made comes from.
  by_cases none : d.constructors = []
  · rw [if_pos ⟨rfl, none⟩] at hmade
    obtain ⟨m, rfl, call, ss, implied, copied, n, bodyId, handle, rfl⟩ := hmade
    have noneKept : constructorsOf kept = [] := by
      rw [← unfolded, none] at declared
      exact List.forall₂_nil_left_iff.mp declared
    have source : sourceBodies d = [[]] := by
      rw [sourceBodies, constructorBodies, none]
      rfl
    rw [source, constructorBodies, all, noneKept, List.nil_append]
    refine .cons ?_ .nil
    have body : BodyLowered _ [] (call :: (ss ++ [])) :=
      .implicit rfl rfl (fun _ h => absurd h List.not_mem_nil) implied copied
    rw [List.append_nil] at body
    exact body
  · rw [if_neg fun h => none h.2] at hmade
    have source : sourceBodies d = constructorBodies d := by
      unfold sourceBodies
      split
      · rename_i empty
        exact absurd (List.map_eq_nil_iff.mp empty) none
      · rename_i some
        exact some.symm
    rw [source, constructorBodies, constructorBodies, all, hmade, unfolded]
    show List.Forall₂ _ _ ((constructorsOf kept ++ []).map _)
    rw [List.append_nil, List.forall₂_map_left_iff, List.forall₂_map_right_iff]
    rw [List.forall₂_iff_get] at declared ⊢
    refine ⟨declared.1, fun i bound bound' => ?_⟩
    exact (declared.2 i bound bound').body (first.constructors _ (List.get_mem _ _))

/-! ## Creation is preserved -/

/-- Creating an instance means the same before and after a class or enum is lowered. Let its nested
types be lowered already, and let calls of constructors stand at the start of constructors only.
Then for every assignment of siblings to delegating constructors and every constructor whose chain
of calls is finite, the trace before lowering and the one after it exist, are unique and agree. The
trace is the call of the superclass constructor, the instance list once, and then the own parts of
the constructors of the chain, from the top down. -/
theorem creation_preserved {levels i : Nat} {type : TypeId} {d d₁ d' : TypeDecl} {s s₁ s' : State}
    {descriptor : TypeDescriptor} {above : List (List Stmt)}
    (bound : d.head.binding = some type) (described : s.table.typeAt type = .ok descriptor)
    (kind : descriptor.kind = .classType ∨ descriptor.kind = .enumType)
    (nested : lowerNested (lowerType options levels) d s = (.done d₁, s₁))
    (run : lowerType options (levels + 1) d s = (.done d', s'))
    (first : CallsFirst d₁) (delegate : Nat → Nat)
    (chain : ChainFrom (sourceBodies d₁) delegate i above) :
    ∃ es es', SameTrace es es' ∧
      (∀ x, Creates (initList s.table options.literalEncoding false false d₁.members)
        (sourceBodies d₁) delegate i x ↔ x = es) ∧
      (∀ x, Runs (constructorBodies d') delegate i x ↔ x = es') ∧
      ∃ call copies, es' = call :: (copies ++ above.reverse.flatMap ownPart) ∧
        call.isSuperCall = true ∧
        SameStmts copies (initList s.table options.literalEncoding false false d₁.members) := by
  have lowered := lowerType_own bound described nested run
  rw [isInterface_eq_false kind] at lowered
  obtain ⟨es, call, copies, creates, runs, same, isCall, copied⟩ :=
    creates_and_runs (lowered.bodies_lowered first) (first.plain false) chain
  refine ⟨es, _, same, fun x => ?_, fun x => ?_, call, copies, rfl, isCall, copied⟩
  · constructor
    · intro other
      exact other.unique creates
    · rintro rfl
      exact creates
  · constructor
    · intro other
      exact other.unique runs
    · rintro rfl
      exact runs

/-- In the sample class the second constructor leaves initialization to the first. -/
theorem creation_preserved_sample : ∃ es es' d' s',
    lowerType .standard 1 sampleClass sampleState = (.done d', s') ∧ SameTrace es es' ∧
      (∀ x, Creates
        (initList sampleState.table .cpp false false sampleClass.members)
        (sourceBodies sampleClass) (fun _ => 0) 1 x ↔ x = es) ∧
      ∀ x, Runs (constructorBodies d') (fun _ => 0) 1 x ↔ x = es' := by
  have run : ∃ d' s', lowerType .standard 1 sampleClass sampleState = (.done d', s') := ⟨_, _, rfl⟩
  obtain ⟨d', s', run⟩ := run
  have first : CallsFirst sampleClass := by
    constructor
    · intro c hc s hs
      simp [sampleClass, TypeDecl.constructors, TypeDecl.methods, Member.asMethod] at hc
      rcases hc with rfl | rfl <;> simp [MethodDecl.statements] at hs
      subst hs
      exact ⟨rfl, rfl⟩
    · intro i hi _ s hs
      simp [sampleClass, TypeDecl.initializers, Member.asInitializer] at hi
      subst hi
      simp at hs
      subst hs
      exact ⟨rfl, rfl⟩
  have chain : ∃ above, ChainFrom (sourceBodies sampleClass) (fun _ => 0) 1 above :=
    ⟨_, .link rfl rfl (.top rfl rfl)⟩
  obtain ⟨above, chain⟩ := chain
  obtain ⟨es, es', same, creates, runs, -⟩ :=
    creation_preserved rfl rfl (.inl rfl) rfl run first (fun _ => 0) chain
  exact ⟨es, es', d', s', run, same, creates, runs⟩

end ClassInit.Lowering
