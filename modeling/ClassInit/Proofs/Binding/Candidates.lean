import ClassInit.Proofs.Binding.Handles

/-!
# Candidates for constant variables

The candidates of a unit are found among the declarators of its fields, in the order of the listing
of all types (`Constants.ofUnit_eq`).
-/

set_option autoImplicit false

namespace ClassInit

/-- The declarators of all fields of a unit, at any depth. -/
def CompilationUnit.allSlots (u : CompilationUnit) : List FieldSlot :=
  u.declarations.flatMap TypeDecl.slots

/-- The heads of all types of a unit, at any depth. -/
def CompilationUnit.heads (u : CompilationUnit) : List TypeHead := u.declarations.map (·.head)

/-- The candidate that a declarator is, if it is one: its field has a primitive type or is a string,
it has a handle and an initializer, and its entry is final and has no value yet. -/
def FieldSlot.candidate? (t : BindingTable) (s : FieldSlot) : Option Constants.Candidate :=
  match s.fragment.binding, s.fragment.initializer with
  | some id, some initializer =>
    if Constants.admitsType s.type &&
        t.vars[id.index]?.any fun v => v.modifiers.isFinal && v.constantValue.isNone then
      some ⟨id, s.type, initializer⟩
    else none
  | _, _ => none

/-- The candidates among the fields of all types of a unit: its own types, member types and local
types. -/
def CompilationUnit.candidates (t : BindingTable) (u : CompilationUnit) :
    List Constants.Candidate :=
  u.allSlots.filterMap (·.candidate? t)

namespace Constants

section

variable (t : BindingTable)

/-- The candidate that a declarator is, if it is one. -/
def ofSlot (s : FieldSlot) : Except ResolveError (List Candidate) :=
  if admitsType s.type then ofFragment t s.type s.fragment else return []

/-- The candidates among declarators. -/
def ofSlots : List FieldSlot → Except ResolveError (List Candidate)
  | [] => return []
  | s :: ss => return (← ofSlot t s) ++ (← ofSlots ss)

theorem ofSlots_append (ss ss' : List FieldSlot) :
    (do return (← ofSlots t ss) ++ (← ofSlots t ss')) = ofSlots t (ss ++ ss') := by
  induction ss with
  | nil =>
    rw [List.nil_append, ofSlots]
    cases ofSlots t ss' <;> rfl
  | cons s ss ih =>
    rw [List.cons_append, ofSlots, ofSlots, ← ih]
    cases ofSlot t s with
    | error e => rfl
    | ok first =>
      cases ofSlots t ss with
      | error e => rfl
      | ok rest =>
        cases ofSlots t ss' with
        | error e => rfl
        | ok rest' => exact congrArg Except.ok (List.append_assoc first rest rest')

theorem ofField_eq (f : FieldDecl) : ofField t f = ofSlots t (Member.field f).slots := by
  unfold ofField
  have fragments : ∀ fs : List Fragment,
      ofSlots t (fs.map (FieldSlot.mk f.type)) =
        if admitsType f.type then (do return (← fs.mapM (ofFragment t f.type)).flatten)
        else return [] := by
    intro fs
    induction fs with
    | nil => split <;> rfl
    | cons g fs ih =>
      rw [List.map_cons, ofSlots, ih, ofSlot]
      split
      · rw [List.mapM_cons]
        cases ofFragment t f.type g with
        | error e => rfl
        | ok first =>
          cases fs.mapM (ofFragment t f.type) <;> rfl
      · rfl
  exact (fragments f.fragments).symm

theorem ofFields_eq (ms : List Member) : ofFields t ms = ofSlots t (ms.flatMap Member.slots) := by
  unfold ofFields
  induction ms with
  | nil => rfl
  | cons m ms ih =>
    cases m with
    | field f =>
      rw [List.flatMap_cons, ← ofSlots_append, ← ofField_eq, ← ih]
      have fields : (Member.field f :: ms).filterMap Member.asField =
          f :: ms.filterMap Member.asField := rfl
      rw [fields, List.mapM_cons]
      cases ofField t f with
      | error e => rfl
      | ok first => cases (ms.filterMap Member.asField).mapM (ofField t) <;> rfl
    | type d => exact ih
    | method m => exact ih
    | initializer i => exact ih

mutual

/-- The candidates of a type are those among the declarators of all types in it. -/
theorem ofType_eq : ∀ d : TypeDecl, ofType t d = ofSlots t d.allSlots
  | ⟨h, ms⟩ => by
    have slots : (TypeDecl.mk h ms).allSlots = ms.flatMap Member.slots ++
        (Member.typeDeclarations ms).flatMap TypeDecl.slots ++
          (Member.bodyDeclarations ms).flatMap TypeDecl.slots := by
      rw [TypeDecl.allSlots, TypeDecl.declarations, List.flatMap_cons, List.flatMap_append,
        List.append_assoc]
      rfl
    rw [slots, ← ofSlots_append, ← ofSlots_append, ofType, ofFields_eq, ofMemberTypes_eq ms,
      ofBodies_eq ms]
    -- Both sides fail with the first list that does.
    cases ofSlots t (ms.flatMap Member.slots) with
    | error e => rfl
    | ok own =>
      cases ofSlots t ((Member.typeDeclarations ms).flatMap TypeDecl.slots) <;> rfl

theorem ofMemberTypes_eq : ∀ ms : List Member,
    ofMemberTypes t ms = ofSlots t ((Member.typeDeclarations ms).flatMap TypeDecl.slots)
  | [] => by rw [ofMemberTypes]; rfl
  | .type d :: ms => by
    rw [ofMemberTypes, Member.typeDeclarations, List.flatMap_append, ← ofSlots_append,
      ofType_eq d, ofMemberTypes_eq ms, TypeDecl.allSlots]
  | .method _ :: ms => by rw [ofMemberTypes, Member.typeDeclarations, ofMemberTypes_eq ms]
  | .initializer _ :: ms => by rw [ofMemberTypes, Member.typeDeclarations, ofMemberTypes_eq ms]
  | .field _ :: ms => by rw [ofMemberTypes, Member.typeDeclarations, ofMemberTypes_eq ms]

theorem ofBodies_eq : ∀ ms : List Member,
    ofBodies t ms = ofSlots t ((Member.bodyDeclarations ms).flatMap TypeDecl.slots)
  | [] => by rw [ofBodies]; rfl
  | .type _ :: ms => by rw [ofBodies, Member.bodyDeclarations, ofBodies_eq ms]
  | .method ⟨_, none⟩ :: ms => by rw [ofBodies, Member.bodyDeclarations, ofBodies_eq ms]
  | .method ⟨_, some ⟨_, ss⟩⟩ :: ms => by
    rw [ofBodies, Member.bodyDeclarations, List.flatMap_append, ← ofSlots_append, ofStmts_eq ss,
      ofBodies_eq ms]
  | .initializer ⟨_, _, ⟨_, ss⟩⟩ :: ms => by
    rw [ofBodies, Member.bodyDeclarations, List.flatMap_append, ← ofSlots_append, ofStmts_eq ss,
      ofBodies_eq ms]
  | .field _ :: ms => by rw [ofBodies, Member.bodyDeclarations, ofBodies_eq ms]

theorem ofStmt_eq : ∀ s : Stmt, ofStmt t s = ofSlots t (s.declarations.flatMap TypeDecl.slots)
  | .localType _ d => by rw [ofStmt, Stmt.declarations, ofType_eq d, TypeDecl.allSlots]
  | .block _ ⟨_, ss⟩ => by rw [ofStmt, Stmt.declarations, ofStmts_eq ss]
  | .ifElse _ _ s none => by rw [ofStmt, Stmt.declarations, ofStmt_eq s]
  | .ifElse _ _ s (some e) => by
    rw [ofStmt, Stmt.declarations, List.flatMap_append, ← ofSlots_append, ofStmt_eq s, ofStmt_eq e]
  | .whileLoop _ _ b => by rw [ofStmt, Stmt.declarations, ofStmt_eq b]
  | .forLoop _ init _ _ b => by
    rw [ofStmt, Stmt.declarations, List.flatMap_append, ← ofSlots_append, ofStmts_eq init,
      ofStmt_eq b]
  | .tryCatch _ ⟨_, ss⟩ cs none => by
    rw [ofStmt, Stmt.declarations, List.flatMap_append, ← ofSlots_append, ofStmts_eq ss,
      ofCatches_eq cs]
  | .tryCatch _ ⟨_, ss⟩ cs (some ⟨_, fs⟩) => by
    rw [ofStmt, Stmt.declarations, List.flatMap_append, List.flatMap_append, ← ofSlots_append,
      ← ofSlots_append, ofStmts_eq ss, ofCatches_eq cs, ofStmts_eq fs]
    cases ofSlots t ((Stmt.declarationsOf ss).flatMap TypeDecl.slots) with
    | error e => rfl
    | ok own =>
      cases ofSlots t ((CatchClause.declarationsOf cs).flatMap TypeDecl.slots) <;> rfl
  | .expression .. => by rw [ofStmt]; rfl
  | .localVariable .. => by rw [ofStmt]; rfl
  | .returnValue .. => by rw [ofStmt]; rfl
  | .throwValue .. => by rw [ofStmt]; rfl
  | .superCall .. => by rw [ofStmt]; rfl
  | .thisCall .. => by rw [ofStmt]; rfl
  | .empty _ => by rw [ofStmt]; rfl

theorem ofStmts_eq : ∀ ss : List Stmt,
    ofStmts t ss = ofSlots t ((Stmt.declarationsOf ss).flatMap TypeDecl.slots)
  | [] => by rw [ofStmts]; rfl
  | s :: ss => by
    rw [ofStmts, Stmt.declarationsOf, List.flatMap_append, ← ofSlots_append, ofStmt_eq s,
      ofStmts_eq ss]

theorem ofCatches_eq : ∀ cs : List CatchClause,
    ofCatches t cs = ofSlots t ((CatchClause.declarationsOf cs).flatMap TypeDecl.slots)
  | [] => by rw [ofCatches]; rfl
  | ⟨_, _, ⟨_, ss⟩⟩ :: cs => by
    rw [ofCatches, CatchClause.declarationsOf, List.flatMap_append, ← ofSlots_append, ofStmts_eq ss,
      ofCatches_eq cs]

end

/-- The candidates of a unit are those among the declarators of all its types. -/
theorem ofUnit_eq (u : CompilationUnit) : ofUnit t u = ofSlots t u.allSlots := by
  have types : ∀ ds : List TypeDecl, (do return (← ds.mapM (ofType t)).flatten) =
      ofSlots t (ds.flatMap TypeDecl.allSlots) := by
    intro ds
    induction ds with
    | nil => rfl
    | cons d ds ih =>
      rw [List.flatMap_cons, ← ofSlots_append, ← ofType_eq, ← ih, List.mapM_cons]
      cases ofType t d with
      | error e => rfl
      | ok first => cases ds.mapM (ofType t) <;> rfl
  rw [ofUnit, types, CompilationUnit.allSlots, CompilationUnit.declarations, List.flatMap_assoc]
  rfl

end

/-! ## What a candidate is -/

/-- The candidate stands for the declarator, whose field has no value yet. -/
structure IsCandidateOf (t : BindingTable) (s : FieldSlot) (c : Candidate) : Prop where
  binding : s.fragment.binding = some c.id
  initializer : s.fragment.initializer = some c.initializer
  type : s.type = c.type
  unknown : t.variableConstant c.id = none

variable {t : BindingTable}

theorem ofFragment_ok {type : TypeRef} {f : Fragment} {cs : List Candidate}
    (listed : ofFragment t type f = .ok cs) :
    cs = [] ∨ ∃ c, cs = [c] ∧ IsCandidateOf t ⟨type, f⟩ c := by
  unfold ofFragment at listed
  split at listed
  · rename_i id e bound init
    cases found : t.variableAt id with
    | error e =>
      rw [found] at listed
      cases listed
    | ok v =>
      rw [found] at listed
      have listed : (if v.modifiers.isFinal && v.constantValue.isNone then [⟨id, type, e⟩]
          else []) = cs := Except.ok.inj listed
      by_cases final : (v.modifiers.isFinal && v.constantValue.isNone) = true
      · rw [if_pos final] at listed
        refine .inr ⟨_, listed.symm, bound, init, rfl, ?_⟩
        rw [Bool.and_eq_true] at final
        unfold BindingTable.variableAt at found
        unfold BindingTable.variableConstant
        split at found
        · rename_i v' entry
          cases found
          rw [entry]
          exact Option.isNone_iff_eq_none.mp final.2
        · cases found
      · rw [if_neg final] at listed
        exact .inl listed.symm
  · cases listed
    exact .inl rfl

theorem ofSlot_ok {s : FieldSlot} {cs : List Candidate} (listed : ofSlot t s = .ok cs) :
    cs = [] ∨ ∃ c, cs = [c] ∧ IsCandidateOf t s c := by
  unfold ofSlot at listed
  split at listed
  · exact ofFragment_ok listed
  · cases listed
    exact .inl rfl

/-- Candidates come from declarators, one from each at most. -/
theorem ofSlots_ok {ss : List FieldSlot} {cs : List Candidate} (listed : ofSlots t ss = .ok cs) :
    (∀ c ∈ cs, ∃ s ∈ ss, IsCandidateOf t s c) ∧
      (cs.map (·.id.index)).Sublist (ss.filterMap FieldSlot.key) := by
  induction ss generalizing cs with
  | nil =>
    cases listed
    exact ⟨fun _ hc => absurd hc List.not_mem_nil, List.Sublist.refl _⟩
  | cons s ss ih =>
    rw [ofSlots] at listed
    cases first : ofSlot t s with
    | error e =>
      rw [first] at listed
      cases listed
    | ok own =>
      cases rest : ofSlots t ss with
      | error e =>
        rw [first, rest] at listed
        cases listed
      | ok others =>
        rw [first, rest] at listed
        cases listed
        obtain ⟨origin, sublist⟩ := ih rest
        -- A declarator that is no candidate is passed over; the other ones keep their order.
        rcases ofSlot_ok first with rfl | ⟨c, rfl, isCandidate⟩
        · refine ⟨fun c hc => ?_, ?_⟩
          · obtain ⟨s', hs', isCandidate⟩ := origin c hc
            exact ⟨s', List.mem_cons_of_mem _ hs', isCandidate⟩
          · rw [List.filterMap_cons]
            split
            · exact sublist
            · exact sublist.cons _
        · refine ⟨fun c' hc' => ?_, ?_⟩
          · rcases List.mem_cons.mp hc' with rfl | hc'
            · exact ⟨s, List.mem_cons_self, isCandidate⟩
            · obtain ⟨s', hs', isCandidate'⟩ := origin c' hc'
              exact ⟨s', List.mem_cons_of_mem _ hs', isCandidate'⟩
          · rw [List.filterMap_cons_some (FieldSlot.key_of_binding isCandidate.binding)]
            exact sublist.cons_cons _

/-! ## The candidates of a table that knows the fields -/

/-- Candidates are collected in the order of the declarators. -/
theorem ofSlots_eq_ok {ss : List FieldSlot}
    (known : ∀ s ∈ ss, ∀ v, s.fragment.binding = some v → v.index < t.vars.size) :
    ofSlots t ss = .ok (ss.filterMap (·.candidate? t)) := by
  induction ss with
  | nil => rfl
  | cons s ss ih =>
    have one : ofSlot t s = .ok (s.candidate? t).toList := by
      obtain ⟨type, span, name, initializer, binding⟩ := s
      unfold ofSlot ofFragment FieldSlot.candidate?
      rcases binding with _ | id <;> rcases initializer with _ | e
      · split <;> rfl
      · split <;> rfl
      · split <;> rfl
      · obtain ⟨v, entry⟩ : ∃ v, t.vars[id.index]? = some v :=
          ⟨_, Array.getElem?_eq_getElem (known _ List.mem_cons_self id rfl)⟩
        unfold BindingTable.variableAt
        dsimp only
        rw [entry, Option.any_some]
        show (if _ then Except.ok (if _ then _ else _) else Except.ok []) = _
        cases admitsType type
        · rfl
        · cases (v.modifiers.isFinal && v.constantValue.isNone) <;> rfl
    rw [ofSlots, one, ih fun s' hs' => known s' (List.mem_cons_of_mem _ hs'), List.filterMap_cons]
    cases s.candidate? t <;> rfl

theorem mem_candidates {u : CompilationUnit} {c : Candidate} (listed : c ∈ u.candidates t) :
    t.variableConstant c.id = none ∧ ∃ s ∈ u.allSlots, s.fragment.binding = some c.id := by
  obtain ⟨s, hs, found⟩ := List.mem_filterMap.mp listed
  unfold FieldSlot.candidate? at found
  split at found
  · rename_i id e bound _
    split at found
    · rename_i admitted
      cases found
      refine ⟨?_, s, hs, bound⟩
      unfold BindingTable.variableConstant
      cases entry : t.vars[id.index]? with
      | none => rfl
      | some v =>
        rw [entry, Option.any_some, Bool.and_eq_true, Bool.and_eq_true] at admitted
        exact Option.isNone_iff_eq_none.mp admitted.2.2
    · cases found
  · cases found

end Constants

end ClassInit
