import ClassInit.Proofs.Binding.Handles
import Mathlib.Data.List.Perm.Basic

/-!
# What declaring does

The walk of declaring gives handles to the types and fields of a tree and enters them into the table
(`Binding.declareType_done`): the head of a type comes first, then its members one after the other,
then the local types of its bodies.
-/

set_option autoImplicit false

namespace ClassInit

namespace Binding

/-! ## Entries -/

theorem declareFragment_spec (owner : TypeId) (modifiers : Modifiers) (type : TypeRef)
    (f : Fragment) (s : State) :
    Declares s.table (declareFragment owner modifiers type f s).2.table [] [] [⟨type, f⟩]
      [⟨type, (declareFragment owner modifiers type f s).1⟩] := by
  obtain ⟨span, name, initializer, _ | v⟩ := f
  · have grown :
        s.table.Extends (s.table.addVariable ⟨name, type, modifiers, some owner, true, none⟩).2 :=
      .addVariable s.table rfl
    refine ⟨grown, .nil, .fresh (n := s.table.vars.size) rfl (Nat.le_refl _) ?_, ?_⟩
    · show s.table.vars.size < (s.table.vars.push _).size
      rw [Array.size_push]
      exact Nat.lt_succ_self _
    · exact fun _ hh => absurd hh List.not_mem_nil
  · exact ⟨.refl _, .nil, .kept rfl, fun _ hh => absurd hh List.not_mem_nil⟩

theorem declareFragments_spec (owner : TypeId) (modifiers : Modifiers) (type : TypeRef)
    (fs : List Fragment) (s : State) :
    Declares s.table (fs.mapM (declareFragment owner modifiers type) s).2.table [] []
      (fs.map (FieldSlot.mk type))
      ((fs.mapM (declareFragment owner modifiers type) s).1.map (FieldSlot.mk type)) := by
  induction fs generalizing s with
  | nil => exact .nil (.refl _)
  | cons f fs ih =>
    rw [mapM_cons_state]
    exact (declareFragment_spec owner modifiers type f s).append (ih _)

theorem declareField_spec (owner : TypeId) (isInterfaceLike : Bool) (f : FieldDecl) (s : State) :
    Declares s.table (declareField owner isInterfaceLike f s).2.table [] [] (Member.field f).slots
      (Member.field (declareField owner isInterfaceLike f s).1).slots :=
  declareFragments_spec owner _ f.type f.fragments s

theorem declareMethod_extends (owner : TypeId) (h : MethodHead) (s : State) :
    s.table.Extends (declareMethod owner h s).2.table := by
  unfold declareMethod
  cases h.binding with
  | some id => exact .refl _
  | none => exact .addMethod s.table _

/-- The entry that the head of a type asks for. -/
def headEntry (t : BindingTable) (qualifier : Option String) (outer : Option TypeId)
    (h : TypeHead) : TypeDescriptor :=
  ⟨t.uniqueTypeName qualifier h.name, h.kind, h.modifiers, none, outer⟩

/-- What declaring the head of a type does: the type and the handle that it leaves, and the
state. -/
inductive HeadDeclared (qualifier : Option String) (outer : Option TypeId) (d : TypeDecl)
    (s : State) :
    TypeDecl → TypeId → State → Prop where
  | kept {id : TypeId} {e : TypeDescriptor} : d.head.binding = some id → s.table.typeAt id = .ok e →
      HeadDeclared qualifier outer d s d id s
  | entered {id : TypeId} {table : BindingTable} : d.head.binding = none →
      s.table.addType (headEntry s.table qualifier outer d.head) = (id, table) →
      HeadDeclared qualifier outer d s ⟨{ d.head with binding := some id }, d.members⟩ id
        { s with table, stats := { s.stats with types := s.stats.types + 1 } }

theorem declareHead_declared {qualifier : Option String} {outer : Option TypeId} {d d' : TypeDecl}
    {id : TypeId} {s s' : State} (run : declareHead qualifier outer d s = (.done (d', id), s')) :
    HeadDeclared qualifier outer d s d' id s' := by
  unfold declareHead at run
  split at run
  · rename_i bound
    split at run
    · rename_i found
      cases run
      exact .kept bound found
    · cases run
  · rename_i unbound
    cases run
    exact .entered unbound rfl

theorem declareHead_done {qualifier : Option String} {outer : Option TypeId} {d d' : TypeDecl}
    {id : TypeId} {s s' : State} (run : declareHead qualifier outer d s = (.done (d', id), s')) :
    d'.members = d.members ∧ Declares s.table s'.table [d.head] [d'.head] [] [] := by
  cases declareHead_declared run with
  | kept bound found =>
    exact ⟨rfl, .refl _, .kept (TypeHead.key_of_binding bound), .nil, fun h hh => .inl hh⟩
  | entered unbound added =>
    obtain ⟨grown, above, superclass, found⟩ := added ▸ s.table.addType_spec _
    refine ⟨rfl, grown, .fresh rfl above ?_, .nil, ?_⟩
    · exact (Array.getElem?_eq_some_iff.mp (BindingTable.typeAt_eq_ok.mp found)).1
    · intro h hh
      rw [List.mem_singleton.mp hh]
      exact .inr ⟨_, _, rfl, found, rfl⟩

/-! ## The walk -/

/-- What declaring a member does: the member and the state that it leaves. -/
inductive MemberDeclared (nested : TypeDecl → Edit State ResolveError TypeDecl) (owner : TypeId)
    (isInterfaceLike : Bool) (s : State) : Member → Member → State → Prop where
  | type {d d' : TypeDecl} {s' : State} : nested d s = (.done d', s') →
      MemberDeclared nested owner isInterfaceLike s (.type d) (.type d') s'
  | field (f : FieldDecl) : MemberDeclared nested owner isInterfaceLike s (.field f)
      (.field (declareField owner isInterfaceLike f s).1) (declareField owner isInterfaceLike f s).2
  | method (h : MethodHead) (body : Option Block) :
      MemberDeclared nested owner isInterfaceLike s (.method ⟨h, body⟩)
        (.method ⟨(declareMethod owner h s).1, body⟩) (declareMethod owner h s).2
  | initializer (i : InitializerDecl) :
      MemberDeclared nested owner isInterfaceLike s (.initializer i) (.initializer i) s

section

variable {nested : TypeDecl → Edit State ResolveError TypeDecl} {owner : TypeId}
  {isInterfaceLike : Bool}

theorem declareMember_declared {m m' : Member} {s s' : State}
    (run : declareMember nested owner isInterfaceLike m s = (.done m', s')) :
    MemberDeclared nested owner isInterfaceLike s m m' s' := by
  rcases m with d | ⟨h, body⟩ | i | f
  · obtain ⟨d', declared, rfl⟩ := Edit.map_eq_done.mp run
    exact .type declared
  · cases run
    exact .method h body
  · cases run
    exact .initializer i
  · cases run
    exact .field f

/-- Declaring members leaves their bodies alone. -/
theorem declareMember_localTypes {m m' : Member} {s s' : State}
    (run : declareMember nested owner isInterfaceLike m s = (.done m', s')) :
    m'.localTypes = m.localTypes := by
  cases declareMember_declared run <;> rfl

theorem declareMembers_localTypes {ms ms' : List Member} {s s' : State}
    (run : Edit.list (declareMember nested owner isInterfaceLike) ms s = (.done ms', s')) :
    ms'.flatMap Member.localTypes = ms.flatMap Member.localTypes := by
  have kept := Edit.forall₂_of_done (R := fun m m' => m'.localTypes = m.localTypes)
    (fun _ _ _ _ run => declareMember_localTypes run) run
  rw [List.flatMap, List.flatMap, map_eq_of_forall₂ kept]

end

/-- A member is declared with the types and fields in it. -/
theorem declareMember_done {nested : TypeDecl → Edit State ResolveError TypeDecl}
    (single : ∀ d d' s s', nested d s = (.done d', s') →
      Declares s.table s'.table d.heads d'.heads d.allSlots d'.allSlots)
    {owner : TypeId} {isInterfaceLike : Bool} {m m' : Member} {s s' : State}
    (run : declareMember nested owner isInterfaceLike m s = (.done m', s')) :
    Declares s.table s'.table (m.asType.toList.flatMap TypeDecl.heads)
        (m'.asType.toList.flatMap TypeDecl.heads)
        (m.slots ++ m.asType.toList.flatMap TypeDecl.allSlots)
        (m'.slots ++ m'.asType.toList.flatMap TypeDecl.allSlots) := by
  cases declareMember_declared run with
  | type declared => simpa [Member.slots, Member.asType] using single _ _ _ _ declared
  | field f => simpa [Member.asType] using declareField_spec owner isInterfaceLike f s
  | method h body => exact .nil (declareMethod_extends owner h s)
  | initializer i => exact .nil (.refl _)

theorem flatMap_heads (ms : List Member) :
    (ms.flatMap fun m => m.asType.toList.flatMap TypeDecl.heads) =
      (ms.filterMap Member.asType).flatMap TypeDecl.heads := by
  rw [List.filterMap_eq_flatMap_toList, List.flatMap_assoc]

/-- The walk meets the types of a list of members between the fields, the listing after all of
them. -/
theorem flatMap_slots_perm (ms : List Member) :
    (ms.flatMap fun m => m.slots ++ m.asType.toList.flatMap TypeDecl.allSlots).Perm
      (ms.flatMap Member.slots ++ (ms.filterMap Member.asType).flatMap TypeDecl.allSlots) := by
  rw [List.filterMap_eq_flatMap_toList, List.flatMap_assoc]
  exact (List.flatMap_append_perm ms _ _).symm

/-- What a type contains is declared in two walks, over its members and then over the local types in
them. -/
theorem declareContents_walks {nested : String → TypeDecl → Edit State ResolveError TypeDecl}
    {id : TypeId} {d d' : TypeDecl} {s s' : State}
    (run : declareContents nested id d s = (.done d', s')) :
    ∃ descriptor ms s₁, s.table.typeAt id = .ok descriptor ∧
      Edit.list (declareMember (nested descriptor.name) id d.isInterfaceLike) d.members s =
        (.done ms, s₁) ∧
      TypeDecl.editLocalTypes (nested descriptor.name) { d with members := ms } s₁ =
        (.done d', s') := by
  unfold declareContents at run
  split at run
  · cases run
  · rename_i descriptor found
    obtain ⟨d₁, s₁, hmembers, hbodies⟩ := Edit.seq_eq_done.mp run
    obtain ⟨ms, hms, rfl⟩ := Edit.map_eq_done.mp hmembers
    exact ⟨descriptor, ms, s₁, found, hms, hbodies⟩

theorem declareContents_done {nested : String → TypeDecl → Edit State ResolveError TypeDecl}
    (single : ∀ name d d' s s', nested name d s = (.done d', s') →
      Declares s.table s'.table d.heads d'.heads d.allSlots d'.allSlots)
    {id : TypeId} {d d' : TypeDecl} {s s' : State}
    (run : declareContents nested id d s = (.done d', s')) :
    d'.head = d.head ∧
      Declares s.table s'.table (d.inner.flatMap TypeDecl.heads) (d'.inner.flatMap TypeDecl.heads)
        d.allSlots d'.allSlots := by
  obtain ⟨descriptor, ms, s₁, -, hms, hbodies⟩ := declareContents_walks run
  have nestedSpec := single descriptor.name
  -- The first walk leaves the bodies alone, and the second goes through the local types in them.
  have bodies := declareMembers_localTypes hms
  have members := Declares.list State.table (fun m => m.asType.toList.flatMap TypeDecl.heads)
    (fun m => m.slots ++ m.asType.toList.flatMap TypeDecl.allSlots)
    (fun _ _ _ _ run => declareMember_done nestedSpec run) hms
  obtain ⟨listed, head, outline, types⟩ := TypeDecl.editLocalTypes_done hbodies
  have locals := Declares.list State.table TypeDecl.heads TypeDecl.allSlots nestedSpec listed
  have slots : d'.slots = ms.flatMap Member.slots := TypeDecl.slots_of_outline outline
  have types : d'.memberTypes = ms.filterMap Member.asType := types
  have locals : Declares s₁.table s'.table
      ((d.members.flatMap Member.localTypes).flatMap TypeDecl.heads)
      ((d'.members.flatMap Member.localTypes).flatMap TypeDecl.heads)
      ((d.members.flatMap Member.localTypes).flatMap TypeDecl.allSlots)
      ((d'.members.flatMap Member.localTypes).flatMap TypeDecl.allSlots) := by
    rw [← bodies]
    exact locals
  rw [flatMap_heads, flatMap_heads] at members
  refine ⟨head, ?_⟩
  rw [TypeDecl.allSlots_eq, TypeDecl.allSlots_eq, TypeDecl.inner, TypeDecl.inner, types, slots,
    TypeDecl.memberTypes]
  simp only [List.flatMap_append, ← List.append_assoc]
  exact (members.append locals).perm (.refl _) (.refl _)
    ((flatMap_slots_perm d.members).append_right _) ((flatMap_slots_perm ms).append_right _)

/-- Declaring a type gives handles to it and to all types and fields inside it. -/
theorem declareType_done {levels : Nat} {qualifier : Option String} {outer : Option TypeId}
    {d d' : TypeDecl} {s s' : State}
    (run : declareType levels qualifier outer d s = (.done d', s')) :
    Declares s.table s'.table d.heads d'.heads d.allSlots d'.allSlots := by
  induction levels generalizing qualifier outer d d' s s' with
  | zero => exact absurd run Edit.stop_ne_done
  | succ levels ih =>
    obtain ⟨⟨d₁, id⟩, s₁, hhead, hcontents⟩ := Edit.andThen_eq_done.mp run
    obtain ⟨members, head⟩ := declareHead_done hhead
    obtain ⟨sameHead, contents⟩ := declareContents_done (fun _ _ _ _ _ run => ih run) hcontents
    have inner : d₁.inner = d.inner := by
      rw [TypeDecl.inner, TypeDecl.inner, TypeDecl.memberTypes, TypeDecl.memberTypes, members]
    have slots : d₁.allSlots = d.allSlots := by
      rw [TypeDecl.allSlots_eq, TypeDecl.allSlots_eq, inner, TypeDecl.slots, TypeDecl.slots,
        members]
    rw [inner, slots] at contents
    rw [TypeDecl.heads_eq, TypeDecl.heads_eq d', sameHead]
    exact head.append contents

end Binding

end ClassInit
