import ClassInit.Proofs.Binding.Inheritance
import ClassInit.Proofs.Binding.LocalClasses

/-!
# What handles refer to

A handle refers to an entry of the table (`Handle.entry?`), and a handle dangles if the table has no
entry for it. Declaring keeps the handles that a tree brings along, and the new ones have entries
(`declareType_traces`).
-/

set_option autoImplicit false

namespace ClassInit

open Binding

/-! ## What handles refer to -/

/-- An entry of a table. -/
inductive EntryId where
  | ofType (id : TypeId)
  | ofVariable (id : VariableId)
  | ofMethod (id : MethodId)
deriving DecidableEq

/-- The entry that the handle in a place refers to. -/
def Handle.entry? : Handle → Option EntryId
  | .ofType _ id => id.map .ofType
  | .ofVariable _ id => id.map .ofVariable
  | .ofMethod _ id => id.map .ofMethod

def BindingTable.Has (t : BindingTable) : EntryId → Prop
  | .ofType id => id.index < t.types.size
  | .ofVariable id => id.index < t.vars.size
  | .ofMethod id => id.index < t.methods.size

instance (t : BindingTable) (e : EntryId) : Decidable (t.Has e) := by
  cases e <;> exact inferInstanceAs (Decidable (_ < _))

/-- The entries that a type refers to, outside the types inside it. -/
def TypeDecl.entryIds (d : TypeDecl) : List EntryId := d.handles.filterMap Handle.entry?

def CompilationUnit.entryIds (u : CompilationUnit) : List EntryId :=
  u.preorder.flatMap TypeDecl.entryIds

/-- The second unit, with the table, is the first with handles filled in, and refers to no entry
that the table lacks but where the first unit does. -/
structure CompilationUnit.TracedTo (u u' : CompilationUnit) (t' : BindingTable) : Prop where
  /-- Every type declaration has the handle of an entry. -/
  declarations : ∀ d ∈ u'.preorder, ∃ id, d.head.binding = some id ∧ t'.Has (.ofType id)
  kept : List.Forall₂ (fun d d' => List.Forall₂ Handle.Keeps d.handles d'.handles) u.preorder
    u'.preorder
  handles : ∀ e ∈ u'.entryIds, t'.Has e ∨ e ∈ u.entryIds
  superclasses : ∀ d ∈ t'.types, ∀ p ∈ d.superclass, t'.Has (.ofType p) ∨ .ofType p ∈ u.entryIds
  /-- So nothing dangles exactly if no handle of the first unit does. -/
  sound : (∀ e ∈ u.entryIds, t'.Has e) ↔
    (∀ e ∈ u'.entryIds, t'.Has e) ∧ ∀ d ∈ t'.types, ∀ p ∈ d.superclass, t'.Has (.ofType p)

/-- The second table has all the entries that the first has. -/
def BindingTable.Within (t t' : BindingTable) : Prop := ∀ e, t.Has e → t'.Has e

/-- If the handle is there, it refers to an entry as described. -/
def Handle.Refers (P : EntryId → Prop) (h : Handle) : Prop := ∀ e ∈ h.entry?, P e

/-- All handles of the piece, those in the types inside it included, refer to entries as
described. -/
structure Contents.Refers (P : EntryId → Prop) (c : Contents) : Prop where
  own : ∀ h ∈ c.handles, h.Refers P
  types : ∀ d ∈ c.types, ∀ h ∈ d.handles, h.Refers P

theorem BindingTable.Within.trans {a b c : BindingTable} (first : a.Within b)
    (second : b.Within c) : a.Within c :=
  fun e has => second e (first e has)

/-- A table has the entries of every smaller one, since handles are indices. -/
theorem BindingTable.Within.of_sizes {t t' : BindingTable} (types : t.types.size ≤ t'.types.size)
    (more : t.vars.size ≤ t'.vars.size) (methods : t.methods.size ≤ t'.methods.size) :
    t.Within t' := by
  rintro (id | id | id) has
  · exact Nat.lt_of_lt_of_le has types
  · exact Nat.lt_of_lt_of_le has more
  · exact Nat.lt_of_lt_of_le has methods

theorem BindingTable.Continues.within {t t' : BindingTable} (continues : t.Continues t') :
    t.Within t' :=
  .of_sizes continues.grown.moreTypes continues.grown.moreVariables continues.methods.length_le

/-- What handles refer to may be weakened. -/
theorem Handle.Refers.imp {P Q : EntryId → Prop} {h : Handle} (refers : h.Refers P)
    (weaker : ∀ e, P e → Q e) :
    h.Refers Q := fun e he => weaker e (refers e he)

namespace Contents.Refers

variable {P Q : EntryId → Prop} {c d : Contents}

theorem empty : Contents.empty.Refers P :=
  ⟨fun _ hh => absurd hh List.not_mem_nil, fun _ hd => absurd hd List.not_mem_nil⟩

theorem ofHandles {hs : List Handle} (refers : ∀ h ∈ hs, h.Refers P) :
    (Contents.ofHandles hs).Refers P :=
  ⟨refers, fun _ hd => absurd hd List.not_mem_nil⟩

/-- Pieces refer to what they should if each part does. -/
theorem append (first : c.Refers P) (second : d.Refers P) : (c ++ d).Refers P :=
  ⟨List.forall_mem_append.mpr ⟨first.own, second.own⟩,
    List.forall_mem_append.mpr ⟨first.types, second.types⟩⟩

theorem left (both : (c ++ d).Refers P) : c.Refers P :=
  ⟨(List.forall_mem_append.mp both.own).1, (List.forall_mem_append.mp both.types).1⟩

theorem right (both : (c ++ d).Refers P) : d.Refers P :=
  ⟨(List.forall_mem_append.mp both.own).2, (List.forall_mem_append.mp both.types).2⟩

theorem imp (refers : c.Refers P) (weaker : ∀ e, P e → Q e) : c.Refers Q :=
  ⟨fun h hh => (refers.own h hh).imp weaker, fun d hd h hh => (refers.types d hd h hh).imp weaker⟩

end Contents.Refers

/-- The handles in a type are those of its enum constants and those in its members. -/
theorem TypeDecl.mem_contents_handles {d : TypeDecl} {h : Handle} :
    h ∈ d.contents.handles ↔ h ∈ d.head.constantHandles ∨
      ∃ m ∈ d.members, h ∈ m.contents.handles := by
  have members : ∀ ms : List Member, h ∈ (Member.contentsOf ms).handles ↔
      ∃ m ∈ ms, h ∈ m.contents.handles := by
    intro ms
    induction ms with
    | nil =>
      exact ⟨fun hh => absurd hh List.not_mem_nil, fun ⟨_, hm, _⟩ => absurd hm List.not_mem_nil⟩
    | cons m ms ih =>
      rw [Member.contentsOf, Contents.handles_append, List.mem_append, ih, List.exists_mem_cons_iff]
  rw [TypeDecl.contents, Contents.handles_append, List.mem_append, members]
  rfl

theorem TypeDecl.mem_entryIds {d : TypeDecl} {e : EntryId} :
    e ∈ d.entryIds ↔ ∃ h ∈ d.handles, e ∈ h.entry? :=
  List.mem_filterMap

/-- A field that is found has an entry. -/
theorem BindingTable.lt_of_findField {t : BindingTable} {owner : TypeId} {name : String}
    {v : VariableId} (found : t.findField owner name = some v) : v.index < t.vars.size := by
  obtain ⟨p, -, declared⟩ := BindingTable.findField_eq_some.mp found
  obtain ⟨b, entry, -⟩ := BindingTable.declaredField_eq_some declared
  exact (Array.getElem?_eq_some_iff.mp entry).1

/-! ## Declaring -/

namespace Binding

theorem Enters.within {s s' : State} {c c' : Listing} (enters : Enters s s' c c') :
    s.table.Within s'.table :=
  .of_sizes enters.grown.moreTypes enters.grown.moreVariables enters.kept.methods.length_le

/-- Every handle was there before, or refers to an entry of the table. -/
def Traces (t : BindingTable) (hs hs' : List Handle) : Prop := ∀ h ∈ hs', h ∈ hs ∨ h.Refers t.Has

namespace Traces

variable {t t' : BindingTable} {hs hs' ks ks' : List Handle}

theorem refl (t : BindingTable) (hs : List Handle) : Traces t hs hs := fun _ => .inl

/-- A larger table traces the same handles. -/
theorem later (traces : Traces t hs hs') (within : t.Within t') : Traces t' hs hs' :=
  fun h hh => (traces h hh).imp_right fun refers => refers.imp within

theorem append (first : Traces t hs hs') (second : Traces t ks ks') :
    Traces t (hs ++ ks) (hs' ++ ks') := by
  intro h hh
  rcases List.mem_append.mp hh with hh | hh
  · exact (first h hh).imp_left (List.mem_append_left _)
  · exact (second h hh).imp_left (List.mem_append_right _)

end Traces

/-- A field keeps its handle or gets one with an entry. -/
theorem declareFragment_traces (owner : TypeId) (modifiers : Modifiers) (type : TypeRef)
    (f : Fragment) (s : State) :
    Traces (declareFragment owner modifiers type f s).2.table f.handles
      (declareFragment owner modifiers type f s).1.handles := by
  obtain ⟨span, name, initializer, _ | v⟩ := f
  · refine Traces.append (.refl _ _) fun h hh => .inr ?_
    rw [List.mem_singleton.mp hh]
    rintro e ⟨⟩
    exact Nat.lt_of_lt_of_eq (Nat.lt_succ_self _) (Array.size_push _).symm
  · exact .refl _ _

/-- So do all fields of a declaration. -/
theorem declareField_traces (owner : TypeId) (isInterfaceLike : Bool) (f : FieldDecl) (s : State) :
    Traces (declareField owner isInterfaceLike f s).2.table f.contents.handles
      (declareField owner isInterfaceLike f s).1.contents.handles := by
  have fragments : ∀ (modifiers : Modifiers) (fs : List Fragment) (s : State),
      Traces (fs.mapM (declareFragment owner modifiers f.type) s).2.table
        (fs.flatMap Fragment.handles)
        ((fs.mapM (declareFragment owner modifiers f.type) s).1.flatMap Fragment.handles) := by
    intro modifiers fs
    induction fs with
    | nil => exact fun s => .refl _ _
    | cons g gs ih =>
      intro s
      rw [mapM_cons_state]
      exact ((declareFragment_traces owner modifiers f.type g s).later
        (declareFragments_enters owner modifiers .empty f.type gs _).within).append (ih _)
  exact fragments _ f.fragments s

/-- So does a method; the handles in its body are not touched. -/
theorem declareMethod_traces (owner : TypeId) (h : MethodHead) (body : Option Block) (s : State) :
    Traces (declareMethod owner h s).2.table (Member.method ⟨h, body⟩).contents.handles
      (Member.method ⟨(declareMethod owner h s).1, body⟩).contents.handles := by
  have parameters := declareMethod_parameters owner h s
  have head : Traces (declareMethod owner h s).2.table h.contents.handles
      (declareMethod owner h s).1.contents.handles := by
    unfold declareMethod
    cases handle : h.binding with
    | some id => exact .refl _ _
    | none =>
      intro k hk
      rw [List.mem_singleton.mp hk]
      refine .inr ?_
      rintro e ⟨⟩
      exact Nat.lt_of_lt_of_eq (Nat.lt_succ_self _) (Array.size_push _).symm
  rcases body with _ | ⟨i, ss⟩
  · rw [Member.contents, Member.contents, parameters]
    exact head.append (.refl _ _)
  · rw [Member.contents, Member.contents, parameters]
    exact (head.append (.refl _ _)).append (.refl _ _)

/-- Declaring a member gives handles of new entries only. -/
theorem declareMember_traces {nested : TypeDecl → Edit State ResolveError TypeDecl} {owner : TypeId}
    {isInterfaceLike : Bool} {m m' : Member} {s s' : State}
    (run : declareMember nested owner isInterfaceLike m s = (.done m', s')) :
    Traces s'.table m.contents.handles m'.contents.handles := by
  cases declareMember_declared run with
  | type => exact .refl _ []
  | field f => exact declareField_traces owner isInterfaceLike f s
  | method h body => exact declareMethod_traces owner h body s
  | initializer i => exact .refl _ _

/-- Declaring a type gives handles of new entries only, to it and to the types inside it. -/
theorem declareType_traces {levels : Nat} {qualifier : Option String} {outer : Option TypeId}
    {d d' : TypeDecl} {s s' : State}
    (run : declareType levels qualifier outer d s = (.done d', s')) :
    Traces s'.table (d.preorder.flatMap TypeDecl.handles)
      (d'.preorder.flatMap TypeDecl.handles) := by
  induction levels generalizing qualifier outer d d' s s' with
  | zero => exact absurd run Edit.stop_ne_done
  | succ levels ih =>
    obtain ⟨⟨d₁, id⟩, s₁, hhead, hcontents⟩ := Edit.andThen_eq_done.mp run
    obtain ⟨head, -, rfl⟩ := declareHead_enters hhead
    obtain ⟨sameHead, -⟩ :=
      declareContents_enters (fun _ _ _ _ _ run => declareType_enters run) hcontents
    obtain ⟨descriptor, -, continues, members, inner⟩ :=
      declareContents_steps (fun _ _ _ _ _ run => declareType_enters run) hcontents
    intro h listed
    obtain ⟨x', hx', hh⟩ := List.mem_flatMap.mp listed
    clear listed
    rw [TypeDecl.preorder_cons] at hx'
    rcases List.mem_cons.mp hx' with rfl | hx'
    · -- The type itself: its head has a handle with an entry, and its members are declared one by
      -- one.
      have own : h ∈ d.handles ∨ h.Refers s'.table.Has := by
        rcases List.mem_append.mp hh with hh | hh
        · rw [sameHead] at hh
          rcases List.mem_cons.mp hh with rfl | hh
          · obtain ⟨id', handle, known⟩ := head.known _ (List.mem_singleton.mpr rfl)
            cases handle
            refine .inr ?_
            rintro e ⟨⟩
            exact continues.within _ known
          · exact .inl (List.mem_append_left _ (List.mem_cons_of_mem _ hh))
        · rcases TypeDecl.mem_contents_handles.mp hh with hh | ⟨m', hm', hh⟩
          · rw [sameHead] at hh
            exact .inl (List.mem_append_right _ (TypeDecl.mem_contents_handles.mpr (.inl hh)))
          · obtain ⟨m, hm, m₁, s₂, s₃, run, later, same⟩ := members m' hm'
            have sameHandles := congrArg Contents.handles same
            replace hh : h ∈ m'.contents.own.handles := hh
            rw [sameHandles] at hh
            refine ((declareMember_traces run).later later.within h hh).imp_left fun old => ?_
            exact List.mem_append_right _ (TypeDecl.mem_contents_handles.mpr (.inr ⟨m, hm, old⟩))
      exact own.imp_left fun old => List.mem_flatMap.mpr ⟨d, d.mem_preorder_self, old⟩
    · obtain ⟨c', hc', hx'⟩ := TypeDecl.mem_contents_types.mp hx'
      obtain ⟨c, hc, s₂, s₃, run, later⟩ := inner c' hc'
      refine ((ih run).later later.within h (List.mem_flatMap.mpr ⟨x', hx', hh⟩)).imp_left
        fun old => ?_
      obtain ⟨x, hx, hh⟩ := List.mem_flatMap.mp old
      replace hc : c ∈ d.inner := hc
      exact List.mem_flatMap.mpr ⟨x, TypeDecl.preorder_subset_of_inner hc hx, hh⟩

end Binding

end ClassInit
