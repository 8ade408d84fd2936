import ClassInit.Proofs.Binding.Bodies
import ClassInit.Proofs.Binding.Filling

/-!
# What declaring goes through

Declaring a type goes through the declarations inside it: `TypeDecl.listing` has the heads of its
types, its fields and its methods, each in the order in which they are entered. Handles that were
there are kept, and the new ones come one after the other (`Allocated`).
-/

set_option autoImplicit false

namespace ClassInit

open Binding

/-- The index of the handle. -/
def MethodHead.key (h : MethodHead) : Option Nat := h.binding.map (·.index)

/-! ## What declaring goes through -/

/-- Heads of types, fields and methods, as far as declaring has to do with them. -/
structure Listing where
  heads : List TypeHead
  fields : List VariableSlot
  methods : List MethodHead

namespace Listing

def append (a b : Listing) : Listing :=
  ⟨a.heads ++ b.heads, a.fields ++ b.fields, a.methods ++ b.methods⟩

instance : Append Listing := ⟨append⟩

theorem mk_append_mk (hs hs' : List TypeHead) (fs fs' : List VariableSlot)
    (ms ms' : List MethodHead) :
    (⟨hs, fs, ms⟩ ++ ⟨hs', fs', ms'⟩ : Listing) = ⟨hs ++ hs', fs ++ fs', ms ++ ms'⟩ := rfl

/-- What stands in the items of a list. -/
def flatMap {α : Type} (f : α → Listing) (as : List α) : Listing :=
  ⟨as.flatMap fun a => (f a).heads, as.flatMap fun a => (f a).fields, as.flatMap fun a =>
    (f a).methods⟩

/-- The types themselves, with their fields and methods. -/
def ofTypes (ds : List TypeDecl) : Listing :=
  ⟨ds.map (·.head), ds.flatMap (·.contents.fields), ds.flatMap (·.contents.methods)⟩

/-- The fields and methods of a piece of a tree, outside the types inside it. -/
def ofContents (c : Contents) : Listing := ⟨[], c.fields, c.methods⟩

/-- Both list the same, perhaps in another order. -/
structure Alike (a b : Listing) : Prop where
  heads : a.heads.Perm b.heads
  fields : a.fields.Perm b.fields
  methods : a.methods.Perm b.methods

theorem Alike.refl (a : Listing) : a.Alike a := ⟨.refl _, .refl _, .refl _⟩

theorem Alike.symm {a b : Listing} (same : a.Alike b) : b.Alike a :=
  ⟨same.heads.symm, same.fields.symm, same.methods.symm⟩

theorem Alike.trans {a b c : Listing} (first : a.Alike b) (second : b.Alike c) : a.Alike c :=
  ⟨first.heads.trans second.heads, first.fields.trans second.fields,
    first.methods.trans second.methods⟩

/-- Listings that have the same entries in some order may be put together. -/
theorem Alike.append {a b c d : Listing} (first : a.Alike b) (second : c.Alike d) :
    (a ++ c).Alike (b ++ d) :=
  ⟨first.heads.append second.heads, first.fields.append second.fields,
    first.methods.append second.methods⟩

/-- Going through a list twice lists the same as going through it once. -/
theorem flatMap_append_alike {α : Type} (f g : α → Listing) (as : List α) :
    (flatMap f as ++ flatMap g as).Alike (flatMap (fun a => f a ++ g a) as) :=
  ⟨List.flatMap_append_perm as _ _, List.flatMap_append_perm as _ _,
    List.flatMap_append_perm as _ _⟩

/-- The listing of several types, group by group. -/
theorem ofTypes_flatMap {α : Type} (f : α → List TypeDecl) (as : List α) :
    ofTypes (as.flatMap f) = flatMap (fun a => ofTypes (f a)) as := by
  simp only [ofTypes, flatMap, List.map_flatMap, List.flatMap_assoc]

/-- Lists whose items have equal listings have equal listings. -/
theorem flatMap_of_forall₂ {α β : Type} {f : α → Listing} {g : β → Listing} {as : List α}
    {bs : List β} (same : List.Forall₂ (fun a b => g b = f a) as bs) :
    flatMap g bs = flatMap f as := by
  induction same with
  | nil => rfl
  | cons one _ ih =>
    obtain ⟨heads, fields, methods⟩ := Listing.mk.inj ih
    simp only [flatMap, List.flatMap_cons, one, heads, fields, methods]

end Listing

/-- The fields and methods of two pieces, one after the other. -/
theorem Listing.ofContents_append (c d : Contents) :
    Listing.ofContents (c ++ d) = .ofContents c ++ .ofContents d := rfl

/-- Locals are not declared with the fields. -/
theorem Fragment.ofContents_contentsOf (type : TypeRef) (modifiers : Modifiers)
    (fs : List Fragment) :
    Listing.ofContents (Fragment.contentsOf type modifiers fs) = ⟨[], [], []⟩ := by
  induction fs with
  | nil => rfl
  | cons f fs ih => exact ih

theorem Parameter.ofContents_contentsOf (ps : List Parameter) :
    Listing.ofContents (Parameter.contentsOf ps) = ⟨[], [], []⟩ := by
  induction ps with
  | nil => rfl
  | cons p ps ih => exact ih

mutual

/-- A statement declares neither fields nor methods outside the types inside it. -/
theorem Stmt.ofContents_contents : ∀ s : Stmt, Listing.ofContents s.contents = ⟨[], [], []⟩
  | .block _ ⟨_, ss⟩ => Stmt.ofContents_contentsOf ss
  | .ifElse _ _ t none => Stmt.ofContents_contents t
  | .ifElse _ c t (some e) => by
    rw [Stmt.contents, Listing.ofContents_append, Listing.ofContents_append,
      Stmt.ofContents_contents t, Stmt.ofContents_contents e]
    rfl
  | .whileLoop _ _ b => Stmt.ofContents_contents b
  | .forLoop _ init _ _ b => by
    rw [Stmt.contents, Listing.ofContents_append, Listing.ofContents_append,
      Listing.ofContents_append, Stmt.ofContents_contentsOf init, Stmt.ofContents_contents b]
    rfl
  | .tryCatch _ ⟨_, ss⟩ cs none => by
    rw [Stmt.contents, Listing.ofContents_append, Stmt.ofContents_contentsOf ss,
      CatchClause.ofContents_contentsOf cs]
    rfl
  | .tryCatch _ ⟨_, ss⟩ cs (some ⟨_, fs⟩) => by
    rw [Stmt.contents, Listing.ofContents_append, Listing.ofContents_append,
      Stmt.ofContents_contentsOf ss, CatchClause.ofContents_contentsOf cs,
        Stmt.ofContents_contentsOf fs]
    rfl
  | .localVariable _ m t fs => Fragment.ofContents_contentsOf t m fs
  | .localType .. => rfl
  | .expression .. => rfl
  | .returnValue .. => rfl
  | .throwValue .. => rfl
  | .superCall .. => rfl
  | .thisCall .. => rfl
  | .empty _ => rfl

/-- Statements declare neither fields nor methods of the type around them. -/
theorem Stmt.ofContents_contentsOf : ∀ ss : List Stmt,
    Listing.ofContents (Stmt.contentsOf ss) = ⟨[], [], []⟩
  | [] => rfl
  | s :: ss => by
    rw [Stmt.contentsOf, Listing.ofContents_append, Stmt.ofContents_contents s,
      Stmt.ofContents_contentsOf ss]
    rfl

theorem CatchClause.ofContents_contentsOf : ∀ cs : List CatchClause,
    Listing.ofContents (CatchClause.contentsOf cs) = ⟨[], [], []⟩
  | [] => rfl
  | ⟨_, x, ⟨_, ss⟩⟩ :: cs => by
    rw [CatchClause.contentsOf, Listing.ofContents_append, Listing.ofContents_append,
      Stmt.ofContents_contentsOf ss, CatchClause.ofContents_contentsOf cs]
    rfl

end

/-- A method declares itself. -/
theorem Member.ofContents_method (h : MethodHead) (body : Option Block) :
    Listing.ofContents (Member.method ⟨h, body⟩).contents = ⟨[], [], [h]⟩ := by
  rcases body with _ | ⟨i, ss⟩
  · rw [Member.contents, Listing.ofContents_append, Parameter.ofContents_contentsOf]
    rfl
  · rw [Member.contents, Listing.ofContents_append, Listing.ofContents_append,
      Parameter.ofContents_contentsOf, Stmt.ofContents_contentsOf]
    rfl

theorem Member.ofContents_initializer (i : InitializerDecl) :
    Listing.ofContents (Member.initializer i).contents = ⟨[], [], []⟩ := by
  obtain ⟨_, _, ⟨_, ss⟩⟩ := i
  exact Stmt.ofContents_contentsOf ss

/-- What declaring a member goes through first. -/
def Member.listing (m : Member) : Listing :=
  .ofContents m.contents ++ .ofTypes (m.asType.toList.flatMap TypeDecl.preorder)

/-- What declaring the local types of a member goes through. -/
def Member.bodyListing (m : Member) : Listing := .ofTypes (m.localTypes.flatMap TypeDecl.preorder)

/-- Members are listed one by one. -/
theorem Member.ofContents_contentsOf (ms : List Member) :
    Listing.ofContents (Member.contentsOf ms) = .flatMap (fun m => .ofContents m.contents) ms := by
  induction ms with
  | nil => rfl
  | cons m ms ih =>
    obtain ⟨-, fields, methods⟩ := Listing.mk.inj ih
    rw [Member.contentsOf, Listing.flatMap, List.flatMap_cons, List.flatMap_cons, List.flatMap_cons,
      ← fields, ← methods]
    simp [Listing.ofContents]

/-- The fields of a type are those of its members. -/
theorem TypeDecl.mem_contents_fields {d : TypeDecl} {l : VariableSlot} :
    l ∈ d.contents.fields ↔ ∃ m ∈ d.members, l ∈ m.contents.fields := by
  have all := congrArg Listing.fields (Member.ofContents_contentsOf d.members)
  rw [← List.mem_flatMap]
  exact iff_of_eq (congrArg (l ∈ ·) all)

/-- The methods of a type are those among its members. -/
theorem TypeDecl.mem_contents_methods {d : TypeDecl} {h : MethodHead} :
    h ∈ d.contents.methods ↔ ∃ m ∈ d.members, h ∈ m.contents.methods := by
  have all := congrArg Listing.methods (Member.ofContents_contentsOf d.members)
  rw [← List.mem_flatMap]
  exact iff_of_eq (congrArg (h ∈ ·) all)

/-- Declaring goes through the types of a walk, the members of a type before its bodies. -/
theorem TypeDecl.listing_alike (d : TypeDecl) :
    (⟨[d.head], [], []⟩ ++ (Listing.flatMap Member.listing d.members ++
      .flatMap Member.bodyListing d.members)).Alike (.ofTypes d.preorder) := by
  have members : (Listing.flatMap Member.listing d.members ++
      .flatMap Member.bodyListing d.members).Alike
      (.ofContents d.contents ++ .ofTypes d.contents.types) := by
    have inner :
        d.contents.types = d.members.flatMap fun m => m.inner.flatMap TypeDecl.preorder := by
      rw [d.contents_nests.types, List.flatMap_assoc]
    rw [inner, Listing.ofTypes_flatMap]
    have own :
        Listing.ofContents d.contents = .flatMap (fun m => .ofContents m.contents) d.members :=
      Member.ofContents_contentsOf d.members
    rw [own]
    refine (Listing.flatMap_append_alike _ _ _).trans
      (.trans ?_ (Listing.flatMap_append_alike _ _ _).symm)
    have one : ∀ m : Member, m.listing ++ m.bodyListing =
        .ofContents m.contents ++ .ofTypes (m.inner.flatMap TypeDecl.preorder) := by
      intro m
      simp only [Member.listing, Member.bodyListing, Listing.ofTypes, Listing.ofContents,
        Member.inner, Listing.mk_append_mk, List.flatMap_append, List.map_append, List.append_assoc]
    simp only [one]
    exact .refl _
  rw [TypeDecl.preorder_cons]
  exact (Listing.Alike.refl _).append members

/-- The second table has the entries of the first as they are, and others after them. -/
structure BindingTable.Precedes (t t' : BindingTable) : Prop where
  types : t.types.toList <+: t'.types.toList
  vars : t.vars.toList <+: t'.vars.toList
  methods : t.methods.toList <+: t'.methods.toList

namespace BindingTable.Precedes

variable {t t' t'' : BindingTable}

theorem refl (t : BindingTable) : t.Precedes t :=
  ⟨List.prefix_rfl, List.prefix_rfl, List.prefix_rfl⟩

/-- What comes first in the table still does after more was added. -/
theorem trans (first : t.Precedes t') (second : t'.Precedes t'') : t.Precedes t'' :=
  ⟨first.types.trans second.types, first.vars.trans second.vars,
    first.methods.trans second.methods⟩

theorem pushType (t : BindingTable) (d : TypeDescriptor) : t.Precedes (t.pushType d).2 :=
  ⟨⟨[d], Array.toList_push.symm⟩, List.prefix_rfl, List.prefix_rfl⟩

theorem addVariable (t : BindingTable) (v : VariableBinding) : t.Precedes (t.addVariable v).2 :=
  ⟨List.prefix_rfl, ⟨[v], Array.toList_push.symm⟩, List.prefix_rfl⟩

theorem addMethod (t : BindingTable) (m : MethodBinding) : t.Precedes (t.addMethod m).2 :=
  ⟨List.prefix_rfl, List.prefix_rfl, ⟨[m], Array.toList_push.symm⟩⟩

end BindingTable.Precedes

/-- Adding a type adds it as the last one, and before it at most the class of all enums. -/
theorem BindingTable.addType_adds (t : BindingTable) (d : TypeDescriptor) :
    t.Precedes (t.addType d).2 ∧
      (t.addType d).2.vars = t.vars ∧ (t.addType d).2.methods = t.methods ∧
      (t.addType d).2.types.size = (t.addType d).1.index + 1 ∧
      ∀ i, t.types.size ≤ i → i < (t.addType d).1.index →
        ∃ superclass, (t.addType d).2.types[i]? =
          some { external Names.enumType with superclass } := by
  -- In every case the type is pushed last.
  have last : ∀ (t₁ : BindingTable) (d : TypeDescriptor),
      (t₁ = t ∨ ∃ superclass, t₁ = (t.pushType { external Names.enumType with superclass }).2) →
        t.Precedes (t₁.pushType d).2 ∧
          (t₁.pushType d).2.vars = t.vars ∧ (t₁.pushType d).2.methods = t.methods ∧
          (t₁.pushType d).2.types.size = (t₁.pushType d).1.index + 1 ∧
          ∀ i, t.types.size ≤ i → i < (t₁.pushType d).1.index → ∃ superclass,
            (t₁.pushType d).2.types[i]? = some { external Names.enumType with superclass } := by
    rintro t₁ d (rfl | ⟨superclass, rfl⟩)
    · exact ⟨.pushType _ d, rfl, rfl, Array.size_push _,
        fun i low high => absurd high (Nat.not_lt_of_le low)⟩
    · refine ⟨.trans (.pushType t _) (.pushType _ d), rfl, rfl, Array.size_push _,
        fun i low high => ⟨superclass, ?_⟩⟩
      have only : i < t.types.size + 1 := Nat.lt_of_lt_of_eq high (Array.size_push _)
      obtain rfl : i = t.types.size := by omega
      have below : t.types.size <
        (t.types.push { external Names.enumType with superclass }).size := high
      show ((t.types.push { external Names.enumType with superclass }).push d)[t.types.size]? = _
      rw [Array.getElem?_push_lt below, ← Array.getElem?_eq_getElem below, Array.getElem?_push_size]
  unfold addType
  split
  · rename_i rooted
    split
    · rw [addClass, if_pos rooted]
      exact last t _ (.inl rfl)
    · rcases t.internClass_cases Names.enumType with ⟨id, -, same⟩ | ⟨superclass, -, -, pushed⟩
      · exact last _ _ (.inl (congrArg Prod.snd same))
      · exact last _ _ (.inr ⟨superclass, congrArg Prod.snd pushed⟩)
    · exact last t _ (.inl rfl)
    · exact last t _ (.inl rfl)
  · exact last t _ (.inl rfl)

/-- The second table has the entries of the first, up to superclasses of types, and others after
them. -/
structure BindingTable.Continues (t t' : BindingTable) : Prop where
  grown : t.Extends t'
  methods : t.methods.toList <+: t'.methods.toList

namespace BindingTable.Continues

variable {t t' t'' : BindingTable}

theorem refl (t : BindingTable) : t.Continues t := ⟨.refl t, List.prefix_rfl⟩

theorem trans (first : t.Continues t') (second : t'.Continues t'') : t.Continues t'' :=
  ⟨first.grown.trans second.grown, first.methods.trans second.methods⟩

end BindingTable.Continues

/-- The second type is the first with handles filled in, and so are the types inside. -/
def TypeDecl.AllFillsTo (d d' : TypeDecl) : Prop :=
  List.Forall₂ TypeDecl.FillsTo d.preorder d'.preorder

/-- If all of a type is filled in, so is its head. -/
theorem TypeDecl.AllFillsTo.head {d d' : TypeDecl} (filled : d.AllFillsTo d') :
    d.head.FillsTo d'.head := by
  unfold AllFillsTo at filled
  rw [preorder_cons, preorder_cons] at filled
  exact (List.forall₂_cons.mp filled).1.head

/-- Members are filled in one by one. -/
theorem Member.contentsOf_fills {ms ms' : List Member}
    (filled : List.Forall₂ (fun m m' => m.contents.FillsTo m'.contents) ms ms') :
    (Member.contentsOf ms).FillsTo (Member.contentsOf ms') := by
  induction filled with
  | nil => exact .refl _
  | cons one _ ih => exact one.append ih

end ClassInit
