import ClassInit.Document.Decl
import ClassInit.Proofs.Document.Leaves
import ClassInit.Proofs.Number.Floats

/-!
# Readers that yield leaves that fit

What is read from a plain value has leaves that a document can hold, if the reader `Yields` such
leaves: its handles are 32-bit numbers, and its floats were rounded from decimals, so they are
finite. Readers of fields, lists and tagged values yield them if the readers of the parts do.
-/

set_option autoImplicit false

namespace ClassInit

namespace Json

mutual

/-- Every number is an integer or a decimal, as it is in what is read from a text. -/
def IsPlain : Json → Prop
  | float32 _ | float64 _ => False
  | arr js => ArePlain js
  | obj fs => ArePlainFields fs
  | null | bool _ | int _ | decimal _ | str _ | unreadable => True

def ArePlain : List Json → Prop
  | [] => True
  | j :: js => j.IsPlain ∧ ArePlain js

def ArePlainFields : List (String × Json) → Prop
  | [] => True
  | (_, j) :: fs => j.IsPlain ∧ ArePlainFields fs

end

end Json

namespace Leaf

/-- A document can hold the leaf. -/
def Fits (l : Leaf) : Prop := l.IsFinite ∧ l.IsWord

/-- Documents can hold all the leaves. -/
def AllFit (ls : List Leaf) : Prop := ∀ l ∈ ls, l.Fits

@[simp]
theorem allFit_nil : AllFit [] := fun _ none => nomatch none

/-- A part of a document fits if its parts do. -/
@[simp]
theorem allFit_append {ls ms : List Leaf} : AllFit (ls ++ ms) ↔ AllFit ls ∧ AllFit ms :=
  List.forall_mem_append

theorem AllFit.append {ls ms : List Leaf} (left : AllFit ls) (right : AllFit ms) :
    AllFit (ls ++ ms) :=
  allFit_append.mpr ⟨left, right⟩

end Leaf

open Json Leaf

/-! ## Readers -/

namespace Json

/-- Documents can hold the leaves of what is read from plain values. -/
def Yields {α : Type} (read : Json → Option α) (leaves : α → List Leaf) : Prop :=
  ∀ ⦃j a⦄, j.IsPlain → read j = some a → AllFit (leaves a)

theorem isPlain_of_mem_fields {f : String × Json} {fs : List (String × Json)}
    (plain : ArePlainFields fs) (listed : f ∈ fs) : f.2.IsPlain := by
  induction fs with
  | nil => cases listed
  | cons g gs ih =>
    rcases List.mem_cons.mp listed with rfl | listed
    · exact plain.1
    · exact ih plain.2 listed

/-- The fields of a plain object hold plain values, also where an object is read as fields. -/
theorem isPlain_fields? {j : Json} {fs : List (String × Json)} (plain : j.IsPlain)
    (object : j.fields? = some fs) : ArePlainFields fs := by
  unfold fields? at object
  split at object
  · cases object
    exact plain
  · cases object

/-- The data of a tagged case in a plain value is plain. -/
theorem isPlain_case? {j data : Json} {tag : String} (plain : j.IsPlain)
    (case : j.case? = some (tag, some data)) : data.IsPlain := by
  unfold case? at case
  split at case
  · cases case
  · cases case
    exact plain.1
  · cases case

/-- A field that is found by its name is one of the fields. -/
theorem isPlain_of_named {j : Json} {fs : List (String × Json)} {name : String}
    (plain : ArePlainFields fs) (found : named fs name = [j]) : j.IsPlain := by
  have listed : j ∈ named fs name := found ▸ List.mem_singleton_self j
  obtain ⟨f, within, rfl⟩ := List.mem_map.mp listed
  exact isPlain_of_mem_fields plain (List.mem_of_mem_filter within)

/-- Where a chain of readers that succeeds goes through. -/
theorem bind_eq_some {α β : Type} {x : Option α} {f : α → Option β} {b : β} :
    (x >>= f) = some b ↔ ∃ a, x = some a ∧ f a = some b := Option.bind_eq_some_iff

theorem pure_eq_some {α : Type} {a b : α} : (pure a : Option α) = some b ↔ a = b := Option.some_inj

variable {α : Type} {read : Json → Option α} {leaves : α → List Leaf} {fs : List (String × Json)}
  {name : String} {a : α}

namespace Yields

/-- A field that must be there is read with leaves that fit. -/
theorem required (yields : Yields read leaves) (plain : ArePlainFields fs)
    (reads : Json.required fs name read = some a) : AllFit (leaves a) := by
  unfold Json.required at reads
  split at reads
  next j found => exact yields (isPlain_of_named plain found) reads
  next => cases reads

/-- A field that may be missing has leaves that fit if those of its default do. -/
theorem withDefault (yields : Yields read leaves) (plain : ArePlainFields fs) {default : α}
    (reads : Json.withDefault fs name default read = some a) (fits : AllFit (leaves default)) :
    AllFit (leaves a) := by
  unfold Json.withDefault at reads
  split at reads
  next =>
    cases reads
    exact fits
  next j found => exact yields (isPlain_of_named plain found) reads
  next => cases reads

/-- A value that may be null has the leaves of what it holds, or none. -/
theorem nullable (yields : Yields read leaves) :
    Yields (nullable? read) fun a => a.toList.flatMap leaves := by
  intro j a plain reads
  unfold nullable? at reads
  split at reads
  next =>
    cases reads
    exact allFit_nil
  next =>
    obtain ⟨b, one, rfl⟩ := Option.map_eq_some_iff.mp reads
    simpa using yields plain one

/-- A field that may be missing or null has none or those of what it holds. -/
theorem nullableField (yields : Yields read leaves) (plain : ArePlainFields fs) {a : Option α}
    (reads : Json.nullableField fs name read = some a) : AllFit (a.toList.flatMap leaves) :=
  yields.nullable.withDefault plain reads allFit_nil

/-- A handle that may be missing. -/
theorem handle {leaf : α → Leaf} (yields : Yields read fun a => [leaf a])
    (plain : ArePlainFields fs) {a : Option α} (reads : Json.nullableField fs name read = some a) :
    AllFit (a.toList.map leaf) := by
  rw [List.map_eq_flatMap]
  exact yields.nullableField plain reads

/-- What is read from each of several values has leaves that fit. -/
theorem mapM (yields : Yields read leaves) {js : List Json} {as : List α} (plain : ArePlain js)
    (reads : js.mapM read = some as) : AllFit (as.flatMap leaves) := by
  induction js generalizing as with
  | nil =>
    cases reads
    exact allFit_nil
  | cons j js ih =>
    rw [List.mapM_cons] at reads
    simp only [bind_eq_some, pure_eq_some] at reads
    obtain ⟨b, one, bs, others, rfl⟩ := reads
    exact allFit_append.mpr ⟨yields plain.1 one, ih plain.2 others⟩

/-- A list that is read has the leaves of its items. -/
theorem list (yields : Yields read leaves) : Yields (list? read) fun as => as.flatMap leaves := by
  intro j as plain reads
  unfold list? at reads
  split at reads
  next => exact yields.mapM plain reads
  next => cases reads

/-- Leaves that fit stay so under a map that keeps them. -/
theorem map {β : Type} {parts : β → List Leaf} {f : α → β} (yields : Yields read leaves) {j : Json}
    {b : β} (plain : j.IsPlain) (reads : (read j).map f = some b)
    (same : ∀ a, parts (f a) = leaves a) : AllFit (parts b) := by
  obtain ⟨a, one, rfl⟩ := Option.map_eq_some_iff.mp reads
  rw [same]
  exact yields plain one

end Yields

/-- What has no leaves can stand in every document. -/
theorem allFit_of_leafless {β : Type} {parts : β → List Leaf} {f : α → β} {j : Json} {b : β}
    (reads : (read j).map f = some b) (leafless : ∀ a, parts (f a) = []) : AllFit (parts b) := by
  obtain ⟨a, -, rfl⟩ := Option.map_eq_some_iff.mp reads
  rw [leafless]
  exact allFit_nil

end Json

/-! ## Leaves -/

section

variable {j : Json}

/-- An index is below the number of 32-bit words. -/
theorem Json.index?_lt {n : Nat} (reads : index? j = some n) : n < UInt32.size := by
  obtain ⟨i, one, rfl⟩ := Option.map_eq_some_iff.mp reads
  unfold integer? at one
  split at one
  next =>
    split at one
    next within =>
      cases one
      have most := within.2
      simp only [UInt32.size] at *
      omega
    next => cases one
  next => cases one

/-- Handles are read as 32-bit numbers. -/
theorem Json.index_yields {α : Type} {make : Nat → α} {leaf : α → Leaf}
    (same : ∀ n, leaf (make n) = .handle n) :
    Yields (fun j => (index? j).map make) fun a => [leaf a] := by
  intro j a _ reads
  obtain ⟨n, index, rfl⟩ := Option.map_eq_some_iff.mp reads
  refine List.forall_mem_singleton.mpr ?_
  rw [same]
  exact ⟨trivial, index?_lt index⟩

theorem TypeId.yields : Yields TypeId.ofJson? fun id => [id.leaf] := index_yields fun _ => rfl

theorem VariableId.yields : Yields VariableId.ofJson? fun id => [id.leaf] :=
  index_yields fun _ => rfl

theorem MethodId.yields : Yields MethodId.ofJson? fun id => [id.leaf] := index_yields fun _ => rfl

/-- JSON has no numeral for an infinity or a NaN. -/
theorem Json.isFinite_of_float32? {x : Float32} (plain : j.IsPlain) (reads : float32? j = some x) :
    x.isFinite = true := by
  unfold float32? at reads
  split at reads
  next => exact Number.Decimal.isFinite_of_toFloat32? reads
  next => exact Number.Decimal.isFinite_of_toFloat32? reads
  next => exact plain.elim
  next => exact plain.elim
  next => cases reads

/-- The same for 64-bit floats. -/
theorem Json.isFinite_of_float64? {x : Float} (plain : j.IsPlain) (reads : float64? j = some x) :
    x.isFinite = true := by
  unfold float64? at reads
  split at reads
  next => exact Number.Decimal.isFinite_of_toFloat? reads
  next => exact Number.Decimal.isFinite_of_toFloat? reads
  next => exact plain.elim
  next => cases reads

end

/-- The numbers in literals fit: integers by their range, floats by being finite. -/
theorem Literal.number_yields : Yields Literal.numberOfJson? Literal.leaves := by
  intro j v plain reads
  unfold numberOfJson? at reads
  split at reads
  next => exact allFit_of_leafless reads fun _ => rfl
  next => exact allFit_of_leafless reads fun _ => rfl
  next single =>
    obtain ⟨x, one, rfl⟩ := Option.map_eq_some_iff.mp reads
    exact List.forall_mem_singleton.mpr ⟨isFinite_of_float32? (isPlain_case? plain single) one,
      trivial⟩
  next double =>
    obtain ⟨x, one, rfl⟩ := Option.map_eq_some_iff.mp reads
    exact List.forall_mem_singleton.mpr ⟨isFinite_of_float64? (isPlain_case? plain double) one,
      trivial⟩
  next => cases reads

/-- Every literal that is read has leaves that fit. -/
theorem Literal.yields : Yields Literal.ofJson? Literal.leaves := by
  intro j v plain reads
  unfold Literal.ofJson? at reads
  split at reads
  next => exact allFit_of_leafless reads fun _ => rfl
  next => exact allFit_of_leafless reads fun _ => rfl
  next =>
    cases reads
    exact allFit_nil
  next =>
    cases reads
    exact allFit_nil
  next number => exact Literal.number_yields (isPlain_case? plain number) reads
  next => exact allFit_of_leafless reads fun _ => rfl
  next => cases reads

theorem TypeName.yields : Yields TypeName.ofJson? TypeName.leaves := by
  intro j n plain reads
  simp only [TypeName.ofJson?, bind_eq_some, pure_eq_some] at reads
  obtain ⟨fs, object, name, -, id, binding, rfl⟩ := reads
  exact TypeId.yields.handle (isPlain_fields? plain object) binding

/-- Types are read level by level; the induction is on the levels that are left. -/
theorem TypeRef.read_yields : ∀ fuel, Yields (TypeRef.read fuel) TypeRef.leaves
  | 0 => fun _ _ _ reads => nomatch reads
  | fuel + 1 => by
    intro j t plain reads
    unfold TypeRef.read at reads
    split at reads
    next => exact allFit_of_leafless reads fun _ => rfl
    next declared => exact TypeName.yields.map (isPlain_case? plain declared) reads fun _ => rfl
    next array => exact (TypeRef.read_yields fuel).map (isPlain_case? plain array) reads fun _ =>
      rfl
    next =>
      cases reads
      exact allFit_nil
    next =>
      cases reads
      exact allFit_nil
    next => cases reads

theorem TypeRef.yields : Yields TypeRef.ofJson? TypeRef.leaves := fun _ _ plain reads =>
  TypeRef.read_yields _ plain reads

end ClassInit
