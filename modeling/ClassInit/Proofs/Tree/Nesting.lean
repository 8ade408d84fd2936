import ClassInit.Proofs.Tree.Declarations

/-!
# How deep types nest

A type lies some levels below another one: member types and local types count alike
(`TypeDecl.LiesAt`). Walks over nested types count the levels that are left; a type fits into them
if nothing in it lies deeper (`TypeDecl.fits_iff`).
-/

set_option autoImplicit false

namespace ClassInit

/-- The first type lies in the second, that many levels below it. -/
inductive TypeDecl.LiesAt : TypeDecl → Nat → TypeDecl → Prop where
  | self (d : TypeDecl) : LiesAt d 0 d
  | inside {x c d : TypeDecl} {n : Nat} : c ∈ d.inner → LiesAt x n c → LiesAt x (n + 1) d

/-- The type lies in the unit at that level; a top-level type lies at level zero. -/
def TypeDecl.LiesAtLevel (x : TypeDecl) (n : Nat) (u : CompilationUnit) : Prop :=
  ∃ d ∈ u.types, x.LiesAt n d

/-- The type and the types in it take no more than so many levels. -/
def TypeDecl.Fits : Nat → TypeDecl → Prop
  | 0, _ => False
  | levels + 1, d => ∀ x ∈ d.inner, Fits levels x

/-- A type fits if nothing in it lies too deep. -/
theorem TypeDecl.fits_iff {levels : Nat} {d : TypeDecl} :
    d.Fits levels ↔ ∀ (x : TypeDecl) n, x.LiesAt n d → n < levels := by
  induction levels generalizing d with
  | zero => exact ⟨False.elim, fun shallow => absurd (shallow d 0 (.self d)) (Nat.lt_irrefl 0)⟩
  | succ levels ih =>
    constructor
    · intro fits x n lies
      cases lies with
      | self => exact Nat.succ_pos levels
      | inside hc lies => exact Nat.succ_lt_succ (ih.mp (fits _ hc) _ _ lies)
    · intro shallow c hc
      exact ih.mpr fun x n lies => Nat.lt_of_succ_lt_succ (shallow x (n + 1) (.inside hc lies))

theorem TypeDecl.Fits.mono {m n : Nat} {d : TypeDecl} (fits : d.Fits m) (more : m ≤ n) :
    d.Fits n :=
  fits_iff.mpr fun x k lies => Nat.lt_of_lt_of_le (fits_iff.mp fits x k lies) more

/-- What stands in a type takes no more levels than the type. -/
theorem TypeDecl.Fits.of_mem_declarations {n : Nat} {d x : TypeDecl} (fits : d.Fits n)
    (hx : x ∈ d.declarations) : x.Fits n := by
  induction n generalizing d with
  | zero => exact fits.elim
  | succ n ih =>
    rw [declarations_eq] at hx
    rcases List.mem_cons.mp hx with rfl | hx
    · exact fits
    · obtain ⟨c, hc, hx⟩ := List.mem_flatMap.mp hx
      exact (ih (fits c hc) hx).mono (Nat.le_succ n)

/-- A copy of a type takes as many levels as the type. -/
theorem TypeDecl.Fits.of_erase (h : Option MethodId → Option MethodId) {levels : Nat}
    {d d' : TypeDecl} (fits : d.Fits levels) (same : d.erase h = d'.erase h) : d'.Fits levels := by
  induction levels generalizing d d' with
  | zero => exact fits
  | succ levels ih =>
    intro x' hx'
    -- What stands inside the copy is a copy of what stands inside the type.
    obtain ⟨x, hx, sameInside⟩ := TypeDecl.exists_inner_of_erase h same hx'
    exact ih (fits x hx) sameInside

end ClassInit
