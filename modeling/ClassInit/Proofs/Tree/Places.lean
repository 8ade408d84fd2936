import ClassInit.Proofs.Tree.Declarations
import Mathlib.Data.List.Forall2

/-!
# The places of local types

A statement inside others stands at a place: the positions, from outside in, of the statements that
one goes through to come to it (`Stmt.At`). The listing of local types has exactly one entry for
each place at which a local type stands, in the order of the places, which is the order of the
source (`Stmt.exists_enumerates`).
-/

set_option autoImplicit false

namespace ClassInit

namespace Stmt

/-- The statements directly inside a statement, in source order. A local type has none, since those
inside it belong to the bodies of the type. -/
def parts : Stmt → List Stmt
  | block _ ⟨_, ss⟩ => ss
  | ifElse _ _ t none => [t]
  | ifElse _ _ t (some e) => [t, e]
  | whileLoop _ _ b => [b]
  | forLoop _ init _ _ b => init ++ [b]
  | tryCatch _ ⟨_, ss⟩ cs none => ss ++ cs.flatMap (·.body.statements)
  | tryCatch _ ⟨_, ss⟩ cs (some ⟨_, fs⟩) => ss ++ (cs.flatMap (·.body.statements) ++ fs)
  | localType .. | expression .. | localVariable .. | returnValue .. | throwValue .. | superCall
    .. | thisCall ..
  | empty _ => []

/-- The statement stands at the place below the list. -/
inductive At : List Stmt → List Nat → Stmt → Prop where
  | here {ss : List Stmt} {n : Nat} {s : Stmt} (found : ss[n]? = some s) : At ss [n] s
  | inside {ss : List Stmt} {n : Nat} {s t : Stmt} {p : List Nat} (found : ss[n]? = some s)
    (rest : At s.parts p t) :
      At ss (n :: p) t

variable {s t : Stmt} {ss : List Stmt} {n : Nat} {p : List Nat}

theorem not_at_nil : ¬ At ss [] t := nofun

theorem at_zero : At (s :: ss) (0 :: p) t ↔ p = [] ∧ s = t ∨ At s.parts p t := by
  constructor
  · rintro (found | ⟨found, rest⟩)
    · exact .inl ⟨rfl, Option.some.inj found⟩
    · exact .inr (Option.some.inj found ▸ rest)
  · rintro (⟨rfl, rfl⟩ | rest)
    · exact .here rfl
    · exact .inside rfl rest

theorem at_succ : At (s :: ss) ((n + 1) :: p) t ↔ At ss (n :: p) t := by
  constructor
  · rintro (found | ⟨found, rest⟩)
    · exact .here found
    · exact .inside found rest
  · rintro (found | ⟨found, rest⟩)
    · exact .here found
    · exact .inside found rest

/-! ## Going through the parts -/

section

variable {P : List Stmt → Prop}

mutual

theorem parts_of_cons (nil : P []) (cons : ∀ s ss, P s.parts → P ss → P (s :: ss)) :
    ∀ s : Stmt, P s.parts
  | .block _ ⟨_, ss⟩ => by
    have all := append_of_cons nil cons ss [] nil
    rwa [List.append_nil] at all
  | .ifElse _ _ t none => cons t [] (parts_of_cons nil cons t) nil
  | .ifElse _ _ t (some e) =>
    cons t [e] (parts_of_cons nil cons t) (cons e [] (parts_of_cons nil cons e) nil)
  | .whileLoop _ _ b => cons b [] (parts_of_cons nil cons b) nil
  | .forLoop _ init _ _ b =>
    append_of_cons nil cons init [b] (cons b [] (parts_of_cons nil cons b) nil)
  | .tryCatch _ ⟨_, ss⟩ cs none => by
    have all := append_of_cons nil cons ss _ (bodies_of_cons nil cons cs [] nil)
    rwa [List.append_nil] at all
  | .tryCatch _ ⟨_, ss⟩ cs (some ⟨_, fs⟩) => by
    have last := append_of_cons nil cons fs [] nil
    rw [List.append_nil] at last
    exact append_of_cons nil cons ss _ (bodies_of_cons nil cons cs fs last)
  | .localType .. => nil
  | .expression .. => nil
  | .localVariable .. => nil
  | .returnValue .. => nil
  | .throwValue .. => nil
  | .superCall .. => nil
  | .thisCall .. => nil
  | .empty _ => nil

theorem append_of_cons (nil : P []) (cons : ∀ s ss, P s.parts → P ss → P (s :: ss)) :
    ∀ ss rest : List Stmt, P rest → P (ss ++ rest)
  | [], _, holds => holds
  | s :: ss, rest, holds =>
    cons s (ss ++ rest) (parts_of_cons nil cons s) (append_of_cons nil cons ss rest holds)

theorem bodies_of_cons (nil : P []) (cons : ∀ s ss, P s.parts → P ss → P (s :: ss)) :
    ∀ (cs : List CatchClause) (rest : List Stmt), P rest →
      P (cs.flatMap (·.body.statements) ++ rest)
  | [], _, holds => holds
  | ⟨_, _, ⟨_, ss⟩⟩ :: cs, rest, holds => by
    rw [List.flatMap_cons, List.append_assoc]
    exact append_of_cons nil cons ss _ (bodies_of_cons nil cons cs rest holds)

end

/-- What holds of no statements, and of a list whenever it holds of the parts of its first statement
and of the rest, holds of every list of statements. -/
theorem parts_induction (nil : P []) (cons : ∀ s ss, P s.parts → P ss → P (s :: ss))
    (ss : List Stmt) : P ss := by
  have all := append_of_cons nil cons ss [] nil
  rwa [List.append_nil] at all

end

/-! ## The listing by parts -/

theorem localTypesOf_bodies (cs : List CatchClause) :
    localTypesOf (cs.flatMap (·.body.statements)) = CatchClause.localTypesOf cs := by
  induction cs with
  | nil => rfl
  | cons c cs ih =>
    obtain ⟨span, exception, ⟨i, ss⟩⟩ := c
    rw [List.flatMap_cons, localTypesOf_append, ih, CatchClause.localTypesOf]

/-- The local types of a statement that declares none itself are those of its parts. -/
theorem localTypes_eq_parts (other : ∀ i d, s ≠ .localType i d) :
    s.localTypes = localTypesOf s.parts := by
  fun_cases Stmt.localTypes s <;>
    simp [parts, localTypesOf, localTypesOf_append, localTypesOf_bodies] at other ⊢

/-! ## The listing by places -/

/-- The places are those at which local types stand, from the first to the last, and the listing has
the types that stand there. -/
structure Enumerates (ss : List Stmt) (places : List (List Nat)) : Prop where
  sorted : places.Pairwise (· < ·)
  complete : ∀ p, p ∈ places ↔ ∃ i d, At ss p (.localType i d)
  listed : List.Forall₂ (fun p d => ∃ i, At ss p (.localType i d)) places (localTypesOf ss)

/-- The same place below a list with one more statement at its beginning. -/
def shift : List Nat → List Nat
  | [] => []
  | n :: p => (n + 1) :: p

theorem at_shift : At (s :: ss) (shift p) t ↔ At ss p t := by
  cases p with
  | nil => exact iff_of_false not_at_nil not_at_nil
  | cons n p => exact at_succ

theorem shift_lt_shift {q : List Nat} (less : p < q) : shift p < shift q := by
  cases less with
  | nil => exact .nil
  | rel less => exact .rel (Nat.succ_lt_succ less)
  | cons less => exact .cons less

/-- Places at the first statement come before those further on. -/
theorem zero_lt_shift {q : List Nat} (place : q ≠ []) : 0 :: p < shift q := by
  cases q with
  | nil => exact absurd rfl place
  | cons n q => exact .rel n.succ_pos

namespace Enumerates

variable {ps qs : List (List Nat)}

theorem ne_nil (places : Enumerates ss ps) : ∀ p ∈ ps, p ≠ [] := by
  rintro p mem rfl
  obtain ⟨i, d, stands⟩ := (places.complete []).mp mem
  exact not_at_nil stands

theorem listed_shift (rest : Enumerates ss qs) :
    List.Forall₂ (fun p d => ∃ i, At (s :: ss) p (.localType i d)) (qs.map shift)
      (localTypesOf ss) :=
  List.forall₂_map_left_iff.mpr (rest.listed.imp fun _ _ ⟨i, stands⟩ => ⟨i, at_shift.mpr stands⟩)

theorem nil : Enumerates [] [] where
  sorted := .nil
  complete p := by
    refine iff_of_false List.not_mem_nil ?_
    rintro ⟨i, d, ⟨⟨⟩⟩ | ⟨⟨⟩, -⟩⟩
  listed := .nil

/-- A local type comes first, and nothing inside it counts. -/
theorem cons_type (i : NodeInfo) (d : TypeDecl) (rest : Enumerates ss qs) :
    Enumerates (.localType i d :: ss) ([0] :: qs.map shift) where
  sorted := by
    refine List.pairwise_cons.mpr ⟨List.forall_mem_map.mpr fun q mem =>
      zero_lt_shift (rest.ne_nil q mem), ?_⟩
    exact List.pairwise_map.mpr (rest.sorted.imp shift_lt_shift)
  complete p := by
    constructor
    · intro mem
      rcases List.mem_cons.mp mem with rfl | mem
      · exact ⟨i, d, .here rfl⟩
      · obtain ⟨q, place, rfl⟩ := List.mem_map.mp mem
        obtain ⟨i', d', stands⟩ := (rest.complete q).mp place
        exact ⟨i', d', at_shift.mpr stands⟩
    · rintro ⟨i', d', stands⟩
      match p, stands with
      | [], stands => exact absurd stands not_at_nil
      | 0 :: p, stands =>
        rcases at_zero.mp stands with ⟨rfl, -⟩ | inside
        · exact List.mem_cons_self
        · obtain found | ⟨found, -⟩ := inside <;> cases found
      | (n + 1) :: p, stands =>
        have mem := (rest.complete (n :: p)).mpr ⟨i', d', at_succ.mp stands⟩
        exact List.mem_cons_of_mem _ (List.mem_map_of_mem (f := shift) mem)
  listed := .cons ⟨i, .here rfl⟩ rest.listed_shift

/-- The local types inside any other statement come before those of the rest. -/
theorem cons_other (other : ∀ i d, s ≠ .localType i d) (inside : Enumerates s.parts ps)
    (rest : Enumerates ss qs) :
    Enumerates (s :: ss) (ps.map (0 :: ·) ++ qs.map shift) where
  sorted := by
    refine List.pairwise_append.mpr ⟨List.pairwise_map.mpr (inside.sorted.imp .cons),
      List.pairwise_map.mpr (rest.sorted.imp shift_lt_shift), ?_⟩
    intro p mem q mem'
    obtain ⟨p, -, rfl⟩ := List.mem_map.mp mem
    obtain ⟨q, place, rfl⟩ := List.mem_map.mp mem'
    exact zero_lt_shift (rest.ne_nil q place)
  complete p := by
    rw [List.mem_append, List.mem_map, List.mem_map]
    constructor
    · rintro (⟨q, mem, rfl⟩ | ⟨q, mem, rfl⟩)
      · obtain ⟨i, d, stands⟩ := (inside.complete q).mp mem
        exact ⟨i, d, at_zero.mpr (.inr stands)⟩
      · obtain ⟨i, d, stands⟩ := (rest.complete q).mp mem
        exact ⟨i, d, at_shift.mpr stands⟩
    · rintro ⟨i, d, stands⟩
      match p, stands with
      | [], stands => exact absurd stands not_at_nil
      | 0 :: p, stands =>
        rcases at_zero.mp stands with ⟨-, same⟩ | stands
        · exact absurd same (other i d)
        · exact .inl ⟨p, (inside.complete p).mpr ⟨i, d, stands⟩, rfl⟩
      | (n + 1) :: p, stands =>
        exact .inr ⟨n :: p, (rest.complete (n :: p)).mpr ⟨i, d, at_succ.mp stands⟩, rfl⟩
  listed := by
    rw [localTypesOf, localTypes_eq_parts other]
    refine List.rel_append (List.forall₂_map_left_iff.mpr (inside.listed.imp ?_)) rest.listed_shift
    exact fun _ _ ⟨i, stands⟩ => ⟨i, at_zero.mpr (.inr stands)⟩

end Enumerates

/-- The listing of local types goes through all places at which one stands, in the order of the
source. -/
theorem exists_enumerates (ss : List Stmt) : ∃ places, Enumerates ss places := by
  induction ss using parts_induction with
  | nil => exact ⟨[], .nil⟩
  | cons s ss inside rest =>
    obtain ⟨ps, inside⟩ := inside
    obtain ⟨qs, rest⟩ := rest
    by_cases type : ∃ i d, s = .localType i d
    · obtain ⟨i, d, rfl⟩ := type
      exact ⟨_, rest.cons_type i d⟩
    · exact ⟨_, Enumerates.cons_other (fun i d same => type ⟨i, d, same⟩) inside rest⟩

end Stmt

end ClassInit
