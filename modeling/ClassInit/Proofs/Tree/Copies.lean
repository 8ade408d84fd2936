import ClassInit.Proofs.Tree.Ids
import Mathlib.Data.List.Nodup

/-!
# Copies are faithful and fresh

A copy of any part of a tree differs from the original in nothing but node ids, and these are the
ids from the next one of the supply up to its next one afterwards, one for each node. Copies that
are made one after the other therefore have no id in common, and a unit whose nodes are renumbered
has ids that are distinct, assigned and new (`Subtree.copies_fresh`).
-/

set_option autoImplicit false

namespace ClassInit

/-! ## The listing of ids is complete

Erasing changes a tree exactly if some id in the listing is assigned: the ids that erasing clears
are those that the listing has. -/

/-- None of the ids is assigned. -/
def Unassigned (ids : List NodeId) : Prop := ∀ i ∈ ids, i = .unassigned

@[simp] theorem unassigned_nil : Unassigned [] := List.forall_mem_nil _

@[simp] theorem unassigned_cons {i : NodeId} {ids : List NodeId} :
    Unassigned (i :: ids) ↔ i = .unassigned ∧ Unassigned ids := List.forall_mem_cons

/-- The ids of a tree are unassigned if those of its parts are. -/
@[simp] theorem unassigned_append {ids ids' : List NodeId} :
    Unassigned (ids ++ ids') ↔ Unassigned ids ∧ Unassigned ids' := List.forall_mem_append

/-- Erasing the data of an expression changes nothing if the id is unassigned. -/
theorem ExprInfo.erase_eq_self (i : ExprInfo) : i.erase = i ↔ i.id = .unassigned := by
  obtain ⟨n, span, type⟩ := i
  simp [ExprInfo.erase, eq_comm]

theorem NodeInfo.erase_eq_self (i : NodeInfo) : i.erase = i ↔ i.id = .unassigned := by
  obtain ⟨n, span⟩ := i
  simp [NodeInfo.erase, eq_comm]

/-- Erasing the items of a list changes none exactly if no id in them is assigned, if that holds for
a single one. -/
theorem map_eq_self_iff {α : Type} {f : α → α} {ids : α → List NodeId}
    (single : ∀ a, f a = a ↔ Unassigned (ids a)) (as : List α) :
    as.map f = as ↔ Unassigned (as.flatMap ids) := by
  induction as with
  | nil => simp
  | cons a as ih =>
    rw [List.map_cons, List.cons.injEq, single, ih, List.flatMap_cons, unassigned_append]

mutual

/-- Erasing changes an expression unless all ids that are listed for it are unassigned, so the
listing leaves out none. -/
theorem Expr.erase_eq_self : ∀ e : Expr, e.erase id = e ↔ Unassigned e.ids
  | .literal i v => by simp [Expr.erase, Expr.ids, i.erase_eq_self]
  | .name i n b => by simp [Expr.erase, Expr.ids, i.erase_eq_self]
  | .this i => by simp [Expr.erase, Expr.ids, i.erase_eq_self]
  | .fieldAccess i t n b => by
    simp [Expr.erase, Expr.ids, i.erase_eq_self, t.erase_eq_self, and_comm]
  | .unary i op e => by simp [Expr.erase, Expr.ids, i.erase_eq_self, e.erase_eq_self, and_comm]
  | .step i op e => by simp [Expr.erase, Expr.ids, i.erase_eq_self, e.erase_eq_self, and_comm]
  | .binary i op l r => by
    simp [Expr.erase, Expr.ids, i.erase_eq_self, l.erase_eq_self, r.erase_eq_self, and_comm,
      and_left_comm]
  | .conditional i c t e => by
    simp [Expr.erase, Expr.ids, i.erase_eq_self, c.erase_eq_self, t.erase_eq_self, e.erase_eq_self,
      and_comm, and_left_comm]
  | .parenthesized i e => by simp [Expr.erase, Expr.ids, i.erase_eq_self, e.erase_eq_self, and_comm]
  | .cast i t e => by simp [Expr.erase, Expr.ids, i.erase_eq_self, e.erase_eq_self, and_comm]
  | .assignment i op l r => by
    simp [Expr.erase, Expr.ids, i.erase_eq_self, l.erase_eq_self, r.erase_eq_self, and_comm,
      and_left_comm]
  | .call i none n as b => by
    simp [Expr.erase, Expr.ids, i.erase_eq_self, Expr.eraseAll_eq_self as, and_comm]
  | .call i (some r) n as b => by
    simp [Expr.erase, Expr.ids, i.erase_eq_self, r.erase_eq_self, Expr.eraseAll_eq_self as,
      and_comm, and_left_comm]
  | .new i t as b => by
    simp [Expr.erase, Expr.ids, i.erase_eq_self, Expr.eraseAll_eq_self as, and_comm]

theorem Expr.eraseAll_eq_self :
    ∀ es : List Expr, Expr.eraseAll id es = es ↔ Unassigned (Expr.idsOf es)
  | [] => by simp [Expr.eraseAll, Expr.idsOf]
  | e :: es => by simp [Expr.eraseAll, Expr.idsOf, e.erase_eq_self, Expr.eraseAll_eq_self es]

end

theorem Expr.eraseOption_eq_self (e : Option Expr) :
    e.map (Expr.erase id) = e ↔ Unassigned (Expr.idsOption e) := by
  cases e with
  | none => simp [Expr.idsOption]
  | some e => simp [Expr.idsOption, e.erase_eq_self]

/-- The ids of a variable are those listed. -/
theorem Fragment.erase_eq_self (f : Fragment) : f.erase id = f ↔ Unassigned f.ids := by
  obtain ⟨span, name, init, binding⟩ := f
  simp [Fragment.erase, Fragment.ids, Expr.eraseOption_eq_self]

theorem EnumConstant.erase_eq_self (c : EnumConstant) : c.erase id = c ↔ Unassigned c.ids := by
  obtain ⟨name, arguments, span⟩ := c
  simp [EnumConstant.erase, EnumConstant.ids, Expr.eraseAll_eq_self]

theorem fieldDecl_erase_eq_self (f : FieldDecl) : f.erase id = f ↔ Unassigned f.ids := by
  obtain ⟨n, span, modifiers, type, fragments⟩ := f
  simp [FieldDecl.erase, FieldDecl.ids, map_eq_self_iff Fragment.erase_eq_self, @eq_comm NodeId]

/-- The head of a type has its id and those of its enum constants. -/
theorem typeHead_erase_eq_self (d : TypeHead) : d.erase id = d ↔ Unassigned d.ids := by
  obtain ⟨n, span, kind, name, modifiers, extended, binding, constants⟩ := d
  simp [TypeHead.erase, TypeHead.ids, map_eq_self_iff EnumConstant.erase_eq_self, @eq_comm NodeId]

theorem methodHead_erase_eq_self (m : MethodHead) : m.erase id = m ↔ m.id = .unassigned := by
  obtain ⟨n, span, name, modifiers, returnType, parameters, isConstructor, binding, isSynthetic⟩ :=
    m
  simp [MethodHead.erase, eq_comm]

mutual

/-- The ids of a block are those listed. -/
theorem Block.erase_eq_self : ∀ b : Block, b.erase id = b ↔ Unassigned b.ids
  | ⟨i, ss⟩ => by simp [Block.erase, Block.ids, i.erase_eq_self, Stmt.eraseAll_eq_self ss]

/-- The ids of a statement are those listed, in every kind of statement. -/
theorem Stmt.erase_eq_self : ∀ s : Stmt, s.erase id = s ↔ Unassigned s.ids
  | .expression i e => by simp [Stmt.erase, Stmt.ids, i.erase_eq_self, e.erase_eq_self, and_comm]
  | .localVariable i m t fs => by
    simp [Stmt.erase, Stmt.ids, i.erase_eq_self, map_eq_self_iff Fragment.erase_eq_self, and_comm]
  | .block i b => by simp [Stmt.erase, Stmt.ids, i.erase_eq_self, b.erase_eq_self, and_comm]
  | .ifElse i c t none => by
    simp [Stmt.erase, Stmt.ids, i.erase_eq_self, c.erase_eq_self, t.erase_eq_self, and_comm,
      and_left_comm]
  | .ifElse i c t (some e) => by
    simp [Stmt.erase, Stmt.ids, i.erase_eq_self, c.erase_eq_self, t.erase_eq_self, e.erase_eq_self,
      and_comm, and_left_comm]
  | .whileLoop i c b => by
    simp [Stmt.erase, Stmt.ids, i.erase_eq_self, c.erase_eq_self, b.erase_eq_self, and_comm,
      and_left_comm]
  | .forLoop i init c us b => by
    simp [Stmt.erase, Stmt.ids, i.erase_eq_self, Stmt.eraseAll_eq_self init,
      Expr.eraseOption_eq_self, Expr.eraseAll_eq_self, b.erase_eq_self, and_comm, and_left_comm,
        and_assoc]
  | .tryCatch i b cs none => by
    simp [Stmt.erase, Stmt.ids, i.erase_eq_self, b.erase_eq_self, CatchClause.eraseAll_eq_self cs,
      and_comm, and_left_comm]
  | .tryCatch i b cs (some f) => by
    simp [Stmt.erase, Stmt.ids, i.erase_eq_self, b.erase_eq_self, CatchClause.eraseAll_eq_self cs,
      f.erase_eq_self, and_comm, and_left_comm, and_assoc]
  | .returnValue i e => by
    simp [Stmt.erase, Stmt.ids, i.erase_eq_self, Expr.eraseOption_eq_self, and_comm]
  | .throwValue i e => by simp [Stmt.erase, Stmt.ids, i.erase_eq_self, e.erase_eq_self, and_comm]
  | .superCall i as b => by
    simp [Stmt.erase, Stmt.ids, i.erase_eq_self, Expr.eraseAll_eq_self, and_comm]
  | .thisCall i as b => by
    simp [Stmt.erase, Stmt.ids, i.erase_eq_self, Expr.eraseAll_eq_self, and_comm]
  | .localType i d => by simp [Stmt.erase, Stmt.ids, i.erase_eq_self, d.erase_eq_self, and_comm]
  | .empty i => by simp [Stmt.erase, Stmt.ids, i.erase_eq_self]

theorem Stmt.eraseAll_eq_self :
    ∀ ss : List Stmt, Stmt.eraseAll id ss = ss ↔ Unassigned (Stmt.idsOf ss)
  | [] => by simp [Stmt.eraseAll, Stmt.idsOf]
  | s :: ss => by simp [Stmt.eraseAll, Stmt.idsOf, s.erase_eq_self, Stmt.eraseAll_eq_self ss]

theorem CatchClause.eraseAll_eq_self : ∀ cs : List CatchClause,
    CatchClause.eraseAll id cs = cs ↔ Unassigned (CatchClause.idsOf cs)
  | [] => by simp [CatchClause.eraseAll, CatchClause.idsOf]
  | ⟨sp, x, b⟩ :: cs => by
    simp [CatchClause.eraseAll, CatchClause.idsOf, b.erase_eq_self, CatchClause.eraseAll_eq_self cs]

/-- The ids of a member are those listed. -/
theorem Member.erase_eq_self : ∀ m : Member, m.erase id = m ↔ Unassigned m.ids
  | .type d => by simp [Member.erase, Member.ids, d.erase_eq_self]
  | .method ⟨m, none⟩ => by simp [Member.erase, Member.ids, methodHead_erase_eq_self]
  | .method ⟨m, some b⟩ => by
    simp [Member.erase, Member.ids, methodHead_erase_eq_self, b.erase_eq_self]
  | .initializer ⟨i, s, b⟩ => by simp [Member.erase, Member.ids, i.erase_eq_self, b.erase_eq_self]
  | .field f => by simp [Member.erase, Member.ids, fieldDecl_erase_eq_self]

theorem Member.eraseAll_eq_self :
    ∀ ms : List Member, Member.eraseAll id ms = ms ↔ Unassigned (Member.idsOf ms)
  | [] => by simp [Member.eraseAll, Member.idsOf]
  | m :: ms => by simp [Member.eraseAll, Member.idsOf, m.erase_eq_self, Member.eraseAll_eq_self ms]

/-- The ids of a type are those listed. -/
theorem TypeDecl.erase_eq_self : ∀ d : TypeDecl, d.erase id = d ↔ Unassigned d.ids
  | ⟨h, ms⟩ => by
    simp [TypeDecl.erase, TypeDecl.ids, typeHead_erase_eq_self, Member.eraseAll_eq_self ms]

end

/-! ## What a supply has left -/

namespace IdSupply

variable {s : IdSupply} {n : Nat}

/-- The number of ids that a supply can still hand out. The last of all words is not among them,
since no next one would come after it. A supply whose next word is the mark of a node without an id
has come round: by its own count it has issued all ids, and none is left. -/
def left (s : IdSupply) : Nat := 2 ^ 32 - 2 - s.issued.toNat

/-- How many ids a supply has handed out, where its counter may have wrapped around. -/
theorem toNat_issued (s : IdSupply) : s.issued.toNat = (s.next.toNat + (2 ^ 32 - 1)) % 2 ^ 32 := by
  rw [issued, UInt32.toNat_sub, UInt32.toNat_one, Nat.add_comm]

/-- Where enough ids are left the counter does not wrap around. -/
theorem room_of_le_left (enough : n ≤ s.left) : s.next.toNat + n < 2 ^ 32 := by
  have small := s.next.toNat_lt
  rw [left, toNat_issued] at enough
  omega

theorem next_pos_of_left_pos (some : 0 < s.left) : 0 < s.next.toNat := by
  rw [left, toNat_issued] at some
  omega

/-- A supply hands out the words from its next one on. -/
theorem map_toNat_handOut (room : s.next.toNat + n < 2 ^ 32) :
    (s.handOut n).map (·.word.toNat) = List.range' s.next.toNat n := by
  induction n generalizing s with
  | zero => rfl
  | succ n ih =>
    have step : (s.next + 1).toNat = s.next.toNat + 1 := toNat_next_after (n := 1) (by omega)
    rw [handOut, List.map_cons, ih (by rw [step]; omega), List.range'_succ, step]

end IdSupply

/-! ## Copies of parts -/

/-- A part of a tree that can be copied by itself. -/
inductive Subtree where
  | expression (e : Expr)
  | expressions (es : List Expr)
  | statement (s : Stmt)
  | statements (ss : List Stmt)
  | block (b : Block)
  | member (m : Member)
  | type (d : TypeDecl)

namespace Subtree

def copy : Subtree → Numbered Subtree
  | .expression e => return .expression (← e.copy)
  | .expressions es => return .expressions (← Expr.copyAll es)
  | .statement s => return .statement (← s.copy)
  | .statements ss => return .statements (← Stmt.copyAll ss)
  | .block b => return .block (← b.copy)
  | .member m => return .member (← m.copy)
  | .type d => return .type (← d.copy)

/-- The ids of all nodes of the part. -/
def ids : Subtree → List NodeId
  | .expression e => e.ids
  | .expressions es => Expr.idsOf es
  | .statement s => s.ids
  | .statements ss => Stmt.idsOf ss
  | .block b => b.ids
  | .member m => m.ids
  | .type d => d.ids

/-- The part without node ids. -/
def erase : Subtree → Subtree
  | .expression e => .expression (e.erase id)
  | .expressions es => .expressions (Expr.eraseAll id es)
  | .statement s => .statement (s.erase id)
  | .statements ss => .statements (Stmt.eraseAll id ss)
  | .block b => .block (b.erase id)
  | .member m => .member (m.erase id)
  | .type d => .type (d.erase id)

/-- The ids of any part of a tree are those listed. -/
theorem erase_eq_self (x : Subtree) : x.erase = x ↔ Unassigned x.ids := by
  cases x with
  | expression e => rw [erase, expression.injEq, ids, e.erase_eq_self]
  | expressions es => rw [erase, expressions.injEq, ids, Expr.eraseAll_eq_self]
  | statement s => rw [erase, statement.injEq, ids, s.erase_eq_self]
  | statements ss => rw [erase, statements.injEq, ids, Stmt.eraseAll_eq_self]
  | block b => rw [erase, block.injEq, ids, b.erase_eq_self]
  | member m => rw [erase, member.injEq, ids, m.erase_eq_self]
  | type d => rw [erase, type.injEq, ids, d.erase_eq_self]

/-- A copy of any part is the part, up to ids. -/
theorem copy_erase (x : Subtree) (s : IdSupply) : (x.copy s).1.erase = x.erase := by
  cases x with
  | expression e => exact congrArg expression (e.copy_erase id s)
  | expressions es => exact congrArg expressions (Expr.copyAll_erase id es s)
  | statement x => exact congrArg statement (x.copy_erase id s)
  | statements xs => exact congrArg statements (Stmt.copyAll_erase id xs s)
  | block b => exact congrArg block (b.copy_erase id s)
  | member m => exact congrArg member (m.copy_erase id s)
  | type d => exact congrArg type (d.copy_erase id s)

/-- A copy of any part has the next ids, one for each node. -/
theorem copy_draws (x : Subtree) : Draws ids x.ids.length x.copy := by
  cases x with
  | expression e => exact e.copy_draws
  | expressions es => exact Expr.copyAll_draws es
  | statement x => exact x.copy_draws
  | statements xs => exact Stmt.copyAll_draws xs
  | block b => exact b.copy_draws
  | member m => exact m.copy_draws
  | type d => exact d.copy_draws

/-- The second parts are copies of the first ones that were made one after the other over one
supply. -/
structure Copied (xs : List Subtree) (s : IdSupply) (ys : List Subtree) (s' : IdSupply) : Prop where
  /-- Nothing but ids is different. -/
  alike : ys.map erase = xs.map erase
  /-- The ids are the next ones of the supply, one for each node of the originals. -/
  interval : (ys.flatMap ids).map (·.word.toNat) = List.range' s.next.toNat (xs.flatMap ids).length
  /-- The next id of the supply comes right after them. -/
  next : s'.next.toNat = s.next.toNat + (xs.flatMap ids).length
  nodup : (ys.flatMap ids).Nodup
  /-- No two copies share an id. -/
  apart : ys.Pairwise fun x y => x.ids.Disjoint y.ids

/-- Copies of several parts over one supply, as long as it has enough ids. -/
theorem copied (xs : List Subtree) {s : IdSupply}
    (room : s.next.toNat + (xs.flatMap ids).length < 2 ^ 32) :
    Copied xs s (xs.mapM copy s).1 (xs.mapM copy s).2 := by
  obtain ⟨drawn, supply⟩ := mapM_draws copy_draws xs s
  have nodup : ((xs.mapM copy s).1.flatMap ids).Nodup := by
    rw [drawn]
    exact IdSupply.nodup_handOut room
  exact {
    alike := mapM_fst_map copy_erase xs s
    interval := by rw [drawn, IdSupply.map_toNat_handOut room]
    next := by rw [supply, IdSupply.toNat_next_after room]
    nodup
    apart := (List.nodup_flatMap.mp nodup).2 }

end Subtree

/-! ## Renumbered units -/

namespace CompilationUnit

/-- The second unit is the first one with new ids. -/
structure Renumbered (u u' : CompilationUnit) : Prop where
  fileName : u'.fileName = u.fileName
  package : u'.package = u.package
  types : u'.types.map (TypeDecl.erase id) = u.types.map (TypeDecl.erase id)
  /-- The ids are the next ones of the supply, one for each node. -/
  interval : u'.ids.map (·.word.toNat) = List.range' u.supply.next.toNat u.ids.length
  /-- The next id of the supply comes right after them. -/
  next : u'.supply.next.toNat = u.supply.next.toNat + u.ids.length
  distinct : u'.DistinctIds
  /-- No node has an id that was issued before. -/
  new : ∀ i ∈ u'.ids, ∀ j : NodeId, j.word < u.supply.next → i ≠ j

/-- A unit for which enough ids are left is renumbered with fresh ones. -/
theorem renumber_renumbered (u : CompilationUnit) (enough : u.ids.length ≤ u.supply.left) :
    u.Renumbered u.renumber := by
  have room := IdSupply.room_of_le_left enough
  obtain ⟨drawn, supply⟩ := mapM_draws TypeDecl.copy_draws u.types u.supply
  have drawn : u.renumber.ids = u.supply.handOut u.ids.length := drawn
  have supply : u.renumber.supply = u.supply.after u.ids.length := supply
  have next : u.renumber.supply.next.toNat = u.supply.next.toNat + u.ids.length := by
    rw [supply, IdSupply.toNat_next_after room]
  have between : ∀ i ∈ u.renumber.ids,
      u.supply.next.toNat ≤ i.word.toNat ∧ i.word.toNat < u.supply.next.toNat + u.ids.length := by
    intro i mem
    rw [drawn] at mem
    exact IdSupply.mem_handOut room mem
  refine ⟨rfl, rfl, mapM_fst_map (TypeDecl.copy_erase id) u.types u.supply, ?_, next,
    ⟨?_, ?_, ?_⟩, ?_⟩
  · rw [drawn, IdSupply.map_toNat_handOut room]
  · rw [drawn]
    exact IdSupply.nodup_handOut room
  · intro i mem
    obtain ⟨low, high⟩ := between i mem
    -- The unit has a node, so the supply had some id left and has not come round.
    have pos : 0 < u.supply.next.toNat := IdSupply.next_pos_of_left_pos (by omega)
    refine bne_iff_ne.mpr fun zero => ?_
    rw [zero, UInt32.toNat_zero] at low
    omega
  · intro i mem
    rw [UInt32.lt_iff_toNat_lt, next]
    exact (between i mem).2
  · rintro i mem j before rfl
    exact Nat.not_lt_of_le (between i mem).1 (UInt32.lt_iff_toNat_lt.mp before)

end CompilationUnit

/-- Copies of any parts that are made one after the other, over any supply that does not wrap around
on the way, are the originals but for the ids, and the ids are the next ones of the supply in order,
one for each node, so that no two of them are the same. Renumbering a unit whose supply has enough
ids left changes nothing but the ids and the supply, and leaves each node with an assigned id that
no other node has and that was not issued before. The ids that are listed are those that erasing
clears. -/
theorem Subtree.copies_fresh (xs : List Subtree) (s : IdSupply) (u : CompilationUnit)
    (room : s.next.toNat + (xs.flatMap Subtree.ids).length < 2 ^ 32)
    (enough : u.ids.length ≤ u.supply.left) :
    Subtree.Copied xs s (xs.mapM Subtree.copy s).1 (xs.mapM Subtree.copy s).2 ∧
      u.Renumbered u.renumber ∧
      ∀ x : Subtree, x.erase = x ↔ Unassigned x.ids :=
  ⟨Subtree.copied xs room, u.renumber_renumbered enough, Subtree.erase_eq_self⟩

/-- `if (flag) x = 1;`, without ids. -/
def branchSample : Stmt :=
  let e : ExprInfo := ⟨.unassigned, .dummy, none⟩
  let n : NodeInfo := ⟨.unassigned, .dummy⟩
  .ifElse n (.name e "flag" none)
    (.expression n (.assignment e .assign (.name e "x" none) (.literal e (.int 1)))) none

/-- `class A { { if (flag) x = 1; } }`, without ids, its supply used before. -/
def initializerSample : CompilationUnit :=
  let n : NodeInfo := ⟨.unassigned, .dummy⟩
  ⟨"A.java", none, [⟨⟨.unassigned, .dummy, .classType, "A", .empty, none, none, []⟩,
    [.initializer ⟨n, false, ⟨n, [branchSample]⟩⟩]⟩], ⟨7⟩⟩

theorem Subtree.copies_fresh_twice :
    let xs := [Subtree.statement branchSample, .statement branchSample]
    IdSupply.initial.next.toNat + (xs.flatMap Subtree.ids).length < 2 ^ 32 ∧
    initializerSample.ids.length ≤ initializerSample.supply.left ∧
    Subtree.Copied xs .initial (xs.mapM Subtree.copy .initial).1 (xs.mapM Subtree.copy .initial).2 ∧
    initializerSample.Renumbered initializerSample.renumber ∧
    initializerSample.renumber.ids.map (·.word.toNat) = [7, 8, 9, 10, 11, 12, 13, 14, 15] := by
  intro xs
  have room : IdSupply.initial.next.toNat + (xs.flatMap Subtree.ids).length < 2 ^ 32 := by decide
  have enough : initializerSample.ids.length ≤ initializerSample.supply.left := by decide
  obtain ⟨copied, renumbered, -⟩ := Subtree.copies_fresh xs .initial initializerSample room enough
  exact ⟨room, enough, copied, renumbered, by decide⟩

end ClassInit
