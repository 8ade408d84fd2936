import ClassInit.Proofs.Tree.Erase

/-!
# The node ids of a tree

`TypeDecl.ids` lists the ids of a declaration and of all nodes in it, in the order in which a copy
renews them. The ids of a copy are therefore the next ids of the supply, as many as the tree has
nodes (`TypeDecl.copy_draws`).
-/

set_option autoImplicit false

namespace ClassInit

/-! ## What a supply hands out -/

namespace IdSupply

/-- The supply after so many ids. -/
def after (s : IdSupply) : Nat → IdSupply
  | 0 => s
  | n + 1 => after ⟨s.next + 1⟩ n

/-- The next ids of the supply. -/
def handOut (s : IdSupply) : Nat → List NodeId
  | 0 => []
  | n + 1 => ⟨s.next⟩ :: handOut ⟨s.next + 1⟩ n

/-- Drawing twice is drawing once as many. -/
@[simp] theorem after_add (s : IdSupply) (m n : Nat) : s.after (m + n) = (s.after m).after n := by
  induction m generalizing s with
  | zero => rw [Nat.zero_add, after]
  | succ m ih => rw [Nat.succ_add, after, after, ih]

/-- Ids that are drawn in two goes come one after the other. -/
@[simp] theorem handOut_add (s : IdSupply) (m n : Nat) :
    s.handOut (m + n) = s.handOut m ++ (s.after m).handOut n := by
  induction m generalizing s with
  | zero => rw [Nat.zero_add, handOut, after, List.nil_append]
  | succ m ih => rw [Nat.succ_add, handOut, handOut, after, ih, List.cons_append]

variable {s : IdSupply} {n : Nat} (room : s.next.toNat + n < 2 ^ 32)

include room

/-- While there is room the counter grows by the ids that are drawn. -/
theorem toNat_next_after : (s.after n).next.toNat = s.next.toNat + n := by
  induction n generalizing s with
  | zero => rfl
  | succ n ih =>
    have step : (s.next + 1).toNat = s.next.toNat + 1 := by
      rw [UInt32.toNat_add, UInt32.toNat_one]
      omega
    rw [after, ih (by show (s.next + 1).toNat + n < 2 ^ 32; omega)]
    show (s.next + 1).toNat + n = s.next.toNat + (n + 1)
    omega

/-- As long as the supply does not wrap around, it hands out ids in rising order. -/
theorem mem_handOut {i : NodeId} (found : i ∈ s.handOut n) :
    s.next.toNat ≤ i.word.toNat ∧ i.word.toNat < s.next.toNat + n := by
  induction n generalizing s with
  | zero => exact absurd found List.not_mem_nil
  | succ n ih =>
    have step : (s.next + 1).toNat = s.next.toNat + 1 := by
      rw [UInt32.toNat_add, UInt32.toNat_one]
      omega
    rcases List.mem_cons.mp found with rfl | found
    · dsimp only
      omega
    · obtain ⟨low, high⟩ := ih (by show (s.next + 1).toNat + n < 2 ^ 32; omega) found
      dsimp only at low high
      omega

/-- While there is room no id is handed out twice. -/
theorem nodup_handOut : (s.handOut n).Nodup := by
  induction n generalizing s with
  | zero => exact List.nodup_nil
  | succ n ih =>
    have step : (s.next + 1).toNat = s.next.toNat + 1 := by
      rw [UInt32.toNat_add, UInt32.toNat_one]
      omega
    have room' : (s.next + 1).toNat + n < 2 ^ 32 := by omega
    refine List.nodup_cons.mpr ⟨fun again => ?_, ih room'⟩
    have low := (mem_handOut room' again).1
    dsimp only at low
    omega

end IdSupply

/-! ## The listing -/

mutual

def Expr.ids : Expr → List NodeId
  | .literal i _ => [i.id]
  | .name i _ _ => [i.id]
  | .this i => [i.id]
  | .fieldAccess i t _ _ => t.ids ++ [i.id]
  | .unary i _ e => e.ids ++ [i.id]
  | .step i _ e => e.ids ++ [i.id]
  | .binary i _ l r => l.ids ++ (r.ids ++ [i.id])
  | .conditional i c t e => c.ids ++ (t.ids ++ (e.ids ++ [i.id]))
  | .parenthesized i e => e.ids ++ [i.id]
  | .cast i _ e => e.ids ++ [i.id]
  | .assignment i _ l r => l.ids ++ (r.ids ++ [i.id])
  | .call i none _ as _ => Expr.idsOf as ++ [i.id]
  | .call i (some r) _ as _ => r.ids ++ (Expr.idsOf as ++ [i.id])
  | .new i _ as _ => Expr.idsOf as ++ [i.id]

def Expr.idsOf : List Expr → List NodeId
  | [] => []
  | e :: es => e.ids ++ Expr.idsOf es

end

def Expr.idsOption : Option Expr → List NodeId
  | none => []
  | some e => e.ids

def Fragment.ids (f : Fragment) : List NodeId := Expr.idsOption f.initializer

def EnumConstant.ids (c : EnumConstant) : List NodeId := Expr.idsOf c.arguments

def FieldDecl.ids (f : FieldDecl) : List NodeId := f.id :: f.fragments.flatMap Fragment.ids

def TypeHead.ids (h : TypeHead) : List NodeId := h.id :: h.enumConstants.flatMap EnumConstant.ids

mutual

def Block.ids : Block → List NodeId
  | ⟨i, ss⟩ => i.id :: Stmt.idsOf ss

def Stmt.ids : Stmt → List NodeId
  | .expression i e => e.ids ++ [i.id]
  | .localVariable i _ _ fs => fs.flatMap Fragment.ids ++ [i.id]
  | .block i b => b.ids ++ [i.id]
  | .ifElse i c t none => c.ids ++ (t.ids ++ [i.id])
  | .ifElse i c t (some e) => c.ids ++ (t.ids ++ (e.ids ++ [i.id]))
  | .whileLoop i c b => c.ids ++ (b.ids ++ [i.id])
  | .forLoop i init c us b =>
    Stmt.idsOf init ++ (Expr.idsOption c ++ (Expr.idsOf us ++ (b.ids ++ [i.id])))
  | .tryCatch i b cs none => b.ids ++ (CatchClause.idsOf cs ++ [i.id])
  | .tryCatch i b cs (some f) => b.ids ++ (CatchClause.idsOf cs ++ (f.ids ++ [i.id]))
  | .returnValue i e => Expr.idsOption e ++ [i.id]
  | .throwValue i e => e.ids ++ [i.id]
  | .superCall i as _ => Expr.idsOf as ++ [i.id]
  | .thisCall i as _ => Expr.idsOf as ++ [i.id]
  | .localType i d => d.ids ++ [i.id]
  | .empty i => [i.id]

def Stmt.idsOf : List Stmt → List NodeId
  | [] => []
  | s :: ss => s.ids ++ Stmt.idsOf ss

def CatchClause.idsOf : List CatchClause → List NodeId
  | [] => []
  | ⟨_, _, b⟩ :: cs => b.ids ++ CatchClause.idsOf cs

def Member.ids : Member → List NodeId
  | .type d => d.ids
  | .method ⟨h, none⟩ => [h.id]
  | .method ⟨h, some b⟩ => h.id :: b.ids
  | .initializer ⟨i, _, b⟩ => i.id :: b.ids
  | .field f => f.ids

def Member.idsOf : List Member → List NodeId
  | [] => []
  | m :: ms => m.ids ++ Member.idsOf ms

/-- The ids of a declaration and of all nodes in it. -/
def TypeDecl.ids : TypeDecl → List NodeId
  | ⟨h, ms⟩ => h.ids ++ Member.idsOf ms

end

/-- The ids of all nodes of a unit. -/
def CompilationUnit.ids (u : CompilationUnit) : List NodeId := u.types.flatMap TypeDecl.ids

/-- Every node of the unit has an id of its own that its supply has handed out. -/
structure CompilationUnit.DistinctIds (u : CompilationUnit) : Prop where
  nodup : u.ids.Nodup
  assigned : ∀ i ∈ u.ids, i.isAssigned = true
  issued : ∀ i ∈ u.ids, i.word < u.supply.next

/-! ## Copies -/

/-- The value of a computation has the next ids of the supply, and as many are gone. -/
def Draws {α : Type} (ids : α → List NodeId) (n : Nat) (m : Numbered α) : Prop :=
  ∀ s, ids (m s).1 = s.handOut n ∧ (m s).2 = s.after n

/-- A walk over a list draws the ids of its items one after the other. -/
theorem mapM_draws {α : Type} {f : α → Numbered α} {ids : α → List NodeId}
    (one : ∀ a, Draws ids (ids a).length (f a)) (as : List α) :
    Draws (List.flatMap ids) (as.flatMap ids).length (as.mapM f) := by
  induction as with
  | nil => exact fun s => ⟨rfl, rfl⟩
  | cons a as ih =>
    intro s
    rw [List.mapM_cons]
    simp [List.flatMap_cons, (one a s).1, (one a s).2, (ih _).1, (ih _).2]

/-- A node draws one id for itself. -/
@[simp] theorem ExprInfo.renew_id (i : ExprInfo) (s : IdSupply) :
    [(i.renew s).1.id] = s.handOut 1 := rfl

@[simp] theorem ExprInfo.renew_supply (i : ExprInfo) (s : IdSupply) :
    (i.renew s).2 = s.after 1 := rfl

@[simp] theorem NodeInfo.renew_id (i : NodeInfo) (s : IdSupply) :
    [(i.renew s).1.id] = s.handOut 1 := rfl

@[simp] theorem NodeInfo.renew_supply (i : NodeInfo) (s : IdSupply) :
    (i.renew s).2 = s.after 1 := rfl

mutual

/-- A copy of an expression has the ids that the supply hands out next, one for each node. -/
theorem Expr.copy_draws : ∀ e : Expr, Draws Expr.ids e.ids.length e.copy
  | .literal .., _ => ⟨rfl, rfl⟩
  | .name .., _ => ⟨rfl, rfl⟩
  | .this _, _ => ⟨rfl, rfl⟩
  | .fieldAccess i t _ _, s => by simp [Expr.copy, Expr.ids, Expr.copy_draws t _]
  | .unary i _ e, s => by simp [Expr.copy, Expr.ids, Expr.copy_draws e _]
  | .step i _ e, s => by simp [Expr.copy, Expr.ids, Expr.copy_draws e _]
  | .binary i _ l r, s => by simp [Expr.copy, Expr.ids, Expr.copy_draws l _, Expr.copy_draws r _]
  | .conditional i c t e, s => by
    simp [Expr.copy, Expr.ids, Expr.copy_draws c _, Expr.copy_draws t _, Expr.copy_draws e _]
  | .parenthesized i e, s => by simp [Expr.copy, Expr.ids, Expr.copy_draws e _]
  | .cast i _ e, s => by simp [Expr.copy, Expr.ids, Expr.copy_draws e _]
  | .assignment i _ l r, s => by
    simp [Expr.copy, Expr.ids, Expr.copy_draws l _, Expr.copy_draws r _]
  | .call i none _ as _, s => by simp [Expr.copy, Expr.ids, Expr.copyAll_draws as _]
  | .call i (some r) _ as _, s => by
    simp [Expr.copy, Expr.ids, Expr.copy_draws r _, Expr.copyAll_draws as _]
  | .new i _ as _, s => by simp [Expr.copy, Expr.ids, Expr.copyAll_draws as _]

theorem Expr.copyAll_draws : ∀ es : List Expr,
    Draws Expr.idsOf (Expr.idsOf es).length (Expr.copyAll es)
  | [], _ => ⟨rfl, rfl⟩
  | e :: es, s => by simp [Expr.copyAll, Expr.idsOf, Expr.copy_draws e _, Expr.copyAll_draws es _]

end

theorem Expr.copyOption_draws : ∀ e : Option Expr,
    Draws Expr.idsOption (Expr.idsOption e).length (Expr.copyOption e)
  | none, _ => ⟨rfl, rfl⟩
  | some e, s => e.copy_draws s

/-- A copy of a variable has the next ids. -/
theorem Fragment.copy_draws (f : Fragment) : Draws Fragment.ids f.ids.length f.copy :=
  fun s => Expr.copyOption_draws f.initializer s

theorem EnumConstant.copy_draws (c : EnumConstant) : Draws EnumConstant.ids c.ids.length c.copy :=
  fun s => Expr.copyAll_draws c.arguments s

theorem FieldDecl.copy_draws (f : FieldDecl) : Draws FieldDecl.ids f.ids.length f.copy := by
  intro s
  obtain ⟨ids, supply⟩ := mapM_draws Fragment.copy_draws f.fragments ⟨s.next + 1⟩
  exact ⟨congrArg (List.cons (NodeId.mk s.next)) ids, supply⟩

/-- The head of a type draws an id and one for each node in its enum constants. -/
theorem TypeHead.copy_draws (h : TypeHead) : Draws TypeHead.ids h.ids.length h.copy := by
  intro s
  obtain ⟨ids, supply⟩ := mapM_draws EnumConstant.copy_draws h.enumConstants ⟨s.next + 1⟩
  exact ⟨congrArg (List.cons (NodeId.mk s.next)) ids, supply⟩

mutual

/-- A copy of a block has the next ids. -/
theorem Block.copy_draws : ∀ b : Block, Draws Block.ids b.ids.length b.copy
  | ⟨i, ss⟩, s => by
    obtain ⟨ids, supply⟩ := Stmt.copyAll_draws ss ⟨s.next + 1⟩
    rw [Block.copy]
    exact ⟨congrArg (List.cons (NodeId.mk s.next)) ids, supply⟩

/-- A copy of a statement has the next ids, one for each node. -/
theorem Stmt.copy_draws : ∀ x : Stmt, Draws Stmt.ids x.ids.length x.copy
  | .expression i e, s => by simp [Stmt.copy, Stmt.ids, Expr.copy_draws e _]
  | .localVariable i _ _ fs, s => by simp [Stmt.copy, Stmt.ids, mapM_draws Fragment.copy_draws fs _]
  | .block i b, s => by simp [Stmt.copy, Stmt.ids, Block.copy_draws b _]
  | .ifElse i c t none, s => by simp [Stmt.copy, Stmt.ids, Expr.copy_draws c _, Stmt.copy_draws t _]
  | .ifElse i c t (some e), s => by
    simp [Stmt.copy, Stmt.ids, Expr.copy_draws c _, Stmt.copy_draws t _, Stmt.copy_draws e _]
  | .whileLoop i c b, s => by simp [Stmt.copy, Stmt.ids, Expr.copy_draws c _, Stmt.copy_draws b _]
  | .forLoop i init c us b, s => by
    simp [Stmt.copy, Stmt.ids, Stmt.copyAll_draws init _, Expr.copyOption_draws c _,
      Expr.copyAll_draws us _, Stmt.copy_draws b _]
  | .tryCatch i b cs none, s => by
    simp [Stmt.copy, Stmt.ids, Block.copy_draws b _, CatchClause.copyAll_draws cs _]
  | .tryCatch i b cs (some f), s => by
    simp [Stmt.copy, Stmt.ids, Block.copy_draws b _, CatchClause.copyAll_draws cs _,
      Block.copy_draws f _]
  | .returnValue i e, s => by simp [Stmt.copy, Stmt.ids, Expr.copyOption_draws e _]
  | .throwValue i e, s => by simp [Stmt.copy, Stmt.ids, Expr.copy_draws e _]
  | .superCall i as _, s => by simp [Stmt.copy, Stmt.ids, Expr.copyAll_draws as _]
  | .thisCall i as _, s => by simp [Stmt.copy, Stmt.ids, Expr.copyAll_draws as _]
  | .localType i d, s => by simp [Stmt.copy, Stmt.ids, TypeDecl.copy_draws d _]
  | .empty _, _ => ⟨rfl, rfl⟩

theorem Stmt.copyAll_draws : ∀ ss : List Stmt,
    Draws Stmt.idsOf (Stmt.idsOf ss).length (Stmt.copyAll ss)
  | [], _ => ⟨rfl, rfl⟩
  | x :: ss, s => by simp [Stmt.copyAll, Stmt.idsOf, Stmt.copy_draws x _, Stmt.copyAll_draws ss _]

theorem CatchClause.copyAll_draws : ∀ cs : List CatchClause,
    Draws CatchClause.idsOf (CatchClause.idsOf cs).length (CatchClause.copyAll cs)
  | [], _ => ⟨rfl, rfl⟩
  | ⟨_, _, b⟩ :: cs, s => by
    simp [CatchClause.copyAll, CatchClause.idsOf, Block.copy_draws b _,
      CatchClause.copyAll_draws cs _]

/-- A copy of a member has the next ids. -/
theorem Member.copy_draws : ∀ m : Member, Draws Member.ids m.ids.length m.copy
  | .type d, s => by
    rw [Member.copy]
    exact TypeDecl.copy_draws d s
  | .method ⟨h, none⟩, s => by
    rw [Member.copy]
    exact ⟨rfl, rfl⟩
  | .method ⟨h, some b⟩, s => by
    obtain ⟨ids, supply⟩ := Block.copy_draws b ⟨s.next + 1⟩
    rw [Member.copy]
    exact ⟨congrArg (List.cons (NodeId.mk s.next)) ids, supply⟩
  | .initializer ⟨i, _, b⟩, s => by
    obtain ⟨ids, supply⟩ := Block.copy_draws b ⟨s.next + 1⟩
    rw [Member.copy]
    exact ⟨congrArg (List.cons (NodeId.mk s.next)) ids, supply⟩
  | .field f, s => by
    rw [Member.copy]
    exact f.copy_draws s

theorem Member.copyAll_draws : ∀ ms : List Member,
    Draws Member.idsOf (Member.idsOf ms).length (Member.copyAll ms)
  | [], _ => ⟨rfl, rfl⟩
  | m :: ms, s => by
    simp [Member.copyAll, Member.idsOf, Member.copy_draws m _, Member.copyAll_draws ms _]

/-- The ids of a copy are the next ids of the supply. -/
theorem TypeDecl.copy_draws : ∀ d : TypeDecl, Draws TypeDecl.ids d.ids.length d.copy
  | ⟨h, ms⟩, s => by
    simp [TypeDecl.copy, TypeDecl.ids, TypeHead.copy_draws h _, Member.copyAll_draws ms _]

end

/-! ## Erased trees -/

section

variable (h : Option MethodId → Option MethodId)

/-- Erased items have as many ids as the items, if a single one does. -/
theorem length_flatMap_map {α : Type} {f : α → α} {ids : α → List NodeId}
    (single : ∀ a, (ids (f a)).length = (ids a).length) (as : List α) :
    ((as.map f).flatMap ids).length = (as.flatMap ids).length := by
  induction as with
  | nil => rfl
  | cons a as ih =>
    rw [List.map_cons, List.flatMap_cons, List.flatMap_cons, List.length_append, List.length_append,
      single, ih]

mutual

/-- Erasing changes ids but not how many there are. -/
theorem Expr.length_ids_erase : ∀ e : Expr, (e.erase h).ids.length = e.ids.length
  | .literal .. => rfl
  | .name .. => rfl
  | .this _ => rfl
  | .fieldAccess _ t _ _ => by simp [Expr.erase, Expr.ids, Expr.length_ids_erase t]
  | .unary _ _ e => by simp [Expr.erase, Expr.ids, Expr.length_ids_erase e]
  | .step _ _ e => by simp [Expr.erase, Expr.ids, Expr.length_ids_erase e]
  | .binary _ _ l r => by
    simp [Expr.erase, Expr.ids, Expr.length_ids_erase l, Expr.length_ids_erase r]
  | .conditional _ c t e => by
    simp [Expr.erase, Expr.ids, Expr.length_ids_erase c, Expr.length_ids_erase t,
      Expr.length_ids_erase e]
  | .parenthesized _ e => by simp [Expr.erase, Expr.ids, Expr.length_ids_erase e]
  | .cast _ _ e => by simp [Expr.erase, Expr.ids, Expr.length_ids_erase e]
  | .assignment _ _ l r => by
    simp [Expr.erase, Expr.ids, Expr.length_ids_erase l, Expr.length_ids_erase r]
  | .call _ none _ as _ => by simp [Expr.erase, Expr.ids, Expr.length_idsOf_erase as]
  | .call _ (some r) _ as _ => by
    simp [Expr.erase, Expr.ids, Expr.length_ids_erase r, Expr.length_idsOf_erase as]
  | .new _ _ as _ => by simp [Expr.erase, Expr.ids, Expr.length_idsOf_erase as]

theorem Expr.length_idsOf_erase : ∀ es : List Expr,
    (Expr.idsOf (Expr.eraseAll h es)).length = (Expr.idsOf es).length
  | [] => rfl
  | e :: es => by
    simp [Expr.eraseAll, Expr.idsOf, Expr.length_ids_erase e, Expr.length_idsOf_erase es]

end

theorem Expr.length_idsOption_erase : ∀ e : Option Expr,
    (Expr.idsOption (e.map (Expr.erase h))).length = (Expr.idsOption e).length
  | none => rfl
  | some e => e.length_ids_erase h

theorem Fragment.length_ids_erase (f : Fragment) : (f.erase h).ids.length = f.ids.length :=
  Expr.length_idsOption_erase h f.initializer

theorem EnumConstant.length_ids_erase (c : EnumConstant) : (c.erase h).ids.length = c.ids.length :=
  Expr.length_idsOf_erase h c.arguments

theorem FieldDecl.length_ids_erase (f : FieldDecl) : (f.erase h).ids.length = f.ids.length :=
  congrArg (· + 1) (length_flatMap_map (Fragment.length_ids_erase h) f.fragments)

theorem TypeHead.length_ids_erase (d : TypeHead) : (d.erase h).ids.length = d.ids.length :=
  congrArg (· + 1) (length_flatMap_map (EnumConstant.length_ids_erase h) d.enumConstants)

mutual

theorem Block.length_ids_erase : ∀ b : Block, (b.erase h).ids.length = b.ids.length
  | ⟨i, ss⟩ => by simp [Block.erase, Block.ids, Stmt.length_idsOf_erase ss]

/-- A statement has as many ids erased as before. -/
theorem Stmt.length_ids_erase : ∀ s : Stmt, (s.erase h).ids.length = s.ids.length
  | .expression _ e => by simp [Stmt.erase, Stmt.ids, Expr.length_ids_erase h e]
  | .localVariable _ _ _ fs => by
    simp [Stmt.erase, Stmt.ids, length_flatMap_map (Fragment.length_ids_erase h) fs]
  | .block _ b => by simp [Stmt.erase, Stmt.ids, Block.length_ids_erase b]
  | .ifElse _ c t none => by
    simp [Stmt.erase, Stmt.ids, Expr.length_ids_erase h c, Stmt.length_ids_erase t]
  | .ifElse _ c t (some e) => by
    simp [Stmt.erase, Stmt.ids, Expr.length_ids_erase h c, Stmt.length_ids_erase t,
      Stmt.length_ids_erase e]
  | .whileLoop _ c b => by
    simp [Stmt.erase, Stmt.ids, Expr.length_ids_erase h c, Stmt.length_ids_erase b]
  | .forLoop _ init c us b => by
    simp [Stmt.erase, Stmt.ids, Stmt.length_idsOf_erase init, Expr.length_idsOption_erase h c,
      Expr.length_idsOf_erase h us, Stmt.length_ids_erase b]
  | .tryCatch _ b cs none => by
    simp [Stmt.erase, Stmt.ids, Block.length_ids_erase b, CatchClause.length_idsOf_erase cs]
  | .tryCatch _ b cs (some f) => by
    simp [Stmt.erase, Stmt.ids, Block.length_ids_erase b, CatchClause.length_idsOf_erase cs,
      Block.length_ids_erase f]
  | .returnValue _ e => by simp [Stmt.erase, Stmt.ids, Expr.length_idsOption_erase h e]
  | .throwValue _ e => by simp [Stmt.erase, Stmt.ids, Expr.length_ids_erase h e]
  | .superCall _ as _ => by simp [Stmt.erase, Stmt.ids, Expr.length_idsOf_erase h as]
  | .thisCall _ as _ => by simp [Stmt.erase, Stmt.ids, Expr.length_idsOf_erase h as]
  | .localType _ d => by simp [Stmt.erase, Stmt.ids, TypeDecl.length_ids_erase d]
  | .empty _ => rfl

theorem Stmt.length_idsOf_erase : ∀ ss : List Stmt,
    (Stmt.idsOf (Stmt.eraseAll h ss)).length = (Stmt.idsOf ss).length
  | [] => rfl
  | s :: ss => by
    simp [Stmt.eraseAll, Stmt.idsOf, Stmt.length_ids_erase s, Stmt.length_idsOf_erase ss]

theorem CatchClause.length_idsOf_erase : ∀ cs : List CatchClause,
    (CatchClause.idsOf (CatchClause.eraseAll h cs)).length = (CatchClause.idsOf cs).length
  | [] => rfl
  | ⟨_, _, b⟩ :: cs => by
    simp [CatchClause.eraseAll, CatchClause.idsOf, Block.length_ids_erase b,
      CatchClause.length_idsOf_erase cs]

/-- A member has as many ids erased as before. -/
theorem Member.length_ids_erase : ∀ m : Member, (m.erase h).ids.length = m.ids.length
  | .type d => by simp [Member.erase, Member.ids, TypeDecl.length_ids_erase d]
  | .method ⟨_, none⟩ => rfl
  | .method ⟨_, some b⟩ => by simp [Member.erase, Member.ids, Block.length_ids_erase b]
  | .initializer ⟨_, _, b⟩ => by simp [Member.erase, Member.ids, Block.length_ids_erase b]
  | .field f => by simp [Member.erase, Member.ids, FieldDecl.length_ids_erase h f]

theorem Member.length_idsOf_erase : ∀ ms : List Member,
    (Member.idsOf (Member.eraseAll h ms)).length = (Member.idsOf ms).length
  | [] => rfl
  | m :: ms => by
    simp [Member.eraseAll, Member.idsOf, Member.length_ids_erase m, Member.length_idsOf_erase ms]

/-- An erased declaration has as many nodes as the declaration. -/
theorem TypeDecl.length_ids_erase : ∀ d : TypeDecl, (d.erase h).ids.length = d.ids.length
  | ⟨d, ms⟩ => by
    simp [TypeDecl.erase, TypeDecl.ids, TypeHead.length_ids_erase h d, Member.length_idsOf_erase ms]

end

end

end ClassInit
