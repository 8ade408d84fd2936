import ClassInit.Proofs.Binding.Filled

/-!
# Steps that fill in handles

`Binding.Steps` says what resolving does to the state: locals without handles get new entries, one
each; superclass clauses are recorded; and every other new type is an external class that a clause
names. A step that does so while it fills in the handles of a piece of the tree is one that `Fills`
it. Expressions, fields and locals are such pieces.
-/

set_option autoImplicit false

namespace ClassInit

open Binding

namespace Binding

/-! ## What resolving does to the state -/

/-- The variable has the entry of a local. -/
def HasLocal (t : BindingTable) (l : VariableSlot) : Prop :=
  ∃ v, l.binding = some v ∧ t.vars[v.index]? = some (.ofLocal l.name l.type l.modifiers)

/-- From the first state to the second the locals of the first list become those of the second and
the heads of the first list those of the second: locals without handles get new entries, one each
and counted; every clause has a handle then and is recorded; and every new type is an external class
that a clause without handle names. -/
structure Steps (s s' : State) (ls ls' : List VariableSlot) (hs hs' : List TypeHead) : Prop where
  table : s.table.ResolvesTo s'.table
  methods : s'.table.methods = s.table.methods
  stats : s'.stats.types = s.stats.types ∧ s'.stats.fields = s.stats.fields ∧
    s'.stats.methods = s.stats.methods ∧
    s'.stats.locals = s.stats.locals + ls.countP (·.binding.isNone)
  size : s'.table.vars.size = s.table.vars.size + ls.countP (·.binding.isNone)
  locals : Allocated VariableSlot.key ls ls' s.table.vars.size s'.table.vars.size
  entries : ∀ l ∈ ls', l ∈ ls ∨ HasLocal s'.table l
  bound : ∀ h ∈ hs', ∀ c, h.superclass = some c → ∃ p, c.binding = some p
  clauses : s.table.Records s'.table hs'
  types : ∀ i, s.table.types.size ≤ i → i < s'.table.types.size →
    ∃ h ∈ hs, ∃ c, h.superclass = some c ∧
    c.binding = none ∧ ∃ superclass,
      s'.table.types[i]? = some { BindingTable.external c.name with superclass }

/-- A local keeps its entry. -/
theorem HasLocal.later {t t' : BindingTable} {l : VariableSlot} (has : HasLocal t l)
    (more : t.AddsLocals t') : HasLocal t' l := by
  obtain ⟨v, bound, entry⟩ := has
  obtain ⟨added, all, -⟩ := more
  refine ⟨v, bound, ?_⟩
  rw [← Array.getElem?_toList] at entry ⊢
  rw [all, List.getElem?_append_left (List.getElem?_eq_some_iff.mp entry).1]
  exact entry

namespace Steps

variable {s s₁ s' : State} {ls ls' ks ks' : List VariableSlot} {hs hs' gs gs' : List TypeHead}

/-- Steps that touch nothing but scopes and the count of names. -/
theorem of_same (table : s'.table = s.table) (names : ∃ n, s'.stats = { s.stats with names := n }) :
    Steps s s' [] [] [] [] := by
  obtain ⟨n, stats⟩ := names
  refine ⟨table ▸ .refl _, by rw [table], by simp [stats], by simp [table], .nil,
    fun _ hl => absurd hl List.not_mem_nil, fun _ hh => absurd hh List.not_mem_nil, ?_, ?_⟩
  · rw [table]
    exact ⟨fun id p last => absurd last (by simp), fun _ _ _ => rfl⟩
  · intro i low high
    rw [table] at high
    omega

theorem refl (s : State) : Steps s s [] [] [] [] := .of_same rfl ⟨_, rfl⟩

/-- One after the other. -/
theorem append (first : Steps s s₁ ls ls' hs hs') (second : Steps s₁ s' ks ks' gs gs') :
    Steps s s' (ls ++ ks) (ls' ++ ks') (hs ++ gs) (hs' ++ gs') := by
  refine ⟨first.table.trans second.table, second.methods.trans first.methods, ?_, ?_,
    first.locals.append second.locals first.table.grown.moreVariables
      second.table.grown.moreVariables, ?_,
    List.forall_mem_append.mpr ⟨first.bound, second.bound⟩,
    first.clauses.append second.clauses first.table.grown.moreTypes, ?_⟩
  · obtain ⟨types, fields, methods, locals⟩ := first.stats
    obtain ⟨types', fields', methods', locals'⟩ := second.stats
    refine ⟨types'.trans types, fields'.trans fields, methods'.trans methods, ?_⟩
    rw [List.countP_append]
    omega
  · have size := first.size
    have size' := second.size
    rw [List.countP_append]
    omega
  · intro l hl
    rcases List.mem_append.mp hl with hl | hl
    · exact (first.entries l hl).imp (List.mem_append_left _) fun has => has.later second.table.adds
    · exact (second.entries l hl).imp_left (List.mem_append_right _)
  · intro i low high
    by_cases early : i < s₁.table.types.size
    · obtain ⟨h, hh, c, written, unbound, superclass, entry⟩ := first.types i low early
      obtain ⟨superclass', entry'⟩ := second.table.grown.oldTypes ⟨i⟩ _
        (BindingTable.typeAt_eq_ok.mpr entry)
      exact ⟨h, List.mem_append_left _ hh, c, written, unbound, superclass',
        BindingTable.typeAt_eq_ok.mp entry'⟩
    · obtain ⟨h, hh, rest⟩ := second.types i (Nat.le_of_not_lt early) high
      exact ⟨h, List.mem_append_right _ hh, rest⟩

/-- The order of the locals does not matter. -/
theorem perm (steps : Steps s s' ls ls' hs hs') (same : ls.Perm ks) (same' : ls'.Perm ks') :
    Steps s s' ks ks' hs hs' := by
  have count : ks.countP (·.binding.isNone) = ls.countP (·.binding.isNone) :=
    (same.countP_eq _).symm
  refine ⟨steps.table, steps.methods, ?_, ?_, steps.locals.perm same same', fun l hl =>
    ?_, steps.bound,
    steps.clauses, steps.types⟩
  · rw [count]
    exact steps.stats
  · rw [count]
    exact steps.size
  · exact (steps.entries l (same'.mem_iff.mpr hl)).imp_left same.mem_iff.mp

end Steps

/-! ## Resolved pieces of a tree -/

/-- From the first state to the second the piece with the first contents becomes the one with the
second. -/
structure Resolves (s s' : State) (c c' : Contents) : Prop where
  contents : c.FillsTo c'
  inner : c.InnerFillsTo c'
  types : List.Forall₂ TypeDecl.FillsTo c.types c'.types
  steps : Steps s s' (c.locals ++ c.types.flatMap (·.contents.locals))
    (c'.locals ++ c'.types.flatMap (·.contents.locals)) (c.types.map (·.head))
      (c'.types.map (·.head))

namespace Resolves

variable {s s₁ s' : State} {c c' d d' : Contents}

theorem empty (s : State) : Resolves s s .empty .empty := ⟨.refl _, .nil, .nil, .refl s⟩

/-- Handles of expressions. -/
theorem ofHandles {hs hs' : List Handle} (kept : List.Forall₂ Handle.Keeps hs hs')
    (table : s'.table = s.table) (names : ∃ n, s'.stats = { s.stats with names := n }) :
    Resolves s s' (.ofHandles hs) (.ofHandles hs') :=
  ⟨⟨.nil, .nil, .nil, kept⟩, .nil, .nil, .of_same table names⟩

theorem append (first : Resolves s s₁ c c') (second : Resolves s₁ s' d d') :
    Resolves s s' (c ++ d) (c' ++ d') := by
  have shuffle : ∀ a b : Contents,
      ((a.locals ++ a.types.flatMap (·.contents.locals)) ++
        (b.locals ++ b.types.flatMap (·.contents.locals))).Perm
      ((a ++ b).locals ++ (a ++ b).types.flatMap (·.contents.locals)) := by
    intro a b
    simp only [Contents.locals_append, Contents.types_append, List.flatMap_append,
      List.append_assoc]
    exact (List.perm_append_comm_assoc _ _ _).append_left _
  refine ⟨first.contents.append second.contents, List.rel_append first.inner second.inner,
    List.rel_append first.types second.types, ?_⟩
  have steps := (first.steps.append second.steps).perm (shuffle c d) (shuffle c' d')
  rw [← List.map_append, ← List.map_append] at steps
  exact steps

end Resolves

/-- Stacks play no part. -/
theorem Resolves.of_eq {s s' a a' : State} {c c' : Contents} (resolved : Resolves s s' c c')
    (same : a.table = s.table ∧ a.stats = s.stats)
    (same' : a'.table = s'.table ∧ a'.stats = s'.stats) :
    Resolves a a' c c' := by
  obtain ⟨contents, inner, types, steps⟩ := resolved
  obtain ⟨table, methods, stats, size, locals, entries, bound, clauses, new⟩ := steps
  rw [← same.1, ← same'.1] at table methods size locals clauses new
  rw [← same'.1] at entries
  rw [← same.2, ← same'.2] at stats
  exact ⟨contents, inner, types, table, methods, stats, size, locals, entries, bound, clauses, new⟩

/-! ## Steps of resolving -/

/-- Wherever the step succeeds, it resolves the piece with the contents to that of its value. -/
def Fills {α : Type} (m : Resolving α) (c : Contents) (out : α → Contents) : Prop :=
  ∀ s a s', m.run s = (.ok a, s') → Resolves s s' c (out a)

/-- Whatever came before it, after the step the piece with all the contents is resolved to that of
its value. -/
def FillsOn {α : Type} (before before' : Contents) (m : Resolving α) (c : Contents)
    (out : α → Contents) : Prop :=
  ∀ s₀ s a s', Resolves s₀ s before before' → m.run s = (.ok a, s') → Resolves s₀ s' c (out a)

section

variable {α β : Type} {c d before before' : Contents} {out : α → Contents} {out' : β → Contents}

theorem FillsOn.pure {a : α} (same : out a = before') :
    FillsOn before before' (Pure.pure a) before out := by
  intro s₀ s b s' resolved run
  obtain ⟨rfl, rfl⟩ := Step.pure_eq_ok.mp run
  rw [same]
  exact resolved

/-- After a first step the second fills in its own part. -/
theorem FillsOn.bind {m : Resolving α} {k : α → Resolving β} (h : Fills m d out)
    (hk : ∀ a, FillsOn (before ++ d) (before' ++ out a) (k a) c out') :
    FillsOn before before' (m >>= k) c out' := by
  intro s₀ s b s' resolved run
  obtain ⟨a, s₁, hm, hrest⟩ := Step.bind_eq_ok.mp run
  exact hk a s₀ s₁ b s' (resolved.append (h s a s₁ hm)) hrest

theorem Fills.bind {m : Resolving α} {k : α → Resolving β} (h : Fills m d out)
    (hk : ∀ a, FillsOn d (out a) (k a) c out') : Fills (m >>= k) c out' := by
  intro s b s' run
  have bound : FillsOn .empty .empty (m >>= k) c out' := .bind h hk
  exact bound s s b s' (.empty s) run

theorem Fills.pure {a : α} (same : out a = .empty) : Fills (Pure.pure a) .empty out := by
  intro s b s' run
  obtain ⟨rfl, rfl⟩ := Step.pure_eq_ok.mp run
  rw [same]
  exact .empty s

/-- A step in a scope of its own runs with one more scope, which is dropped again. -/
theorem inScope_eq_ok {m : Resolving α} {a : α} {s s' : State}
    (run : (inScope m).run s = (.ok a, s')) :
    ∃ s₁, m.run { s with localScopes := [] :: s.localScopes } = (.ok a, s₁) ∧
      s' = { s₁ with localScopes := s₁.localScopes.tail } := by
  obtain ⟨_, s₁, hopen, run⟩ := Step.bind_eq_ok.mp run
  obtain ⟨-, rfl⟩ := Prod.mk.inj (Step.lift_eq_ok.mp hopen)
  obtain ⟨b, s₂, hm, run⟩ := Step.bind_eq_ok.mp run
  obtain ⟨_, s₃, hclose, hpure⟩ := Step.bind_eq_ok.mp run
  obtain ⟨-, rfl⟩ := Prod.mk.inj (Step.lift_eq_ok.mp hclose)
  obtain ⟨rfl, rfl⟩ := Step.pure_eq_ok.mp hpure
  exact ⟨s₂, hm, rfl⟩

/-- Opening and closing a scope changes neither the table nor the counts. -/
theorem Fills.inScope {m : Resolving α} (h : Fills m c out) : Fills (inScope m) c out := by
  intro s a s' run
  obtain ⟨s₁, hm, rfl⟩ := inScope_eq_ok run
  exact (h _ a s₁ hm).of_eq ⟨rfl, rfl⟩ ⟨rfl, rfl⟩

/-- Handles that stay as they are, put after what a step resolves. -/
theorem Fills.then {m : Resolving α} {f : α → β} (h : Fills m d out) (hs : List Handle)
    (same : ∀ a, out' (f a) = out a ++ .ofHandles hs) :
    Fills (m >>= fun a => Pure.pure (f a)) (d ++ .ofHandles hs) out' := by
  intro s b s' run
  obtain ⟨a, s₁, hm, hpure⟩ := Step.bind_eq_ok.mp run
  obtain ⟨rfl, rfl⟩ := Step.pure_eq_ok.mp hpure
  rw [same]
  exact (h s a s₁ hm).append (.ofHandles (List.forall₂_same.mpr fun _ _ => .same _) rfl ⟨_, rfl⟩)

/-- A step that cannot fail. -/
theorem Fills.lift {m : StateM State α} (h : ∀ s, Resolves s (m s).2 c (out (m s).1)) :
    Fills (liftM m : Resolving α) c out := by
  intro s a s' run
  have resolved := h s
  rw [Step.lift_eq_ok.mp run] at resolved
  exact resolved

end

end Binding

/-! ## Expressions -/

/-- A name without a handle may get one. -/
theorem resolveUnbound_kept (name : String) (s : Binding.State) :
    Resolves s (resolveUnbound name s).2 (.ofHandles [.ofVariable name none])
      (.ofHandles [.ofVariable name (resolveUnbound name s).1]) := by
  refine .ofHandles (.cons (.ofVariable name _) .nil) (resolveUnbound_table name s) ?_
  unfold resolveUnbound
  split <;> exact ⟨_, rfl⟩

/-- A creation with a handle keeps it. -/
theorem resolveNew_kept (t : TypeName) (s : Binding.State) :
    Handle.Keeps t.handle (resolveNew t s).1.handle := by
  obtain ⟨name, _ | id⟩ := t
  · exact .ofType name _
  · exact .same _

mutual

/-- Resolving an expression keeps the handles that are there. -/
theorem Expr.resolve_kept : ∀ (e : Expr) (s : Binding.State),
    Resolves s (e.resolve s).2 (.ofHandles e.handles) (.ofHandles (e.resolve s).1.handles)
  | .literal .., s => by
    rw [Expr.resolve]
    exact .empty s
  | .this _, s => by
    rw [Expr.resolve]
    exact .empty s
  | .name _ n (some v), s => by
    rw [Expr.resolve]
    exact .ofHandles (.cons (.same _) .nil) rfl ⟨_, rfl⟩
  | .name _ n none, s => by
    rw [Expr.resolve]
    exact resolveUnbound_kept n s
  | .fieldAccess _ t n (some v), s => by
    rw [Expr.resolve]
    exact (Expr.resolve_kept t s).append (.ofHandles (.cons (.same _) .nil) rfl ⟨_, rfl⟩)
  | .fieldAccess _ t n none, s => by
    rw [Expr.resolve]
    exact (Expr.resolve_kept t s).append (.ofHandles (.cons (.ofVariable n _) .nil) rfl ⟨_, rfl⟩)
  | .unary _ _ e, s => by
    rw [Expr.resolve]
    exact Expr.resolve_kept e s
  | .step _ _ e, s => by
    rw [Expr.resolve]
    exact Expr.resolve_kept e s
  | .binary _ _ l r, s => by
    rw [Expr.resolve]
    exact (Expr.resolve_kept l s).append (Expr.resolve_kept r _)
  | .conditional _ c t e, s => by
    rw [Expr.resolve]
    exact ((Expr.resolve_kept c s).append (Expr.resolve_kept t _)).append (Expr.resolve_kept e _)
  | .parenthesized _ e, s => by
    rw [Expr.resolve]
    exact Expr.resolve_kept e s
  | .cast _ _ e, s => by
    rw [Expr.resolve]
    exact Expr.resolve_kept e s
  | .assignment _ _ l r, s => by
    rw [Expr.resolve]
    exact (Expr.resolve_kept l s).append (Expr.resolve_kept r _)
  | .call _ none n as b, s => by
    rw [Expr.resolve]
    exact (Expr.resolveAll_kept as s).append (.ofHandles (.cons (.same _) .nil) rfl ⟨_, rfl⟩)
  | .call _ (some r) n as b, s => by
    rw [Expr.resolve]
    exact ((Expr.resolve_kept r s).append (Expr.resolveAll_kept as _)).append
      (.ofHandles (.cons (.same _) .nil) rfl ⟨_, rfl⟩)
  | .new _ t as b, s => by
    rw [Expr.resolve]
    have first : Resolves s (resolveNew t s).2 (.ofHandles [t.handle])
        (.ofHandles [(resolveNew t s).1.handle]) :=
      .ofHandles (.cons (resolveNew_kept t s) .nil) (by rw [resolveNew_state])
        ⟨_, by rw [resolveNew_state]⟩
    exact (first.append (Expr.resolveAll_kept as _)).append
      (.ofHandles (.cons (.same _) .nil) rfl ⟨_, rfl⟩)

theorem Expr.resolveAll_kept : ∀ (es : List Expr) (s : Binding.State),
    Resolves s (Expr.resolveAll es s).2 (.ofHandles (Expr.handlesOf es))
      (.ofHandles (Expr.handlesOf (Expr.resolveAll es s).1))
  | [], s => by
    rw [Expr.resolveAll]
    exact .empty s
  | e :: es, s => by
    rw [Expr.resolveAll]
    exact (Expr.resolve_kept e s).append (Expr.resolveAll_kept es _)

end

theorem Expr.resolveOption_kept (e : Option Expr) (s : Binding.State) :
    Resolves s (Expr.resolveOption e s).2 (.ofHandles (Expr.handlesIn e))
      (.ofHandles (Expr.handlesIn (Expr.resolveOption e s).1)) := by
  cases e with
  | none => exact .empty s
  | some e => exact e.resolve_kept s

/-- Resolving an expression fills in the handles that are missing. -/
theorem Expr.resolve_fills (e : Expr) :
    Fills (liftM e.resolve : Resolving Expr) (.ofHandles e.handles) fun e' =>
      .ofHandles e'.handles :=
  .lift e.resolve_kept

theorem Expr.resolveAll_fills (es : List Expr) :
    Fills (liftM (Expr.resolveAll es) : Resolving (List Expr)) (.ofHandles (Expr.handlesOf es))
      fun es' => .ofHandles (Expr.handlesOf es') := .lift (Expr.resolveAll_kept es)

theorem Expr.resolveOption_fills (e : Option Expr) :
    Fills (liftM (Expr.resolveOption e) : Resolving (Option Expr)) (.ofHandles (Expr.handlesIn e))
      fun e' => .ofHandles (Expr.handlesIn e') := .lift (Expr.resolveOption_kept e)

theorem EnumConstant.resolveAll_fills (cs : List EnumConstant) :
    Fills (liftM (EnumConstant.resolveAll cs) : Resolving (List EnumConstant))
      (.ofHandles (cs.flatMap fun c => Expr.handlesOf c.arguments))
      fun cs' => .ofHandles (cs'.flatMap fun c => Expr.handlesOf c.arguments) := by
  refine .lift fun s => ?_
  rw [EnumConstant.resolveAll]
  induction cs generalizing s with
  | nil => exact .empty s
  | cons c cs ih =>
    rw [mapM_cons_state]
    exact (Expr.resolveAll_kept c.arguments s).append (ih _)

/-! ## Fields and locals -/

/-- Resolving a field fills in the handles in its initializers. -/
theorem FieldDecl.resolve_fills (f : FieldDecl) :
    Fills (liftM f.resolve : Resolving FieldDecl) f.contents fun f' => f'.contents := by
  -- The declarators of a field change in their initializers only.
  have fragments : ∀ (fs : List Fragment) (s : Binding.State),
      Resolves s (fs.mapM Fragment.resolve s).2
        ⟨fs.map (Fragment.slot f.type f.modifiers), [], [], fs.flatMap Fragment.handles, [], []⟩
        ⟨(fs.mapM Fragment.resolve s).1.map (Fragment.slot f.type f.modifiers), [], [],
          (fs.mapM Fragment.resolve s).1.flatMap Fragment.handles, [], []⟩ := by
    intro fs
    induction fs with
    | nil => exact fun s => .empty s
    | cons g gs ih =>
      intro s
      rw [mapM_cons_state]
      have first := Expr.resolveOption_kept g.initializer s
      have own : Resolves s (g.resolve s).2 ⟨[g.slot f.type f.modifiers], [], [], g.handles, [], []⟩
          ⟨[(g.resolve s).1.slot f.type f.modifiers], [], [], (g.resolve s).1.handles, [], []⟩ :=
        ⟨⟨.cons (.refl _) .nil, .nil, .nil,
          List.rel_append first.contents.handles (.cons (.same _) .nil)⟩, .nil, .nil, first.steps⟩
      exact own.append (ih _)
  exact .lift (fragments f.fragments)

/-- A local is declared under its handle, or under a new one with an entry. -/
theorem declareLocal_steps (name : String) (type : TypeRef) (modifiers : Modifiers)
    (binding : Option VariableId) (s : Binding.State) :
    Steps s (declareLocal name type modifiers binding s).2 [⟨name, type, modifiers, binding⟩]
        [⟨name, type, modifiers, some (declareLocal name type modifiers binding s).1⟩] [] [] ∧
      ∀ v, binding = some v → (declareLocal name type modifiers binding s).1 = v := by
  -- Bringing the local into scope changes neither the table nor the counts.
  have pushed : ∀ (id : VariableId) (s : Binding.State), (pushLocal name id s).2.table = s.table ∧
      (pushLocal name id s).2.stats = s.stats := by
    rintro id ⟨table, stats, typeScopes, _ | ⟨scope, scopes⟩⟩ <;> exact ⟨rfl, rfl⟩
  cases binding with
  | some v =>
    refine ⟨?_, fun w bound => Option.some.inj bound⟩
    obtain ⟨table, stats⟩ := pushed v s
    obtain ⟨grown, methods, counts, size, -, -, bound, clauses, types⟩ :=
      Steps.of_same table ⟨s.stats.names, stats⟩
    exact ⟨grown, methods, counts, size, .kept rfl, fun l hl => .inl hl, bound, clauses, types⟩
  | none =>
    refine ⟨?_, fun w bound => nomatch bound⟩
    obtain ⟨table, stats⟩ := pushed ⟨s.table.vars.size⟩
      { s with
        table := (s.table.addVariable (.ofLocal name type modifiers)).2
        stats := { s.stats with locals := s.stats.locals + 1 } }
    have result : (declareLocal name type modifiers none s).2.table =
        (s.table.addVariable (.ofLocal name type modifiers)).2 := table
    have counted : (declareLocal name type modifiers none s).2.stats =
        { s.stats with locals := s.stats.locals + 1 } := stats
    have size : (s.table.addVariable (.ofLocal name type modifiers)).2.vars.size =
        s.table.vars.size + 1 := Array.size_push _
    refine ⟨⟨?_, ?_⟩, ?_, ?_, ?_, ?_, fun l hl => .inr ?_, fun _ hh => absurd hh List.not_mem_nil,
      ?_, ?_⟩
    · rw [result]
      exact .addVariable _ rfl
    · rw [result]
      exact .addVariable _ rfl
    · rw [result]
      rfl
    · rw [counted]
      exact ⟨rfl, rfl, rfl, rfl⟩
    · rw [result, size]
      rfl
    · refine .fresh (n := s.table.vars.size) rfl (Nat.le_refl _) ?_
      rw [result, size]
      exact Nat.lt_succ_self _
    · rw [List.mem_singleton.mp hl]
      refine ⟨⟨s.table.vars.size⟩, rfl, ?_⟩
      rw [result]
      exact Array.getElem?_push_size
    · rw [result]
      exact ⟨fun id p last => absurd last (by simp), fun _ _ _ => rfl⟩
    · rw [result]
      exact fun i low high => absurd high (Nat.not_lt_of_le low)

/-- A parameter with a handle keeps it. -/
theorem declareParameter_kept (p : Parameter) (s : Binding.State) :
    Resolves s (declareParameter p s).2 p.contents (declareParameter p s).1.contents := by
  obtain ⟨steps, kept⟩ := declareLocal_steps p.name p.type .empty p.binding s
  refine ⟨⟨.nil, .nil, .cons ⟨rfl, rfl, rfl, fun v bound => congrArg some (kept v bound)⟩ .nil,
    .cons ?_ .nil⟩, .nil, .nil, steps⟩
  obtain ⟨name, type, _ | v⟩ := p
  · exact .ofVariable name _
  · exact .same _

theorem declareParameter_fills (p : Parameter) :
    Fills (liftM (declareParameter p) : Resolving Parameter) p.contents Parameter.contents :=
  .lift (declareParameter_kept p)

/-- Declaring parameters fills in their handles. -/
theorem declareParameters_fills (ps : List Parameter) :
    Fills (liftM (declareParameters ps) : Resolving (List Parameter)) (Parameter.contentsOf ps)
      Parameter.contentsOf := by
  refine .lift fun s => ?_
  rw [declareParameters]
  induction ps generalizing s with
  | nil => exact .empty s
  | cons p ps ih =>
    rw [mapM_cons_state]
    exact (declareParameter_kept p s).append (ih _)

/-- Declaring the parameters of a method resolves its head. -/
theorem Binding.Fills.parameters {β : Type} {k : List Parameter → Resolving β} {c : Contents}
    {out : β → Contents} (h : MethodHead)
    (hk : ∀ ps, FillsOn (h.contents ++ Parameter.contentsOf h.parameters)
    ({ h with parameters := ps }.contents ++ Parameter.contentsOf ps) (k ps) c out) :
    Fills (liftM (declareParameters h.parameters) >>= k) c out := by
  intro s b s' run
  obtain ⟨ps, s₁, hps, hrest⟩ := Step.bind_eq_ok.mp run
  have parameters := declareParameters_fills h.parameters s ps s₁ hps
  -- Once declared, parameters differ from those of the source in their handles only.
  have bare : ∀ {ps qs : List Parameter},
    List.Forall₂ VariableSlot.FillsTo (Parameter.contentsOf ps).locals
      (Parameter.contentsOf qs).locals →
        qs.map (fun p => { p with binding := none }) =
          ps.map fun p => { p with binding := none } := by
    intro ps
    induction ps with
    | nil =>
      rintro (_ | ⟨q, qs⟩) filled
      · rfl
      · cases filled
    | cons p ps ih =>
      rintro (_ | ⟨q, qs⟩) filled
      · cases filled
      · obtain ⟨one, rest⟩ := List.forall₂_cons.mp filled
        have name : q.name = p.name := one.name
        have type : q.type = p.type := one.type
        rw [List.map_cons, List.map_cons, ih rest, name, type]
  have head : h.FillsTo { h with parameters := ps } := by
    refine ⟨?_, fun m bound => bound⟩
    simp only [MethodHead.bare]
    rw [bare parameters.contents.locals]
  have own : Resolves s s h.contents { h with parameters := ps }.contents :=
    ⟨⟨.nil, .cons head .nil, .nil, .cons (.same _) .nil⟩, .nil, .nil, .refl s⟩
  exact hk ps s s₁ b s' (own.append parameters) hrest

/-- A local with a handle keeps it, and its initializer is resolved before it is declared. -/
theorem Fragment.resolveLocal_kept (type : TypeRef) (modifiers : Modifiers) (f : Fragment)
    (s : Binding.State) :
    Resolves s (f.resolveLocal type modifiers s).2 (f.contents type modifiers)
      ((f.resolveLocal type modifiers s).1.contents type modifiers) := by
  have first := Expr.resolveOption_kept f.initializer s
  obtain ⟨steps, kept⟩ := declareLocal_steps f.name type modifiers f.binding
    (Expr.resolveOption f.initializer s).2
  refine ⟨⟨.nil, .nil, .cons ⟨rfl, rfl, rfl, fun v bound => congrArg some (kept v bound)⟩ .nil,
    List.rel_append first.contents.handles (.cons ?_ .nil)⟩, .nil, .nil, first.steps.append steps⟩
  obtain ⟨span, name, initializer, _ | v⟩ := f
  · exact .ofVariable name _
  · exact .same _

/-- Declaring locals fills in their handles and those in their initializers. -/
theorem Fragment.resolveLocals_fills (type : TypeRef) (modifiers : Modifiers) (fs : List Fragment) :
    Fills (liftM (Fragment.resolveLocals type modifiers fs) : Resolving (List Fragment))
      (Fragment.contentsOf type modifiers fs) (Fragment.contentsOf type modifiers) := by
  refine .lift fun s => ?_
  rw [Fragment.resolveLocals]
  induction fs generalizing s with
  | nil => exact .empty s
  | cons f fs ih =>
    rw [mapM_cons_state]
    exact (f.resolveLocal_kept type modifiers s).append (ih _)

end ClassInit
