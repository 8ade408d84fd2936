import ClassInit.Proofs.Binding.Referring

/-!
# Steps that ground their handles

While a unit is resolved every handle that is looked up has an entry: locals in scope and
superclasses in the table either have one or were brought along (`State.Sound`). A step after which
this holds again and all handles of its value have entries, or were there before, is one that
`Grounds` a piece of the tree. Expressions, fields and locals are such pieces.
-/

set_option autoImplicit false

namespace ClassInit

namespace Binding

/-! ## States of resolving -/

/-- The table has the entry, or it is one of those that a unit brought along. -/
def Known (given : EntryId → Prop) (t : BindingTable) (e : EntryId) : Prop := t.Has e ∨ given e

theorem Known.later {given : EntryId → Prop} {t t' : BindingTable} (within : t.Within t')
    (e : EntryId) (known : Known given t e) : Known given t' e := known.imp_left (within e)

/-- The table knows the superclasses that it has recorded and the locals that are in scope. -/
structure State.Sound (given : EntryId → Prop) (s : State) : Prop where
  superclasses : ∀ d ∈ s.table.types, ∀ p ∈ d.superclass, Known given s.table (.ofType p)
  locals : ∀ scope ∈ s.localScopes, ∀ l ∈ scope, Known given s.table (.ofVariable l.2)

/-- From the first state to the second a piece is resolved that becomes the one with the
contents. -/
structure Reaches (given : EntryId → Prop) (s s' : State) (c : Contents) : Prop where
  within : s.table.Within s'.table
  sound : s'.Sound given
  contents : c.Refers (Known given s'.table)

section

variable {given : EntryId → Prop} {s s₁ s' : State} {c d : Contents}

/-- Nothing is done in no steps. -/
theorem State.Sound.reaches (sound : s.Sound given) : Reaches given s s .empty :=
  ⟨fun _ has => has, sound, .empty⟩

namespace Reaches

/-- Steps one after the other ground what each grounds. -/
theorem append (first : Reaches given s s₁ c) (second : Reaches given s₁ s' d) :
    Reaches given s s' (c ++ d) :=
  ⟨first.within.trans second.within, second.sound,
    (first.contents.imp (Known.later second.within)).append second.contents⟩

/-- Handles that the unit brought along. -/
theorem ofHandles (sound : s.Sound given) {hs : List Handle} (refers : ∀ h ∈ hs, h.Refers given) :
    Reaches given s s (.ofHandles hs) :=
  ⟨fun _ has => has, sound, .ofHandles fun h hh => (refers h hh).imp fun _ => .inr⟩

end Reaches

namespace State.Sound

/-- Only the table and the scopes of locals matter. -/
theorem of_eq (sound : s.Sound given) (table : s'.table = s.table)
    (scopes : s'.localScopes = s.localScopes) :
    s'.Sound given := by
  obtain ⟨superclasses, locals⟩ := sound
  rw [← table] at superclasses
  rw [← table, ← scopes] at locals
  exact ⟨superclasses, locals⟩

/-- A new local in scope. -/
theorem pushLocal (sound : s.Sound given) (name : String) {v : VariableId}
    (known : Known given s.table (.ofVariable v)) :
    (Binding.pushLocal name v s).2.Sound given ∧
      (Binding.pushLocal name v s).2.table = s.table := by
  obtain ⟨table, stats, typeScopes, _ | ⟨scope, scopes⟩⟩ := s
  · exact ⟨sound, rfl⟩
  · refine ⟨⟨sound.superclasses, ?_⟩, rfl⟩
    obtain ⟨innermost, others⟩ := List.forall_mem_cons.mp sound.locals
    exact List.forall_mem_cons.mpr ⟨List.forall_mem_cons.mpr ⟨known, innermost⟩, others⟩

/-! ## Lookups -/

/-- A local that is found is one that was declared in a scope. -/
theorem findLocal (sound : s.Sound given) {name : String} {v : VariableId}
    (found : s.findLocal name = some v) :
    Known given s.table (.ofVariable v) := by
  obtain ⟨before, after, all, -⟩ := List.lookup_eq_some_iff.mp found
  have listed : (name, v) ∈ s.localScopes.flatten := by
    rw [all]
    exact List.mem_append_right _ List.mem_cons_self
  obtain ⟨scope, hscope, listed⟩ := List.mem_flatten.mp listed
  exact sound.locals scope hscope _ listed

/-- A name that is found is a local or a field, and fields have entries. -/
theorem resolveName (sound : s.Sound given) {name : String} {v : VariableId}
    (found : s.resolveName name = some v) :
    Known given s.table (.ofVariable v) := by
  unfold State.resolveName at found
  split at found
  · obtain ⟨owner, -, found⟩ := Option.bind_eq_some_iff.mp found
    exact .inl (BindingTable.lt_of_findField found)
  · split at found
    · cases found
      exact sound.findLocal (by assumption)
    · obtain ⟨owner, -, found⟩ := List.exists_of_findSome?_eq_some found
      exact .inl (BindingTable.lt_of_findField found)

end State.Sound

/-- A field that is found through its owner has an entry. -/
theorem State.lt_of_resolveMember {target : Expr} {name : String} {v : VariableId}
    (found : s.resolveMember target name = some v) : v.index < s.table.vars.size := by
  unfold State.resolveMember at found
  split at found
  · obtain ⟨owner, -, found⟩ := Option.bind_eq_some_iff.mp found
    exact BindingTable.lt_of_findField found
  · obtain ⟨owner, -, found⟩ := Option.bind_eq_some_iff.mp found
    exact BindingTable.lt_of_findField found
  · cases found

end

/-! ## Steps of resolving -/

/-- Wherever the step succeeds, it resolves a piece that becomes the one with the contents of its
value. -/
def Grounds {α : Type} (given : EntryId → Prop) (m : Resolving α) (out : α → Contents) : Prop :=
  ∀ s a s', s.Sound given → m.run s = (.ok a, s') → Reaches given s s' (out a)

/-- Whatever came before it, after the step all that was resolved is the piece with the contents of
its value. -/
def GroundsOn {α : Type} (given : EntryId → Prop) (before : Contents) (m : Resolving α)
    (out : α → Contents) : Prop :=
  ∀ s₀ s a s', Reaches given s₀ s before → m.run s = (.ok a, s') → Reaches given s₀ s' (out a)

section

variable {given : EntryId → Prop} {α β : Type} {before : Contents} {out : α → Contents} {out' : β →
  Contents}

theorem GroundsOn.pure {a : α} (same : out a = before) :
    GroundsOn given before (Pure.pure a) out := by
  intro s₀ s b s' reached run
  obtain ⟨rfl, rfl⟩ := Step.pure_eq_ok.mp run
  rw [same]
  exact reached

/-- After a first step the second grounds its own part. -/
theorem GroundsOn.bind {m : Resolving α} {k : α → Resolving β} (h : Grounds given m out)
    (hk : ∀ a, GroundsOn given (before ++ out a) (k a) out') :
    GroundsOn given before (m >>= k) out' := by
  intro s₀ s b s' reached run
  obtain ⟨a, s₁, hm, hrest⟩ := Step.bind_eq_ok.mp run
  exact hk a s₀ s₁ b s' (reached.append (h s a s₁ reached.sound hm)) hrest

theorem Grounds.bind {m : Resolving α} {k : α → Resolving β} (h : Grounds given m out)
    (hk : ∀ a, GroundsOn given (out a) (k a) out') : Grounds given (m >>= k) out' := by
  intro s b s' sound run
  have bound : GroundsOn given .empty (m >>= k) out' := .bind h hk
  exact bound s s b s' sound.reaches run

theorem Grounds.pure {a : α} (same : out a = .empty) : Grounds given (Pure.pure a) out := by
  intro s b s' sound run
  obtain ⟨rfl, rfl⟩ := Step.pure_eq_ok.mp run
  rw [same]
  exact sound.reaches

/-- The scope that is opened has no locals yet. -/
theorem Grounds.inScope {m : Resolving α} (h : Grounds given m out) :
    Grounds given (inScope m) out := by
  intro s a s' sound run
  obtain ⟨s₁, hm, rfl⟩ := inScope_eq_ok run
  have opened : State.Sound given { s with localScopes := [] :: s.localScopes } :=
    ⟨sound.superclasses,
      List.forall_mem_cons.mpr ⟨fun _ hl => absurd hl List.not_mem_nil, sound.locals⟩⟩
  obtain ⟨within, inside, contents⟩ := h _ a s₁ opened hm
  exact ⟨within,
    ⟨inside.superclasses, fun scope hscope => inside.locals scope (List.mem_of_mem_tail hscope)⟩,
    contents⟩

/-- Handles that stay as they are, put after what a step resolves. -/
theorem Grounds.then {m : Resolving α} {f : α → β} (h : Grounds given m out) {hs : List Handle}
    (refers : ∀ h ∈ hs, h.Refers given) (same : ∀ a, out' (f a) = out a ++ .ofHandles hs) :
    Grounds given (m >>= fun a => Pure.pure (f a)) out' := by
  intro s b s' sound run
  obtain ⟨a, s₁, hm, hpure⟩ := Step.bind_eq_ok.mp run
  obtain ⟨rfl, rfl⟩ := Step.pure_eq_ok.mp hpure
  have first := h s a s₁ sound hm
  rw [same]
  exact first.append (.ofHandles first.sound refers)

/-- A step that cannot fail. -/
theorem Grounds.lift {m : StateM State α}
    (h : ∀ s : State, s.Sound given → Reaches given s (m s).2 (out (m s).1)) :
    Grounds given (liftM m : Resolving α) out := by
  intro s a s' sound run
  have reached := h s sound
  rw [Step.lift_eq_ok.mp run] at reached
  exact reached

end

end Binding

open Binding

/-! ## Expressions -/

section

variable {given : EntryId → Prop}

/-- A name without a handle gets one that has an entry. -/
theorem resolveUnbound_grounds (name : String) (s : Binding.State) (sound : s.Sound given) :
    Reaches given s (resolveUnbound name s).2
      (.ofHandles [.ofVariable name (resolveUnbound name s).1]) := by
  have same := resolveUnbound_table name s
  have scopes : (resolveUnbound name s).2.localScopes = s.localScopes := by
    unfold resolveUnbound
    split <;> rfl
  refine ⟨fun e has => by rw [same]; exact has, sound.of_eq same scopes, .ofHandles fun h hh => ?_⟩
  rw [List.mem_singleton.mp hh, same]
  unfold resolveUnbound
  split
  · rename_i v found
    rintro e ⟨⟩
    exact sound.resolveName found
  · rintro e ⟨⟩

/-- A creation gets the handle of a type in the table, or keeps the one that it has. -/
theorem resolveNew_grounds {t : TypeName} (refers : t.handle.Refers given) (s : Binding.State) :
    (resolveNew t s).1.handle.Refers (Known given s.table) := by
  unfold resolveNew
  obtain ⟨name, _ | id⟩ := t
  · rintro e he
    obtain ⟨p, found, rfl⟩ := Option.map_eq_some_iff.mp he
    exact .inl (BindingTable.lookupSimpleType_eq_some found)
  · exact refers.imp fun _ => .inr

mutual

/-- Every handle in a resolved expression has an entry, or the unit brought it along. -/
theorem Expr.resolve_reaches :
    ∀ (e : Expr), (∀ h ∈ e.handles, h.Refers given) → ∀ s : Binding.State, s.Sound given →
      Reaches given s (e.resolve s).2 (.ofHandles (e.resolve s).1.handles)
  | .literal .., _, s, sound => by
    rw [Expr.resolve]
    exact sound.reaches
  | .this _, _, s, sound => by
    rw [Expr.resolve]
    exact sound.reaches
  -- A name that has a handle keeps it, so that what is given about the tree carries over.
  | .name _ n (some v), refers, s, sound => by
    rw [Expr.resolve]
    exact .ofHandles sound refers
  | .name _ n none, _, s, sound => by
    rw [Expr.resolve]
    exact resolveUnbound_grounds n s sound
  | .fieldAccess _ t n (some v), refers, s, sound => by
    rw [Expr.resolve]
    obtain ⟨target, own⟩ := List.forall_mem_append.mp refers
    have first := Expr.resolve_reaches t target s sound
    exact first.append (.ofHandles first.sound own)
  | .fieldAccess _ t n none, refers, s, sound => by
    rw [Expr.resolve]
    have first := Expr.resolve_reaches t (List.forall_mem_append.mp refers).1 s sound
    -- The search for a member gives an index of the table.
    refine first.append ⟨fun _ has => has, first.sound, .ofHandles fun h hh => ?_⟩
    rw [List.mem_singleton.mp hh]
    intro e he
    obtain ⟨v, found, rfl⟩ := Option.map_eq_some_iff.mp he
    exact .inl (State.lt_of_resolveMember found)
  | .unary _ _ e, refers, s, sound => by
    rw [Expr.resolve]
    exact Expr.resolve_reaches e refers s sound
  | .step _ _ e, refers, s, sound => by
    rw [Expr.resolve]
    exact Expr.resolve_reaches e refers s sound
  | .binary _ _ l r, refers, s, sound => by
    rw [Expr.resolve]
    obtain ⟨left, right⟩ := List.forall_mem_append.mp refers
    have first := Expr.resolve_reaches l left s sound
    exact first.append (Expr.resolve_reaches r right _ first.sound)
  | .conditional _ c t e, refers, s, sound => by
    rw [Expr.resolve]
    obtain ⟨both, otherwise⟩ := List.forall_mem_append.mp refers
    obtain ⟨condition, chosen⟩ := List.forall_mem_append.mp both
    have first := Expr.resolve_reaches c condition s sound
    have second := first.append (Expr.resolve_reaches t chosen _ first.sound)
    exact second.append (Expr.resolve_reaches e otherwise _ second.sound)
  | .parenthesized _ e, refers, s, sound => by
    rw [Expr.resolve]
    exact Expr.resolve_reaches e refers s sound
  | .cast _ _ e, refers, s, sound => by
    rw [Expr.resolve]
    exact Expr.resolve_reaches e refers s sound
  | .assignment _ _ l r, refers, s, sound => by
    rw [Expr.resolve]
    obtain ⟨left, right⟩ := List.forall_mem_append.mp refers
    have first := Expr.resolve_reaches l left s sound
    exact first.append (Expr.resolve_reaches r right _ first.sound)
  | .call _ none n as b, refers, s, sound => by
    rw [Expr.resolve]
    obtain ⟨arguments, own⟩ := List.forall_mem_append.mp refers
    have first := Expr.resolveAll_reaches as arguments s sound
    exact first.append (.ofHandles first.sound own)
  | .call _ (some r) n as b, refers, s, sound => by
    rw [Expr.resolve]
    obtain ⟨both, own⟩ := List.forall_mem_append.mp refers
    obtain ⟨receiver, arguments⟩ := List.forall_mem_append.mp both
    have first := Expr.resolve_reaches r receiver s sound
    have second := first.append (Expr.resolveAll_reaches as arguments _ first.sound)
    exact second.append (.ofHandles second.sound own)
  | .new _ t as b, refers, s, sound => by
    rw [Expr.resolve]
    obtain ⟨both, own⟩ := List.forall_mem_append.mp refers
    obtain ⟨type, arguments⟩ := List.forall_mem_append.mp both
    -- Looking up the type leaves the state as it is.
    have first : Reaches given s (resolveNew t s).2 (.ofHandles [(resolveNew t s).1.handle]) := by
      rw [resolveNew_state]
      refine ⟨fun _ has => has, sound, .ofHandles fun h hh => ?_⟩
      rw [List.mem_singleton.mp hh]
      exact resolveNew_grounds (type _ (List.mem_singleton.mpr rfl)) s
    have second := first.append (Expr.resolveAll_reaches as arguments _ first.sound)
    exact second.append (.ofHandles second.sound own)

theorem Expr.resolveAll_reaches : ∀ (es : List Expr), (∀ h ∈ Expr.handlesOf es, h.Refers given) →
    ∀ s : Binding.State, s.Sound given →
      Reaches given s (Expr.resolveAll es s).2
        (.ofHandles (Expr.handlesOf (Expr.resolveAll es s).1))
  | [], _, s, sound => by
    rw [Expr.resolveAll]
    exact sound.reaches
  | e :: es, refers, s, sound => by
    rw [Expr.resolveAll]
    obtain ⟨one, others⟩ := List.forall_mem_append.mp refers
    have first := Expr.resolve_reaches e one s sound
    exact first.append (Expr.resolveAll_reaches es others _ first.sound)

end

theorem Expr.resolveOption_reaches (e : Option Expr)
    (refers : ∀ h ∈ Expr.handlesIn e, h.Refers given) (s : Binding.State) (sound : s.Sound given) :
    Reaches given s (Expr.resolveOption e s).2
      (.ofHandles (Expr.handlesIn (Expr.resolveOption e s).1)) := by
  cases e with
  | none => exact sound.reaches
  | some e => exact e.resolve_reaches refers s sound

/-- Resolving an expression grounds its handles. -/
theorem Expr.resolve_grounds (e : Expr) (refers : ∀ h ∈ e.handles, h.Refers given) :
    Grounds given (liftM e.resolve : Resolving Expr) fun e' => .ofHandles e'.handles :=
  .lift (e.resolve_reaches refers)

theorem Expr.resolveAll_grounds (es : List Expr)
    (refers : ∀ h ∈ Expr.handlesOf es, h.Refers given) :
    Grounds given (liftM (Expr.resolveAll es) : Resolving (List Expr)) fun es' =>
      .ofHandles (Expr.handlesOf es') :=
  .lift (Expr.resolveAll_reaches es refers)

theorem Expr.resolveOption_grounds (e : Option Expr)
    (refers : ∀ h ∈ Expr.handlesIn e, h.Refers given) :
    Grounds given (liftM (Expr.resolveOption e) : Resolving (Option Expr)) fun e' =>
      .ofHandles (Expr.handlesIn e') :=
  .lift (Expr.resolveOption_reaches e refers)

/-- Resolving enum constants grounds the handles in their arguments. -/
theorem EnumConstant.resolveAll_grounds (cs : List EnumConstant)
    (refers : ∀ h ∈ cs.flatMap fun c => Expr.handlesOf c.arguments, h.Refers given) :
    Grounds given (liftM (EnumConstant.resolveAll cs) : Resolving (List EnumConstant))
      fun cs' => .ofHandles (cs'.flatMap fun c => Expr.handlesOf c.arguments) := by
  refine .lift fun s sound => ?_
  rw [EnumConstant.resolveAll]
  induction cs generalizing s with
  | nil => exact sound.reaches
  | cons c cs ih =>
    rw [mapM_cons_state]
    obtain ⟨one, others⟩ := List.forall_mem_append.mp refers
    have first := Expr.resolveAll_reaches c.arguments one s sound
    exact first.append (ih others _ first.sound)

/-! ## Fields and locals -/

/-- Resolving a field grounds its handles. -/
theorem FieldDecl.resolve_grounds (f : FieldDecl) (refers : f.contents.Refers given) :
    Grounds given (liftM f.resolve : Resolving FieldDecl) FieldDecl.contents := by
  have fragments : ∀ fs : List Fragment, (∀ h ∈ fs.flatMap Fragment.handles, h.Refers given) →
      ∀ s : Binding.State, s.Sound given → Reaches given s (fs.mapM Fragment.resolve s).2
        (.ofHandles ((fs.mapM Fragment.resolve s).1.flatMap Fragment.handles)) := by
    intro fs
    induction fs with
    | nil => exact fun _ s sound => sound.reaches
    | cons g gs ih =>
      intro refers s sound
      rw [mapM_cons_state]
      obtain ⟨one, others⟩ := List.forall_mem_append.mp refers
      obtain ⟨initializer, own⟩ := List.forall_mem_append.mp one
      have first := Expr.resolveOption_reaches g.initializer initializer s sound
      have single : Reaches given s (g.resolve s).2 (.ofHandles (g.resolve s).1.handles) :=
        first.append (.ofHandles first.sound own)
      exact single.append (ih others _ single.sound)
  refine .lift fun s sound => ?_
  obtain ⟨within, sound', contents⟩ := fragments f.fragments refers.own s sound
  exact ⟨within, sound', contents.own, fun _ hd => absurd hd List.not_mem_nil⟩

/-- A local that is declared is in scope under a handle that the unit brought along or that has a
new entry. -/
theorem declareLocal_grounds (name : String) (type : TypeRef) (modifiers : Modifiers)
    (binding : Option VariableId) (refers : (Handle.ofVariable name binding).Refers given)
    (s : Binding.State) (sound : s.Sound given) :
    Reaches given s (declareLocal name type modifiers binding s).2
      (.ofHandles [.ofVariable name (some (declareLocal name type modifiers binding s).1)]) := by
  cases binding with
  | some v =>
    have known : Known given s.table (.ofVariable v) := .inr (refers _ rfl)
    obtain ⟨pushed, same⟩ := sound.pushLocal name known
    refine ⟨fun e has => ?_, pushed, .ofHandles fun h hh => ?_⟩
    · show (pushLocal name v s).2.table.Has e
      rw [same]
      exact has
    · rw [List.mem_singleton.mp hh]
      exact refers.imp fun _ => .inr
  | none =>
    have within : s.table.Within (s.table.addVariable (.ofLocal name type modifiers)).2 :=
      .of_sizes (Nat.le_refl _) (by simp [BindingTable.addVariable]) (Nat.le_refl _)
    -- The new entry is the last one of the table.
    have new : (s.table.addVariable (.ofLocal name type modifiers)).2.Has
        (.ofVariable ⟨s.table.vars.size⟩) :=
      Nat.lt_of_lt_of_eq (Nat.lt_succ_self _) (Array.size_push _).symm
    have added : State.Sound given { s with
        table := (s.table.addVariable (.ofLocal name type modifiers)).2
        stats := { s.stats with locals := s.stats.locals + 1 } } :=
      ⟨fun d hd p hp => (sound.superclasses d hd p hp).later within _,
        fun scope hscope l hl => (sound.locals scope hscope l hl).later within _⟩
    obtain ⟨pushed, same⟩ := added.pushLocal name (.inl new)
    have table : (declareLocal name type modifiers none s).2.table =
        (s.table.addVariable (.ofLocal name type modifiers)).2 := same
    refine ⟨?_, pushed, .ofHandles fun h hh => ?_⟩
    · rw [table]
      exact within
    · rw [List.mem_singleton.mp hh, table]
      rintro e ⟨⟩
      exact .inl new

theorem declareParameter_reaches (p : Parameter) (refers : p.contents.Refers given)
    (s : Binding.State) (sound : s.Sound given) :
    Reaches given s (declareParameter p s).2 (declareParameter p s).1.contents :=
  have ⟨within, sound', contents⟩ :=
    declareLocal_grounds p.name p.type .empty p.binding (refers.own _ (List.mem_singleton.mpr rfl))
      s sound
  ⟨within, sound', contents.own, fun _ hd => absurd hd List.not_mem_nil⟩

/-- Declaring parameters grounds their handles. -/
theorem declareParameters_grounds (ps : List Parameter)
    (refers : (Parameter.contentsOf ps).Refers given) :
    Grounds given (liftM (declareParameters ps) : Resolving (List Parameter))
      Parameter.contentsOf := by
  refine .lift fun s sound => ?_
  rw [declareParameters]
  induction ps generalizing s with
  | nil => exact sound.reaches
  | cons p ps ih =>
    rw [mapM_cons_state]
    have first := declareParameter_reaches p refers.left s sound
    exact first.append (ih refers.right _ first.sound)

/-- Declaring locals grounds their handles and those in their initializers. -/
theorem Fragment.resolveLocals_grounds (type : TypeRef) (modifiers : Modifiers) (fs : List Fragment)
    (refers : (Fragment.contentsOf type modifiers fs).Refers given) :
    Grounds given (liftM (Fragment.resolveLocals type modifiers fs) : Resolving (List Fragment))
      (Fragment.contentsOf type modifiers) := by
  refine .lift fun s sound => ?_
  rw [Fragment.resolveLocals]
  induction fs generalizing s with
  | nil => exact sound.reaches
  | cons f fs ih =>
    rw [mapM_cons_state]
    obtain ⟨initializer, own⟩ := List.forall_mem_append.mp refers.left.own
    have first := Expr.resolveOption_reaches f.initializer initializer s sound
    obtain ⟨within, sound', contents⟩ :=
      first.append (declareLocal_grounds f.name type modifiers f.binding
      (own _ (List.mem_singleton.mpr rfl)) _ first.sound)
    have single : Reaches given s (f.resolveLocal type modifiers s).2
        ((f.resolveLocal type modifiers s).1.contents type modifiers) :=
      ⟨within, sound', contents.own, fun _ hd => absurd hd List.not_mem_nil⟩
    exact single.append (ih refers.right _ single.sound)

end

end ClassInit
