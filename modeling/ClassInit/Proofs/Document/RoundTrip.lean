import ClassInit.Proofs.Document.Declarations

/-!
# Documents of units

The document of a unit denotes the unit, whatever stands in it, if every handle in it fits in 32
bits and no floating-point number in it is infinite or not a number
(`CompilationUnit.document_denotes`).
-/

set_option autoImplicit false

namespace ClassInit

open Json

theorem Json.preserves_id : Preserves id :=
  ⟨rfl, fun _ => rfl, fun _ => rfl, fun _ => rfl, fun js => congrArg arr js.map_id.symm,
    fun fs => congrArg obj fs.map_id.symm⟩

theorem Leaf.readBy_id {l : Leaf} (finite : l.IsFinite) (word : l.IsWord) : l.ReadBy id := by
  cases l with
  | handle n => exact word
  | single x => exact if_pos finite
  | double x => exact if_pos finite

namespace CompilationUnit

theorem document_denotes {u : CompilationUnit} (finite : ∀ l ∈ u.leaves, l.IsFinite)
    (words : ∀ l ∈ u.leaves, l.IsWord) : ofJson? u.toJson = some u :=
  ofJson?_of_preserves preserves_id fun l hl => Leaf.readBy_id (finite l hl) (words l hl)

/-- `@interface`s and enums in classes, unnamed modifiers, a null type beside a missing type, a
`return` without a value, and handles on everything that can have one. -/
def documentSample : CompilationUnit :=
  let n : NodeInfo := ⟨⟨7⟩, ⟨3, 9⟩⟩
  let e : ExprInfo := ⟨⟨8⟩, .dummy, none⟩
  let nothing : Expr := .literal ⟨⟨9⟩, .dummy, some .null⟩ .null
  let text : Expr :=
    .literal ⟨⟨10⟩, .dummy, some (.declared ⟨"String", some ⟨1⟩⟩)⟩ (.string "\"\\\n\u2603")
  let call : Expr := .call e none "f" [.call e (some (.this e)) "g" [nothing] (some ⟨4⟩)] none
  let type (name : String) (kind : TypeKind) (ms : List Member) : TypeDecl :=
    ⟨⟨.unassigned, .dummy, kind, name, ⟨0x40000019⟩, some ⟨"B", some ⟨2⟩⟩, some ⟨5⟩,
      [⟨"C", [text], .dummy⟩]⟩, ms⟩
  let method : MethodHead :=
    ⟨⟨11⟩, .dummy, "m", .empty, .void, [⟨"p", .array (.primitive .int), some ⟨6⟩⟩], false,
      some ⟨0⟩, true⟩
  let body : Block := ⟨n, [.returnValue n none, .returnValue n (some nothing),
    .ifElse n (.name e "x.y" (some ⟨3⟩)) (.empty n) none,
    .tryCatch n ⟨n, [.localType n (type "L" .annotationType [])]⟩
      [⟨.dummy, ⟨"x", .null, none⟩, ⟨n, []⟩⟩] none,
    .forLoop n [.expression n call] none
      [.assignment e .ushr (.name e "x" none) (.unary e .complement text)]
      (.superCall n [] none)]⟩
  ⟨"A.java", some "p.q",
    [type "A" .classType
      [.type (type "E" .enumType []), .method ⟨method, some body⟩, .method ⟨method, none⟩,
        .initializer ⟨n, true, body⟩,
        .field ⟨⟨12⟩, .dummy, ⟨0xFFFFFFFF⟩, .primitive .char,
          [⟨.dummy, "f", none, none⟩, ⟨.dummy, "g", some call, none⟩]⟩]],
    ⟨13⟩⟩

theorem document_denotes_sample :
    (∀ l ∈ documentSample.leaves, l.IsFinite) ∧ (∀ l ∈ documentSample.leaves, l.IsWord) ∧
      ofJson? documentSample.toJson = some documentSample := by
  have finite : ∀ l ∈ documentSample.leaves, l.IsFinite := by decide +kernel
  have words : ∀ l ∈ documentSample.leaves, l.IsWord := by decide +kernel
  exact ⟨finite, words, document_denotes finite words⟩

end CompilationUnit

end ClassInit
