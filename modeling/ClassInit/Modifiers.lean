/-!
Declaration modifiers: sets of flags with the numbering of class files. A set keeps every one of its
32 bits, also those that no flag names.
-/

set_option autoImplicit false

namespace ClassInit

/-- A modifier that source text can write. -/
inductive Modifier where
  | pub
  | priv
  | prot
  | static
  | final
  | synchronized
  | volatile
  | transient
  | native
  | abstract
  | strictfp
  | default
deriving DecidableEq, Inhabited

namespace Modifier

/-- The flag's bit. -/
def bit : Modifier → UInt32
  | pub => 0x1
  | priv => 0x2
  | prot => 0x4
  | static => 0x8
  | final => 0x10
  | synchronized => 0x20
  | volatile => 0x40
  | transient => 0x80
  | native => 0x100
  | abstract => 0x400
  | strictfp => 0x800
  | default => 0x10000

/-- The word that source text uses. -/
def keyword : Modifier → String
  | pub => "public"
  | priv => "private"
  | prot => "protected"
  | static => "static"
  | final => "final"
  | synchronized => "synchronized"
  | volatile => "volatile"
  | transient => "transient"
  | native => "native"
  | abstract => "abstract"
  | strictfp => "strictfp"
  | default => "default"

/-- The name of the flag in the text form of a set: its keyword in capitals. -/
def name (m : Modifier) : String := m.keyword.map Char.toUpper

/-- All flags, by rising bit. -/
def all : List Modifier :=
  [pub, priv, prot, static, final, synchronized, volatile, transient, native, abstract, strictfp,
   default]

/-- All flags in the order in which source text writes them. -/
def sourceOrder : List Modifier :=
  [pub, prot, priv, abstract, static, final, transient, volatile, synchronized, native, strictfp,
   default]

end Modifier

/-- A set of modifiers. -/
structure Modifiers where
  bits : UInt32
deriving DecidableEq, Inhabited

namespace Modifiers

def empty : Modifiers := ⟨0⟩

def of (m : Modifier) : Modifiers := ⟨m.bit⟩

def union (a b : Modifiers) : Modifiers := ⟨a.bits ||| b.bits⟩

def inter (a b : Modifiers) : Modifiers := ⟨a.bits &&& b.bits⟩

def ofList (ms : List Modifier) : Modifiers :=
  ms.foldl (fun s m => s.union (of m)) empty

def contains (s : Modifiers) (m : Modifier) : Bool := s.bits &&& m.bit == m.bit

def isStatic (s : Modifiers) : Bool := s.contains .static

def isFinal (s : Modifiers) : Bool := s.contains .final

def isAbstract (s : Modifiers) : Bool := s.contains .abstract

/-- The flags that govern visibility. -/
def accessMask : Modifiers := ofList [.pub, .prot, .priv]

/-- The visibility part of a set. -/
def access (s : Modifiers) : Modifiers := s.inter accessMask

/-- The source words of a set, in source order. -/
def keywords (s : Modifiers) : List String :=
  (Modifier.sourceOrder.filter s.contains).map Modifier.keyword

/-- The modifiers that every field of an interface-like type has. -/
def interfaceField : Modifiers := ofList [.pub, .static, .final]

/-- The bits of a set that no flag names. -/
def unnamed (s : Modifiers) : UInt32 :=
  s.bits &&& ~~~ (ofList Modifier.all).bits

end Modifiers

end ClassInit
