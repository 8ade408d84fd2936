import ClassInit.Proofs.Binding.NamedTypes

/-!
# The search for a free name

The candidates for the name of a new type are tried one after the other until one is free. Here the
search runs without a limit (`BindingTable.Searches`). It always ends, since there are more
candidates than types, with the first candidate that no type has, and that is the name that the
limited search gives to a type (`BindingTable.uniqueTypeName_first_free`).
-/

set_option autoImplicit false

namespace ClassInit

namespace BindingTable

variable {t : BindingTable} {base found found' : String} {probed probed' : List String} {m n : Nat}

/-! ## The search without a limit -/

/-- From the `n`-th candidate on, the search looks up the listed names, one after the other, and
ends with a name. -/
inductive Searches (t : BindingTable) (base : String) : Nat → List String → String → Prop where
  | free {n : Nat} (free : t.lookupType (candidateName base n) = none) :
      Searches t base n [candidateName base n] (candidateName base n)
  | taken {n : Nat} {probed : List String} {found : String}
    (taken : t.lookupType (candidateName base n) ≠ none)
      (rest : Searches t base (n + 1) probed found) :
        Searches t base n (candidateName base n :: probed) found

namespace Searches

/-- The table, the plain name and the number determine the search. -/
theorem unique (first : t.Searches base n probed found)
    (second : t.Searches base n probed' found') :
    probed = probed' ∧ found = found' := by
  induction first generalizing probed' with
  | free free =>
    cases second with
    | free => exact ⟨rfl, rfl⟩
    | taken taken => exact absurd free taken
  | taken taken _ ih =>
    cases second with
    | free free => exact absurd free taken
    | taken _ rest =>
      obtain ⟨rfl, rfl⟩ := ih rest
      exact ⟨rfl, rfl⟩

/-- The search goes through the candidates that are taken and looks up the first free one last. -/
theorem of_first (taken : ∀ i < m, t.lookupType (candidateName base (n + i)) ≠ none)
    (free : t.lookupType (candidateName base (n + m)) = none) :
    t.Searches base n ((List.range' n (m + 1)).map (candidateName base))
      (candidateName base (n + m)) := by
  induction m generalizing n with
  | zero => exact .free free
  | succ m ih =>
    have later : n + (m + 1) = n + 1 + m := by omega
    rw [later] at free ⊢
    rw [List.range'_succ, List.map_cons]
    refine .taken (taken 0 (by omega)) ?_
    apply ih
    · intro i hi
      have shifted := taken (i + 1) (by omega)
      rwa [show n + (i + 1) = n + 1 + i by omega] at shifted
    · exact free

end Searches

/-! ## The limited search -/

/-- The limited search goes over taken candidates only, and over no more than it may try. -/
theorem freeName_eq (t : BindingTable) (base : String) (tries n : Nat) :
    ∃ m ≤ tries, t.freeName base tries n = candidateName base (n + m) ∧
      ∀ i < m, t.lookupType (candidateName base (n + i)) ≠ none := by
  induction tries generalizing n with
  | zero => exact ⟨0, Nat.le_refl 0, rfl, by simp⟩
  | succ tries ih =>
    rw [freeName]
    by_cases free : t.lookupType (candidateName base n) = none
    · exact ⟨0, by omega, by simp [free], by simp⟩
    · obtain ⟨m, within, ends, taken⟩ := ih (n + 1)
      refine ⟨m + 1, by omega, ?_, ?_⟩
      · rw [if_neg (by simpa using free), ends]
        congr 1
        omega
      · intro i hi
        cases i with
        | zero => exact free
        | succ i =>
          have shifted := taken i (by omega)
          rwa [show n + 1 + i = n + (i + 1) by omega] at shifted

/-- For every table, qualifier and name: the name that a new type gets is the first candidate that
no type of the table has. The search without a limit ends with it, whatever the table, and in one
way only; it looks up the candidates up to that one and no others, and these are at most one more
than the table has types. -/
theorem uniqueTypeName_first_free (t : BindingTable) (qualifier : Option String) (name : String) :
    let base := qualify qualifier name
    ∃ n ≤ t.types.size, t.uniqueTypeName qualifier name = candidateName base n ∧
      (∀ d ∈ t.types, d.name ≠ candidateName base n) ∧
      (∀ i < n, ∃ d ∈ t.types, d.name = candidateName base i) ∧
      ∀ probed found, t.Searches base 0 probed found ↔
        probed = (List.range (n + 1)).map (candidateName base) ∧ found = candidateName base n := by
  intro base
  obtain ⟨n, within, ends, taken⟩ := t.freeName_eq base t.types.size 0
  simp only [Nat.zero_add] at ends taken
  have free : t.lookupType (candidateName base n) = none := by
    have chosen := t.lookupType_uniqueTypeName qualifier name
    rwa [uniqueTypeName, ends] at chosen
  have search :
      t.Searches base 0 ((List.range (n + 1)).map (candidateName base)) (candidateName base n) := by
    have first := Searches.of_first (n := 0) (m := n) (by simpa using taken) (by simpa using free)
    simpa [List.range_eq_range'] using first
  refine ⟨n, within, ends, lookupType_eq_none_iff.mp free, ?_, ?_⟩
  · intro i hi
    by_contra none
    apply taken i hi
    rw [lookupType_eq_none_iff]
    intro d hd named
    exact none ⟨d, hd, named⟩
  · intro probed found
    constructor
    · intro other
      exact other.unique search
    · rintro ⟨rfl, rfl⟩
      exact search

/-- A gap among the numbers is filled, and an empty qualifier is none. -/
example :
    let type (name : String) : TypeDescriptor := ⟨name, .classType, .empty, none, none⟩
    let t := load [type "p.A", type "p.A$1", type "p.A$3", type "B"] [] []
    t.uniqueTypeName (some "p") "A" = "p.A$2" ∧ t.uniqueTypeName (some "") "B" = "B$1" ∧
      t.uniqueTypeName none "A" = "A" := by
  decide +kernel

end BindingTable

end ClassInit
