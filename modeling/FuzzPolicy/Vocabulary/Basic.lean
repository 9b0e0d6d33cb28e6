/-!
# Vocabularies

Every random choice of the generator is made among the words of some small vocabulary: node kinds,
operators, integer types, modes. A vocabulary is a type whose values can all be listed and each of
which has one written name. Names are how documents, messages and reports refer to the values.

The two laws say that the list is complete and that looking a name up in it finds the value the name
was taken from, so no two words share a name.
-/

namespace FuzzPolicy

/-- A finite type whose values are listed in a fixed order and named apart. -/
class Vocabulary (α : Type) where
  /-- Every value, in declaration order. -/
  all : List α
  /-- The written name of a value. -/
  name : α → String
  /-- The list leaves no value out. -/
  mem_all : ∀ a, a ∈ all
  /-- The first value listed under the name of `a` is `a`. -/
  find_name : ∀ a, all.find? (fun b => name b == name a) = some a

namespace Vocabulary

variable {α : Type} [Vocabulary α]

/-- The value written `s`, if there is one. -/
def ofName? (s : String) : Option α :=
  (all : List α).find? fun a => name a == s

/-- The names of all values, in declaration order. -/
def names (α : Type) [Vocabulary α] : List String :=
  (all : List α).map name

theorem ofName?_name (a : α) : ofName? (name a) = some a :=
  find_name a

theorem name_eq_of_ofName?_eq_some {s : String} {a : α} (h : ofName? s = some a) : name a = s := by
  simpa using List.find?_some h

theorem name_injective {a b : α} (h : name a = name b) : a = b := by
  have ha := ofName?_name a
  rw [h, ofName?_name b] at ha
  exact (Option.some.inj ha).symm

end Vocabulary

end FuzzPolicy
