/-
Module: JavaUnit.Modifier
Purpose: Declaration modifiers, and sets of them in the one order in which they are rendered.
Main exports: Modifier, Modifier.text, Modifier.isVisibility, Modifiers, Modifiers.ofList,
  Modifiers.insert, Modifiers.visibility?, Modifiers.render
-/
import JavaUnit.Text

namespace JavaUnit

/-- What may stand in front of a declaration, in the order of canonical output. -/
inductive Modifier where
  | «public» | «protected» | «private» | abstract | default | static | final
  | transient | volatile | synchronized | native | strictfp
deriving DecidableEq, Repr

namespace Modifier

/-- All modifiers in canonical order. -/
def all : List Modifier :=
  [.«public», .«protected», .«private», .abstract, .default, .static, .final,
    .transient, .volatile, .synchronized, .native, .strictfp]

/-- The spelling of a modifier. -/
def text : Modifier → Text
  | .«public» => "public".toList
  | .«protected» => "protected".toList
  | .«private» => "private".toList
  | .abstract => "abstract".toList
  | .default => "default".toList
  | .static => "static".toList
  | .final => "final".toList
  | .transient => "transient".toList
  | .volatile => "volatile".toList
  | .synchronized => "synchronized".toList
  | .native => "native".toList
  | .strictfp => "strictfp".toList

/-- The spelling of a modifier with a capital letter. -/
def capitalized (modifier : Modifier) : Text :=
  match modifier.text with
  | [] => []
  | first :: rest => first.toUpper :: rest

/-- Whether a modifier says who may see a declaration. -/
def isVisibility : Modifier → Bool
  | .«public» | .«protected» | .«private» => true
  | _ => false

theorem mem_all (m : Modifier) : m ∈ all := by
  cases m <;> decide

/-- The members of `given` that repeat one of `earlier` or an earlier member, in order. -/
def repeatsAfter (earlier : List Modifier) : List Modifier → List Modifier
  | [] => []
  | m :: rest =>
    if m ∈ earlier then m :: repeatsAfter earlier rest
    else repeatsAfter (m :: earlier) rest

/-- The members of `given` that occurred before, once per repeated occurrence. -/
def repeats (given : List Modifier) : List Modifier :=
  repeatsAfter [] given

/-- The distinct visibilities of `given`, in the order of their first occurrence. -/
def visibilities (given : List Modifier) : List Modifier :=
  (given.filter isVisibility).eraseDups

end Modifier

/-- A set of modifiers, listed in canonical order. -/
structure Modifiers where
  toList : List Modifier
  canonical : toList = Modifier.all.filter (· ∈ toList)
deriving DecidableEq

namespace Modifiers

/-- The set of the members of a list. -/
def ofList (given : List Modifier) : Modifiers where
  toList := Modifier.all.filter (· ∈ given)
  canonical := by
    apply List.filter_congr
    intro m hm
    simp [hm]

/-- No modifiers. -/
def empty : Modifiers := ofList []

instance : Inhabited Modifiers := ⟨empty⟩

/-- Whether a modifier is in the set. -/
def contains (set : Modifiers) (m : Modifier) : Bool :=
  m ∈ set.toList

/-- The set with one more member. -/
def insert (set : Modifiers) (m : Modifier) : Modifiers :=
  ofList (m :: set.toList)

/-- Whether the set has no members. -/
def isEmpty (set : Modifiers) : Bool :=
  set.toList.isEmpty

/-- The first visibility of the set in canonical order. -/
def visibility? (set : Modifiers) : Option Modifier :=
  set.toList.find? Modifier.isVisibility

/-- The members' spellings, separated by spaces. -/
def render (set : Modifiers) : Text :=
  Text.join [' '] (set.toList.map Modifier.text)

/-- Nothing but the order of the modifiers is lost. -/
@[simp] theorem mem_ofList {given : List Modifier} {m : Modifier} :
    m ∈ (ofList given).toList ↔ m ∈ given := by
  simp [ofList, Modifier.mem_all]

/-- A set is determined by its members. -/
theorem ext_mem {left right : Modifiers} (h : ∀ m, m ∈ left.toList ↔ m ∈ right.toList) :
    left = right := by
  obtain ⟨l, hl⟩ := left
  obtain ⟨r, hr⟩ := right
  have : l = r := by
    rw [hl, hr]
    exact List.filter_congr fun m _ => by simpa using h m
  subst this
  rfl

@[simp] theorem ofList_toList (set : Modifiers) : ofList set.toList = set :=
  ext_mem fun _ => mem_ofList

end Modifiers

end JavaUnit
