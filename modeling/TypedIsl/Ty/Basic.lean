/-!
# Types

Types of values, with a dynamic type `any` and a placeholder `flexible` for what is not known.
Unions are normalized by `collapse`; `canBe` says which types may stand in for which.
-/

namespace TypedIsl

mutual

inductive Ty where
  | number
  | string
  | boolean
  | symbol
  | list (element : Ty)
  | function (params : List Param) (result : Ty)
  | struct (name : String)
  | union (members : List Ty)
  | any
  | flexible
  | void

/-- A parameter of a function type. Arguments may be given to a `many` parameter any number of
times, but at least once. -/
inductive Param where
  | fixed (type : Ty)
  | many (type : Ty)

end

namespace Param

def type : Param → Ty
  | fixed type => type
  | many type => type

def isMany : Param → Bool
  | fixed _ => false
  | many _ => true

end Param

/-- The outermost constructor of a type. -/
inductive Tag where
  | number
  | string
  | boolean
  | symbol
  | list
  | function
  | struct
  | union
  | any
  | flexible
  | void
deriving DecidableEq

namespace Tag

def text : Tag → String
  | number => "number"
  | string => "string"
  | boolean => "boolean"
  | symbol => "symbol"
  | list => "list"
  | function => "function"
  | struct => "struct"
  | union => "union"
  | any => "any"
  | flexible => "flexible"
  | void => "void"

def all : List Tag :=
  [number, string, boolean, symbol, list, function, struct, union, any, flexible, void]

/-- The tag spelled `text`. -/
def ofText? (text : String) : Option Tag :=
  all.find? (·.text = text)

end Tag

namespace Ty

def tag : Ty → Tag
  | number => .number
  | string => .string
  | boolean => .boolean
  | symbol => .symbol
  | list _ => .list
  | function _ _ => .function
  | struct _ => .struct
  | union _ => .union
  | any => .any
  | flexible => .flexible
  | void => .void

end Ty

/-! ## Equality -/

mutual

def Ty.same : Ty → Ty → Bool
  | .list a, .list b => a.same b
  | .function ps a, .function qs b => Param.allSame ps qs && a.same b
  | .struct n, .struct m => n == m
  | .union ts, .union us => Ty.allSame ts us
  | .number, .number => true
  | .string, .string => true
  | .boolean, .boolean => true
  | .symbol, .symbol => true
  | .any, .any => true
  | .flexible, .flexible => true
  | .void, .void => true
  | _, _ => false

def Ty.allSame : List Ty → List Ty → Bool
  | [], [] => true
  | t :: ts, u :: us => t.same u && Ty.allSame ts us
  | _, _ => false

def Param.same : Param → Param → Bool
  | .fixed a, .fixed b => a.same b
  | .many a, .many b => a.same b
  | _, _ => false

def Param.allSame : List Param → List Param → Bool
  | [], [] => true
  | p :: ps, q :: qs => p.same q && Param.allSame ps qs
  | _, _ => false

end

mutual

theorem Ty.same_iff (a b : Ty) : a.same b = true ↔ a = b := by
  cases a with
  | list a => cases b <;> simp [Ty.same, Ty.same_iff a]
  | function ps a => cases b <;> simp [Ty.same, Param.allSame_iff ps, Ty.same_iff a]
  | union ts => cases b <;> simp [Ty.same, Ty.allSame_iff ts]
  | _ => cases b <;> simp [Ty.same]
termination_by structural a

theorem Ty.allSame_iff (ts us : List Ty) : Ty.allSame ts us = true ↔ ts = us := by
  cases ts with
  | nil => cases us <;> simp [Ty.allSame]
  | cons t ts => cases us <;> simp [Ty.allSame, Ty.same_iff t, Ty.allSame_iff ts]
termination_by structural ts

theorem Param.same_iff (p q : Param) : p.same q = true ↔ p = q := by
  cases p with
  | fixed a => cases q <;> simp [Param.same, Ty.same_iff a]
  | many a => cases q <;> simp [Param.same, Ty.same_iff a]
termination_by structural p

theorem Param.allSame_iff (ps qs : List Param) : Param.allSame ps qs = true ↔ ps = qs := by
  cases ps with
  | nil => cases qs <;> simp [Param.allSame]
  | cons p ps => cases qs <;> simp [Param.allSame, Param.same_iff p, Param.allSame_iff ps]
termination_by structural ps

end

instance : DecidableEq Ty := fun a b => decidable_of_iff _ (Ty.same_iff a b)

instance : DecidableEq Param := fun p q => decidable_of_iff _ (Param.same_iff p q)

/-! ## Unions -/

namespace Ty

/-- The members of a union; any other type is its own only member. -/
def members : Ty → List Ty
  | union members => members
  | t => [t]

/-- Keeps the first type of each tag. -/
def dedupe : List Ty → List Ty
  | [] => []
  | t :: ts => t :: (dedupe ts).filter (·.tag ≠ t.tag)

/-- The type of a value that has one of the given types, none of which is a union. -/
def join (ts : List Ty) : Ty :=
  if any ∈ ts then any
  else match dedupe ts with
    | [] => flexible
    | [t] => t
    | ts => union ts

end Ty

mutual

/-- Flattens nested unions, of which `any` absorbs the others, and keeps one type of each tag. A
union without members becomes `flexible`. Types that are no unions stay as they are. -/
def Ty.collapse : Ty → Ty
  | .union members => Ty.join (Ty.flatten members)
  | t => t

def Ty.flatten : List Ty → List Ty
  | [] => []
  | t :: ts => t.collapse.members ++ Ty.flatten ts

end

/-- The collapsed union. -/
def Ty.unionOf (ts : List Ty) : Ty :=
  (Ty.union ts).collapse

/-! ## Compatibility -/

mutual

/-- Whether a value of the type can be taken for one of a type with the given tag, which is
neither `any` nor that of a union. -/
def Ty.fits (tag : Tag) : Ty → Bool
  | .flexible => true
  | .union sources => Ty.allFit tag sources
  | t => t.tag == tag

def Ty.allFit (tag : Tag) : List Ty → Bool
  | [] => true
  | t :: ts => t.fits tag && Ty.allFit tag ts

end

mutual

/-- Whether a value of type `a` may be used where the second type is expected. Only tags are
compared, so any two structs are compatible, as are any two lists or functions. -/
def Ty.canBe (a : Ty) : Ty → Bool
  | .any => true
  | .union targets => a.tag == .flexible || a.canBeOneOf targets
  | b => a.fits b.tag

def Ty.canBeOneOf (a : Ty) : List Ty → Bool
  | [] => false
  | b :: bs => a.canBe b || a.canBeOneOf bs

end

/-! ## Text -/

mutual

def Ty.text : Ty → String
  | .list element => "list(" ++ element.text ++ ")"
  | .function [] result => "function(-> " ++ result.text ++ ")"
  | .function (p :: ps) result =>
      "function(" ++ p.text ++ Param.restText ps ++ " -> " ++ result.text ++ ")"
  | .struct name => "struct(" ++ name ++ ")"
  | .union [] => "union()"
  | .union (t :: ts) => "union(" ++ t.text ++ Ty.restText ts ++ ")"
  | t => t.tag.text

/-- The types after the first one. -/
def Ty.restText : List Ty → String
  | [] => ""
  | t :: ts => ", " ++ t.text ++ Ty.restText ts

def Param.text : Param → String
  | .fixed type => type.text
  | .many type => type.text ++ "..."

def Param.restText : List Param → String
  | [] => ""
  | p :: ps => ", " ++ p.text ++ Param.restText ps

end

/-! ## Names -/

mutual

/-- The names of structs in a type, from left to right. -/
def Ty.structNames : Ty → List String
  | .list element => element.structNames
  | .function params result => Param.allStructNames params ++ result.structNames
  | .struct name => [name]
  | .union members => Ty.allStructNames members
  | _ => []

def Ty.allStructNames : List Ty → List String
  | [] => []
  | t :: ts => t.structNames ++ Ty.allStructNames ts

def Param.structNames : Param → List String
  | .fixed type => type.structNames
  | .many type => type.structNames

def Param.allStructNames : List Param → List String
  | [] => []
  | p :: ps => p.structNames ++ Param.allStructNames ps

end

end TypedIsl
