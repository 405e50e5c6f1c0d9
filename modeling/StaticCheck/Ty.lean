/-! # Types

The four types of the language and `undefined`, the type of a name that was declared with a type
name nobody knows.  Nothing is known about such a value, so it conflicts with no type. -/

namespace StaticCheck

/-- The type of an expression. -/
inductive Ty where
  | undefined | int | real | bool | list
deriving DecidableEq

namespace Ty

/-- The type that a type name stands for. -/
def ofName (name : String) : Ty :=
  if name = "int" then int
  else if name = "bool" then bool
  else if name = "float" then real
  else if name = "list" then list
  else undefined

def name : Ty → String
  | undefined => "undefined"
  | int => "int"
  | real => "float"
  | bool => "bool"
  | list => "list"

/-- Whether anything is known about the type. -/
def isDefined : Ty → Bool
  | undefined => false
  | _ => true

def isNumeric : Ty → Bool
  | int | real => true
  | _ => false

/-- Whether two types are known and differ. -/
def conflicts (a b : Ty) : Bool := a.isDefined && b.isDefined && a != b

/-- Whether a value may be given to a name: its type is unknown or the declared one. -/
def fits (value declared : Ty) : Bool := !value.isDefined || value == declared

end Ty

end StaticCheck
