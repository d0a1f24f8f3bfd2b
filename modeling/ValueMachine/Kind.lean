/-!
# Kinds

Every value has a kind, and every cell remembers the kind it was declared with. Objects with a
payload of their own have a sub-kind.
-/

namespace ValueMachine

inductive Kind where
  | number
  | string
  | array
  | object
  | bool
  | null
  | undefined
  | function
  deriving DecidableEq

namespace Kind

/-- The number that compiled code knows a kind by. -/
def tag : Kind → Nat
  | number => 0
  | string => 1
  | array => 2
  | object => 3
  | bool => 4
  | null => 5
  | undefined => 6
  | function => 7

def ofTag? : Int → Option Kind
  | 0 => some number
  | 1 => some string
  | 2 => some array
  | 3 => some object
  | 4 => some bool
  | 5 => some null
  | 6 => some undefined
  | 7 => some function
  | _ => none

theorem ofTag?_tag (k : Kind) : ofTag? k.tag = some k := by cases k <;> rfl

/-- The name that the language's `typeof` answers. -/
def typeName : Kind → String
  | number => "num"
  | string => "str"
  | bool => "bl"
  | null => "null"
  | array => "obj"
  | object => "obj"
  | function => "func"
  | undefined => "undef"

/-- The name of a kind in diagnostics. -/
def label : Kind → String
  | number => "Number"
  | string => "String"
  | array => "Array"
  | object => "Object"
  | bool => "Bool"
  | null => "Null"
  | undefined => "Undefined"
  | function => "Function"

def all : List Kind := [number, string, array, object, bool, null, undefined, function]

def ofLabel? (label : String) : Option Kind := all.find? (·.label == label)

end Kind

inductive SubKind where
  | plain
  | buffer
  | fileHandle
  | error
  deriving DecidableEq

def SubKind.typeName : SubKind → String
  | plain => "Object"
  | buffer => "Buffer"
  | fileHandle => "FileHandle"
  | error => "Error"

end ValueMachine
