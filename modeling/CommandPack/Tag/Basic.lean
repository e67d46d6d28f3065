import CommandPack.Dict

/-!
Tags: the trees that storages, entities and block entities hold.
-/

namespace CommandPack

/-- A typed tree of data. The fields of a compound are kept in key order. -/
inductive Tag where
  | byte (n : Int8)
  | short (n : Int16)
  | int (n : Int32)
  | long (n : Int64)
  | float (x : Float32)
  | double (x : Float)
  | string (s : String)
  | list (items : List Tag)
  | compound (fields : List (String × Tag))
deriving Inhabited

namespace Tag

def number? : Tag → Option Float
  | byte n => some (Float.ofInt n.toInt)
  | short n => some (Float.ofInt n.toInt)
  | int n => some (Float.ofInt n.toInt)
  | long n => some (Float.ofInt n.toInt)
  | float x => some x.toFloat
  | double x => some x
  | _ => none

def string? : Tag → Option String
  | string s => some s
  | _ => none

def items? : Tag → Option (List Tag)
  | list items => some items
  | _ => none

def typeName : Tag → String
  | byte _ => "byte"
  | short _ => "short"
  | int _ => "int"
  | long _ => "long"
  | float _ => "float"
  | double _ => "double"
  | string _ => "string"
  | list _ => "list"
  | compound _ => "compound"

end Tag

end CommandPack
