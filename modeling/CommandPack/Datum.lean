import CommandPack.Json
import CommandPack.Decimal.Layout
import CommandPack.Decimal.Numeral
import CommandPack.Dict

/-!
Data: the loosely typed values of text styles, with their written forms.
-/

namespace CommandPack

inductive Datum where
  | null
  | bool (b : Bool)
  | int (n : Int)
  | float (x : Float)
  | string (s : String)
  /-- A point in time, given by its text for machines, if it has one, and its text for people. -/
  | time (stamp : Option String) (text : String)
  | list (xs : List Datum)
  /-- Entries with text keys, by key. -/
  | dict (fields : List (String × Datum))
  /-- Entries of which some key is no text. -/
  | mixed (fields : List (Datum × Datum))
deriving Inhabited

namespace Datum

/-- Why a value has no JSON form. -/
inductive Unencodable where
  | number (text : String)
  | keys
  | zone

def Unencodable.message : Unencodable → String
  | number text => "json: unsupported value: " ++ text
  | keys => "json: unsupported keys"
  | zone => "json: timezone hour outside of range [0,23]"

mutual

/-- The JSON form. Only finite numbers and entries with text keys have one. -/
def toJson : Datum → Except Unencodable Json
  | null => .ok .null
  | bool b => .ok (.bool b)
  | int n => .ok (.ofInt n)
  | float x =>
    if x.isFinite then .ok (.number (Decimal.renderDouble .json x))
    else .error (.number (Decimal.renderDouble .plain x))
  | string s => .ok (.string s)
  | time (some stamp) _ => .ok (.string stamp)
  | time none _ => .error .zone
  | list xs => do return .array (← toJsonList xs)
  | dict fields => do return .object (← toJsonFields fields)
  | mixed _ => .error .keys

def toJsonList : List Datum → Except Unencodable (List Json)
  | [] => .ok []
  | x :: xs => do
    let j ← toJson x
    return j :: (← toJsonList xs)

def toJsonFields : List (String × Datum) → Except Unencodable (List (String × Json))
  | [] => .ok []
  | (k, x) :: fields => do
    let j ← toJson x
    return (k, j) :: (← toJsonFields fields)

end

mutual

def display : Datum → String
  | null => "<nil>"
  | bool b => if b then "true" else "false"
  | int n => toString n
  | float x => Decimal.renderDouble .general x
  | string s => s
  | time _ text => text
  | list xs => "[" ++ " ".intercalate (displayList xs) ++ "]"
  | dict fields => "map[" ++ " ".intercalate (displayFields fields) ++ "]"
  | mixed fields => "map[" ++ " ".intercalate (displayPairs fields) ++ "]"

def displayList : List Datum → List String
  | [] => []
  | x :: xs => display x :: displayList xs

def displayFields : List (String × Datum) → List String
  | [] => []
  | (k, x) :: fields => (k ++ ":" ++ display x) :: displayFields fields

def displayPairs : List (Datum × Datum) → List String
  | [] => []
  | (k, x) :: fields => (display k ++ ":" ++ display x) :: displayPairs fields

end

mutual

def ofJson : Json → Datum
  | .null => null
  | .bool b => bool b
  | .number n => float ((Decimal.readDouble? n).getD 0)
  | .string s => string s
  | .array xs => list (ofJsonList xs)
  | .object fs => dict (Dict.ofList (ofJsonFields fs))

def ofJsonList : List Json → List Datum
  | [] => []
  | x :: xs => ofJson x :: ofJsonList xs

def ofJsonFields : List (String × Json) → List (String × Datum)
  | [] => []
  | (k, x) :: fs => (k, ofJson x) :: ofJsonFields fs

end

end Datum

end CommandPack
