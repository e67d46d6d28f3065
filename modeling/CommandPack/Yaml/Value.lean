import CommandPack.Datum
import CommandPack.Yaml.Node

/-!
The values of YAML nodes.
-/

namespace CommandPack.Yaml

def base64Digit? (c : Char) : Option Nat :=
  if 'A' ≤ c ∧ c ≤ 'Z' then some (c.toNat - 'A'.toNat)
  else if 'a' ≤ c ∧ c ≤ 'z' then some (c.toNat - 'a'.toNat + 26)
  else if '0' ≤ c ∧ c ≤ '9' then some (c.toNat - '0'.toNat + 52)
  else if c = '+' then some 62
  else if c = '/' then some 63
  else none

def base64Bytes? : List Char → Option (List Nat)
  | [] => some []
  | a :: b :: c :: d :: rest => do
    let x := 64 * (← base64Digit? a) + (← base64Digit? b)
    if c = '=' then
      if d = '=' ∧ rest.isEmpty then return [x / 16] else none
    else
      let x := 64 * x + (← base64Digit? c)
      if d = '=' then
        if rest.isEmpty then return [x / 1024, x / 4 % 256] else none
      else
        let x := 64 * x + (← base64Digit? d)
        return x / 65536 :: x / 256 % 256 :: x % 256 :: (← base64Bytes? rest)
  | _ => none

/-- Text from bytes; bytes that are no text become the replacement character. -/
def textOfBytes : (fuel : Nat) → List Nat → String
  | 0, _ => ""
  | _, [] => ""
  | fuel + 1, b :: bytes =>
    let attempt (n : Nat) : Option String :=
      String.fromUTF8? ⟨((b :: bytes).take n).map UInt8.ofNat |>.toArray⟩
    match attempt 1, attempt 2, attempt 3, attempt 4 with
    | some s, _, _, _ => s ++ textOfBytes fuel bytes
    | none, some s, _, _ => s ++ textOfBytes fuel (bytes.drop 1)
    | none, none, some s, _ => s ++ textOfBytes fuel (bytes.drop 2)
    | none, none, none, some s => s ++ textOfBytes fuel (bytes.drop 3)
    | none, none, none, none => "�" ++ textOfBytes fuel bytes

/-- The value of a scalar of the tag. An integer may stand for a floating-point number. -/
def scalarValue (tag text : String) : Except Fault Datum :=
  if tag = "!!str" then .ok (.string text)
  else if tag = "!!binary" then
    match base64Bytes? (text.toList.filter fun c => c != '\n' && c != '\r') with
    | some bytes => .ok (.string (textOfBytes bytes.length bytes))
    | none => .error .badBase64
  else
    let m := Meaning.ofText (tag = "!!timestamp") text
    if m.tag ≠ tag then
      match m with
      | .int n => if tag = "!!float" ∧ n ≤ Decimal.greatestInt64 then .ok (.float (Float.ofInt n))
        else .error .tagMismatch
      | _ => .error .tagMismatch
    else match m with
      | .null => .ok .null
      | .bool b => .ok (.bool b)
      | .int n => .ok (.int n)
      | .float x => .ok (.float x)
      | .time t => .ok (.time t.stamp? t.text)
      | .text => .ok (.string text)

namespace Node

def tag : Node → String
  | scalar _ tag .. | sequence _ tag _ | mapping _ tag _ => tag
  | ref _ _ (some target) => target.tag
  | ref _ _ none => ""

def isMerge : Node → Bool
  | scalar _ "!!merge" "<<" _ => true
  | _ => false

def target : Node → Node
  | ref _ _ (some target) => target
  | n => n

def sameKey : Node → Node → Bool
  | scalar _ _ a _, scalar _ _ b _ => a == b
  | ref _ a _, ref _ b _ => a == b
  | sequence .., sequence .. => true
  | mapping .., mapping .. => true
  | _, _ => false

end Node

def distinctKeys : List (Node × Node) → Bool
  | [] => true
  | (k, _) :: rest => rest.all (fun (k', _) => !k.sameKey k') && distinctKeys rest

/-- Keys in the order in which they are shown: nothing, truth values, integers, floating-point
numbers, texts, and times, each by value. -/
def keyRank : Datum → Nat
  | .null => 0
  | .bool _ => 1
  | .int _ => 2
  | .float _ => 3
  | .string _ => 4
  | _ => 5

def keyBelow (a b : Datum) : Bool :=
  match a, b with
  | .int m, .int n => decide (m < n)
  | .float x, .float y => decide (x < y)
  | a, b => if keyRank a = keyRank b then decide (a.display < b.display)
      else decide (keyRank a < keyRank b)

def placeEntry (k v : Datum) : List (Datum × Datum) → List (Datum × Datum)
  | [] => [(k, v)]
  | (k', v') :: rest =>
    if keyBelow k k' then (k, v) :: (k', v') :: rest
    else if keyBelow k' k then (k', v') :: placeEntry k v rest
    else (k, v) :: rest

def hasEntry (k : Datum) (entries : List (Datum × Datum)) : Bool :=
  entries.any fun (k', _) => !keyBelow k k' && !keyBelow k' k

/-- The key of an entry. In a mapping whose keys are texts it is the text as written, and nothing is
no key. -/
def keyValue (texts : Bool) (n : Node) : Except Fault (Option Datum) :=
  match n.target with
  | .scalar _ tag text _ => do
    let v ← scalarValue tag text
    if ¬ texts then return some v
    else if tag = "!!binary" then return some v
    else if tag = "!!null" then return none
    else return some (.string text)
  | _ => .error .badKey

mutual

/-- The value of a node. `fuel` bounds the depth. -/
def valueOf : (fuel : Nat) → Node → Except Fault Datum
  | 0, _ => .error .selfContained
  | fuel + 1, n =>
    match n with
    | .scalar _ tag text _ => scalarValue tag text
    | .ref _ _ (some target) => valueOf fuel target
    | .ref _ _ none => .error .selfContained
    | .sequence _ _ items => do return .list (← items.mapM (valueOf fuel))
    | .mapping _ _ entries => do
      let texts := entries.all fun (k, _) => k.tag == "!!str" || k.tag == "!!merge"
      let fields ← mergeEntries fuel texts [] entries
      if texts then return .dict (fields.map fun (k, v) => (k.display, v))
      else return .mixed fields

/-- Adds the entries of a mapping that are not there yet, then those that it brings in. -/
def mergeEntries : (fuel : Nat) → (texts : Bool) → List (Datum × Datum) → List (Node × Node) →
    Except Fault (List (Datum × Datum))
  | 0, _, _, _ => .error .selfContained
  | fuel + 1, texts, fields, entries => do
    if ¬ distinctKeys entries then throw .repeatedKey
    let known := fields
    let fields ← entries.foldlM (fun fields (k, v) => do
      if k.isMerge then return fields
      match ← keyValue texts k with
      | none => return fields
      | some key =>
        if hasEntry key known then return fields
        return placeEntry key (← valueOf fuel v) fields) fields
    match entries.find? (·.1.isMerge) with
    | none => return fields
    | some (_, .sequence _ _ sources) =>
      sources.foldlM (fun fields source =>
        match source.target with
        | .mapping _ _ entries => mergeEntries fuel texts fields entries
        | _ => throw .badMerge) fields
    | some (_, source) =>
      match source.target with
      | .mapping _ _ entries => mergeEntries fuel texts fields entries
      | _ => throw .badMerge

end

mutual

/-- The depth of a node, through what its references mention. -/
def Node.depth : Node → Nat
  | .scalar .. => 1
  | .ref _ _ none => 1
  | .ref _ _ (some target) => target.depth + 1
  | .sequence _ _ items => depthOfItems items + 1
  | .mapping _ _ entries => depthOfEntries entries + 1

def depthOfItems : List Node → Nat
  | [] => 0
  | n :: ns => max n.depth (depthOfItems ns)

def depthOfEntries : List (Node × Node) → Nat
  | [] => 0
  | (k, v) :: rest => max (max k.depth v.depth) (depthOfEntries rest)

end

def Node.value (n : Node) : Except Fault Datum := valueOf (2 * n.depth + 2) n

def Node.record (n : Node) : Except Fault (Dict Datum) :=
  match n with
  | .mapping _ _ entries => do
    let fields ← mergeEntries (2 * n.depth + 2) true [] entries
    return fields.map fun (k, v) => (k.display, v)
  | .scalar _ "!!null" _ _ => .ok []
  | _ => .error .tagMismatch

end CommandPack.Yaml
