/-!
Dictionaries with text keys, kept as association lists in increasing key order.
-/

namespace CommandPack

abbrev Dict (α : Type) := List (String × α)

namespace Dict

variable {α β : Type}

def find? (k : String) : Dict α → Option α
  | [] => none
  | (k', a) :: d => if k' = k then some a else find? k d

def has (k : String) (d : Dict α) : Bool :=
  (find? k d).isSome

def replace (k : String) (a : α) : Dict α → Dict α
  | [] => []
  | (k', b) :: d => if k' = k then (k', a) :: d else (k', b) :: replace k a d

/-- Puts an entry before the first one with a larger key. -/
def place (k : String) (a : α) : Dict α → Dict α
  | [] => [(k, a)]
  | (k', b) :: d => if k < k' then (k, a) :: (k', b) :: d else (k', b) :: place k a d

def insert (k : String) (a : α) (d : Dict α) : Dict α :=
  if has k d then replace k a d else place k a d

def erase (k : String) (d : Dict α) : Dict α :=
  d.filter fun e => e.1 != k

def keys (d : Dict α) : List String :=
  d.map (·.1)

def merge (d e : Dict α) : Dict α :=
  e.foldl (fun d (k, a) => insert k a d) d

def ofList (entries : List (String × α)) : Dict α :=
  merge [] entries

end Dict

end CommandPack
