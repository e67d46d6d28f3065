import Mathlib
import CommandPack.Proofs.Effects
import CommandPack.Proofs.Exact
import CommandPack.Proofs.Minting

/-!
Stacks are lists in a storage, each under a key of its own, whose last items are the tops. Commands put a
score on top of a stack, read the top into a score and take it away; stacks that nothing was put on are missing.
-/

namespace CommandPack

variable {last : Tag} {vs : List Int32}

namespace Tag

variable {key : String} {items : List Tag} {fields : Dict Tag}

/-- The list under a key is the given one. Nothing there counts as the empty list. -/
def ListAt (key : String) (items : List Tag) (fields : Dict Tag) : Prop :=
  (Dict.find? key fields).getD (.list []) = .list items

theorem ListAt.cases (h : ListAt key items fields) :
    Dict.find? key fields = none ∧ items = [] ∨ Dict.find? key fields = some (.list items) := by
  cases hfind : Dict.find? key fields with
  | none =>
    rw [ListAt, hfind, Option.getD_none, Tag.list.injEq] at h
    exact .inl ⟨rfl, h.symm⟩
  | some t =>
    rw [ListAt, hfind, Option.getD_some] at h
    exact .inr (congrArg some h)

theorem listAt_insert (key key' : String) (items items' : List Tag) (h : key ≠ key' → ListAt key' items' fields)
    (hsame : key = key' → items = items') : ListAt key' items' (Dict.insert key (.list items) fields) := by
  rw [ListAt, Dict.find?_insert]
  split
  · rename_i heq
    rw [hsame heq, Option.getD_some]
  · rename_i hne
    exact h hne

theorem position?_last (n : Nat) : position? n (-1) = if n = 0 then none else some (n - 1) := by
  have hj : (-1 : Int) < 0 := by decide
  simp only [position?, hj, if_true]
  split
  · rw [if_neg (by omega)]
    congr 1
    omega
  · rw [if_pos (by omega)]

theorem append_list (h : ListAt key items fields) (t : Tag) :
    append t [.key key] (.compound fields) = (.compound (Dict.insert key (.list (items ++ [t])) fields), none) := by
  rcases h.cases with ⟨hfind, rfl⟩ | hfind
  · simp [append, mapItems, get?, set, hfind]
  · simp [append, mapItems, get?, set, hfind]

theorem get?_top (h : ListAt key items fields) :
    get? [.key key, .index (-1)] (.compound fields) = items.getLast? := by
  rcases h.cases with ⟨hfind, rfl⟩ | hfind
  · simp [get?, hfind]
  · simp only [get?, hfind, Option.bind_some, position?_last]
    cases items with
    | nil => rfl
    | cons x xs => simp [List.getLast?_eq_getElem?]

theorem set_top (h : ListAt key (items ++ [last]) fields) (t : Tag) :
    set t [.key key, .index (-1)] (.compound fields) =
      (.compound (Dict.insert key (.list (items ++ [t])) fields), none) := by
  rcases h.cases with ⟨-, hnil⟩ | hfind
  · simp at hnil
  · simp [set, hfind, position?_last]

theorem remove?_top (h : ListAt key items fields) :
    remove? [.key key, .index (-1)] (.compound fields) =
      items.getLast?.map fun _ ↦ .compound (Dict.insert key (.list items.dropLast) fields) := by
  rcases h.cases with ⟨hfind, rfl⟩ | hfind
  · simp [remove?, hfind]
  · cases items with
    | nil => simp [remove?, hfind, position?_last]
    | cons x xs => simp [remove?, hfind, position?_last, List.getLast?_cons, List.eraseIdx_eq_dropLast]

def isKeyChar (c : Char) : Bool := c != '.' && c != '[' && c != '"'

theorem scanPath_bare (piece rest : List Char) {cs : List Char} (h : ∀ c ∈ cs, isKeyChar c = true) :
    scanPath (.bare piece) (cs ++ rest) = scanPath (.bare (cs.reverse ++ piece)) rest := by
  induction cs generalizing piece with
  | nil => rfl
  | cons c cs ih =>
    have hc := h c List.mem_cons_self
    simp only [isKeyChar, Bool.and_eq_true, bne_iff_ne, ne_eq] at hc
    rw [List.cons_append, scanPath, if_neg hc.1.1, if_neg hc.1.2, ih _ fun d hd ↦ h d (List.mem_cons_of_mem c hd)]
    simp

theorem scanPath_key (hne : key ≠ "") (h : ∀ c ∈ key.toList, isKeyChar c = true) (rest : List Char) :
    scanPath .between (key.toList ++ rest) = scanPath (.bare key.toList.reverse) rest := by
  cases hkey : key.toList with
  | nil => exact absurd (String.toList_eq_nil_iff.1 hkey) hne
  | cons c cs =>
    rw [hkey] at h
    have hc := h c List.mem_cons_self
    simp only [isKeyChar, Bool.and_eq_true, bne_iff_ne, ne_eq] at hc
    rw [List.cons_append, scanPath, if_neg hc.1.1, if_neg hc.1.2, if_neg hc.2,
      scanPath_bare _ _ fun d hd ↦ h d (List.mem_cons_of_mem c hd), List.reverse_cons]

theorem readPath_key (hne : key ≠ "") (h : ∀ c ∈ key.toList, isKeyChar c = true) : readPath key = .ok [.key key] := by
  have hscan := scanPath_key hne h []
  rw [List.append_nil] at hscan
  simp [readPath, hscan, scanPath, bind, Except.bind]

theorem readPath_top (hne : key ≠ "") (h : ∀ c ∈ key.toList, isKeyChar c = true) :
    readPath (key ++ "[-1]") = .ok [.key key, .index (-1)] := by
  have hscan := scanPath_key hne h "[-1]".toList
  have hrest : scanPath (.bare key.toList.reverse) "[-1]".toList = .ok [.key key, .index (-1)] := by
    have hindex : scanPath (.bracket []) "-1]".toList = .ok [.index (-1)] := rfl
    change (Step.key (String.ofList key.toList.reverse.reverse) :: ·) <$> scanPath (.bracket []) "-1]".toList = _
    rw [hindex, List.reverse_reverse, String.ofList_toList]
    rfl
  rw [readPath, String.toList_append, hscan, hrest]
  rfl

end Tag

namespace Machine

open Stateful Text

variable {m m₁ m' : Machine} {site : Site} {actor : Actor} {call : Call} {id key p o : String} {items : List Tag}

def fieldsOf (id : String) (m : Machine) : Dict Tag := (Dict.find? id m.storage).getD []

def withStorage (id : String) (m : Machine) : Machine :=
  if Dict.has id m.storage then m else { m with storage := Dict.insert id [] m.storage }

def stored (id : String) (fields : Dict Tag) (m : Machine) : Machine :=
  { m with storage := Dict.insert id fields m.storage }

theorem find?_withStorage (id id' : String) (m : Machine) : Dict.find? id' (m.withStorage id).storage =
    if Dict.has id m.storage = false ∧ id = id' then some [] else Dict.find? id' m.storage := by
  unfold withStorage
  split
  · rename_i hhas
    simp [hhas]
  · rename_i hhas
    simp [Bool.eq_false_iff.2 hhas]

@[simp] theorem fieldsOf_withStorage (id id' : String) (m : Machine) :
    fieldsOf id' (m.withStorage id) = fieldsOf id' m := by
  rw [fieldsOf, fieldsOf, find?_withStorage]
  split
  · rename_i h
    obtain ⟨hhas, rfl⟩ := h
    rw [Dict.has, Option.isSome_eq_false_iff, Option.isNone_iff_eq_none] at hhas
    rw [hhas]
    rfl
  · rfl

theorem load_withStorage (id : String) (m : Machine) : Place.load (m.withStorage id) (.storage id) = fieldsOf id m :=
  fieldsOf_withStorage id id m

@[simp] theorem fieldsOf_stored (id : String) (fields : Dict Tag) (m : Machine) :
    fieldsOf id (m.stored id fields) = fields := by
  simp [fieldsOf, stored]

@[simp] theorem fieldsOf_withObjective (id o : String) (m : Machine) :
    fieldsOf id (m.withObjective o) = fieldsOf id m := by
  unfold withObjective
  split <;> rfl

@[simp] theorem count_withStorage (id : String) (m : Machine) : (m.withStorage id).count = m.count := by
  unfold withStorage
  split <;> rfl

@[simp] theorem cancelled_withStorage (id : String) (m : Machine) : (m.withStorage id).cancelled = m.cancelled := by
  unfold withStorage
  split <;> rfl

@[simp] theorem scores_withStorage (id : String) (m : Machine) : (m.withStorage id).scores = m.scores := by
  unfold withStorage
  split <;> rfl

@[simp] theorem cancelled_withObjective (o : String) (m : Machine) : (m.withObjective o).cancelled = m.cancelled := by
  unfold withObjective
  split <;> rfl

theorem dataTarget_storage (rest : List String) :
    dataTarget site actor ("storage" :: id :: rest) m = (.ok ⟨some (.storage id), 2⟩, m.withStorage id) := by
  simp only [dataTarget, if_true, bind_apply, modify_apply, andThen_ok, pure_apply]
  rfl

theorem data_storage (word : String) (args : List String) : data site actor (word :: "storage" :: id :: args) m =
    (if word = "get" then dataGet site (.storage id) args
      else if word = "remove" then dataRemove site (.storage id) args
      else if word = "merge" then dataMerge site (.storage id) args
      else if word = "modify" then dataModify site actor (.storage id) args
      else fault site (.unknownData word)) (m.withStorage id) := by
  simp only [data, bind_apply, dataTarget_storage, andThen_ok, List.drop_succ_cons, List.drop_zero]

theorem perform_data (words : List String) : perform call site ("data" :: words) actor = data site actor words := by
  rw [perform.eq_def]
  simp [simple]

theorem pathOrFault_of_readPath {s : String} {steps : List Tag.Step} (h : Tag.readPath s = .ok steps) :
    pathOrFault site s = pure steps := by
  rw [pathOrFault, h]

theorem scaleOrFault_one : scaleOrFault site "1" = pure 1 := by
  rw [scaleOrFault, Decimal.readDouble?_one]

theorem perform_stored (kind : String) (args words : List String) (hkind : storeWidth? kind = some (args.length + 1))
    (hwords : words ≠ []) :
    perform call site ("execute" :: "store" :: "result" :: kind :: (args ++ "run" :: words)) actor = (do
      let r ← perform call site words actor
      (⟨false, kind :: args⟩ : Store).apply site actor r
      return r.settled) := by
  have hempty : words.isEmpty = false := by simpa using hwords
  have hread : readStore site ("result" :: kind :: (args ++ "run" :: words)) =
      pure (⟨false, kind :: args⟩, args.length + 1 + 1) := by
    have hlength : ¬ (kind :: (args ++ "run" :: words)).length < args.length + 1 := by simp
    simp only [readStore, hkind, hlength, if_false, ne_eq, not_true_eq_false, false_and]
    funext m
    simp
  have hskip : chain call site _ _ _ = _ := chain_skip ("result" :: kind :: args) ("run" :: words)
    ⟨actor, [actor], [⟨false, kind :: args⟩]⟩
  rw [perform.eq_def]
  simp only [if_true]
  rw [chain.eq_def]
  simp only [String.reduceEq, if_false, Chain.clause, false_or, if_true, hread, pure_bind, List.nil_append]
  rw [List.length_cons, List.length_cons, List.cons_append, List.cons_append] at hskip
  rw [hskip, chain.eq_def]
  funext m
  simp only [if_true, hempty, Bool.false_eq_true, if_false, Chain.runEach, List.forIn_cons, List.forIn_nil, bind_apply,
    applyStores]
  rcases perform call site words actor m with ⟨e | r, m₁⟩
  · rfl
  · simp only [andThen_ok, bind_apply]
    rcases Store.apply ⟨false, kind :: args⟩ site actor r m₁ with ⟨e | u, m₂⟩
    · rfl
    · obtain ⟨value, ok⟩ := r
      cases ok <;> rfl

theorem apply_storage_words (success : Bool) (args : List String) (r : Result) :
    (⟨success, "storage" :: id :: args⟩ : Store).apply site actor r = (do
      let target ← dataTarget site actor ("storage" :: id :: args)
      match target.place with
      | none => return
      | some place =>
        storeData site place ((⟨success, "storage" :: id :: args⟩ : Store).amount r)
          (List.drop target.used ("storage" :: id :: args))) :=
  rfl

theorem apply_storage (success : Bool) (args : List String) (r : Result) :
    (⟨success, "storage" :: id :: args⟩ : Store).apply site actor r m =
      storeData site (.storage id) ((⟨success, "storage" :: id :: args⟩ : Store).amount r) args (m.withStorage id) := by
  simp only [apply_storage_words, bind_apply, dataTarget_storage, andThen_ok, List.drop_succ_cons, List.drop_zero]

theorem perform_get (hp : IsName p) (ho : Usable o m) : perform call site ["scoreboard", "players", "get", p, o] actor m =
    (.ok (((score? m (.player p) o).map fun v ↦ ⟨v, true⟩).getD .failed), m.withObjective o) := by
  rw [perform.eq_def]
  simp only [String.reduceEq, if_false, simple, if_true, scoreboard, scoreboardPlayers, bind_apply, ho.useObjective,
    andThen_ok, singleScore, holdersOrFault, get_apply, holders_player hp.notSelector, pure_apply, score?_withObjective]
  cases score? m (.player p) o <;> rfl

def growLine (id key : String) : String := join " " ["data", "modify", "storage", id, key, "append", "value", "0"]

def placeLine (id key p o : String) : String :=
  join " " ["execute", "store", "result", "storage", id, key ++ "[-1]", "int", "1", "run", "scoreboard", "players", "get", p, o]

def fetchLine (id key p o : String) : String :=
  join " " ["execute", "store", "result", "score", p, o, "run", "data", "get", "storage", id, key ++ "[-1]", "1"]

def dropLine (id key : String) : String := join " " ["data", "remove", "storage", id, key ++ "[-1]"]

/-- A text that may stand for a list in a storage. -/
def isKey (key : String) : Prop := key ≠ "" ∧ ∀ c ∈ key.toList, Tag.isKeyChar c = true

theorem ends_grow (hkey : isKey key) (h : Tag.ListAt key items (fieldsOf id m)) :
    Stateful.Ends (perform call site ["data", "modify", "storage", id, key, "append", "value", "0"] actor) m
      ((m.withStorage id).stored id (Dict.insert key (.list (items ++ [.int 0])) (fieldsOf id m))) := by
  have hread : tagOrFault site ["0"] = pure (.int 0) := rfl
  refine ⟨⟨1, true⟩, ?_⟩
  rw [perform_data, data_storage]
  simp only [String.reduceEq, if_false, if_true, dataModify, List.isEmpty_cons, Bool.false_eq_true,
    pathOrFault_of_readPath (Tag.readPath_key hkey.1 hkey.2), pure_bind, modifySource, hread, modifyWith]
  simp only [changePlace, bind_apply, get_apply, andThen_ok, load_withStorage, Tag.append_list h]
  rfl

theorem storeData_top (hkey : isKey key) (h : Tag.ListAt key (items ++ [last]) (fieldsOf id m)) (v : Int32) :
    storeData site (.storage id) v [key ++ "[-1]", "int", "1"] m =
      (.ok (), m.stored id (Dict.insert key (.list (items ++ [.int v])) (fieldsOf id m))) := by
  have hfields : Place.load m (.storage id) = fieldsOf id m := rfl
  simp only [storeData, pathOrFault_of_readPath (Tag.readPath_top hkey.1 hkey.2), scaleOrFault_one, bind_apply, pure_apply,
    andThen_ok, Decimal.mul_one_eq, Decimal.typed?_int, changePlace, get_apply, hfields, Tag.set_top h]
  rfl

theorem ends_place (hkey : isKey key) (h : Tag.ListAt key (items ++ [last]) (fieldsOf id m)) (hp : IsName p)
    (ho : Usable o m) :
    Stateful.Ends (perform call site ["execute", "store", "result", "storage", id, key ++ "[-1]", "int", "1", "run", "scoreboard",
      "players", "get", p, o] actor) m (((m.withObjective o).withStorage id).stored id
        (Dict.insert key (.list (items ++ [.int ((score? m (.player p) o).getD 0)])) (fieldsOf id m))) := by
  let r : Result := ((score? m (.player p) o).map fun v ↦ ⟨v, true⟩).getD .failed
  have hamount : (⟨false, ["storage", id, key ++ "[-1]", "int", "1"]⟩ : Store).amount r =
      (score? m (.player p) o).getD 0 := by
    cases hscore : score? m (.player p) o <;> simp [r, hscore, Store.amount, Result.failed]
  refine ⟨r.settled, ?_⟩
  have hstored : perform call site _ actor = _ := perform_stored "storage" [id, key ++ "[-1]", "int", "1"]
    ["scoreboard", "players", "get", p, o] rfl (by simp)
  simp only [List.cons_append, List.nil_append] at hstored
  rw [hstored]
  simp only [bind_apply, perform_get hp ho, andThen_ok]
  change andThen _ (Store.apply _ site actor r _) = _
  rw [← fieldsOf_withObjective id o m, ← fieldsOf_withStorage id id] at h ⊢
  rw [apply_storage, hamount, storeData_top hkey h]
  rfl

theorem ends_fetch (hkey : isKey key) (h : Tag.ListAt key (vs.reverse.map .int) (fieldsOf id m)) (hp : IsName p)
    (ho : Usable o m) :
    Stateful.Ends (perform call site ["execute", "store", "result", "score", p, o, "run", "data", "get", "storage", id,
      key ++ "[-1]", "1"] actor) m (setScore ((m.withStorage id).withObjective o) (.player p) o (vs.headD 0)) := by
  let r : Result := (vs.head?.map fun v ↦ ⟨v, true⟩).getD .failed
  have hamount : (⟨false, ["score", p, o]⟩ : Store).amount r = vs.headD 0 := by
    cases vs <;> simp [r, Store.amount, Result.failed]
  have hget : perform call site ["data", "get", "storage", id, key ++ "[-1]", "1"] actor m = (.ok r, m.withStorage id) := by
    rw [perform_data, data_storage]
    simp only [if_true, dataGet, bind_apply, pathOrFault_of_readPath (Tag.readPath_top hkey.1 hkey.2), pure_apply,
      andThen_ok, get_apply, load_withStorage, Tag.get?_top h, scaleOrFault_one]
    cases vs with
    | nil => rfl
    | cons v vs => simp [r, Decimal.measure_int]
  have husable : Usable o (m.withStorage id) := by
    unfold withStorage
    split <;> exact ho
  refine ⟨r.settled, ?_⟩
  have hstored : perform call site _ actor = _ := perform_stored "score" [p, o]
    ["data", "get", "storage", id, key ++ "[-1]", "1"] rfl (by simp)
  simp only [List.cons_append, List.nil_append] at hstored
  rw [hstored]
  simp only [bind_apply, hget, andThen_ok, Store.apply, hamount, husable.useObjective, holdersOrFault, get_apply,
    holders_player hp.notSelector, pure_apply, List.forIn_cons, List.forIn_nil, modify_apply]

theorem perform_drop (hkey : isKey key) (h : Tag.ListAt key items (fieldsOf id m)) :
    perform call site ["data", "remove", "storage", id, key ++ "[-1]"] actor m =
      match items.getLast?.map fun _ ↦ Tag.compound (Dict.insert key (.list items.dropLast) (fieldsOf id m)) with
      | some (.compound fields) => (.ok ⟨1, true⟩, (m.withStorage id).stored id fields)
      | _ => (.ok .failed, m.withStorage id) := by
  rw [perform_data, data_storage]
  simp only [String.reduceEq, if_false, if_true, dataRemove, bind_apply,
    pathOrFault_of_readPath (Tag.readPath_top hkey.1 hkey.2), pure_apply, andThen_ok, get_apply, load_withStorage,
    Tag.remove?_top h]
  cases items.getLast? <;> rfl

theorem ends_drop_nil (hkey : isKey key) (h : Tag.ListAt key [] (fieldsOf id m)) :
    Stateful.Ends (perform call site ["data", "remove", "storage", id, key ++ "[-1]"] actor) m (m.withStorage id) :=
  ⟨_, perform_drop hkey h⟩

theorem ends_drop (hkey : isKey key) (h : Tag.ListAt key (items ++ [last]) (fieldsOf id m)) :
    Stateful.Ends (perform call site ["data", "remove", "storage", id, key ++ "[-1]"] actor) m
      ((m.withStorage id).stored id (Dict.insert key (.list items) (fieldsOf id m))) := by
  have hdrop : perform call site _ actor m = _ := perform_drop hkey h
  rw [List.getLast?_concat, List.dropLast_concat] at hdrop
  exact ⟨_, hdrop⟩

end Machine

/-- The words that commands about stacks are made of. -/
structure StackNames where
  storage : String
  objective : String
  /-- The players that keep the argument and the result. -/
  arg : String
  ret : String

inductive StackOperation
  | push
  | pop
  | peek
deriving DecidableEq

def stackKey (n : Nat) : String := "stack" ++ toString n

namespace StackOperation

def after (n : Nat) (v : Int32) (L : Nat → List Int32) : StackOperation → Nat → List Int32
  | push => Function.update L n (v :: L n)
  | pop => Function.update L n (L n).tail
  | peek => L

def answer (vs : List Int32) (r : Option Int32) : StackOperation → Option Int32
  | push => r
  | pop => some (vs.headD 0)
  | peek => some (vs.headD 0)

end StackOperation

namespace StackNames

open Machine Stateful Text

variable {m₀ : Machine} {line : String}

/-- The words that an operation needs may stand in commands. -/
structure Valid (w : StackNames) (op : StackOperation) : Prop where
  storage : IsName w.storage
  objective : IsName w.objective
  arg (h : op = .push) : IsName w.arg
  ret (h : op ≠ .push) : IsName w.ret

def lines (w : StackNames) (n : Nat) : StackOperation → List String
  | .push => [growLine w.storage (stackKey n), placeLine w.storage (stackKey n) w.arg w.objective]
  | .pop => [fetchLine w.storage (stackKey n) w.ret w.objective, dropLine w.storage (stackKey n)]
  | .peek => [fetchLine w.storage (stackKey n) w.ret w.objective]

variable {w : StackNames} {m m₁ m' : Machine} {L : Nat → List Int32} {n : Nat} {op : StackOperation} {call : Call}
  {actor : Actor}

theorem stackKey_injective : Function.Injective stackKey := by
  intro a b h
  have hlist := congrArg String.toList h
  rw [stackKey, stackKey, String.toList_append, String.toList_append] at hlist
  exact Nat.repr_injective (String.toList_injective (List.append_cancel_left hlist))

theorem isLabel_stackKey (n : Nat) : Graph.IsLabel (stackKey n) := Graph.IsLabel.append rfl (Graph.isLabel_toString n)

theorem isName_stackKey (n : Nat) : IsName (stackKey n) :=
  isName_of_isRestrictedText (Graph.isRestrictedText_of_isLabel (isLabel_stackKey n))

theorem isKey_stackKey (n : Nat) : isKey (stackKey n) := by
  refine ⟨(isName_stackKey n).1, fun c hc ↦ ?_⟩
  have hlabel := isLabel_stackKey n
  rw [Graph.IsLabel, Bool.and_eq_true, List.all_eq_true] at hlabel
  have hchar := hlabel.2 c hc
  simp only [Tag.isKeyChar, Bool.and_eq_true, bne_iff_ne, ne_eq]
  refine ⟨⟨?_, ?_⟩, ?_⟩
  all_goals
    rintro rfl
    revert hchar
    decide

theorem splitWords_top (n : Nat) : splitWords (stackKey n ++ "[-1]") = .ok [stackKey n ++ "[-1]"] := by
  have htext : (stackKey n ++ "[-1]").toList = 's' :: ("tack".toList ++ ((toString n).toList ++ "[-1]".toList)) := by
    simp [stackKey]
  have hstack : ∀ c ∈ "tack".toList, isWordChar c = true := List.all_eq_true.1 rfl
  have hend (word : List Char) : scanWords { word := some word } "[-1]".toList =
      .ok [String.ofList ("[-1]".toList.reverse ++ word).reverse] := rfl
  have hnumber := (isName_of_isRestrictedText (Graph.isRestrictedText_of_isLabel (Graph.isLabel_toString n))).isWordChar
  rw [splitWords, htext]
  change scanWords { word := some ['s'] } _ = _
  rw [scanWords_wordChars hstack, scanWords_wordChars hnumber, hend, ← String.ofList_toList (s := stackKey n ++ "[-1]"), htext]
  simp

def Holds (w : StackNames) (L : Nat → List Int32) (m : Machine) : Prop :=
  ∀ n, Tag.ListAt (stackKey n) ((L n).reverse.map .int) (fieldsOf w.storage m)

def argument (w : StackNames) (m : Machine) : Int32 := (score? m (.player w.arg) w.objective).getD 0

/-- Machines differ at most in what operations on stacks change: stacks, the result, the objectives that exist
and the counters of runs. -/
structure Near (w : StackNames) (m m' : Machine) : Prop where
  eq : m' = { m with objectives := m'.objectives, scores := m'.scores, storage := m'.storage, running := m'.running,
                     cancelled := m'.cancelled, count := m'.count }
  objectives : m.objectives ⊆ m'.objectives
  scores (p o : String) (h : (p, o) ≠ (w.ret, w.objective)) : score? m' (.player p) o = score? m (.player p) o
  storages (id : String) (h : id ≠ w.storage) : Dict.find? id m'.storage = Dict.find? id m.storage
  fields (key : String) (h : ∀ n, key ≠ stackKey n) :
    Dict.find? key (fieldsOf w.storage m') = Dict.find? key (fieldsOf w.storage m)

instance : IsPreorder Machine w.Near where
  refl _ := ⟨rfl, List.Subset.refl _, fun _ _ _ ↦ rfl, fun _ _ ↦ rfl, fun _ _ ↦ rfl⟩
  trans m₁ m₂ m₃ h h' := ⟨by rw [h'.eq, h.eq], List.Subset.trans h.objectives h'.objectives,
    fun p o hne ↦ (h'.scores p o hne).trans (h.scores p o hne), fun id hne ↦ (h'.storages id hne).trans (h.storages id hne),
    fun key hne ↦ (h'.fields key hne).trans (h.fields key hne)⟩

theorem near_counters (w : StackNames) (m : Machine) (running cancelled : Bool) (count : Nat) :
    w.Near m { m with running, cancelled, count } :=
  ⟨rfl, List.Subset.refl _, fun _ _ _ ↦ rfl, fun _ _ ↦ rfl, fun _ _ ↦ rfl⟩

theorem near_withStorage (w : StackNames) (m : Machine) : w.Near m (m.withStorage w.storage) := by
  refine ⟨?_, ?_, ?_, ?_, fun _ _ ↦ by rw [fieldsOf_withStorage]⟩
  · unfold withStorage
    split <;> rfl
  · unfold withStorage
    split <;> exact List.Subset.refl _
  · intro p o _
    unfold withStorage
    split <;> rfl
  · intro id hne
    rw [find?_withStorage, if_neg]
    exact fun h ↦ hne h.2.symm

theorem near_withObjective (w : StackNames) (m : Machine) (o : String) : w.Near m (m.withObjective o) := by
  refine ⟨?_, (beside_withObjective m o).objectives, fun p o' _ ↦ score?_withObjective o m _ o', ?_,
    fun _ _ ↦ by rw [fieldsOf_withObjective]⟩
  · unfold withObjective
    split <;> rfl
  · intro id _
    unfold withObjective
    split <;> rfl

theorem near_stored (n : Nat) (t : Tag) : w.Near m (m.stored w.storage (Dict.insert (stackKey n) t (fieldsOf w.storage m))) := by
  refine ⟨rfl, List.Subset.refl _, fun _ _ _ ↦ rfl, fun id hne ↦ ?_, fun key hkey ↦ ?_⟩
  · rw [stored, Dict.find?_insert, if_neg (Ne.symm hne)]
  · rw [fieldsOf_stored, Dict.find?_insert, if_neg (hkey n).symm]

theorem near_setScore (v : Int32) : w.Near m (setScore m (.player w.ret) w.objective v) := by
  refine ⟨rfl, List.Subset.refl _, fun p o hne ↦ ?_, fun _ _ ↦ rfl, fun _ _ ↦ rfl⟩
  rw [score?_setScore_player, if_neg]
  rintro ⟨rfl, rfl⟩
  exact hne rfl

theorem Holds.congr (h : w.Holds L m) (hstacks : ∀ n, Dict.find? (stackKey n) (fieldsOf w.storage m') =
    Dict.find? (stackKey n) (fieldsOf w.storage m)) : w.Holds L m' := fun n ↦ by
  rw [Tag.ListAt, hstacks n]
  exact h n

theorem Holds.stored (h : w.Holds L m) (n : Nat) (vs : List Int32) :
    w.Holds (Function.update L n vs)
      (m.stored w.storage (Dict.insert (stackKey n) (.list (vs.reverse.map .int)) (fieldsOf w.storage m))) := by
  intro k
  rw [fieldsOf_stored]
  refine Tag.listAt_insert _ _ _ _ (fun hne ↦ ?_) (fun heq ↦ ?_)
  · rw [Function.update_of_ne fun hk ↦ hne (congrArg stackKey hk.symm)]
    exact h k
  · obtain rfl := stackKey_injective heq
    rw [Function.update_self]

/-- What an operation on a stack promises about the machines before and after it. -/
structure Done (w : StackNames) (n : Nat) (L : Nat → List Int32) (m m' : Machine) (op : StackOperation) : Prop where
  holds : w.Holds (op.after n (w.argument m) L) m'
  result : score? m' (.player w.ret) w.objective = op.answer (L n) (score? m (.player w.ret) w.objective)
  near : w.Near m m'

def fixedWords : List String :=
  ["data", "modify", "storage", "append", "value", "0", "execute", "store", "result", "int", "1", "run", "scoreboard",
    "players", "get", "score", "remove"]

theorem isName_of_mem_fixedWords {s : String} (hs : s ∈ fixedWords) : IsName s := by
  have hall : ∀ s ∈ fixedWords, s ≠ "" ∧ s.toList.all isNameChar = true := by decide
  exact hall s hs

theorem splitWords_join_fixed (n : Nat) {words : List String}
    (hwords : ∀ s ∈ words, s ∈ fixedWords ∨ IsName s ∨ s = stackKey n ++ "[-1]") :
    splitWords (join " " words) = .ok words := by
  refine splitWords_join_words fun s hs ↦ ?_
  rcases hwords s hs with hs | hs | rfl
  · exact (isName_of_mem_fixedWords hs).split
  · exact hs.split
  · exact splitWords_top n

theorem isLine_top (n : Nat) : IsLine (stackKey n ++ "[-1]") := by
  refine ⟨?_, ⟨'s', ?_, rfl, by decide⟩, ⟨']', ?_, rfl⟩⟩
  · rw [String.toList_append, List.mem_append, not_or]
    exact ⟨(isName_stackKey n).isLine.unbroken, by decide⟩
  · simp [stackKey]
  · simp

theorem Valid.isLine (hw : w.Valid op) (n : Nat) : ∀ line ∈ w.lines n op, IsLine line := by
  have hstorage := hw.storage.isLine.unbroken
  have hobjective := hw.objective.isLine.unbroken
  have hkey := (isName_stackKey n).isLine.unbroken
  have htop := (isLine_top n).unbroken
  have hfetch (hop : op ≠ .push) : IsLine (fetchLine w.storage (stackKey n) w.ret w.objective) := by
    refine isLine_join ["store", "result", "score", w.ret, w.objective, "run", "data", "get", "storage", w.storage,
      stackKey n ++ "[-1]"] (isLine_word rfl (by decide)) ?_ (isLine_word rfl (by decide))
    simp only [List.forall_mem_cons, hstorage, hobjective, htop, (hw.ret hop).isLine.unbroken]
    simp
  cases op with
  | push =>
    simp only [lines, List.forall_mem_cons]
    refine ⟨?_, ?_, by simp⟩
    · refine isLine_join ["modify", "storage", w.storage, stackKey n, "append", "value"] (isLine_word rfl (by decide)) ?_
        (isLine_word rfl (by decide))
      simp only [List.forall_mem_cons, hstorage, hkey]
      simp
    · refine isLine_join ["store", "result", "storage", w.storage, stackKey n ++ "[-1]", "int", "1", "run", "scoreboard",
        "players", "get", w.arg] (isLine_word rfl (by decide)) ?_ hw.objective.isLine
      simp only [List.forall_mem_cons, hstorage, htop, (hw.arg rfl).isLine.unbroken]
      simp
  | pop =>
    simp only [lines, List.forall_mem_cons]
    refine ⟨hfetch nofun, ?_, by simp⟩
    refine isLine_join ["remove", "storage", w.storage] (isLine_word rfl (by decide)) ?_ (isLine_top n)
    simp only [List.forall_mem_cons, hstorage]
    simp
  | peek => simpa [lines] using hfetch nofun

/-- A line takes one machine to another wherever it stands, and changes nothing but stacks and the result. -/
structure Performs (w : StackNames) (call : Call) (actor : Actor) (line : String) (m m' : Machine) : Prop where
  ends : ∃ words, splitWords line = .ok words ∧ ∀ site, Stateful.Ends (perform call site words actor) m m'
  near : w.Near m m'
  cancelled : m'.cancelled = m.cancelled
  count : m'.count = m.count

theorem Performs.ends_step (h : w.Performs call actor line m.ticked m') {k : Nat} (hroom : Room (k + 1) m)
    (path : String) (i : Nat) (frames : List Frame) : Stateful.Ends (step call ⟨⟨path, i, line⟩, frames⟩ actor) m m' := by
  obtain ⟨words, hsplit, hends⟩ := h.ends
  exact hroom.ends_step k.succ_pos hsplit (hends _)

theorem Performs.room (h : w.Performs call actor line m.ticked m') {k : Nat} (hroom : Room (k + 1) m) : Room k m' := by
  obtain ⟨hwatch, hwanted, hbudget⟩ := hroom
  have hcount : m'.count = m.count + 1 := h.count
  refine ⟨?_, h.cancelled.trans hwanted, ?_⟩
  · rw [h.near.eq]
    exact hwatch
  · have hmax : m'.maxCommands = m.maxCommands := by rw [h.near.eq]; rfl
    rw [hmax, hcount]
    push_cast at hbudget ⊢
    omega

section Lines

variable (call : Call) (actor : Actor) (hw : w.Valid op) (h : w.Holds L m) (n : Nat)

include hw h

theorem performs_grow : ∃ m', w.Performs call actor (growLine w.storage (stackKey n)) m m' ∧
    w.Holds (Function.update L n (0 :: L n)) m' ∧ m'.scores = m.scores := by
  have hholds : w.Holds L (m.withStorage w.storage) := h.congr fun _ ↦ by rw [fieldsOf_withStorage]
  have hnext := hholds.stored n (0 :: L n)
  have hnear : w.Near (m.withStorage w.storage) _ := near_stored n (.list ((0 :: L n).reverse.map .int))
  rw [fieldsOf_withStorage, List.reverse_cons, List.map_append] at hnext hnear
  refine ⟨_, ⟨⟨_, splitWords_join_fixed n ?_, fun site ↦ ends_grow (isKey_stackKey n) (h n)⟩,
    trans_of w.Near (near_withStorage w m) hnear, cancelled_withStorage _ _, count_withStorage _ _⟩, hnext,
    scores_withStorage _ _⟩
  simp [fixedWords, hw.storage, isName_stackKey]

theorem performs_place (hop : op = .push) {v : Int32} (hn : L n = v :: vs) (hu : Usable w.objective m) :
    ∃ m', w.Performs call actor (placeLine w.storage (stackKey n) w.arg w.objective) m m' ∧
      w.Holds (Function.update L n (w.argument m :: vs)) m' ∧ m'.scores = m.scores := by
  let m₁ := (m.withObjective w.objective).withStorage w.storage
  have hfields : fieldsOf w.storage m₁ = fieldsOf w.storage m := by simp [m₁]
  have hholds : w.Holds L m₁ := h.congr fun _ ↦ by rw [hfields]
  have hnext := hholds.stored n (w.argument m :: vs)
  have hnear : w.Near m₁ _ := near_stored n (.list ((w.argument m :: vs).reverse.map .int))
  have hlist := h n
  rw [hn, List.reverse_cons, List.map_append] at hlist
  rw [hfields, List.reverse_cons, List.map_append] at hnext hnear
  refine ⟨_, ⟨⟨_, splitWords_join_fixed n ?_, fun site ↦ ends_place (isKey_stackKey n) hlist (hw.arg hop) hu⟩,
    trans_of w.Near (trans_of w.Near (near_withObjective w m _) (near_withStorage w _)) hnear, ?_, ?_⟩, hnext, ?_⟩
  · simp [fixedWords, hw.storage, hw.objective, hw.arg hop]
  · change m₁.cancelled = m.cancelled
    simp [m₁]
  · change m₁.count = m.count
    simp [m₁]
  · change m₁.scores = m.scores
    simp [m₁]

theorem performs_fetch (hop : op ≠ .push) (hu : Usable w.objective m) :
    ∃ m', w.Performs call actor (fetchLine w.storage (stackKey n) w.ret w.objective) m m' ∧ w.Holds L m' ∧
      score? m' (.player w.ret) w.objective = some ((L n).headD 0) := by
  let m₁ := (m.withStorage w.storage).withObjective w.objective
  have hfields : fieldsOf w.storage m₁ = fieldsOf w.storage m := by simp [m₁]
  refine ⟨setScore m₁ (.player w.ret) w.objective ((L n).headD 0),
    ⟨⟨_, splitWords_join_fixed n ?_, fun site ↦ ends_fetch (isKey_stackKey n) (h n) (hw.ret hop) hu⟩,
      trans_of w.Near (trans_of w.Near (near_withStorage w m) (near_withObjective w _ _)) (near_setScore _), ?_, ?_⟩,
    h.congr fun _ ↦ ?_, ?_⟩
  · simp [fixedWords, hw.storage, hw.objective, hw.ret hop]
  · change m₁.cancelled = m.cancelled
    simp [m₁]
  · change m₁.count = m.count
    simp [m₁]
  · rw [← hfields]
    rfl
  · rw [score?_setScore_player, if_pos ⟨rfl, rfl⟩]

theorem performs_drop : ∃ m', w.Performs call actor (dropLine w.storage (stackKey n)) m m' ∧
    w.Holds (Function.update L n (L n).tail) m' ∧ m'.scores = m.scores := by
  have hholds : w.Holds L (m.withStorage w.storage) := h.congr fun _ ↦ by rw [fieldsOf_withStorage]
  have hlist := h n
  have hwords : splitWords (dropLine w.storage (stackKey n)) =
      .ok ["data", "remove", "storage", w.storage, stackKey n ++ "[-1]"] :=
    splitWords_join_fixed n (by simp [fixedWords, hw.storage])
  cases hn : L n with
  | nil =>
    rw [hn] at hlist
    refine ⟨m.withStorage w.storage, ⟨⟨_, hwords, fun site ↦ ends_drop_nil (isKey_stackKey n) hlist⟩, near_withStorage w m,
      cancelled_withStorage _ _, count_withStorage _ _⟩, ?_, scores_withStorage _ _⟩
    rw [List.tail_nil, ← hn, Function.update_eq_self]
    exact hholds
  | cons v vs =>
    have hnext := hholds.stored n vs
    have hnear : w.Near (m.withStorage w.storage) _ := near_stored n (.list (vs.reverse.map .int))
    rw [hn, List.reverse_cons, List.map_append] at hlist
    rw [fieldsOf_withStorage] at hnext hnear
    exact ⟨_, ⟨⟨_, hwords, fun site ↦ ends_drop (isKey_stackKey n) hlist⟩,
      trans_of w.Near (near_withStorage w m) hnear, cancelled_withStorage _ _, count_withStorage _ _⟩, hnext,
      scores_withStorage _ _⟩

end Lines

theorem Near.usable (h : w.Near m m') (hu : Usable w.objective m) : Usable w.objective m' := by
  refine hu.imp (fun hstrict ↦ ?_) (fun hmem ↦ h.objectives hmem)
  rw [h.eq]
  exact hstrict

theorem Holds.ticked (h : w.Holds L m) : w.Holds L m.ticked := h

theorem near_ticked (m : Machine) : w.Near m m.ticked := near_counters w m _ _ _

theorem Holds.runs_lines (h : w.Holds L m) (hw : w.Valid op) (hu : Usable w.objective m) (hroom : Room 2 m) (n : Nat)
    (call : Call) (path : String) (frames : List Frame) (actor : Actor) :
    ∃ m', Stateful.Ends (runLines call path frames actor 1 (w.lines n op)) m m' ∧ w.Done n L m m' op := by
  cases op with
  | push =>
    obtain ⟨m₁, hgrow, hholds₁, hscores₁⟩ := performs_grow call actor hw h.ticked n
    have hnear₁ : w.Near m m₁ := trans_of w.Near (near_ticked m) hgrow.near
    obtain ⟨m₂, hplace, hholds₂, hscores₂⟩ := performs_place call actor hw hholds₁.ticked n rfl
      (Function.update_self ..) (hnear₁.usable hu)
    have hargument : w.argument m₁.ticked = w.argument m := by
      rw [argument, argument, score?, score?, show m₁.ticked.scores = m.scores from hscores₁]
    refine ⟨m₂, ?_, ?_, ?_, trans_of w.Near hnear₁ (trans_of w.Near (near_ticked m₁) hplace.near)⟩
    · refine (hgrow.ends_step hroom _ _ _).bind fun _ ↦ ?_
      exact (hplace.ends_step (hgrow.room hroom) _ _ _).bind fun _ ↦ ends_pure _ _
    · rwa [Function.update_idem, hargument] at hholds₂
    · rw [StackOperation.answer, score?, score?, hscores₂, show m₁.ticked.scores = m.scores from hscores₁]
  | pop =>
    obtain ⟨m₁, hfetch, hholds₁, hscore₁⟩ := performs_fetch call actor hw h.ticked n (by simp) hu
    have hnear₁ : w.Near m m₁ := trans_of w.Near (near_ticked m) hfetch.near
    obtain ⟨m₂, hdrop, hholds₂, hscores₂⟩ := performs_drop call actor hw hholds₁.ticked n
    refine ⟨m₂, ?_, hholds₂, ?_, trans_of w.Near hnear₁ (trans_of w.Near (near_ticked m₁) hdrop.near)⟩
    · refine (hfetch.ends_step hroom _ _ _).bind fun _ ↦ ?_
      exact (hdrop.ends_step (hfetch.room hroom) _ _ _).bind fun _ ↦ ends_pure _ _
    · rw [StackOperation.answer, ← hscore₁, score?, score?, show m₂.scores = m₁.scores from hscores₂]
  | peek =>
    obtain ⟨m₁, hfetch, hholds₁, hscore₁⟩ := performs_fetch call actor hw h.ticked n (by simp) hu
    refine ⟨m₁, ?_, hholds₁, hscore₁, trans_of w.Near (near_ticked m) hfetch.near⟩
    exact (hfetch.ends_step hroom _ _ _).bind fun _ ↦ ends_pure _ _

/-- A machine that has operations on stacks at the given paths and may use their objective. -/
structure Hosts (w : StackNames) (paths : StackOperation → Nat → String) (has : StackOperation → Nat → Prop) (m : Machine) :
    Prop where
  lines {op : StackOperation} {n : Nat} (h : has op n) : Dict.find? (paths op n) m.functions = some (w.lines n op)
  objective : Usable w.objective m

variable {paths : StackOperation → Nat → String} {has : StackOperation → Nat → Prop}

theorem Holds.ends_call (h : w.Holds L m) (hw : w.Valid op) (hh : w.Hosts paths has m) (hop : has op n) (hroom : Room 2 m) (d : Nat)
    (caller : String) (site : Site) (actor : Actor) :
    ∃ m', Stateful.Ends (callFunction (d + 1) (paths op n) caller site actor) m m' ∧ w.Done n L m m' op := by
  obtain ⟨m', hends, hdone⟩ := h.runs_lines hw hh.objective hroom n (callFunction d) (paths op n) site.frames actor
  refine ⟨m', Machine.ends_call (hh.lines hop) hroom.unwatched ?_ hends, hdone⟩
  rw [hdone.near.eq]
  exact hroom.unwatched

/-- A machine that runs nothing, is not watched and has room for any operation. -/
structure Free (m : Machine) : Prop where
  idle : m.running = false
  unwatched : m.observer = none
  depth : 1 ≤ m.maxDepth
  budget : m.maxCommands ≤ 0 ∨ 2 ≤ m.maxCommands

theorem Free.room (hfree : Free m) : Room 2 { m with running := true, cancelled := false, count := 0 } := by
  refine ⟨hfree.unwatched, rfl, ?_⟩
  have hbudget := hfree.budget
  push_cast
  omega

theorem Holds.run (h : w.Holds L m) (hw : w.Valid op) (hh : w.Hosts paths has m) (hop : has op n) (hfree : Free m) :
    ∃ m', m.run (paths op n) = (.ok (), m') ∧ w.Done n L m m' op := by
  let m₁ : Machine := { m with running := true, cancelled := false, count := 0 }
  have hh₁ : w.Hosts paths has m₁ := ⟨hh.lines, hh.objective⟩
  obtain ⟨d, hd⟩ : ∃ d, m.maxDepth.toNat = d + 1 := ⟨m.maxDepth.toNat - 1, by have := hfree.depth; omega⟩
  obtain ⟨m₂, hends, hdone⟩ := Holds.ends_call (m := m₁) h hw hh₁ hop hfree.room d "" {} {}
  rw [← hd] at hends
  refine ⟨m₂.finish, run_of_ends hfree.idle hends, hdone.holds, hdone.result, ?_⟩
  exact trans_of w.Near (near_counters w m _ _ _) (trans_of w.Near hdone.near (near_counters w m₂ _ _ _))

theorem Free.run (hfree : Free m) {path : String} {r : Except Stop Unit} (hrun : m.run path = (r, m')) (hnear : w.Near m m') :
    Free m' := by
  have hidle : (m.run path).2.running = false := by
    simp only [Machine.run, asRun, begin, hfree.idle, Bool.false_eq_true, if_false]
    rfl
  rw [hrun] at hidle
  refine ⟨hidle, ?_, ?_, ?_⟩
  · rw [hnear.eq]
    exact hfree.unwatched
  · rw [hnear.eq]
    exact hfree.depth
  · rw [hnear.eq]
    exact hfree.budget

/-- Something else happened to a machine, which left its functions and its stacks alone. -/
structure Aside (w : StackNames) (m m' : Machine) : Prop where
  functions : m'.functions = m.functions
  objective : Usable w.objective m → Usable w.objective m'
  lists (n : Nat) :
    Dict.find? (stackKey n) (fieldsOf w.storage m') = Dict.find? (stackKey n) (fieldsOf w.storage m)

/-- Machines after operations were called one after the other, by anyone and with other things in between, and the stacks
as they should be then. -/
inductive Reaches (w : StackNames) (paths : StackOperation → Nat → String) (has : StackOperation → Nat → Prop)
    (m₀ : Machine) : (Nat → List Int32) → Machine → Prop
  | start : Reaches w paths has m₀ (fun _ ↦ []) m₀
  | aside {L : Nat → List Int32} {m m' : Machine} (h : Reaches w paths has m₀ L m) (hm : w.Aside m m') :
      Reaches w paths has m₀ L m'
  | call {L : Nat → List Int32} {m : Machine} (h : Reaches w paths has m₀ L m) {op : StackOperation} {n : Nat}
      (hop : has op n) (hroom : Room 2 m) (d : Nat) (caller : String) (site : Site) (actor : Actor) :
      Reaches w paths has m₀ (op.after n (w.argument m) L) (callFunction (d + 1) (paths op n) caller site actor m).2

theorem Reaches.run (h : w.Reaches paths has m₀ L m) (hop : has op n) (hfree : Free m) :
    w.Reaches paths has m₀ (op.after n (w.argument m) L) (m.run (paths op n)).2 := by
  let m₁ : Machine := { m with running := true, cancelled := false, count := 0 }
  have hstart : w.Reaches paths has m₀ L m₁ := h.aside ⟨rfl, fun hu ↦ hu, fun _ ↦ rfl⟩
  obtain ⟨d, hd⟩ : ∃ d, m.maxDepth.toNat = d + 1 := ⟨m.maxDepth.toNat - 1, by have := hfree.depth; omega⟩
  have hcalled := hstart.call hop hfree.room d "" {} {}
  have hrun : (m.run (paths op n)).2 = (callFunction (d + 1) (paths op n) "" {} {} m₁).2.finish := by
    simp only [Machine.run, asRun, begin, hfree.idle, Bool.false_eq_true, if_false, hd, callEach, bind_apply]
    cases callFunction (d + 1) (paths op n) "" {} {} m₁ with
    | mk r m₂ => cases r <;> rfl
  rw [hrun]
  exact hcalled.aside ⟨rfl, fun hu ↦ hu, fun _ ↦ rfl⟩

theorem Reaches.setArgument (h : w.Reaches paths has m₀ L m) (v : Int32) :
    w.Reaches paths has m₀ L (setScore m (.player w.arg) w.objective v) :=
  h.aside ⟨rfl, fun hu ↦ hu, fun _ ↦ rfl⟩

theorem Near.hosts (h : w.Near m m') (hh : w.Hosts paths has m) : w.Hosts paths has m' := by
  refine ⟨fun hop ↦ ?_, h.usable hh.objective⟩
  rw [h.eq]
  exact hh.lines hop

theorem Reaches.holds (h : w.Reaches paths has m₀ L m) (hw : ∀ op n, has op n → w.Valid op)
    (hh : w.Hosts paths has m₀) (hempty : w.Holds (fun _ ↦ []) m₀) : w.Holds L m ∧ w.Hosts paths has m := by
  induction h with
  | start => exact ⟨hempty, hh⟩
  | @aside L m m' _ hm ih =>
    obtain ⟨hholds, hhosts⟩ := ih
    refine ⟨hholds.congr hm.lists, fun hop ↦ ?_, hm.objective hhosts.objective⟩
    rw [hm.functions]
    exact hhosts.lines hop
  | @call L m _ op n hop hroom d caller site actor ih =>
    obtain ⟨hholds, hhosts⟩ := ih
    obtain ⟨m', ⟨r, hends⟩, hdone⟩ := hholds.ends_call (hw op n hop) hhosts hop hroom d caller site actor
    rw [hends]
    exact ⟨hdone.holds, hdone.near.hosts hhosts⟩

end StackNames

end CommandPack
