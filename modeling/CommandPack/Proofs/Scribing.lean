import Mathlib
import CommandPack.Proofs.Building
import CommandPack.Library.Install

/-!
What is written into a graph. Names, scores and slots come from a vocabulary or are symbols made on the
way; instructions have one of a few forms; making them makes symbols, keeps temporaries and warns.
-/

namespace CommandPack.Graph

/-- What may come from outside into a graph. -/
structure Vocabulary where
  /-- Names of roots. -/
  root : String → Prop
  /-- Names of all other nodes. -/
  child : String → Prop
  /-- Texts of symbols. -/
  text : String → Prop
  /-- Words of commands: players, objectives, targets, ranges. -/
  word : String → Prop
  slot : Slot → Prop
  const : DataType → String → Prop
  /-- Symbols and instructions of other forms. -/
  symbol : Symbol → Prop
  extra : Instruction → Prop

/-- The symbols made so far, and what was kept and warned of meanwhile. -/
structure Notes where
  scratch : Scratch
  symbols : Set Symbol

def Covers (M : Set Symbol) : Name → Prop
  | .lit _ => True
  | .sym v => v ∈ M

def Named (V : Vocabulary) (M : Set Symbol) : Name → Prop
  | .lit text => V.word text
  | .sym v => v ∈ M

/-- A name that may stand anywhere in a command: a word, or a symbol whose text is one. -/
def Tokened (V : Vocabulary) (M : Set Symbol) : Name → Prop
  | .lit text => V.word text
  | .sym v => v ∈ M ∧ v.kind.isRestricted = true

def Scored (V : Vocabulary) (M : Set Symbol) (v : Score) : Prop := Named V M v.player ∧ Named V M v.objective

def Placed (V : Vocabulary) (M : Set Symbol) (x : Slot) : Prop := V.slot x ∧ Covers M x.target

/-- A condition about scores and slots. -/
inductive Tested (V : Vocabulary) (M : Set Symbol) : Condition → Prop
  | compare {a b : Score} {op : String} (ha : Scored V M a) (hop : V.word op) (hb : Scored V M b) :
      Tested V M (.compare a op b)
  | within {a : Score} {range : String} (ha : Scored V M a) (hrange : V.word range) :
      Tested V M (.within a range)
  | present {x : Slot} (hx : Placed V M x) : Tested V M (.present x)

/-- A value all of whose parts may be named; the functions that fetch objects have paths in `P`. -/
inductive Valued (V : Vocabulary) (P : Path → Prop) (M : Set Symbol) : Operand → Prop
  | const {type : DataType} {text : String} (h : V.const type text) : Valued V P M (.const type text)
  | score {v : Score} (h : Scored V M v) : Valued V P M (.score v)
  | slot {x : Slot} (h : Placed V M x) : Valued V P M (.slot x)
  | staged {type : DataType} {via : Operand} (h : Valued V P M via) : Valued V P M (.staged type via)
  | member {access : Option ObjectAccess} {object : Operand} {name : String} {type : DataType}
      (haccess : ∀ a ∈ access, Scored V M a.register ∧ P a.fetch ∧ Placed V M (Transfer.memberSlot a name type))
      (hobject : Valued V P M object) : Valued V P M (.member access object name type)

theorem Covers.mono {M M' : Set Symbol} (h : M ⊆ M') {name : Name} (hname : Covers M name) : Covers M' name := by
  cases name with
  | lit => trivial
  | sym v => exact h hname

def IsOwner (V : Vocabulary) (owner : Option Path) : Prop := ∀ p ∈ owner, ∀ name ∈ p, V.root name ∨ V.child name

/-- The forms of symbols. -/
inductive Mints (V : Vocabulary) (M : Set Symbol) : Symbol → Prop
  | plain {id : Int} {kind : SymbolKind} {text : String} {owner : Option Path}
      (hkind : kind.isRestricted = true) (htext : V.text text) (howner : IsOwner V owner) :
      Mints V M ⟨id, kind, text, owner, []⟩
  | path {id : Int} {owner : Option Path} (howner : IsOwner V owner) : Mints V M ⟨id, .path, "", owner, []⟩
  | selector {id : Int} {template : String} {tag : Symbol}
      (htemplate : template = "@e[tag=%s]" ∨ template = "@e[tag=%s,limit=1]") (htag : tag ∈ M)
      (hkind : tag.kind = .tag) : Mints V M ⟨id, .composite, template, none, [.sym tag]⟩
  | other {v : Symbol} (hv : V.symbol v) (hargs : ∀ name ∈ v.args, Covers M name) : Mints V M v

variable {V : Vocabulary} {M M' : Set Symbol}

/-- What happens to notes in one step. -/
inductive Scribes (V : Vocabulary) (n : Notes) : Notes → Prop
  | mint {v : Symbol} (hv : Mints V n.symbols v) (hid : v.id = n.scratch.nextSymbol) :
      Scribes V n ⟨{ n.scratch with nextSymbol := n.scratch.nextSymbol + 1 }, insert v n.symbols⟩
  | temp {purpose : String} {v : Score} (hv : Scored V n.symbols v) :
      Scribes V n ⟨{ n.scratch with temps := (purpose, v) :: n.scratch.temps }, n.symbols⟩
  | mark {purpose : String} {tag : Symbol} (htag : tag ∈ n.symbols) (hkind : tag.kind = .tag) :
      Scribes V n ⟨{ n.scratch with marks := (purpose, tag) :: n.scratch.marks }, n.symbols⟩
  | warn (w : Warning) : Scribes V n ⟨{ n.scratch with warnings := n.scratch.warnings.push w }, n.symbols⟩
  | context (context : List String) : Scribes V n ⟨{ n.scratch with context }, n.symbols⟩

/-- A warning that types were taken to agree was given, or would have been. -/
def Warned (scratch : Scratch) : Prop :=
  scratch.silent = true ∨ ∃ w ∈ scratch.warnings, w.kind = some .typeAssumption

/-- Instructions that may stand under a condition: they change a score by a number or call. -/
inductive Simple (V : Vocabulary) (P : Path → Prop) (M : Set Symbol) : Instruction → Prop
  | count {word : String} {v : Score} (hword : word ∈ ["set", "add", "remove"]) (hv : Scored V M v) (k : Int) :
      Simple V P M (scoreInstruction word v (toString k))
  | call {p : Path} (hp : P p) : Simple V P M (.call ⟨p, none⟩)

/-- The templates of the library's instructions about entities and objectives. -/
def fixedTemplates : List String :=
  ["scoreboard objectives add %s dummy", "tag @e remove %s",
    "summon minecraft:marker 0 0 0 \x7bTags:[\"%s\",\"%s\",\"%s\"]\x7d",
    "summon minecraft:marker 0 0 0 \x7bTags:[\"%s\"]\x7d",
    "scoreboard players operation @e[tag=%s] %s = %s %s", "scoreboard players set @e[tag=%s] %s 1",
    "execute as @e[tag=%s] if score @s %s = %s %s run tag @s add %s",
    "scoreboard players add @e[tag=%s] %s 1", "scoreboard players remove @e[tag=%s] %s 1",
    "execute as @e[tag=%s] unless score @s %s matches 1.. run kill @s"]

/-- A copy between slots is sure if the types of both are known and agree; else there was a warning. -/
def CopiesSurely (n : Notes) (src dst : Slot) : Prop :=
  Warned n.scratch ∨ dst.type = .any ∨ (src.type.isA dst.type = true ∧ dst.type.isConcrete = true)

/-- The forms of instructions. -/
inductive Lawful (V : Vocabulary) (P : Path → Prop) (n : Notes) : Instruction → Prop
  | extra {i : Instruction} (h : V.extra i) : Lawful V P n i
  | comment (text : String) : Lawful V P n (.comment text)
  | simple {i : Instruction} (h : Simple V P n.symbols i) : Lawful V P n i
  | operate {a b : Score} {op : String} (ha : Scored V n.symbols a) (hop : op ∈ Transfer.operations)
      (hb : Scored V n.symbols b) :
      Lawful V P n (.literal ("scoreboard players operation %s %s " ++ op ++ " %s %s")
        [a.player, a.objective, b.player, b.objective])
  | read {x : Slot} {v : Score} (hx : Placed V n.symbols x) (hv : Scored V n.symbols v) (scale : Float) :
      Lawful V P n (Transfer.slotToScore x v scale)
  | write {x : Slot} {v : Score} (hv : Scored V n.symbols v) (hx : Placed V n.symbols x)
      (hconcrete : x.type.isConcrete = true) (hnumber : x.type.isA .number = true) (scale : Float) :
      Lawful V P n (Transfer.scoreToSlot v x scale)
  | assign {type : DataType} {text : String} {x : Slot} (htext : V.const type text)
      (hx : Placed V n.symbols x) (htype : x.type = .any ∨ x.type = type) :
      Lawful V P n (Transfer.constToSlot text x)
  | copy {x y : Slot} (hx : Placed V n.symbols x) (hy : Placed V n.symbols y) (hsure : CopiesSurely n x y) :
      Lawful V P n (Transfer.slotCopy x y)
  | through {x y : Slot} (hx : Placed V n.symbols x) (hy : Placed V n.symbols y)
      (hconcrete : y.type.isConcrete = true) (hnumber : y.type.isA .number = true) (a b : Float) :
      Lawful V P n (Transfer.storeThrough x y a b)
  | guarded {i : Instruction} {c : Condition} (sense : Bool) (hc : Tested V n.symbols c)
      (hi : Simple V P n.symbols i) : Lawful V P n (Graph.guarded (Machine.senseWord sense) c i)
  | guardedTwice {i : Instruction} {c c' : Condition} (hc : Tested V n.symbols c)
      (hc' : Tested V n.symbols c') (hi : Simple V P n.symbols i) :
      Lawful V P n (.composed [.literal ("execute unless " ++ c.template ++ " if " ++ c'.template ++ " run")
        (c.args ++ c'.args), i])
  | tell {target : Name} {cs : List Component} (htarget : Named V n.symbols target)
      (hcs : ∀ c ∈ cs, ∀ name ∈ c.content.names, Covers n.symbols name) :
      Lawful V P n (.tellraw target cs)
  | fixed {template : String} {args : List Name} (htemplate : template ∈ fixedTemplates)
      (hargs : ∀ name ∈ args, Tokened V n.symbols name) : Lawful V P n (.literal template args)
  | shift {marker : Symbol} (hmarker : marker ∈ n.symbols) (hkind : marker.kind = .composite) (x : Float) :
      Lawful V P n (.literal ("execute as %s at @s run tp @s ~" ++ Transfer.formatScale x ++ " ~ ~")
        [.sym marker])
  | kill {marker : Symbol} (hmarker : marker ∈ n.symbols) (hkind : marker.kind = .composite) :
      Lawful V P n (.literal "kill %s" [.sym marker])

def AllLawful (V : Vocabulary) (P : Path → Prop) (cmds : List Instruction) (n : Notes) : Prop :=
  ∀ i ∈ cmds, Lawful V P n i

def isLabelChar (c : Char) : Bool := c.isAlphanum || c == '_' || c == '-'

/-- Letters, digits, underscores and hyphens, at least one. -/
def IsLabel (text : String) : Prop := (!text.toList.isEmpty && text.toList.all isLabelChar) = true

theorem IsLabel.append {a b : String} (ha : IsLabel a) (hb : IsLabel b) : IsLabel (a ++ b) := by
  simp only [IsLabel, Bool.and_eq_true, Bool.not_eq_true', List.isEmpty_eq_false_iff] at ha hb
  simp [IsLabel, ha, hb, String.toList_append]

theorem isLabel_toString (n : Nat) : IsLabel (toString n) := by
  have hne : (toString n).toList.isEmpty = false := by
    rw [List.isEmpty_eq_false_iff]
    intro h
    simp at h
  have hall : (toString n).toList.all isLabelChar = true := by
    rw [List.all_eq_true]
    intro c hc
    have hdigit : c.isDigit = true :=
      Nat.isDigit_of_mem_toDigits (b := 10) (n := n) (by decide) (by decide) (by simpa using hc)
    simp [isLabelChar, Char.isAlphanum, hdigit]
  rw [IsLabel, hne, hall]
  rfl

/-- A vocabulary whose nodes may have all labels as names. -/
def Vocabulary.Usual (V : Vocabulary) : Prop := ∀ {name : String}, IsLabel name → V.child name

theorem mem_of_lookup {α : Type} {k : String} {l : List (String × α)} {a : α} (h : l.lookup k = some a) : (k, a) ∈ l := by
  obtain ⟨l₁, l₂, rfl, -⟩ := List.lookup_eq_some_iff.1 h
  exact List.mem_append_right _ List.mem_cons_self

end CommandPack.Graph
