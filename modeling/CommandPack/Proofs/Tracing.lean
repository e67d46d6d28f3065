import Mathlib
import CommandPack.Name
import CommandPack.Transfer.Scratch

/-!
The symbols that names depend on, collected depth first. Operands are made before the symbols they are in and have smaller
numbers, so none of them is met again on the way up: each symbol is found once, after all that it is made of.
-/

namespace CommandPack

open Name

/-- The symbols that one source of numbers has made, in the order it made them. The operands of a symbol are made before
it, and whatever else happens leaves the next number as it is. -/
inductive Minted : List Symbol → Scratch → Prop
  | start (s : Scratch) : Minted [] s
  | aside {made : List Symbol} {s s' : Scratch} (h : Minted made s) (hs : s'.nextSymbol = s.nextSymbol) : Minted made s'
  | symbol {made : List Symbol} {s s' : Scratch} {kind : SymbolKind} {text : String} {owner : Option Path}
      {args : List Name} {x : Symbol} (h : Minted made s) (hargs : ∀ o, Name.sym o ∈ args → o ∈ made)
      (hx : Synth.symbol kind text owner args s = (.ok x, s')) : Minted (made ++ [x]) s'

/-- A symbol that names depend on: one of them, or an operand of such a symbol. -/
inductive Reaches (names : List Name) : Symbol → Prop
  | here {s : Symbol} (h : .sym s ∈ names) : Reaches names s
  | operand {s o : Symbol} (hs : Reaches names s) (ho : .sym o ∈ s.args) : Reaches names o

/-- A stock of symbols: each is told by its number, and its operands are in the stock and have smaller numbers. -/
structure Stock (made : List Symbol) : Prop where
  eq_of_id : ∀ s ∈ made, ∀ s' ∈ made, s.id = s'.id → s = s'
  operand : ∀ s ∈ made, ∀ o, Name.sym o ∈ s.args → o ∈ made ∧ o.id < s.id

theorem Minted.id_lt {made : List Symbol} {s : Scratch} (h : Minted made s) : ∀ x ∈ made, x.id < s.nextSymbol := by
  induction h with
  | start => simp
  | aside h hs ih => rwa [hs]
  | symbol h hargs hx ih =>
    cases hx
    intro x hx
    simp only [List.mem_append, List.mem_singleton] at hx
    rcases hx with hx | rfl
    · exact (ih x hx).trans (lt_add_one _)
    · exact lt_add_one _

theorem Minted.stock {made : List Symbol} {s : Scratch} (h : Minted made s) : Stock made := by
  induction h with
  | start => constructor <;> simp
  | aside h hs ih => exact ih
  | symbol h hargs hx ih =>
    have hlt := h.id_lt
    cases hx
    refine ⟨fun x hx y hy hid ↦ ?_, fun x hx o ho ↦ ?_⟩
    · rw [List.mem_append, List.mem_singleton] at hx hy
      rcases hx with hx | rfl <;> rcases hy with hy | rfl
      · exact ih.eq_of_id x hx y hy hid
      · exact absurd hid (hlt x hx).ne
      · exact absurd hid (hlt y hy).ne'
      · rfl
    · rw [List.mem_append, List.mem_singleton] at hx
      rcases hx with hx | rfl
      · exact (ih.operand x hx o ho).imp_left (List.mem_append_left _)
      · exact ⟨List.mem_append_left _ (hargs o ho), hlt o (hargs o ho)⟩

variable {made seen result mid : List Symbol} {names names' : List Name} {s : Symbol}

theorem Reaches.mem (hmade : Stock made) (hnames : ∀ s, .sym s ∈ names → s ∈ made) (h : Reaches names s) : s ∈ made := by
  induction h with
  | here h => exact hnames _ h
  | operand _ ho ih => exact (hmade.operand _ ih _ ho).1

theorem Reaches.id_lt (hmade : Stock made) {x : Symbol} (hx : x ∈ made) (h : Reaches x.args s) : s.id < x.id := by
  induction h with
  | here h => exact (hmade.operand x hx _ h).2
  | operand hs ho ih => exact (hmade.operand _ (hs.mem hmade fun o ho ↦ (hmade.operand x hx o ho).1) _ ho).2.trans ih

theorem Reaches.mono (hsub : names ⊆ names') (h : Reaches names s) : Reaches names' s := by
  induction h with
  | here h => exact .here (hsub h)
  | operand _ ho ih => exact .operand ih ho

theorem Reaches.of_args {x : Symbol} (hx : .sym x ∈ names) (h : Reaches x.args s) : Reaches names s := by
  induction h with
  | here h => exact .operand (.here hx) h
  | operand _ ho ih => exact .operand ih ho

/-- Symbols of different numbers, each after its operands. -/
structure OperandsFirst (found : List Symbol) : Prop where
  nodup : (found.map (·.id)).Nodup
  before : ∀ before s after, found = before ++ s :: after → ∀ o, .sym o ∈ s.args → o ∈ before

theorem OperandsFirst.nil : OperandsFirst [] := ⟨List.nodup_nil, by simp⟩

theorem OperandsFirst.operand_mem (h : OperandsFirst result) (hs : s ∈ result) {o : Symbol} (ho : .sym o ∈ s.args) :
    o ∈ result := by
  obtain ⟨before, after, rfl⟩ := List.append_of_mem hs
  exact List.mem_append_left _ (h.before before s after rfl o ho)

theorem OperandsFirst.concat (h : OperandsFirst result) (hid : ∀ x ∈ result, x.id ≠ s.id)
    (hargs : ∀ o, .sym o ∈ s.args → o ∈ result) : OperandsFirst (result ++ [s]) where
  nodup := by
    rw [List.map_append, List.map_singleton, List.nodup_append]
    refine ⟨h.nodup, List.nodup_singleton _, fun a ha b hb ↦ ?_⟩
    obtain ⟨x, hx, rfl⟩ := List.mem_map.1 ha
    rw [List.mem_singleton.1 hb]
    exact hid x hx
  before := by
    intro before x after heq o ho
    rcases List.eq_nil_or_concat after with rfl | ⟨after, y, rfl⟩
    · obtain ⟨rfl, ⟨⟩⟩ := List.append_inj' heq rfl
      exact hargs o ho
    · rw [List.concat_eq_append, ← List.cons_append, ← List.append_assoc] at heq
      exact h.before before x after (List.append_inj' heq rfl).1 o ho

/-- What is found when `names` are looked through after `seen` was found. -/
structure Found (names : List Name) (seen result : List Symbol) : Prop where
  kept : seen ⊆ result
  operandsFirst : OperandsFirst result
  mem : ∀ s, .sym s ∈ names → s ∈ result
  reaches : ∀ s ∈ result, s ∈ seen ∨ Reaches names s

theorem Found.refl (h : OperandsFirst seen) (hnames : ∀ s, .sym s ∈ names → s ∈ seen) : Found names seen seen :=
  ⟨List.Subset.refl _, h, hnames, fun _ hs ↦ .inl hs⟩

theorem Found.trans (h : Found names seen mid) (h' : Found names' mid result) : Found (names ++ names') seen result where
  kept := List.Subset.trans h.kept h'.kept
  operandsFirst := h'.operandsFirst
  mem s hs := (List.mem_append.1 hs).elim (fun hs ↦ h'.kept (h.mem s hs)) (h'.mem s)
  reaches s hs := by
    rcases h'.reaches s hs with hs | hs
    · exact (h.reaches s hs).imp_right (Reaches.mono (List.subset_append_left _ _))
    · exact .inr (hs.mono (List.subset_append_right _ _))

/-- A new symbol comes after what its operands depend on; all of that has smaller numbers. -/
theorem Found.concat (hmade : Stock made) (hs : s ∈ made) (hnew : ∀ x ∈ seen, x.id ≠ s.id)
    (h : Found s.args seen result) : Found [.sym s] seen (result ++ [s]) where
  kept := List.Subset.trans h.kept (List.subset_append_left _ _)
  operandsFirst := by
    refine h.operandsFirst.concat (fun x hx ↦ ?_) h.mem
    rcases h.reaches x hx with hseen | hreach
    · exact hnew x hseen
    · exact (hreach.id_lt hmade hs).ne
  mem x hx := by
    cases List.mem_singleton.1 hx
    simp
  reaches x hx := by
    rw [List.mem_append, List.mem_singleton] at hx
    rcases hx with hx | rfl
    · exact (h.reaches x hx).imp_right (Reaches.of_args List.mem_cons_self)
    · exact .inr (.here List.mem_cons_self)

theorem found_of_collectInto (hmade : Stock made) :
    (∀ seen name, seen ⊆ made → (∀ s, name = .sym s → s ∈ made) → OperandsFirst seen →
      Found [name] seen (collectInto seen name)) ∧
    ∀ seen names, seen ⊆ made → (∀ s, .sym s ∈ names → s ∈ made) → OperandsFirst seen →
      Found names seen (collectAllInto seen names) := by
  refine collectInto.mutual_induct _ _ ?lit ?seen ?new ?nil ?cons
  case lit =>
    intro seen text _ _ hseen
    rw [collectInto]
    exact .refl hseen (by simp)
  case seen =>
    intro seen id kind text owner args hold hsub hname hseen
    rw [collectInto, if_pos hold]
    refine .refl hseen fun s hs ↦ ?_
    cases List.mem_singleton.1 hs
    obtain ⟨x, hx, hid⟩ := List.any_eq_true.1 hold
    rwa [← hmade.eq_of_id x (hsub hx) _ (hname _ rfl) (beq_iff_eq.1 hid)]
  case new =>
    intro seen id kind text owner args hnew ih hsub hname hseen
    rw [collectInto, if_neg hnew]
    have hself := hname _ rfl
    refine (ih hsub (fun o ho ↦ (hmade.operand _ hself o ho).1) hseen).concat hmade hself fun x hx hid ↦ ?_
    exact hnew (List.any_eq_true.2 ⟨x, hx, beq_iff_eq.2 hid⟩)
  case nil =>
    intro seen _ _ hseen
    rw [collectAllInto]
    exact .refl hseen (by simp)
  case cons =>
    intro seen name names ih ihs hsub hnames hseen
    rw [collectAllInto]
    have hfirst := ih hsub (fun s hs ↦ hnames s (hs ▸ List.mem_cons_self)) hseen
    refine hfirst.trans (ihs (fun x hx ↦ ?_) (fun s hs ↦ hnames s (List.mem_cons_of_mem _ hs)) hfirst.operandsFirst)
    rcases hfirst.reaches x hx with hx | hx
    · exact hsub hx
    · refine hx.mem hmade fun s hs ↦ hnames s ?_
      rw [← List.mem_singleton.1 hs]
      exact List.mem_cons_self

/-- The symbols that names depend on are found once each and operands first. For any names over symbols that one source
of numbers has made, exactly the symbols that are reached from the names through operands are collected; their numbers, and
so they themselves, are pairwise different; and every operand of a collected symbol stands before it. -/
theorem collected_once_operands_first {sc : Scratch} (hmade : Minted made sc) (hnames : ∀ s, .sym s ∈ names → s ∈ made) :
    (∀ s, s ∈ collect names ↔ Reaches names s) ∧ ((collect names).map (·.id)).Nodup ∧
      ∀ before s after, collect names = before ++ s :: after → ∀ o, .sym o ∈ s.args → o ∈ before := by
  have hfound : Found names [] (collect names) :=
    (found_of_collectInto hmade.stock).2 [] names (by simp) hnames .nil
  refine ⟨fun s ↦ ⟨fun hs ↦ ?_, fun hs ↦ ?_⟩, hfound.operandsFirst.nodup, hfound.operandsFirst.before⟩
  · exact (hfound.reaches s hs).resolve_left (by simp)
  · induction hs with
    | here h => exact hfound.mem _ h
    | operand _ ho ih => exact hfound.operandsFirst.operand_mem ih ho

def sharedTag : Symbol := ⟨0, .tag, "marker", none, []⟩

def sharingSelector : Symbol := ⟨1, .composite, "@e[tag=%s]", none, [.sym sharedTag]⟩

def sharingCommand : Symbol := ⟨2, .composite, "tag %s add %s", none, [.sym sharingSelector, .sym sharedTag]⟩

theorem minted_sharing : Minted [sharedTag, sharingSelector, sharingCommand] { nextSymbol := 3 } := by
  have htag : Minted [sharedTag] { nextSymbol := 1 } := .symbol (.start {}) (by simp) rfl
  have hselector : Minted [sharedTag, sharingSelector] { nextSymbol := 2 } := htag.symbol (by simp) rfl
  exact hselector.symbol (by simp) rfl

/-- A tag that two composites share, one of which is an operand of the other and is met first by itself. -/
theorem collected_once_operands_first_sharing :
    let names := [.sym sharingSelector, .lit "@s", .sym sharingCommand]
    collect names = [sharedTag, sharingSelector, sharingCommand] ∧
      (∀ s, s ∈ [sharedTag, sharingSelector, sharingCommand] ↔ Reaches names s) ∧
      ∀ before s after, [sharedTag, sharingSelector, sharingCommand] = before ++ s :: after →
        ∀ o, .sym o ∈ s.args → o ∈ before := by
  intro names
  have hcollect : collect names = [sharedTag, sharingSelector, sharingCommand] := rfl
  obtain ⟨hmem, -, hbefore⟩ := collected_once_operands_first minted_sharing (show ∀ s, .sym s ∈ names → _ by simp [names])
  rw [hcollect] at hmem hbefore
  exact ⟨hcollect, hmem, hbefore⟩

end CommandPack
