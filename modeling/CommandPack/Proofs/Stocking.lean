import Mathlib
import CommandPack.Proofs.Emission
import CommandPack.Proofs.Furnishing
import CommandPack.Proofs.Packing
import CommandPack.Proofs.Refinement

/-!
The library in listings. Its functions about objects are made of the commands that make, find, count and
remove objects; so whatever is done with them, objects have numbers of their own, the object that was asked
for is marked, and only objects without references are removed.
-/

namespace CommandPack

open Machine Stateful Text

namespace Graph

variable {V : Vocabulary} {s : Session} {id : Nat}

theorem Rooted.below_root (h : Rooted V s) (hfailure : s.failure = none) (hid : id < s.nodes.size) :
    ∃ root, IsRoot s root ∧ (id = root ∨ Below s root id) := by
  induction id using Nat.strong_induction_on with
  | _ id ih =>
    cases hparent : (s.node id).parent with
    | none => exact ⟨id, ⟨hid, hparent⟩, .inl rfl⟩
    | some p =>
      obtain ⟨hlt, hcontainer, -, -, hchild⟩ := h.grafted hparent
      have hstep : Holds s p id := ⟨hcontainer, _, hchild hfailure⟩
      obtain ⟨root, hroot, rfl | hbelow⟩ := ih p hlt (hlt.trans hid)
      · exact ⟨p, hroot, .inr (.single hstep)⟩
      · exact ⟨root, hroot, .inr (hbelow.tail hstep)⟩

theorem Rooted.mem_blocksOf (h : Rooted V s) (hfailure : s.failure = none) {roots : List Nat}
    (hroots : ∀ root, IsRoot s root → root ∈ roots ∧ (s.node root).isContainer = true) (hid : IsBlock s id) :
    id ∈ Listing.blocksOf s roots := by
  obtain ⟨root, hroot, rfl | hbelow⟩ := h.below_root hfailure hid.lt
  · exact absurd (hroots _ hroot).2 (by rw [hid]; decide)
  · refine List.mem_flatMap.2 ⟨root, (hroots root hroot).1, mem_blocksBelow ?_ hbelow hid (Nat.le_add_right _ _)⟩
    intro id c name hc
    obtain ⟨hlt, hparent, -⟩ := h.child hc
    exact ⟨(h.grafted hparent).1, hlt⟩

end Graph

namespace Listing

variable {s : Session} {roots : List NodeId} {l : Listing}

theorem failure_of_emit {reserved : List String} (hne : roots ≠ []) (hemit : emit s roots reserved = .ok l) :
    s.failure = none := by
  rw [emit_eq] at hemit
  split at hemit
  · cases hemit
  · rename_i hproblems
    obtain ⟨root, hroot⟩ := List.exists_mem_of_ne_nil roots hne
    simp only [not_not, List.isEmpty_iff, List.flatMap_eq_nil_iff] at hproblems
    have hnone := hproblems root hroot
    simp only [Graph.blocks, List.append_eq_nil_iff, Option.toList_eq_nil_iff] at hnone
    exact hnone.1

end Listing

namespace Machine

theorem unbroken_selectorOf {t : String} (ht : IsName t) : '\n' ∉ (selectorOf t).toList := by
  simp [selectorOf, ht.isLine.unbroken]

theorem isLine_untagLine {t : String} (ht : IsName t) : IsLine (untagLine t) :=
  isLine_join ["@e", "remove"] (isLine_word rfl (by decide)) (by simp) ht.isLine

theorem isLine_operationLine {target o p o' : String} (htarget : '\n' ∉ target.toList) (ho : IsName o) (hp : IsName p)
    (ho' : IsName o') : IsLine (operationLine target o p o') := by
  refine isLine_join ["players", "operation", target, o, "=", p] (isLine_word rfl (by decide)) ?_ ho'.isLine
  simp only [List.forall_mem_cons, htarget, ho.isLine.unbroken, hp.isLine.unbroken]
  simp

theorem isLine_assignLine {word t o : String} (hword : IsName word) (ht : IsName t) (ho : IsName o) :
    IsLine (scoreLine word (selectorOf t) o "1") := by
  refine isLine_join ["players", word, selectorOf t, o] (isLine_word rfl (by decide)) ?_ (isLine_word rfl (by decide))
  simp only [List.forall_mem_cons, hword.isLine.unbroken, unbroken_selectorOf ht, ho.isLine.unbroken]
  simp

theorem isLine_summonLine {a b c : String} (ha : IsName a) (hb : IsName b) (hc : IsName c) :
    IsLine (summonLine "minecraft:marker" a b c) := by
  have hdata : IsLine (tagData a b c) := by
    refine ⟨?_, ⟨'{', by simp [tagData], by decide, by decide⟩, '}', ?_, by decide⟩
    · simp [tagData, ha.isLine.unbroken, hb.isLine.unbroken, hc.isLine.unbroken]
    · rw [tagData, String.toList_append, List.getLast?_append]
      rfl
  exact isLine_join ["minecraft:marker", "0", "0", "0"] (isLine_word rfl (by decide)) (by simp) hdata

end Machine

namespace ObjectNames

variable {w : ObjectNames} {paths : ObjectOperation → String}

theorem Valid.isLine (hw : w.Valid) (hfetch : IsName (paths .fetch)) (op : ObjectOperation) :
    ∀ line ∈ w.lines paths op, IsLine line := by
  have hid : IsName w.idObjective := hw.isName (by simp)
  have hcount : IsName w.refCount := hw.isName (by simp)
  have ho : IsName w.objective := hw.isName (by simp)
  have hcounter : IsName w.counter := hw.isName (by simp)
  have harg : IsName w.arg := hw.isName (by simp)
  have hret : IsName w.ret := hw.isName (by simp)
  have htag : IsName w.tag := hw.isName (by simp)
  have htemp : IsName w.temp := hw.isName (by simp)
  have hfetched : IsName w.fetched := hw.isName (by simp)
  have hcountLine {word : String} (hword : IsName word) :
      ∀ line ∈ w.countLines (paths .fetch) word, IsLine line := by
    simp only [countLines, List.forall_mem_cons]
    exact ⟨isLine_callLine hfetch, isLine_assignLine hword hfetched hcount, by simp⟩
  cases op with
  | create =>
    simp only [lines, newLines, List.forall_mem_cons]
    exact ⟨isLine_untagLine htemp, isLine_untagLine hfetched,
      isLine_scoreLine ⟨by decide, rfl⟩ hcounter ho ⟨by decide, rfl⟩, isLine_summonLine htag htemp hfetched,
      isLine_operationLine (unbroken_selectorOf htemp) hid hcounter ho,
      isLine_assignLine ⟨by decide, rfl⟩ htemp hcount, isLine_operationLine hret.isLine.unbroken ho hcounter ho, by simp⟩
  | fetch =>
    simp only [lines, fetchLines, List.forall_mem_cons]
    refine ⟨isLine_untagLine hfetched, ?_, by simp⟩
    refine isLine_join ["as", selectorOf w.tag, "if", "score", "@s", w.idObjective, "=", w.arg, w.objective, "run", "tag",
      "@s", "add"] (isLine_word rfl (by decide)) ?_ hfetched.isLine
    simp only [List.forall_mem_cons, unbroken_selectorOf htag, hid.isLine.unbroken, harg.isLine.unbroken,
      ho.isLine.unbroken]
    simp
  | retain => exact hcountLine ⟨by decide, rfl⟩
  | release => exact hcountLine ⟨by decide, rfl⟩
  | collect =>
    simp only [lines, collectLines, List.forall_mem_cons]
    refine ⟨?_, by simp⟩
    refine isLine_join ["as", selectorOf w.tag, "unless", "score", "@s", w.refCount, "matches", "1..", "run", "kill"]
      (isLine_word rfl (by decide)) ?_ ⟨by decide, ⟨'@', rfl, by decide, by decide⟩, 's', rfl, by decide⟩
    simp only [List.forall_mem_cons, unbroken_selectorOf htag, hcount.isLine.unbroken]
    simp

end ObjectNames

namespace Library

open CommandPack.Graph Instruction

variable {t : SymbolTable} {s : Session} {l : Library} {temp : Symbol}

def objectNames (t : SymbolTable) (l : Library) (temp : Symbol) : ObjectNames where
  idObjective := (Name.sym l.object.idObjective).textIn t
  refCount := (Name.sym l.object.refCount).textIn t
  objective := (Name.sym l.objective).textIn t
  counter := l.object.counter.player.textIn t
  arg := l.arg.player.textIn t
  ret := l.ret.player.textIn t
  tag := (Name.sym l.object.tag).textIn t
  temp := (Name.sym temp).textIn t
  fetched := (Name.sym l.object.fetchedTag).textIn t

def objectPaths (l : Library) (op : ObjectOperation) : String := (objectPath [l.name] op).joined

section Writes

variable {is : List Instruction} {ls : List String}

theorem writes_untagAll (tag : Symbol) (h : Writes t is ls) :
    Writes t (untagAll tag ++ is) (untagLine ((Name.sym tag).textIn t) :: ls) :=
  .comment rfl (.line (spells_literal ⟨rfl, by simp [fillHoles, untagLine, join, String.intercalate_cons_cons]⟩) h)

theorem writes_count (t : SymbolTable) (l : Library) (temp : Symbol) {word : String} (hword : word = "add" ∨ word = "remove")
    (fetch : Path) : Writes t [.call ⟨fetch, none⟩, countInstruction word l.object]
      ((objectNames t l temp).countLines fetch.joined word) := by
  refine .line (spells_call t fetch) (.line (spells_literal ?_) .nil)
  rcases hword with rfl | rfl
  all_goals exact ⟨rfl, by simp [fillHoles, scoreLine, selectorOf, objectNames, join, String.intercalate_cons_cons]⟩

theorem writes_objectInstructions (hh : Houses s l temp) (hne : l.object.counter.same l.ret = false) (t : SymbolTable)
    (op : ObjectOperation) : Writes t (objectInstructions l.toRegisters l.object temp (objectPath [l.name] .fetch) op)
      ((objectNames t l temp).lines (objectPaths l) op) := by
  have hcounter : l.object.counter.objective = .sym l.objective := by
    obtain ⟨v, hv, -⟩ := hh.stocks.counter
    rw [hv]
    exact hh.objective.2
  have harg : l.arg.objective = .sym l.objective := by
    obtain ⟨p, hp, -⟩ := hh.arg
    rw [hp]
  have hret : l.ret.objective = .sym l.objective := by
    obtain ⟨p, hp, -⟩ := hh.ret
    rw [hp]
  cases op with
  | create =>
    have hmove : Transfer.scoreToScore l.object.counter l.ret = .literal "scoreboard players operation %s %s = %s %s"
        [l.ret.player, l.ret.objective, l.object.counter.player, l.object.counter.objective] := by
      rw [Transfer.scoreToScore, hne]
      rfl
    simp only [objectInstructions, scoreInstruction, hmove, hcounter, hret, List.append_assoc]
    refine writes_untagAll temp (writes_untagAll _ (.comment rfl (.line ?_ (.comment rfl (.line ?_ (.comment rfl
      (.line ?_ (.line ?_ (.line ?_ .nil)))))))))
    all_goals
      refine spells_literal ⟨rfl, ?_⟩
      simp [fillHoles, scoreLine, summonLine, tagData, operationLine, selectorOf, objectNames, join,
        String.intercalate_cons_cons]
  | fetch =>
    refine writes_untagAll _ (.comment rfl (.line (spells_literal ⟨rfl, ?_⟩) .nil))
    simp [fillHoles, eachLine, selectorOf, senseWord, objectNames, harg, join, String.intercalate_cons_cons]
  | retain => exact writes_count t l temp (.inl rfl) _
  | release => exact writes_count t l temp (.inr rfl) _
  | collect =>
    refine .line (spells_literal ⟨rfl, ?_⟩) .nil
    simp [fillHoles, eachLine, selectorOf, senseWord, objectNames, join, String.intercalate_cons_cons]

end Writes

section Emitted

variable {V : Vocabulary} {M : Set Symbol} {roots : List NodeId} {listing : Listing}

theorem Houses.counter_ne_ret (hh : Houses s l temp) (hn : Numbered V M)
    (hcounter : Covers M l.object.counter.player) (hret : Covers M l.ret.player) :
    l.object.counter.same l.ret = false := by
  obtain ⟨c, hc, -, hctext⟩ := hh.stocks.counter
  obtain ⟨p, hp, -, hptext⟩ := hh.ret
  rw [hc] at hcounter
  rw [hp] at hret
  have hid : c.id ≠ p.id := fun heq ↦ by
    obtain rfl : c = p := hn.eq_of_id hcounter hret heq
    rw [hctext] at hptext
    exact absurd hptext (by decide)
  simp [hc, hp, Score.same, Name.same, hid]

theorem Numbered.isRestrictedText_textIn (hV : V.Restricted) (hn : Numbered V M)
    (hsteps : SymbolTable.Steps hn.pool {} t) {v : Symbol} (hv : v ∈ M) (hkind : v.kind.isRestricted = true)
    (hknown : t.Knows (.sym v)) : isRestrictedText ((Name.sym v).textIn t) = true := by
  obtain ⟨x, hx⟩ := hknown
  rw [Name.textIn, hx]
  exact hn.isRestrictedText hV hsteps hv hkind hx

/-- The names that the functions about objects mention were made and have texts. -/
def Minted (M : Set Symbol) (t : SymbolTable) (name : Name) : Prop := Covers M name ∧ t.Knows name

theorem Houses.valid (hh : Houses s l temp) (hV : V.Restricted) (hn : Numbered V M)
    (hsteps : SymbolTable.Steps hn.pool {} t)
    (hnames : ∀ name ∈ [.sym l.object.idObjective, .sym l.object.refCount, .sym l.objective, l.object.counter.player,
      l.arg.player, l.ret.player, .sym l.object.tag, .sym temp, .sym l.object.fetchedTag], Minted M t name) :
    (objectNames t l temp).Valid := by
  obtain ⟨hid, hidText, hcount, hcountText⟩ := hh.stocks.objectives
  obtain ⟨htag, htagText, htemp, htempText, hfetched, hfetchedText⟩ := hh.stocks.tags
  obtain ⟨c, hc, hcounter, hcounterText⟩ := hh.stocks.counter
  obtain ⟨a, ha, harg, -⟩ := hh.arg
  obtain ⟨r, hr, hret, hretText⟩ := hh.ret
  have hobjective := hh.objective.1
  rw [hc, ha, hr] at hnames
  simp only [List.forall_mem_cons] at hnames
  obtain ⟨nid, ncount, nobjective, ncounter, narg, nret, ntag, ntemp, nfetched, -⟩ := hnames
  have hrestricted {v : Symbol} (hv : Minted M t (.sym v)) (hkind : v.kind.isRestricted = true) :
      isRestrictedText ((Name.sym v).textIn t) = true :=
    Numbered.isRestrictedText_textIn hV hn hsteps hv.1 hkind hv.2
  have hne {v v' : Symbol} (hv : Minted M t (.sym v)) (hv' : Minted M t (.sym v')) (hkind : v.kind.isRestricted = true)
      (hkind' : v'.kind.isRestricted = true) (htext : v.text ≠ v'.text) :
      (Name.sym v).textIn t ≠ (Name.sym v').textIn t :=
    hn.text_ne hsteps hv.1 hv'.1 hkind hkind' (fun heq ↦ htext (heq ▸ rfl)) hv.2 hv'.2
  have hr' {kind : SymbolKind} (h : kind = .objective ∨ kind = .tag ∨ kind = .player) : kind.isRestricted = true := by
    rcases h with rfl | rfl | rfl <;> rfl
  refine ⟨?_, ?_, ?_, ?_⟩
  · simp only [objectNames, hc, ha, hr, List.forall_mem_cons]
    exact ⟨hrestricted nid (hr' (by simp [hid])), hrestricted ncount (hr' (by simp [hcount])),
      hrestricted nobjective (hr' (by simp [hobjective])), hrestricted ncounter (hr' (by simp [hcounter])),
      hrestricted narg (hr' (by simp [harg])), hrestricted nret (hr' (by simp [hret])),
      hrestricted ntag (hr' (by simp [htag])), hrestricted ntemp (hr' (by simp [htemp])),
      hrestricted nfetched (hr' (by simp [hfetched])), by simp⟩
  · exact hne nid ncount (hr' (by simp [hid])) (hr' (by simp [hcount])) (by rw [hidText, hcountText]; decide)
  · simp only [objectNames, hc, hr]
    exact hne ncounter nret (hr' (by simp [hcounter])) (hr' (by simp [hret])) (by rw [hcounterText, hretText]; decide)
  · simp only [objectNames, List.nodup_cons, List.mem_cons, List.not_mem_nil, or_false, not_or, not_false_eq_true,
      List.nodup_nil, and_true]
    exact ⟨⟨hne ntag ntemp (hr' (by simp [htag])) (hr' (by simp [htemp])) (by rw [htagText, htempText]; decide),
      hne ntag nfetched (hr' (by simp [htag])) (hr' (by simp [hfetched])) (by rw [htagText, hfetchedText]; decide)⟩,
      hne ntemp nfetched (hr' (by simp [htemp])) (hr' (by simp [hfetched])) (by rw [htempText, hfetchedText]; decide)⟩

theorem Houses.lines_of_emit (hV : V.Restricted) (hw : Inked V M s) (hn : Numbered V M)
    (hroots : ∀ root, IsRoot s root → root ∈ roots ∧ (s.node root).isContainer = true) (hh : Houses s l temp)
    (hequips : Equips M l.toRegisters) (hname : isRestrictedText l.name = true)
    (hemit : Listing.emit s roots [] = .ok listing) :
    (objectNames (Listing.tableOf s roots []) l temp).Valid ∧ IsName (objectPaths l .fetch) ∧
      ∀ op, ∃ f ∈ listing.functions, f.path = objectPaths l op ∧
        f.lines.flatMap commandsOf = (objectNames (Listing.tableOf s roots []) l temp).lines (objectPaths l) op := by
  have hpool := hn.has_mentioned hw.covers roots
  have hsize : 0 < s.nodes.size := by
    obtain ⟨id, hreads, -⟩ := hh.stocks.reads .create
    exact Nat.zero_lt_of_lt hreads.lt
  have hfailure := Listing.failure_of_emit (List.ne_nil_of_mem (hroots 0 (hw.sane.rooted.isRoot_zero hsize)).1) hemit
  obtain ⟨-, hresolved, -, rfl⟩ := (Listing.emit_eq_ok hpool).1 hemit
  have hsteps : SymbolTable.Steps _ {} (Listing.tableOf s roots []) := Listing.steps_tableOf hpool
  generalize htable : Listing.tableOf s roots [] = t at hsteps ⊢
  -- Each function is a block of the graph, so it is listed, and its names were made and have texts.
  have hlisted (op : ObjectOperation) : ∃ id ∈ Listing.blocksOf s roots, (s.node id).path = objectPath [l.name] op ∧
      Reads s id (objectInstructions l.toRegisters l.object temp (objectPath [l.name] .fetch) op) none := by
    obtain ⟨id, hreads, hpath⟩ := hh.stocks.reads op
    exact ⟨id, hw.sane.rooted.mem_blocksOf hfailure hroots hreads.notContainer, hpath, hreads⟩
  have hknown (op : ObjectOperation) :
      Known t (objectInstructions l.toRegisters l.object temp (objectPath [l.name] .fetch) op) := by
    obtain ⟨id, hid, -, hreads⟩ := hlisted op
    rw [← hreads.commandsAt_eq, ← htable]
    exact Listing.known_of_settled hpool hresolved id hid
  have hminted (op : ObjectOperation) (template : String) (args : List Name)
      (hi : .literal template args ∈ objectInstructions l.toRegisters l.object temp (objectPath [l.name] .fetch) op) :
      ∀ name ∈ args, Minted M t name := by
    obtain ⟨id, -, -, hreads⟩ := hlisted op
    intro name hmem
    refine ⟨hw.covers id _ (hreads.commandsAt_eq ▸ hi) name (by rwa [namesIn]), ?_⟩
    exact SymbolTable.knows_of_collect (fun v hv ↦ hknown op v (mem_symbolsOf hi (by rw [symbols]; exact hv))) name hmem
  have hshare := hminted .create "scoreboard players operation @e[tag=%s] %s = %s %s"
    [.sym temp, .sym l.object.idObjective, l.object.counter.player, l.object.counter.objective]
    (by simp [objectInstructions])
  have hset := hminted .create "scoreboard players set @e[tag=%s] %s 1"
    [.sym temp, .sym l.object.refCount] (by simp [objectInstructions])
  have hmark := hminted .fetch "execute as @e[tag=%s] if score @s %s = %s %s run tag @s add %s"
    [.sym l.object.tag, .sym l.object.idObjective, l.arg.player, l.arg.objective, .sym l.object.fetchedTag]
    (by simp [objectInstructions])
  have hne := hh.counter_ne_ret hn (hshare _ (by simp)).1 hequips.ret.1
  have hcopy := hminted .create "scoreboard players operation %s %s = %s %s"
    [l.ret.player, l.ret.objective, l.object.counter.player, l.object.counter.objective]
    (by simp [objectInstructions, Transfer.scoreToScore, hne])
  have harg : l.arg.objective = .sym l.objective := by
    obtain ⟨p, hp, -⟩ := hh.arg
    rw [hp]
  have hvalid : (objectNames t l temp).Valid := by
    refine hh.valid hV hn hsteps ?_
    simp only [List.forall_mem_cons]
    exact ⟨hshare _ (by simp), hset _ (by simp), hmark _ (by simp [harg]), hshare _ (by simp), hmark _ (by simp),
      hcopy _ (by simp), hmark _ (by simp), hset _ (by simp), hmark _ (by simp), by simp⟩
  have hfetch : IsName (objectPaths l .fetch) := by
    refine isName_joined (by simp [objectPath]) ?_
    simp only [objectPath, List.cons_append, List.nil_append, List.forall_mem_cons]
    exact ⟨(isName_of_isRestrictedText hname).2, rfl, rfl, rfl, by simp⟩
  refine ⟨hvalid, hfetch, fun op ↦ ?_⟩
  obtain ⟨id, hid, hpath, hreads⟩ := hlisted op
  refine ⟨Listing.functionIn t s id, List.mem_map_of_mem hid, congrArg Path.joined hpath, ?_⟩
  rw [hreads.lines_functionIn, linesIn]
  simpa using (writes_objectInstructions hh hne t op).lines_eq (hknown op) (hvalid.isLine hfetch op)

end Emitted

/-- Names may stand in restricted texts, and all commands are made by the library. -/
def ownNames : Vocabulary where
  root name := isRestrictedText name = true
  child name := isRestrictedText name = true
  text _ := True
  word _ := True
  slot _ := True
  const _ _ := True
  symbol _ := False
  extra _ := False

theorem ownNames_usual : ownNames.Usual := isRestrictedText_of_isLabel

theorem ownNames_restricted : ownNames.Restricted := ⟨id, id⟩

theorem houses_of_start {o : BuildOptions} {c : Compilation} (hname : o.library = "" ∨ isRestrictedText o.library = true)
    (hstart : Compilation.start o = .ok c) (hlib : c.lib = some l) :
    ∃ temp M, Houses c.session l temp ∧ Equips M l.toRegisters ∧ Inked ownNames M c.session ∧
      Numbered ownNames M ∧ isRestrictedText l.name = true ∧
      (∀ root, IsRoot c.session root → root ∈ c.emitted ∧ (c.session.node root).isContainer = true) ∧
      l.stack.storage ∈ M := by
  unfold Compilation.start at hstart
  split at hstart
  · cases hstart
    nomatch hlib
  dsimp only at hstart
  generalize hoptions : (if o.objective.isEmpty = true then _ else _ : Options) = options at hstart
  have hroot : isRestrictedText options.name = true := by
    have husual : isRestrictedText "dp_std" = true := by decide
    rw [← hoptions]
    rcases hname with hname | hname
    · simp only [hname]
      split <;> exact husual
    · split <;> split <;> assumption
  obtain ⟨l', s', hrun, hid, hl, hplace, ⟨temp, hhouses⟩, M, hinked, hequips, hstorage⟩ :=
    install_spec (s := {}) ownNames_usual rfl options hroot
  rw [show (install options).run {} = (.ok l', s') from hrun] at hstart
  cases hstart
  obtain rfl : l' = l := Option.some.inj hlib
  refine ⟨temp, M, hhouses, hequips, hinked, hinked.toNumbered, hl ▸ hroot, fun root hroot' ↦ ?_, hstorage⟩
  obtain rfl := hinked.single hroot'.1 hroot'.2
  exact ⟨by simp [Compilation.emitted, hid], hplace.container⟩

theorem roots_of_start {o : BuildOptions} {c : Compilation} (hstart : Compilation.start o = .ok c) : c.roots = [] := by
  unfold Compilation.start at hstart
  split at hstart
  · cases hstart
    rfl
  · dsimp only at hstart
    split at hstart
    · cases hstart
      rfl
    · cases hstart

/-- Objects stay in order. In every machine that has the functions of the emitted library, no entities at first and
room to run them, whatever is done with objects, and with other things in between that leave entities and the
counter alone, as long as fewer than 2³¹ objects are made: all living objects have numbers that were given
out, no two the same; and each operation can be run next and does what it promises. -/
theorem objects_stay_in_order {o : BuildOptions} {c : Compilation} {listing : Listing}
    (hname : o.library = "" ∨ isRestrictedText o.library = true) (hstart : Compilation.start o = .ok c)
    (hlib : c.lib = some l) (hemit : c.emit = .ok listing) :
    ∃ temp, let w := objectNames (Listing.tableOf c.session c.emitted []) l temp
      ∀ m₀, (∀ f ∈ listing.functions, Dict.find? f.path m₀.functions = some (f.lines.flatMap commandsOf)) →
        m₀.entities = [] → w.Free m₀ → 0 ≤ w.lastNumber m₀ →
        ∀ k m, w.Reaches (objectPaths l) m₀ k m → w.lastNumber m₀ + k < 2 ^ 31 →
          w.Kept m ∧ ∀ op, w.lastNumber m₀ + k + op.creations < 2 ^ 31 →
            ∃ m', m.run (objectPaths l op) = (.ok (), m') ∧ w.Done m m' op := by
  obtain ⟨temp, M, hhouses, hequips, hw, hn, hl, hroots, -⟩ := houses_of_start hname hstart hlib
  obtain ⟨hvalid, hfetch, hlines⟩ := hhouses.lines_of_emit ownNames_restricted hw hn hroots hequips hl hemit
  refine ⟨temp, fun m₀ hfunctions hempty hfree hfirst k m hreaches hroom ↦ ?_⟩
  have hhosts : (objectNames (Listing.tableOf c.session c.emitted []) l temp).Hosts (objectPaths l) m₀ := by
    refine ⟨hfree, fun op ↦ ?_⟩
    obtain ⟨f, hf, hpath, hcommands⟩ := hlines op
    rw [← hpath, hfunctions f hf, hcommands]
  obtain ⟨hkept, hhosts', hnumber⟩ := hreaches.kept hvalid hfetch (.of_entities hempty) hhosts hfirst hroom
  refine ⟨hkept, fun op hop ↦ ?_⟩
  obtain ⟨m', hrun, -, -, -, hdone⟩ := hkept.run op hvalid hhosts' hfetch (by omega) (by omega)
  exact ⟨m', hrun, hdone⟩

def isEmitted (r : Except Problem Compilation) : Bool :=
  match r with
  | .ok c => c.lib.isSome && (Listing.evaluate c.session c.emitted []).toBool
  | .error _ => false

theorem isEmitted_usual : isEmitted (Compilation.start {}) = true := by decide +kernel

theorem emits_usual : ∃ c l listing, Compilation.start {} = .ok c ∧ c.lib = some l ∧ c.emit = .ok listing := by
  have heval := isEmitted_usual
  cases hstart : Compilation.start {} with
  | error p =>
    rw [hstart] at heval
    cases heval
  | ok c =>
    rw [hstart, isEmitted, Bool.and_eq_true, Option.isSome_iff_exists] at heval
    obtain ⟨⟨l, hlib⟩, heval⟩ := heval
    obtain ⟨temp, M, -, -, hw, hn, -⟩ := houses_of_start (.inl rfl) hstart hlib
    have hemit := Listing.emit_eq_evaluate (hn.has_mentioned hw.covers c.emitted) []
    cases hlisting : Listing.evaluate c.session c.emitted [] with
    | error e =>
      rw [hlisting] at heval
      cases heval
    | ok listing => exact ⟨c, l, listing, rfl, hlib, hemit.trans hlisting⟩

/-- Two objects are made, and then one is looked for. -/
theorem objects_stay_in_order_twins : ∃ c l listing, Compilation.start {} = .ok c ∧ c.lib = some l ∧
    c.emit = .ok listing ∧ ∃ temp m₁ m₂ m₃, let w := objectNames (Listing.tableOf c.session c.emitted []) l temp
      ({ functions := (ofListing {} listing).functions } : Machine).run (objectPaths l .create) = (.ok (), m₁) ∧
      m₁.run (objectPaths l .create) = (.ok (), m₂) ∧ w.Kept m₂ ∧
      m₂.run (objectPaths l .fetch) = (.ok (), m₃) ∧ w.Done m₂ m₃ .fetch := by
  obtain ⟨c, l, listing, hstart, hlib, hemit⟩ := emits_usual
  obtain ⟨temp, horder⟩ := objects_stay_in_order (.inl rfl) hstart hlib hemit
  have hlisted : ∀ f ∈ listing.functions,
      Dict.find? f.path (ofListing {} listing).functions = some (f.lines.flatMap commandsOf) := by
    have hc : c.Orderly := .start (by constructor <;> decide) hstart
    have hroots : c.emitted = [l.root] := by
      rw [Compilation.emitted, hlib, roots_of_start hstart]
      rfl
    have hnodup : (listing.functions.map (·.path)).Nodup := by
      refine (Listing.nodup_of_emit_iff fileNames_separates hc.sane.rooted hc.roots hemit).2 ?_
      rw [hroots]
      exact List.pairwise_singleton _ _
    exact fun f hf ↦ find?_ofListing hnodup hf
  let m₀ : Machine := { functions := (ofListing {} listing).functions }
  have hfree : (objectNames (Listing.tableOf c.session c.emitted []) l temp).Free m₀ :=
    ⟨rfl, rfl, show (2 : Int) ≤ 1024 by decide, .inr (show (7 : Int) ≤ 65536 by decide), .inl rfl, .inl rfl, .inl rfl⟩
  have hfirst : (objectNames (Listing.tableOf c.session c.emitted []) l temp).lastNumber m₀ = 0 := rfl
  have hnext := horder m₀ hlisted rfl hfree hfirst.ge
  rw [hfirst] at hnext
  obtain ⟨m₁, hrun₁, -⟩ := (hnext 0 m₀ .start (by decide)).2 .create (by decide)
  have h₁ : (objectNames (Listing.tableOf c.session c.emitted []) l temp).Reaches (objectPaths l) m₀ _ _ :=
    .run .start .create
  rw [hrun₁] at h₁
  obtain ⟨m₂, hrun₂, -⟩ := (hnext _ m₁ h₁ (by decide)).2 .create (by decide)
  have h₂ := h₁.run .create
  rw [hrun₂] at h₂
  obtain ⟨hkept, hops⟩ := hnext _ m₂ h₂ (by decide)
  obtain ⟨m₃, hrun₃, hdone⟩ := hops .fetch (by decide)
  exact ⟨c, l, listing, hstart, hlib, hemit, temp, m₁, m₂, m₃, hrun₁, hrun₂, hkept, hrun₃, hdone⟩

end Library

end CommandPack
