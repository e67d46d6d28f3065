import Mathlib
import CommandPack.Proofs.Crafting
import CommandPack.Proofs.Emission
import CommandPack.Proofs.Paths
import CommandPack.Pack

/-!
Blocks gathered from roots. Blocks below roots of different names have different paths, so nothing is lost
when they are listed, loaded and written to files.
-/

namespace CommandPack.Graph

variable {V : Vocabulary} {s : Session} {id : Nat}

theorem Rooted.path_child (h : Rooted V s) {name : String} {c : Nat} (hc : (name, c) ∈ (s.node id).children) :
    (s.node c).path = (s.node id).path ++ [name] := by
  obtain ⟨-, hparent, hname⟩ := h.child hc
  rw [(h.grafted hparent).2.2.1, hname]

/-- The paths of blocks are different, and each goes through a child. -/
structure Spread (s : Session) (id : Nat) (names : List String) (blocks : List Nat) : Prop where
  nodup : (blocks.map fun b ↦ (s.node b).path).Nodup
  through : ∀ b ∈ blocks, ∃ name ∈ names, (s.node id).path ++ [name] <+: (s.node b).path

theorem Spread.append {names names' : List String} {blocks blocks' : List Nat} (h : Spread s id names blocks)
    (h' : Spread s id names' blocks') (hdisjoint : names.Disjoint names') :
    Spread s id (names ++ names') (blocks ++ blocks') := by
  constructor
  · rw [List.map_append, List.nodup_append']
    refine ⟨h.nodup, h'.nodup, ?_⟩
    intro path hpath hpath'
    obtain ⟨b, hb, rfl⟩ := List.mem_map.1 hpath
    obtain ⟨b', hb', heq⟩ := List.mem_map.1 hpath'
    obtain ⟨name, hname, hlead⟩ := h.through b hb
    obtain ⟨name', hname', hlead'⟩ := h'.through b' hb'
    rw [heq] at hlead'
    -- both lead to the same path, so they are the same up to the name of the child
    have hsame := (List.prefix_of_prefix_length_le hlead hlead' (by simp)).eq_of_length (by simp)
    have hnames : name = name' := by simpa using hsame
    exact hdisjoint hname (hnames ▸ hname')
  · intro b hb
    rcases List.mem_append.1 hb with hb | hb
    · obtain ⟨name, hname, hlead⟩ := h.through b hb
      exact ⟨name, List.mem_append_left _ hname, hlead⟩
    · obtain ⟨name, hname, hlead⟩ := h'.through b hb
      exact ⟨name, List.mem_append_right _ hname, hlead⟩

theorem Spread.nil (s : Session) (id : Nat) (names : List String) : Spread s id names [] :=
  ⟨List.nodup_nil, fun _ hb ↦ nomatch hb⟩

theorem spread_blocksOfAll (h : Rooted V s) {fuel : Nat}
    (hfuel : ∀ id, Spread s id ((s.node id).children.map (·.1)) (blocksBelow s fuel id).1)
    {cs : List (String × Nat)} (hcs : ∀ c ∈ cs, c ∈ (s.node id).children) (hnodup : (cs.map (·.1)).Nodup) :
    Spread s id (cs.map (·.1)) (blocksOfAll s fuel (cs.map (·.2))).1 := by
  induction cs with
  | nil =>
    simp only [List.map_nil]
    rw [blocksOfAll]
    exact .nil s id []
  | cons c cs ih =>
    obtain ⟨name, c⟩ := c
    rw [List.map_cons, List.nodup_cons] at hnodup
    have hrest := ih (fun x hx ↦ hcs x (List.mem_cons_of_mem _ hx)) hnodup.2
    have hpath := h.path_child (hcs _ List.mem_cons_self)
    have hbelow : Spread s id [name] (blocksBelow s fuel c).1 := by
      refine ⟨(hfuel c).nodup, fun b hb ↦ ⟨name, List.mem_singleton_self name, ?_⟩⟩
      obtain ⟨name', -, hlead⟩ := (hfuel c).through b hb
      rw [hpath] at hlead
      exact (List.prefix_append _ [name']).trans hlead
    have hself : Spread s id [name] [c] := by
      refine ⟨List.nodup_singleton _, fun b hb ↦ ⟨name, List.mem_singleton_self name, ?_⟩⟩
      rw [List.mem_singleton.1 hb, hpath]
    have hdisjoint : [name].Disjoint (cs.map (·.1)) := List.singleton_disjoint.2 hnodup.1
    simp only [List.map_cons]
    rw [blocksOfAll]
    dsimp only
    split
    · exact hself.append hrest hdisjoint
    · exact hbelow.append hrest hdisjoint
    · exact hbelow.append hrest hdisjoint

theorem spread_blocksBelow (h : Rooted V s) (fuel id : Nat) :
    Spread s id ((s.node id).children.map (·.1)) (blocksBelow s fuel id).1 := by
  induction fuel generalizing id with
  | zero =>
    rw [blocksBelow]
    exact .nil s id _
  | succ fuel ih =>
    rw [blocksBelow]
    exact spread_blocksOfAll h ih (fun c hc ↦ hc) (h.distinct id)

theorem Rooted.path_eq (h : Rooted V s) (hid : id < s.nodes.size) :
    ∃ root rest, (s.node id).path = root :: rest ∧ V.root root ∧ ∀ name ∈ rest, V.child name := by
  induction id using Nat.strong_induction_on with
  | _ id ih =>
    cases hparent : (s.node id).parent with
    | none =>
      obtain ⟨hpath, hroot⟩ := h.root hid hparent
      exact ⟨_, [], hpath, hroot, fun _ hname ↦ nomatch hname⟩
    | some p =>
      obtain ⟨hlt, -, hpath, hchild, -⟩ := h.grafted hparent
      obtain ⟨root, rest, hp, hroot, hrest⟩ := ih p hlt (hlt.trans hid)
      refine ⟨root, rest ++ [(s.node id).name], by rw [hpath, hp, List.cons_append], hroot, ?_⟩
      intro name hname
      rcases List.mem_append.1 hname with hname | hname
      · exact hrest name hname
      · rw [List.mem_singleton.1 hname]
        exact hchild

/-- Names that can be told apart when they are joined. -/
structure Vocabulary.Separates (V : Vocabulary) : Prop where
  root {name : String} (h : V.root name) : ':' ∉ name.toList
  child {name : String} (h : V.child name) : '/' ∉ name.toList

/-- Names of nodes are names of files, and all else may be said. -/
def fileNames : Vocabulary where
  root name := ':' ∉ name.toList ∧ '/' ∉ name.toList
  child := Disk.IsFileName
  text _ := True
  word _ := True
  slot _ := True
  const _ _ := True
  symbol _ := True
  extra _ := True

theorem fileNames_separates : fileNames.Separates where
  root h := h.1
  child h := h.no_slash

theorem isFileName_of_isLabel {name : String} (h : IsLabel name) : Disk.IsFileName name := by
  simp only [IsLabel, Bool.and_eq_true, Bool.not_eq_true', List.isEmpty_eq_false_iff, List.all_eq_true] at h
  obtain ⟨hne, hall⟩ := h
  have hchar {c : Char} (hc : isLabelChar c = false) : c ∉ name.toList := fun hmem ↦ by simp [hall c hmem] at hc
  refine ⟨?_, ?_, ?_, hchar (by decide)⟩
  · rintro rfl
    exact hne rfl
  · rintro rfl
    exact hchar (c := '.') (by decide) (by decide)
  · rintro rfl
    exact hchar (c := '.') (by decide) (by decide)

def IsRoot (s : Session) (id : Nat) : Prop := id < s.nodes.size ∧ (s.node id).parent = none

theorem isRoot_mono {s' : Session} (h : Before s s') (hid : IsRoot s id) : IsRoot s' id :=
  ⟨hid.1.trans_le h.size, (h.node hid.1).2.1.trans hid.2⟩

theorem Rooted.isRoot_zero (h : Rooted V s) (hsize : 0 < s.nodes.size) : IsRoot s 0 := by
  refine ⟨hsize, ?_⟩
  cases hparent : (s.node 0).parent with
  | none => rfl
  | some p => exact absurd (h.grafted hparent).1 (Nat.not_lt_zero p)

theorem Rooted.path_below (h : Rooted V s) {root b : Nat} (hroot : IsRoot s root) (hb : b ∈ (blocks s root).1) :
    ∃ name rest, (s.node b).path = (s.node root).name :: name :: rest := by
  obtain ⟨name, -, rest, hpath⟩ := (spread_blocksBelow h s.nodes.size root).through b hb
  rw [(h.root hroot.1 hroot.2).1] at hpath
  exact ⟨name, rest, hpath.symm⟩

/-- No block below one node has the path of a block below the other. -/
def Apart (s : Session) (id id' : Nat) : Prop :=
  ∀ b ∈ (blocks s id).1, ∀ b' ∈ (blocks s id').1, (s.node b).path ≠ (s.node b').path

theorem Rooted.apart (h : Rooted V s) {root root' : Nat} (hroot : IsRoot s root) (hroot' : IsRoot s root')
    (hname : (s.node root).name ≠ (s.node root').name) : Apart s root root' := by
  intro b hb b' hb' heq
  obtain ⟨name, rest, hpath⟩ := h.path_below hroot hb
  obtain ⟨name', rest', hpath'⟩ := h.path_below hroot' hb'
  rw [hpath, hpath'] at heq
  exact hname (List.cons.inj heq).1

theorem Rooted.nodup_paths_iff (h : Rooted V s) (roots : List Nat) :
    ((Listing.blocksOf s roots).map fun b ↦ (s.node b).path).Nodup ↔ roots.Pairwise (Apart s) := by
  rw [Listing.blocksOf, List.map_flatMap, List.nodup_flatMap]
  have hbelow : ∀ root ∈ roots, ((blocks s root).1.map fun b ↦ (s.node b).path).Nodup :=
    fun root _ ↦ (spread_blocksBelow h s.nodes.size root).nodup
  rw [and_iff_right hbelow]
  constructor
  · apply List.Pairwise.imp
    intro root root' hdisjoint b hb b' hb' heq
    exact hdisjoint (List.mem_map_of_mem hb) (heq ▸ List.mem_map_of_mem hb')
  · apply List.Pairwise.imp
    intro root root' hapart path hpath hpath'
    obtain ⟨b, hb, rfl⟩ := List.mem_map.1 hpath
    obtain ⟨b', hb', heq⟩ := List.mem_map.1 hpath'
    exact hapart b hb b' hb' heq.symm

end CommandPack.Graph

namespace CommandPack.Listing

variable {s : Session} {roots : List NodeId} {reserved : List String} {l : Listing}

theorem parts_of_renderBlock {t t' : SymbolTable} {id : NodeId} {f : Function} (h : renderBlock s id t = (.ok f, t')) :
    f.parts = (s.node id).path ∧ f.path = (s.node id).path.joined := by
  rw [renderBlock_apply] at h
  rcases hlines : Instruction.renderAll (Graph.commandsAt s id) t with ⟨e | lines, t₁⟩
  · rw [hlines] at h
    nomatch h
  · rw [hlines] at h
    cases h
    exact ⟨rfl, rfl⟩

theorem parts_of_renderBlocks {t : SymbolTable} {ids : List NodeId} {fs : List Function}
    (h : renderBlocks s t ids = ([], fs)) :
    fs.map (·.parts) = ids.map (fun id ↦ (s.node id).path) ∧ ∀ f ∈ fs, f.path = f.parts.joined := by
  induction ids generalizing t fs with
  | nil =>
    cases h
    exact ⟨rfl, fun f hf ↦ nomatch hf⟩
  | cons id ids ih =>
    rw [renderBlocks_cons] at h
    rcases hblock : renderBlock s id t with ⟨e | f, t'⟩
    · rw [hblock] at h
      nomatch h
    · rw [hblock] at h
      obtain ⟨hes, rfl⟩ := Prod.mk.inj h
      obtain ⟨hparts, hpath⟩ := parts_of_renderBlock hblock
      obtain ⟨hrest, hpaths⟩ := ih (Prod.ext hes rfl)
      refine ⟨by rw [List.map_cons, List.map_cons, hparts, hrest], ?_⟩
      intro f' hf'
      rcases List.mem_cons.1 hf' with rfl | hf'
      · rw [hpath, hparts]
      · exact hpaths f' hf'

theorem parts_of_emit (h : emit s roots reserved = .ok l) :
    (∀ root ∈ roots, (Graph.blocks s root).2 = []) ∧
      l.functions.map (·.parts) = (blocksOf s roots).map (fun id ↦ (s.node id).path) ∧
      ∀ f ∈ l.functions, f.path = f.parts.joined := by
  rw [emit_eq] at h
  split at h
  · nomatch h
  · rename_i hproblems
    split at h
    · nomatch h
    · split at h
      · rename_i fs hfs
        cases h
        refine ⟨?_, parts_of_renderBlocks hfs⟩
        intro root hroot
        have hempty : (roots.flatMap fun root ↦ (Graph.blocks s root).2) = [] := by simpa using hproblems
        exact List.flatMap_eq_nil_iff.1 hempty root hroot
      · nomatch h

theorem mem_functions {f : Function} (h : emit s roots reserved = .ok l) (hf : f ∈ l.functions) :
    ∃ root ∈ roots, ∃ b ∈ (Graph.blocks s root).1, f.parts = (s.node b).path := by
  have hparts := List.mem_map_of_mem (f := (·.parts)) hf
  rw [(parts_of_emit h).2.1] at hparts
  obtain ⟨b, hb, heq⟩ := List.mem_map.1 hparts
  obtain ⟨root, hroot, hb⟩ := List.mem_flatMap.1 hb
  exact ⟨root, hroot, b, hb, heq.symm⟩

theorem parts_eq {V : Graph.Vocabulary} (hrooted : Graph.Rooted V s) (hroots : ∀ root ∈ roots, Graph.IsRoot s root)
    (h : emit s roots reserved = .ok l) {f : Function} (hf : f ∈ l.functions) :
    ∃ root ∈ roots, ∃ name names, f.parts = (s.node root).name :: name :: names ∧ V.root (s.node root).name ∧
      ∀ n ∈ name :: names, V.child n := by
  obtain ⟨root, hroot, b, hb, hparts⟩ := mem_functions h hf
  obtain ⟨name, names, hpath⟩ := hrooted.path_below (hroots root hroot) hb
  have hlt : b < s.nodes.size := by
    by_contra hlt
    rw [Graph.node_of_size_le (not_lt.1 hlt)] at hpath
    nomatch hpath
  obtain ⟨first, rest, hshape, hfirst, hrest⟩ := hrooted.path_eq hlt
  obtain ⟨rfl, rfl⟩ := List.cons.inj (hshape.symm.trans hpath)
  exact ⟨root, hroot, name, names, hparts.trans hpath, hfirst, hrest⟩

/-- Functions of a listing have different paths just if blocks below different roots have. -/
theorem nodup_of_emit_iff {V : Graph.Vocabulary} (hV : V.Separates) (hrooted : Graph.Rooted V s)
    (hroots : ∀ root ∈ roots, Graph.IsRoot s root) (h : emit s roots reserved = .ok l) :
    (l.functions.map (·.path)).Nodup ↔ roots.Pairwise (Graph.Apart s) := by
  obtain ⟨-, hparts, hpaths⟩ := parts_of_emit h
  rw [← hrooted.nodup_paths_iff, ← hparts]
  constructor
  · intro hnodup
    have hmap : l.functions.map (·.path) = (l.functions.map (·.parts)).map Path.joined := by
      rw [List.map_map]
      exact List.map_congr_left hpaths
    rw [hmap] at hnodup
    exact hnodup.of_map
  · intro hnodup
    refine List.Nodup.map_on ?_ hnodup.of_map
    intro f hf f' hf' hpath
    apply List.inj_on_of_nodup_map hnodup hf hf'
    obtain ⟨root, -, name, names, heq, hroot, hchild⟩ := parts_eq hrooted hroots h hf
    obtain ⟨root', -, name', names', heq', hroot', hchild'⟩ := parts_eq hrooted hroots h hf'
    rw [hpaths f hf, hpaths f' hf', heq, heq'] at hpath
    obtain ⟨h₁, h₂⟩ := Path.joined_injective (hV.root hroot) (hV.root hroot')
      ⟨List.cons_ne_nil name names, fun n hn ↦ hV.child (hchild n hn)⟩
      ⟨List.cons_ne_nil name' names', fun n hn ↦ hV.child (hchild' n hn)⟩ hpath
    rw [heq, heq', h₁, h₂]

theorem find?_of_nodup (hnodup : (l.functions.map (·.path)).Nodup) {f : Function} (hf : f ∈ l.functions) :
    l.find? f.path = some f := by
  obtain ⟨f', hf'⟩ : ∃ f', l.find? f.path = some f' :=
    Option.isSome_iff_exists.1 (List.find?_isSome.2 ⟨f, List.mem_reverse.2 hf, by simp⟩)
  have hmem := List.mem_reverse.1 (List.mem_of_find?_eq_some hf')
  have hpath : f'.path = f.path := by simpa using List.find?_some hf'
  rw [hf', List.inj_on_of_nodup_map hnodup hmem hf hpath]

end CommandPack.Listing

namespace CommandPack.Pack

open Disk

variable {s : Session} {roots : List NodeId} {reserved : List String} {l : Listing}

def wayTo (o : Options) (parts : Path) : List String := "data" :: parts.headD "" :: o.dirName :: parts.tail

theorem files_of_emit {V : Graph.Vocabulary} (hrooted : Graph.Rooted V s)
    (hchild : ∀ name, V.child name → IsFileName name) (hroots : ∀ root ∈ roots, Graph.IsRoot s root)
    (hapart : roots.Pairwise (Graph.Apart s)) (hfiles : ∀ root ∈ roots, IsFileName (s.node root).name) {o : Options}
    (ho : IsFileName o.dirName) (h : Listing.emit s roots reserved = .ok l) :
    ∃ files : List File, l.functions.map (functionFile o) = files.map .ok ∧ (files.map (·.path)).Nodup := by
  have hdata : IsFileName "data" := ⟨by decide, by decide, by decide, by decide⟩
  have hway : ∀ f ∈ l.functions, f.parts ≠ [] ∧ ∀ name ∈ wayTo o f.parts, IsFileName name := by
    intro f hf
    obtain ⟨root, hroot, name, names, hparts, -, hnames⟩ := Listing.parts_eq hrooted hroots h hf
    rw [hparts]
    refine ⟨List.cons_ne_nil _ _, ?_⟩
    intro n hn
    simp only [wayTo, List.headD_cons, List.tail_cons, List.mem_cons] at hn
    rcases hn with rfl | rfl | rfl | hn
    · exact hdata
    · exact hfiles root hroot
    · exact ho
    · exact hchild n (hnames n (List.mem_cons.2 hn))
  have hfile : ∀ f ∈ l.functions, functionFile o f =
      .ok ⟨.function, Text.join "/" (wayTo o f.parts) ++ ".mcfunction", f.text⟩ := by
    intro f hf
    obtain ⟨root, -, name, names, hparts, -⟩ := Listing.parts_eq hrooted hroots h hf
    have hjoin := joinPaths_eq (List.cons_ne_nil _ _) (hway f hf).2
    rw [functionFile]
    rw [hparts] at hjoin ⊢
    exact congrArg (fun path ↦ Except.ok (File.mk .function (path ++ ".mcfunction") f.text)) hjoin
  refine ⟨l.functions.map fun f ↦ ⟨.function, Text.join "/" (wayTo o f.parts) ++ ".mcfunction", f.text⟩, ?_, ?_⟩
  · rw [List.map_map]
    exact List.map_congr_left hfile
  · have hparts := (hrooted.nodup_paths_iff roots).2 hapart
    rw [← (Listing.parts_of_emit h).2.1] at hparts
    rw [List.map_map]
    refine List.Nodup.map_on ?_ hparts.of_map
    intro f hf f' hf' hpath
    apply List.inj_on_of_nodup_map hparts hf hf'
    have hsplit : ∀ f ∈ l.functions, Text.split '/' (Text.join "/" (wayTo o f.parts)) = wayTo o f.parts :=
      fun f hf ↦ Text.split_join (List.cons_ne_nil _ _) fun p hp ↦ ((hway f hf).2 p hp).no_slash
    have hjoin : Text.join "/" (wayTo o f.parts) = Text.join "/" (wayTo o f'.parts) :=
      String.append_left_inj _ |>.1 hpath
    have heq : wayTo o f.parts = wayTo o f'.parts := by rw [← hsplit f hf, ← hsplit f' hf', hjoin]
    obtain ⟨root, rest, hroot⟩ := List.exists_cons_of_ne_nil (hway f hf).1
    obtain ⟨root', rest', hroot'⟩ := List.exists_cons_of_ne_nil (hway f' hf').1
    rw [hroot, hroot'] at heq ⊢
    simpa [wayTo] using heq

end CommandPack.Pack
