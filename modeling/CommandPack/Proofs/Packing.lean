import Mathlib
import CommandPack.Compilation
import CommandPack.Proofs.Accepting
import CommandPack.Proofs.Declaring
import CommandPack.Proofs.Furnishing
import CommandPack.Proofs.Gathering

/-!
Packs put together of programs, the library and roots made by hand. As long as no two roots have the same
name, no function is lost.
-/

namespace CommandPack.Compilation

open Relation Stateful CommandPack.Graph CommandPack.Compile CommandPack.Disk

theorem isFileName_of_identForm {name : String} (h : Document.IdentForm name.toList) : IsFileName name := by
  obtain ⟨c, cs, hchars, hc, hcs⟩ := h
  refine isFileName_of_isLabel ?_
  rw [IsLabel, hchars]
  simp only [List.isEmpty_cons, Bool.not_false, Bool.true_and, List.all_cons, Bool.and_eq_true, List.all_eq_true]
  refine ⟨?_, fun d hd ↦ ?_⟩
  · rcases hc with hc | hc
    · simp [isLabelChar, Char.isAlphanum, hc]
    · simp [isLabelChar, hc]
  · rcases hcs d hd with hd | hd
    · simp [isLabelChar, hd]
    · simp [isLabelChar, hd]

theorem rootName_of_isRootChar {name : String} (h : name.toList.all isRootChar = true) : fileNames.root name := by
  rw [List.all_eq_true] at h
  have hchar {c : Char} (hc : isRootChar c = false) : c ∉ name.toList := fun hmem ↦ by simp [h c hmem] at hc
  exact ⟨hchar (by decide), hchar (by decide)⟩

/-- Functions and classes with the names of files keep graphs in order. -/
theorem admits_sound {R : Session → Prop} (hR : ∀ {s s'}, R s → Alters fileNames s s' → R s') :
    Admits (Sound fileNames R) (fun f ↦ IsFileName f.name) IsFileName where
  toInvariant := invariant_sound isFileName_of_isLabel hR
  function {F s parent decl} h hp hcontainer hdecl _ tags := by
    have hs : Sound fileNames R F (functionMade s parent decl.name decl.name tags decl.description) :=
      h.altered hR (.single (.makeFunction hp hcontainer hdecl hdecl))
    refine ⟨hs.1, hs.2.1, ?_⟩
    rintro id (rfl | hid)
    · exact isFunction_functionMade hp
    · exact hs.2.2 id hid
  family h hp hcontainer _ hC _ _ _ := h.altered hR (.single (.make hp hcontainer hC trivial))

def emitted (c : Compilation) : List NodeId := c.lib.toList.map (·.root) ++ c.roots

/-- The graph of a compilation is in order, and all emitted roots are there. -/
structure Orderly (c : Compilation) : Prop where
  sane : Sane fileNames c.session
  roots : ∀ root ∈ c.emitted, IsRoot c.session root

theorem isRoot_withRoot (s : Session) (name : String) : IsRoot (withRoot s name) s.nodes.size := by
  refine ⟨by simp, ?_⟩
  rw [node_withRoot, if_pos rfl]

theorem Orderly.of_session {c : Compilation} (h : c.Orderly) {s : Session} (hsteps : Altered fileNames c.session s) :
    Orderly { c with session := s } :=
  ⟨hsteps.sane h.sane, fun root hroot ↦ isRoot_mono hsteps.before (h.roots root hroot)⟩

theorem Orderly.withRoot {c : Compilation} (h : c.Orderly) {name : String} (hname : fileNames.root name) :
    Orderly { c with session := withRoot c.session name } :=
  ⟨h.sane.withRoot hname, fun root hroot ↦ isRoot_mono (before_withRoot c.session name) (h.roots root hroot)⟩

theorem Orderly.addRoot {c : Compilation} (h : c.Orderly) {root : NodeId} (hroot : IsRoot c.session root) :
    (c.addRoot root).Orderly := by
  refine ⟨h.sane, ?_⟩
  intro id hid
  have hemitted : (c.addRoot root).emitted = c.emitted ++ [root] := (List.append_assoc ..).symm
  rw [hemitted, List.mem_append, List.mem_singleton] at hid
  rcases hid with hid | rfl
  · exact h.roots id hid
  · exact hroot

/-- A program leaves a graph in order, with the roots that were there and, if nothing failed, its own. -/
theorem sound_program {s : Session} (hs : Sane fileNames s) {ids : List NodeId} (hids : ∀ id ∈ ids, IsRoot s id)
    (lib : Option Library) (filename : String) (cancelled : Bool) {p : Program} (hclasses : ∀ d ∈ p.classes, IsFileName d.name)
    (hp : ∀ f ∈ allFunctions p, IsFileName f.name) :
    let r := program lib filename cancelled p s
    Sane fileNames r.2 ∧ (∀ id ∈ ids, IsRoot r.2 id) ∧ ∀ root, r.1 = .ok root → IsRoot r.2 root := by
  have hkept {ids : List NodeId} {s s' : Session} (h : ∀ id ∈ ids, IsRoot s id) (hstep : Alters fileNames s s') :
      ∀ id ∈ ids, IsRoot s' id := fun id hid ↦ isRoot_mono hstep.before (h id hid)
  have hwithRoot (hname : p.root.toList.all isRootChar = true) :
      Sound fileNames (fun s' ↦ ∀ id ∈ ids, IsRoot s' id) ∅ (Graph.withRoot s p.root) :=
    ⟨fun id hid ↦ isRoot_mono (before_withRoot s _) (hids id hid), hs.withRoot (rootName_of_isRootChar hname), nofun⟩
  obtain ⟨F, -, h₁, hdeclared⟩ :=
    upholds_declare (admits_sound hkept) lib filename ⟨hids, hs, nofun⟩ hwithRoot hclasses hp
  unfold program
  rcases hdeclare : declare { lib, filename } p s with ⟨e | sc, s₁⟩
  · rw [hdeclare] at h₁
    rw [show (declare { lib, filename } p).run s = _ from hdeclare]
    exact ⟨h₁.2.1, h₁.1, nofun⟩
  rw [hdeclare] at h₁ hdeclared
  rw [show (declare { lib, filename } p).run s = _ from hdeclare]
  have hhoused : Housed F s₁ sc := hdeclared sc rfl
  have hroots : ∀ id ∈ sc.root :: ids, IsRoot s₁ id :=
    List.forall_mem_cons.2 ⟨⟨hhoused.root_lt, hhoused.orphan⟩, h₁.1⟩
  obtain ⟨F₂, -, h₂, -⟩ : Upholds (Sound fileNames fun s' ↦ ∀ id ∈ sc.root :: ids, IsRoot s' id)
      (fillAll sc (jobs s₁ sc p)) F s₁ fun _ _ _ ↦ True :=
    upholds_fillAll (admits_sound hkept).toInvariant ⟨hroots, h₁.2⟩ fun job ↦ hhoused.mem_of_mem_jobs
  dsimp only
  split
  · exact ⟨h₁.2.1, h₁.1, nofun⟩
  rcases hfill : fillAll sc (jobs s₁ sc p) s₁ with ⟨e | problems, s₂⟩
  all_goals
    rw [hfill] at h₂
    rw [show (fillAll sc (jobs s₁ sc p)).run s₁ = _ from hfill]
    dsimp only
    obtain ⟨hroot, hids₂⟩ := List.forall_mem_cons.1 h₂.1
  · exact ⟨h₂.2.1, hids₂, nofun⟩
  · split
    · exact ⟨h₂.2.1, hids₂, nofun⟩
    · exact ⟨h₂.2.1, hids₂, nofun⟩
    · refine ⟨h₂.2.1, hids₂, ?_⟩
      rintro _ ⟨⟩
      exact hroot

theorem Orderly.addDocument {c : Compilation} (h : c.Orderly) (cancelled : Bool) (source : String)
    (d : Except String (Option Yaml.Node)) : (c.addDocument cancelled source d).2.Orderly := by
  unfold Compilation.addDocument
  split
  · exact h
  · rename_i p hp
    obtain ⟨n, hreads⟩ := Document.reads_of_programOf hp
    have hnames {depth : Nat} {ns : List Yaml.Node} {fs : List FunctionDecl}
        (hfs : List.Forall₂ (Document.ReadsFunction depth) ns fs) : ∀ f ∈ fs, IsFileName f.name :=
      Document.forall_mem_of_forall₂ hfs fun _ _ hf ↦ isFileName_of_identForm hf.name
    have hclasses := Document.forall_mem_of_forall₂ hreads.classes fun _ _ hc ↦
      (⟨isFileName_of_identForm hc.name, hnames hc.functions⟩ : IsFileName _ ∧ _)
    have hall : ∀ f ∈ allFunctions p, IsFileName f.name := by
      intro f hf
      rcases List.mem_append.1 hf with hf | hf
      · exact hnames hreads.functions f hf
      · obtain ⟨d, hd, hf⟩ := List.mem_flatMap.1 hf
        exact (hclasses d hd).2 f hf
    obtain ⟨hsane, hroots, hroot⟩ := sound_program h.sane h.roots c.lib c.filename cancelled (fun d hd ↦ (hclasses d hd).1) hall
    unfold Compilation.add
    rcases hrun : program c.lib c.filename cancelled p c.session with ⟨r, session⟩
    rw [hrun] at hsane hroots hroot
    have hsession : Orderly { c with session } := ⟨hsane, hroots⟩
    cases r with
    | error f => exact hsession
    | ok root =>
      have hadded := hsession.addRoot (hroot root rfl)
      exact ⟨hadded.sane, hadded.roots⟩

theorem Orderly.start {o : BuildOptions} {c : Compilation} (hlibrary : fileNames.root o.library)
    (h : Compilation.start o = .ok c) : c.Orderly := by
  unfold Compilation.start at h
  split at h
  · cases h
    refine ⟨.start ?_, fun root hroot ↦ nomatch hroot⟩
    dsimp only
    split <;> rfl
  · dsimp only at h
    generalize hoptions : (if o.objective.isEmpty = true then _ else _ : Library.Options) = options at h
    have hname : fileNames.root options.name := by
      have husual : fileNames.root "dp_std" := by
        constructor <;> decide
      rw [← hoptions]
      split <;> split <;> assumption
    obtain ⟨l, s, hrun, hid, -, hplace, -, M, hinked, -⟩ :=
      Library.install_spec (s := {}) isFileName_of_isLabel rfl options hname
    rw [show (Library.install options).run {} = (.ok l, s) from hrun] at h
    cases h
    refine ⟨hinked.sane, fun root hmem ↦ ?_⟩
    obtain rfl : root = l.root := by simpa [emitted] using hmem
    rw [hid]
    exact hinked.sane.rooted.isRoot_zero hplace.isAt.1

/-- What is done with a compilation: the program of a document is added, whatever was read of that, a root is made by
hand, or a graph is built on by hand. -/
inductive Assembles (c : Compilation) : Compilation → Prop
  | compile (cancelled : Bool) (source : String) (d : Except String (Option Yaml.Node)) :
      Assembles c (c.addDocument cancelled source d).2
  | root {name : String} (hname : ':' ∉ name.toList ∧ '/' ∉ name.toList) :
      Assembles c ((c.perform (Graph.root name)).2.addRoot c.session.nodes.size)
  | build {s : Session} (h : Crafts fileNames ⟨c.session, Set.univ⟩ ⟨s, Set.univ⟩) :
      Assembles c { c with session := s }

theorem Assembles.orderly {c c' : Compilation} (h : Assembles c c') (hc : c.Orderly) : c'.Orderly := by
  cases h with
  | compile cancelled source d => exact hc.addDocument cancelled source d
  | root hname => exact (hc.withRoot hname).addRoot (isRoot_withRoot _ _)
  | build h => exact hc.of_session (.single h.alters)

theorem orderly_of_assembled {c c' : Compilation} (h : ReflTransGen Assembles c c') (hc : c.Orderly) : c'.Orderly := by
  induction h with
  | refl => exact hc
  | tail _ hstep ih => exact hstep.orderly ih

theorem crafts_filled {s : Session} {fn : Nat} {cmds : List Instruction} (h : Drafted s fn cmds) (cs : List Instruction) :
    Crafts fileNames ⟨s, Set.univ⟩ ⟨filled s fn cs, Set.univ⟩ :=
  .extend h.entry.notContainer fun _ _ ↦ .extra trivial

theorem crafts_closed {s : Session} {fn : Nat} {cmds : List Instruction} (h : Drafted s fn cmds) :
    Crafts fileNames ⟨s, Set.univ⟩ ⟨closed s fn, Set.univ⟩ := by
  refine .steer ⟨_, h.role⟩ rfl ?_ ?_
  · simpa [h.functionOf_eq, IsBlock] using h.entry.notContainer
  · simp [h.functionOf_eq]

theorem assembled_addByHand (c : Compilation) {root function : String} (hroot : ':' ∉ root.toList ∧ '/' ∉ root.toList)
    (hfunction : IsFileName function) (cmds : List Instruction) :
    ReflTransGen Assembles c (c.addByHand root function cmds) := by
  have hlt : c.session.nodes.size < (withRoot c.session root).nodes.size := by simp
  have hcontainer : ((withRoot c.session root).node c.session.nodes.size).isContainer = true := by
    rw [node_withRoot, if_pos rfl]
    rfl
  have hdrafted := drafted_functionMade hlt function function [] ""
  have hmake : Crafts fileNames ⟨withRoot c.session root, Set.univ⟩ ⟨functionMade _ _ function function [] "", Set.univ⟩ :=
    .makeFunction hlt hcontainer hfunction hfunction
  have hfilled := hdrafted.filled cmds
  have hmade : Graph.root root c.session = (.ok c.session.nodes.size, withRoot c.session root) := rfl
  have hrun : (do
      let root ← Graph.root root
      let f ← Graph.createFunction root function function [] ""
      Graph.add f cmds
      Graph.finish f
      return root : Build NodeId) c.session = (.ok c.session.nodes.size, closed (filled
        (functionMade (withRoot c.session root) c.session.nodes.size function function [] "")
        (withRoot c.session root).nodes.size cmds) (withRoot c.session root).nodes.size) := by
    simp only [bind_apply, hmade, andThen_ok, createFunction_apply, hdrafted.add_apply, hfilled.finish_apply, pure_apply]
  rw [Compilation.addByHand, Compilation.perform, show ExceptT.run (_ : Build NodeId) c.session = _ from hrun]
  exact .tail (.tail (.tail (.single (.root hroot)) (.build hmake)) (.build (crafts_filled hdrafted cmds)))
    (.build (crafts_closed hfilled))

/-- No function of a pack is lost unless two roots of the same name have functions at the same path: in
every pack put together of programs, the library and roots made by hand, functions have different paths just
if such roots have none in common. Then each function is found by its path, is loaded into machines, and
has a file of its own. -/
theorem functions_kept_iff {o : BuildOptions} {c c' : Compilation} {l : Listing}
    (hlibrary : ':' ∉ o.library.toList ∧ '/' ∉ o.library.toList) (hstart : start o = .ok c)
    (hsteps : ReflTransGen Assembles c c') (hemit : c'.emit = .ok l) :
    ((l.functions.map (·.path)).Nodup ↔ c'.emitted.Pairwise fun root root' ↦
      (c'.session.node root).name = (c'.session.node root').name → Apart c'.session root root') ∧
    ((l.functions.map (·.path)).Nodup →
      (∀ f ∈ l.functions, l.find? f.path = some f ∧ ∀ setup,
        Dict.find? f.path (Machine.ofListing setup l).functions = some (f.lines.flatMap Machine.commandsOf)) ∧
      ∀ po : Pack.Options, IsFileName po.dirName → (∀ root ∈ c'.emitted, IsFileName (c'.session.node root).name) →
        ∃ files : List Pack.File, l.functions.map (Pack.functionFile po) = files.map .ok ∧
          (files.map (·.path)).Nodup) := by
  have hc := orderly_of_assembled hsteps (.start hlibrary hstart)
  have hrooted := hc.sane.rooted
  have hiff := Listing.nodup_of_emit_iff fileNames_separates hrooted hc.roots hemit
  constructor
  · rw [hiff]
    constructor
    · apply List.Pairwise.imp
      intro root root' hapart _
      exact hapart
    · intro h
      refine List.Pairwise.imp_of_mem ?_ h
      intro root root' hroot hroot' hsame
      by_cases hname : (c'.session.node root).name = (c'.session.node root').name
      · exact hsame hname
      · exact hrooted.apart (hc.roots root hroot) (hc.roots root' hroot') hname
  · intro hnodup
    refine ⟨fun f hf ↦ ⟨Listing.find?_of_nodup hnodup hf, fun setup ↦ Machine.find?_ofListing hnodup hf⟩, ?_⟩
    intro po hdir hfiles
    exact Pack.files_of_emit hrooted (fun _ h ↦ h) hc.roots (hiff.1 hnodup) hfiles hdir hemit

def twoRoots (a b : String) : Compilation :=
  (addByHand {} a "f" [.text "say 1"]).addByHand b "f" [.text "say 2"]

def saying (root line : String) : Function where
  path := root ++ ":f/f"
  parts := [root, "f", "f"]
  lines := [line]

theorem assembled_twoRoots : ReflTransGen Assembles {} (twoRoots "a" "b") := by
  have hf : IsFileName "f" := ⟨by decide, by decide, by decide, by decide⟩
  have hfirst : ReflTransGen Assembles {} (addByHand {} "a" "f" [.text "say 1"]) :=
    assembled_addByHand {} (by constructor <;> decide) hf _
  exact hfirst.trans (assembled_addByHand _ (by constructor <;> decide) hf _)

theorem functions_kept_twoRoots :
    (twoRoots "a" "b").emit = .ok (.ofFunctions [saying "a" "say 1", saying "b" "say 2"]) ∧
    (twoRoots "a" "b").emitted.Pairwise (fun root root' ↦
      ((twoRoots "a" "b").session.node root).name = ((twoRoots "a" "b").session.node root').name →
        Apart (twoRoots "a" "b").session root root') ∧
    ∀ f ∈ (Listing.ofFunctions [saying "a" "say 1", saying "b" "say 2"]).functions,
      (Listing.ofFunctions [saying "a" "say 1", saying "b" "say 2"]).find? f.path = some f := by
  have hemit : (twoRoots "a" "b").emit = .ok (.ofFunctions [saying "a" "say 1", saying "b" "say 2"]) := by cbv
  have hkept := functions_kept_iff (o := { withoutLibrary := true }) (by constructor <;> decide) rfl assembled_twoRoots
    hemit
  have hnodup : ((Listing.ofFunctions [saying "a" "say 1", saying "b" "say 2"]).functions.map (·.path)).Nodup := by
    decide
  exact ⟨hemit, hkept.1.1 hnodup, fun f hf ↦ ((hkept.2 hnodup).1 f hf).1⟩

/-- Two roots of the same name with a function of the same name: both functions are emitted at one path,
where only the last is found. -/
theorem sameRoots_lose_function :
    (twoRoots "a" "a").emit = .ok (.ofFunctions [saying "a" "say 1", saying "a" "say 2"]) ∧
    ¬ ((Listing.ofFunctions [saying "a" "say 1", saying "a" "say 2"]).functions.map (·.path)).Nodup ∧
    (Listing.ofFunctions [saying "a" "say 1", saying "a" "say 2"]).find? "a:f/f" = some (saying "a" "say 2") := by
  refine ⟨by cbv, by decide, by cbv⟩

end CommandPack.Compilation
