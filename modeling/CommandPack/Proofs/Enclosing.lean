import Mathlib
import CommandPack.Pack
import CommandPack.Proofs.Emission
import CommandPack.Proofs.Packing

/-!
Where the files of a pack are. A file stays in the directory of the pack as long as the names on its path do not
go up from there; the names of functions never do, but those of roots and tags can.
-/

namespace CommandPack

open Text

variable {ending : String}

namespace Text

theorem splitChars_append_last {sep : Char} (as : List Char) {bs : List Char} (hbs : sep ∉ bs) :
    ∃ last, splitChars sep as = (splitChars sep as).dropLast ++ [last] ∧
      splitChars sep (as ++ bs) = (splitChars sep as).dropLast ++ [last ++ bs] := by
  induction as with
  | nil => exact ⟨[], by simp [splitChars], by simp [splitChars, Machine.splitChars_of_notMem hbs]⟩
  | cons a as ih =>
    obtain ⟨last, hlast, happend⟩ := ih
    have hne := splitChars_ne_nil sep as
    by_cases ha : a = sep
    · refine ⟨last, ?_, ?_⟩
      · simp [splitChars, ha, List.dropLast_cons_of_ne_nil hne, ← hlast]
      · simp [splitChars, ha, List.dropLast_cons_of_ne_nil hne, happend]
    · cases hinit : (splitChars sep as).dropLast with
      | nil =>
        rw [hinit, List.nil_append] at hlast happend
        exact ⟨a :: last, by simp [splitChars, ha, hlast], by simp [splitChars, ha, hlast, happend]⟩
      | cons piece pieces =>
        rw [hinit, List.cons_append] at hlast happend
        refine ⟨last, ?_, ?_⟩
        · simp [splitChars, ha, hlast, List.dropLast_cons_of_ne_nil]
        · simp [splitChars, ha, hlast, happend, List.dropLast_cons_of_ne_nil]

theorem split_append_last (s : String) (hending : '/' ∉ ending.toList) :
    ∃ last, split '/' s = (split '/' s).dropLast ++ [last] ∧
      split '/' (s ++ ending) = (split '/' s).dropLast ++ [last ++ ending] := by
  obtain ⟨last, hlast, happend⟩ := splitChars_append_last s.toList hending
  refine ⟨String.ofList last, ?_, ?_⟩
  · rw [split, ← List.map_dropLast]
    nth_rewrite 1 [hlast]
    simp
  · rw [split, split, ← List.map_dropLast, String.toList_append, happend]
    simp

theorem no_slash_of_mem_split {s part : String} (h : part ∈ split '/' s) : '/' ∉ part.toList := by
  obtain ⟨piece, hpiece, rfl⟩ := List.mem_map.1 h
  rw [String.toList_ofList]
  exact notMem_of_mem_splitChars hpiece

end Text

namespace Disk

variable {last path : String} {rooted : Bool} {done before : List String} {name : String} {names parts : List String}

/-- Names that were passed, the last one first: names of files and, unless the path starts at the root, before them
some that go up. -/
def Passed (rooted : Bool) (done : List String) : Prop :=
  ∃ files k, done = files ++ List.replicate k ".." ∧ (∀ name ∈ files, IsFileName name) ∧ (rooted = true → k = 0)

theorem Passed.step (h : Passed rooted done) (hname : '/' ∉ name.toList) : Passed rooted (step rooted done name) := by
  obtain ⟨files, k, rfl, hfiles, hk⟩ := h
  by_cases hsame : name = "" ∨ name = "."
  · simp only [Disk.step, if_pos hsame]
    exact ⟨files, k, rfl, hfiles, hk⟩
  · simp only [Disk.step, if_neg hsame]
    obtain ⟨hempty, hdot⟩ := not_or.1 hsame
    by_cases hup : name = ".."
    · simp only [if_pos hup]
      cases files with
      | nil =>
        cases k with
        | zero =>
          cases rooted with
          | true => exact ⟨[], 0, rfl, hfiles, fun _ ↦ rfl⟩
          | false => exact ⟨[], 1, rfl, hfiles, by simp⟩
        | succ k =>
          refine ⟨[], k + 2, ?_, hfiles, fun h ↦ absurd (hk h) (by simp)⟩
          simp [List.replicate_succ]
      | cons last files =>
        obtain ⟨hlast, hfiles⟩ := List.forall_mem_cons.1 hfiles
        simp only [List.cons_append, if_neg hlast.ne_dots]
        exact ⟨files, k, rfl, hfiles, hk⟩
    · simp only [if_neg hup]
      exact ⟨name :: files, k, rfl, List.forall_mem_cons.2 ⟨⟨hempty, hdot, hup, hname⟩, hfiles⟩, hk⟩

theorem Passed.foldl (h : Passed rooted done) (hnames : ∀ name ∈ names, '/' ∉ name.toList) :
    Passed rooted (names.foldl (Disk.step rooted) done) := by
  induction names generalizing done with
  | nil => exact h
  | cons name names ih =>
    obtain ⟨hname, hnames⟩ := List.forall_mem_cons.1 hnames
    exact ih (h.step hname) hnames

theorem passed_walk (hnames : ∀ name ∈ names, '/' ∉ name.toList) : Passed rooted (walk rooted names).reverse := by
  rw [walk, List.reverse_reverse]
  exact Passed.foldl ⟨[], 0, rfl, by simp, fun _ ↦ rfl⟩ hnames

theorem foldl_step_replicate (k : Nat) : (List.replicate k "..").foldl (step false) [] = List.replicate k ".." := by
  have hup : ∀ j, (List.replicate k "..").foldl (step false) (List.replicate j "..") = List.replicate (k + j) ".." := by
    induction k with
    | zero =>
      intro j
      simp
    | succ k ih =>
      intro j
      have hstep : step false (List.replicate j "..") ".." = List.replicate (j + 1) ".." := by
        cases j <;> simp [step, List.replicate_succ]
      rw [List.replicate_succ, List.foldl_cons, hstep, ih]
      congr 1
      omega
  simpa using hup 0

theorem Passed.walk_eq (h : Passed rooted done) : walk rooted done.reverse = done.reverse := by
  obtain ⟨files, k, rfl, hfiles, hk⟩ := h
  have hfiles' : ∀ name ∈ files.reverse, IsFileName name := fun name hname ↦ hfiles name (List.mem_reverse.1 hname)
  have hup : (List.replicate k "..").foldl (Disk.step rooted) [] = List.replicate k ".." := by
    cases rooted with
    | true =>
      rw [hk rfl]
      rfl
    | false => exact foldl_step_replicate k
  rw [walk, List.reverse_append, List.reverse_replicate, List.foldl_append, hup, foldl_step_files _ _ hfiles',
    List.reverse_reverse]
  simp

theorem dots_mem_step (h : ".." ∈ done) (name : String) : ".." ∈ step rooted done name := by
  unfold step
  split
  · exact h
  · split
    · cases done with
      | nil => exact absurd h List.not_mem_nil
      | cons last before =>
        dsimp only
        split
        · exact List.mem_cons_self
        · rename_i hlast
          exact (List.mem_cons.1 h).resolve_left (Ne.symm hlast)
    · exact List.mem_cons_of_mem _ h

theorem dots_mem_foldl (h : ".." ∈ done) (names : List String) : ".." ∈ names.foldl (step rooted) done := by
  induction names generalizing done with
  | nil => exact h
  | cons name names ih => exact ih (dots_mem_step h name)

theorem foldl_step_append (rooted : Bool) (h : ".." ∉ names.foldl (step false) done) (before : List String) :
    names.foldl (step rooted) (done ++ before) = names.foldl (step false) done ++ before := by
  induction names generalizing done with
  | nil => rfl
  | cons name names ih =>
    have hnext : ".." ∉ step false done name := fun hmem ↦ h (dots_mem_foldl hmem names)
    have hdone : ".." ∉ done := fun hmem ↦ hnext (dots_mem_step hmem name)
    have hstep : step rooted (done ++ before) name = step false done name ++ before := by
      by_cases hsame : name = "" ∨ name = "."
      · simp only [step, if_pos hsame]
      · by_cases hup : name = ".."
        · cases done with
          | nil =>
            rw [hup] at hnext
            exact absurd List.mem_cons_self hnext
          | cons last done =>
            have hlast : last ≠ ".." := fun h ↦ hdone (h ▸ List.mem_cons_self)
            simp only [step, if_neg hsame, if_pos hup, List.cons_append, if_neg hlast]
        · simp only [step, if_neg hsame, if_neg hup, List.cons_append]
    rw [List.foldl_cons, hstep, ih h]
    rfl

theorem walk_append (h : ".." ∉ walk false names) (dir : List String) :
    walk rooted (dir ++ names) = walk rooted dir ++ walk false names := by
  rw [walk, List.mem_reverse] at h
  have happend := foldl_step_append rooted h (dir.foldl (step rooted) [])
  rw [List.nil_append] at happend
  rw [walk, walk, walk, List.foldl_append, happend, List.reverse_append]

theorem walk_concat (hname : IsFileName name) : walk rooted (names ++ [name]) = walk rooted names ++ [name] := by
  rw [walk, List.foldl_append, foldl_step_files _ _ (by simpa using hname), walk]
  simp

def namesOf (path : String) : List String := walk (hasLead "/" path) (split '/' path)

def spell (rooted : Bool) (names : List String) : String :=
  if rooted then "/" ++ join "/" names else if (join "/" names).isEmpty then "." else join "/" names

theorem clean_eq (path : String) : clean path = spell (hasLead "/" path) (namesOf path) := rfl

theorem passed_names (path : String) : Passed (hasLead "/" path) (namesOf path).reverse :=
  passed_walk fun _ h ↦ no_slash_of_mem_split h

theorem hasLead_slash_append (s : String) : hasLead "/" ("/" ++ s) = true := by
  simp [hasLead, dropLead?]

theorem Passed.mem (h : Passed rooted names.reverse) (hname : name ∈ names) : name ≠ "" ∧ '/' ∉ name.toList := by
  obtain ⟨files, k, heq, hfiles, -⟩ := h
  have hmem : name ∈ files ++ List.replicate k ".." := heq ▸ List.mem_reverse.2 hname
  rcases List.mem_append.1 hmem with hmem | hmem
  · exact ⟨(hfiles name hmem).ne_empty, (hfiles name hmem).no_slash⟩
  · obtain rfl := (List.mem_replicate.1 hmem).2
    constructor <;> decide

theorem spell_false (hne : names ≠ []) (h : ∀ name ∈ names, name ≠ "" ∧ '/' ∉ name.toList) :
    spell false names = join "/" names := by
  simp [spell, isEmpty_join hne h]

theorem Passed.spell (h : Passed rooted names.reverse) :
    hasLead "/" (spell rooted names) = rooted ∧ namesOf (spell rooted names) = names := by
  have hwalk : walk rooted names = names := by simpa using h.walk_eq
  by_cases hne : names = []
  · subst hne
    cases rooted <;> constructor <;> rfl
  · obtain ⟨c, cs, hchars, hc⟩ := head_join hne fun name hname ↦ h.mem hname
    have hsplit := split_join hne fun name hname ↦ (h.mem hname).2
    cases rooted with
    | true =>
      refine ⟨hasLead_slash_append _, ?_⟩
      have hpieces : split '/' ("/" ++ join "/" names) = "" :: names := by
        have happend := split_append_sep (show "/".toList = ['/'] from rfl) "" (join "/" names)
        rw [hsplit] at happend
        simpa [split, splitChars] using happend
      rw [namesOf, Disk.spell, if_pos rfl, hasLead_slash_append, hpieces]
      exact hwalk
    | false =>
      rw [spell_false hne fun name hname ↦ h.mem hname]
      have hlead := hasLead_slash_of_head hchars hc
      exact ⟨hlead, by rw [namesOf, hlead, hsplit, hwalk]⟩

theorem hasLead_clean (path : String) : hasLead "/" (clean path) = hasLead "/" path := (passed_names path).spell.1

theorem names_clean (path : String) : namesOf (clean path) = namesOf path := (passed_names path).spell.2

theorem clean_clean (path : String) : clean (clean path) = clean path := by
  rw [clean_eq (clean path), hasLead_clean, names_clean, clean_eq]

theorem clean_joinPaths (a : String) {b : String} (hb : b ≠ "") : clean (joinPaths [a, b]) = joinPaths [a, b] := by
  by_cases ha : a = ""
  · simp [joinPaths, ha, hb, clean_clean]
  · simp [joinPaths, ha, hb, clean_clean]

theorem key_eq {rest : List String} (h : namesOf path = rest ++ [last]) (hlast : last ≠ "..") :
    key path = clean path := by
  have hnames := names_clean path
  have hcases : ¬ (clean path = "." ∨ clean path = "..") := by
    rintro (heq | heq)
    · rw [heq, h] at hnames
      exact absurd (congrArg List.length hnames) (by simp [show namesOf "." = [] from rfl])
    · rw [heq, h, show namesOf ".." = [] ++ [".."] from rfl] at hnames
      exact hlast (List.append_singleton_inj.1 hnames).2.symm
  rw [key, if_neg hcases]

/-- A file lies in a directory or in one below it. -/
structure Below (dir file : String) : Prop where
  rooted : hasLead "/" file = hasLead "/" dir
  names : ∃ rest, rest ≠ [] ∧ ".." ∉ rest ∧ namesOf file = namesOf dir ++ rest

/-- The file at a path that does not go up lies below every directory it is joined to. -/
theorem names_joinPaths (dir : String) (hpath : path ≠ "") (hlead : hasLead "/" path = false)
    (hup : ".." ∉ namesOf path) : hasLead "/" (joinPaths [dir, path]) = hasLead "/" dir ∧
      namesOf (joinPaths [dir, path]) = namesOf dir ++ namesOf path := by
  by_cases hdir : dir = ""
  · subst hdir
    have hjoin : joinPaths ["", path] = clean path := by simp [joinPaths, hpath, join]
    rw [hjoin, hasLead_clean, names_clean, hlead]
    exact ⟨rfl, rfl⟩
  · have hjoin : joinPaths [dir, path] = clean (dir ++ "/" ++ path) := by
      simp [joinPaths, hdir, hpath, join]
    obtain ⟨c, cs, hchars⟩ := List.exists_cons_of_ne_nil fun h ↦ hdir (String.toList_eq_nil_iff.1 h)
    have hrooted : hasLead "/" (dir ++ "/" ++ path) = hasLead "/" dir := by
      simp only [hasLead, String.toList_append, hchars, List.cons_append]
      by_cases hc : '/' = c
      · subst hc
        simp [dropLead?]
      · simp [dropLead?, hc]
    have hwalk : namesOf path = walk false (split '/' path) := by rw [namesOf, hlead]
    rw [hjoin, hasLead_clean, names_clean, hrooted, namesOf, hrooted, split_append_sep rfl, walk_append, ← hwalk]
    · exact ⟨rfl, rfl⟩
    · rwa [hwalk] at hup

theorem walk_flatMap_split (paths : List String) :
    walk rooted ((paths.filter (· ≠ "")).flatMap (split '/')) = walk rooted (paths.flatMap (split '/')) := by
  have hfold : ∀ done, ((paths.filter (· ≠ "")).flatMap (split '/')).foldl (step rooted) done =
      (paths.flatMap (split '/')).foldl (step rooted) done := by
    induction paths with
    | nil =>
      intro done
      rfl
    | cons path paths ih =>
      intro done
      by_cases hpath : path = ""
      · rw [hpath, List.filter_cons_of_neg (by simp), ih, List.flatMap_cons, List.foldl_append]
        rfl
      · rw [List.filter_cons_of_pos (by simpa using hpath), List.flatMap_cons, List.flatMap_cons, List.foldl_append,
          List.foldl_append, ih]
  rw [walk, walk, hfold]

theorem joinPaths_data (paths : List String) :
    joinPaths ("data" :: paths) = spell false (walk false ("data" :: paths.flatMap (split '/'))) := by
  have hfilter : ("data" :: paths).filter (· ≠ "") = "data" :: paths.filter (· ≠ "") := by simp
  obtain ⟨cs, hchars⟩ : ∃ cs, (join "/" ("data" :: paths.filter (· ≠ ""))).toList = 'd' :: cs := by
    cases paths.filter (· ≠ "") with
    | nil => exact ⟨['a', 't', 'a'], by simp [join]⟩
    | cons b rest => exact ⟨_, by rw [join_cons_cons, String.toList_append, String.toList_append]; rfl⟩
  have hlead := hasLead_slash_of_head hchars (by decide)
  rw [joinPaths, hfilter]
  dsimp only
  rw [clean_eq, hlead, namesOf, hlead, split_join_flatMap rfl (List.cons_ne_nil _ _), ← hfilter, walk_flatMap_split]
  rfl

theorem join_concat_append (parts : List String) (last ending : String) :
    join "/" (parts ++ [last]) ++ ending = join "/" (parts ++ [last ++ ending]) := by
  induction parts with
  | nil => simp [join]
  | cons a parts ih =>
    cases parts with
    | nil => simp [join, String.append_assoc]
    | cons b parts =>
      simp only [List.cons_append, join_cons_cons] at ih ⊢
      rw [String.append_assoc, ih]

theorem spell_walk_append (hlast : IsFileName last) (hwhole : IsFileName (last ++ ending))
    (hparts : ∀ name ∈ parts, '/' ∉ name.toList) :
    spell false (walk false (parts ++ [last])) ++ ending = spell false (walk false (parts ++ [last ++ ending])) := by
  have hpassed : Passed false (walk false parts).reverse := passed_walk hparts
  have hmem : ∀ x, IsFileName x → ∀ name ∈ walk false parts ++ [x], name ≠ "" ∧ '/' ∉ name.toList := by
    intro x hx name hname
    rcases List.mem_append.1 hname with hname | hname
    · exact hpassed.mem hname
    · rw [List.mem_singleton.1 hname]
      exact ⟨hx.ne_empty, hx.no_slash⟩
  rw [walk_concat hlast, walk_concat hwhole, spell_false (by simp) (hmem _ hlast),
    spell_false (by simp) (hmem _ hwhole), join_concat_append]

theorem isFileName_append (hname : '/' ∉ name.toList) (hending : '/' ∉ ending.toList)
    (hlong : 2 < ending.toList.length) : IsFileName (name ++ ending) := by
  have hlength : ∀ short : String, short.toList.length ≤ 2 → name ++ ending ≠ short := by
    rintro short hshort rfl
    rw [String.toList_append, List.length_append] at hshort
    omega
  refine ⟨hlength _ (by decide), hlength _ (by decide), hlength _ (by decide), ?_⟩
  rw [String.toList_append, List.mem_append]
  exact not_or.2 ⟨hname, hending⟩

theorem Passed.no_dots {first : String} (h : Passed false parts.reverse) (hfirst : parts.head? = some first)
    (hne : first ≠ "..") : ".." ∉ parts := by
  obtain ⟨files, k, heq, hfiles, -⟩ := h
  have hparts : parts = List.replicate k ".." ++ files.reverse := by
    simpa using congrArg List.reverse heq
  cases k with
  | zero =>
    rw [hparts]
    intro hmem
    exact (hfiles _ (by simpa using hmem)).ne_dots rfl
  | succ k =>
    rw [hparts] at hfirst
    exact absurd (Option.some.inj hfirst) (Ne.symm hne)

end Disk

namespace Pack

open Disk

variable {l : Listing} {text : String} {dir path root name last : String} {ways : List String} {o : Options}
  {f : Function} {file : File}

/-- A file is where files of a pack in a directory belong: below the directory, and there it says what the pack is or
lies below `data`. -/
def Inside (dir file : String) : Prop :=
  Below dir file ∧ (file = joinPaths [dir, "pack.mcmeta"] ∨ Below (joinPaths [dir, "data"]) file)

theorem inside_about (dir : String) : Inside dir (key (joinPaths [dir, "pack.mcmeta"])) := by
  obtain ⟨hlead, hnames⟩ := names_joinPaths dir (show "pack.mcmeta" ≠ "" by decide) rfl (by decide)
  have hpath : namesOf "pack.mcmeta" = ["pack.mcmeta"] := by decide
  rw [hpath] at hnames
  rw [key_eq hnames (by decide), clean_joinPaths dir (by decide)]
  exact ⟨⟨hlead, ["pack.mcmeta"], by simp, by simp, hnames⟩, .inl rfl⟩

/-- A path in a pack goes to a file. -/
structure Reaches (path : String) (ways : List String) (last : String) : Prop where
  ne_empty : path ≠ ""
  unrooted : hasLead "/" path = false
  names : namesOf path = ways ++ [last]
  file : IsFileName last

theorem Reaches.inside (h : Reaches path ways last) (hdata : ways.head? = some "data") (dir : String) :
    Inside dir (key (joinPaths [dir, path])) := by
  obtain ⟨rest, rfl⟩ := List.head?_eq_some_iff.1 hdata
  have hpassed := passed_names path
  rw [h.unrooted] at hpassed
  have hup : ".." ∉ namesOf path := hpassed.no_dots (by rw [h.names]; rfl) (by decide)
  obtain ⟨hlead, hnames⟩ := names_joinPaths dir h.ne_empty h.unrooted hup
  obtain ⟨hleadData, hnamesData⟩ := names_joinPaths dir (show "data" ≠ "" by decide) rfl (by decide)
  have hlast : namesOf (joinPaths [dir, path]) = (namesOf dir ++ "data" :: rest) ++ [last] := by
    rw [hnames, h.names, ← List.append_assoc]
  rw [key_eq hlast h.file.ne_dots, clean_joinPaths dir h.ne_empty]
  rw [h.names] at hup
  refine ⟨⟨hlead, _, ?_, hup, ?_⟩, .inr ⟨hlead.trans hleadData.symm, rest ++ [last], ?_, ?_, ?_⟩⟩
  · simp
  · rw [hnames, h.names]
  · simp
  · exact fun hmem ↦ hup (List.mem_cons_of_mem _ hmem)
  · rw [hlast, hnamesData, show namesOf "data" = ["data"] by decide]
    simp

theorem Reaches.head_of_inside (h : Reaches path ways last) (hlast : last ≠ "pack.mcmeta")
    (hinside : Inside "" (key (joinPaths ["", path]))) : ways.head? = some "data" := by
  have hjoin : joinPaths ["", path] = clean path := by simp [joinPaths, h.ne_empty, join]
  have hnames : namesOf (clean path) = ways ++ [last] := by rw [names_clean, h.names]
  rw [hjoin, key_eq hnames h.file.ne_dots, clean_clean] at hinside
  obtain ⟨-, habout | hdata⟩ := hinside
  · rw [habout, show namesOf (joinPaths ["", "pack.mcmeta"]) = [] ++ ["pack.mcmeta"] by decide] at hnames
    exact absurd (List.append_singleton_inj.1 hnames).2.symm hlast
  · obtain ⟨rest, hrest, -, hbelow⟩ := hdata.names
    rw [hnames, show namesOf (joinPaths ["", "data"]) = ["data"] by decide] at hbelow
    cases ways with
    | nil =>
      obtain ⟨x, xs, rfl⟩ := List.exists_cons_of_ne_nil hrest
      exact absurd (congrArg List.length hbelow) (by simp)
    | cons way ways => exact congrArg some (List.cons.inj hbelow).1

theorem reaches_spell (hways : ∀ name ∈ ways, '/' ∉ name.toList) (hlast : IsFileName last) :
    Reaches (spell false (walk false (ways ++ [last]))) (walk false ways) last := by
  have hpassed : Passed false (walk false (ways ++ [last])).reverse := by
    apply passed_walk
    intro name hname
    rcases List.mem_append.1 hname with hname | hname
    · exact hways name hname
    · rw [List.mem_singleton.1 hname]
      exact hlast.no_slash
  obtain ⟨hlead, hnames⟩ := hpassed.spell
  rw [walk_concat hlast] at hnames hlead ⊢
  refine ⟨?_, hlead, hnames, hlast⟩
  intro hempty
  rw [hempty] at hnames
  exact absurd (congrArg List.length hnames) (by simp [show namesOf "" = [] by decide])

theorem walk_root (root : String) {files : List String} (hfiles : ∀ name ∈ files, IsFileName name) :
    (walk false ("data" :: root :: usualDir :: files)).head? = some "data" ↔ root ≠ ".." := by
  have hdir : IsFileName usualDir := ⟨by decide, by decide, by decide, by decide⟩
  have hwalk : walk false ("data" :: root :: usualDir :: files) = walk false ["data", root] ++ usualDir :: files := by
    have hfold := foldl_step_files false (["data", root].foldl (step false) [])
      (List.forall_mem_cons.2 ⟨hdir, hfiles⟩)
    rw [walk, walk, show "data" :: root :: usualDir :: files = ["data", root] ++ usualDir :: files from rfl,
      List.foldl_append, hfold]
    simp
  rw [hwalk]
  by_cases hup : root = ".."
  · subst hup
    simp [walk, step, usualDir]
  · by_cases hsame : root = "" ∨ root = "."
    · simp [walk, step, hsame, hup]
    · simp [walk, step, hsame, hup]

theorem ne_about (name : String) (hending : ending.toList.getLast? = some 'n') : name ++ ending ≠ "pack.mcmeta" := by
  intro heq
  have hlast := congrArg (fun s : String ↦ s.toList.getLast?) heq
  simp only [String.toList_append, List.getLast?_append, hending, Option.some_or] at hlast
  exact absurd hlast (by decide)

theorem reaches_functionFile (ho : o.dirName = usualDir) {names : List String}
    (hparts : f.parts = root :: name :: names) (hroot : '/' ∉ root.toList)
    (hnames : ∀ n ∈ name :: names, IsFileName n) :
    ∃ file ways last, functionFile o f = .ok file ∧ Reaches file.path ways last ∧ last ≠ "pack.mcmeta" ∧
      (ways.head? = some "data" ↔ root ≠ "..") := by
  obtain ⟨files, last, hfiles⟩ : ∃ files last, name :: names = files ++ [last] :=
    ⟨_, _, (List.dropLast_append_getLast (List.cons_ne_nil name names)).symm⟩
  rw [hfiles] at hnames
  have hlast : IsFileName last := hnames last (by simp)
  have hdir : '/' ∉ usualDir.toList := by decide
  have hwhole : IsFileName (last ++ ".mcfunction") := isFileName_append hlast.no_slash (by decide) (by decide)
  have hways : ∀ n ∈ "data" :: root :: usualDir :: files, '/' ∉ n.toList := by
    simp only [List.forall_mem_cons]
    exact ⟨by decide, hroot, hdir, fun n hn ↦ (hnames n (List.mem_append_left _ hn)).no_slash⟩
  refine ⟨⟨.function, spell false (walk false ("data" :: root :: usualDir :: files ++ [last ++ ".mcfunction"])),
    f.text⟩, walk false ("data" :: root :: usualDir :: files), last ++ ".mcfunction", ?_, reaches_spell hways hwhole,
    ?_, ?_⟩
  · have hall : ∀ n ∈ root :: usualDir :: (files ++ [last]), '/' ∉ n.toList := by
      simp only [List.forall_mem_cons]
      exact ⟨hroot, hdir, fun n hn ↦ (hnames n hn).no_slash⟩
    have hjoin : joinPaths (["data", root, usualDir] ++ (files ++ [last])) =
        spell false (walk false ("data" :: root :: usualDir :: files ++ [last])) := by
      have hdata := joinPaths_data (root :: usualDir :: (files ++ [last]))
      rwa [flatMap_split hall] at hdata
    rw [functionFile, hparts]
    dsimp only
    rw [ho, hfiles, hjoin, spell_walk_append hlast hwhole hways]
  · exact ne_about last (by decide)
  · exact walk_root root fun n hn ↦ hnames n (List.mem_append_left _ hn)

def tagNames (root name : String) : List String :=
  "data" :: (split '/' root ++ "tags" :: usualDir :: (split '/' name).dropLast)

theorem reaches_tagFile (ho : o.dirName = usualDir) {tag : String} (htag : cut? ':' tag = some (root, name))
    (hroot : root ≠ "") (hname : name ≠ "") (members : List String) :
    ∃ path text last, tagFile o tag members = .ok ⟨.tag, path, text⟩ ∧
      Reaches path (walk false (tagNames root name)) last ∧ last ≠ "pack.mcmeta" := by
  obtain ⟨last, hlast, hsplit⟩ := split_append_last name (show '/' ∉ ".json".toList by decide)
  have hslash : '/' ∉ last.toList := no_slash_of_mem_split (s := name) (by rw [hlast]; simp)
  have hwhole : IsFileName (last ++ ".json") := isFileName_append hslash (by decide) (by decide)
  have hnames : ∀ n ∈ tagNames root name, '/' ∉ n.toList := by
    simp only [tagNames, List.forall_mem_cons, List.forall_mem_append]
    refine ⟨by decide, fun n hn ↦ no_slash_of_mem_split hn, by decide, by decide, ?_⟩
    exact fun n hn ↦ no_slash_of_mem_split (List.dropLast_subset _ hn)
  have hempty : ¬ (root.isEmpty = true ∨ name.isEmpty = true) := by
    rw [String.isEmpty_iff, String.isEmpty_iff]
    exact not_or.2 ⟨hroot, hname⟩
  have hpieces : "data" :: [root, "tags", usualDir, name ++ ".json"].flatMap (split '/') =
      tagNames root name ++ [last ++ ".json"] := by
    simp only [List.flatMap_cons, List.flatMap_nil, hsplit, show split '/' "tags" = ["tags"] by decide,
      show split '/' usualDir = [usualDir] by decide, List.append_nil, List.cons_append, List.nil_append, tagNames,
      List.append_assoc]
  have hfile : tagFile o tag members = .ok ⟨.tag, spell false (walk false (tagNames root name ++ [last ++ ".json"])),
      jsonText (.object [("values", .array (members.map .string))])⟩ := by
    rw [tagFile, htag]
    dsimp only
    rw [if_neg hempty, ho, joinPaths_data, hpieces]
  have hreaches := reaches_spell hnames hwhole
  exact ⟨_, _, _, hfile, hreaches, ne_about last (by decide)⟩

section Writing

variable {m : Type → Type} [Monad m] {dir : String}

/-- All that is done to files is to write such that belong to a pack in the directory, and to remove its data. -/
inductive Confined (place : Place m) (dir : String) : {α : Type} → m α → Prop
  | pure {α : Type} (a : α) : Confined place dir (pure a)
  | bind {α β : Type} {x : m α} {f : α → m β} (hx : Confined place dir x) (hf : ∀ a, Confined place dir (f a)) :
      Confined place dir (x >>= f)
  | removeAll : Confined place dir (place.removeAll (joinPaths [dir, "data"]))
  | writeFile {path : String} (h : Inside dir (key path)) (text : String) : Confined place dir (place.writeFile path text)

theorem confined_writeFiles (place : Place m) {fs : List (Except String File)}
    (h : ∀ file, .ok file ∈ fs → Inside dir (key (joinPaths [dir, file.path]))) (s : Summary) :
    Confined place dir (writeFiles place dir s fs) := by
  induction fs generalizing s with
  | nil => exact .pure _
  | cons f fs ih =>
    have hrest := ih fun file hfile ↦ h file (List.mem_cons_of_mem f hfile)
    cases f with
    | error e => exact .bind (hrest s) fun _ ↦ .pure _
    | ok file =>
      refine .bind (.writeFile (h file List.mem_cons_self) _) fun r ↦ ?_
      cases r with
      | ok => exact hrest _
      | error e => exact .bind (hrest s) fun _ ↦ .pure _

theorem confined_write (place : Place m) (h : ∀ file, .ok file ∈ files o l → Inside dir (key (joinPaths [dir, file.path]))) :
    Confined place dir (write place dir o l) := by
  unfold write
  dsimp only
  split
  all_goals
    apply Confined.bind
    on_goal 2 =>
      intro removed
      cases removed with
      | error e => exact .pure _
      | ok => exact .bind (confined_writeFiles place h {}) fun _ ↦ .pure _
  · exact .removeAll
  · exact .pure _

/-- What is found in memory afterwards was there before or belongs to the pack. -/
theorem Confined.find? {α : Type} {x : StateM Sandbox α} (h : Confined Sandbox.place dir x) {s : Sandbox} {file text : String}
    (hfound : Dict.find? file (x s).2.disk.files = some text) :
    Dict.find? file s.disk.files = some text ∨ Inside dir file := by
  induction h generalizing s with
  | pure => exact .inl hfound
  | @bind _ _ x _ _ _ ihx ihf => exact (ihf (x s).1 hfound).elim ihx .inr
  | removeAll =>
    obtain ⟨sources, environment, input, files, readOnly⟩ := s
    cases readOnly with
    | true => exact .inl hfound
    | false =>
      have hkept := Dict.find?_filter (fun file ↦ !isBelow (key (joinPaths [dir, "data"])) file) files file
      replace hkept := hkept.symm.trans hfound
      split at hkept
      · exact .inl hkept
      · cases hkept
  | @writeFile path hinside written =>
    obtain ⟨sources, environment, input, files, readOnly⟩ := s
    cases readOnly with
    | true => exact .inl hfound
    | false =>
      replace hfound : Dict.find? file (Dict.insert (key path) written files) = some text := hfound
      rw [Dict.find?_insert] at hfound
      split at hfound
      next hkey => exact .inr (hkey ▸ hinside)
      next => exact .inl hfound

theorem isSome_writeFiles (dir : String) {fs : List (Except String File)} {s : Sandbox} (hs : s.disk.readOnly = false)
    (sum : Summary) {path : String} (h : (Dict.find? path s.disk.files).isSome = true ∨
      ∃ file, .ok file ∈ fs ∧ path = key (joinPaths [dir, file.path])) :
    (Dict.find? path (writeFiles Sandbox.place dir sum fs s).2.disk.files).isSome = true := by
  induction fs generalizing s sum with
  | nil => exact h.resolve_right (by simp)
  | cons f fs ih =>
    cases f with
    | error e => exact ih hs sum (by simpa using h)
    | ok file =>
      obtain ⟨sources, environment, input, files, _⟩ := s
      cases hs
      refine ih (s := ⟨sources, environment, input, ⟨Dict.insert (key (joinPaths [dir, file.path])) file.text files, false⟩⟩)
        rfl _ ?_
      simp only [List.mem_cons, Except.ok.injEq, Dict.find?_insert] at h ⊢
      split
      · exact .inl rfl
      next hne =>
        rcases h with h | ⟨file', rfl | hfile, rfl⟩
        · exact .inl h
        · exact absurd rfl hne
        · exact .inr ⟨file', hfile, rfl⟩

end Writing

/-- Wherever a listing is written as a pack, no files are made and changed but those that belong to the pack. -/
def Encloses (o : Options) (l : Listing) : Prop :=
  ∀ dir, ".." ∉ split '/' dir → ∀ (m : Type → Type) [Monad m] (place : Place m),
    Confined place dir (write place dir o l)

theorem encloses_iff : Encloses o l ↔
    ∀ file, .ok file ∈ files o l → ∀ dir, ".." ∉ split '/' dir → Inside dir (key (joinPaths [dir, file.path])) := by
  refine ⟨fun h file hfile dir hdir ↦ ?_, fun h dir hdir m _ place ↦ confined_write place fun file hfile ↦ h file hfile dir hdir⟩
  have hwritten : (write Sandbox.place dir o l {}).2 = (writeFiles Sandbox.place dir {} (files o l) {}).2 := by
    rw [write]
    cases o.clean <;> rfl
  obtain ⟨text, htext⟩ := Option.isSome_iff_exists.1 (isSome_writeFiles dir (s := {}) rfl {} (.inr ⟨file, hfile, rfl⟩))
  rw [← hwritten] at htext
  exact ((h dir hdir _ Sandbox.place).find? htext).resolve_left nofun

theorem mem_files : .ok file ∈ files o l ↔
    file = aboutFile o ∨ (∃ f ∈ l.functions, functionFile o f = .ok file) ∨
      ∃ tag members, (tag, members) ∈ l.tags ∧ tagFile o tag members = .ok file := by
  simp [files, eq_comm]

theorem tagFile_eq_ok {tag : String} {members : List String} (h : tagFile o tag members = .ok file) :
    ∃ root name, cut? ':' tag = some (root, name) ∧ root ≠ "" ∧ name ≠ "" := by
  rw [tagFile] at h
  split at h
  · rename_i root name htag
    split at h
    · cases h
    · rename_i hne
      rw [String.isEmpty_iff, String.isEmpty_iff] at hne
      exact ⟨root, name, htag, not_or.1 hne⟩
  · cases h

end Pack

namespace Compilation

open Relation Disk Pack

/-- The files of a pack stay in its directory, whatever that is, just if no root with functions is called `..` and no
tag goes up from `data`. -/
theorem files_inside_iff {o : BuildOptions} {c c' : Compilation} {l : Listing} {po : Pack.Options}
    (hlibrary : ':' ∉ o.library.toList ∧ '/' ∉ o.library.toList) (hstart : start o = .ok c)
    (hsteps : ReflTransGen Assembles c c') (hemit : c'.emit = .ok l) (hdir : po.dirName = usualDir) :
    Encloses po l ↔ (∀ f ∈ l.functions, f.parts.head? ≠ some "..") ∧
      ∀ tag members, (tag, members) ∈ l.tags → ∀ root name, cut? ':' tag = some (root, name) → root ≠ "" → name ≠ "" →
        (walk false (tagNames root name)).head? = some "data" := by
  have hc := orderly_of_assembled hsteps (.start hlibrary hstart)
  have hfunction : ∀ f ∈ l.functions, ∃ file ways last, functionFile po f = .ok file ∧ Pack.Reaches file.path ways last ∧
      last ≠ "pack.mcmeta" ∧ (ways.head? = some "data" ↔ f.parts.head? ≠ some "..") := by
    intro f hf
    obtain ⟨root, -, name, names, hparts, hroot, hnames⟩ := Listing.parts_eq hc.sane.rooted hc.roots hemit hf
    obtain ⟨file, ways, last, hfile, hreaches, hlast, hdata⟩ := reaches_functionFile hdir hparts hroot.2 hnames
    refine ⟨file, ways, last, hfile, hreaches, hlast, hdata.trans ?_⟩
    rw [hparts]
    simp
  refine encloses_iff.trans ⟨fun h ↦ ⟨fun f hf ↦ ?_, fun tag members htag root name hcut hroot hname ↦ ?_⟩, ?_⟩
  · obtain ⟨file, ways, last, hfile, hreaches, hlast, hdata⟩ := hfunction f hf
    exact hdata.1 (hreaches.head_of_inside hlast (h file (mem_files.2 (.inr (.inl ⟨f, hf, hfile⟩))) "" (by decide)))
  · obtain ⟨path, text, last, hfile, hreaches, hlast⟩ := reaches_tagFile hdir hcut hroot hname members
    exact hreaches.head_of_inside hlast (h _ (mem_files.2 (.inr (.inr ⟨tag, members, htag, hfile⟩))) "" (by decide))
  · rintro ⟨hfunctions, htags⟩ file hfile dir -
    rcases mem_files.1 hfile with rfl | ⟨f, hf, hok⟩ | ⟨tag, members, htag, hok⟩
    · exact inside_about dir
    · obtain ⟨file', ways, last, hfile', hreaches, -, hdata⟩ := hfunction f hf
      obtain rfl := Except.ok.inj (hok.symm.trans hfile')
      exact hreaches.inside (hdata.2 (hfunctions f hf)) dir
    · obtain ⟨root, name, hcut, hroot, hname⟩ := tagFile_eq_ok hok
      obtain ⟨path, text, last, hfile', hreaches, -⟩ := reaches_tagFile hdir hcut hroot hname members
      obtain rfl := Except.ok.inj (hok.symm.trans hfile')
      exact hreaches.inside (htags tag members htag root name hcut hroot hname) dir

def tagged (root tag : String) : String :=
  "\x7bnamespace: " ++ root ++ ", functions: [\x7bname: f, tags: ['" ++ tag ++ "'], body: []\x7d]\x7d"

/-- Does a document that mentions no symbols become a listing with some property? -/
def lists (source : String) (p : Listing → Bool) : Bool :=
  let c := (addSource {} false source).2
  (Listing.evaluateSymbols c.session c.emitted).isEmpty && match Listing.evaluate c.session c.emitted [] with
    | .ok l => p l
    | .error _ => false

theorem emit_of_lists {source : String} {p : Listing → Bool} (h : lists source p = true) :
    ∃ l, (addSource {} false source).2.emit = .ok l ∧ p l = true := by
  rw [lists, Bool.and_eq_true, List.isEmpty_iff] at h
  obtain ⟨hsymbols, h⟩ := h
  have hnone : ∀ v ∈ Listing.mentioned (addSource {} false source).2.session (addSource {} false source).2.emitted,
      (SymbolTable.playerPool fun _ ↦ "").Has (.sym v) := by
    rw [Listing.mentioned_eq_evaluateSymbols, hsymbols]
    exact fun v hv ↦ absurd hv List.not_mem_nil
  have hemit := Listing.emit_eq_evaluate hnone []
  split at h
  · rename_i l hl
    exact ⟨l, hemit.trans hl, h⟩
  · cases h

theorem files_inside_tagged :
    ∃ l, (addSource {} false (tagged "demo" "demo:a/../b")).2.emit = .ok l ∧ l.tags.map (·.1) = ["demo:a/../b"] ∧
      Encloses {} l := by
  have hlists : lists (tagged "demo" "demo:a/../b")
      (fun l ↦ l.functions.all (·.parts.head? != some "..") && decide (l.tags.map (·.1) = ["demo:a/../b"])) = true := by
    decide +kernel
  obtain ⟨l, hemit, hl⟩ := emit_of_lists hlists
  rw [Bool.and_eq_true, List.all_eq_true, decide_eq_true_iff] at hl
  have hstart : start { withoutLibrary := true } = .ok {} := rfl
  have hsteps : ReflTransGen Assembles {} (addSource {} false (tagged "demo" "demo:a/../b")).2 := .single (.compile _ _ _)
  have hdir : ({} : Pack.Options).dirName = usualDir := rfl
  refine ⟨l, hemit, hl.2, ?_⟩
  apply (files_inside_iff (by constructor <;> decide) hstart hsteps hemit hdir).2
  constructor
  · intro f hf
    simpa using hl.1 f hf
  · intro tag members htag root name hcut _ _
    have hmem : tag ∈ l.tags.map (·.1) := List.mem_map_of_mem htag
    rw [hl.2, List.mem_singleton] at hmem
    subst hmem
    rw [show cut? ':' "demo:a/../b" = some ("demo", "a/../b") by decide] at hcut
    obtain ⟨rfl, rfl⟩ := Prod.mk.inj (Option.some.inj hcut)
    decide

/-- A tag goes out of the pack, and a root out of `data`. -/
theorem files_leave_pack :
    (∃ l, (addSource {} false (tagged "demo" "a:../../../../../evil")).2.emit = .ok l ∧
      (Dict.find? "/evil.json" (write Sandbox.place "/pack" {} l {}).2.disk.files).isSome = true) ∧
    ¬ Inside "/pack" "/evil.json" ∧
    (∃ l, (addSource {} false (tagged ".." "a:b")).2.emit = .ok l ∧
      (Dict.find? "/pack/functions/f/f.mcfunction" (write Sandbox.place "/pack" {} l {}).2.disk.files).isSome = true) ∧
    ¬ Inside "/pack" "/pack/functions/f/f.mcfunction" := by
  have htag : lists (tagged "demo" "a:../../../../../evil") (fun l ↦
      (Dict.find? "/evil.json" (write Sandbox.place "/pack" {} l {}).2.disk.files).isSome) = true := by
    decide +kernel
  have hroot : lists (tagged ".." "a:b") (fun l ↦ (Dict.find? "/pack/functions/f/f.mcfunction"
      (write Sandbox.place "/pack" {} l {}).2.disk.files).isSome) = true := by
    decide +kernel
  have hleft := emit_of_lists htag
  have hup := emit_of_lists hroot
  refine ⟨hleft, ?_, hup, ?_⟩
  · rintro ⟨⟨-, rest, -, -, hnames⟩, -⟩
    rw [show namesOf "/evil.json" = ["evil.json"] by decide, show namesOf "/pack" = ["pack"] by decide] at hnames
    exact absurd (List.cons.inj hnames).1 (by decide)
  · rintro ⟨-, habout | ⟨-, rest, -, -, hnames⟩⟩
    · exact absurd habout (by decide)
    · rw [show namesOf "/pack/functions/f/f.mcfunction" = ["pack", "functions", "f", "f.mcfunction"] by decide,
        show namesOf (joinPaths ["/pack", "data"]) = ["pack", "data"] by decide] at hnames
      exact absurd (List.cons.inj (List.cons.inj hnames).2).1 (by decide)

end Compilation

end CommandPack
