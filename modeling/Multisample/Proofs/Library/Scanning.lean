import Mathlib.Data.List.Nodup
import Mathlib.Data.String.Basic
import Multisample.Library.Scan
import Multisample.Proofs.Library.Paths

/-!
# What a scan finds and reports

A scan goes through a folder in whatever order the folders below it list what
they hold.  What it finds does not depend on that order: it is every script that
a path without hidden folders leads to, each once, in the order of paths.  Of
the outcomes of reading them none is lost: each script counts or has failed, and
of several with one identity the first counts.
-/

namespace Multisample

namespace Files

/-! ## Folders and the paths through them -/

/-- Each folder holds a name once, and only names that a path can follow. -/
inductive Node.IsTree : Node → Prop where
  | file (content : ByteArray) : IsTree (.file content)
  | folder {entries : List (String × Node)} (once : (entries.map fun e => e.1).Nodup)
      (follows : ∀ e ∈ entries, IsEntryName e.1) (inner : ∀ e ∈ entries, IsTree e.2) :
      IsTree (.folder entries)

namespace Node

/-- Names behind names are followed from where the first of them lead. -/
theorem follow_append {stack : List Node} {front : List String} {node : Node}
    (h : follow stack front = .ok node) :
    ∃ above, ∀ back, follow stack (front ++ back) = follow (node :: above) back := by
  induction stack, front using follow.induct with
  | case1 front =>
      rw [follow] at h
      cases h
  | case2 top above =>
      obtain rfl := Except.ok.inj h
      exact ⟨above, fun _ => rfl⟩
  | case3 top above name rest hfile =>
      rw [follow, if_pos hfile] at h
      cases h
  | case4 top above rest hfolder ih =>
      simp only [List.cons_append, follow, if_neg hfolder, if_true] at h ⊢
      exact ih h
  | case5 top above name rest hfolder hup hnone =>
      simp only [follow, if_neg hfolder, if_neg hup, hnone] at h
      cases h
  | case6 top above name rest hfolder hup inner hinner ih =>
      simp only [List.cons_append, follow, if_neg hfolder, if_neg hup, hinner] at h ⊢
      exact ih h

/-- A name leads down to what is listed under it. -/
theorem follow_cons_eq_ok_iff {entries : List (String × Node)} {above : List Node} {name : String}
    {rest : List String} {node : Node} (h : (Node.folder entries).IsTree) (hup : name ≠ "..") :
    follow (.folder entries :: above) (name :: rest) = .ok node ↔
      ∃ inner, (name, inner) ∈ entries ∧
        follow (inner :: .folder entries :: above) rest = .ok node := by
  cases h with
  | folder once follows inner =>
      simp only [← lookup_eq_some_iff_mem once]
      rw [follow, if_neg (by simp [isFile]), if_neg hup, child?, Node.entries]
      cases entries.lookup name <;> simp

end Node

namespace Tree

variable {files : Tree} {path : String}

theorem find_eq_ok_iff {node : Node} :
    files.find path = .ok node ↔
      path ≠ "" ∧ Node.follow [files.root] (files.absolute path) = .ok node ∧
        ¬ (node.isFile = true ∧ namesFolder path = true) := by
  unfold find
  by_cases hempty : path = ""
  · simp [hempty, bind, Except.bind, throw, throwThe, MonadExceptOf.throw]
  · simp only [beq_iff_eq, if_neg hempty, except_bind_eq_ok]
    constructor
    · rintro ⟨found, hfollow, h⟩
      split at h
      · cases h
      · rename_i hleads
        obtain rfl := Except.ok.inj h
        exact ⟨hempty, hfollow, by simpa using hleads⟩
    · rintro ⟨-, hfollow, h⟩
      exact ⟨node, hfollow, if_neg (by simpa using h)⟩

theorem list_eq_ok_iff {entries : List (String × Node)} :
    files.list path = .ok entries ↔ files.find path = .ok (.folder entries) := by
  rw [list, except_bind_eq_ok]
  constructor
  · rintro ⟨node, hfind, h⟩
    cases node with
    | file content => cases h
    | folder inner =>
        obtain rfl := Except.ok.inj h
        exact hfind
  · exact fun h => ⟨_, h, rfl⟩

theorem isFile_iff :
    files.isFile path = true ↔ ∃ content, files.find path = .ok (.file content) := by
  unfold isFile
  cases files.find path with
  | error fault => simp
  | ok node => cases node <;> simp [Node.isFile]

/-- What lies below a folder is found by following the names behind its path from there. -/
theorem find_join {entries : List (String × Node)} (h : files.list path = .ok entries) :
    ∃ above, ∀ (front : List String) (name : String) (node : Node),
      (∀ n ∈ front ++ [name], IsEntryName n) →
        (files.find (join path (front ++ [name])) = .ok node ↔
          Node.follow (.folder entries :: above) (front ++ [name]) = .ok node) := by
  obtain ⟨-, hfollow, -⟩ := find_eq_ok_iff.mp (list_eq_ok_iff.mp h)
  obtain ⟨above, habove⟩ := Node.follow_append hfollow
  refine ⟨above, fun front name node hnames => ?_⟩
  have hne : join path (front ++ [name]) ≠ "" := by
    intro heq
    have hlength := congrArg List.length (names_join hnames path)
    rw [heq] at hlength
    simp [names, segments] at hlength
  have habsolute : files.absolute (join path (front ++ [name])) =
      files.absolute path ++ (front ++ [name]) := by
    rw [absolute, absolute, isAbsolute_join hnames, names_join hnames]
    split
    · rfl
    · rw [List.append_assoc]
  have hfolder : namesFolder (join path (front ++ [name])) = false :=
    namesFolder_join_concat (hnames name (by simp)) path front
  rw [find_eq_ok_iff, habsolute, habove, hfolder]
  simp [hne]

end Tree

end Files

namespace Scan

open Files

/-! ## What is found -/

/-- The scripts at or below what a folder holds under a name. -/
def scriptsAt (name : String) : Node → List (List String)
  | .file _ => if name = Library.scriptName then [[name]] else []
  | .folder entries => if isHidden name then [] else (scriptsIn entries).map (name :: ·)

theorem scriptsIn_eq_flatMap (entries : List (String × Node)) :
    scriptsIn entries = entries.flatMap fun e => scriptsAt e.1 e.2 := by
  induction entries with
  | nil => rw [scriptsIn, List.flatMap_nil]
  | cons e rest ih =>
      obtain ⟨name, node⟩ := e
      cases node <;> rw [scriptsIn, List.flatMap_cons, ih, scriptsAt]

theorem mem_scriptsAt_file {name : String} {content : ByteArray} {way : List String} :
    way ∈ scriptsAt name (.file content) ↔ name = Library.scriptName ∧ way = [name] := by
  rw [scriptsAt]
  split <;> simp_all

theorem mem_scriptsAt_folder {name : String} {entries : List (String × Node)} {way : List String} :
    way ∈ scriptsAt name (.folder entries) ↔
      isHidden name = false ∧ ∃ rest ∈ scriptsIn entries, name :: rest = way := by
  rw [scriptsAt]
  split <;> simp_all

theorem head?_of_mem_scriptsAt {name : String} {node : Node} {way : List String}
    (h : way ∈ scriptsAt name node) : way.head? = some name := by
  cases node with
  | file content =>
      rw [(mem_scriptsAt_file.mp h).2]
      rfl
  | folder inner =>
      obtain ⟨-, rest, -, rfl⟩ := mem_scriptsAt_folder.mp h
      rfl

theorem nil_notMem_scriptsIn {entries : List (String × Node)} : [] ∉ scriptsIn entries := by
  rw [scriptsIn_eq_flatMap, List.mem_flatMap]
  rintro ⟨e, -, hmem⟩
  exact absurd (head?_of_mem_scriptsAt hmem) (by simp)

/-- The first name of a way is the script's own, or leads on into a folder. -/
theorem cons_mem_scriptsIn_iff {entries : List (String × Node)} {name : String}
    {rest : List String} :
    name :: rest ∈ scriptsIn entries ↔
      (∃ content, (name, .file content) ∈ entries ∧ name = Library.scriptName ∧ rest = []) ∨
      ∃ inner, (name, .folder inner) ∈ entries ∧ isHidden name = false ∧
        rest ∈ scriptsIn inner := by
  rw [scriptsIn_eq_flatMap, List.mem_flatMap]
  constructor
  · rintro ⟨⟨first, node⟩, hentry, hmem⟩
    cases node with
    | file content =>
        obtain ⟨hname, hway⟩ := mem_scriptsAt_file.mp hmem
        obtain ⟨rfl, rfl⟩ := List.cons.inj hway
        exact Or.inl ⟨content, hentry, hname, rfl⟩
    | folder inner =>
        obtain ⟨hhidden, _, hrest, hway⟩ := mem_scriptsAt_folder.mp hmem
        obtain ⟨rfl, rfl⟩ := List.cons.inj hway
        exact Or.inr ⟨inner, hentry, hhidden, hrest⟩
  · rintro (⟨content, hentry, hname, rfl⟩ | ⟨inner, hentry, hhidden, hrest⟩)
    · exact ⟨_, hentry, mem_scriptsAt_file.mpr ⟨hname, rfl⟩⟩
    · exact ⟨_, hentry, mem_scriptsAt_folder.mpr ⟨hhidden, rest, hrest, rfl⟩⟩

theorem isEntryName_scriptName : IsEntryName Library.scriptName := by
  decide

/-- The names of folders that are not hidden. -/
def AreShown (dirs : List String) : Prop :=
  ∀ dir ∈ dirs, IsEntryName dir ∧ isHidden dir = false

theorem areEntryNames_concat {dirs : List String} (h : AreShown dirs) :
    ∀ name ∈ dirs ++ [Library.scriptName], IsEntryName name :=
  List.forall_mem_append.mpr
    ⟨fun dir hdir => (h dir hdir).1, List.forall_mem_singleton.mpr isEntryName_scriptName⟩

/-- Found are the ways that lead to a script through folders that are not hidden. -/
theorem mem_scriptsIn_iff {entries : List (String × Node)} (h : (Node.folder entries).IsTree)
    (above : List Node) {way : List String} :
    way ∈ scriptsIn entries ↔
      (∃ dirs, way = dirs ++ [Library.scriptName] ∧ AreShown dirs) ∧
        ∃ content, Node.follow (.folder entries :: above) way = .ok (.file content) := by
  induction way generalizing entries above with
  | nil => simp [nil_notMem_scriptsIn]
  | cons name rest ih =>
      have hfollow (hname : IsEntryName name) {node : Node} :
          Node.follow (.folder entries :: above) (name :: rest) = .ok node ↔
            ∃ inner, (name, inner) ∈ entries ∧
              Node.follow (inner :: .folder entries :: above) rest = .ok node :=
        Node.follow_cons_eq_ok_iff h hname.notDots
      cases h with
      | folder once follows inner =>
        rw [cons_mem_scriptsIn_iff]
        constructor
        · rintro (⟨content, hentry, rfl, rfl⟩ | ⟨below, hentry, hshown, hrest⟩)
          · exact ⟨⟨[], rfl, by simp [AreShown]⟩, content,
              (hfollow isEntryName_scriptName).mpr ⟨_, hentry, rfl⟩⟩
          · obtain ⟨⟨dirs, rfl, hdirs⟩, content, hcontent⟩ := (ih (inner _ hentry) _).mp hrest
            have hname := follows _ hentry
            exact ⟨⟨name :: dirs, rfl, List.forall_mem_cons.mpr ⟨⟨hname, hshown⟩, hdirs⟩⟩, content,
              (hfollow hname).mpr ⟨_, hentry, hcontent⟩⟩
        · rintro ⟨⟨dirs, hway, hdirs⟩, content, hcontent⟩
          cases dirs with
          | nil =>
              obtain ⟨rfl, rfl⟩ := List.cons.inj hway
              obtain ⟨node, hentry, hnode⟩ := (hfollow isEntryName_scriptName).mp hcontent
              obtain rfl := Except.ok.inj hnode
              exact Or.inl ⟨content, hentry, rfl, rfl⟩
          | cons dir dirs =>
              obtain ⟨rfl, rfl⟩ := List.cons.inj hway
              obtain ⟨⟨hname, hshown⟩, hdirs⟩ := List.forall_mem_cons.mp hdirs
              obtain ⟨node, hentry, hnode⟩ := (hfollow hname).mp hcontent
              cases node with
              | file other =>
                  -- Nothing is below a file.
                  cases dirs <;> simp [Node.follow, Node.isFile] at hnode
              | folder below =>
                  exact Or.inr ⟨below, hentry, hshown,
                    (ih (inner _ hentry) _).mpr ⟨⟨dirs, rfl, hdirs⟩, content, hnode⟩⟩

theorem nodup_scriptsIn {node : Node} (h : node.IsTree) : (scriptsIn node.entries).Nodup := by
  induction h with
  | file content =>
      rw [Node.entries, scriptsIn]
      exact List.nodup_nil
  | @folder entries once follows inner ih =>
      rw [Node.entries, scriptsIn_eq_flatMap, List.nodup_flatMap]
      constructor
      · rintro ⟨name, node⟩ hentry
        cases node with
        | file content =>
            simp only [scriptsAt]
            split <;> simp
        | folder below =>
            simp only [scriptsAt]
            split
            · exact List.nodup_nil
            · exact (ih _ hentry).map fun _ _ => List.tail_eq_of_cons_eq
      · -- Ways from different names begin differently.
        refine (List.pairwise_map.mp once).imp ?_
        intro e other hne way he hother
        have hname : some e.1 = some other.1 :=
          (head?_of_mem_scriptsAt he).symm.trans (head?_of_mem_scriptsAt hother)
        exact hne (Option.some.inj hname)

/-! ## The order of paths -/

theorem pathLe_iff {a b : List String} : pathLe a b = true ↔ a ≤ b := by
  rw [← not_lt]
  induction a generalizing b with
  | nil => simp [pathLe]
  | cons x a ih =>
      cases b with
      | nil => simp [pathLe]
      | cons y b =>
          rw [pathLe, List.cons_lt_cons_iff]
          split
          · rename_i heq
            subst heq
            simp [ih]
          · rename_i hne
            simp only [Ne.symm hne, false_and, or_false, not_lt, decide_eq_true_eq]
            exact ⟨le_of_lt, fun hle => lt_of_le_of_ne hle hne⟩

theorem pairwise_sorted {entries : List (String × Node)} (h : (Node.folder entries).IsTree) :
    ((scriptsIn entries).mergeSort pathLe).Pairwise (· < ·) := by
  have htrans : ∀ a b c : List String, pathLe a b = true → pathLe b c = true → pathLe a c = true :=
    fun a b c hab hbc => pathLe_iff.mpr (le_trans (pathLe_iff.mp hab) (pathLe_iff.mp hbc))
  have htotal : ∀ a b : List String, (pathLe a b || pathLe b a) = true := by
    intro a b
    rw [Bool.or_eq_true, pathLe_iff, pathLe_iff]
    exact le_total a b
  have hsorted := List.pairwise_mergeSort htrans htotal (scriptsIn entries)
  have hnodup : ((scriptsIn entries).mergeSort pathLe).Nodup :=
    (List.mergeSort_perm _ _).nodup_iff.mpr (nodup_scriptsIn h)
  exact (hsorted.and hnodup).imp fun h => lt_of_le_of_ne (pathLe_iff.mp h.1) h.2

end Scan

namespace ScanReport

/-! ## What is reported -/

/-- How outcomes are sorted script by script, with the identities in `seen` taken: the scripts
that count, with their libraries, and the failures. -/
inductive Sorts : List (LibraryId × String) → List (String × Except Fault LoadedLibrary) →
    List (String × LoadedLibrary) → List ScanFailure → Prop where
  | none (seen) : Sorts seen [] [] []
  | failed {seen rest counted failures} (path fault) (h : Sorts seen rest counted failures) :
      Sorts seen ((path, .error fault) :: rest) counted (⟨path, fault⟩ :: failures)
  | later {seen rest counted failures} (path) {loaded first}
      (hseen : seen.lookup loaded.library.id = some first) (h : Sorts seen rest counted failures) :
      Sorts seen ((path, .ok loaded) :: rest) counted
        (⟨path, alreadyLoaded path loaded.library.id first⟩ :: failures)
  | first {seen rest counted failures} (path) {loaded}
      (hnew : seen.lookup loaded.library.id = Option.none)
      (h : Sorts ((loaded.library.id, path) :: seen) rest counted failures) :
      Sorts seen ((path, .ok loaded) :: rest) ((path, loaded) :: counted) failures

theorem lookup_cons_of_ne {id other : LibraryId} (h : id ≠ other) {path : String}
    {seen : List (LibraryId × String)} : ((other, path) :: seen).lookup id = seen.lookup id := by
  rw [List.lookup_cons, beq_eq_false_iff_ne.mpr h]

variable {seen : List (LibraryId × String)}
  {outcomes : List (String × Except Fault LoadedLibrary)} {counted : List (String × LoadedLibrary)}
  {failures : List ScanFailure}

theorem sorts_gather (seen : List (LibraryId × String))
    (outcomes : List (String × Except Fault LoadedLibrary)) :
    ∃ counted, (gather seen outcomes).libraries = counted.map (fun c => c.2) ∧
      Sorts seen outcomes counted (gather seen outcomes).failures := by
  induction outcomes generalizing seen with
  | nil => exact ⟨[], rfl, .none seen⟩
  | cons outcome rest ih =>
      obtain ⟨path, fault | loaded⟩ := outcome
      · obtain ⟨counted, hlibraries, h⟩ := ih seen
        exact ⟨counted, hlibraries, h.failed path fault⟩
      · cases hseen : seen.lookup loaded.library.id with
        | some first =>
            obtain ⟨counted, hlibraries, h⟩ := ih seen
            simp only [gather, hseen]
            exact ⟨counted, hlibraries, h.later path hseen⟩
        | none =>
            obtain ⟨counted, hlibraries, h⟩ := ih ((loaded.library.id, path) :: seen)
            simp only [gather, hseen]
            exact ⟨(path, loaded) :: counted, congrArg (loaded :: ·) hlibraries, h.first path hseen⟩

namespace Sorts

theorem perm (h : Sorts seen outcomes counted failures) :
    (counted.map (fun c => c.1) ++ failures.map fun f => f.path).Perm
      (outcomes.map fun o => o.1) := by
  induction h with
  | none => exact .nil
  | failed path fault _ ih => exact List.perm_middle.trans (ih.cons path)
  | later path _ _ ih => exact List.perm_middle.trans (ih.cons path)
  | first path _ _ ih => exact ih.cons path

theorem counted_sublist (h : Sorts seen outcomes counted failures) :
    (counted.map fun c => (c.1, Except.ok c.2)).Sublist outcomes := by
  induction h with
  | none => exact .slnil
  | failed path fault _ ih => exact ih.cons _
  | later path _ _ ih => exact ih.cons _
  | first path _ _ ih => exact ih.cons_cons _

theorem failures_sublist (h : Sorts seen outcomes counted failures) :
    (failures.map fun f => f.path).Sublist (outcomes.map fun o => o.1) := by
  induction h with
  | none => exact .slnil
  | failed path fault _ ih => exact ih.cons_cons path
  | later path _ _ ih => exact ih.cons_cons path
  | first path _ _ ih => exact ih.cons path

theorem lookup_eq_none_of_mem (h : Sorts seen outcomes counted failures) :
    ∀ c ∈ counted, seen.lookup c.2.library.id = Option.none := by
  induction h with
  | none => exact List.forall_mem_nil _
  | failed _ _ _ ih => exact ih
  | later _ _ _ ih => exact ih
  | first path hnew _ ih =>
      refine List.forall_mem_cons.mpr ⟨hnew, fun c hc => ?_⟩
      have hlookup := ih c hc
      rw [List.lookup_cons] at hlookup
      split at hlookup
      · cases hlookup
      · exact hlookup

theorem nodup_ids (h : Sorts seen outcomes counted failures) :
    (counted.map fun c => c.2.library.id).Nodup := by
  induction h with
  | none => exact List.nodup_nil
  | failed _ _ _ ih => exact ih
  | later _ _ _ ih => exact ih
  | @first seen rest counted failures path loaded hnew h ih =>
      refine List.nodup_cons.mpr ⟨fun hmem => ?_, ih⟩
      obtain ⟨c, hc, hid⟩ := List.mem_map.mp hmem
      have hlookup := h.lookup_eq_none_of_mem c hc
      rw [hid, List.lookup_cons_self] at hlookup
      cases hlookup

theorem mem_failures_of_error (h : Sorts seen outcomes counted failures) {path : String}
    {fault : Fault} (hmem : (path, .error fault) ∈ outcomes) : ⟨path, fault⟩ ∈ failures := by
  induction h with
  | none => cases hmem
  | failed p f _ ih =>
      rcases List.mem_cons.mp hmem with heq | hmem
      · cases heq
        exact List.mem_cons_self
      · exact List.mem_cons_of_mem _ (ih hmem)
  | later p _ _ ih =>
      exact List.mem_cons_of_mem _ (ih ((List.mem_cons.mp hmem).resolve_left (by simp)))
  | first p _ _ ih => exact ih ((List.mem_cons.mp hmem).resolve_left (by simp))

/-- A script whose identity is taken has failed. -/
theorem mem_failures_of_seen (h : Sorts seen outcomes counted failures) {path first : String}
    {loaded : LoadedLibrary} (hseen : seen.lookup loaded.library.id = some first)
    (hmem : (path, .ok loaded) ∈ outcomes) :
    ⟨path, alreadyLoaded path loaded.library.id first⟩ ∈ failures := by
  induction h with
  | none => cases hmem
  | failed p f _ ih =>
      exact List.mem_cons_of_mem _ (ih hseen ((List.mem_cons.mp hmem).resolve_left (by simp)))
  | later p hother _ ih =>
      rcases List.mem_cons.mp hmem with heq | hmem
      · cases heq
        rw [hseen] at hother
        cases hother
        exact List.mem_cons_self
      · exact List.mem_cons_of_mem _ (ih hseen hmem)
  | first p hnew _ ih =>
      rcases List.mem_cons.mp hmem with heq | hmem
      · cases heq
        rw [hseen] at hnew
        cases hnew
      · have hne : loaded.library.id ≠ _ := fun heq => by
          rw [heq, hnew] at hseen
          cases hseen
        exact ih ((lookup_cons_of_ne hne).trans hseen) hmem

/-- Scripts behind others are sorted in the same way; taken are then also identities of the ones
in front, and no others. -/
theorem behind {before rest : List (String × Except Fault LoadedLibrary)}
    (h : Sorts seen (before ++ rest) counted failures) :
    ∃ seen' counted' failures', Sorts seen' rest counted' failures' ∧
      counted' ⊆ counted ∧ failures' ⊆ failures ∧
        ∀ id, (∀ path loaded, (path, .ok loaded) ∈ before → id ≠ loaded.library.id) →
          seen'.lookup id = seen.lookup id := by
  induction before generalizing seen counted failures with
  | nil =>
      exact ⟨seen, counted, failures, h, List.Subset.refl _, List.Subset.refl _, fun _ _ => rfl⟩
  | cons outcome before ih =>
      cases h with
      | failed path fault h =>
          obtain ⟨seen', counted', failures', hrest, hcounted, hfailures, hseen⟩ := ih h
          exact ⟨seen', counted', failures', hrest, hcounted,
            List.subset_cons_of_subset _ hfailures,
            fun id hid => hseen id fun p l hmem => hid p l (.tail _ hmem)⟩
      | later path _ h =>
          obtain ⟨seen', counted', failures', hrest, hcounted, hfailures, hseen⟩ := ih h
          exact ⟨seen', counted', failures', hrest, hcounted,
            List.subset_cons_of_subset _ hfailures,
            fun id hid => hseen id fun p l hmem => hid p l (.tail _ hmem)⟩
      | first path _ h =>
          obtain ⟨seen', counted', failures', hrest, hcounted, hfailures, hseen⟩ := ih h
          refine ⟨seen', counted', failures', hrest, List.subset_cons_of_subset _ hcounted,
            hfailures, fun id hid => ?_⟩
          rw [hseen id fun p l hmem => hid p l (.tail _ hmem)]
          exact lookup_cons_of_ne (hid path _ List.mem_cons_self)

/-- The first script with an identity that is not taken counts, and later ones have failed. -/
theorem first_counts {before after : List (String × Except Fault LoadedLibrary)} {path : String}
    {loaded : LoadedLibrary}
    (h : Sorts seen (before ++ (path, .ok loaded) :: after) counted failures)
    (hnew : seen.lookup loaded.library.id = Option.none)
    (hfirst : ∀ p l, (p, .ok l) ∈ before → l.library.id ≠ loaded.library.id) :
    (path, loaded) ∈ counted ∧
      ∀ p l, (p, .ok l) ∈ after → l.library.id = loaded.library.id →
        ⟨p, alreadyLoaded p l.library.id path⟩ ∈ failures := by
  obtain ⟨seen', counted', failures', hrest, hcounted, hfailures, hseen⟩ := h.behind
  have hnew' := (hseen _ fun p l hmem => (hfirst p l hmem).symm).trans hnew
  cases hrest with
  | later _ htaken =>
      rw [hnew'] at htaken
      cases htaken
  | first _ _ hafter =>
      refine ⟨hcounted List.mem_cons_self, fun p l hmem hid => ?_⟩
      exact hfailures (hafter.mem_failures_of_seen (by rw [hid, List.lookup_cons_self]) hmem)

end Sorts

/-- What the report of some scripts says of the outcomes of reading them, of which those in
`counted` have the libraries that it lists. -/
structure Accounts (outcomes : List (String × Except Fault LoadedLibrary))
    (counted : List (String × LoadedLibrary)) (report : ScanReport) : Prop where
  libraries : report.libraries = counted.map fun c => c.2
  /-- Each script is there once, on one of both sides. -/
  once : (counted.map (fun c => c.1) ++ report.failures.map fun f => f.path).Perm
    (outcomes.map fun o => o.1)
  countedInOrder : (counted.map fun c => (c.1, Except.ok c.2)).Sublist outcomes
  failuresInOrder : (report.failures.map fun f => f.path).Sublist (outcomes.map fun o => o.1)
  distinct : (report.libraries.map fun l => l.library.id).Nodup
  /-- A script whose library could not be had has failed with that fault. -/
  failed : ∀ path fault, (path, .error fault) ∈ outcomes → ⟨path, fault⟩ ∈ report.failures
  /-- The first script that loads with an identity counts; all later ones fail for it. -/
  first : ∀ before path loaded after, outcomes = before ++ (path, .ok loaded) :: after →
    (∀ p l, (p, .ok l) ∈ before → l.library.id ≠ loaded.library.id) →
      (path, loaded) ∈ counted ∧
        ∀ p l, (p, .ok l) ∈ after → l.library.id = loaded.library.id →
          ⟨p, alreadyLoaded p l.library.id path⟩ ∈ report.failures

theorem accounts_ofOutcomes (outcomes : List (String × Except Fault LoadedLibrary)) :
    ∃ counted, Accounts outcomes counted (ofOutcomes outcomes) := by
  obtain ⟨counted, hlibraries, h⟩ := sorts_gather [] outcomes
  exact ⟨counted, {
    libraries := hlibraries
    once := h.perm
    countedInOrder := h.counted_sublist
    failuresInOrder := h.failures_sublist
    distinct := by
      rw [ofOutcomes, hlibraries, List.map_map]
      exact h.nodup_ids
    failed := fun _ _ hmem => h.mem_failures_of_error hmem
    first := by
      rintro before path loaded after rfl hfirst
      exact h.first_counts rfl hfirst }⟩

end ScanReport

namespace Scan

open Files

/-- A scan accounts for every library once.  Whatever a folder holds, the
scripts found below it are the files of a script's name that no hidden folder
keeps apart from it, each once and in the order of paths.  Whatever comes of
reading them, each then counts or has failed, both in that order, and of those
with one identity the first counts.  A scan reports exactly this of what comes
of reading the files. -/
theorem run_accounts {files : Tree} {path : String} {entries : List (String × Node)}
    (hlist : files.list path = .ok entries) (htree : (Node.folder entries).IsTree) :
    ∃ found, scripts files path = .ok found ∧
      (∀ script, script ∈ found ↔ ∃ dirs, script = join path (dirs ++ [Library.scriptName]) ∧
        (∀ dir ∈ dirs, IsEntryName dir ∧ isHidden dir = false) ∧ files.isFile script = true) ∧
      found.Pairwise (fun a b => names a < names b) ∧
      (∀ outcome : String → Except Fault LoadedLibrary,
        ∃ counted, ScanReport.Accounts (found.map fun script => (script, outcome script)) counted
          (.ofOutcomes (found.map fun script => (script, outcome script)))) ∧
      ∀ limits cancelled, (run files limits cancelled path).map (fun r => r.2) =
        .ok (.ofOutcomes (found.map fun script =>
          (script, (Library.read files limits cancelled script).result))) := by
  obtain ⟨above, hfind⟩ := Tree.find_join hlist
  have hfolder : files.isFile path = false := by
    rw [Tree.isFile, Tree.list_eq_ok_iff.mp hlist]
    rfl
  have hscripts : scripts files path =
      .ok (((scriptsIn entries).mergeSort pathLe).map (join path)) := by
    rw [scripts, hfolder, hlist]
    rfl
  have hisFile : ∀ dirs, AreShown dirs →
      (files.isFile (join path (dirs ++ [Library.scriptName])) = true ↔
        dirs ++ [Library.scriptName] ∈ scriptsIn entries) := by
    intro dirs hdirs
    rw [Tree.isFile_iff, mem_scriptsIn_iff htree above,
      and_iff_right ⟨dirs, rfl, hdirs⟩]
    exact exists_congr fun content => hfind dirs Library.scriptName _ (areEntryNames_concat hdirs)
  have hway : ∀ way ∈ scriptsIn entries, ∀ n ∈ way, IsEntryName n := by
    intro way hmem
    obtain ⟨⟨dirs, rfl, hdirs⟩, -⟩ := (mem_scriptsIn_iff htree above).mp hmem
    exact areEntryNames_concat hdirs
  refine ⟨_, hscripts, fun script => ?_, ?_, fun outcome => ScanReport.accounts_ofOutcomes _, ?_⟩
  · simp only [List.mem_map, List.mem_mergeSort]
    constructor
    · rintro ⟨way, hmem, rfl⟩
      obtain ⟨⟨dirs, rfl, hdirs⟩, -⟩ := (mem_scriptsIn_iff htree above).mp hmem
      exact ⟨dirs, rfl, hdirs, (hisFile dirs hdirs).mpr hmem⟩
    · rintro ⟨dirs, rfl, hdirs, hfile⟩
      exact ⟨_, (hisFile dirs hdirs).mp hfile, rfl⟩
  · refine List.pairwise_map.mpr ((pairwise_sorted htree).imp_of_mem ?_)
    intro a b ha hb hlt
    rw [names_join (hway a (List.mem_mergeSort.mp ha)),
      names_join (hway b (List.mem_mergeSort.mp hb))]
    exact List.append_left_lt hlt
  · intro limits cancelled
    rw [run, hscripts]
    simp only [readAll, bind, Except.bind, pure, Except.pure, Except.map, List.map_map,
      Function.comp_def]

/-- A folder with two scripts, one of them in a hidden folder. -/
def shelf : List (String × Node) :=
  [(".git", .folder [("floe.lua", .file ⟨#[]⟩)]),
    ("piano", .folder [("floe.lua", .file ⟨#[]⟩), ("notes.txt", .file ⟨#[]⟩)])]

theorem isTree_shelf : (Node.folder shelf).IsTree := by
  refine .folder (by decide) (by decide)
    (List.forall_mem_cons.mpr ⟨?_, List.forall_mem_singleton.mpr ?_⟩)
  · exact .folder (by decide) (by decide) (List.forall_mem_singleton.mpr (.file _))
  · exact .folder (by decide) (by decide)
      (List.forall_mem_cons.mpr ⟨.file _, List.forall_mem_singleton.mpr (.file _)⟩)

theorem run_accounts_shelf :
    Tree.list ⟨.folder [("libs", .folder shelf)], []⟩ "/libs" = .ok shelf ∧
      (Node.folder shelf).IsTree ∧
      ∃ found, scripts ⟨.folder [("libs", .folder shelf)], []⟩ "/libs" = .ok found ∧
        "/libs/piano/floe.lua" ∈ found ∧ "/libs/.git/floe.lua" ∉ found := by
  have hlist : Tree.list ⟨.folder [("libs", .folder shelf)], []⟩ "/libs" = .ok shelf := by rfl
  obtain ⟨found, hfound, hmem, -⟩ := run_accounts hlist isTree_shelf
  refine ⟨hlist, isTree_shelf, found, hfound, (hmem _).mpr ⟨["piano"], ?_, ?_, ?_⟩, ?_⟩
  · decide
  · decide
  · rfl
  · intro hgit
    obtain ⟨dirs, hdirs, hshown, -⟩ := (hmem _).mp hgit
    have hnames := congrArg names hdirs
    rw [names_join (areEntryNames_concat hshown)] at hnames
    have hway : ["libs"] ++ ([".git"] ++ ["floe.lua"]) = ["libs"] ++ (dirs ++ ["floe.lua"]) :=
      hnames
    obtain rfl := List.append_cancel_right (List.append_cancel_left hway)
    exact absurd (hshown ".git" List.mem_cons_self).2 (by decide)

end Scan

end Multisample
