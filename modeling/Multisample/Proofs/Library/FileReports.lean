import Mathlib.Data.List.Induction
import Mathlib.Data.List.Nodup
import Multisample.Library.Preparation
import Multisample.Library.References
import Multisample.Proofs.Library.KeyRanges
import Multisample.Proofs.Library.Paths

/-!
# Reports on the files of a library

A library refers to files in five kinds of places, and the report looks for those of
four of them: what an instrument shows as its waveform is passed over.  As that is
the file of a region unless the instrument names another one, the report is complete
exactly if every waveform that leads to no file is also named somewhere else.
-/

namespace Multisample

/-! ## The first of each -/

section First

variable {α : Type} [DecidableEq α]

theorem eraseDups_concat (xs : List α) (x : α) :
    (xs ++ [x]).eraseDups = if x ∈ xs then xs.eraseDups else xs.eraseDups ++ [x] := by
  rw [List.eraseDups_append]
  by_cases h : x ∈ xs <;> simp [List.removeAll, List.eraseDups_cons, h]

/-- What is left when repetitions are dropped stands in the order of first mention. -/
theorem pairwise_idxOf_eraseDups (xs : List α) :
    xs.eraseDups.Pairwise fun a b => xs.idxOf a < xs.idxOf b := by
  -- From the last element: what is new there comes after all that was seen before.
  induction xs using List.reverseRecOn with
  | nil => exact List.Pairwise.nil
  | append_singleton xs x ih =>
      have hkept : ∀ a ∈ xs.eraseDups, (xs ++ [x]).idxOf a = xs.idxOf a :=
        fun a ha => List.idxOf_append_of_mem (List.mem_eraseDups.mp ha)
      have hbefore : xs.eraseDups.Pairwise fun a b => (xs ++ [x]).idxOf a < (xs ++ [x]).idxOf b :=
        ih.imp_of_mem fun ha hb hlt => by rwa [hkept _ ha, hkept _ hb]
      rw [eraseDups_concat]
      split
      · exact hbefore
      · rename_i hnew
        refine List.pairwise_append.mpr ⟨hbefore, List.pairwise_singleton _ _, fun a ha b hb => ?_⟩
        rw [List.mem_singleton.mp hb, hkept a ha, List.idxOf_append_of_notMem hnew]
        exact Nat.lt_add_right _ (List.idxOf_lt_length_of_mem (List.mem_eraseDups.mp ha))

end First

namespace Library

/-! ## Where files are named -/

/-- The places where a library refers to files. -/
inductive Place where
  | icon
  | background
  | waveform
  | region
  | response
deriving DecidableEq, Repr

/-- Whether a library names a file in some place. -/
def RefersTo (l : Library) (path : RelativePath) : Place → Prop
  | .icon => l.info.icon = some path
  | .background => l.info.background = some path
  | .waveform => ∃ i ∈ l.instruments, i.waveform = some path
  | .region => ∃ i ∈ l.instruments, ∃ r ∈ i.regions, r.file.path = path
  | .response => ∃ r ∈ l.responses, r.path = path

theorem mem_references_iff {l : Library} {path : RelativePath} :
    path ∈ l.references ↔ ∃ place ≠ Place.waveform, l.RefersTo path place := by
  simp only [references, List.mem_append, Option.mem_toList, List.mem_flatMap,
    List.mem_map]
  constructor
  · rintro (((h | h) | ⟨i, hi, r, hr, h⟩) | ⟨r, hr, h⟩)
    · exact ⟨.icon, by decide, h⟩
    · exact ⟨.background, by decide, h⟩
    · exact ⟨.region, by decide, i, hi, r, hr, h⟩
    · exact ⟨.response, by decide, r, hr, h⟩
  · rintro ⟨place, hplace, h⟩
    cases place with
    | icon => exact Or.inl (Or.inl (Or.inl h))
    | background => exact Or.inl (Or.inl (Or.inr h))
    | waveform => exact absurd rfl hplace
    | region => exact Or.inl (Or.inr h)
    | response => exact Or.inr h

/-- The waveform of a prepared instrument is one that was named, or the file of a region. -/
theorem waveform_of_prepare {before l : Library} (h : before.prepare = .ok l)
    {path : RelativePath} (hpath : l.RefersTo path .waveform) :
    before.RefersTo path .waveform ∨ l.RefersTo path .region := by
  obtain ⟨_, -, hprepared⟩ := except_bind_eq_ok.mp h
  cases hprepared
  obtain ⟨_, hmem, hwaveform⟩ := hpath
  obtain ⟨i, hi, rfl⟩ := List.mem_map.mp hmem
  have hfiles : i.prepare.regions.map (fun r => r.file.path) = i.regions.map fun r => r.file.path :=
    KeyMap.map_apply (fun _ _ => rfl) i.withWaveform.withRoundRobin
  have hshown : (i.waveform <|> i.regions.head?.map fun r => r.file.path) = some path := hwaveform
  cases hnamed : i.waveform with
  | some named =>
      rw [hnamed] at hshown
      exact Or.inl ⟨i, hi, hnamed.trans hshown⟩
  | none =>
      rw [hnamed] at hshown
      obtain ⟨r, hr, hpath⟩ := Option.map_eq_some_iff.mp hshown
      have hfile : path ∈ i.prepare.regions.map fun r => r.file.path :=
        hfiles ▸ List.mem_map.mpr ⟨r, List.mem_of_head? hr, hpath⟩
      exact Or.inr ⟨i.prepare, hmem, List.mem_map.mp hfile⟩

/-! ## The report -/

/-- Whether a path leads to a file below a root. -/
def LeadsToFile (files : Files.Tree) (root : String) (path : RelativePath) : Prop :=
  ∃ file, RelativePath.locate root path.text = .ok file ∧ files.isFile file = true

theorem problem?_eq_none_iff {files : Files.Tree} {root : String} {path : RelativePath} :
    problem? files root path = none ↔ LeadsToFile files root path := by
  rw [problem?, LeadsToFile]
  cases RelativePath.locate root path.text with
  | error e => simp
  | ok file => simp

/-- The report is about the paths that lead to no file, each once. -/
theorem paths_fileIssues (l : Library) (files : Files.Tree) :
    (l.fileIssues files).map FileIssue.path =
      l.references.eraseDups.filter fun path => (problem? files l.root path).isSome := by
  rw [fileIssues, List.map_filterMap, ← List.filterMap_eq_filter]
  refine List.filterMap_congr fun path _ => ?_
  cases h : problem? files l.root path <;> simp [Option.guard, h]

theorem mem_paths_fileIssues {l : Library} {files : Files.Tree} {path : RelativePath} :
    path ∈ (l.fileIssues files).map FileIssue.path ↔
      path ∈ l.references ∧ ¬ LeadsToFile files l.root path := by
  rw [paths_fileIssues, List.mem_filter, List.mem_eraseDups, ← problem?_eq_none_iff,
    Option.isSome_iff_ne_none]

theorem problem_of_mem {l : Library} {files : Files.Tree} {issue : FileIssue}
    (h : issue ∈ l.fileIssues files) : problem? files l.root issue.path = some issue.problem := by
  obtain ⟨path, -, hissue⟩ := List.mem_filterMap.mp h
  obtain ⟨problem, hproblem, rfl⟩ := Option.map_eq_some_iff.mp hissue
  exact hproblem

/-- Some issues tell of a row of paths: of those that lead to no file each once, in the order in
which they are first in the row, and why it leads to none. -/
structure Tells (files : Files.Tree) (root : String) (row : List RelativePath)
    (issues : List FileIssue) : Prop where
  listed : ∀ path, path ∈ issues.map FileIssue.path ↔ path ∈ row ∧ ¬ LeadsToFile files root path
  once : (issues.map FileIssue.path).Nodup
  ordered : (issues.map FileIssue.path).Pairwise fun a b => row.idxOf a < row.idxOf b
  missing : ∀ issue ∈ issues, ∀ file, RelativePath.locate root issue.path.text = .ok file →
    issue.problem = .missing
  unresolvable : ∀ issue ∈ issues, ∀ error, RelativePath.locate root issue.path.text = .error error →
    issue.problem = .unresolvable error ∧ issue.problem.message = error.message

theorem tells_fileIssues (l : Library) (files : Files.Tree) :
    Tells files l.root l.references (l.fileIssues files) := by
  have hordered : ((l.fileIssues files).map FileIssue.path).Pairwise
      fun a b => l.references.idxOf a < l.references.idxOf b := by
    rw [paths_fileIssues]
    exact (pairwise_idxOf_eraseDups l.references).filter _
  have honce : ((l.fileIssues files).map FileIssue.path).Pairwise (· ≠ ·) := by
    refine hordered.imp fun hlt heq => ?_
    rw [heq] at hlt
    exact Nat.lt_irrefl _ hlt
  exact {
    listed := fun _ => mem_paths_fileIssues
    once := honce
    ordered := hordered
    missing := by
      intro issue hissue file hfile
      have hproblem := problem_of_mem hissue
      simp only [problem?, hfile] at hproblem
      split at hproblem
      · cases hproblem
      · exact (Option.some.inj hproblem).symm
    unresolvable := by
      intro issue hissue error herror
      have hproblem := problem_of_mem hissue
      simp only [problem?, herror] at hproblem
      exact ⟨(Option.some.inj hproblem).symm, (Option.some.inj hproblem) ▸ rfl⟩ }

/-- The report tells of the icon, the background, the regions and the impulse
responses of a library.  It is complete exactly if each waveform leads to a file or
is named in one of these places as well; in a prepared library only a waveform that
an instrument names itself can fail to. -/
theorem report_complete_iff (l : Library) (files : Files.Tree) :
    Tells files l.root l.references (l.fileIssues files) ∧
    (∀ path, path ∈ l.references ↔ ∃ place ≠ Place.waveform, l.RefersTo path place) ∧
    ((∀ path, path ∈ (l.fileIssues files).map FileIssue.path ↔
        (∃ place, l.RefersTo path place) ∧ ¬ LeadsToFile files l.root path) ↔
      ∀ path, l.RefersTo path .waveform →
        LeadsToFile files l.root path ∨ ∃ place ≠ Place.waveform, l.RefersTo path place) ∧
    (∀ before : Library, before.prepare = .ok l → ∀ path, l.RefersTo path .waveform →
      before.RefersTo path .waveform ∨ l.RefersTo path .region) := by
  refine ⟨tells_fileIssues l files, fun _ => mem_references_iff, ?_,
    fun _ hprepare _ => waveform_of_prepare hprepare⟩
  simp only [mem_paths_fileIssues, mem_references_iff]
  constructor
  · intro hcomplete path hwaveform
    by_cases hleads : LeadsToFile files l.root path
    · exact Or.inl hleads
    · exact Or.inr ((hcomplete path).mpr ⟨⟨.waveform, hwaveform⟩, hleads⟩).1
  · intro hwaveforms path
    constructor
    · rintro ⟨⟨place, -, hplace⟩, hleads⟩
      exact ⟨⟨place, hplace⟩, hleads⟩
    · rintro ⟨⟨place, hplace⟩, hleads⟩
      refine ⟨?_, hleads⟩
      by_cases hwaveform : place = .waveform
      · exact (hwaveforms path (hwaveform ▸ hplace)).resolve_left hleads
      · exact ⟨place, hwaveform, hplace⟩

/-- The folder of a library with its one sample. -/
def pianoFiles : Files.Tree :=
  ⟨.folder [("piano", .folder [("c4.wav", .file .empty)])], []⟩

/-- A missing waveform is not reported, although the library is prepared. -/
theorem missing_waveform_unreported :
    let l : Library := {
      info := {}
      scriptPath := "/piano/floe.lua"
      instruments := [{
        name := "Keys"
        waveform := some ⟨"wave.wav"⟩
        regions := [{ file := { path := ⟨"c4.wav"⟩ } }] }] }
    l.prepare = .ok l ∧ l.RefersTo ⟨"wave.wav"⟩ .waveform ∧
      ¬ LeadsToFile pianoFiles l.root ⟨"wave.wav"⟩ ∧ l.fileIssues pianoFiles = [] := by
  intro l
  refine ⟨rfl, ⟨_, List.mem_singleton_self _, rfl⟩, ?_, by decide⟩
  rw [← problem?_eq_none_iff]
  decide

end Library

end Multisample
