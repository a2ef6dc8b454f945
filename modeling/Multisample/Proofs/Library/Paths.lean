import Mathlib.Data.List.Infix
import Multisample.Files.Tree
import Multisample.Library.RelativePath

/-!
# Paths that stay inside

A library names its files by paths that have to lead to something below its own
folder.  Which texts do so is said here without following them: of the pieces
between separators, no front may lead up more often than down, and the whole
must lead further down than up.  What is found then lies below the root by as
many names as are left when the steps up have been taken back.
-/

namespace Multisample

theorem except_bind_eq_ok {ε α β : Type} {x : Except ε α} {f : α → Except ε β} {b : β} :
    x >>= f = .ok b ↔ ∃ a, x = .ok a ∧ f a = .ok b := by
  cases x with
  | ok a => simp [Bind.bind, Except.bind]
  | error e => simp [Bind.bind, Except.bind]

namespace Files

/-! ## Pieces -/

theorem segments_eq_splitOn (cs : List Char) : segments cs = cs.splitOn '/' := by
  induction cs with
  | nil => rfl
  | cons c cs ih =>
      rw [segments, List.splitOn_cons_eq_if_modifyHead, ih]
      by_cases hc : c = '/'
      · simp [hc]
      · rw [if_neg hc, if_neg (by simpa using hc)]
        cases h : cs.splitOn '/' with
        | nil => exact absurd h (List.splitOn_ne_nil _ _)
        | cons piece more => rfl

theorem segments_append_slash (front back : List Char) :
    segments (front ++ '/' :: back) = segments front ++ segments back := by
  simp only [segments_eq_splitOn]
  exact List.splitOn_append_cons_self ..

theorem segments_eq_singleton {piece : List Char} (h : '/' ∉ piece) :
    segments piece = [piece] := by
  rw [segments_eq_splitOn]
  exact List.splitOn_eq_singleton h

/-- A piece has its characters from the text, and none of them separates. -/
theorem mem_of_mem_segments {cs piece : List Char} (h : piece ∈ segments cs) :
    ∀ c ∈ piece, c ∈ cs ∧ c ≠ '/' := by
  induction cs generalizing piece with
  | nil =>
      rw [segments, List.mem_singleton] at h
      simp [h]
  | cons d cs ih =>
      have hrest : ∀ piece ∈ segments cs, ∀ c ∈ piece, c ∈ d :: cs ∧ c ≠ '/' :=
        fun piece hpiece c hc => ⟨List.mem_cons_of_mem _ (ih hpiece c hc).1, (ih hpiece c hc).2⟩
      rw [segments] at h
      split at h
      · rcases List.mem_cons.mp h with rfl | h
        · simp
        · exact hrest piece h
      · rename_i hd
        have hfirst : ∀ c ∈ [d], c ∈ d :: cs ∧ c ≠ '/' := by simp [hd]
        cases hs : segments cs with
        | nil =>
            rw [hs, List.mem_singleton] at h
            exact h ▸ hfirst
        | cons s more =>
            rw [hs] at h hrest
            rcases List.mem_cons.mp h with rfl | h
            · intro c hc
              rcases List.mem_cons.mp hc with rfl | hc
              · exact hfirst c List.mem_cons_self
              · exact hrest s List.mem_cons_self c hc
            · exact hrest piece (List.mem_cons_of_mem _ h)

/-! ## Components -/

/-- The component that a piece stands for if it says something. -/
def componentOf (piece : String) : Component :=
  if piece = ".." then .parent else .name piece

theorem filterMap_component?_eq (pieces : List (List Char)) :
    pieces.filterMap component? =
      ((pieces.map String.ofList).filter fun s => s != "" && s != ".").map componentOf := by
  induction pieces with
  | nil => rfl
  | cons piece pieces ih =>
      have hempty : String.ofList piece = "" ↔ piece = [] := by
        rw [← String.toList_inj, String.toList_ofList]; rfl
      have hdot : String.ofList piece = "." ↔ piece = ['.'] := by
        rw [← String.toList_inj, String.toList_ofList]; rfl
      have hdots : String.ofList piece = ".." ↔ piece = ['.', '.'] := by
        rw [← String.toList_inj, String.toList_ofList]; rfl
      by_cases h : piece = [] ∨ piece = ['.']
      · rw [List.filterMap_cons_none (by rw [component?, if_pos h]), ih, List.map_cons,
          List.filter_cons_of_neg (by simpa [hempty, hdot] using or_iff_not_imp_left.mp h)]
      · have hcomponent : component? piece = some (componentOf (String.ofList piece)) := by
          rw [component?, if_neg h, componentOf]
          by_cases hup : piece = ['.', '.']
          · rw [if_pos hup, if_pos (hdots.mpr hup)]
          · rw [if_neg hup, if_neg (fun hs => hup (hdots.mp hs))]
        rw [List.filterMap_cons_some hcomponent, ih, List.map_cons,
          List.filter_cons_of_pos (by simpa [hempty, hdot] using not_or.mp h), List.map_cons]

/-- A name that a folder can hold something under. -/
structure IsEntryName (name : String) : Prop where
  notEmpty : name ≠ ""
  notDot : name ≠ "."
  notDots : name ≠ ".."
  noSlash : '/' ∉ name.toList

instance (name : String) : Decidable (IsEntryName name) :=
  decidable_of_iff (name ≠ "" ∧ name ≠ "." ∧ name ≠ ".." ∧ '/' ∉ name.toList)
    ⟨fun ⟨hempty, hdot, hdots, hslash⟩ => ⟨hempty, hdot, hdots, hslash⟩,
      fun h => ⟨h.notEmpty, h.notDot, h.notDots, h.noSlash⟩⟩

/-- A text that leads from a folder to something in it. -/
structure IsName (name : String) : Prop where
  notEmpty : name ≠ ""
  notDot : name ≠ "."
  notDots : name ≠ ".."
  noSeparator : ∀ c ∈ name.toList, c ≠ '/' ∧ c ≠ '\\'

theorem IsName.isEntryName {name : String} (h : IsName name) : IsEntryName name :=
  ⟨h.notEmpty, h.notDot, h.notDots, fun hc => (h.noSeparator _ hc).1 rfl⟩

/-- A separator ends a piece, and nothing behind it changes what the path begins with. -/
theorem components_append_slash {front : List Char} (h : front ≠ []) (back : List Char) :
    components (front ++ '/' :: back) =
      components front ++ (segments back).filterMap component? := by
  have hne : segments front ≠ [] := segments_eq_splitOn front ▸ List.splitOn_ne_nil _ _
  have hlead : lead (front ++ '/' :: back) = lead front := by
    rw [lead, lead, segments_append_slash, List.head?_append_of_ne_nil _ h,
      List.head?_append_of_ne_nil _ hne]
  rw [components, hlead, segments_append_slash, List.filterMap_append, ← List.append_assoc,
    ← components]

theorem components_slash (back : List Char) :
    components ('/' :: back) = .root :: (segments back).filterMap component? := rfl

namespace IsEntryName

variable {name : String}

theorem component?_eq (h : IsEntryName name) : component? name.toList = some (.name name) := by
  have hne : ∀ other : String, name ≠ other → name.toList ≠ other.toList :=
    fun other hother heq => hother (String.toList_inj.mp heq)
  have hempty : name.toList ≠ [] := hne "" h.notEmpty
  have hdot : name.toList ≠ ['.'] := hne "." h.notDot
  have hdots : name.toList ≠ ['.', '.'] := hne ".." h.notDots
  rw [component?, if_neg (by simp [hempty, hdot]), if_neg hdots, String.ofList_toList]

theorem segments_eq (h : IsEntryName name) : segments name.toList = [name.toList] :=
  segments_eq_singleton h.noSlash

theorem filterMap_segments (h : IsEntryName name) :
    (segments name.toList).filterMap component? = [.name name] := by
  rw [h.segments_eq, List.filterMap_cons_some h.component?_eq, List.filterMap_nil]

theorem components_eq (h : IsEntryName name) : components name.toList = [.name name] := by
  have hslash : name.toList.head? ≠ some '/' := fun hhead => h.noSlash (List.mem_of_head? hhead)
  have hdot : some name.toList ≠ some ['.'] := fun heq =>
    h.notDot (String.toList_inj.mp (Option.some.inj heq))
  rw [components, lead, if_neg hslash, h.segments_eq, List.head?_cons, if_neg hdot,
    ← h.segments_eq, h.filterMap_segments, List.nil_append]

/-- A name behind a path leads one step further down. -/
theorem components_below (h : IsEntryName name) (root : String) :
    components (join root [name]).toList = components root.toList ++ [.name name] := by
  simp only [join, List.foldl_cons, List.foldl_nil, beq_iff_eq, Bool.or_eq_true]
  by_cases hempty : root = ""
  · subst hempty
    rw [if_pos (Or.inl rfl), String.empty_append]
    exact h.components_eq
  by_cases hslash : root.toList.getLast? = some '/'
  · obtain ⟨front, hfront⟩ := List.getLast?_eq_some_iff.mp hslash
    rw [if_pos (Or.inr hslash), String.toList_append, hfront, List.append_assoc,
      List.singleton_append]
    by_cases hnil : front = []
    · rw [hnil, List.nil_append, List.nil_append, components_slash, components_slash,
        h.filterMap_segments]
      rfl
    · rw [components_append_slash hnil, components_append_slash hnil, h.filterMap_segments]
      simp [segments, component?]
  · have hne : root.toList ≠ [] := fun hnil => hempty (String.toList_eq_nil_iff.mp hnil)
    rw [if_neg (not_or.mpr ⟨hempty, hslash⟩), String.toList_append, String.toList_append,
      List.append_assoc]
    exact (components_append_slash hne name.toList).trans (h.filterMap_segments ▸ rfl)

end IsEntryName

/-- Names behind a path lead down one by one. -/
theorem components_join_entries {names : List String} (h : ∀ name ∈ names, IsEntryName name)
    (root : String) :
    components (join root names).toList = components root.toList ++ names.map .name := by
  induction names generalizing root with
  | nil => simp [join]
  | cons name names ih =>
      have hsplit : join root (name :: names) = join (join root [name]) names := rfl
      rw [hsplit, ih (fun other hother => h other (List.mem_cons_of_mem _ hother)),
        (h name List.mem_cons_self).components_below, List.append_assoc]
      rfl

theorem components_join {names : List String} (h : ∀ name ∈ names, IsName name) (root : String) :
    components (join root names).toList = components root.toList ++ names.map .name :=
  components_join_entries (fun name hname => (h name hname).isEntryName) root

/-! ## What names behind a path leave alone -/

/-- The text that a component has among the names of a path. -/
def Component.text? : Component → Option String
  | .name piece => some piece
  | .parent => some ".."
  | .drive _ | .root | .current => none

theorem text?_componentOf (piece : String) : (componentOf piece).text? = some piece := by
  rw [componentOf]
  split
  · rename_i hup
    rw [hup, Component.text?]
  · rfl

theorem names_eq_filterMap (path : String) :
    names path = (components path.toList).filterMap Component.text? := by
  have hlead : (lead path.toList).filterMap Component.text? = [] := by
    unfold lead
    split
    · rfl
    · split <;> rfl
  rw [components, List.filterMap_append, hlead, List.nil_append, filterMap_component?_eq,
    List.filterMap_map, funext (f := Component.text? ∘ componentOf) text?_componentOf,
    List.filterMap_some, names]

theorem isAbsolute_iff {path : String} :
    isAbsolute path = true ↔ .root ∈ components path.toList := by
  have hpieces : .root ∉ (segments path.toList).filterMap component? := by
    rw [filterMap_component?_eq]
    intro hroot
    obtain ⟨piece, -, hpiece⟩ := List.mem_map.mp hroot
    have htext := text?_componentOf piece
    rw [hpiece, Component.text?] at htext
    cases htext
  rw [components, List.mem_append, or_iff_left hpieces, isAbsolute, lead, beq_iff_eq]
  split
  · simp_all
  · split <;> simp_all

variable {below : List String}

theorem names_join (h : ∀ name ∈ below, IsEntryName name) (path : String) :
    names (join path below) = names path ++ below := by
  have htext : Component.text? ∘ Component.name = some := rfl
  rw [names_eq_filterMap, components_join_entries h, List.filterMap_append, ← names_eq_filterMap,
    List.filterMap_map, htext, List.filterMap_some]

theorem isAbsolute_join (h : ∀ name ∈ below, IsEntryName name) (path : String) :
    isAbsolute (join path below) = isAbsolute path := by
  rw [Bool.eq_iff_iff, isAbsolute_iff, isAbsolute_iff, components_join_entries h, List.mem_append,
    or_iff_left (by simp)]

/-- A path that ends in a name leads to a file or a folder alike. -/
theorem namesFolder_join_concat {name : String} (h : IsEntryName name) (path : String)
    (above : List String) : namesFolder (join path (above ++ [name])) = false := by
  have hsegments : ∃ front,
      segments (join path (above ++ [name])).toList = front ++ [name.toList] := by
    rw [join, List.foldl_concat, ← join]
    simp only [beq_iff_eq, Bool.or_eq_true]
    split
    · rename_i hends
      rcases hends with hempty | hslash
      · exact ⟨[], by rw [hempty, String.empty_append, h.segments_eq, List.nil_append]⟩
      · obtain ⟨front, hfront⟩ := List.getLast?_eq_some_iff.mp hslash
        exact ⟨segments front, by
          rw [String.toList_append, hfront, List.append_assoc, List.singleton_append,
            segments_append_slash, h.segments_eq]⟩
    · rw [String.toList_append, String.toList_append, List.append_assoc]
      exact ⟨_, (segments_append_slash _ _).trans (congrArg _ h.segments_eq)⟩
  have hempty : name.toList ≠ [] := fun heq => h.notEmpty (String.toList_inj.mp heq)
  have hdot : name.toList ≠ ['.'] := fun heq => h.notDot (String.toList_inj.mp heq)
  obtain ⟨front, hfront⟩ := hsegments
  rw [namesFolder, hfront, List.getLast?_concat]
  simp [hempty, hdot]

end Files

namespace RelativePath

open Files

/-! ## Texts that begin inside -/

theorem startsAbsolute_eq_false {cs : List Char} : startsAbsolute cs = false ↔
    (∀ rest, cs ≠ '/' :: rest ∧ cs ≠ '\\' :: rest) ∧
      ∀ letter rest, cs = letter :: ':' :: rest → letter.isAlpha = false := by
  unfold startsAbsolute
  split <;> simp_all

theorem startsWithParent_eq_false {cs : List Char} :
    startsWithParent cs = false ↔ ∀ rest, cs ≠ '.' :: '.' :: rest := by
  unfold startsWithParent
  split <;> simp_all

/-- A text that is no path from a root, a drive or a parent folder. -/
structure BeginsInside (path : String) : Prop where
  notEmpty : path ≠ ""
  noSlash : ∀ rest, path.toList ≠ '/' :: rest ∧ path.toList ≠ '\\' :: rest
  noDrive : ∀ letter rest, path.toList = letter :: ':' :: rest → letter.isAlpha = false
  noParent : ∀ rest, path.toList ≠ '.' :: '.' :: rest

theorem beginsInside_iff {path : String} :
    BeginsInside path ↔ path.toList ≠ [] ∧ startsAbsolute path.toList = false ∧
      startsWithParent path.toList = false := by
  rw [startsAbsolute_eq_false, startsWithParent_eq_false, ne_eq, String.toList_eq_nil_iff]
  constructor
  · exact fun h => ⟨h.notEmpty, ⟨h.noSlash, h.noDrive⟩, h.noParent⟩
  · rintro ⟨hne, ⟨hslash, hdrive⟩, hparent⟩
    exact ⟨hne, hslash, hdrive, hparent⟩

instance (path : String) : Decidable (BeginsInside path) :=
  decidable_of_iff _ beginsInside_iff.symm

theorem ofString_eq_ok {path : String} {p : RelativePath} :
    ofString path = .ok p ↔ p = ⟨path⟩ ∧ BeginsInside path := by
  rw [beginsInside_iff]
  unfold ofString
  split
  · simp_all
  · split
    · simp_all
    · split
      · simp_all
      · constructor
        · intro h
          obtain rfl := Except.ok.inj h
          simp_all
        · rintro ⟨rfl, -⟩
          rfl

/-! ## Following the pieces -/

/-- The pieces of a path that say something; a backslash separates as a slash does. -/
def said (path : String) : List String :=
  (((slashed path).splitOn '/').map String.ofList).filter fun piece => piece != "" && piece != "."

/-- No front of the pieces leads up more than `n` folders further than down. -/
def RisesAtMost (n : ℕ) (pieces : List String) : Prop :=
  ∀ front, front <+: pieces → front.count ".." ≤ n + front.countP (· ≠ "..")

theorem risesAtMost_nil (n : ℕ) : RisesAtMost n [] := by
  intro front hfront
  rw [List.prefix_nil.mp hfront]
  exact Nat.zero_le _

theorem risesAtMost_cons_iff {n : ℕ} {piece : String} {pieces : List String} :
    RisesAtMost n (piece :: pieces) ↔ ∀ front, front <+: pieces →
      (piece :: front).count ".." ≤ n + (piece :: front).countP (· ≠ "..") := by
  constructor
  · exact fun h front hfront => h _ (List.cons_prefix_cons.mpr ⟨rfl, hfront⟩)
  · intro h front hfront
    rcases List.prefix_cons_iff.mp hfront with rfl | ⟨rest, rfl, hrest⟩
    · exact Nat.zero_le _
    · exact h rest hrest

theorem risesAtMost_up {n : ℕ} {pieces : List String} :
    RisesAtMost n (".." :: pieces) ↔ ∃ m, n = m + 1 ∧ RisesAtMost m pieces := by
  have hcount : ∀ (n : ℕ) (front : List String), (".." :: front).count ".." ≤
      n + (".." :: front).countP (· ≠ "..") ↔
        front.count ".." + 1 ≤ n + front.countP (· ≠ "..") := by
    intro n front
    rw [List.count_cons_self, List.countP_cons_of_neg (by simp)]
  simp only [risesAtMost_cons_iff, hcount]
  cases n with
  | zero =>
      -- The step up alone is a front that leads above the folder.
      refine ⟨fun h => absurd (h [] List.nil_prefix) (by decide), ?_⟩
      rintro ⟨m, hm, -⟩
      exact absurd hm.symm (Nat.succ_ne_zero m)
  | succ m =>
      constructor
      · intro h
        refine ⟨m, rfl, fun front hfront => ?_⟩
        have hle := h front hfront
        omega
      · rintro ⟨k, hk, h⟩ front hfront
        have hle := h front hfront
        omega

theorem risesAtMost_down {n : ℕ} {piece : String} {pieces : List String} (h : piece ≠ "..") :
    RisesAtMost n (piece :: pieces) ↔ RisesAtMost (n + 1) pieces := by
  rw [risesAtMost_cons_iff]
  refine forall₂_congr fun front _ => ?_
  rw [List.count_cons_of_ne h, List.countP_cons_of_pos (by simp [h]), Nat.add_assoc n 1,
    Nat.add_comm 1]

/-- Where a piece leads from a folder that lies at the given names. -/
def up (above : List String) (piece : String) : List String :=
  if piece = ".." then above.dropLast else above ++ [piece]

/-- Following succeeds exactly if no front of the pieces leads above the first
folder, and then leads where taking back the steps up leads. -/
theorem follow_eq_ok_iff {path : String} {stack pieces names : List String} :
    follow path stack (pieces.map componentOf) = .ok names ↔
      RisesAtMost stack.length pieces ∧ pieces.foldl up stack.reverse = names := by
  induction pieces generalizing stack with
  | nil => simp [follow, risesAtMost_nil]
  | cons piece pieces ih =>
      rw [List.map_cons, componentOf, List.foldl_cons, up]
      by_cases hup : piece = ".."
      · subst hup
        rw [if_pos rfl, if_pos rfl, risesAtMost_up]
        cases stack with
        | nil => simp [follow]
        | cons top below =>
            rw [follow, ih, List.reverse_cons, List.dropLast_concat]
            simp
      · rw [if_neg hup, if_neg hup, follow, ih, List.reverse_cons, risesAtMost_down hup,
          List.length_cons]

/-- Every name that is left was above or is a piece that leads down. -/
theorem mem_of_mem_foldl_up {pieces above : List String} {name : String}
    (h : name ∈ pieces.foldl up above) : name ∈ above ∨ name ∈ pieces ∧ name ≠ ".." := by
  induction pieces generalizing above with
  | nil => exact Or.inl h
  | cons piece pieces ih =>
      rcases ih h with h | ⟨hmem, hup⟩
      · unfold up at h
        split at h
        · exact Or.inl ((List.dropLast_subset _) h)
        · rename_i hup
          rcases List.mem_append.mp h with h | h
          · exact Or.inl h
          · obtain rfl := List.mem_singleton.mp h
            exact Or.inr ⟨List.mem_cons_self, hup⟩
      · exact Or.inr ⟨List.mem_cons_of_mem _ hmem, hup⟩

/-- As long as no front leads above the first folder, every step up takes one
name back. -/
theorem length_foldl_up {pieces : List String} (above : List String)
    (h : RisesAtMost above.length pieces) :
    (pieces.foldl up above).length + pieces.count ".." =
      above.length + pieces.countP (· ≠ "..") := by
  induction pieces generalizing above with
  | nil => rfl
  | cons piece pieces ih =>
      rw [List.foldl_cons, up]
      by_cases hup : piece = ".."
      · subst hup
        obtain ⟨m, hm, hrises⟩ := risesAtMost_up.mp h
        have hlength : above.dropLast.length = m := by
          rw [List.length_dropLast, hm, Nat.add_sub_cancel]
        have hrest := ih above.dropLast (hlength ▸ hrises)
        rw [if_pos rfl, List.count_cons_self, List.countP_cons_of_neg (by simp)]
        omega
      · have hrises := (risesAtMost_down hup).mp h
        have hlength : (above ++ [piece]).length = above.length + 1 := List.length_append
        have hrest := ih (above ++ [piece]) (hlength ▸ hrises)
        rw [if_neg hup, List.count_cons_of_ne hup, List.countP_cons_of_pos (by simp [hup])]
        omega

/-! ## What a path leads to -/

theorem isName_of_mem_said {path name : String} (h : name ∈ said path) (hup : name ≠ "..") :
    IsName name := by
  obtain ⟨hmem, hsaid⟩ := List.mem_filter.mp h
  obtain ⟨piece, hpiece, rfl⟩ := List.mem_map.mp hmem
  rw [← segments_eq_splitOn] at hpiece
  obtain ⟨hempty, hdot⟩ : String.ofList piece ≠ "" ∧ String.ofList piece ≠ "." := by
    simpa using hsaid
  refine ⟨hempty, hdot, hup, ?_⟩
  intro c hc
  rw [String.toList_ofList] at hc
  obtain ⟨hcs, hslash⟩ := mem_of_mem_segments hpiece c hc
  refine ⟨hslash, ?_⟩
  -- No backslash is left that could stand in a piece.
  obtain ⟨d, -, hd⟩ := List.mem_map.mp hcs
  rintro rfl
  split at hd
  · cases hd
  · contradiction

/-- Behind what the path begins with come the pieces that say something. -/
theorem components_slashed (path : String) :
    components (slashed path) = lead (slashed path) ++ (said path).map componentOf := by
  rw [components, filterMap_component?_eq, segments_eq_splitOn, said]

theorem BeginsInside.lead_eq {path : String} (h : BeginsInside path) :
    lead (slashed path) = [] ∨ lead (slashed path) = [.current] := by
  have hslash : (slashed path).head? ≠ some '/' := by
    cases hpath : path.toList with
    | nil => simp [slashed, hpath]
    | cons c rest =>
        obtain ⟨hslash, hback⟩ := h.noSlash rest
        rw [hpath] at hslash hback
        have hc : c ≠ '/' ∧ c ≠ '\\' := by simpa using And.intro hslash hback
        simp [slashed, hpath, hc.1, hc.2]
  rw [lead, if_neg hslash]
  split
  · exact Or.inr rfl
  · exact Or.inl rfl

theorem BeginsInside.follow_components {path : String} (h : BeginsInside path) :
    follow path [] (components (slashed path)) = follow path [] ((said path).map componentOf) := by
  rw [components_slashed]
  rcases h.lead_eq with hlead | hlead <;> rw [hlead] <;> rfl

/-- No front of the pieces leads up more often than down, and the whole leads
further down than up. -/
structure StaysBelow (pieces : List String) : Prop where
  fronts : ∀ front, front <+: pieces → front.count ".." ≤ front.countP (· ≠ "..")
  whole : pieces.count ".." < pieces.countP (· ≠ "..")

theorem staysBelow_iff {pieces : List String} :
    StaysBelow pieces ↔ RisesAtMost 0 pieces ∧ Tree.resolved pieces ≠ [] := by
  have hfronts : (∀ front, front <+: pieces → front.count ".." ≤ front.countP (· ≠ "..")) ↔
      RisesAtMost 0 pieces := by
    simp only [RisesAtMost, Nat.zero_add]
  have hwhole : RisesAtMost 0 pieces →
      (pieces.count ".." < pieces.countP (· ≠ "..") ↔ Tree.resolved pieces ≠ []) := by
    intro h
    have hlength : (Tree.resolved pieces).length + pieces.count ".." =
        0 + pieces.countP (· ≠ "..") := length_foldl_up [] h
    rw [← List.length_pos_iff_ne_nil]
    omega
  constructor
  · rintro ⟨h, h'⟩
    exact ⟨hfronts.mp h, (hwhole (hfronts.mp h)).mp h'⟩
  · rintro ⟨h, h'⟩
    exact ⟨hfronts.mpr h, (hwhole h).mpr h'⟩

instance (pieces : List String) : Decidable (StaysBelow pieces) :=
  decidable_of_iff
    ((∀ front ∈ pieces.inits, front.count ".." ≤ front.countP (· ≠ "..")) ∧
      pieces.count ".." < pieces.countP (· ≠ ".."))
    ⟨fun h => ⟨fun front hfront => h.1 front ((List.mem_inits ..).mpr hfront), h.2⟩,
      fun h => ⟨fun front hfront => h.fronts front ((List.mem_inits ..).mp hfront), h.whole⟩⟩

theorem resolve_eq_ok_iff {path : String} {names : List String} :
    resolve path = .ok names ↔
      BeginsInside path ∧ StaysBelow (said path) ∧ Tree.resolved (said path) = names := by
  cases hchecked : ofString path with
  | error e =>
      have houtside : ¬ BeginsInside path := by
        intro h
        rw [ofString_eq_ok.mpr ⟨rfl, h⟩] at hchecked
        cases hchecked
      simp [resolve, hchecked, houtside, bind, Except.bind]
  | ok checked =>
      obtain ⟨rfl, hinside⟩ := ofString_eq_ok.mp hchecked
      have hfollow : ∀ found, follow path [] (components (slashed path)) = .ok found ↔
          RisesAtMost 0 (said path) ∧ Tree.resolved (said path) = found := by
        intro found
        rw [hinside.follow_components]
        exact follow_eq_ok_iff
      rw [staysBelow_iff, and_iff_right hinside, and_assoc]
      cases h : follow path [] (components (slashed path)) with
      | error e =>
          have hrises : ¬ RisesAtMost 0 (said path) := by
            intro hrises
            rw [(hfollow _).mpr ⟨hrises, rfl⟩] at h
            cases h
          simp [resolve, hchecked, h, hrises, bind, Except.bind]
      | ok found =>
          obtain ⟨hrises, hfound⟩ := (hfollow found).mp h
          rw [hfound, and_iff_right hrises]
          cases found with
          | nil => simp [resolve, hchecked, h, bind, Except.bind]
          | cons name rest => simp [resolve, hchecked, h, bind, Except.bind]

/-- A path leads to a file exactly if it begins inside the folder and its pieces
stay below it.  The file then lies below the root by the names that are left
when the steps up have been taken back, and nothing that is followed is a root
or a drive. -/
theorem locate_leads_below (root path : String) :
    (∀ file, locate root path = .ok file ↔ BeginsInside path ∧ StaysBelow (said path) ∧
      file = join root (Tree.resolved (said path))) ∧
    (StaysBelow (said path) → Tree.resolved (said path) ≠ [] ∧
      (∀ name ∈ Tree.resolved (said path), IsName name) ∧
      components (join root (Tree.resolved (said path))).toList =
        components root.toList ++ (Tree.resolved (said path)).map .name) ∧
    (BeginsInside path →
      ∀ c ∈ components (slashed path), c ≠ .root ∧ ∀ drive, c ≠ .drive drive) := by
  refine ⟨fun file => ?_, fun h => ?_, fun h c hc => ?_⟩
  · rw [locate]
    cases hresolve : resolve path with
    | error e =>
        have houtside : ¬ (BeginsInside path ∧ StaysBelow (said path)) := by
          rintro ⟨hinside, hbelow⟩
          rw [resolve_eq_ok_iff.mpr ⟨hinside, hbelow, rfl⟩] at hresolve
          cases hresolve
        rw [← and_assoc]
        simp [houtside, bind, Except.bind]
    | ok names =>
        obtain ⟨hinside, hbelow, rfl⟩ := resolve_eq_ok_iff.mp hresolve
        rw [and_iff_right hinside, and_iff_right hbelow]
        simp [bind, Except.bind, pure, Except.pure, eq_comm]
  · have hnames : ∀ name ∈ Tree.resolved (said path), IsName name := by
      intro name hname
      obtain ⟨hmem, hup⟩ := (mem_of_mem_foldl_up hname).resolve_left List.not_mem_nil
      exact isName_of_mem_said hmem hup
    exact ⟨(staysBelow_iff.mp h).2, hnames, components_join hnames root⟩
  · rw [components_slashed] at hc
    rcases List.mem_append.mp hc with hc | hc
    · rcases h.lead_eq with hlead | hlead
      · rw [hlead] at hc
        exact absurd hc List.not_mem_nil
      · rw [hlead, List.mem_singleton] at hc
        simp [hc]
    · obtain ⟨piece, -, rfl⟩ := List.mem_map.mp hc
      unfold componentOf
      split <;> simp

theorem locate_leads_below_samples :
    BeginsInside "samples\\./../c4.wav" ∧ StaysBelow (said "samples\\./../c4.wav") ∧
      locate "/libs/piano" "samples\\./../c4.wav" = .ok "/libs/piano/c4.wav" ∧
      (∀ name ∈ ["c4.wav"], IsName name) ∧
      components "/libs/piano/c4.wav".toList =
        components "/libs/piano".toList ++ [.name "c4.wav"] := by
  have hinside : BeginsInside "samples\\./../c4.wav" := by decide
  have hbelow : StaysBelow (said "samples\\./../c4.wav") := by decide
  obtain ⟨hlocate, hleads, -⟩ := locate_leads_below "/libs/piano" "samples\\./../c4.wav"
  obtain ⟨-, hnames, hcomponents⟩ := hleads hbelow
  exact ⟨hinside, hbelow, (hlocate _).mpr ⟨hinside, hbelow, rfl⟩, hnames, hcomponents⟩

/-- Going up twice after going down once leads out, wherever the path goes then. -/
example : ¬ StaysBelow (said "samples/../../piano/c4.wav") := by decide

end RelativePath

end Multisample
