import Mathlib.Data.List.Infix
import Multisample.Script.ChunkName

/-!
# No script is named by its text

Where the interpreter names a script by its text, a message names it by its file.
The text is read once from left to right; a file name that cannot be part of an
opening mark makes no new one with what stands around it, so no name of the old
kind is left, and what is not part of one stays as it was.
-/

namespace Multisample.Script.ChunkName

/-! ## The first place of a mark -/

theorem breakAt?_eq_none_iff {mark cs : List Char} : breakAt? mark cs = none ↔ ¬ mark <:+: cs := by
  induction cs with
  | nil =>
      rw [breakAt?, List.infix_nil, ← List.isEmpty_iff]
      cases mark.isEmpty <;> simp
  | cons c cs ih =>
      rw [breakAt?, List.infix_cons_iff, ← List.isPrefixOf_iff_prefix]
      cases mark.isPrefixOf (c :: cs) <;> simp [ih]

/-- Wherever the mark stands, the first place of it is not later. -/
theorem suffix_of_breakAt? {mark cs before rest : List Char}
    (h : breakAt? mark cs = some (before, rest)) {later : List Char} (hlater : later <:+ cs)
    (hmark : mark <+: later) : later <:+ rest := by
  induction cs generalizing before with
  | nil =>
      obtain ⟨hnil, -⟩ := append_of_breakAt? h
      obtain ⟨-, rfl⟩ := List.append_eq_nil_iff.mp hnil
      exact hlater
  | cons c cs ih =>
      rw [breakAt?] at h
      split at h
      · cases h
        exact hlater
      · rename_i hother
        rcases List.suffix_cons_iff.mp hlater with rfl | hlater
        · exact absurd (List.isPrefixOf_iff_prefix.mpr hmark) hother
        · obtain ⟨⟨tail, _⟩, htail, hsame⟩ := Option.map_eq_some_iff.mp h
          cases hsame
          exact ih htail hlater

/-! ## Scripts named by their text -/

/-- Somewhere an opening mark stands, and from there on a closing one. -/
def HasChunkName (cs : List Char) : Prop :=
  ∃ marked, marked <:+ cs ∧ opening <+: marked ∧ closing <:+: marked

/-- From an opening mark to the first closing mark. -/
structure IsChunkName (chunk : List Char) : Prop where
  opens : opening <+: chunk
  closes : closing <:+ chunk
  once : ∀ start, start <+: chunk → closing <:+: start → start = chunk

theorem not_closing_infix_opening : ¬ closing <:+: opening := by
  decide

theorem IsChunkName.length_le {chunk : List Char} (h : IsChunkName chunk) : 10 ≤ chunk.length := by
  have hopening : opening.length = 9 := rfl
  have hle := h.opens.length_le
  by_contra hshort
  -- With nothing behind it, the opening mark would hold the closing one.
  have hsame : opening = chunk := h.opens.eq_of_length (by omega)
  exact not_closing_infix_opening (hsame ▸ h.closes.isInfix)

theorem breakAtChunk?_eq_none_iff {cs : List Char} :
    breakAtChunk? cs = none ↔ ¬ HasChunkName cs := by
  constructor
  · rintro h ⟨later, hlater, hopening, hclosing⟩
    cases hfirst : breakAt? opening cs with
    | none => exact breakAt?_eq_none_iff.mp hfirst (hopening.isInfix.trans hlater.isInfix)
    | some found =>
        obtain ⟨before, marked⟩ := found
        have hinside : later <:+ marked := suffix_of_breakAt? hfirst hlater hopening
        cases hsecond : breakAt? closing marked with
        | none => exact breakAt?_eq_none_iff.mp hsecond (hclosing.trans hinside.isInfix)
        | some found => simp [breakAtChunk?, hfirst, hsecond] at h
  · intro h
    rw [Option.eq_none_iff_forall_ne_some]
    rintro ⟨before, after⟩ hsome
    obtain ⟨marked, text, rest, hfirst, hsecond, -⟩ := breakAtChunk?_eq_some_iff.mp hsome
    obtain ⟨rfl, hopening⟩ := append_of_breakAt? hfirst
    obtain ⟨rfl, hclosing⟩ := append_of_breakAt? hsecond
    exact h ⟨_, List.suffix_append before _, hopening,
      hclosing.isInfix.trans (List.suffix_append text rest).isInfix⟩

theorem isChunkName_of_breakAt? {marked text after : List Char} (hopening : opening <+: marked)
    (h : breakAt? closing marked = some (text, closing ++ after)) :
    IsChunkName (text ++ closing) := by
  obtain ⟨hmarked, -⟩ := append_of_breakAt? h
  rw [← List.append_assoc] at hmarked
  refine ⟨?_, List.suffix_append _ _, ?_⟩
  · have hchunk : text ++ closing <+: marked := ⟨after, hmarked⟩
    rcases List.prefix_or_prefix_of_prefix hopening hchunk with hshort | hlong
    · exact hshort
    · exact absurd ((List.suffix_append text closing).isInfix.trans hlong.isInfix)
        not_closing_infix_opening
  · rintro start ⟨more, hmore⟩ ⟨first, last, hstart⟩
    have hlater : closing ++ (last ++ more ++ after) <:+ marked := by
      refine ⟨first, ?_⟩
      rw [← hmarked, ← hmore, ← hstart]
      simp
    have hlength := (suffix_of_breakAt? h hlater (List.prefix_append _ _)).length_le
    simp only [List.length_append] at hlength
    have hnone : more = [] := List.eq_nil_of_length_eq_zero (by omega)
    rw [← hmore, hnone, List.append_nil]

theorem breakAtChunk?_eq_some {cs before after : List Char}
    (h : breakAtChunk? cs = some (before, after)) :
    ∃ chunk, cs = before ++ chunk ++ after ∧ IsChunkName chunk ∧ ¬ opening <:+: before := by
  obtain ⟨marked, text, rest, hfirst, hsecond, rfl⟩ := breakAtChunk?_eq_some_iff.mp h
  obtain ⟨hcs, hopening⟩ := append_of_breakAt? hfirst
  obtain ⟨hmarked, ⟨after, rfl⟩⟩ := append_of_breakAt? hsecond
  rw [List.drop_left]
  refine ⟨text ++ closing, ?_, isChunkName_of_breakAt? hopening hsecond, ?_⟩
  · rw [← hcs, ← hmarked]
    simp
  · rintro ⟨first, last, hbefore⟩
    have hlater : opening ++ (last ++ marked) <:+ cs := by
      refine ⟨first, ?_⟩
      rw [← hcs, ← hbefore]
      simp
    have hlength := (suffix_of_breakAt? hfirst hlater (List.prefix_append _ _)).length_le
    have hpositive : opening.length = 9 := rfl
    simp only [List.length_append] at hlength
    omega

/-- An opening mark that begins in front of a chunk name lies in front of it. -/
theorem opening_prefix_of_append {start chunk after : List Char} (hchunk : opening <+: chunk)
    (hstart : start ≠ []) (h : opening <+: start ++ chunk ++ after) : opening <+: start := by
  rw [List.append_assoc] at h
  rcases List.prefix_or_prefix_of_prefix h (List.prefix_append start _) with hin | ⟨u, hu⟩
  · exact hin
  · -- What is left of the mark would begin as the chunk name does, with the bracket once more.
    rw [← hu, List.prefix_append_right_inj] at h
    cases u with
    | nil => rw [← hu, List.append_nil]
    | cons c cs =>
        obtain ⟨rest, rfl⟩ := hchunk
        have hc : c = '[' := (List.cons_prefix_cons.mp h).1
        have honce : ∀ tail ∈ opening.tails, tail ≠ opening → '[' ∉ tail := by decide
        have hshorter : c :: cs ≠ opening := by
          intro heq
          have hlength := congrArg List.length (hu.trans heq.symm)
          rw [List.length_append] at hlength
          exact hstart (List.eq_nil_of_length_eq_zero (by omega))
        exact absurd (hc ▸ List.mem_cons_self)
          (honce (c :: cs) ((List.mem_tails _ _).mpr ⟨start, hu⟩) hshorter)

/-- A text begins with one chunk name at most. -/
theorem IsChunkName.eq_of_begins {chunk other marked : List Char} (hchunk : IsChunkName chunk)
    (hother : IsChunkName other) (h : chunk <+: marked) (h' : other <+: marked) :
    chunk = other := by
  rcases List.prefix_or_prefix_of_prefix h h' with hin | hin
  · exact hother.once chunk hin hchunk.closes.isInfix
  · exact (hchunk.once other hin hother.closes.isInfix).symm

/-- Behind a text without an opening mark a chunk name is the first. -/
theorem breakAtChunk?_append {before chunk : List Char} (hbefore : ¬ opening <:+: before)
    (hchunk : IsChunkName chunk) (after : List Char) :
    breakAtChunk? (before ++ chunk ++ after) = some (before, after) := by
  have hlater : chunk ++ after <:+ before ++ chunk ++ after := ⟨before, by simp⟩
  have hmark : opening <+: chunk ++ after := hchunk.opens.trans (List.prefix_append _ _)
  have hnamed : HasChunkName (before ++ chunk ++ after) :=
    ⟨_, hlater, hmark, hchunk.closes.isInfix.trans (List.prefix_append _ _).isInfix⟩
  cases hbroken : breakAtChunk? (before ++ chunk ++ after) with
  | none => exact absurd hnamed (breakAtChunk?_eq_none_iff.mp hbroken)
  | some found =>
      obtain ⟨start, behind⟩ := found
      obtain ⟨marked, text, rest, hfirst, hsecond, rfl⟩ := breakAtChunk?_eq_some_iff.mp hbroken
      obtain ⟨hcs, hopening⟩ := append_of_breakAt? hfirst
      obtain ⟨between, rfl⟩ := suffix_of_breakAt? hfirst hlater hmark
      rw [← List.append_assoc, ← List.append_assoc] at hcs
      obtain rfl := List.append_cancel_right (List.append_cancel_right hcs)
      -- Nothing lies between the first opening mark and the chunk name.
      have hnone : between = [] := by
        by_contra hbetween
        rw [← List.append_assoc] at hopening
        have hin := opening_prefix_of_append hchunk.opens hbetween hopening
        exact hbefore (hin.isInfix.trans (List.suffix_append _ _).isInfix)
      rw [hnone, List.nil_append] at hopening hsecond
      obtain ⟨hmarked, ⟨behind, rfl⟩⟩ := append_of_breakAt? hsecond
      rw [← List.append_assoc] at hmarked
      obtain rfl := (isChunkName_of_breakAt? hopening hsecond).eq_of_begins hchunk ⟨_, hmarked⟩
        (List.prefix_append _ _)
      rw [hnone, List.append_nil, List.drop_left, List.append_cancel_left hmarked]

/-! ## What a round puts in its place -/

/-- A name that no opening mark begins in or ends in, nor is all of it a part of one. -/
structure IsForeign (name : List Char) : Prop where
  bracket : '[' ∉ name
  quote : '"' ∉ name
  other : ∃ c ∈ name, c ∉ opening

theorem eq_bracket_of_opening {c : Char} {cs : List Char} (h : opening <+: c :: cs) : c = '[' :=
  (List.cons_prefix_cons.mp h).1.symm

theorem quote_mem_of_suffix {cs : List Char} (h : cs <:+ opening) (hcs : cs ≠ []) : '"' ∈ cs := by
  have hends : ∀ tail ∈ opening.tails, tail ≠ [] → '"' ∈ tail := by decide
  exact hends cs ((List.mem_tails _ _).mpr h) hcs

/-- Across the seams of a foreign name there is no opening mark: it would begin in the name,
end in it, or have all of it inside. -/
theorem IsForeign.suffix_of_opening {name before after marked : List Char} (h : IsForeign name)
    (hbefore : ¬ opening <:+: before) (hmarked : marked <:+ before ++ name ++ after)
    (hopening : opening <+: marked) : marked <:+ after := by
  have hseam : after <:+ before ++ name ++ after := List.suffix_append _ after
  rcases List.suffix_or_suffix_of_suffix hmarked hseam with hin | ⟨start, rfl⟩
  · exact hin
  · have hstart : start <:+ before ++ name := List.suffix_append_self_iff.mp hmarked
    rcases List.suffix_or_suffix_of_suffix hstart (List.suffix_append _ name) with hname | ⟨t, rfl⟩
    · cases start with
      | nil => exact List.suffix_refl after
      | cons c cs =>
          have hc : c ∈ name := hname.mem List.mem_cons_self
          exact absurd (eq_bracket_of_opening hopening ▸ hc) h.bracket
    · exfalso
      have ht : t <:+ before := List.suffix_append_self_iff.mp hstart
      rw [List.append_assoc] at hopening
      rcases List.prefix_or_prefix_of_prefix hopening (List.prefix_append t _) with hin | ⟨u, hu⟩
      · exact hbefore (hin.isInfix.trans ht.isInfix)
      · rw [← hu, List.prefix_append_right_inj] at hopening
        rcases List.prefix_or_prefix_of_prefix hopening (List.prefix_append name _) with hend | hall
        · have hnonempty : u ≠ [] := by
            rintro rfl
            rw [List.append_nil] at hu
            exact hbefore (hu ▸ ht.isInfix)
          exact h.quote (hend.mem (quote_mem_of_suffix ⟨t, hu⟩ hnonempty))
        · obtain ⟨c, hc, hother⟩ := h.other
          exact hother (hu ▸ List.mem_append_right t (hall.mem hc))

/-! ## Rounds -/

/-- In so many rounds a text becomes another: the name comes in the place of each chunk
name, from the left, and all that stands before, between and behind them is kept. -/
inductive Patches (name : List Char) : ℕ → List Char → List Char → Prop
  | rest {text : List Char} (h : ¬ HasChunkName text) : Patches name 0 text text
  | round {rounds : ℕ} {before chunk after patched : List Char} (hbefore : ¬ opening <:+: before)
      (hchunk : IsChunkName chunk) (hafter : Patches name rounds after patched) :
      Patches name (rounds + 1) (before ++ chunk ++ after) (before ++ name ++ patched)

theorem patch_of_none {name cs : List Char} (h : breakAtChunk? cs = none) : patch name cs = cs := by
  rw [patch, h]

theorem patch_of_some {name cs before after : List Char}
    (h : breakAtChunk? cs = some (before, after)) :
    patch name cs = before ++ name ++ patch name after := by
  rw [patch, h]

theorem patches_patch (name text : List Char) :
    ∃ rounds, Patches name rounds text (patch name text) := by
  fun_induction patch name text with
  | case1 cs h => exact ⟨0, .rest (breakAtChunk?_eq_none_iff.mp h)⟩
  | case2 cs before after h ih =>
      obtain ⟨rounds, hafter⟩ := ih
      obtain ⟨chunk, rfl, hchunk, hbefore⟩ := breakAtChunk?_eq_some h
      exact ⟨rounds + 1, .round hbefore hchunk hafter⟩

section rounds

variable {name text patched : List Char} {rounds : ℕ}

/-- There is one run of rounds on a text, and patching is what it comes to. -/
theorem Patches.eq_patch (h : Patches name rounds text patched) : patched = patch name text := by
  induction h with
  | rest h => rw [patch_of_none (breakAtChunk?_eq_none_iff.mpr h)]
  | round hbefore hchunk _ ih => rw [patch_of_some (breakAtChunk?_append hbefore hchunk _), ih]

theorem Patches.length_le (h : Patches name rounds text patched) : 10 * rounds ≤ text.length := by
  induction h with
  | rest => exact Nat.zero_le _
  | round _ hchunk _ ih =>
      have hlength := hchunk.length_le
      rw [List.length_append, List.length_append]
      omega

theorem Patches.not_hasChunkName (hname : IsForeign name) (h : Patches name rounds text patched) :
    ¬ HasChunkName patched := by
  induction h with
  | rest h => exact h
  | round hbefore _ _ ih =>
      rintro ⟨marked, hmarked, hopening, hclosing⟩
      exact ih ⟨marked, hname.suffix_of_opening hbefore hmarked hopening, hopening, hclosing⟩

end rounds

/-- With a foreign name, patching comes to an end after at most a tenth as many rounds as the
message has characters, and to one text: with the name for each chunk name and all else kept.
That text has no chunk name; patched once more, with whatever name, it stays as it is. -/
theorem patched_names_no_chunk {name : String} (hname : IsForeign name.toList) (message : String) :
    (∃ rounds, 10 * rounds ≤ message.length ∧ ∀ text,
        Patches name.toList rounds message.toList text ↔ text = (patched name message).toList) ∧
      ¬ HasChunkName (patched name message).toList ∧
      ∀ other, patched other (patched name message) = patched name message := by
  obtain ⟨rounds, hrounds⟩ := patches_patch name.toList message.toList
  have hpatched : (patched name message).toList = patch name.toList message.toList :=
    String.toList_ofList
  rw [← hpatched] at hrounds
  have hclear := hrounds.not_hasChunkName hname
  refine ⟨⟨rounds, hrounds.length_le, fun text => ?_⟩, hclear, fun other => ?_⟩
  · constructor
    · intro h
      rw [h.eq_patch, hpatched]
    · rintro rfl
      exact hrounds
  · rw [ChunkName.patched, patch_of_none (breakAtChunk?_eq_none_iff.mpr hclear),
      String.ofList_toList]

/-- A mark within a script text, one whose quote closes it as well, and one that nothing closes. -/
theorem patched_names_no_chunk_nested :
    let message := "[string \"[string \"a\"]:3: [string \"]: [string \"b"
    IsForeign "floe.lua".toList ∧
      patched "floe.lua" message = "floe.lua:3: floe.lua: [string \"b" ∧
      ¬ HasChunkName (patched "floe.lua" message).toList ∧
      patched "floe.lua" (patched "floe.lua" message) = patched "floe.lua" message := by
  intro message
  have hname : IsForeign "floe.lua".toList := ⟨by decide, by decide, 'f', by decide, by decide⟩
  obtain ⟨-, hclear, hsettled⟩ := patched_names_no_chunk hname message
  have hfirst : breakAtChunk? message.toList =
      some ([], ":3: [string \"]: [string \"b".toList) := by decide
  have hsecond : breakAtChunk? ":3: [string \"]: [string \"b".toList =
      some (":3: ".toList, ": [string \"b".toList) := by decide
  have hrest : breakAtChunk? ": [string \"b".toList = none := by decide
  refine ⟨hname, ?_, hclear, hsettled "floe.lua"⟩
  rw [patched, patch_of_some hfirst, patch_of_some hsecond, patch_of_none hrest]
  rfl

end Multisample.Script.ChunkName
