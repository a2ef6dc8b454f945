import Multisample.Text.Bytes

/-!
# Names of scripts in messages

The interpreter marks lines with a name for the script: its file name, cut to
what fits.  Where a message names a script by its text, the file name is put in
that place.
-/

namespace Multisample.Script.ChunkName

/-- How many bytes of a file name stand in front of lines. -/
def maxBytes : Nat := 59

/-- What of a file name stands in front of lines; a character that is cut shows as a replacement. -/
def ofFileName (name : String) : String :=
  Bytes.display ((Bytes.ofString name).extract 0 maxBytes)

/-- What stands before the first place of a mark, and the rest with the mark in front. -/
def breakAt? (mark : List Char) : List Char → Option (List Char × List Char)
  | [] => if mark.isEmpty then some ([], []) else none
  | c :: cs =>
    if mark.isPrefixOf (c :: cs) then some ([], c :: cs)
    else (breakAt? mark cs).map fun (before, rest) => (c :: before, rest)

theorem append_of_breakAt? {mark cs before rest : List Char}
    (h : breakAt? mark cs = some (before, rest)) : before ++ rest = cs ∧ mark <+: rest := by
  induction cs generalizing before with
  | nil =>
      rw [breakAt?] at h
      split at h
      · rename_i hmark
        cases h
        exact ⟨rfl, List.isEmpty_iff.mp hmark ▸ List.nil_prefix⟩
      · cases h
  | cons c cs ih =>
      rw [breakAt?] at h
      split at h
      · rename_i hmark
        cases h
        exact ⟨rfl, List.isPrefixOf_iff_prefix.mp hmark⟩
      · obtain ⟨⟨tail, _⟩, htail, hsame⟩ := Option.map_eq_some_iff.mp h
        cases hsame
        obtain ⟨hcs, hmark⟩ := ih htail
        exact ⟨congrArg (c :: ·) hcs, hmark⟩

def opening : List Char := "[string \"".toList

def closing : List Char := "\"]".toList

/-- What stands before the first script text between the marks, and what comes after it. -/
def breakAtChunk? (cs : List Char) : Option (List Char × List Char) :=
  match breakAt? opening cs with
  | none => none
  | some (before, marked) =>
    match breakAt? closing marked with
    | none => none
    | some (_, rest) => some (before, rest.drop closing.length)

theorem breakAtChunk?_eq_some_iff {cs before after : List Char} :
    breakAtChunk? cs = some (before, after) ↔ ∃ marked text rest,
      breakAt? opening cs = some (before, marked) ∧ breakAt? closing marked = some (text, rest) ∧
        rest.drop closing.length = after := by
  constructor
  · intro h
    unfold breakAtChunk? at h
    split at h
    · cases h
    · rename_i marked hopening
      split at h
      · cases h
      · rename_i text rest hclosing
        cases h
        exact ⟨marked, text, rest, hopening, hclosing, rfl⟩
  · rintro ⟨marked, text, rest, hopening, hclosing, rfl⟩
    simp only [breakAtChunk?, hopening, hclosing]

theorem length_lt_of_breakAtChunk? {cs before after : List Char}
    (h : breakAtChunk? cs = some (before, after)) : after.length < cs.length := by
  obtain ⟨marked, text, rest, hopening, hclosing, rfl⟩ := breakAtChunk?_eq_some_iff.mp h
  obtain ⟨hcs, -⟩ := append_of_breakAt? hopening
  obtain ⟨hmarked, hmark⟩ := append_of_breakAt? hclosing
  have hroom : 2 ≤ rest.length := hmark.length_le
  have hclosed : closing.length = 2 := rfl
  rw [← hcs, ← hmarked, List.length_append, List.length_append, List.length_drop, hclosed]
  omega

/-- Puts a name in the place of every script text between the marks. -/
def patch (name cs : List Char) : List Char :=
  match _ : breakAtChunk? cs with
  | none => cs
  | some (before, after) => before ++ name ++ patch name after
termination_by cs.length
decreasing_by exact length_lt_of_breakAtChunk? ‹_›

/-- A message with the file name in the place of script texts. -/
def patched (name message : String) : String :=
  String.ofList (patch name.toList message.toList)

/-- What comes before the call stack in a message. -/
def withoutStack (message : String) : String :=
  match breakAt? "\nstack traceback:".toList message.toList with
  | some (before, _) => String.ofList before
  | none => message

end Multisample.Script.ChunkName
