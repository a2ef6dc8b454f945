import Multisample.Effects.Kind

/-!
# The order of effects

The effects of a chain run in any order that names each of them once.  An order
travels between threads as one word, four bits for each place.
-/

namespace Multisample

/-- A list that names every effect once. -/
@[ext]
structure EffectOrder where
  kinds : List EffectKind
  complete : kinds.Perm EffectKind.all

namespace EffectOrder

def default : EffectOrder :=
  ⟨EffectKind.all, List.Perm.refl _⟩

instance : Inhabited EffectOrder :=
  ⟨default⟩

/-- Whether every kind comes for the first time, some having been seen before. -/
def eachNew : List EffectKind → List EffectKind → Bool
  | _, [] => true
  | seen, kind :: rest => kind ∉ seen && eachNew (kind :: seen) rest

/-- Whether a list names every effect exactly once. -/
def isPermutation (kinds : List EffectKind) : Bool :=
  kinds.length == EffectKind.all.length && eachNew [] kinds

theorem eachNew_iff {seen kinds : List EffectKind} :
    eachNew seen kinds = true ↔ kinds.Nodup ∧ ∀ kind ∈ kinds, kind ∉ seen := by
  induction kinds generalizing seen with
  | nil => simp [eachNew]
  | cons kind rest ih =>
      rw [eachNew, Bool.and_eq_true, decide_eq_true_iff, ih, List.nodup_cons]
      grind

/-- So many different kinds leave none out. -/
theorem perm_all_iff {kinds : List EffectKind} :
    kinds.Perm EffectKind.all ↔ kinds.length = EffectKind.all.length ∧ kinds.Nodup := by
  have hall : EffectKind.all.Nodup := by decide
  have hmem : ∀ kind : EffectKind, kind ∈ EffectKind.all := by
    intro kind
    cases kind <;> decide
  refine ⟨fun h => ⟨h.length_eq, h.nodup_iff.mpr hall⟩, fun ⟨hlength, hnodup⟩ => ?_⟩
  refine (List.perm_ext_iff_of_nodup hnodup hall).mpr fun kind => ⟨fun _ => hmem kind, fun _ => ?_⟩
  -- With a kind that is missing there would be one kind more than there are.
  refine Decidable.byContradiction fun hmissing => ?_
  have hle := (List.nodup_cons.mpr ⟨hmissing, hnodup⟩).length_le_of_subset fun kind _ => hmem kind
  rw [List.length_cons, hlength] at hle
  exact Nat.not_succ_le_self _ hle

theorem isPermutation_iff {kinds : List EffectKind} :
    isPermutation kinds = true ↔ kinds.Perm EffectKind.all := by
  rw [isPermutation, Bool.and_eq_true, beq_iff_eq, eachNew_iff, perm_all_iff]
  simp

def ofList? (kinds : List EffectKind) : Option EffectOrder :=
  if h : isPermutation kinds then some ⟨kinds, isPermutation_iff.mp h⟩ else none

theorem ofList?_eq_some_iff {kinds : List EffectKind} {order : EffectOrder} :
    ofList? kinds = some order ↔ kinds = order.kinds := by
  unfold ofList?
  constructor
  · intro h
    split at h
    · simpa using congrArg (fun o => o.map EffectOrder.kinds) h
    · simp at h
  · rintro rfl
    simp [isPermutation_iff.mpr order.complete]

/-- A word with one more kind in it; each place has four bits, the first one the lowest. -/
def write (word : UInt64) (kind : EffectKind) (place : Nat) : UInt64 :=
  word ||| UInt64.ofNat kind.index <<< UInt64.ofNat (4 * place)

def packed (kinds : List EffectKind) : UInt64 :=
  kinds.zipIdx.foldl (fun word (kind, place) => write word kind place) 0

def pack (order : EffectOrder) : UInt64 :=
  packed order.kinds

/-- The kinds that the lowest `count` places of a word name.  A place that names no effect, or one
that was seen before, spoils the word. -/
def kindsOf? : Nat → List EffectKind → UInt64 → Option (List EffectKind)
  | 0, _, _ => some []
  | count + 1, seen, word => do
    let kind ← EffectKind.ofIndex? (word &&& 0xf).toNat
    if kind ∈ seen then none
    else return kind :: (← kindsOf? count (kind :: seen) (word >>> 4))

theorem kindsOf?_succ_eq_some_iff {count : Nat} {seen kinds : List EffectKind} {word : UInt64} :
    kindsOf? (count + 1) seen word = some kinds ↔
      ∃ kind rest, kinds = kind :: rest ∧ EffectKind.ofIndex? (word &&& 0xf).toNat = some kind ∧
        kind ∉ seen ∧ kindsOf? count (kind :: seen) (word >>> 4) = some rest := by
  rw [kindsOf?]
  cases EffectKind.ofIndex? (word &&& 0xf).toNat with
  | none => simp
  | some kind =>
      by_cases h : kind ∈ seen
      · simp only [Option.bind_eq_bind, Option.bind_some, if_pos h]
        grind
      · simp only [Option.bind_eq_bind, Option.bind_some, if_neg h, Option.bind_eq_some_iff]
        grind

theorem eachNew_of_kindsOf? {count : Nat} {seen kinds : List EffectKind} {word : UInt64}
    (h : kindsOf? count seen word = some kinds) :
    kinds.length = count ∧ eachNew seen kinds = true := by
  induction count generalizing seen kinds word with
  | zero =>
      cases h
      exact ⟨rfl, rfl⟩
  | succ count ih =>
      obtain ⟨kind, rest, rfl, -, hnew, hrest⟩ := kindsOf?_succ_eq_some_iff.mp h
      obtain ⟨hlength, hothers⟩ := ih hrest
      simp [eachNew, hlength, hnew, hothers]

/-- Reads a word; the bits above the ten places do not count. -/
def unpack? (word : UInt64) : Option EffectOrder :=
  (kindsOf? EffectKind.all.length [] word).pmap EffectOrder.mk fun kinds h =>
    isPermutation_iff.mp (by simp [isPermutation, eachNew_of_kindsOf? h])

end EffectOrder

end Multisample
