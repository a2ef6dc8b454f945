import Mathlib.Data.Nat.Notation
import Multisample.Script.Heap

/-!
# Tables as maps

The order of values compares what makes values equal as keys, rank by rank.  So
it is an order, and a table is a map: what is stored under a key is found there,
and storage that is laid out anew leaves every look-up alone.
-/

namespace Multisample

/-! ## The order of values -/

namespace Bytes

theorem compare_byte_then (x y : UInt8) (o : Ordering) :
    (Ord.compare x y).then o = if x = y then o else if x < y then .lt else .gt := by
  change (compareOfLessAndEq x y).then o = _
  rw [compareOfLessAndEq]
  by_cases hlt : x < y
  · have hne : x ≠ y := fun h => UInt8.lt_irrefl y (h ▸ hlt)
    rw [if_pos hlt, if_neg hne, if_pos hlt]
    rfl
  · by_cases heq : x = y
    · rw [if_neg hlt, if_pos heq, if_pos heq]
      rfl
    · rw [if_neg hlt, if_neg heq, if_neg heq, if_neg hlt]
      rfl

theorem compareFrom_eq (a b : Bytes) (fuel i : ℕ) (h : max a.size b.size ≤ i + fuel) :
    compareFrom a b fuel i = Ord.compare (a.data.toList.drop i) (b.data.toList.drop i) := by
  have hnil : ∀ c : Bytes, ∀ j, c.size ≤ j → c.data.toList.drop j = [] :=
    fun c j hj => List.drop_of_length_le hj
  have hcons : ∀ c : Bytes, ∀ j, j < c.size →
      c.data.toList.drop j = c.byteAt j :: c.data.toList.drop (j + 1) := by
    intro c j hj
    rw [byteAt, dif_pos hj]
    exact List.drop_eq_getElem_cons hj
  induction fuel generalizing i with
  | zero =>
      rw [hnil a i (by omega), hnil b i (by omega)]
      rfl
  | succ fuel ih =>
      rw [compareFrom]
      by_cases ha : i < a.size <;> by_cases hb : i < b.size
      · rw [if_pos ha, if_pos hb, hcons a i ha, hcons b i hb, List.compare_cons_cons,
          compare_byte_then, ih (i + 1) (by omega)]
      · rw [if_pos ha, if_neg hb, hcons a i ha, hnil b i (by omega)]
        rfl
      · rw [if_neg ha, if_pos hb, hcons b i hb, hnil a i (by omega)]
        rfl
      · rw [if_neg ha, if_neg hb, hnil a i (by omega), hnil b i (by omega)]
        rfl

theorem compare_eq (a b : Bytes) : compare a b = Ord.compare a.data.toList b.data.toList :=
  compareFrom_eq a b _ 0 (by simp)

end Bytes

namespace Script

namespace Value

/-- What numbers are compared by. -/
def digits : Value → UInt64
  | number (.int n) => (n - 1).toUInt64
  | number (.float x) => x.toBits
  | _ => 0

def letters : Value → List UInt8
  | text b => b.data.toList
  | _ => []

def words : Value → String
  | failure message => message
  | foreign type => type
  | _ => ""

def flag : Value → Bool
  | bool b => b
  | _ => false

/-- What tables, functions and handles are compared by. -/
def identity : Value → ℕ × Option ℕ
  | table id | closure id _ _ => (id, none)
  | builtin id state => (id, state)
  | handle h => ((handleCode h).1, some (handleCode h).2)
  | _ => (0, none)

theorem order_eq (a b : Value) :
    order a b = (compare a.rank b.rank).then ((compare a.digits b.digits).then
      ((compare a.letters b.letters).then ((compare a.words b.words).then
        ((compare a.flag b.flag).then ((compare a.identity.1 b.identity.1).then
          (compare a.identity.2 b.identity.2)))))) := by
  -- Off the diagonal the ranks decide; on it all codes but those of the kind are the same.
  rcases a with _ | _ | (_ | _) | _ | _ | _ | _ | _ | _ | _ <;>
    rcases b with _ | _ | (_ | _) | _ | _ | _ | _ | _ | _ | _ <;>
      first
      | rfl
      | simp [order, rank, digits, letters, words, flag, identity, Bytes.compare_eq]

instance : Std.TransCmp order := by
  have h : order = compareLex (compareOn rank) (compareLex (compareOn digits)
      (compareLex (compareOn letters) (compareLex (compareOn words) (compareLex (compareOn flag)
        (compareLex (compareOn fun v => v.identity.1) (compareOn fun v => v.identity.2)))))) :=
    funext fun a => funext fun b => order_eq a b
  rw [h]
  infer_instance

/-! ## Keys -/

theorem isNil_eq_false_iff {v : Value} : v.isNil = false ↔ v ≠ nil := by
  cases v <;> simp [isNil]

theorem key?_of_key? {k j : Value} (h : k.key? = some j) : j.key? = some j := by
  cases k with
  | nil => cases h
  | number n =>
      cases n with
      | int n =>
          cases h
          rfl
      | float x =>
          simp only [key?] at h
          split at h
          · cases h
            rfl
          · rename_i hwhole
            split at h
            · cases h
            · rename_i hnumber
              cases h
              simp only [float, key?, hwhole, hnumber]
              rfl
  | _ =>
      cases h
      rfl

/-- The value reads, as a key, what is stored under the other one.  The two need not be equal:
functions are stored under their identity, floats under their bits. -/
def Reads (k stored : Value) : Prop :=
  ∃ j, k.key? = some j ∧ order j stored = .eq

theorem reads_self {k : Value} (h : k.key? = some k) : k.Reads k :=
  ⟨k, h, Std.ReflCmp.compare_self⟩

theorem Reads.reads_stored {k a b : Value} (ha : k.Reads a) (hb : k.Reads b)
    (hkey : a.key? = some a) : a.Reads b := by
  obtain ⟨i, hi, ha⟩ := ha
  obtain ⟨j, hj, hb⟩ := hb
  cases hi.symm.trans hj
  exact ⟨a, hkey, Std.TransCmp.eq_trans (Std.OrientedCmp.eq_symm ha) hb⟩

theorem Reads.order_eq {a b : Value} (hb : a.Reads b) (hkey : a.key? = some a) :
    order b a = .eq := by
  obtain ⟨j, hj, horder⟩ := hb
  cases hkey.symm.trans hj
  exact Std.OrientedCmp.eq_symm horder

end Value

/-! ## Entries -/

namespace Table

variable {t : Table} {a k v : Value} {e : Value × Value}

theorem mem_toList :
    e ∈ t.toList ↔
      (t.entries.getKey? e.1 = some e.1 ∧ t.entries[e.1]? = some e.2) ∧ e.2 ≠ .nil := by
  rw [toList, List.mem_filter, Std.TreeMap.mem_toList_iff_getKey?_eq_some_and_getElem?_eq_some,
    ← Value.isNil_eq_false_iff, Bool.not_eq_true']

theorem get_of_mem (he : e ∈ t.toList) (hk : k.Reads e.1) : t.get k = e.2 := by
  obtain ⟨j, hj, horder⟩ := hk
  rw [get, hj]
  show t.entries.getD j .nil = e.2
  rw [Std.TreeMap.getD_congr horder, Std.TreeMap.getD_eq_getD_getElem?, (mem_toList.mp he).1.2]
  rfl

theorem exists_mem_of_get (h : t.get k ≠ .nil) : ∃ e ∈ t.toList, k.Reads e.1 := by
  unfold get at h
  split at h
  · rename_i j hj
    rw [Std.TreeMap.getD_eq_getD_getElem?] at h
    cases hfound : t.entries[j]? with
    | none =>
        rw [hfound] at h
        exact absurd rfl h
    | some v =>
        rw [hfound] at h
        have hmem : j ∈ t.entries := by
          rw [Std.TreeMap.mem_iff_isSome_getElem?, hfound]
          rfl
        have horder : Value.order (t.entries.getKey j hmem) j = .eq :=
          Std.TreeMap.compare_getKey_self hmem
        refine ⟨(t.entries.getKey j hmem, v), mem_toList.mpr ⟨⟨?_, ?_⟩, h⟩, j, hj,
          Std.OrientedCmp.eq_symm horder⟩
        · rw [Std.TreeMap.getKey?_congr horder, Std.TreeMap.getKey?_eq_some_getKey hmem]
        · rw [Std.TreeMap.getElem?_congr horder, hfound]
  · exact absurd rfl h

theorem distinct_keys : t.toList.Pairwise fun d e => ¬ Value.order d.1 e.1 = .eq :=
  Std.TreeMap.distinct_keys_toList.filter _

/-! ## Storing -/

theorem entries_makeRoom (t : Table) (k : Value) :
    (t.makeRoom k).entries = t.entries ∨
      (t.makeRoom k).entries = t.entries.filter fun _ v => !v.isNil := by
  unfold makeRoom
  split
  · exact Or.inl rfl
  · split
    · exact Or.inl rfl
    · exact Or.inr rfl

theorem metatable_makeRoom (t : Table) (k : Value) : (t.makeRoom k).metatable = t.metatable := by
  unfold makeRoom
  split
  · rfl
  · split <;> rfl

theorem getD_makeRoom : (t.makeRoom a).entries.getD k .nil = t.entries.getD k .nil := by
  rcases entries_makeRoom t a with h | h
  · rw [h]
  · rw [h, Std.TreeMap.getD_filter, Std.TreeMap.getD_eq_getD_getElem?]
    cases t.entries[k]? with
    | none => rfl
    | some v => cases v <;> rfl

theorem toList_makeRoom : (t.makeRoom a).toList = t.toList := by
  rcases entries_makeRoom t a with h | h
  · rw [toList, h, toList]
  · rw [toList, h, Std.TreeMap.toList_filter, List.filter_filter, toList]
    simp only [Bool.and_self]

/-- Storing replaces an entry once there is room for it, but nil is not stored where nothing is. -/
theorem set_eq (t : Table) (a v : Value) :
    t.set a v = t ∧ t.entries.contains a = false ∧ v = .nil ∨
      ∃ room : Table, t.set a v = set.replace room a v ∧ room.metatable = t.metatable ∧
        room.toList = t.toList ∧
          ∀ j, room.entries.getD j .nil = t.entries.getD j .nil := by
  unfold set
  split
  · exact Or.inr ⟨t, rfl, rfl, rfl, fun _ => rfl⟩
  · rename_i hcontains
    split
    · rename_i hnil
      cases v with
      | nil => exact Or.inl ⟨rfl, Bool.eq_false_iff.mpr hcontains, rfl⟩
      | _ => cases hnil
    · exact Or.inr ⟨t.makeRoom a, rfl, metatable_makeRoom t a, toList_makeRoom,
        fun _ => getD_makeRoom⟩

theorem getD_set (j : Value) :
    (t.set a v).entries.getD j .nil =
      if Value.order a j = .eq then v else t.entries.getD j .nil := by
  obtain ⟨h, hcontains, rfl⟩ | ⟨room, h, -, -, hroom⟩ := set_eq t a v
  · rw [h]
    split
    · rename_i horder
      rw [← Std.TreeMap.getD_congr horder,
        Std.TreeMap.getD_eq_fallback_of_contains_eq_false hcontains]
    · rfl
  · rw [h, ← hroom j]
    exact Std.TreeMap.getD_insert

theorem get_set_of_reads (h : k.Reads a) : (t.set a v).get k = v := by
  obtain ⟨j, hj, horder⟩ := h
  rw [get, hj]
  show (t.set a v).entries.getD j .nil = v
  rw [getD_set, if_pos (Std.OrientedCmp.eq_symm horder)]

theorem get_set_of_not_reads (h : ¬ k.Reads a) : (t.set a v).get k = t.get k := by
  unfold get
  split
  · rename_i j hj
    rw [getD_set, if_neg fun horder => h ⟨j, hj, Std.OrientedCmp.eq_symm horder⟩]
  · rfl

theorem mem_toList_set (h : e ∈ (t.set a v).toList) : e = (a, v) ∨ e ∈ t.toList := by
  obtain ⟨hset, -, -⟩ | ⟨room, hset, -, hroom, -⟩ := set_eq t a v
  · rw [hset] at h
    exact Or.inr h
  · rw [hset, mem_toList] at h
    obtain ⟨⟨hkey, hvalue⟩, hnil⟩ := h
    simp only [set.replace, Std.TreeMap.getKey?_insert, Std.TreeMap.getElem?_insert] at hkey hvalue
    split at hkey
    · rename_i horder
      rw [if_pos horder] at hvalue
      exact Or.inl (Prod.ext (Option.some.inj hkey).symm (Option.some.inj hvalue).symm)
    · rename_i horder
      rw [if_neg horder] at hvalue
      rw [← hroom]
      exact Or.inr (mem_toList.mpr ⟨⟨hkey, hvalue⟩, hnil⟩)

@[simp] theorem metatable_set : (t.set a v).metatable = t.metatable := by
  obtain ⟨h, -⟩ | ⟨room, h, hmetatable, -⟩ := set_eq t a v
  · rw [h]
  · rw [h]
    exact hmetatable

@[simp] theorem get_empty (k : Value) : ({} : Table).get k = .nil := by
  unfold get
  split
  · exact Std.TreeMap.getD_emptyc
  · rfl

theorem get_congr (h : k.Reads a) (ha : a.key? = some a) : t.get k = t.get a := by
  obtain ⟨j, hj, horder⟩ := h
  rw [get, get, hj, ha]
  exact Std.TreeMap.getD_congr horder

end Table

/-! ## The heap -/

namespace Heap

variable {h : Heap} {n r : ℕ} {a v : Value}

@[simp] theorem table_size (h : Heap) : h.table h.tables.size = {} := by
  rw [table, Array.getD_eq_getD_getElem?, Array.getElem?_size]
  rfl

@[simp] theorem table_newTable : h.newTable.1.table n = h.table n := by
  simp only [newTable, add, table, Array.getD_eq_getD_getElem?, Array.getElem?_push]
  split
  · rename_i hn
    rw [hn, Array.getElem?_size]
    rfl
  · rfl

@[simp] theorem size_newTable : h.newTable.1.tables.size = h.tables.size + 1 :=
  Array.size_push _

@[simp] theorem size_set : (h.set r a v).tables.size = h.tables.size :=
  Array.size_modify

theorem table_set (hr : r < h.tables.size) : (h.set r a v).table r = (h.table r).set a v := by
  simp only [set, modify, table, Array.getD_eq_getD_getElem?, Array.getElem?_modify, if_true,
    Array.getElem?_eq_getElem hr]
  rfl

theorem table_set_of_ne (hn : n ≠ r) : (h.set r a v).table n = h.table n := by
  simp only [set, modify, table, Array.getD_eq_getD_getElem?, Array.getElem?_modify,
    if_neg hn.symm]

/-- What is stored in tables are keys that look-ups find, and no tables but those of the heap. -/
structure Sound (h : Heap) : Prop where
  keys : ∀ n, ∀ e ∈ (h.table n).toList, e.1.key? = some e.1
  tables : ∀ n, ∀ e ∈ (h.table n).toList, ∀ m, e.2 = .table m → m < h.tables.size

theorem exists_mem_of_get {k : Value} (hk : h.get n k = v) (hv : v ≠ .nil) :
    ∃ e ∈ (h.table n).toList, e.2 = v := by
  obtain ⟨e, he, hreads⟩ := Table.exists_mem_of_get fun hnil => hv (hk.symm.trans hnil)
  exact ⟨e, he, (Table.get_of_mem he hreads).symm.trans hk⟩

theorem Sound.lt_of_get (hs : h.Sound) {k : Value} {m : ℕ} (hk : h.get n k = .table m) :
    m < h.tables.size := by
  obtain ⟨e, he, hvalue⟩ := exists_mem_of_get hk nofun
  exact hs.tables n e he m hvalue

theorem sound_newTable (hs : h.Sound) : h.newTable.1.Sound where
  keys n e he := hs.keys n e (by rwa [table_newTable] at he)
  tables n e he m hm := by
    rw [table_newTable] at he
    rw [size_newTable]
    exact Nat.lt_succ_of_lt (hs.tables n e he m hm)

/-- Storing under what a value is as a key keeps a heap sound. -/
theorem Sound.set (hs : h.Sound) (hr : r < h.tables.size) {k : Value} (hk : k.key? = some a)
    (hv : ∀ m, v = .table m → m < h.tables.size) : (h.set r a v).Sound := by
  have hmem : ∀ n, ∀ e ∈ ((h.set r a v).table n).toList, e = (a, v) ∨ e ∈ (h.table n).toList := by
    intro n e he
    by_cases hn : n = r
    · subst hn
      rw [table_set hr] at he
      exact Table.mem_toList_set he
    · rw [table_set_of_ne hn] at he
      exact Or.inr he
  constructor
  · intro n e he
    obtain rfl | he := hmem n e he
    · exact Value.key?_of_key? hk
    · exact hs.keys n e he
  · intro n e he m hm
    rw [size_set]
    obtain rfl | he := hmem n e he
    · exact hv m hm
    · exact hs.tables n e he m hm

end Heap

end Script

end Multisample
