import Multisample.Proofs.Script.Tables

/-!
# Merged tables

Tables may share tables and lead back to themselves, so a table is read here only
through look-ups, in the heap it stands in.  A copy and a merge are relations
between what is read before and what is read after; both ask that every table of
the result is a new one.  A merge succeeds if neither table leads on by more steps
than there are levels, since every step of the recursion is one step along a key.
-/

namespace Multisample.Script

namespace Heap

variable {g h later after : Heap} {depth first start id base result : ℕ} {u v w : Value}

/-! ## Depth -/

/-- A table is reached from another one by so many steps along keys. -/
inductive Leads (h : Heap) : ℕ → ℕ → ℕ → Prop where
  | here (id : ℕ) : Leads h id 0 id
  | step {id next last steps : ℕ} {k : Value} (hk : h.get id k = .table next)
      (hnext : Leads h next steps last) : Leads h id (steps + 1) last

/-- No table is reached by as many steps as there are levels. -/
def Shallow (h : Heap) (depth id : ℕ) : Prop :=
  ∀ steps last, h.Leads id steps last → steps < depth

/-- Tables nested as a value are shallow. -/
def Fits (h : Heap) (depth : ℕ) (v : Value) : Prop :=
  ∀ id, v = .table id → h.Shallow depth id

theorem not_shallow_zero (h : Heap) (id : ℕ) : ¬ h.Shallow 0 id :=
  fun hs => absurd (hs 0 id (.here id)) (Nat.lt_irrefl 0)

theorem shallow_succ : h.Shallow (depth + 1) id ↔ ∀ k, h.Fits depth (h.get id k) := by
  constructor
  · intro hs k next hk steps last hnext
    exact Nat.lt_of_succ_lt_succ (hs _ last (.step hk hnext))
  · intro hs steps last hleads
    cases hleads with
    | here => exact Nat.succ_pos depth
    | step hk hnext => exact Nat.succ_lt_succ (hs _ _ hk _ last hnext)

/-! ## Copies and merges -/

/-- A table that was made behind the first ones, without a metatable. -/
structure IsNew (h : Heap) (first id : ℕ) : Prop where
  notBefore : first ≤ id
  isTable : id < h.tables.size
  noMetatable : (h.table id).metatable = none

/-- What is read in a heap is, in a later one, deeply copied: each table by a new one. -/
inductive IsCopy (h later : Heap) (first : ℕ) : Value → Value → Prop where
  | plain {v : Value} (hv : ∀ id, v ≠ .table id) : IsCopy h later first v v
  | table {id copy : ℕ} (hnew : later.IsNew first copy)
      (hentries : ∀ k, IsCopy h later first (h.get id k) (later.get copy k)) :
      IsCopy h later first (.table id) (.table copy)

/-- The deep merge of two values: entry by entry if both are tables, else a copy of
the upper one if there is one, else of the base. -/
inductive IsMerge (h later : Heap) (first : ℕ) : Value → Value → Value → Prop where
  | both {base upper merged : ℕ} (hnew : later.IsNew first merged)
      (hentries : ∀ k, IsMerge h later first (h.get base k) (h.get upper k) (later.get merged k)) :
      IsMerge h later first (.table base) (.table upper) (.table merged)
  | upper {v u w : Value} (hu : u ≠ .nil)
      (hboth : ∀ id, v = .table id → ∀ other, u ≠ .table other)
      (hcopy : IsCopy h later first u w) : IsMerge h later first v u w
  | base {v w : Value} (hcopy : IsCopy h later first v w) : IsMerge h later first v .nil w

theorem IsCopy.isNew (hc : IsCopy h later first v (.table id)) : later.IsNew first id := by
  cases hc with
  | plain hv => exact absurd rfl (hv id)
  | table hnew => exact hnew

theorem IsMerge.isNew (hm : IsMerge h later first v u (.table id)) : later.IsNew first id := by
  cases hm with
  | both hnew => exact hnew
  | upper _ _ hcopy => exact hcopy.isNew
  | base hcopy => exact hcopy.isNew

theorem IsMerge.of_tables {upper : ℕ} (hm : IsMerge h later first (.table base) (.table upper) w) :
    ∃ merged, w = .table merged ∧ later.IsNew first merged ∧
      ∀ k, IsMerge h later first (h.get base k) (h.get upper k) (later.get merged k) := by
  cases hm with
  | both hnew hentries => exact ⟨_, rfl, hnew, hentries⟩
  | upper _ hboth => exact absurd rfl (hboth base rfl upper)

theorem IsMerge.eq_upper (hm : IsMerge h later first v u w) (hnil : u ≠ .nil)
    (hplain : ∀ id, u ≠ .table id) : w = u := by
  cases hm with
  | both => exact absurd rfl (hplain _)
  | upper _ _ hcopy =>
      cases hcopy with
      | plain => rfl
      | table => exact absurd rfl (hplain _)
  | base => exact absurd rfl hnil

theorem isMerge_nil : IsMerge h later first v .nil w ↔ IsCopy h later first v w := by
  constructor
  · intro hm
    cases hm with
    | upper hu => exact absurd rfl hu
    | base hcopy => exact hcopy
  · exact .base

theorem isCopy_of_isMerge_nil (hm : IsMerge h later first .nil v w) : IsCopy h later first v w := by
  cases hm with
  | upper _ _ hcopy => exact hcopy
  | base hcopy => exact hcopy

/-! ## Heaps that keep tables -/

/-- Tables of a kind stay as they are, while others may be changed and new ones made. -/
structure Keeps (g later : Heap) (kind : ℕ → Prop) : Prop where
  size : g.tables.size ≤ later.tables.size
  limit : later.limit = g.limit
  table : ∀ id < g.tables.size, kind id → later.table id = g.table id

theorem Keeps.trans {kind : ℕ → Prop} (hg : g.Keeps h kind) (hh : h.Keeps later kind) :
    g.Keeps later kind where
  size := Nat.le_trans hg.size hh.size
  limit := hh.limit.trans hg.limit
  table id hid hkind :=
    (hh.table id (Nat.lt_of_lt_of_le hid hg.size) hkind).trans (hg.table id hid hkind)

theorem Keeps.imp {kind other : ℕ → Prop} (hg : g.Keeps h kind)
    (hkind : ∀ id < g.tables.size, other id → kind id) : g.Keeps h other :=
  ⟨hg.size, hg.limit, fun id hid hother => hg.table id hid (hkind id hid hother)⟩

theorem keeps_self (h : Heap) (kind : ℕ → Prop) : h.Keeps h kind :=
  ⟨Nat.le_refl _, rfl, fun _ _ _ => rfl⟩

theorem keeps_newTable (h : Heap) : h.Keeps h.newTable.1 fun _ => True :=
  ⟨by rw [size_newTable]; exact Nat.le_succ _, rfl, fun _ _ _ => table_newTable⟩

theorem keeps_set (h : Heap) (result : ℕ) (k v : Value) :
    h.Keeps (h.set result k v) fun id => id ≠ result :=
  ⟨Nat.le_of_eq size_set.symm, rfl, fun _ _ hne => table_set_of_ne hne⟩

theorem Keeps.get {kind : ℕ → Prop} (hk : g.Keeps h kind) (hid : id < g.tables.size)
    (hkind : kind id) (k : Value) : h.get id k = g.get id k := by
  rw [Heap.get, hk.table id hid hkind, Heap.get]

/-- A relation between what is read in two heaps under which tables correspond entry by
entry. -/
def Likeness (g h : Heap) (R : Value → Value → Prop) : Prop :=
  ∀ v w, R v w → (v = w ∧ ∀ id, w ≠ .table id) ∨
    ∃ id other, v = .table id ∧ w = .table other ∧ ∀ k, R (g.get id k) (h.get other k)

theorem likeness_eq (h : Heap) : Likeness h h Eq := by
  rintro v _ rfl
  cases v with
  | table id => exact Or.inr ⟨id, id, rfl, rfl, fun _ => rfl⟩
  | _ => exact Or.inl ⟨rfl, nofun⟩

theorem likeness_isCopy : Likeness h later (IsCopy h later first) := by
  intro v w hc
  cases hc with
  | plain hv => exact Or.inl ⟨rfl, hv⟩
  | table _ hentries => exact Or.inr ⟨_, _, rfl, rfl, hentries⟩

/-- The same value, read from the tables that a heap had before. -/
def IsOld (h : Heap) (v w : Value) : Prop :=
  v = w ∧ ∀ id, w = .table id → id < h.tables.size

theorem Keeps.likeness_isOld (hs : h.Sound) (hk : h.Keeps g fun _ => True) :
    Likeness h g h.IsOld := by
  rintro v _ ⟨rfl, hold⟩
  cases v with
  | table id =>
      refine Or.inr ⟨id, id, rfl, rfl, fun k => ?_⟩
      rw [hk.get (hold id rfl) trivial]
      exact ⟨rfl, fun next hnext => hs.lt_of_get hnext⟩
  | _ => exact Or.inl ⟨rfl, nofun⟩

section likeness

variable {R : Value → Value → Prop} (hR : Likeness g h R)

include hR

theorem Likeness.symm : Likeness h g fun w v => R v w := by
  intro w v hv
  obtain ⟨rfl, hplain⟩ | ⟨id, other, rfl, rfl, hentries⟩ := hR _ _ hv
  · exact Or.inl ⟨rfl, hplain⟩
  · exact Or.inr ⟨other, id, rfl, rfl, hentries⟩

theorem Likeness.table_left {id : ℕ} (hv : R (.table id) w) :
    ∃ other, w = .table other ∧ ∀ k, R (g.get id k) (h.get other k) := by
  obtain ⟨rfl, hplain⟩ | ⟨_, other, hid, hw, hentries⟩ := hR _ _ hv
  · exact absurd rfl (hplain id)
  · cases hid
    exact ⟨other, hw, hentries⟩

theorem Likeness.table_right {other : ℕ} (hv : R v (.table other)) :
    ∃ id, v = .table id ∧ ∀ k, R (g.get id k) (h.get other k) :=
  hR.symm.table_left hv

theorem Likeness.eq_of_plain (hv : R v w) (hplain : ∀ id, v ≠ .table id) : v = w := by
  obtain ⟨heq, -⟩ | ⟨id, -, hid, -⟩ := hR _ _ hv
  · exact heq
  · exact absurd hid (hplain id)

theorem Likeness.eq_of_plain_right (hv : R v w) (hplain : ∀ id, w ≠ .table id) : v = w :=
  (hR.symm.eq_of_plain hv hplain).symm

theorem Likeness.fits_of_fits (hv : R v w) (hf : g.Fits depth v) : h.Fits depth w := by
  induction depth generalizing v w with
  | zero =>
      rintro other rfl
      obtain ⟨id, rfl, -⟩ := hR.table_right hv
      exact absurd (hf id rfl) (not_shallow_zero g id)
  | succ depth ih =>
      rintro other rfl
      obtain ⟨id, rfl, hentries⟩ := hR.table_right hv
      exact shallow_succ.mpr fun k => ih (hentries k) (shallow_succ.mp (hf id rfl) k)

theorem Likeness.fits (hv : R v w) : g.Fits depth v ↔ h.Fits depth w :=
  ⟨hR.fits_of_fits hv, hR.symm.fits_of_fits hv⟩

end likeness

theorem IsNew.of_keeps (hn : later.IsNew first id) (hk : later.Keeps after fun id => first ≤ id)
    (hstart : start ≤ first) : after.IsNew start id where
  notBefore := Nat.le_trans hstart hn.notBefore
  isTable := Nat.lt_of_lt_of_le hn.isTable hk.size
  noMetatable := by rw [hk.table id hn.isTable hn.notBefore, hn.noMetatable]

section moved

variable {R S : Value → Value → Prop} (hR : Likeness g h R) (hS : Likeness g h S)
  (hk : later.Keeps after fun id => first ≤ id) (hstart : start ≤ first)

include hR hk hstart

theorem IsCopy.moved (hc : IsCopy h later first v w) (hv : R u v) : IsCopy g after start u w := by
  induction hc generalizing u with
  | plain hplain =>
      rw [hR.eq_of_plain_right hv hplain]
      exact .plain hplain
  | table hnew hentries ih =>
      obtain ⟨id, rfl, hlike⟩ := hR.table_right hv
      refine .table (hnew.of_keeps hk hstart) fun k => ?_
      rw [hk.get hnew.isTable hnew.notBefore]
      exact ih k (hlike k)

include hS

theorem IsMerge.moved {x y : Value} (hm : IsMerge h later first v u w) (hv : R x v)
    (hu : S y u) : IsMerge g after start x y w := by
  induction hm generalizing x y with
  | both hnew hentries ih =>
      obtain ⟨base, rfl, hbase⟩ := hR.table_right hv
      obtain ⟨upper, rfl, hupper⟩ := hS.table_right hu
      refine .both (hnew.of_keeps hk hstart) fun k => ?_
      rw [hk.get hnew.isTable hnew.notBefore]
      exact ih k (hbase k) (hupper k)
  | upper hnil hboth hcopy =>
      refine .upper ?_ ?_ (hcopy.moved hS hk hstart hu)
      · rintro rfl
        exact hnil (hS.eq_of_plain hu nofun).symm
      · rintro base rfl upper rfl
        obtain ⟨other, rfl, -⟩ := hR.table_left hv
        obtain ⟨above, rfl, -⟩ := hS.table_left hu
        exact hboth other rfl above rfl
  | base hcopy =>
      rw [hS.eq_of_plain_right hu nofun]
      exact .base (hcopy.moved hR hk hstart hv)

end moved

/-! ## The rounds of a merge -/

/-- Puts an entry of the base into the result. -/
def copyEntry (depth result : ℕ) (h : Heap) (entry : Value × Value) : Except MergeFault Heap := do
  match entry.2 with
  | .table nested =>
    let (h, copy) ← extend depth h nested none
    return h.set result entry.1 (.table copy)
  | v => return h.set result entry.1 v

/-- Lays an entry over those of the result. -/
def overlayEntry (depth result : ℕ) (h : Heap) (entry : Value × Value) :
    Except MergeFault Heap := do
  match h.get result entry.1, entry.2 with
  | .table existing, .table nested =>
    let (h, merged) ← extend depth h existing (some nested)
    return h.set result entry.1 (.table merged)
  | _, .table nested =>
    let (h, copy) ← extend depth h nested none
    return h.set result entry.1 (.table copy)
  | _, v => return h.set result entry.1 v

theorem extend_succ (depth : ℕ) (h : Heap) (base : ℕ) (upper : Option ℕ) :
    extend (depth + 1) h base upper =
      if h.newTable.1.isOver then .error .refused
      else do
        let later ← (h.newTable.1.table base).toList.foldlM (copyEntry depth h.tables.size)
          h.newTable.1
        match upper with
        | none => return (later, h.tables.size)
        | some upper =>
          return (← (later.table upper).toList.foldlM (overlayEntry depth h.tables.size) later,
            h.tables.size) := by
  rw [extend]
  rfl

/-- Where no table is laid over another one, an entry is copied. -/
theorem overlayEntry_eq_copyEntry {entry : Value × Value} (hboth : ∀ existing,
    h.get result entry.1 = .table existing → ∀ nested, entry.2 ≠ .table nested) :
    overlayEntry depth result h entry = copyEntry depth result h entry := by
  obtain ⟨k, v⟩ := entry
  cases hexisting : h.get result k with
  | table existing =>
      cases v with
      | table nested => exact absurd rfl (hboth existing hexisting nested)
      | _ => simp only [overlayEntry, copyEntry, hexisting]
  | _ => cases v <;> simp only [overlayEntry, copyEntry, hexisting]

theorem limit_of_isOver (hover : h.isOver = true) : h.limit ≠ 0 := by
  rw [isOver, Bool.and_eq_true] at hover
  exact bne_iff_ne.mp hover.1

/-- How merging concludes: well, because of tables too deep, or refused under a limit. -/
def Concludes {α : Type} (well : α → Prop) (deep limited : Prop) : Except MergeFault α → Prop
  | .ok a => well a
  | .error .tooDeep => deep
  | .error .refused => limited

section concludes

variable {α β : Type} {well : α → Prop} {good : β → Prop} {deep deeper limited : Prop}
  {x : Except MergeFault α}

theorem Concludes.bind (hx : Concludes well deep limited x) (hdeep : deep → deeper)
    {f : α → Except MergeFault β} (hf : ∀ a, well a → Concludes good deeper limited (f a)) :
    Concludes good deeper limited (x >>= f) := by
  cases x with
  | ok a => exact hf a hx
  | error e =>
      cases e with
      | tooDeep => exact hdeep hx
      | refused => exact hx

theorem Concludes.imp {good : α → Prop} (hx : Concludes well deep limited x)
    (hwell : ∀ a, well a → good a) (hdeep : deep → deeper) : Concludes good deeper limited x := by
  cases x with
  | ok a => exact hwell a hx
  | error e =>
      cases e with
      | tooDeep => exact hdeep hx
      | refused => exact hx

end concludes

/-- Two values are merged to a table in a later heap, which keeps the tables that were there. -/
structure Merged (h : Heap) (v u : Value) (later : Heap) (id : ℕ) : Prop where
  sound : later.Sound
  keeps : h.Keeps later fun _ => True
  isMerge : IsMerge h later h.tables.size v u (.table id)

/-- With so many levels, two tables, or one and none, are merged if they fit. -/
def MergesWithin (depth : ℕ) : Prop :=
  ∀ (h : Heap) (base : ℕ) (upper : Option ℕ), h.Sound → base < h.tables.size →
    (∀ id ∈ upper, id < h.tables.size) →
      Concludes
        (fun m => Merged h (.table base) (upper.elim .nil .table) m.1 m.2 ∧
          h.Fits depth (.table base) ∧ h.Fits depth (upper.elim .nil .table))
        (¬ (h.Fits depth (.table base) ∧ h.Fits depth (upper.elim .nil .table)))
        (h.limit ≠ 0) (extend depth h base upper)

/-- An entry of an old table that is laid next: under a key that none of those done is under. -/
structure Next (h : Heap) (done : List (Value × Value)) (e : Value × Value) : Prop where
  key : e.1.key? = some e.1
  unread : ∀ d ∈ done, ¬ e.1.Reads d.1
  value : e.2 ≠ .nil
  isOld : h.IsOld e.2 e.2

theorem next_of_toList (hs : h.Sound) {done rest : List (Value × Value)} {e : Value × Value}
    (hlist : (h.table id).toList = done ++ e :: rest) : h.Next done e := by
  have he : e ∈ (h.table id).toList := hlist ▸ List.mem_append_right done List.mem_cons_self
  have hkey := hs.keys id e he
  refine ⟨hkey, fun d hd hreads => ?_, (Table.mem_toList.mp he).2, rfl, hs.tables id e he⟩
  have hdistinct : (done ++ e :: rest).Pairwise fun d e => ¬ Value.order d.1 e.1 = .eq :=
    hlist ▸ Table.distinct_keys
  exact (List.pairwise_append.mp hdistinct).2.2 d hd e List.mem_cons_self (hreads.order_eq hkey)

/-- What laying out tables leaves, when the entries done are laid over those of `below`:
the old tables stay, and what is read in the result is merged as far as it is done. -/
structure Progress (h : Heap) (below : Table) (done : List (Value × Value)) (later : Heap) :
    Prop where
  sound : later.Sound
  keeps : h.Keeps later fun _ => True
  isNew : later.IsNew h.tables.size h.tables.size
  laid : ∀ e ∈ done, ∀ k, k.Reads e.1 →
    IsMerge h later (h.tables.size + 1) (below.get k) e.2 (later.get h.tables.size k)
  rest : ∀ k, (∀ e ∈ done, ¬ k.Reads e.1) →
    IsCopy h later (h.tables.size + 1) (below.get k) (later.get h.tables.size k)

section progress

variable {below t : Table} {done : List (Value × Value)} {e : Value × Value}

theorem progress_newTable (hs : h.Sound) : Progress h {} [] h.newTable.1 where
  sound := sound_newTable hs
  keeps := keeps_newTable h
  isNew := ⟨Nat.le_refl _, by rw [size_newTable]; exact Nat.lt_succ_self _, by
    rw [table_newTable, table_size]⟩
  laid _ he := absurd he List.not_mem_nil
  rest k _ := by
    rw [get, table_newTable, table_size, Table.get_empty]
    exact .plain nofun

/-- When all entries of a table are laid, every look-up is merged. -/
theorem Progress.whole (p : Progress h below t.toList later) (k : Value) :
    IsMerge h later (h.tables.size + 1) (below.get k) (t.get k) (later.get h.tables.size k) := by
  by_cases hnil : t.get k = .nil
  · rw [hnil]
    refine .base (p.rest k fun e he hreads => ?_)
    exact (Table.mem_toList.mp he).2 ((Table.get_of_mem he hreads).symm.trans hnil)
  · obtain ⟨e, he, hreads⟩ := Table.exists_mem_of_get hnil
    rw [Table.get_of_mem he hreads]
    exact p.laid e he k hreads

/-- What has been copied is what entries are laid over next. -/
theorem Progress.next (p : Progress h {} t.toList later) : Progress h t [] later where
  sound := p.sound
  keeps := p.keeps
  isNew := p.isNew
  laid _ he := absurd he List.not_mem_nil
  rest k _ := isCopy_of_isMerge_nil (Table.get_empty k ▸ p.whole k)

/-- An entry is put into the result, after new tables have been made for it. -/
theorem Progress.put (p : Progress h below done g) (hnext : h.Next done e)
    (hk : g.Keeps later fun _ => True) (hs : later.Sound)
    (hw : ∀ id, w = .table id → id < later.tables.size)
    (hm : IsMerge h later (h.tables.size + 1) (below.get e.1) e.2 w) :
    Progress h below (done ++ [e]) (later.set h.tables.size e.1 w) := by
  -- Only the result is changed, and what has been laid in it are tables behind it.
  have hresult : h.tables.size < later.tables.size := Nat.lt_of_lt_of_le p.isNew.isTable hk.size
  have hset := keeps_set later h.tables.size e.1 w
  have hlater : later.Keeps (later.set h.tables.size e.1 w) fun id => h.tables.size + 1 ≤ id :=
    hset.imp fun id _ hid => Nat.ne_of_gt hid
  have hboth : g.Keeps (later.set h.tables.size e.1 w) fun id => h.tables.size + 1 ≤ id :=
    (hk.imp fun _ _ _ => trivial).trans hlater
  have hread : ∀ k, k.Reads e.1 → (later.set h.tables.size e.1 w).get h.tables.size k = w :=
    fun k hreads => by rw [get, table_set hresult, Table.get_set_of_reads hreads]
  have hother : ∀ k, ¬ k.Reads e.1 →
      (later.set h.tables.size e.1 w).get h.tables.size k = g.get h.tables.size k := by
    intro k hreads
    rw [get, table_set hresult, Table.get_set_of_not_reads hreads]
    exact hk.get p.isNew.isTable trivial k
  constructor
  case sound => exact hs.set hresult hnext.key hw
  case keeps =>
    have hkept : h.Keeps (later.set h.tables.size e.1 w) fun id => id ≠ h.tables.size :=
      ((p.keeps.trans hk).imp fun _ _ _ => trivial).trans hset
    exact hkept.imp fun id hid _ => Nat.ne_of_lt hid
  case isNew =>
    refine ⟨Nat.le_refl _, by rwa [size_set], ?_⟩
    rw [table_set hresult, Table.metatable_set, hk.table _ p.isNew.isTable trivial]
    exact p.isNew.noMetatable
  case laid =>
    intro d hd k hreads
    rcases List.mem_append.mp hd with hd | hd
    · have hkey : ¬ k.Reads e.1 := fun hk =>
        hnext.unread d hd (hk.reads_stored hreads hnext.key)
      rw [hother k hkey]
      exact (p.laid d hd k hreads).moved (likeness_eq h) (likeness_eq h) hboth (Nat.le_refl _)
        rfl rfl
    · cases List.mem_singleton.mp hd
      rw [hread k hreads, Table.get_congr hreads hnext.key]
      exact hm.moved (likeness_eq h) (likeness_eq h) hlater (Nat.le_refl _) rfl rfl
  case rest =>
    intro k hnone
    rw [hother k (hnone e (List.mem_append_right _ (List.mem_singleton_self e)))]
    exact (p.rest k fun d hd => hnone d (List.mem_append_left _ hd)).moved (likeness_eq h) hboth
      (Nat.le_refl _) rfl

/-- A table made for an entry is put into the result. -/
theorem Progress.putTable (p : Progress h below done g) (hnext : h.Next done e) (hs : later.Sound)
    (hk : g.Keeps later fun _ => True)
    (hm : IsMerge h later (h.tables.size + 1) (below.get e.1) e.2 (.table id)) :
    Progress h below (done ++ [e]) (later.set h.tables.size e.1 (.table id)) :=
  p.put hnext hk hs (fun _ hw => Value.table.inj hw ▸ hm.isNew.isTable) hm

/-- An entry is copied into the result where no table is laid over another one. -/
theorem Progress.copy (p : Progress h below done g) (hs : h.Sound) (ih : MergesWithin depth)
    (hnext : h.Next done e)
    (hboth : ∀ id, below.get e.1 = .table id → ∀ other, e.2 ≠ .table other) :
    Concludes (fun later => Progress h below (done ++ [e]) later ∧ h.Fits depth e.2)
      (¬ h.Fits depth e.2) (h.limit ≠ 0) (copyEntry depth h.tables.size g e) := by
  have hfits : h.Fits depth e.2 ↔ g.Fits depth e.2 := (p.keeps.likeness_isOld hs).fits hnext.isOld
  have hlimit : g.limit = h.limit := p.keeps.limit
  obtain ⟨k, v⟩ := e
  cases v with
  | table nested =>
      have hnested : nested < g.tables.size :=
        Nat.lt_of_lt_of_le (hnext.isOld.2 nested rfl) p.keeps.size
      refine Concludes.bind (hlimit ▸ ih g nested none p.sound hnested nofun) ?_ ?_
      · intro hdeep hnested
        exact hdeep ⟨hfits.mp hnested, nofun⟩
      · rintro ⟨later, copy⟩ ⟨hm, hshallow, -⟩
        have hcopy := (isMerge_nil.mp hm.isMerge).moved (p.keeps.likeness_isOld hs)
          (keeps_self later _) (Nat.succ_le_of_lt p.isNew.isTable) hnext.isOld
        refine ⟨p.putTable hnext hm.sound hm.keeps ?_, hfits.mpr hshallow⟩
        exact .upper hnext.value hboth hcopy
  | _ =>
      refine ⟨p.put hnext (keeps_self g _) p.sound nofun ?_, nofun⟩
      exact .upper hnext.value hboth (.plain nofun)

/-- An entry is laid over the result. -/
theorem Progress.overlay (p : Progress h below done g) (hs : h.Sound) (ih : MergesWithin depth)
    (hnext : h.Next done e) (hbelow : h.Fits depth (below.get e.1)) :
    Concludes (fun later => Progress h below (done ++ [e]) later ∧ h.Fits depth e.2)
      (¬ h.Fits depth e.2) (h.limit ≠ 0) (overlayEntry depth h.tables.size g e) := by
  have hcopied := p.rest e.1 hnext.unread
  by_cases hboth : ∃ existing nested,
      g.get h.tables.size e.1 = .table existing ∧ e.2 = .table nested
  · obtain ⟨existing, nested, hexisting, hnested⟩ := hboth
    have hlike := p.keeps.likeness_isOld hs
    have hold := hnext.isOld
    have hnew : nested < g.tables.size :=
      Nat.lt_of_lt_of_le (hold.2 nested hnested) p.keeps.size
    have hlimit : g.limit = h.limit := p.keeps.limit
    rw [hexisting] at hcopied
    rw [hnested] at hold ⊢
    have hstep : overlayEntry depth h.tables.size g e = (do
        let (later, merged) ← extend depth g existing (some nested)
        return later.set h.tables.size e.1 (.table merged)) := by
      rw [overlayEntry, hexisting, hnested]
    rw [hstep]
    -- The table that is there is a copy made before, so it is as shallow as what lies below.
    refine Concludes.bind (hlimit ▸ ih g existing (some nested) p.sound hcopied.isNew.isTable
      fun id hid => Option.some.inj hid ▸ hnew) ?_ ?_
    · intro hdeep hfits
      exact hdeep ⟨(likeness_isCopy.fits hcopied).mp hbelow, (hlike.fits hold).mp hfits⟩
    · rintro ⟨later, merged⟩ ⟨hm, -, hfits⟩
      refine ⟨p.putTable hnext hm.sound hm.keeps ?_, (hlike.fits hold).mpr hfits⟩
      rw [hnested]
      exact hm.isMerge.moved likeness_isCopy hlike (keeps_self later _)
        (Nat.succ_le_of_lt p.isNew.isTable) hcopied hold
  · rw [overlayEntry_eq_copyEntry fun existing hexisting nested hnested =>
      hboth ⟨existing, nested, hexisting, hnested⟩]
    refine p.copy hs ih hnext fun id hid nested hnested => ?_
    obtain ⟨existing, hexisting, -⟩ := likeness_isCopy.table_left (hid ▸ hcopied)
    exact hboth ⟨existing, nested, hexisting, hnested⟩

/-- A table fits if the entries in it fit with a level less. -/
theorem Sound.fits_table (hs : h.Sound) :
    h.Fits (depth + 1) (.table id) ↔ ∀ e ∈ (h.table id).toList, h.Fits depth e.2 := by
  constructor
  · intro hfits e he
    have hget : h.get id e.1 = e.2 := Table.get_of_mem he (Value.reads_self (hs.keys id e he))
    exact hget ▸ shallow_succ.mp (hfits id rfl) e.1
  · rintro hentries _ ⟨⟩
    refine shallow_succ.mpr fun k next hk => ?_
    obtain ⟨e, he, hvalue⟩ := exists_mem_of_get hk nofun
    exact hentries e he next hvalue

section run

variable {step : Heap → Value × Value → Except MergeFault Heap} (hs : h.Sound)
  (hstep : ∀ done e g, h.Next done e → Progress h below done g →
    Concludes (fun later => Progress h below (done ++ [e]) later ∧ h.Fits depth e.2)
      (¬ h.Fits depth e.2) (h.limit ≠ 0) (step g e))

include hs hstep

/-- Entries are laid one by one, if a step lays one, whatever has been done before it. -/
theorem Progress.run {rest : List (Value × Value)} (hrest : (h.table id).toList = done ++ rest)
    (p : Progress h below done g) :
    Concludes
      (fun later => Progress h below (h.table id).toList later ∧ ∀ e ∈ rest, h.Fits depth e.2)
      (¬ ∀ e ∈ rest, h.Fits depth e.2) (h.limit ≠ 0) (rest.foldlM step g) := by
  induction rest generalizing done g with
  | nil =>
      rw [List.append_nil] at hrest
      exact ⟨hrest ▸ p, fun e he => absurd he List.not_mem_nil⟩
  | cons e rest ih =>
      rw [List.foldlM_cons]
      refine Concludes.bind (hstep done e g (next_of_toList hs hrest) p) ?_ ?_
      · exact fun hdeep hall => hdeep (hall e List.mem_cons_self)
      · rintro later ⟨hp, hfits⟩
        refine (ih (by rw [hrest, List.append_assoc, List.singleton_append]) hp).imp ?_ ?_
        · exact fun later hlater => ⟨hlater.1, List.forall_mem_cons.mpr ⟨hfits, hlater.2⟩⟩
        · exact fun hdeep hall => hdeep (List.forall_mem_cons.mp hall).2

theorem Progress.lay (p : Progress h below [] g) :
    Concludes
      (fun later => Progress h below (h.table id).toList later ∧ h.Fits (depth + 1) (.table id))
      (¬ h.Fits (depth + 1) (.table id)) (h.limit ≠ 0) ((h.table id).toList.foldlM step g) := by
  rw [hs.fits_table]
  exact p.run hs hstep (List.nil_append _).symm

end run

end progress

/-! ## Merging -/

/-- Merging goes as deep as there are levels, and every table of the result is new. -/
theorem mergesWithin (depth : ℕ) : MergesWithin depth := by
  induction depth with
  | zero =>
      intro h base upper _ _ _
      exact fun hfits => not_shallow_zero h base (hfits.1 base rfl)
  | succ depth ih =>
      intro h base upper hs hbase hupper
      rw [extend_succ]
      split
      · rename_i hover
        exact limit_of_isOver (h := h.newTable.1) hover
      · -- The base is laid over nothing, then the upper table over the base.
        rw [table_newTable]
        refine Concludes.bind ((progress_newTable hs).lay hs fun done e g hnext p =>
          p.copy hs ih hnext ?_) ?_ ?_
        · intro id hid
          rw [Table.get_empty] at hid
          exact nomatch hid
        · exact fun hdeep hfits => hdeep hfits.1
        · rintro copied ⟨p, hfits⟩
          have hkept := keeps_self copied fun id => h.tables.size + 1 ≤ id
          cases upper with
          | none =>
              refine ⟨⟨p.sound, p.keeps, .base (.table p.isNew fun k => ?_)⟩, hfits, nofun⟩
              have hcopy := p.next.rest k fun _ he => absurd he List.not_mem_nil
              exact hcopy.moved (likeness_eq h) hkept (Nat.le_succ _) rfl
          | some upper =>
              have hupper := hupper upper rfl
              dsimp only
              rw [p.keeps.table upper hupper trivial]
              refine Concludes.bind (p.next.lay hs fun done e g hnext q =>
                q.overlay hs ih hnext (shallow_succ.mp (hfits base rfl) e.1)) ?_ ?_
              · exact fun hdeep hfits => hdeep hfits.2
              · rintro later ⟨q, hover⟩
                refine ⟨⟨q.sound, q.keeps, .both q.isNew fun k => ?_⟩, hfits, hover⟩
                exact (q.whole k).moved (likeness_eq h) (likeness_eq h) (keeps_self later _)
                  (Nat.le_succ _) rfl rfl

end Heap

end Multisample.Script
