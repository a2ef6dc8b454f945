import Multisample.Proofs.Script.Records

/-!
# Demands in a row

Many things are demanded of a value at once, and it may miss several of them.  The
demands stand in one row, and each says which issue it is if it is not met.  A check
passes if all demands are met; else it ends with the issue of the first one that is
not.  Checks made one after the other are rows put behind each other.
-/

namespace Multisample.Script

/-! ## Demands -/

/-- Something that is demanded of a field, and the violations that its breach is
told as. -/
structure Demand where
  path : List String
  breach : Violation → Prop

namespace Demand

def Met (d : Demand) : Prop :=
  ∀ x, ¬ d.breach x

/-- The demand as seen from the record around. -/
def under (name : String) (d : Demand) : Demand :=
  { d with path := name :: d.path }

theorem met_under {name : String} {d : Demand} : (d.under name).Met ↔ d.Met := Iff.rfl

end Demand

/-- The issue tells the breach of the first demand that is not met. -/
def Issue.TellsFirst (i : Issue) (ds : List Demand) : Prop :=
  ∃ before d after, ds = before ++ d :: after ∧ (∀ earlier ∈ before, earlier.Met) ∧
    d.breach i.violation ∧ i.path = d.path

/-- A check passes if all demands are met, and else tells the first that is not. -/
def Judges {α : Type} (ds : List Demand) : Except Issue α → Prop
  | .ok _ => ∀ d ∈ ds, d.Met
  | .error i => i.TellsFirst ds

section judges

variable {α β : Type} {d : Demand} {ds es : List Demand}

theorem judges_nil (a : α) : Judges [] (.ok a : Except Issue α) :=
  fun _ hd => absurd hd List.not_mem_nil

theorem Judges.cons {r : Except Issue α} (h : Judges ds r) (hd : d.Met) : Judges (d :: ds) r := by
  cases r with
  | ok a => exact List.forall_mem_cons.mpr ⟨hd, h⟩
  | error i =>
      obtain ⟨before, e, after, rfl, hbefore, hbreach, hpath⟩ := h
      exact ⟨d :: before, e, after, rfl, List.forall_mem_cons.mpr ⟨hd, hbefore⟩, hbreach, hpath⟩

theorem judges_breach {i : Issue} (hbreach : d.breach i.violation) (hpath : i.path = d.path) :
    Judges (d :: ds) (.error i : Except Issue α) :=
  ⟨[], d, ds, rfl, nofun, hbreach, hpath⟩

/-- Demands are checked one after the other. -/
theorem Judges.bind {x : Except Issue α} (hx : Judges ds x) {f : α → Except Issue β}
    (hf : ∀ a, x = .ok a → Judges es (f a)) : Judges (ds ++ es) (x >>= f) := by
  cases x with
  | error i =>
      obtain ⟨before, d, after, rfl, hbefore, hbreach, hpath⟩ := hx
      exact ⟨before, d, after ++ es, by simp, hbefore, hbreach, hpath⟩
  | ok a =>
      have hrest := hf a rfl
      show Judges (ds ++ es) (f a)
      cases hfa : f a with
      | ok b =>
          rw [hfa] at hrest
          intro d hd
          exact (List.mem_append.mp hd).elim (hx d) (hrest d)
      | error i =>
          rw [hfa] at hrest
          obtain ⟨before, d, after, rfl, hbefore, hbreach, hpath⟩ := hrest
          refine ⟨ds ++ before, d, after, by simp, fun e he => ?_, hbreach, hpath⟩
          exact (List.mem_append.mp he).elim (hx e) (hbefore e)

theorem Judges.map {x : Except Issue α} (hx : Judges ds x) (f : α → β) :
    Judges ds (x >>= fun a => pure (f a)) := by
  have h := hx.bind (f := fun a => pure (f a)) fun a _ => judges_nil (f a)
  rwa [List.append_nil] at h

/-- What is checked inside a field is told under its name. -/
theorem Judges.under {x : Except Issue α} (hx : Judges ds x) (name : String) :
    Judges (ds.map (Demand.under name)) (x.mapError (Issue.under name)) := by
  cases x with
  | ok a =>
      intro d hd
      obtain ⟨e, he, rfl⟩ := List.mem_map.mp hd
      exact Demand.met_under.mpr (hx e he)
  | error i =>
      obtain ⟨before, d, after, rfl, hbefore, hbreach, hpath⟩ := hx
      refine ⟨before.map (Demand.under name), d.under name, after.map (Demand.under name), by simp,
        fun e he => ?_, hbreach, congrArg (name :: ·) hpath⟩
      obtain ⟨earlier, hearlier, rfl⟩ := List.mem_map.mp he
      exact Demand.met_under.mpr (hbefore earlier hearlier)

omit ds es in
theorem run_bind_id (x : ExceptT Issue Id α) (f : α → ExceptT Issue Id β) :
    (x >>= f).run = Except.bind x.run fun a => (f a).run := by
  show ExceptT.bindCont f x.run = _
  cases (x.run : Except Issue α) <;> rfl

theorem Judges.run_bind {x : ExceptT Issue Id α} (hx : Judges ds x.run)
    {f : α → ExceptT Issue Id β} (hf : ∀ a, x.run = .ok a → Judges es (f a).run) :
    Judges (ds ++ es) (x >>= f).run := by
  rw [run_bind_id]
  exact hx.bind hf

theorem Judges.run_map {x : ExceptT Issue Id α} (hx : Judges ds x.run) (f : α → β) :
    Judges ds (x >>= fun a => pure (f a)).run := by
  have h := hx.run_bind (f := fun a => pure (f a)) fun a _ => judges_nil (f a)
  rwa [List.append_nil] at h

end judges

/-! ## Single values -/

namespace Value

/-- A value is of the kind that is expected. -/
def demandKind (v : Value) (expected : String) (P : Prop) : Demand :=
  ⟨[], fun x => ¬ P ∧ x = .wrongType expected v.kindName⟩

def textDemands (v : Value) : List Demand :=
  [v.demandKind "string" (∃ b, v = .text b),
    ⟨[], fun x => (∃ b, v = .text b ∧ b.toString? = none) ∧ x = .malformedText⟩]

/-- If there are options, the text is one of them. -/
def optionDemand (v : Value) (options : List String) : Demand :=
  ⟨[], fun x => ∃ s, v.IsText s ∧ options ≠ [] ∧ s ∉ options ∧ x = .noOption s options⟩

def pathDemand (v : Value) : Demand :=
  ⟨[], fun x => ∃ s e, v.IsText s ∧ RelativePath.ofString s = .error e ∧ x = .badPath e⟩

/-- The value is a number, and a whole one. -/
def wholeDemands (v : Value) : List Demand :=
  [v.demandKind "integer" (∃ x, v = .number x),
    ⟨[], fun x => ∃ f, v = .number (.float f) ∧ (∀ n, ¬ v.IsInteger n) ∧
      x = .notIntegral (floatText f)⟩]

def boundDemand (v : Value) (b : Bounds) : Demand :=
  ⟨[], fun x => ∃ n, v.IsInteger n ∧ ¬ (b.least ≤ n ∧ n ≤ b.greatest) ∧
    x = .outOfRange (Binding.saturated n) b⟩

end Value

/-- The table holds two whole numbers, each within its bounds, and the second one is
greater. -/
def Table.rangeDemands (t : Table) (start stop : Bounds) : List Demand :=
  [⟨[], fun x => t.length ≠ 2 ∧ x = .wrongSize t.length⟩] ++
    ((t.getNat 1).wholeDemands ++ ((t.getNat 2).wholeDemands ++
      ([(t.getNat 1).boundDemand start] ++ ([(t.getNat 2).boundDemand stop] ++
        [⟨[], fun x => ∃ first last, (t.getNat 1).IsInteger first ∧ (t.getNat 2).IsInteger last ∧
          last ≤ first ∧ x = .emptyRange first last⟩]))))

/-- Every value of the table, from the first position up to the first gap, is a text. -/
def Table.textsDemands (t : Table) : List Demand :=
  (Binding.sequence t t.entries.size 1).flatMap Value.textDemands

namespace Binding

theorem met_kind {v : Value} {expected : String} {P : Prop} (h : P) :
    (v.demandKind expected P).Met :=
  fun _ hx => hx.1 h

theorem judges_wrongKind {α : Type} {v : Value} {expected : String} {P : Prop} (h : ¬ P)
    (ds : List Demand) : Judges (v.demandKind expected P :: ds)
      (violate (.wrongType expected v.kindName) : Except Issue α) :=
  judges_breach ⟨h, rfl⟩ rfl

theorem judges_toText (v : Value) : Judges v.textDemands (toText v) := by
  cases v with
  | text b =>
      refine Judges.cons ?_ (met_kind ⟨b, rfl⟩)
      rw [toText]
      cases hb : b.toString? with
      | some s =>
          refine (judges_nil s).cons ?_
          rintro x ⟨⟨c, ⟨⟩, hc⟩, -⟩
          exact absurd (hb.symm.trans hc) (Option.some_ne_none s)
      | none => exact judges_breach ⟨⟨b, rfl, hb⟩, rfl⟩ rfl
  | _ => exact judges_wrongKind (by simp) _

theorem judges_toOption (options : List String) (v : Value) :
    Judges (v.textDemands ++ [v.optionDemand options]) (toOption options v) := by
  refine (judges_toText v).bind fun s hs => ?_
  have htext := toText_eq_ok.mp hs
  split
  · rename_i hallowed
    refine (judges_nil s).cons ?_
    rintro x ⟨t, ht, hne, hout, -⟩
    obtain rfl := Except.ok.inj (hs.symm.trans (toText_eq_ok.mpr ht))
    simp [hne, hout] at hallowed
  · rename_i hout
    have hnone : options ≠ [] ∧ s ∉ options := by simpa using hout
    exact judges_breach ⟨s, htext, hnone.1, hnone.2, rfl⟩ rfl

theorem judges_toPath (v : Value) : Judges (v.textDemands ++ [v.pathDemand]) (toPath v) := by
  refine (judges_toText v).bind fun s hs => ?_
  have htext := toText_eq_ok.mp hs
  cases hp : RelativePath.ofString s with
  | ok p =>
      refine (judges_nil p).cons ?_
      rintro x ⟨t, e, ht, he, -⟩
      obtain rfl := Except.ok.inj (hs.symm.trans (toText_eq_ok.mpr ht))
      exact absurd (hp.symm.trans he) nofun
  | error e => exact judges_breach ⟨s, e, htext, hp, rfl⟩ rfl

theorem judges_toInteger (v : Value) : Judges v.wholeDemands (toInteger v) := by
  have hwhole := fun n => toInteger_eq_ok (v := v) (n := n)
  cases v with
  | number x =>
      refine Judges.cons ?_ (met_kind ⟨x, rfl⟩)
      cases x with
      | int n =>
          refine (judges_nil n.toInt).cons ?_
          rintro x ⟨f, ⟨⟩, -⟩
      | float f =>
          rw [toInteger] at hwhole ⊢
          cases hb : (Binary.ofFloat? f).bind Binary.whole? with
          | some n =>
              simp only [hb] at hwhole
              obtain ⟨m, hm, -⟩ := (hwhole (saturated n)).mp rfl
              refine (judges_nil (saturated n)).cons ?_
              rintro x ⟨g, -, hnone, -⟩
              exact hnone m hm
          | none =>
              simp only [hb] at hwhole
              have hnone : ∀ n, ¬ (Value.number (.float f)).IsInteger n := by
                intro n hn
                cases (hwhole _).mpr ⟨n, hn, rfl⟩
              exact judges_breach ⟨f, rfl, hnone, rfl⟩ rfl
  | _ => exact judges_wrongKind (by simp) _

theorem isInteger_unique {v : Value} {m n : ℤ} (hm : v.IsInteger m) (hn : v.IsInteger n) : m = n :=
  Int.cast_injective (Option.some.inj (hm.symm.trans hn))

theorem judges_checkBounds {b : Bounds} (hb : Narrow b) {v : Value} {n : ℤ}
    (hn : toInteger v = .ok n) : Judges [v.boundDemand b] (checkBounds b n) := by
  obtain ⟨m, hm, rfl⟩ := toInteger_eq_ok.mp hn
  have hbounds : b.least ≤ saturated m ∧ saturated m ≤ b.greatest ↔
      b.least ≤ m ∧ m ≤ b.greatest := by
    unfold saturated
    unfold Narrow at hb
    omega
  rw [checkBounds]
  split
  · rename_i hallow
    refine (judges_nil ()).cons ?_
    rintro x ⟨k, hk, hout, -⟩
    obtain rfl := isInteger_unique hm hk
    exact hout (hbounds.mp (by simpa [Bounds.allow] using hallow))
  · rename_i hallow
    refine judges_breach ⟨m, hm, ?_, rfl⟩ rfl
    rw [← hbounds]
    simpa [Bounds.allow] using hallow

theorem judges_toBounded {b : Bounds} (hb : Narrow b) (v : Value) :
    Judges (v.wholeDemands ++ [v.boundDemand b]) (toBounded b v) :=
  (judges_toInteger v).bind fun n hn => (judges_checkBounds hb hn).map fun _ => n

theorem judges_toRange {start stop : Bounds} (hstart : Narrow start) (hstop : Narrow stop)
    (t : Table) : Judges (t.rangeDemands start stop) (toRange start stop t) := by
  by_cases hlength : t.length = 2
  · refine Judges.cons ?_ fun x hx => hx.1 hlength
    simp only [toRange, hlength, ne_eq, not_true_eq_false, if_false]
    refine (judges_toInteger _).bind fun first hfirst => ?_
    refine (judges_toInteger _).bind fun last hlast => ?_
    refine (judges_checkBounds hstart hfirst).bind fun _ hfirst' => ?_
    refine (judges_checkBounds hstop hlast).bind fun _ hlast' => ?_
    have hfirst := ((bounded_eq_ok hstart).mp ⟨hfirst, hfirst'⟩).1
    have hlast := ((bounded_eq_ok hstop).mp ⟨hlast, hlast'⟩).1
    split
    · rename_i hempty
      exact judges_breach ⟨first, last, hfirst, hlast, hempty, rfl⟩ rfl
    · rename_i hordered
      refine (judges_nil _).cons ?_
      rintro x ⟨m, n, hm, hn, hle, -⟩
      obtain rfl := isInteger_unique hfirst hm
      obtain rfl := isInteger_unique hlast hn
      exact hordered hle
  · have hrange : toRange start stop t = violate (.wrongSize t.length) := by
      simp [toRange, hlength, violate, Bind.bind, Except.bind]
    rw [hrange]
    exact judges_breach ⟨hlength, rfl⟩ rfl

theorem judges_toTexts (t : Table) : Judges t.textsDemands (toTexts t) := by
  unfold Table.textsDemands toTexts
  generalize sequence t t.entries.size 1 = vs
  induction vs with
  | nil => exact judges_nil []
  | cons v rest ih =>
      rw [List.flatMap_cons, List.mapM_cons]
      exact (judges_toText v).bind fun s _ => ih.map fun more => s :: more

end Binding

end Multisample.Script
