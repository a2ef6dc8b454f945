import Mathlib.Data.Nat.Notation
import Multisample.Proofs.Script.Building

/-!
# Acts and the watchdog

What tripped the watchdog first stays the reason for good.  An act of the host
keeps it as long as the calls do that it makes; most acts also keep it that
nothing has tripped it, for they have nothing to do with the watchdog.  The acts
that the watchdog watches look at it last of all: they are done only where
nothing has tripped it, and otherwise they raise what did, whatever they caught
before.
-/

namespace Multisample.Script

variable {α β : Type}

namespace World

/-- This is what tripped the watchdog. -/
def StoppedBy (i : Interrupt) (w : World) : Prop :=
  w.watchdog.tripped = some i

theorem StoppedBy.checkWatchdog {i : Interrupt} {w : World} (h : w.StoppedBy i) :
    w.checkWatchdog = w := by
  have htripped : w.watchdog.tripped.isSome = true := Option.isSome_of_eq_some h
  rw [World.checkWatchdog, Watchdog.check, if_pos htripped]

end World

theorem Watchdog.refuse_of_tripped {d : Watchdog} {i : Interrupt} (h : d.tripped = some i) :
    d.refuse = d :=
  if_pos (Option.isSome_of_eq_some h)

/-! ## Acts that keep what tripped the watchdog -/

namespace Step

/-- In the worlds that the act leaves, this has tripped the watchdog, if anything,
where it has in those that it is given; `given` says it of the first one. -/
def Keeps (t : Option Interrupt) (given : Prop) : Step α → Prop
  | done w _ => given → w.watchdog.tripped = t
  | raised w _ => given → w.watchdog.tripped = t
  | call w _ _ next =>
    (given → w.watchdog.tripped = t) ∧ ∀ r w, (next r w).Keeps t (w.watchdog.tripped = t)
  | pause w _ next =>
    (given → w.watchdog.tripped = t) ∧ ∀ w, (next w).Keeps t (w.watchdog.tripped = t)

variable {t : Option Interrupt} {given : Prop} {s : Step α}

theorem Keeps.mono {less : Prop} (hs : s.Keeps t given) (h : less → given) : s.Keeps t less := by
  cases s with
  | done w a => exact hs ∘ h
  | raised w e => exact hs ∘ h
  | call w g arguments next => exact ⟨hs.1 ∘ h, hs.2⟩
  | pause w bytes next => exact ⟨hs.1 ∘ h, hs.2⟩

theorem Keeps.bind (hs : s.Keeps t given) {f : α → World → Step β}
    (hf : ∀ a w, (f a w).Keeps t (w.watchdog.tripped = t)) : (s.bind f).Keeps t given := by
  induction s generalizing given with
  | done w a => exact (hf a w).mono hs
  | raised w e => exact hs
  | call w g arguments next ih => exact ⟨hs.1, fun r w => ih r w (hs.2 r w)⟩
  | pause w bytes next ih => exact ⟨hs.1, fun w => ih w (hs.2 w)⟩

theorem Keeps.settle (hs : s.Keeps t given) {f : Except Raised α → World → Step β}
    (hf : ∀ r w, (f r w).Keeps t (w.watchdog.tripped = t)) : (s.settle f).Keeps t given := by
  induction s generalizing given with
  | done w a => exact (hf (.ok a) w).mono hs
  | raised w e => exact (hf (.error e) w).mono hs
  | call w g arguments next ih => exact ⟨hs.1, fun r w => ih r w (hs.2 r w)⟩
  | pause w bytes next ih => exact ⟨hs.1, fun w => ih w (hs.2 w)⟩

end Step

namespace Act

/-- Whatever has tripped the watchdog, and be it nothing, the act keeps it. -/
def Keeps (x : Act α) : Prop :=
  ∀ t site w, (x site w).Keeps t (w.watchdog.tripped = t)

/-- The act keeps what has tripped the watchdog, but it may trip it. -/
def KeepsStop (x : Act α) : Prop :=
  ∀ i site w, (x site w).Keeps (some i) (w.StoppedBy i)

theorem Keeps.stop {x : Act α} (hx : x.Keeps) : x.KeepsStop :=
  fun i => hx (some i)

theorem keeps_pure (a : α) : (pure a : Act α).Keeps :=
  fun _ _ _ h => h

theorem keeps_ask (f : World → α) : (ask f).Keeps :=
  fun _ _ _ h => h

theorem keeps_raise (v : Value) : (raise v : Act α).Keeps :=
  fun _ _ _ h => h

theorem keeps_fault (message : String) : (fault message : Act α).Keeps :=
  fun _ _ _ h => h

theorem keeps_blame (message : String) : (blame message : Act α).Keeps :=
  fun _ _ _ h => h

theorem keeps_failIn (function message : String) :
    (Builtins.Libraries.failIn function message : Act α).Keeps :=
  keeps_raise _

theorem keeps_change {f : World → World}
    (hf : ∀ w, (f w).watchdog.tripped = w.watchdog.tripped) : (change f).Keeps :=
  fun _ _ w h => (hf w).trans h

theorem keepsStop_change {f : World → World} (hf : ∀ i w, w.StoppedBy i → (f w).StoppedBy i) :
    (change f).KeepsStop :=
  fun i _ w => hf i w

theorem Keeps.bind {x : Act α} (hx : x.Keeps) {f : α → Act β} (hf : ∀ a, (f a).Keeps) :
    (x >>= f).Keeps :=
  fun t site w => (hx t site w).bind fun a w => hf a t site w

theorem KeepsStop.bind {x : Act α} (hx : x.KeepsStop) {f : α → Act β}
    (hf : ∀ a, (f a).KeepsStop) : (x >>= f).KeepsStop :=
  fun i site w => (hx i site w).bind fun a w => hf a i site w

theorem Keeps.outcome {x : Act α} (hx : x.Keeps) : (outcome x).Keeps :=
  fun t site w => (hx t site w).settle fun _ _ h => h

theorem keeps_attempt (f : Value) (arguments : List Value) : (attempt f arguments).Keeps :=
  fun _ _ _ => ⟨id, fun _ _ h => h⟩

theorem keeps_call (f : Value) (arguments : List Value) : (call f arguments).Keeps := by
  refine fun _ _ _ => ⟨id, fun r _ => ?_⟩
  cases r <;> exact fun h => h

theorem keeps_callOne (f : Value) (arguments : List Value) : (callOne f arguments).Keeps :=
  (keeps_call f arguments).bind fun _ => keeps_pure _

theorem keeps_reserve (bytes : ℕ) : (reserve bytes).Keeps :=
  fun _ _ _ => ⟨id, fun _ h => h⟩

theorem keeps_ofOutcome (r : Except Raised α) : (ofOutcome r).Keeps := by
  cases r <;> exact fun _ _ _ h => h

/-- In a stopped world the watchdog raises what stopped it, and nothing else
changes. -/
theorem checkWatchdog_of_stopped {i : Interrupt} {w : World} (h : w.StoppedBy i) (site : Site) :
    checkWatchdog site w = .raised w (.thrown (.failure i.message)) := by
  have htripped : w.watchdog.tripped = some i := h
  unfold checkWatchdog
  rw [h.checkWatchdog]
  simp only [htripped]

theorem keepsStop_checkWatchdog : checkWatchdog.KeepsStop := by
  intro i site w
  by_cases h : w.StoppedBy i
  · rw [checkWatchdog_of_stopped h]
    exact id
  · unfold checkWatchdog
    dsimp only
    split <;> exact fun hw => absurd hw h

theorem Keeps.guarded {x : Act α} (hx : x.Keeps) : (guarded x).KeepsStop :=
  hx.outcome.stop.bind fun r => keepsStop_checkWatchdog.bind fun _ => (keeps_ofOutcome r).stop

/-! ### Look-ups -/

theorem keeps_typeName (v : Value) : (typeName v).Keeps :=
  keeps_ask _

theorem keeps_indexFrom (k : Value) (fuel : ℕ) (origin : Option Origin) (v : Value) :
    (indexFrom fuel origin v k).Keeps := by
  -- by induction on the chain of tables that stand in for each other
  induction fuel generalizing origin v with
  | zero => exact keeps_fault _
  | succ fuel ih =>
      rw [indexFrom_succ]
      have hstored : (storedIn v k).Keeps := by
        cases v with
        | table id => exact keeps_ask _
        | _ => exact keeps_pure _
      refine hstored.bind fun stored => ?_
      split
      · exact keeps_pure _
      · refine (keeps_ask _).bind fun handler => ?_
        unfold answerBy
        split
        · exact keeps_pure _
        · exact (keeps_typeName v).bind fun _ => keeps_fault _
        · exact keeps_callOne _ _
        · exact keeps_callOne _ _
        · exact ih none handler

theorem keeps_index (v k : Value) (origin : Option Origin) : (index v k origin).Keeps :=
  keeps_indexFrom k maxChain origin v

theorem keeps_toText (v : Value) : (toText v).Keeps := by
  refine (keeps_ask _).bind fun handler => ?_
  split
  · exact keeps_pure _
  · exact keeps_pure _
  · exact keeps_pure _
  · exact keeps_pure _
  · exact keeps_pure _
  · exact (keeps_typeName _).bind fun _ => keeps_pure _
  · refine (keeps_callOne _ _).bind fun answer => ?_
    split
    · exact keeps_pure _
    · exact keeps_blame _

end Act

/-! ### Binding -/

namespace Builtins.Libraries

open Act

theorem keeps_raisedText (e : Raised) : (raisedText e).Keeps := by
  unfold raisedText
  split
  · exact keeps_pure _
  · refine (keeps_toText _).outcome.bind fun text => ?_
    split <;> exact keeps_pure _
  · exact keeps_pure _

theorem keeps_field (id : ℕ) (name : String) : (reader.field id name).Keeps := by
  refine (keeps_index _ _ _).outcome.bind fun found => ?_
  split
  · exact keeps_pure _
  · exact (keeps_raisedText _).bind fun _ => keeps_pure _

end Builtins.Libraries

namespace Binding

open Act Builtins.Libraries

/-- A check that runs code and keeps what tripped the watchdog. -/
def Keeps (x : ExceptT Issue Act α) : Prop :=
  Act.Keeps x.run

theorem keeps_pure (a : α) : Keeps (pure a) :=
  Act.keeps_pure _

theorem keeps_mk (r : Except Issue α) : Keeps (ExceptT.mk (pure r)) :=
  Act.keeps_pure _

theorem keeps_lift (r : Except Issue α) : Keeps (liftM r) :=
  Act.keeps_pure _

theorem keeps_throw (issue : Issue) : Keeps (throw issue : ExceptT Issue Act α) :=
  Act.keeps_pure _

theorem keeps_table (id : ℕ) (f : Table → Except Issue α) :
    Keeps (ExceptT.mk (reader.table _ id f)) :=
  keeps_ask _

theorem Keeps.bind {x : ExceptT Issue Act α} (hx : Keeps x) {f : α → ExceptT Issue Act β}
    (hf : ∀ a, Keeps (f a)) : Keeps (x >>= f) := by
  refine Act.Keeps.bind hx fun r => ?_
  cases r with
  | ok a => exact hf a
  | error issue => exact Act.keeps_pure _

theorem Keeps.adapt {x : ExceptT Issue Act α} (hx : Keeps x) (f : Issue → Issue) :
    Keeps (ExceptT.adapt f x) :=
  Act.Keeps.bind hx fun _ => Act.keeps_pure _

mutual

theorem keeps_bindKind (limit : ℕ) (v : Value) : ∀ kind, Keeps (bindKind reader limit v kind)
  | .text _ => (keeps_lift _).bind fun _ => keeps_pure _
  | .path => (keeps_lift _).bind fun _ => keeps_pure _
  | .integer _ => (keeps_lift _).bind fun _ => keeps_pure _
  | .boolean => by
      cases v with
      | bool b => exact keeps_pure _
      | _ => exact keeps_mk _
  | .textList => (keeps_lift _).bind fun id => (keeps_table id _).bind fun _ => keeps_pure _
  | .range _ _ => (keeps_lift _).bind fun id => (keeps_table id _).bind fun _ => keeps_pure _
  | .record schema =>
      (keeps_lift _).bind fun id => (keeps_bindSchema limit id schema).bind fun _ => keeps_pure _

theorem keeps_bindField (limit table : ℕ) : ∀ field, Keeps (bindField reader limit table field)
  | .mk doc kind => by
      refine Keeps.adapt ?_ _
      have hlookup : Keeps (ExceptT.lift (reader.field table doc.name)) :=
        (keeps_field table doc.name).bind fun _ => Act.keeps_pure _
      refine hlookup.bind fun answer => ?_
      split
      · exact keeps_throw _
      · split
        · exact keeps_throw _
        · exact keeps_pure _
      · exact (keeps_bindKind limit _ kind).bind fun _ => keeps_pure _

theorem keeps_bindFields (limit table : ℕ) : ∀ fields, Keeps (bindFields reader limit table fields)
  | [] => keeps_pure _
  | field :: rest =>
      (keeps_bindField limit table field).bind fun _ =>
        (keeps_bindFields limit table rest).bind fun _ => keeps_pure _

theorem keeps_bindSchema (limit table : ℕ) : ∀ schema, Keeps (bindSchema reader limit table schema)
  | .mk _ fields rule => by
      refine (keeps_bindFields limit table fields).bind fun values => ?_
      cases rule.check limit values with
      | none => exact keeps_pure _
      | some issue => exact keeps_throw _

end

end Binding

/-! ### Functions that build libraries -/

namespace Builtins.Libraries

open Act

theorem keeps_tableAt (function : String) (position : ℕ) (v : Value) :
    (tableAt function position v).Keeps := by
  unfold tableAt
  split
  · exact keeps_pure _
  · exact keeps_failIn _ _

theorem keeps_libraryAt (function : String) (v : Value) : (libraryAt function v).Keeps := by
  unfold libraryAt
  split
  · exact keeps_pure _
  · exact keeps_failIn _ _

theorem keeps_instrumentAt (function : String) (v : Value) : (instrumentAt function v).Keeps := by
  unfold instrumentAt
  split
  · exact keeps_pure _
  · exact keeps_failIn _ _

theorem keeps_bound (function : String) (table : ℕ) (schema : Schema) :
    (bound function table schema).Keeps := by
  refine (keeps_ask _).bind fun limit => ?_
  have hbind : (Binding.bind reader limit table schema).Keeps := by
    refine Keeps.bind (Binding.keeps_bindSchema limit table schema) fun r => ?_
    split <;> exact keeps_pure _
  refine hbind.bind fun r => ?_
  split
  · exact keeps_pure _
  · exact keeps_failIn _ _

theorem keeps_build (function : String) (request : Build → Except BuildFault (Build × α)) :
    (build function request).Keeps := by
  refine (keeps_ask _).bind fun b => ?_
  split
  · refine Keeps.bind (keeps_change ?_) fun _ => keeps_pure _
    exact fun _ => rfl
  · exact keeps_failIn _ _

theorem keeps_mergeOnce (base upper : ℕ) : (mergeOnce base upper).Keeps := by
  intro i site w
  unfold mergeOnce
  split <;> exact fun h => h

theorem keeps_extendTable (arguments : List Value) : (extendTable arguments).Keeps := by
  refine (keeps_tableAt _ _ _).bind fun base => (keeps_tableAt _ _ _).bind fun upper =>
    (keeps_mergeOnce base upper).bind fun first => ?_
  split
  · exact keeps_pure _
  · exact keeps_failIn _ _
  · refine (keeps_ask _).bind fun bytes => (keeps_reserve bytes).bind fun _ =>
      (keeps_mergeOnce base upper).bind fun second => ?_
    split
    · exact keeps_pure _
    · exact keeps_failIn _ _
    · exact fun _ _ _ h => h

theorem keeps_newLibrary (arguments : List Value) : (newLibrary arguments).Keeps := by
  unfold newLibrary
  exact (keeps_tableAt _ _ _).bind fun table => (keeps_bound _ table _).bind fun _ =>
    (keeps_build _ _).bind fun _ => keeps_pure _

theorem keeps_newInstrument (arguments : List Value) : (newInstrument arguments).Keeps := by
  unfold newInstrument
  exact (keeps_libraryAt _ _).bind fun _ => (keeps_tableAt _ _ _).bind fun table =>
    (keeps_bound _ table _).bind fun _ => (keeps_build _ _).bind fun _ => keeps_pure _

theorem keeps_addRegion (arguments : List Value) : (addRegion arguments).Keeps := by
  unfold addRegion
  exact (keeps_instrumentAt _ _).bind fun _ => (keeps_tableAt _ _ _).bind fun table =>
    (keeps_bound _ table _).bind fun _ => keeps_build _ _

theorem keeps_addResponse (arguments : List Value) : (addResponse arguments).Keeps := by
  unfold addResponse
  exact (keeps_libraryAt _ _).bind fun _ => (keeps_tableAt _ _ _).bind fun table =>
    (keeps_bound _ table _).bind fun _ => keeps_build _ _

end Builtins.Libraries

open Builtins.Libraries in
theorem Builder.keeps_run (f : Builder) (arguments : List Value) : (f.run arguments).Keeps := by
  cases f with
  | newLibrary => exact keeps_newLibrary arguments
  | newInstrument => exact keeps_newInstrument arguments
  | addRegion => exact keeps_addRegion arguments
  | addResponse => exact keeps_addResponse arguments
  | extendTable => exact keeps_extendTable arguments

/-! ## Acts that look at the watchdog last -/

namespace Step

/-- The act hands every error on as a result. -/
def Catches : Step α → Prop
  | done _ _ => True
  | raised _ _ => False
  | call _ _ _ next => ∀ r w, (next r w).Catches
  | pause _ _ next => ∀ w, (next w).Catches

/-- The act is done only where nothing has tripped the watchdog, and raises what
has where something did. -/
def LooksLast : Step α → Prop
  | done w _ => w.watchdog.tripped = none
  | raised w e => ∀ i, w.StoppedBy i → e = .thrown (.failure i.message)
  | call _ _ _ next => ∀ r w, (next r w).LooksLast
  | pause _ _ next => ∀ w, (next w).LooksLast

variable {s : Step α}

theorem Catches.bind (hs : s.Catches) {f : α → World → Step β} (hf : ∀ a w, (f a w).Catches) :
    (s.bind f).Catches := by
  induction s with
  | done w a => exact hf a w
  | raised w e => exact hs.elim
  | call w g arguments next ih => exact fun r w => ih r w (hs r w)
  | pause w bytes next ih => exact fun w => ih w (hs w)

theorem catches_settle (s : Step α) {f : Except Raised α → World → Step β}
    (hf : ∀ r w, (f r w).Catches) : (s.settle f).Catches := by
  induction s with
  | done w a => exact hf (.ok a) w
  | raised w e => exact hf (.error e) w
  | call w g arguments next ih => exact fun r w => ih r w
  | pause w bytes next ih => exact fun w => ih w

/-- An act looks last that goes on so after one that caught its errors. -/
theorem Catches.bind_looksLast (hs : s.Catches) {f : α → World → Step β}
    (hf : ∀ a w, (f a w).LooksLast) : (s.bind f).LooksLast := by
  induction s with
  | done w a => exact hf a w
  | raised w e => exact hs.elim
  | call w g arguments next ih => exact fun r w => ih r w (hs r w)
  | pause w bytes next ih => exact fun w => ih w (hs w)

end Step

namespace Act

def Catches (x : Act α) : Prop :=
  ∀ site w, (x site w).Catches

def LooksLast (x : Act α) : Prop :=
  ∀ site w, (x site w).LooksLast

theorem catches_pure (a : α) : (pure a : Act α).Catches :=
  fun _ _ => trivial

theorem catches_change (f : World → World) : (change f).Catches :=
  fun _ _ => trivial

theorem catches_attempt (f : Value) (arguments : List Value) : (attempt f arguments).Catches :=
  fun _ _ _ _ => trivial

theorem catches_outcome (x : Act α) : (outcome x).Catches :=
  fun site w => (x site w).catches_settle fun _ _ => trivial

theorem Catches.bind {x : Act α} (hx : x.Catches) {f : α → Act β} (hf : ∀ a, (f a).Catches) :
    (x >>= f).Catches :=
  fun site w => (hx site w).bind fun a w => hf a site w

theorem Catches.bind_looksLast {x : Act α} (hx : x.Catches) {f : α → Act β}
    (hf : ∀ a, (f a).LooksLast) : (x >>= f).LooksLast :=
  fun site w => (hx site w).bind_looksLast fun a w => hf a site w

/-- After a look at the watchdog that found nothing, an act may end at once. -/
theorem looksLast_checkWatchdog {x : Act α}
    (hx : ∀ site w, w.watchdog.tripped = none → (x site w).LooksLast) :
    (do checkWatchdog; x).LooksLast := by
  intro site w
  show ((checkWatchdog site w).bind fun _ w => x site w).LooksLast
  unfold checkWatchdog
  cases htripped : w.checkWatchdog.watchdog.tripped with
  | none =>
      simp only [htripped]
      exact hx site _ htripped
  | some i =>
      simp only [htripped]
      intro j hj
      obtain rfl := Option.some.inj (htripped.symm.trans hj)
      rfl

theorem looksLast_guarded (x : Act α) : (guarded x).LooksLast := by
  refine (catches_outcome x).bind_looksLast fun r => looksLast_checkWatchdog fun site w hw => ?_
  -- an error of the act itself gets out only where the look found nothing
  cases r with
  | ok a => exact hw
  | error e => exact fun i hi => absurd (hw.symm.trans hi) (by simp)

end Act

namespace Builtins

open Act

theorem keepsStop_protect (values : List Value) : (protect values).KeepsStop := by
  have hrefuse : (change fun w => { w with watchdog := w.watchdog.refuse }).KeepsStop :=
    keepsStop_change fun i w hw => by
      show w.watchdog.refuse.tripped = some i
      rw [Watchdog.refuse_of_tripped hw]
      exact hw
  have hrest : (do checkWatchdog; return values : Act (List Value)).KeepsStop :=
    keepsStop_checkWatchdog.bind fun _ => (keeps_pure values).stop
  unfold protect
  split
  · exact hrefuse.bind fun _ => hrest
  · exact hrest

theorem looksLast_protect (values : List Value) : (protect values).LooksLast := by
  have hrest : (do checkWatchdog; return values : Act (List Value)).LooksLast :=
    looksLast_checkWatchdog fun _ _ hw => hw
  unfold protect
  split
  · exact (catches_change _).bind_looksLast fun _ => hrest
  · exact hrest

theorem keepsStop_protectedCall (f : Value) (arguments : List Value) :
    (protectedCall (f :: arguments)).KeepsStop := by
  refine (keeps_attempt f arguments).stop.bind fun r => ?_
  cases r <;> exact keepsStop_protect _

theorem looksLast_protectedCall (f : Value) (arguments : List Value) :
    (protectedCall (f :: arguments)).LooksLast := by
  refine (catches_attempt f arguments).bind_looksLast fun r => ?_
  cases r <;> exact looksLast_protect _

theorem keeps_handleError (handler : Value) (fuel : ℕ) (e : Raised) :
    (handleError handler fuel e).Keeps := by
  induction fuel generalizing e with
  | zero => cases e <;> exact keeps_pure _
  | succ fuel ih =>
      cases e with
      | refused => exact keeps_pure _
      | thrown v =>
          refine (keeps_attempt handler [v]).bind fun r => ?_
          cases r with
          | ok values => exact keeps_pure _
          | error e => exact ih e

theorem catches_handleError (handler : Value) (fuel : ℕ) (e : Raised) :
    (handleError handler fuel e).Catches := by
  induction fuel generalizing e with
  | zero => cases e <;> exact catches_pure _
  | succ fuel ih =>
      cases e with
      | refused => exact catches_pure _
      | thrown v =>
          refine (catches_attempt handler [v]).bind fun r => ?_
          cases r with
          | ok values => exact catches_pure _
          | error e => exact ih e

theorem keepsStop_protectedCallWith (f handler : Value) (arguments : List Value) :
    (protectedCallWith (f :: handler :: arguments)).KeepsStop := by
  refine (keeps_attempt f arguments).stop.bind fun r => ?_
  cases r with
  | ok values => exact keepsStop_protect _
  | error e => exact (keeps_handleError handler 10 e).stop.bind fun _ => keepsStop_protect _

theorem looksLast_protectedCallWith (f handler : Value) (arguments : List Value) :
    (protectedCallWith (f :: handler :: arguments)).LooksLast := by
  refine (catches_attempt f arguments).bind_looksLast fun r => ?_
  cases r with
  | ok values => exact looksLast_protect _
  | error e =>
      exact (catches_handleError handler 10 e).bind_looksLast fun _ => looksLast_protect _

end Builtins

end Multisample.Script
