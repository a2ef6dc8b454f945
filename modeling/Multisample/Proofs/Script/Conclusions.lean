import Mathlib.Data.Nat.Notation
import Multisample.Script.Step

/-!
# How acts conclude

An act of the host may call into the script, and it may rest and ask for memory.
Given what surrounds it, it concludes in some world: with a result, with an
error, or cut off because memory was refused.  Acts that find something out
leave the world as they found it as far as it matters; an invariant of worlds
says how far that is.
-/

namespace Multisample.Script

/-- How the calls end that acts make, and whether they get the memory that they ask for. -/
structure Surroundings where
  call : World → Value → List Value → World × Except Raised (List Value)
  provide : World → ℕ → World × Bool

inductive Conclusion (α : Type) where
  | gives (a : α)
  | raises (e : Raised)
  | cutOff

variable {α β : Type}

namespace Step

def finish (around : Surroundings) : Step α → World × Conclusion α
  | done w a => (w, .gives a)
  | raised w e => (w, .raises e)
  | call w f arguments next =>
      (next (around.call w f arguments).2 (around.call w f arguments).1).finish around
  | pause w bytes next =>
      if (around.provide w bytes).2 then (next (around.provide w bytes).1).finish around
      else ((around.provide w bytes).1, .cutOff)

theorem finish_bind (around : Surroundings) (s : Step α) (f : α → World → Step β) :
    (s.bind f).finish around = match s.finish around with
      | (w, .gives a) => (f a w).finish around
      | (w, .raises e) => (w, .raises e)
      | (w, .cutOff) => (w, .cutOff) := by
  induction s with
  | done w a => rfl
  | raised w e => rfl
  | call w g arguments next ih => exact ih _ _
  | pause w bytes next ih =>
      rw [bind, finish, finish]
      split
      · exact ih _
      · rfl

/-- An act that is cut off has nothing settled for it. -/
theorem finish_settle (around : Surroundings) (s : Step α) (f : Except Raised α → World → Step β) :
    (s.settle f).finish around = match s.finish around with
      | (w, .gives a) => (f (.ok a) w).finish around
      | (w, .raises e) => (f (.error e) w).finish around
      | (w, .cutOff) => (w, .cutOff) := by
  induction s with
  | done w a => rfl
  | raised w e => rfl
  | call w g arguments next ih => exact ih _ _
  | pause w bytes next ih =>
      rw [settle, finish, finish]
      split
      · exact ih _
      · rfl

end Step

namespace Act

/-- An act that starts in a world concludes so, in a later one. -/
def Ends (around : Surroundings) (site : Site) (w : World) (x : Act α) (later : World)
    (c : Conclusion α) : Prop :=
  (x site w).finish around = (later, c)

section ends

variable {around : Surroundings} {site : Site} {w between later : World} {x : Act α}

theorem ends_pure (a : α) : Ends around site w (pure a) w (.gives a) :=
  rfl

theorem ends_ask (f : World → α) : Ends around site w (ask f) w (.gives (f w)) :=
  rfl

theorem ends_fail (message : String) :
    Ends around site w (fail message : Act α) w (.raises (.thrown (.failure message))) :=
  rfl

theorem ends_reserve {bytes : ℕ} (h : (around.provide w bytes).2 = true) :
    Ends around site w (reserve bytes) (around.provide w bytes).1 (.gives ()) := by
  simp only [Ends, reserve, Step.finish, h, if_true]

theorem ends_reserve_cutOff {bytes : ℕ} (h : (around.provide w bytes).2 = false) :
    Ends around site w (reserve bytes) (around.provide w bytes).1 .cutOff := by
  simp only [Ends, reserve, Step.finish, h]
  rfl

theorem finish_bind (f : α → Act β) :
    ((x >>= f) site w).finish around = match (x site w).finish around with
      | (w, .gives a) => (f a site w).finish around
      | (w, .raises e) => (w, .raises e)
      | (w, .cutOff) => (w, .cutOff) :=
  Step.finish_bind around (x site w) fun a w => f a site w

theorem Ends.bind {a : α} (hx : Ends around site w x between (.gives a)) {f : α → Act β}
    {c : Conclusion β} (hf : Ends around site between (f a) later c) :
    Ends around site w (x >>= f) later c := by
  rw [Ends, finish_bind, hx]
  exact hf

theorem Ends.bind_raises {e : Raised} (hx : Ends around site w x later (.raises e))
    (f : α → Act β) : Ends around site w (x >>= f) later (.raises e) := by
  rw [Ends, finish_bind, hx]

theorem Ends.bind_cutOff (hx : Ends around site w x later .cutOff) (f : α → Act β) :
    Ends around site w (x >>= f) later .cutOff := by
  rw [Ends, finish_bind, hx]

theorem finish_outcome (x : Act α) :
    (outcome x site w).finish around = match (x site w).finish around with
      | (w, .gives a) => (w, .gives (.ok a))
      | (w, .raises e) => (w, .gives (.error e))
      | (w, .cutOff) => (w, .cutOff) :=
  Step.finish_settle around (x site w) fun r w => .done w r

/-- After a guarded act the watchdog is looked at; if it has not tripped, the act
concludes as it did. -/
theorem Ends.guarded {c : Conclusion α} (hx : Ends around site w x later c)
    (h : later.checkWatchdog.watchdog.tripped = none) :
    ∃ watchdog, Ends around site w (guarded x) { later with watchdog } c := by
  have hcheck : Ends around site later checkWatchdog later.checkWatchdog (.gives ()) := by
    simp only [Ends, checkWatchdog, h, Step.finish]
  cases c with
  | gives a =>
      have houtcome : Ends around site w (outcome x) later (.gives (.ok a)) := by
        rw [Ends, finish_outcome, hx]
      exact ⟨_, houtcome.bind (hcheck.bind rfl)⟩
  | raises e =>
      have houtcome : Ends around site w (outcome x) later (.gives (.error e)) := by
        rw [Ends, finish_outcome, hx]
      exact ⟨_, houtcome.bind (hcheck.bind rfl)⟩
  | cutOff =>
      have houtcome : Ends around site w (outcome x) later .cutOff := by
        rw [Ends, finish_outcome, hx]
      exact ⟨_, houtcome.bind_cutOff _⟩

end ends

/-- From every world of a kind the act gives the same result, and the world stays of this kind. -/
def Yields (around : Surroundings) (site : Site) (kind : World → Prop) (x : Act α) (a : α) : Prop :=
  ∀ w, kind w → ∃ later, kind later ∧ Ends around site w x later (.gives a)

section yields

variable {around : Surroundings} {site : Site} {kind : World → Prop}

theorem yields_pure (a : α) : Yields around site kind (pure a) a :=
  fun w hw => ⟨w, hw, ends_pure a⟩

theorem Yields.bind {x : Act α} {a : α} (hx : Yields around site kind x a) {f : α → Act β} {b : β}
    (hf : Yields around site kind (f a) b) : Yields around site kind (x >>= f) b := by
  intro w hw
  obtain ⟨between, hbetween, hfirst⟩ := hx w hw
  obtain ⟨later, hlater, hrest⟩ := hf between hbetween
  exact ⟨later, hlater, hfirst.bind hrest⟩

theorem yields_ask {f : World → α} {a : α} (h : ∀ w, kind w → f w = a) :
    Yields around site kind (ask f) a :=
  fun w hw => ⟨w, hw, by rw [← h w hw]; exact ends_ask f⟩

end yields

end Act

end Multisample.Script
