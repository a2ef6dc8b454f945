import Multisample.Proofs.Numeric.Spectra
import Multisample.Proofs.Engine.Calls

/-!
# The rate that a convolver was built for

An impulse response is prepared at the rate that the engine has when the
response is set, and then waits for the next block.  A new rate takes away what
the reverb works with, but not what waits.  So the reverb works at the right
rate after every block of a run exactly if no response was waiting while the
rate became another one.
-/

namespace Multisample

variable {σ π γ : Type} [Elementary σ] [Elementary π] [Precision σ π] [Transform σ γ]

/-- Some impulse response was built into the convolver at this rate. -/
def Convolver.BuiltFor (π : Type) [Scalar π] [Precision σ π] (rate : ℕ) (c : Convolver σ γ) : Prop :=
  ∃ (id : ℕ) (a : AudioBuffer σ), c.blueprint = (Convolver.build π id a rate).blueprint

omit [Elementary π] in
theorem Convolver.builtFor_congr [Scalar π] {rate : ℕ} {o other : Option (Convolver σ γ)}
    (h : other.map blueprint = o.map blueprint) (ho : ∀ c ∈ o, c.BuiltFor π rate) :
    ∀ c ∈ other, c.BuiltFor π rate := by
  rintro c rfl
  obtain ⟨d, hd, heq⟩ := Option.map_eq_some_iff.mp h.symm
  obtain ⟨id, a, hbuilt⟩ := ho d hd
  exact ⟨id, a, heq.symm.trans hbuilt⟩

namespace Engine

/-! ## What waits -/

/-- Responses are accepted one at a time, and a block takes them all. -/
theorem waiting_cases (e : Engine σ π γ) (call : Call σ π) :
    ((e.perform call).waiting = e.waiting ∧
        (e.perform call).nextConvolver = e.nextConvolver ∧ (e.perform call).blocks = e.blocks) ∨
      (∃ response, call = .request (.response response) ∧ e.waiting.length < waitingLimit ∧
        (e.perform call).waiting = e.waiting ++
          [response.map fun a => Convolver.build π e.nextConvolver a e.sampleRate] ∧
        (e.perform call).nextConvolver = e.nextConvolver + 1 ∧
        (e.perform call).blocks = e.blocks) ∨
      ∃ b, call = .process b ∧ (e.refusal? b).isNone ∧ (e.perform call).waiting = [] ∧
        (e.perform call).nextConvolver = e.nextConvolver ∧
        (e.perform call).blocks = e.blocks + 1 := by
  cases call with
  | process b =>
      by_cases h : (e.refusal? b).isNone = true
      · refine Or.inr (Or.inr ⟨b, rfl, h, ?_⟩)
        rw [perform_process, if_pos h, finish_eq, midBlock_eq, applyControls_eq]
        exact ⟨rfl, rfl, rfl⟩
      · rw [perform_process, if_neg h]
        exact Or.inl ⟨rfl, rfl, rfl⟩
  | rate sampleRate =>
      rw [perform]
      by_cases h : sampleRate = e.sampleRate
      · rw [setRate, if_pos h]
        exact Or.inl ⟨rfl, rfl, rfl⟩
      · rw [setRate_eq e h]
        exact Or.inl ⟨rfl, rfl, rfl⟩
  | collect => exact Or.inl ⟨rfl, rfl, rfl⟩
  | request r =>
      cases r with
      | response response =>
          rw [perform, request, setResponse]
          split
          · rename_i h
            exact Or.inr (Or.inl ⟨response, rfl, h, rfl, rfl, rfl⟩)
          · exact Or.inl ⟨rfl, rfl, rfl⟩
      | layer index change =>
          rw [perform, request, modifyLayer]
          split <;> exact Or.inl ⟨rfl, rfl, rfl⟩
      | order kinds =>
          rw [perform, request, setOrder]
          split <;> exact Or.inl ⟨rfl, rfl, rfl⟩
      | param kind index value =>
          rw [perform, request, setParam]
          split <;> exact Or.inl ⟨rfl, rfl, rfl⟩
      | _ => exact Or.inl ⟨rfl, rfl, rfl⟩

theorem sampleRate_perform (e : Engine σ π γ) (call : Call σ π) :
    (e.perform call).sampleRate = match call with
      | .rate sampleRate => sampleRate
      | _ => e.sampleRate := by
  cases call with
  | process b =>
      rw [perform_process]
      split
      · rw [finish_eq, midBlock_eq, applyControls_eq]
      · rfl
  | rate sampleRate =>
      rw [perform]
      by_cases h : sampleRate = e.sampleRate
      · rw [setRate, if_pos h, h]
      · rw [setRate_eq e h]
  | collect => rfl
  | request r =>
      obtain ⟨layers, mix, waiting, nextConvolver, h, -⟩ := e.request_eq r
      rw [perform, h]

/-- Neither responses nor blocks are ever counted down, and while neither of
them is counted the row of waiting convolvers stays. -/
theorem waiting_run (e : Engine σ π γ) (calls : List (Call σ π)) :
    e.nextConvolver ≤ (e.run calls).nextConvolver ∧ e.blocks ≤ (e.run calls).blocks ∧
      ((e.run calls).nextConvolver = e.nextConvolver → (e.run calls).blocks = e.blocks →
        (e.run calls).waiting = e.waiting) := by
  induction calls using List.reverseRecOn with
  | nil => exact ⟨Nat.le_refl _, Nat.le_refl _, fun _ _ => rfl⟩
  | append_singleton calls call ih =>
      obtain ⟨hnext, hblocks, hwaiting⟩ := ih
      rw [run_concat]
      rcases (e.run calls).waiting_cases call with ⟨hw, hn, hb⟩ | ⟨_, _, _, _, hn, hb⟩ |
        ⟨_, _, _, _, hn, hb⟩
      · rw [hw, hn, hb]
        exact ⟨hnext, hblocks, hwaiting⟩
      · exact ⟨by omega, by omega, fun h => absurd h (by omega)⟩
      · exact ⟨by omega, by omega, fun _ h => absurd h (by omega)⟩

/-- An impulse response was accepted and, some calls later, still waits as the
last one: no other was accepted since then, and no block was rendered. -/
structure WaitsLast (asked : Engine σ π γ) (a : AudioBuffer σ) (between : List (Call σ π)) :
    Prop where
  accepted : asked.waiting.length < waitingLimit
  last : (asked.run (.request (.response (some a)) :: between)).nextConvolver =
    asked.nextConvolver + 1
  unblocked : (asked.run (.request (.response (some a)) :: between)).blocks = asked.blocks

theorem WaitsLast.getLast? {asked : Engine σ π γ} {a : AudioBuffer σ}
    {between : List (Call σ π)} (h : asked.WaitsLast a between) :
    (asked.run (.request (.response (some a)) :: between)).waiting.getLast? =
      some (some (Convolver.build π asked.nextConvolver a asked.sampleRate)) := by
  have hask : asked.perform (.request (.response (some a))) = { asked with
      waiting := asked.waiting ++
        [some (Convolver.build π asked.nextConvolver a asked.sampleRate)]
      nextConvolver := asked.nextConvolver + 1 } := by
    rw [perform, request, setResponse, if_pos h.accepted]
    rfl
  obtain ⟨-, -, hwaiting⟩ := (asked.perform (.request (.response (some a)))).waiting_run between
  rw [run, List.foldl_cons, ← run, hwaiting (h.last.trans (by rw [hask]))
    (h.unblocked.trans (by rw [hask])), hask, List.getLast?_concat]

/-- What waits last was accepted at some moment of the run. -/
theorem waitsLast_of_getLast? {start : Engine σ π γ} (hstart : start.waiting = [])
    {calls : List (Call σ π)} {c : Convolver σ γ}
    (h : (start.run calls).waiting.getLast? = some (some c)) :
    ∃ before a between, calls = before ++ .request (.response (some a)) :: between ∧
      (start.run before).WaitsLast a between := by
  induction calls using List.reverseRecOn with
  | nil => exact absurd h (by simp [run, hstart])
  | append_singleton calls call ih =>
      rw [run_concat] at h
      rcases (start.run calls).waiting_cases call with ⟨hw, hn, hb⟩ |
        ⟨response, rfl, haccepted, hw, hn, hb⟩ | ⟨_, _, _, hw, _, _⟩
      · -- The call leaves the row alone, so it only puts off the next block.
        obtain ⟨before, a, between, rfl, hwaits⟩ := ih (hw ▸ h)
        refine ⟨before, a, between ++ [call], by simp, hwaits.accepted, ?_, ?_⟩
        · rw [← List.cons_append, run_concat, ← hwaits.last, ← run_append]
          exact hn
        · rw [← List.cons_append, run_concat, ← hwaits.unblocked, ← run_append]
          exact hb
      · rw [hw, List.getLast?_concat] at h
        obtain ⟨a, rfl, -⟩ := Option.map_eq_some_iff.mp (Option.some.inj h)
        exact ⟨calls, a, [], rfl, haccepted, hn, hb⟩
      · exact absurd h (by simp [hw])

/-! ## What the reverb works with -/

/-- The reverb works with nothing, or with a convolver for the present rate. -/
def Attuned (e : Engine σ π γ) : Prop :=
  ∀ c ∈ e.chain.convolver?, c.BuiltFor π e.sampleRate

/-- A block that finds the reverb attuned leaves it so, if what waits last was
built for the present rate. -/
theorem Attuned.perform {e : Engine σ π γ} (h : e.Attuned) {call : Call σ π}
    (hlast : ∀ b, call = .process b → (e.refusal? b).isNone →
      ∀ c, e.waiting.getLast? = some (some c) → c.BuiltFor π e.sampleRate) :
    (e.perform call).Attuned := by
  have hrate := e.sampleRate_perform call
  have hblueprint := e.blueprint?_perform call
  unfold Attuned at h ⊢
  cases call with
  | process b =>
      rw [hrate]
      dsimp only at hblueprint
      split at hblueprint
      · rename_i hnone
        refine Convolver.builtFor_congr hblueprint ?_
        rw [List.getLastD_eq_getLast?]
        cases hwaiting : e.waiting.getLast? with
        | none => exact h
        | some next =>
            rintro c rfl
            exact hlast b rfl hnone c hwaiting
      · exact Convolver.builtFor_congr hblueprint h
  | rate sampleRate =>
      rw [hrate]
      dsimp only at hblueprint ⊢
      split at hblueprint
      · rename_i hsame
        subst hsame
        exact Convolver.builtFor_congr hblueprint h
      · refine Convolver.builtFor_congr (o := none) hblueprint ?_
        rintro c ⟨⟩
  | collect => exact h
  | request r =>
      rw [hrate]
      exact Convolver.builtFor_congr hblueprint h

theorem blueprint?_block {e : Engine σ π γ} {b : BlockRequest π} (h : (e.refusal? b).isNone)
    {c : Convolver σ γ} (hlast : e.waiting.getLast? = some (some c)) :
    ∃ held, (e.perform (.process b)).chain.convolver? = some held ∧
      held.blueprint = c.blueprint := by
  have hblueprint := e.blueprint?_perform (.process b)
  dsimp only at hblueprint
  rw [if_pos h, List.getLastD_eq_getLast?, hlast] at hblueprint
  exact Option.map_eq_some_iff.mp hblueprint

/-- After every block of a run the reverb works with nothing or with a
convolver that was built for the rate of the engine, exactly if every block
finds the rate at which the response that waits last for it was set. -/
theorem attuned_iff (s : EngineSetup) (calls : List (Call σ π)) :
    let start : Engine σ π γ := create s
    (∀ before b after, calls = before ++ .process b :: after →
        ((start.run before).refusal? b).isNone →
        let e := start.run (before ++ [.process b])
        ∀ c ∈ e.chain.convolver?, c.BuiltFor π e.sampleRate) ↔
      ∀ before a between b after,
        calls = before ++ .request (.response (some a)) :: (between ++ .process b :: after) →
        let asked := start.run before
        let e := asked.run (.request (.response (some a)) :: between)
        asked.WaitsLast a between → (e.refusal? b).isNone → asked.sampleRate = e.sampleRate := by
  intro start
  constructor
  · intro hattuned before a between b after heq asked e hwaits hnone
    have hrun : e = start.run (before ++ .request (.response (some a)) :: between) :=
      (run_append ..).symm
    obtain ⟨held, hheld, hblueprint⟩ := blueprint?_block hnone hwaits.getLast?
    obtain ⟨id, other, hbuilt⟩ := hattuned (before ++ .request (.response (some a)) :: between) b
      after (by simp [heq]) (hrun ▸ hnone) held (by rw [run_concat, ← hrun]; exact hheld)
    have hrate := congrArg Blueprint.rate (hblueprint.symm.trans hbuilt)
    rw [run_concat, sampleRate_perform, ← hrun] at hrate
    exact hrate
  · intro hrates before b after heq hnone
    -- The reverb is attuned at every moment of the run, not only after blocks.
    have hattuned : ∀ first rest, calls = first ++ rest → (start.run first).Attuned := by
      intro first
      induction first using List.reverseRecOn with
      | nil =>
          rintro rest - c ⟨⟩
      | append_singleton first call ih =>
          intro rest hcalls
          rw [run_concat]
          refine (ih (call :: rest) (by simp [hcalls])).perform ?_
          rintro b rfl hnone c hlast
          obtain ⟨before, a, between, rfl, hwaits⟩ := waitsLast_of_getLast? rfl hlast
          have hrate := hrates before a between b rest (by simp [hcalls]) hwaits
            (by rw [← run_append]; exact hnone)
          rw [run_append, hwaits.getLast?] at hlast
          obtain rfl := Option.some.inj (Option.some.inj hlast)
          rw [run_append, ← hrate]
          exact ⟨_, a, rfl⟩
    have hafter : (start.run (before ++ [.process b])).Attuned :=
      hattuned _ after (by simp [heq])
    exact hafter

/-- A response is set at 1000 Hz, the engine moves to 2000 Hz, and the next
block puts a convolver for 1000 Hz into the reverb. -/
theorem convolver_of_old_rate :
    letI := Transform.fourier
    let e : Engine ℝ ℝ (ZMod 256 → ℂ) := (create ⟨1000, 1, ⟨0⟩, ⟨0⟩, 1⟩).run
      [.request (.response (some (AudioBuffer.ofSamples #[1] 1 1000))), .rate 2000]
    let b : BlockRequest ℝ := ⟨1, 2000, 120, [], 2⟩
    (e.refusal? b).isNone ∧ (e.perform (.process b)).sampleRate = 2000 ∧
      ∃ c ∈ (e.perform (.process b)).chain.convolver?, ¬ c.BuiltFor ℝ 2000 := by
  let _ := Transform.fourier
  intro e b
  let start : Engine ℝ ℝ (ZMod 256 → ℂ) := create ⟨1000, 1, ⟨0⟩, ⟨0⟩, 1⟩
  let a : AudioBuffer ℝ := AudioBuffer.ofSamples #[1] 1 1000
  let asked := start.perform (.request (.response (some a)))
  have hrate : e.sampleRate = 2000 := asked.sampleRate_perform (.rate 2000)
  have hnone : (e.refusal? b).isNone := by
    simp [refusal?, b, hrate, maxBlock]
  have hwaits : start.WaitsLast a [.rate 2000] := by
    rcases asked.waiting_cases (.rate 2000) with ⟨-, hnext, hblocks⟩ | ⟨_, h, _⟩ | ⟨_, h, _⟩
    · exact ⟨by decide, hnext, hblocks⟩
    · cases h
    · cases h
  obtain ⟨held, hheld, hblueprint⟩ := blueprint?_block hnone hwaits.getLast?
  refine ⟨hnone, (e.sampleRate_perform _).trans hrate, held, hheld, ?_⟩
  rintro ⟨id, other, hbuilt⟩
  have hrates : start.sampleRate = 2000 :=
    congrArg Blueprint.rate (hblueprint.symm.trans hbuilt)
  exact absurd hrates (by decide)

end Engine

end Multisample
