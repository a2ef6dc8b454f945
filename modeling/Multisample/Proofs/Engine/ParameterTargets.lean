import Multisample.Proofs.Effects.ParameterRanges
import Multisample.Proofs.Engine.Calls

/-!
# Parameters that the player sets

The player sets targets beside the engine, which passes all of them on to its
chain at the start of every block.  So whatever the engine is asked to do, its
chain is only ever asked for targets that the player was told; they are held in
the ranges of the parameters twice, and neither time keeps out what is no number.
-/

namespace Multisample

namespace Engine

section

variable {σ π γ : Type} [Elementary σ] [Elementary π] [Precision σ π] [Transform σ γ]

/-! ## What reaches the chain -/

omit [Elementary σ] [Elementary π] [Precision σ π] [Transform σ γ] in
/-- What an engine passes on to its effects are the targets that were set for them. -/
theorem param?_of_mem_effectCalls {mix : MixControls σ} {kind other : EffectKind} {index : ℕ}
    {value : σ}
    (h : (EffectChain.Call.param kind index value : EffectChain.Call σ π γ) ∈
      effectCalls mix other) :
    (mix.params[kind.index]?).bind (fun values => values[index]?) = some value := by
  rcases List.mem_cons.mp h with h | h
  · cases h
  · obtain ⟨⟨v, i⟩, hmem, heq⟩ := List.mem_map.mp h
    cases heq
    rw [List.mem_zipIdx_iff_getElem?] at hmem
    rw [List.getD_eq_getElem?_getD] at hmem
    cases hvalues : mix.params[kind.index]? with
    | none => simp [hvalues] at hmem
    | some values => simpa [hvalues] using hmem

/-- The calls that the chain is given for a block: its order, everything that was
set for the effects, the convolvers that wait, and the signal. -/
def blockCalls (e : Engine σ π γ) (b : BlockRequest π) : List (EffectChain.Call σ π γ) :=
  .order e.applyOrder.chain.order.kinds :: EffectKind.all.flatMap (effectCalls e.mix) ++
    e.waiting.map .convolver ++
    [.process ⟨b.tempo⟩ ((e.midBlock b.midi).renderLayers b.frames).2]

theorem chain_process (e : Engine σ π γ) {b : BlockRequest π} (hnone : (e.refusal? b).isNone) :
    (e.perform (.process b)).chain = e.chain.run (e.blockCalls b) := by
  have hordered : e.chain.perform (.order e.applyOrder.chain.order.kinds) =
      e.applyOrder.chain := by
    obtain ⟨order, horder⟩ := e.applyOrder_eq
    rw [horder]
    exact e.chain.perform_order order
  have hmid : (e.midBlock b.midi).chain = e.tuned.run (e.waiting.map .convolver) := by
    rw [midBlock_eq, applyControls_eq]
  have hcalls : e.chain.run (e.blockCalls b) = (e.midBlock b.midi).chain.perform
      (.process ⟨b.tempo⟩ ((e.midBlock b.midi).renderLayers b.frames).2) := by
    rw [hmid, blockCalls, EffectChain.run, List.foldl_concat, List.cons_append, List.foldl_cons,
      hordered, List.foldl_append]
    rfl
  rw [perform_process, if_pos hnone, finish_eq, hcalls]

/-- Every call to the engine comes to some calls to its chain, which set targets that
the player is told. -/
theorem chain_perform (e : Engine σ π γ) (call : Call σ π) :
    ∃ calls : List (EffectChain.Call σ π γ), (e.perform call).chain = e.chain.run calls ∧
      ∀ kind index value, .param kind index value ∈ calls →
        e.param? kind index = some value := by
  cases call with
  | process b =>
      by_cases hnone : (e.refusal? b).isNone = true
      · refine ⟨e.blockCalls b, e.chain_process hnone, fun kind index value hmem => ?_⟩
        simp only [blockCalls, List.cons_append, List.mem_cons, List.mem_append, List.mem_map,
          List.not_mem_nil, reduceCtorEq, and_false, exists_false, or_false, false_or,
          List.mem_flatMap] at hmem
        obtain ⟨other, -, hmem⟩ := hmem
        exact param?_of_mem_effectCalls hmem
      · refine ⟨[], ?_, by simp⟩
        rw [perform_process, if_neg hnone]
        rfl
  | rate sampleRate =>
      by_cases hsame : sampleRate = e.sampleRate
      · refine ⟨[], ?_, by simp⟩
        rw [perform, setRate, if_pos hsame]
        rfl
      · refine ⟨[.convolver none, .rate (Scalar.ofNat sampleRate)], ?_, by simp⟩
        rw [perform, setRate_eq e hsame]
        rfl
  | collect => exact ⟨[], rfl, by simp⟩
  | request r =>
      obtain ⟨layers, mix, waiting, nextConvolver, h, -⟩ := e.request_eq r
      refine ⟨[], ?_, by simp⟩
      rw [perform, h]
      rfl

/-- Whatever an engine is asked, its chain is only asked what a chain can be asked. -/
theorem chain_run (e : Engine σ π γ) (calls : List (Call σ π)) :
    ∃ row, (e.run calls).chain = e.chain.run row := by
  induction calls using List.reverseRecOn with
  | nil => exact ⟨[], rfl⟩
  | append_singleton calls call ih =>
      obtain ⟨row, hrow⟩ := ih
      obtain ⟨more, hmore, -⟩ := (e.run calls).chain_perform call
      refine ⟨row ++ more, ?_⟩
      rw [run_concat, hmore, hrow, EffectChain.run, EffectChain.run, EffectChain.run,
        List.foldl_append]

/-! ## What the player is told -/

omit [Precision σ π] [Transform σ γ] in
theorem param?_create (s : EngineSetup) {kind : EffectKind} {index : ℕ} {info : ParamInfo σ}
    (hinfo : (EffectKind.params kind)[index]? = some info) :
    (create s : Engine σ π γ).param? kind index = some info.default := by
  have hrow : (defaultParams σ)[kind.index]? =
      some ((EffectKind.params kind).map fun p => p.default) := by
    cases kind <;> rfl
  have hparam : (create s : Engine σ π γ).param? kind index =
      ((defaultParams σ)[kind.index]?).bind fun values => values[index]? := rfl
  rw [hparam, hrow, Option.bind_some, List.getElem?_map, hinfo]
  rfl

theorem param?_setParam (e : Engine σ π γ) {kind : EffectKind} {index : ℕ} {info : ParamInfo σ}
    (hinfo : (EffectKind.params kind)[index]? = some info) (other : EffectKind) (place : ℕ)
    (value : σ) :
    (e.request (.param other place value)).param? kind index =
      if other = kind ∧ place = index then (e.param? kind index).map fun _ => info.clamp value
      else e.param? kind index := by
  rw [request, setParam]
  by_cases hhere : other = kind ∧ place = index
  · obtain ⟨rfl, rfl⟩ := hhere
    rw [hinfo, if_pos ⟨rfl, rfl⟩]
    cases hvalues : e.mix.params[other.index]? with
    | none => simp [Except.toOption, param?, hvalues]
    | some values =>
        have hset : (values.set place (info.clamp value))[place]? =
            values[place]?.map fun _ => info.clamp value :=
          List.getElem?_set_self'
        simp [Except.toOption, param?, hvalues, hset]
  · rw [if_neg hhere]
    cases (EffectKind.params other : List (ParamInfo σ))[place]? with
    | none => rfl
    | some asked =>
        by_cases hkind : other = kind
        · have hplace : place ≠ index := fun heq => hhere ⟨hkind, heq⟩
          cases hvalues : e.mix.params[kind.index]? <;>
            simp [Except.toOption, param?, hvalues, hkind, hplace]
        · have hindex : other.index ≠ kind.index := fun heq =>
            hkind (EffectKind.index_injective heq)
          simp [Except.toOption, param?, hindex]

/-- Only a request for a parameter changes what the player is told of it. -/
theorem param?_perform (e : Engine σ π γ) (call : Call σ π) {kind : EffectKind} {index : ℕ}
    {info : ParamInfo σ} (hinfo : (EffectKind.params kind)[index]? = some info) :
    (e.perform call).param? kind index = match call with
      | .request (.param other place value) =>
          if other = kind ∧ place = index then
            (e.param? kind index).map fun _ => info.clamp value
          else e.param? kind index
      | _ => e.param? kind index := by
  cases call with
  | process b =>
      rw [perform_process]
      split
      · rw [finish_eq, midBlock_eq, applyControls_eq]
        rfl
      · rfl
  | rate sampleRate =>
      rw [perform]
      by_cases hsame : sampleRate = e.sampleRate
      · rw [setRate, if_pos hsame]
      · rw [setRate_eq e hsame]
        rfl
  | collect => rfl
  | request r =>
      rw [perform]
      cases r with
      | layer place change =>
          rw [request, modifyLayer]
          split <;> rfl
      | order kinds =>
          rw [request, setOrder]
          split <;> rfl
      | response response =>
          rw [request, setResponse]
          split <;> rfl
      | master decibels => rfl
      | enable other on => rfl
      | param other place value =>
          exact e.param?_setParam hinfo other place value

end

section ranges

variable {π γ : Type} [Elementary π] [Precision Extended π] [Transform Extended γ]

/-- What the player is told of a parameter and what its chain keeps of it are
numbers within the range of the parameter. -/
def InRange (e : Engine Extended π γ) (kind : EffectKind) (index : ℕ) : Prop :=
  (∀ info, (EffectKind.params kind)[index]? = some info →
    ∃ v, e.param? kind index = some v ∧ info.Holds v) ∧ e.chain.InRange kind index

variable {kind : EffectKind} {index : ℕ} {info : ParamInfo Extended}

/-- An engine whose player was told of a number in range, and whose chain keeps the
parameter in range. -/
structure Keeps (kind : EffectKind) (index : ℕ) (info : ParamInfo Extended)
    (e : Engine Extended π γ) : Prop where
  told : ∃ v, e.param? kind index = some v ∧ info.Holds v
  chain : ∃ p, (e.chain.slot kind).params[index]? = some p ∧ p.info = info ∧ p.Sound

theorem keeps_create (s : EngineSetup) (hinfo : (EffectKind.params kind)[index]? = some info) :
    (create s : Engine Extended π γ).Keeps kind index info where
  told := ⟨info.default, param?_create s hinfo,
    (kind.params_sound info (List.mem_of_getElem? hinfo)).default⟩
  chain := EffectChain.sound_run _ List.not_mem_nil hinfo

theorem Keeps.perform {e : Engine Extended π γ} (h : e.Keeps kind index info)
    (hinfo : (EffectKind.params kind)[index]? = some info) {call : Call Extended π}
    (hcall : call ≠ .request (.param kind index .nan)) :
    (e.perform call).Keeps kind index info := by
  obtain ⟨v, hv, hholds⟩ := h.told
  have hsound : info.Sound := kind.params_sound info (List.mem_of_getElem? hinfo)
  refine ⟨?_, ?_⟩
  · rw [param?_perform e call hinfo]
    split
    · split
      · rename_i value hhere
        obtain ⟨rfl, rfl⟩ := hhere
        have hvalue : value ≠ .nan := fun hnan => hcall (hnan ▸ rfl)
        exact ⟨info.clamp value, by rw [hv]; rfl, hsound.holds_clamp hvalue⟩
      · exact ⟨v, hv, hholds⟩
    · exact ⟨v, hv, hholds⟩
  · obtain ⟨calls, hchain, htold⟩ := e.chain_perform call
    rw [hchain]
    refine EffectChain.param_run (fun call hcall p rests hp => ?_) h.chain
    refine ⟨(p.info_after call).trans hp.1, hp.2.after fun heq => ?_⟩
    -- The chain is only given what the player was told, which is a number.
    have hnan := htold kind index .nan (heq ▸ hcall)
    obtain rfl : v = .nan := Option.some.inj (hv.symm.trans hnan)
    exact info.not_holds_nan hholds

theorem keeps_run (s : EngineSetup) (hinfo : (EffectKind.params kind)[index]? = some info)
    {calls : List (Call Extended π)} (hcalls : .request (.param kind index .nan) ∉ calls) :
    ((create s : Engine Extended π γ).run calls).Keeps kind index info := by
  induction calls using List.reverseRecOn with
  | nil => exact keeps_create s hinfo
  | append_singleton calls call ih =>
      rw [List.mem_append, List.mem_singleton, not_or] at hcalls
      rw [run_concat]
      exact (ih hcalls.1).perform hinfo (Ne.symm hcalls.2)

/-- The player is told of what is no number as soon as it was set. -/
theorem not_inRange_request (e : Engine Extended π γ)
    (hindex : index < (EffectKind.params (σ := Extended) kind).length) :
    ¬ (e.perform (.request (.param kind index .nan))).InRange kind index := by
  rintro ⟨htold, -⟩
  obtain ⟨v, hv, hholds⟩ := htold _ (List.getElem?_eq_getElem hindex)
  rw [param?_perform e _ (List.getElem?_eq_getElem hindex)] at hv
  simp only [and_self, if_true, Option.map_eq_some_iff, ParamInfo.clamp_nan] at hv
  obtain ⟨-, -, rfl⟩ := hv
  exact ParamInfo.not_holds_nan _ hholds

theorem inRange_always_iff (s : EngineSetup) (calls : List (Call Extended π)) :
    (∀ n, ((create s : Engine Extended π γ).run (calls.take n)).InRange kind index) ↔
      ¬ (index < (EffectKind.params (σ := Extended) kind).length ∧
        .request (.param kind index .nan) ∈ calls) := by
  constructor
  · rintro h ⟨hindex, hset⟩
    obtain ⟨first, rest, rfl⟩ := List.append_of_mem hset
    have hupTo : (first ++ .request (.param kind index .nan) :: rest).take (first.length + 1) =
        first ++ [.request (.param kind index .nan)] := by
      rw [List.take_length_add_append]
      rfl
    have hlast := h (first.length + 1)
    rw [hupTo, run_concat] at hlast
    exact not_inRange_request _ hindex hlast
  · intro h n
    have hkeeps : ∀ info, (EffectKind.params kind)[index]? = some info →
        ((create s : Engine Extended π γ).run (calls.take n)).Keeps kind index info := by
      intro info hinfo
      have hindex := (List.getElem?_eq_some_iff.mp hinfo).1
      exact keeps_run s hinfo fun hmem => h ⟨hindex, List.mem_of_mem_take hmem⟩
    refine ⟨fun info hinfo => (hkeeps info hinfo).told, fun info hinfo => ?_⟩
    obtain ⟨p, hp, rfl, hsound⟩ := (hkeeps info hinfo).chain
    exact ⟨p, hp, hsound.target, hsound.value⟩

/-- A parameter of any effect is held in its range all along a run of a chain, and
of an engine with what its player is told, exactly if what is no number is never
set for it; infinities are clamped like numbers.  Once an effect was given what is
no number for a gliding parameter, whatever is set and played later leaves it so. -/
theorem parameters_in_range_iff (kind : EffectKind) (index : ℕ) :
    (∀ rate (calls : List (EffectChain.Call Extended π γ)),
      (∀ n, ((EffectChain.ofRate rate).run (calls.take n)).InRange kind index) ↔
        ¬ (index < (EffectKind.params (σ := Extended) kind).length ∧
          .param kind index .nan ∈ calls)) ∧
      (∀ s (calls : List (Call Extended π)),
        (∀ n, ((create s : Engine Extended π γ).run (calls.take n)).InRange kind index) ↔
          ¬ (index < (EffectKind.params (σ := Extended) kind).length ∧
            .request (.param kind index .nan) ∈ calls)) ∧
      ∀ info : ParamInfo Extended, (EffectKind.params kind)[index]? = some info →
        info.discrete = false →
          (∀ rate (calls more : List (EffectChain.Call Extended π γ)),
            ((EffectChain.ofRate rate).run calls).paramValue? kind index = some .nan →
              ((EffectChain.ofRate rate).run (calls ++ more)).paramValue? kind index =
                some .nan) ∧
            ∀ s (calls more : List (Call Extended π)),
              ((create s : Engine Extended π γ).run calls).chain.paramValue? kind index =
                  some .nan →
                ((create s : Engine Extended π γ).run (calls ++ more)).chain.paramValue?
                  kind index = some .nan := by
  refine ⟨EffectChain.inRange_always_iff, inRange_always_iff,
    fun info hinfo hglides => ⟨fun rate calls more => ?_, fun s calls more hnan => ?_⟩⟩
  · exact EffectChain.value_nan_run rate calls more hinfo hglides
  · obtain ⟨row, hrow⟩ := (create s : Engine Extended π γ).chain_run calls
    obtain ⟨later, hlater⟩ := ((create s : Engine Extended π γ).run calls).chain_run more
    have hnew : (create s : Engine Extended π γ).chain =
        EffectChain.ofRate (Scalar.ofNat s.sampleRate) := rfl
    rw [hrow, hnew] at hnan
    rw [run_append, hlater, hrow, hnew, EffectChain.run, EffectChain.run, ← List.foldl_append]
    exact EffectChain.value_nan_run _ row later hinfo hglides hnan

end ranges

/-- The drive of a distortion that was set to what is no number, while a silent frame was
played: whatever is set later, the effect is never given a number for it again. -/
theorem drive_never_returns :
    let c : EffectChain Extended Extended (Fin 256 → Extended) :=
      (EffectChain.ofRate 1000).run [.param .distortion 1 .nan, .enable .distortion true,
        .process ⟨120⟩ [⟨0, 0⟩], .param .distortion 1 (.number 20)]
    (∃ p, (c.slot .distortion).params[1]? = some p ∧ p.smoother.target = .number 20) ∧
      ¬ c.InRange .distortion 1 ∧
      ∀ calls, (c.run calls).paramValue? .distortion 1 = some .nan := by
  intro c
  let info : ParamInfo Extended := ⟨"Drive", "dB", 0, 40, 12, false⟩
  let new : EffectChain Extended Extended (Fin 256 → Extended) := EffectChain.ofRate 1000
  let p := ((ParamState.ofInfo 1000 info).aim .nan).advance 1
  have hnew : (new.slot .distortion).params[1]? = some (ParamState.ofInfo 1000 info) := rfl
  have hrests : (((new.perform (.param .distortion 1 .nan)).perform
      (.enable .distortion true)).slot .distortion).rests = false := by
    simp [EffectChain.perform, EffectChain.setEnabled, EffectChain.slot_modifySlot,
      ChainSlot.rests]
  have hdrive : (c.slot .distortion).params[1]? = some (p.aim (.number 20)) := by
    simp only [c, EffectChain.run, List.foldl_cons, List.foldl_nil]
    rw [EffectChain.param_perform, EffectChain.param_perform, hrests, EffectChain.param_perform,
      EffectChain.param_perform, hnew]
    rfl
  have hstuck : (p.aim (.number 20)).Stuck := by
    have hp : p.Stuck := ParamState.stuck_advance rfl (.inr info.clamp_nan) 1
    exact ⟨hp.glides, hp.current, hp.value⟩
  refine ⟨⟨_, hdrive, ?_⟩, fun hrange => ?_, fun calls => ?_⟩
  · have htwenty : Scalar.clamp (20 : ℝ) 0 40 = 20 := by
      norm_num [Scalar.clamp]
    show info.clamp (.number 20) = .number 20
    simp [info, ParamInfo.clamp, Extended.numeral_eq, Extended.clamp_number, htwenty]
  · obtain ⟨q, hq, -, hvalue⟩ := hrange info rfl
    obtain rfl : p.aim (.number 20) = q := Option.some.inj (hdrive.symm.trans hq)
    rw [hstuck.value] at hvalue
    exact info.not_holds_nan hvalue
  · exact EffectChain.value_of_stuck ⟨_, hdrive, hstuck⟩ calls

end Engine

end Multisample
