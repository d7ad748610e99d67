import FlowIR.Proofs.Inlining.Decision

/-!
# What becomes of a request to inline a closure

As for a method, the request alone decides.  What may go wrong besides in an opened host is that two
locals of the closure would become one: those that lie no deeper than two scopes out all end up in
the host.  This shows before a dead end does, and wherever in the live part the two locals occur.
-/

namespace FlowIR.Inlining

variable {policy : Policy} {host : Host} {body : Graph} {block : BlockId} {site : Instr}

/-- The live part of a closure mentions two locals of one name that lie at different depths, both of
which become the nearest scope when the closure moves one scope up. -/
def LocalsClash (body : Graph) : Prop :=
  ∃ name depth other, depth ≠ other ∧ depth ≤ 2 ∧ other ≤ 2 ∧
    .var (.named ⟨name, depth⟩) ∈ liveMentions body ∧
    .var (.named ⟨name, other⟩) ∈ liveMentions body

/-- Two locals become one exactly when they have one name and are equally deep, or neither is
deeper than two scopes. -/
theorem Mode.local?_inlineClosure_eq_iff (a b : Local) :
    Mode.inlineClosure.local? a = Mode.inlineClosure.local? b ↔
      a.name = b.name ∧ (a.depth = b.depth ∨ a.depth ≤ 2 ∧ b.depth ≤ 2) := by
  simp only [local?, Local.atDepth, Option.some.injEq, Local.mk.injEq, and_congr_right_iff]
  intro _
  split <;> split <;> omega

theorem not_localsApart_iff : ¬ LocalsApart body ↔ LocalsClash body := by
  constructor
  · intro mixed
    by_contra none
    apply mixed
    rintro ⟨name, depth⟩ ⟨otherName, other⟩ mentioned otherMentioned same
    obtain ⟨rfl, depths⟩ := (Mode.local?_inlineClosure_eq_iff _ _).mp same
    by_contra different
    have apart : depth ≠ other := fun equal => different (by rw [equal])
    have shallow := depths.resolve_left apart
    exact none ⟨name, depth, other, apart, shallow.1, shallow.2, mentioned, otherMentioned⟩
  · rintro ⟨name, depth, other, different, shallow, otherShallow, mentioned, otherMentioned⟩ apart
    have same := apart ⟨name, depth⟩ ⟨name, other⟩ mentioned otherMentioned
      ((Mode.local?_inlineClosure_eq_iff _ _).mpr ⟨rfl, .inr ⟨shallow, otherShallow⟩⟩)
    exact different (congrArg Local.depth same)

/-- How a request to inline a closure turns out. -/
inductive ClosureOutcome (policy : Policy) (host : Host) (closure : Graph) (block : BlockId)
    (yielding : Instr) : Prop where
  | inlined {report : Report} {after : Host}
      (run : inlineClosure policy closure block yielding host = .ok (.inlined report) after)
      (bound : (YieldBinding.of? yielding).isSome)
      (admitted : Admitted policy host closure block yielding) (apart : ¬ LocalsClash closure)
      (live : LiveEnds closure)
  | skipped {excess : Excess}
      (run : inlineClosure policy closure block yielding host = .ok (.skipped excess) host)
      (bound : (YieldBinding.of? yielding).isSome) (bounded : Bounded closure)
      (large : ¬ Fits policy closure)
  | refused {fault : Fault}
      (run : inlineClosure policy closure block yielding host = .error fault host)
      (reason : YieldBinding.of? yielding = none ∨ Refused policy host closure block yielding fault)
  | clashed {source target holder : String} {after : Host}
      (run : inlineClosure policy closure block yielding host =
        .error (.renameConflict source target holder) after)
      (bound : (YieldBinding.of? yielding).isSome)
      (admitted : Admitted policy host closure block yielding) (clash : LocalsClash closure)
  | broken {id : BlockId} {after : Host}
      (run : inlineClosure policy closure block yielding host =
        .error (.invalidTransform (.deadBoundary id)) after)
      (bound : (YieldBinding.of? yielding).isSome)
      (admitted : Admitted policy host closure block yielding) (apart : ¬ LocalsClash closure)
      (role : closure.entry = some id ∨ closure.exit = some id) (dead : id ∉ closure.liveIds)

theorem closureOutcome (wf : host.scope.graph.WellFormed) (bodyWf : body.WellFormed) :
    ClosureOutcome policy host body block site := by
  have ensured : Ensures (inlineClosure policy body block site) host _ _ :=
    ensures_inlineClosure wf bodyWf
  cases run : inlineClosure policy body block site host with
  | ok outcome after =>
      have done := ensured.of_ok run
      cases outcome with
      | inlined report =>
          rcases done with ⟨⟨admitted, apart⟩, yielded, bound, ⟨splicing⟩⟩
          exact .inlined run (Option.isSome_iff_exists.mpr ⟨yielded, bound⟩) admitted
            (fun clash => not_localsApart_iff.mpr clash apart) splicing.liveEnds
      | skipped excess =>
          rcases done with ⟨⟨rfl, bounded, tooLarge⟩, bound⟩
          refine .skipped run (Option.isSome_iff_exists.mpr bound) bounded ?_
          rw [← excess?_eq_none_iff, tooLarge]
          exact nofun
  | error fault after =>
      rcases ensured.of_error run with ⟨rfl, reason⟩ | ⟨-, admitted, bound, unlaid⟩
      · exact .refused run reason
      · have bound := Option.isSome_iff_exists.mpr bound
        rcases unlaid with ⟨mixed, source, target, holder, rfl⟩ | ⟨apart, id, role, dead, rfl⟩
        · exact .clashed run bound admitted (not_localsApart_iff.mp mixed)
        · exact .broken run bound admitted (fun clash => not_localsApart_iff.mpr clash apart)
            role dead

/-- A closure is skipped exactly at a yield, if it has both ends and exceeds a limit. -/
theorem exists_inlineClosure_skipped_iff (wf : host.scope.graph.WellFormed)
    (bodyWf : body.WellFormed) :
    (∃ excess after, inlineClosure policy body block site host = .ok (.skipped excess) after) ↔
      (YieldBinding.of? site).isSome ∧ Bounded body ∧ ¬ Fits policy body := by
  have ending : ClosureOutcome policy host body block site := closureOutcome wf bodyWf
  rcases ending with ⟨run, -, admitted, -, -⟩ | ⟨run, bound, bounded, large⟩ | ⟨run, reason⟩ |
    ⟨run, -, admitted, -⟩ | ⟨run, -, admitted, -, -, -⟩
  · exact iff_of_false (by simp [run]) fun ⟨_, _, large⟩ => large admitted.fits
  · exact iff_of_true ⟨_, _, run⟩ ⟨bound, bounded, large⟩
  · apply iff_of_false (by simp [run])
    rintro ⟨bound, bounded, large⟩
    rcases reason with absent | refused
    · simp [absent] at bound
    · exact large (refused.fits_of_bounded bounded)
  · exact iff_of_false (by simp [run]) fun ⟨_, _, large⟩ => large admitted.fits
  · exact iff_of_false (by simp [run]) fun ⟨_, _, large⟩ => large admitted.fits

/-- What becomes of an admitted yield: two clashing locals show first, then a dead end, and nothing
else stands in the way. -/
theorem inlineClosure_admitted (wf : host.scope.graph.WellFormed) (bodyWf : body.WellFormed)
    (bound : (YieldBinding.of? site).isSome) (admitted : Admitted policy host body block site) :
    ((∃ source target holder after, inlineClosure policy body block site host =
        .error (.renameConflict source target holder) after) ↔ LocalsClash body) ∧
    ((∃ cause after, inlineClosure policy body block site host =
        .error (.invalidTransform cause) after) ↔ ¬ LocalsClash body ∧ ¬ LiveEnds body) ∧
    ((∃ report after, inlineClosure policy body block site host = .ok (.inlined report) after) ↔
      ¬ LocalsClash body ∧ LiveEnds body) ∧
    ∀ fault after, inlineClosure policy body block site host = .error fault after →
      (∃ source target holder, fault = .renameConflict source target holder) ∨
        DeadEnd body fault := by
  have ending : ClosureOutcome policy host body block site := closureOutcome wf bodyWf
  rcases ending with ⟨run, -, -, apart, live⟩ | ⟨-, -, -, large⟩ | ⟨-, reason⟩ |
    ⟨run, -, -, clash⟩ | ⟨run, -, -, apart, role, dead⟩
  · simp [run, apart, live]
  · exact absurd admitted.fits large
  · rcases reason with absent | refused
    · simp [absent] at bound
    · exact absurd admitted refused.not_admitted
  · simp [run, clash]
  · have unlive : ¬ LiveEnds body := fun live => dead (live _ role)
    have deadEnd : DeadEnd body (.invalidTransform (.deadBoundary _)) := ⟨_, role, dead, rfl⟩
    simp [run, apart, unlive, deadEnd]

/-- A request to inline a closure is skipped exactly at a yield, if the closure has both ends and
exceeds a limit.  A request that is not an admitted yield leaves the whole host as it is.  An
admitted yield fails with a conflict exactly when two locals clash, else for a dead end exactly when
an end of the closure is dead, and is carried out in all other cases; no other fault arises. -/
theorem inlineClosure_decision (wf : host.scope.graph.WellFormed) (bodyWf : body.WellFormed) :
    ((∃ excess after, inlineClosure policy body block site host = .ok (.skipped excess) after) ↔
      (YieldBinding.of? site).isSome ∧ Bounded body ∧ ¬ Fits policy body) ∧
    (¬ ((YieldBinding.of? site).isSome ∧ Admitted policy host body block site) →
      left (inlineClosure policy body block site) host = host) ∧
    ((YieldBinding.of? site).isSome → Admitted policy host body block site →
      ((∃ source target holder after, inlineClosure policy body block site host =
          .error (.renameConflict source target holder) after) ↔ LocalsClash body) ∧
      ((∃ cause after, inlineClosure policy body block site host =
          .error (.invalidTransform cause) after) ↔ ¬ LocalsClash body ∧ ¬ LiveEnds body) ∧
      ((∃ report after, inlineClosure policy body block site host = .ok (.inlined report) after) ↔
        ¬ LocalsClash body ∧ LiveEnds body) ∧
      ∀ fault after, inlineClosure policy body block site host = .error fault after →
        (∃ source target holder, fault = .renameConflict source target holder) ∨
          DeadEnd body fault) := by
  refine ⟨exists_inlineClosure_skipped_iff wf bodyWf, ?_, inlineClosure_admitted wf bodyWf⟩
  intro unfit
  have ending : ClosureOutcome policy host body block site := closureOutcome wf bodyWf
  rcases ending with ⟨-, bound, admitted, -, -⟩ | ⟨run, -, -, -⟩ | ⟨run, -⟩ |
    ⟨-, bound, admitted, -⟩ | ⟨-, bound, admitted, -, -, -⟩
  · exact absurd ⟨bound, admitted⟩ unfit
  · simp [left, run]
  · simp [left, run]
  · exact absurd ⟨bound, admitted⟩ unfit
  · exact absurd ⟨bound, admitted⟩ unfit

/-- A closure that mentions the local `y` one scope and two scopes out. -/
def clashingClosure : Graph :=
  { ({ id := 2 } : Graph).registerAll
      [{ id := ⟨2, 0⟩, label := ⟨"start"⟩
         instrs :=
          [.receiveArgument (.named ⟨"y", 2⟩) 0, .closureReturn (.var (.named ⟨"y", 1⟩))] }] with
    entry := some ⟨2, 0⟩
    exit := some ⟨2, 0⟩ }

/-- At the yield of the sample host, the sample closure is inlined and one
whose locals clash is not. -/
theorem inlineClosure_decision_sample :
    sampleHost.scope.graph.WellFormed ∧ sampleClosure.WellFormed ∧ clashingClosure.WellFormed ∧
      (∃ report after, inlineClosure samplePolicy sampleClosure ⟨0, 0⟩ sampleYield sampleHost =
        .ok (.inlined report) after) ∧
      (∃ source target holder after,
        inlineClosure samplePolicy clashingClosure ⟨0, 0⟩ sampleYield sampleHost =
          .error (.renameConflict source target holder) after) ∧
      left (inlineClosure samplePolicy sampleClosure ⟨0, 7⟩ sampleYield) sampleHost =
        sampleHost := by
  have wf : sampleHost.scope.graph.WellFormed := by decide +kernel
  have closureWf : sampleClosure.WellFormed := by decide +kernel
  have clashingWf : clashingClosure.WellFormed := by decide +kernel
  have offers : Offers sampleHost ⟨0, 0⟩ sampleYield := ⟨_, rfl, by decide⟩
  have admitted : Admitted samplePolicy sampleHost sampleClosure ⟨0, 0⟩ sampleYield :=
    ⟨⟨rfl, rfl⟩, ⟨by decide, by decide⟩, offers⟩
  have clashingAdmitted : Admitted samplePolicy sampleHost clashingClosure ⟨0, 0⟩ sampleYield :=
    ⟨⟨rfl, rfl⟩, ⟨by decide, by decide⟩, offers⟩
  have apart : ¬ LocalsClash sampleClosure := by
    rintro ⟨name, depth, other, different, -, -, mentioned, otherMentioned⟩
    simp [show liveMentions sampleClosure =
      [.var (.named ⟨"y", 2⟩), .var (.named ⟨"y", 2⟩)] from rfl] at mentioned otherMentioned
    omega
  have live : LiveEnds sampleClosure := by
    rintro id (⟨⟨⟩⟩ | ⟨⟨⟩⟩)
    · decide
    · decide
  have clash : LocalsClash clashingClosure := ⟨"y", 2, 1, by decide⟩
  have absent : ¬ Offers sampleHost ⟨0, 7⟩ sampleYield := by
    rintro ⟨held, found, -⟩
    contradiction
  have inlined := ((inlineClosure_decision wf closureWf).2.2 rfl admitted).2.2.1.mpr ⟨apart, live⟩
  have conflict := ((inlineClosure_decision wf clashingWf).2.2 rfl clashingAdmitted).1.mpr clash
  exact ⟨wf, closureWf, clashingWf, inlined, conflict,
    (inlineClosure_decision wf closureWf).2.1 fun request => absent request.2.offers⟩

end FlowIR.Inlining
