import FlowIR.Proofs.Inlining.Transformations

/-!
# What becomes of a request

A request to inline a method is decided by the request alone: it is carried out, skipped for the
size of the method, refused with the host left alone, or fails in an opened host for a dead end of
the method.  Nothing else can go wrong in a host that has been opened.
-/

namespace FlowIR.Inlining

variable {policy : Policy} {host : Host} {body : Graph} {block : BlockId} {site : Instr}

/-- A body that was spliced in has live ends. -/
theorem Splicing.liveEnds {setting : Setting} {rule : Rule} {log : Bool} {report : Report}
    {after : Host}
    (splicing : Splicing host policy setting rule log body block site report after) :
    LiveEnds body := by
  rintro id (role | role)
  · rw [splicing.entry_role] at role
    obtain rfl := Option.some.inj role
    exact List.mem_of_getElem? splicing.entry_at
  · rw [splicing.exit_role] at role
    obtain rfl := Option.some.inj role
    exact List.mem_of_getElem? splicing.exit_at

/-- A body with a dead end does not have live ends. -/
theorem DeadEnd.not_liveEnds {fault : Fault} (dead : DeadEnd body fault) : ¬ LiveEnds body := by
  rcases dead with ⟨id, role, gone, -⟩
  exact fun live => gone (live id role)

/-- How a request to inline a method turns out. -/
inductive MethodOutcome (policy : Policy) (host : Host) (callee : Graph) (block : BlockId)
    (call : Instr) : Prop where
  | inlined {report : Report} {after : Host}
      (run : inlineMethod policy callee block call host = .ok (.inlined report) after)
      (bound : (CallBinding.of? call).isSome) (admitted : Admitted policy host callee block call)
      (live : LiveEnds callee)
  | skipped {excess : Excess}
      (run : inlineMethod policy callee block call host = .ok (.skipped excess) host)
      (bound : (CallBinding.of? call).isSome) (bounded : Bounded callee)
      (large : ¬ Fits policy callee)
  | refused {fault : Fault} (run : inlineMethod policy callee block call host = .error fault host)
      (reason : CallBinding.of? call = none ∨ Refused policy host callee block call fault)
  | broken {fault : Fault} {after : Host}
      (run : inlineMethod policy callee block call host = .error fault after)
      (bound : (CallBinding.of? call).isSome) (admitted : Admitted policy host callee block call)
      (dead : DeadEnd callee fault)

theorem methodOutcome (wf : host.scope.graph.WellFormed) (bodyWf : body.WellFormed) :
    MethodOutcome policy host body block site := by
  have ensured : Ensures (inlineMethod policy body block site) host _ _ :=
    ensures_inlineMethod wf bodyWf
  cases run : inlineMethod policy body block site host with
  | ok outcome after =>
      have done := ensured.of_ok run
      cases outcome with
      | inlined report =>
          rcases done with ⟨admitted, call, bound, ⟨splicing⟩⟩
          exact .inlined run (Option.isSome_iff_exists.mpr ⟨call, bound⟩) admitted splicing.liveEnds
      | skipped excess =>
          rcases done with ⟨⟨rfl, bounded, tooLarge⟩, bound⟩
          refine .skipped run (Option.isSome_iff_exists.mpr bound) bounded ?_
          rw [← excess?_eq_none_iff, tooLarge]
          exact nofun
  | error fault after =>
      rcases ensured.of_error run with ⟨rfl, reason⟩ | ⟨-, bound, admitted, dead⟩
      · exact .refused run reason
      · exact .broken run (Option.isSome_iff_exists.mpr bound) admitted dead

/-- A method is inlined exactly at an admitted call, if its ends are live. -/
theorem exists_inlineMethod_inlined_iff (wf : host.scope.graph.WellFormed)
    (bodyWf : body.WellFormed) :
    (∃ report after, inlineMethod policy body block site host = .ok (.inlined report) after) ↔
      (CallBinding.of? site).isSome ∧ Admitted policy host body block site ∧ LiveEnds body := by
  have ending : MethodOutcome policy host body block site := methodOutcome wf bodyWf
  rcases ending with
    ⟨run, bound, admitted, live⟩ | ⟨run, -, -, large⟩ | ⟨run, reason⟩ | ⟨run, -, -, dead⟩
  · exact iff_of_true ⟨_, _, run⟩ ⟨bound, admitted, live⟩
  · apply iff_of_false
    · simp [run]
    · exact fun ⟨_, admitted, _⟩ => large admitted.fits
  · apply iff_of_false
    · simp [run]
    · rintro ⟨bound, admitted, -⟩
      rcases reason with absent | refused
      · simp [absent] at bound
      · exact refused.not_admitted admitted
  · apply iff_of_false
    · simp [run]
    · exact fun ⟨_, _, live⟩ => dead.not_liveEnds live

/-- A method is skipped exactly at a call, if it has both ends and exceeds a limit. -/
theorem exists_inlineMethod_skipped_iff (wf : host.scope.graph.WellFormed)
    (bodyWf : body.WellFormed) :
    (∃ excess after, inlineMethod policy body block site host = .ok (.skipped excess) after) ↔
      (CallBinding.of? site).isSome ∧ Bounded body ∧ ¬ Fits policy body := by
  have ending : MethodOutcome policy host body block site := methodOutcome wf bodyWf
  rcases ending with
    ⟨run, -, admitted, -⟩ | ⟨run, bound, bounded, large⟩ | ⟨run, reason⟩ | ⟨run, -, admitted, -⟩
  · apply iff_of_false
    · simp [run]
    · exact fun ⟨_, _, large⟩ => large admitted.fits
  · exact iff_of_true ⟨_, _, run⟩ ⟨bound, bounded, large⟩
  · apply iff_of_false
    · simp [run]
    · rintro ⟨bound, bounded, large⟩
      rcases reason with absent | refused
      · simp [absent] at bound
      · exact large (refused.fits_of_bounded bounded)
  · apply iff_of_false
    · simp [run]
    · exact fun ⟨_, _, large⟩ => large admitted.fits

/-- The body is inlined wherever a request for it is admitted, but for a closure two of whose locals
would become one. -/
def InlinedWhereAdmitted (body : Graph) : Prop :=
  ∀ policy host block site, host.scope.graph.WellFormed → Admitted policy host body block site →
    ((CallBinding.of? site).isSome →
      ∃ report after, inlineMethod policy body block site host = .ok (.inlined report) after) ∧
    ((YieldBinding.of? site).isSome →
      (∃ report after, inlineClosure policy body block site host = .ok (.inlined report) after) ∨
        ∃ source target holder after,
          inlineClosure policy body block site host =
            .error (.renameConflict source target holder) after)

/-- Live ends are all that a body needs besides. -/
theorem inlinedWhereAdmitted_of_liveEnds (bodyWf : body.WellFormed) (live : LiveEnds body) :
    InlinedWhereAdmitted body := by
  intro policy host block site wf admitted
  refine ⟨fun bound => (exists_inlineMethod_inlined_iff wf bodyWf).mpr ⟨bound, admitted, live⟩, ?_⟩
  intro bound
  have ensured : Ensures (inlineClosure policy body block site) host _ _ :=
    ensures_inlineClosure wf bodyWf
  cases run : inlineClosure policy body block site host with
  | ok outcome after =>
      cases outcome with
      | inlined report => exact .inl ⟨report, after, rfl⟩
      | skipped excess =>
          rcases ensured.of_ok run with ⟨⟨-, -, tooLarge⟩, -⟩
          rw [excess?_eq_none_iff.mpr admitted.fits] at tooLarge
          contradiction
  | error fault after =>
      rcases ensured.of_error run with ⟨-, absent | refused⟩ | ⟨-, -, -, conflict | ⟨-, dead⟩⟩
      · simp [absent] at bound
      · exact absurd admitted refused.not_admitted
      · rcases conflict with ⟨-, source, target, holder, rfl⟩
        exact .inr ⟨source, target, holder, after, rfl⟩
      · exact absurd live dead.not_liveEnds

/-- A method is inlined exactly at an admitted call, if its ends are live; it is skipped exactly
at a call, if it has both ends and exceeds a limit.  A request that is not an admitted call
leaves the whole host as it is.  An admitted call, for which the host is opened, fails only for a
dead end of the method. -/
theorem inlineMethod_decision (wf : host.scope.graph.WellFormed) (bodyWf : body.WellFormed) :
    ((∃ report after, inlineMethod policy body block site host = .ok (.inlined report) after) ↔
      (CallBinding.of? site).isSome ∧ Admitted policy host body block site ∧ LiveEnds body) ∧
    ((∃ excess after, inlineMethod policy body block site host = .ok (.skipped excess) after) ↔
      (CallBinding.of? site).isSome ∧ Bounded body ∧ ¬ Fits policy body) ∧
    (¬ ((CallBinding.of? site).isSome ∧ Admitted policy host body block site) →
      left (inlineMethod policy body block site) host = host) ∧
    ∀ fault after, inlineMethod policy body block site host = .error fault after →
      after = host ∧ ¬ ((CallBinding.of? site).isSome ∧ Admitted policy host body block site) ∨
        (CallBinding.of? site).isSome ∧ Admitted policy host body block site ∧
          DeadEnd body fault := by
  refine ⟨exists_inlineMethod_inlined_iff wf bodyWf, exists_inlineMethod_skipped_iff wf bodyWf, ?_,
    ?_⟩
  · intro unfit
    have ending : MethodOutcome policy host body block site := methodOutcome wf bodyWf
    rcases ending with
      ⟨-, bound, admitted, -⟩ | ⟨run, -, -, -⟩ | ⟨run, -⟩ | ⟨-, bound, admitted, -⟩
    · exact absurd ⟨bound, admitted⟩ unfit
    · simp [left, run]
    · simp [left, run]
    · exact absurd ⟨bound, admitted⟩ unfit
  · intro fault after failed
    rcases (ensures_inlineMethod wf bodyWf).of_error failed with
      ⟨same, reason⟩ | ⟨-, bound, admitted, dead⟩
    · refine .inl ⟨same, ?_⟩
      rintro ⟨bound, admitted⟩
      rcases reason with absent | refused
      · simp [absent] at bound
      · exact refused.not_admitted admitted
    · exact .inr ⟨Option.isSome_iff_exists.mpr bound, admitted, dead⟩

/-- The sample method is inlined at a call of the sample host, and a request for a block that the
host does not have leaves the host as it is. -/
theorem inlineMethod_decision_sample :
    sampleHost.scope.graph.WellFormed ∧ sampleMethod.WellFormed ∧
      (∃ report after, inlineMethod samplePolicy sampleMethod ⟨0, 0⟩ sampleCall sampleHost =
        .ok (.inlined report) after) ∧
      left (inlineMethod samplePolicy sampleMethod ⟨0, 7⟩ sampleCall) sampleHost = sampleHost := by
  have wf : sampleHost.scope.graph.WellFormed := by decide +kernel
  have methodWf : sampleMethod.WellFormed := by decide +kernel
  have admitted : Admitted samplePolicy sampleHost sampleMethod ⟨0, 0⟩ sampleCall :=
    ⟨⟨rfl, rfl⟩, ⟨by decide, by decide⟩, _, rfl, by decide⟩
  have live : LiveEnds sampleMethod := by
    rintro id (⟨⟨⟩⟩ | ⟨⟨⟩⟩)
    · decide
    · decide
  have absent : ¬ Offers sampleHost ⟨0, 7⟩ sampleCall := by
    rintro ⟨held, found, -⟩
    contradiction
  exact ⟨wf, methodWf, (inlineMethod_decision wf methodWf).1.mpr ⟨rfl, admitted, live⟩,
    (inlineMethod_decision wf methodWf).2.2.1 fun request => absent request.2.offers⟩

end FlowIR.Inlining
