import FlowIR.Inlining.Splice

/-!
# Requests to inline

A request asks for a body to be put in the place of a site in a block of a host.  It is admitted
when the body has both ends and keeps within the limits of the policy, and the block belongs to the
host and holds the site.  A request that is refused is so for the first of these conditions that
fails, the limits excepted, beyond which a body is skipped.
-/

namespace FlowIR.Inlining

/-- The body has an entry and an exit. -/
def Bounded (body : Graph) : Prop :=
  body.entry.isSome ∧ body.exit.isSome

/-- The ends of the body are live. -/
def LiveEnds (body : Graph) : Prop :=
  ∀ id, body.entry = some id ∨ body.exit = some id → id ∈ body.liveIds

/-- The body has no more live blocks, and no more instructions in them, than the policy allows. -/
def Fits (policy : Policy) (body : Graph) : Prop :=
  body.liveBlocks.length ≤ policy.maxBlocks ∧ body.liveInstrCount ≤ policy.maxInstrs

/-- The block belongs to the host and holds the site. -/
def Offers (host : Host) (block : BlockId) (site : Instr) : Prop :=
  ∃ held, host.scope.graph.owned block = .ok held ∧ site ∈ held.instrs

/-- Nothing is to be said against the request before the host is opened. -/
structure Admitted (policy : Policy) (host : Host) (body : Graph) (block : BlockId) (site : Instr) :
    Prop where
  bounded : Bounded body
  fits : Fits policy body
  offers : Offers host block site

/-- Why a request fails before the host is opened. -/
inductive Refused (policy : Policy) (host : Host) (body : Graph) (block : BlockId) (site : Instr) :
    Fault → Prop where
  | unbounded {fault : Fault} (missing : boundary body = .error fault) :
      Refused policy host body block site fault
  | absent {fault : Fault} (fits : Fits policy body)
      (missing : host.scope.graph.owned block = .error fault) :
      Refused policy host body block site fault
  | lacking {held : Block} (fits : Fits policy body)
      (found : host.scope.graph.owned block = .ok held) (lacks : site ∉ held.instrs) :
      Refused policy host body block site (.instructionNotFound block)

section Request

variable {policy : Policy} {host : Host} {body : Graph} {block : BlockId} {site : Instr}

theorem boundary_eq_ok_iff {entry exit : BlockId} :
    boundary body = .ok (entry, exit) ↔ body.entry = some entry ∧ body.exit = some exit := by
  unfold boundary
  cases body.entry <;> cases body.exit <;> simp

/-- The ends of a body can be named exactly when it has both. -/
theorem exists_boundary_eq_ok_iff : (∃ ends, boundary body = .ok ends) ↔ Bounded body := by
  simp only [Prod.exists, boundary_eq_ok_iff, exists_and_left, exists_and_right, Bounded,
    Option.isSome_iff_exists]

/-- No limit is exceeded exactly when the body fits. -/
theorem excess?_eq_none_iff : excess? policy body = none ↔ Fits policy body := by
  unfold excess? Fits
  by_cases blocks : policy.maxBlocks < body.liveBlocks.length
  · simp [blocks, Nat.not_le.mpr blocks]
  · by_cases instrs : policy.maxInstrs < body.liveInstrCount
    · simp [blocks, instrs]
    · simp [blocks, instrs, Nat.not_lt.mp blocks, Nat.not_lt.mp instrs]

/-- A request is refused for its size only by being skipped. -/
theorem Refused.fits_of_bounded {fault : Fault}
    (refused : Refused policy host body block site fault) (bounded : Bounded body) :
    Fits policy body := by
  cases refused with
  | unbounded missing =>
      rcases exists_boundary_eq_ok_iff.mpr bounded with ⟨ends, bounds⟩
      rw [bounds] at missing
      contradiction
  | absent fits missing => exact fits
  | lacking fits found lacks => exact fits

/-- A refused request is not admitted. -/
theorem Refused.not_admitted {fault : Fault} (refused : Refused policy host body block site fault) :
    ¬ Admitted policy host body block site := by
  rintro ⟨bounded, -, held, found, holds⟩
  cases refused with
  | unbounded missing =>
      rcases exists_boundary_eq_ok_iff.mpr bounded with ⟨ends, bounds⟩
      rw [bounds] at missing
      contradiction
  | absent fits missing =>
      rw [found] at missing
      contradiction
  | lacking fits otherFound lacks =>
      rw [found] at otherFound
      obtain rfl := Except.ok.inj otherFound
      exact lacks holds

end Request

end FlowIR.Inlining
