import FlowIR.Instr
import FlowIR.Interchange.Operand

/-!
# Instructions as JSON

An instruction is the alternative of its kind with a record of its parts.  An optional part is
written as `null` when it is absent, and may be left out on reading.
-/

namespace FlowIR

open Json

/-- An optional part of an instruction. -/
private def part {α : Type} [JsonCodec α] (value : Option α) : Json :=
  orNull (value.map JsonCodec.encode)

instance : JsonCodec Instr where
  encode
    | .copy result source =>
        tagged "Copy" (record
          [("result", JsonCodec.encode result), ("source", JsonCodec.encode source)])
    | .call result receiver method args closure =>
        tagged "Call" (record
          [("result", part result), ("receiver", JsonCodec.encode receiver),
            ("method", text method), ("args", array (args.map JsonCodec.encode)),
            ("closure", part closure)])
    | .yield result block arg =>
        tagged "Yield" (record
          [("result", part result), ("block", JsonCodec.encode block), ("arg", part arg)])
    | .receiveSelf result =>
        tagged "ReceiveSelf" (record [("result", JsonCodec.encode result)])
    | .receiveArgument result index =>
        tagged "ReceiveArgument" (record
          [("result", JsonCodec.encode result), ("index", nat index)])
    | .receiveClosure result =>
        tagged "ReceiveClosure" (record [("result", JsonCodec.encode result)])
    | .methodReturn value => tagged "Return" (record [("value", JsonCodec.encode value)])
    | .closureReturn value => tagged "ClosureReturn" (record [("value", JsonCodec.encode value)])
    | .jump target => tagged "Jump" (record [("target", JsonCodec.encode target)])
    | .branch condition target =>
        tagged "Branch" (record
          [("condition", JsonCodec.encode condition), ("target", JsonCodec.encode target)])
    | .nop => text "Nop"
  decode json := do
    match ← alternative? json with
    | ("Copy", some content) =>
        let [result, source] ← members? ["result", "source"] content | none
        return .copy (← required? JsonCodec.decode result) (← required? JsonCodec.decode source)
    | ("Call", some content) =>
        let [result, receiver, method, args, closure] ←
          members? ["result", "receiver", "method", "args", "closure"] content | none
        return .call (← maybe? JsonCodec.decode result) (← required? JsonCodec.decode receiver)
          (← required? text? method) (← required? (list? JsonCodec.decode) args)
          (← maybe? JsonCodec.decode closure)
    | ("Yield", some content) =>
        let [result, block, arg] ← members? ["result", "block", "arg"] content | none
        return .yield (← maybe? JsonCodec.decode result) (← required? JsonCodec.decode block)
          (← maybe? JsonCodec.decode arg)
    | ("ReceiveSelf", some content) =>
        let [result] ← members? ["result"] content | none
        return .receiveSelf (← required? JsonCodec.decode result)
    | ("ReceiveArgument", some content) =>
        let [result, index] ← members? ["result", "index"] content | none
        return .receiveArgument (← required? JsonCodec.decode result)
          (← required? (natUpTo? greatest64) index)
    | ("ReceiveClosure", some content) =>
        let [result] ← members? ["result"] content | none
        return .receiveClosure (← required? JsonCodec.decode result)
    | ("Return", some content) =>
        let [value] ← members? ["value"] content | none
        return .methodReturn (← required? JsonCodec.decode value)
    | ("ClosureReturn", some content) =>
        let [value] ← members? ["value"] content | none
        return .closureReturn (← required? JsonCodec.decode value)
    | ("Jump", some content) =>
        let [target] ← members? ["target"] content | none
        return .jump (← required? JsonCodec.decode target)
    | ("Branch", some content) =>
        let [condition, target] ← members? ["condition", "target"] content | none
        return .branch (← required? JsonCodec.decode condition)
          (← required? JsonCodec.decode target)
    | ("Nop", content) => if isBare content then some .nop else none
    | _ => none

end FlowIR
