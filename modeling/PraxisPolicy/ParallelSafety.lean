import PraxisPolicy.DecisionLogs
import PraxisPolicy.RuleTrees

/-!
# Which effects may run in parallel

A branch works on copies.  Two checks at load time keep effects that change something out of
branches, one by the tree alone and one by the modes of plugins.
-/

namespace PraxisPolicy

section PluginModes

def isSafeInParallel : PluginMode → Bool
  | .audit | .concurrent | .fireAndForget | .disabled => true
  | .sequential | .transform => false

variable (modeFor : String → Option PluginMode) (location : String)

def checkPluginMode (name : String) : List String :=
  match modeFor name with
  | none => [location ++ ": `parallel:` references unknown plugin `" ++ name ++ "`"]
  | some mode =>
    if isSafeInParallel mode then []
    else [location ++ ": plugin `" ++ name ++ "` has mode `" ++ mode.display ++
      "` which can modify state; parallel branches discard mutations, so this would silently " ++
      "lose its effect. Use `sequential:` for ordered mutations or change the plugin's mode."]

mutual

def walkEffect (underParallel : Bool) : Effect → List String
  | .plugin name => if underParallel then checkPluginMode modeFor location name else []
  | .parallel inner => walkEffects true inner
  | .sequential inner => walkEffects underParallel inner
  | .when _ body _ => walkEffects underParallel body
  | .pdp _ onAllow onDeny => walkEffects underParallel onAllow ++ walkEffects underParallel onDeny
  | _ => []

def walkEffects (underParallel : Bool) : List Effect → List String
  | [] => []
  | e :: es => walkEffect underParallel e ++ walkEffects underParallel es

end

def parallelModeErrors (route : CompiledRoute) : List String :=
  let phase (name : String) (effects : List Effect) := effects.zipIdx.flatMap fun (effect, idx) =>
    walkEffect modeFor
      ("routes." ++ route.routeKey ++ "." ++ name ++ "[" ++ Nat.repr idx ++ "]") false effect
  phase "pre_invocation" route.preInvocation ++ phase "post_invocation" route.postInvocation

def validateParallelPluginModes (route : CompiledRoute) : Except String Unit :=
  if parallelModeErrors modeFor route = [] then .ok ()
  else .error ("; ".intercalate (parallelModeErrors modeFor route))

end PluginModes

structure ParallelAccepted (modeFor : String → Option PluginMode) (location : String)
    (effects : List Effect) : Prop where
  purity : (Effect.parallel effects).validateParallelPurity = .ok ()
  modes : walkEffect modeFor location false (.parallel effects) = []

theorem ParallelAccepted.containsMutation {modeFor : String → Option PluginMode}
    {location : String} {effects : List Effect}
    (h : ParallelAccepted modeFor location effects) :
    ∀ e ∈ effects, e.containsMutation = false := by
  have hpurity := h.purity
  rw [Effect.validateParallelPurity, Effect.validateBranches_ok_iff] at hpurity
  exact fun e he => (hpurity e he).1

end PraxisPolicy
