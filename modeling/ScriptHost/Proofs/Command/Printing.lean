import ScriptHost.Command.Run
import ScriptHost.Proofs.Config.Written
import ScriptHost.Proofs.Store.Apart

/-!
# What the operator is shown of the configuration

The command that prints the configuration sets up the export of what the
program records first, as every command does, so it shows a configuration only
if exporters can be built for its endpoint, whatever these take for one. What it
prints is read back as the configuration that the environment gave
(`config_read_back`).
-/

namespace ScriptHost

namespace Command

/-- All three exporters are built for the endpoint of the configuration, if there is one. -/
def Exporters.Serve (x : Exporters) (env : Environment) (c : Config) : Prop :=
  ∀ address ∈ c.otelEndpoint, x.span env address = .ok () ∧ x.metric env address = .ok () ∧
    x.log env address = .ok ()

/-- The first exporter that cannot be built for the endpoint is the one for `signal`. -/
inductive Exporters.Refuse (x : Exporters) (env : Environment) (address : String) :
    String → String → Prop where
  | span {reason : String} : x.span env address = .error reason → Refuse x env address "span" reason
  | metric {reason : String} : x.span env address = .ok () →
      x.metric env address = .error reason → Refuse x env address "metric" reason
  | log {reason : String} : x.span env address = .ok () → x.metric env address = .ok () →
      x.log env address = .error reason → Refuse x env address "log" reason

variable {x : Exporters} {c : Config} {env : Environment} {t : FileTree} {text : String}

theorem initTelemetry_of_serve (h : x.Serve env c) : initTelemetry x env c = .ok () := by
  unfold initTelemetry
  cases e : c.otelEndpoint with
  | none => rfl
  | some address =>
    obtain ⟨span, metric, log⟩ := h address e
    simp only [span, metric, log]
    rfl

/-- If they do not serve, the set-up fails with the reason of the first that refuses. -/
theorem initTelemetry_of_not_serve (h : ¬ x.Serve env c) :
    ∃ address signal reason, c.otelEndpoint = some address ∧ x.Refuse env address signal reason ∧
      initTelemetry x env c =
        .error (.other ("failed to create OTLP " ++ signal ++ " exporter: " ++ reason)) := by
  unfold initTelemetry
  cases e : c.otelEndpoint with
  | none => exact absurd (fun address ha => by rw [e] at ha; cases ha) h
  | some address =>
    cases span : x.span env address with
    | error reason => exact ⟨_, _, reason, rfl, .span span, by simp only [span]; rfl⟩
    | ok _ =>
      cases metric : x.metric env address with
      | error reason =>
        exact ⟨_, _, reason, rfl, .metric span metric, by simp only [span, metric]; rfl⟩
      | ok _ =>
        cases log : x.log env address with
        | error reason =>
          exact ⟨_, _, reason, rfl, .log span metric log, by simp only [span, metric, log]; rfl⟩
        | ok _ =>
          refine absurd (fun other ho => ?_) h
          rw [e] at ho
          obtain rfl := Option.some.inj ho
          exact ⟨span, metric, log⟩

theorem parse_config : Arguments.parse ["config"] = .run none .config := by decide

theorem run_config (accepted : Config.ofEnvironment (surroundings env t) = .ok c)
    (ready : initTelemetry x (surroundings env t) c = .ok ()) :
    run x ["config"] env t = act c t .config := by
  simp only [run, parse_config, configuration, accepted, ready]

theorem run_config_error {e : Error}
    (accepted : Config.ofEnvironment (surroundings env t) = .ok c)
    (unready : initTelemetry x (surroundings env t) c = .error e) :
    run x ["config"] env t = fail (.engine e) "" t := by
  simp only [run, parse_config, configuration, accepted, unready]

theorem act_config_eq_succeed (h : c.toToml? = some text) : act c t .config = succeed text t := by
  simp only [act, h]

theorem act_config_eq_fail (h : c.toToml? = none) :
    act c t .config = fail .numberTooLarge "" t := by
  simp only [act, h]

theorem surroundings_empty (env : Environment) : surroundings env .empty = env := by
  have unread : ∀ data, FileTree.empty.read variablesFile ≠ .ok data := by
    intro data h
    unfold FileTree.read at h
    split at h
    · cases h
    · next found =>
      have there := (Prod.mk.inj (FileTree.resolve_eq_ok found)).2
      unfold FileTree.get? at there
      split at there <;> cases there
    · cases h
    · cases h
  unfold surroundings
  split
  · next data h => exact absurd h (unread data)
  · rfl

/-- A directory to quote, the largest number that is printed, and an endpoint. -/
def quoting : Environment :=
  ⟨[("SCRIPT_STATE_DIR", "a \"b\"\n'c\\"), ("SCRIPT_MAX_STATE_BYTES", " 9223372036854775807\t"),
    ("OTEL_ENDPOINT", "http://localhost:4317")]⟩

/-- Exporters for addresses without a blank. -/
def unblank : Exporters :=
  let build (_ : Environment) (address : String) : Except String Unit :=
    if ' ' ∈ address.toList then .error "invalid uri character" else .ok ()
  ⟨build, build, build⟩

/-- An endpoint that is no address. -/
def misaddressed : Environment :=
  ⟨[("SCRIPT_STATE_DIR", "st"), ("OTEL_ENDPOINT", "not a uri")]⟩

/-- A number that is no integer of the text's language. -/
def oversized : Environment :=
  ⟨[("SCRIPT_STATE_DIR", "st"), ("SCRIPT_MAX_STATE_BYTES", "9223372036854775808")]⟩

end Command

end ScriptHost
