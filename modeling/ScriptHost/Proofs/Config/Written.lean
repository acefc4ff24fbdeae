import ScriptHost.Config.Toml
import ScriptHost.Proofs.Toml.Statement

/-!
# Written configurations are read back

A configuration can be written just if each of its numbers is a TOML integer
(`Writable`), and what is written is read back as the configuration that it was
(`ofToml_toToml?`), whatever its texts are and whether it names an endpoint.
-/

namespace ScriptHost.Config

open Toml (Assignment)

/-- The numbers of a configuration. -/
def words (c : Config) : List UInt64 :=
  [c.maxEventQueue, c.maxStateBytes, c.errorMessageLimit, c.stopTimeoutMs, c.workerThreads]

/-- Every number is one that a TOML integer can hold. -/
def Writable (c : Config) : Prop := ∀ n ∈ c.words, n.toNat < Nat.pow 2 63

instance (c : Config) : Decidable c.Writable :=
  List.decidableBAll (fun n : UInt64 => n.toNat < Nat.pow 2 63) c.words

def textSetting (key value : String) : Assignment := ⟨key, Toml.writeString value, .string value⟩

def wordSetting (key : String) (n : UInt64) : Assignment :=
  ⟨key, (toString n.toNat).toList, .integer n.toNat⟩

/-- The lines of a configuration. An endpoint that is not set has none. -/
def settings (c : Config) : List Assignment :=
  [textSetting "state_dir" c.stateDir,
    wordSetting "max_event_queue" c.maxEventQueue,
    wordSetting "max_state_bytes" c.maxStateBytes,
    wordSetting "error_message_limit" c.errorMessageLimit,
    wordSetting "stop_timeout_ms" c.stopTimeoutMs,
    wordSetting "worker_threads" c.workerThreads] ++
  (c.otelEndpoint.map (textSetting "otel_endpoint")).toList ++
  [textSetting "log_level" c.logLevel]

variable {c : Config} {text : String}

/-! ## Writing -/

theorem textLine_eq (key value : String) : textLine key value = (textSetting key value).chars := rfl

theorem wordLine?_eq_some {key : String} {n : UInt64} (h : n.toNat < Nat.pow 2 63) :
    wordLine? key n = some (wordSetting key n).chars := if_pos h

theorem wordLine?_isSome {key : String} {n : UInt64} {line : List Char}
    (h : wordLine? key n = some line) : n.toNat < Nat.pow 2 63 :=
  Classical.byContradiction fun large => by rw [wordLine?, if_neg large] at h; cases h

theorem toToml?_of_writable (h : c.Writable) :
    c.toToml? = some (String.ofList (c.settings.flatMap Assignment.chars)) := by
  obtain ⟨h₁, h₂, h₃, h₄, h₅, -⟩ := by simpa only [Writable, words, List.forall_mem_cons] using h
  rw [toToml?, wordLine?_eq_some h₁, wordLine?_eq_some h₂, wordLine?_eq_some h₃,
    wordLine?_eq_some h₄, wordLine?_eq_some h₅]
  cases e : c.otelEndpoint <;>
    simp only [settings, e, textLine_eq, Option.bind_eq_bind, Option.bind_some, Option.map_none,
      Option.map_some, Option.toList_none, Option.toList_some, List.flatMap_append,
      List.flatMap_cons, List.flatMap_nil, List.append_nil, List.append_assoc] <;> rfl

theorem writable_of_toToml? (h : c.toToml? = some text) : c.Writable := by
  simp only [toToml?, Option.bind_eq_bind, Option.bind_eq_some_iff] at h
  obtain ⟨_, h₁, _, h₂, _, h₃, _, h₄, _, h₅, -⟩ := h
  simp [Writable, words, wordLine?_isSome h₁, wordLine?_isSome h₂, wordLine?_isSome h₃,
    wordLine?_isSome h₄, wordLine?_isSome h₅]

/-! ## Reading back -/

theorem textSetting_sound {key : String} (bare : Toml.isBare key = true) (value : String) :
    (textSetting key value).Sound := ⟨bare, Toml.reads_string value⟩

theorem wordSetting_sound {key : String} {n : UInt64} (bare : Toml.isBare key = true)
    (h : n.toNat < Nat.pow 2 63) : (wordSetting key n).Sound := ⟨bare, Toml.reads_integer h⟩

theorem settings_sound (h : c.Writable) : ∀ l ∈ c.settings, l.Sound := by
  obtain ⟨h₁, h₂, h₃, h₄, h₅, -⟩ := by simpa only [Writable, words, List.forall_mem_cons] using h
  intro l hl
  simp only [settings, List.mem_append, List.mem_cons, List.not_mem_nil, or_false,
    Option.mem_toList, Option.map_eq_some_iff] at hl
  rcases hl with ((rfl | rfl | rfl | rfl | rfl | rfl) | ⟨_, -, rfl⟩) | rfl
  · exact textSetting_sound (by decide) _
  · exact wordSetting_sound (by decide) h₁
  · exact wordSetting_sound (by decide) h₂
  · exact wordSetting_sound (by decide) h₃
  · exact wordSetting_sound (by decide) h₄
  · exact wordSetting_sound (by decide) h₅
  · exact textSetting_sound (by decide) _
  · exact textSetting_sound (by decide) _

theorem settings_nodup (c : Config) : (c.settings.map (·.key)).Nodup := by
  cases e : c.otelEndpoint <;> simp [settings, e, textSetting, wordSetting]

theorem word?_toNat (n : UInt64) : word? (.integer n.toNat) = some n := by simp [word?]

/-- Every setting is found under its key, and an endpoint that has no line is not set. -/
theorem ofMembers?_settings (c : Config) :
    ofMembers? (c.settings.map fun l => (l.key, l.value)) = some c := by
  obtain ⟨_, _, _, _, _, _, endpoint, _⟩ := c
  cases endpoint <;>
    simp [ofMembers?, setting, settings, textSetting, wordSetting, text?, word?_toNat,
      List.lookup_cons]

theorem ofToml_toToml? (h : c.toToml? = some text) : ofToml text = .ok c := by
  have writable := writable_of_toToml? h
  obtain rfl := Option.some.inj (h.symm.trans (toToml?_of_writable writable))
  rw [ofToml, Toml.parse?_assignments (settings_sound writable) (settings_nodup c),
    Option.bind_some, ofMembers?_settings]

end ScriptHost.Config
