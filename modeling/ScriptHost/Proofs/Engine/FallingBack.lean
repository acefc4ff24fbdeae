import ScriptHost.Proofs.Engine.SettingUp

/-!
# Loads that give a document up

Whatever keeps a load from restoring a document, be it that nothing is stored,
that the store fails, that the document is too large or that its bytes are no
document: what is left to do is the same, and it is blind to what has been
noted. So nothing shows which it was but log lines and the path that was noted
(`Machine.recovery_ladder`).
-/

namespace ScriptHost

/-- Notes that tell more than how a load went about it. -/
def Note.told : Note → Bool
  | .log _ _ | .count (.recovery _) => false
  | _ => true

namespace Machine

/-- Two machines that are told apart by nothing but their stores, what they logged and the paths
that their loads took. -/
structure Alike (m m' : Machine) : Prop where
  same : m.recast m'.conduct m'.trace = m'
  told : m.trace.filter Note.told = m'.trace.filter Note.told

theorem Alike.of_recast (m : Machine) {t t' : List Note} (c c' c₁ c₂ : Conduct)
    (h : t.filter Note.told = t'.filter Note.told) :
    Alike ((m.recast c t).amid c₁) ((m.recast c' t').amid c₂) := ⟨rfl, h⟩

theorem Alike.get? {m m' : Machine} (h : m.Alike m') (id : Nat) : m.get? id = m'.get? id := by
  rw [← h.same]
  rfl

/-- What a load does that gives the document up. -/
def fallback (m : Machine) (l : Loading) : List Instr :=
  Instr.freshStart m.instances.length l.request ++ Instr.finishLoad m.instances.length l

/-- A machine on which a load has just given the document up; it has noted the path and logged
something. -/
def fallen (m : Machine) (l : Loading) (e : Entity) (c : Conduct) (lines : List Note)
    (path : String) : Machine :=
  (m.made (m.newcomer l e)).recast c (lines ++ .count (.recovery path) :: m.trace)

section

variable {m : Machine} {l : Loading} {e : Entity} {lines lines' : List Note} {path path' : String}
  {c c' : Conduct}

theorem settling_fallback : ∀ a ∈ m.fallback l, a.settling = true := fun a ha => by
  rcases List.mem_append.mp ha with ha | ha
  · exact Instr.settling_freshStart _ _ a ha
  · exact Instr.settling_finishLoad _ _ a ha

theorem filterMap_lines {α : Type} {f : Note → Option α}
    (plain : ∀ level s, f (.log level s) = none)
    (logged : ∀ n ∈ lines, ∃ level s, n = .log level s) : lines.filterMap f = [] :=
  List.filterMap_eq_nil_iff.mpr fun n hn => by
    obtain ⟨level, s, rfl⟩ := logged n hn
    exact plain level s

theorem recoveries_fallen (logged : ∀ n ∈ lines, ∃ level s, n = .log level s) :
    (m.fallen l e c lines path).recoveries = path :: m.recoveries := by
  simp only [recoveries, fallen, recast, List.filterMap_append,
    filterMap_lines (f := Note.recovery?) (fun _ _ => rfl) logged]
  rfl

/-- After that, no plugin is given anything. -/
theorem imports_fallen (logged : ∀ n ∈ lines, ∃ level s, n = .log level s) (c' : Conduct) :
    (((m.fallen l e c lines path).after (m.fallback l)).amid c').imports = m.imports := by
  have quiet : ∀ {α : Type} {f : Note → Option α}, (∀ level s, f (.log level s) = none) →
      f (.count (.recovery path)) = none →
      (m.fallen l e c lines path).trace.filterMap f = m.trace.filterMap f := fun plain hf => by
    simp only [fallen, recast, List.filterMap_append, List.filterMap_cons, hf,
      filterMap_lines plain logged, List.nil_append]
  have new : m.SetUp (m.fallen l e c lines path) l.request.identity m.instances.length
      (m.newcomer l e) [] :=
    .of_made rfl rfl (quiet (fun _ _ => rfl) rfl) (quiet (fun _ _ => rfl) rfl)
  obtain ⟨g, sets⟩ := Figure.sets_freshStart (f := (m.newcomer l e).figure) rfl l.request
  obtain ⟨i, U, -⟩ := (sets.append (Figure.sets_finishLoad l)) _ _ _ _ _ _ new rfl
  exact (U.amid c').imports

/-- And whatever has been noted, what is done is the same. -/
theorem alike_fallen (logged : ∀ n ∈ lines, ∃ level s, n = .log level s)
    (logged' : ∀ n ∈ lines', ∃ level s, n = .log level s) (c₁ c₂ : Conduct) :
    Alike (((m.fallen l e c lines path).after (m.fallback l)).amid c₁)
      (((m.fallen l e c' lines' path').after (m.fallback l)).amid c₂) := by
  obtain ⟨new, same⟩ := Blind.after (settling_fallback (m := m) (l := l)) (m.made (m.newcomer l e))
  simp only at same
  have untold : ∀ {lines : List Note}, (∀ n ∈ lines, ∃ level s, n = .log level s) →
      lines.filter Note.told = [] := fun logged => List.filter_eq_nil_iff.mpr fun n hn => by
    obtain ⟨level, s, rfl⟩ := logged n hn
    exact Bool.false_ne_true
  unfold fallen
  rw [same, same]
  refine .of_recast _ _ _ _ _ ?_
  simp only [List.filter_append, untold logged, untold logged', List.nil_append]
  rfl

end

/-- The document store does whatever it likes. A load comes to its end, and it fails exactly if there
is no entity for the script; then it has done nothing but look for the entity, and has logged that
there is none. Otherwise it restores a document exactly if the store gives its size, which is below
the limit, and then its bytes, which decode; and the instance that it makes is then what the document
says. If it does not, then plugins are given nothing, and the load leaves what the same load leaves
where nothing is stored: the same instance, with the same turns asked for and masks sent. -/
theorem recovery_ladder (m : Machine) (c : Nat → Conduct) (l : Loading) (r : Reply) :
    ∃ course M r', Thread.Ends c 0 m ⟨[.load l], r⟩ course M r' ∧
      ((∃ x, r' = .failed x) ↔ m.entity? l.request.identity.localId = none) ∧
      (m.entity? l.request.identity.localId = none → course = [.load l] ∧
        M = (m.log .error "entity unavailable, script not started").amid (c 0)) ∧
      (m.entity? l.request.identity.localId ≠ none →
        (M.recoveries = "restored" :: m.recoveries ↔ ∃ d, m.Finds c l d) ∧
        (∀ d, m.Finds c l d → ∃ i, M.get? m.instances.length = some i ∧ i.Restored l d) ∧
        ((∀ d, ¬ m.Finds c l d) → M.imports = m.imports ∧
          ∀ c₀, (m.amid (c₀ 1)).size l.request.identity.item = .ok none →
            ∀ {course₀ M₀ r₀}, Thread.Ends c₀ 0 m ⟨[.load l], r⟩ course₀ M₀ r₀ →
              M.Alike M₀ ∧ M.get? m.instances.length = M₀.get? m.instances.length ∧
                r' = r₀)) := by
  cases known : m.entity? l.request.identity.localId with
  | none =>
    exact ⟨_, _, _, .of_unknown known r, ⟨fun _ => rfl, fun _ => ⟨_, rfl⟩⟩, fun _ => ⟨rfl, rfl⟩,
      fun h => absurd rfl h⟩
  | some e =>
    -- What happens to a load that finds nothing, whichever way the store has of it.
    have falls : ∀ c, (∀ d, ¬ m.Finds c l d) → ∃ course lines path c₁ c₂,
        path ≠ "restored" ∧ (∀ n ∈ lines, ∃ level s, n = .log level s) ∧
        Thread.Ends c 0 m ⟨[.load l], r⟩ course
          (((m.fallen l e c₁ lines path).after (m.fallback l)).amid c₂) .loaded := by
      intro c nothing
      obtain ⟨k, lines, path, c₁, other, logged, before, reaches⟩ :=
        Thread.Comes.gives_up_of_unfound known nothing r
      obtain ⟨_, c₂, ends⟩ := Thread.Ends.finishes (c := c) (k := k) (r := r)
        (m := m.fallen l e c₁ lines path)
        (Instr.settling_freshStart m.instances.length l.request) l
      exact ⟨_, lines, path, c₁, c₂, other, logged, reaches _ _ _ ends⟩
    by_cases found : ∃ d, m.Finds c l d
    · obtain ⟨d, finds⟩ := found
      obtain ⟨course, M, -, ends, noted, -⟩ := sets_up_document known finds r
      refine ⟨course, M, .loaded, ends, ⟨nofun, nofun⟩, nofun, fun _ =>
        ⟨⟨fun _ => ⟨d, finds⟩, fun _ => noted⟩, fun d' finds' => ?_,
          fun nothing => absurd finds (nothing d)⟩⟩
      obtain ⟨_, _, i, ends', -, U, restored, -⟩ := sets_up_document known finds' r
      obtain ⟨-, rfl, -⟩ := ends'.unique ends
      exact ⟨i, U.here, restored⟩
    · have nothing : ∀ d, ¬ m.Finds c l d := fun d finds => found ⟨d, finds⟩
      obtain ⟨course, lines, path, c₁, c₂, other, logged, ends⟩ := falls c nothing
      refine ⟨_, _, _, ends, ⟨nofun, nofun⟩, nofun, fun _ =>
        ⟨⟨fun restored => ?_, fun f => absurd f found⟩, fun d finds => absurd finds (nothing d),
          fun _ => ⟨imports_fallen logged c₂, fun c₀ empty course₀ M₀ r₀ ends₀ => ?_⟩⟩⟩
      · have noted : (((m.fallen l e c₁ lines path).after (m.fallback l)).amid c₂).recoveries =
            path :: m.recoveries := by
          rw [recoveries_amid, recoveries_after settling_fallback, recoveries_fallen logged]
        exact absurd (List.cons.inj (noted.symm.trans restored)).1 other
      · have none : ∀ d, ¬ m.Finds c₀ l d := fun d ⟨size, _, sized, _⟩ => by
          rw [empty] at sized
          cases sized
        obtain ⟨_, lines', path', c₁', c₂', -, logged', ends'⟩ := falls c₀ none
        obtain ⟨-, rfl, rfl⟩ := ends'.unique ends₀
        have alike : Alike (((m.fallen l e c₁ lines path).after (m.fallback l)).amid c₂)
            (((m.fallen l e c₁' lines' path').after (m.fallback l)).amid c₂') :=
          alike_fallen logged logged' c₂ c₂'
        exact ⟨alike, alike.get? _, rfl⟩

/-- The store has a document, and gives its size, but fails when its bytes are asked for. -/
def heapedLost : Nat → Conduct := fun k =>
  { heapedStored k with defects := if k = 2 then [.failRead] else [] }

theorem recovery_ladder_lost : ∃ course M r,
    Thread.Ends heapedLost 0 System.bareAtNewYear ⟨[.load loadingHeaped], .nothing⟩ course M r ∧
      M.recoveries ≠ ["restored"] ∧ M.imports = [] ∧
      ∀ course₀ M₀ r₀, Thread.Ends (fun _ => ⟨default, []⟩) 0 System.bareAtNewYear
        ⟨[.load loadingHeaped], .nothing⟩ course₀ M₀ r₀ →
        M.Alike M₀ ∧ M.get? 0 = M₀.get? 0 ∧ r = r₀ := by
  obtain ⟨course, M, r, ends, -, -, known⟩ :=
    recovery_ladder System.bareAtNewYear heapedLost loadingHeaped .nothing
  obtain ⟨restores, -, falls⟩ := known (by decide)
  have nothing : ∀ d, ¬ System.bareAtNewYear.Finds heapedLost loadingHeaped d :=
    fun d ⟨_, _, _, _, read, _⟩ => by cases read
  have unrestored : M.recoveries ≠ ["restored"] := fun h =>
    (restores.mp h).elim nothing
  obtain ⟨plugins, alike⟩ := falls nothing
  exact ⟨course, M, r, ends, unrestored, plugins, fun _ _ _ ends₀ => alike _ rfl ends₀⟩

end Machine

end ScriptHost
