import ScriptHost.Proofs.Engine.Turning

/-!
# Where the named state is replaced

The named state of an instance is replaced by its turns, by resets and by a
restore, and by nothing else (`Machine.replaces_next`). Wherever it is, the
mask of the new state is to be published afterwards (`Life.publishes`).
-/

namespace ScriptHost

namespace Instr

/-- The section replaces a named state. -/
def replaces : Instr → Bool
  | .replaceState _ _ => true
  | _ => false

/-- Sections that lead to a replacement of a named state. -/
def leadsToReplace : Instr → Bool
  | .op _ | .takeTurn _ _ _ | .applyRequests _ _ | .reset _ | .recoverRead _ _ => true
  | _ => false

theorem replaces_nested {ops : List Op} : ∀ b ∈ nested ops, b.replaces = false :=
  forall_nested (P := (·.replaces = false)) (fun _ => rfl) (fun _ => rfl) rfl ops

theorem replaces_freshLoad {id : Nat} {l : Loading} :
    ∀ b ∈ freshStart id l.request ++ finishLoad id l, b.replaces = false :=
  List.forall_mem_append.mpr ⟨forall_freshStart (P := (·.replaces = false)) rfl (fun _ => rfl) l.request,
    forall_finishLoad (P := (·.replaces = false)) rfl rfl (fun _ _ => rfl) l⟩

theorem LeadsTo.replaces {m : Machine} {a b : Instr} (h : a.LeadsTo m b)
    (ha : a.leadsToReplace = false) : b.replaces = false := by
  cases h with
  | waitHook h | call h | deleteHook h | messageHook h => exact replaces_nested b h
  | fresh h => exact replaces_freshLoad b h
  | _ => first | rfl | cases ha

end Instr

namespace Machine

theorem replaces_next (m : Machine) (r : Reply) {a : Instr} (h : a.leadsToReplace = false) :
    ∀ b ∈ (a.exec m r).next, b.replaces = false := fun b hb => (m.leadsTo r a b hb).replaces h

/-- Of the operations, only a reset that a script asks for itself replaces a named state. -/
theorem replaces_perform {m : Machine} {o : Op} (h : ∀ name, o ≠ .apiReset name) :
    ∀ b ∈ (m.perform o).2.1, b.replaces = false := by
  intro b hb
  cases begins_perform b hb with
  | apiReset => exact absurd rfl (h _)
  | _ => rfl

end Machine

/-! ## The mask of the new state -/

/-- The mask of a state that replaces another is to be published. -/
def Instr.Publishes (later : List Instr) (a : Instr) : Prop :=
  ∀ id x, a = .replaceState id x → .publishMask id ∈ later

namespace Instr

variable {l r : List Instr}

theorem publishes_of_replaces (h : ∀ b ∈ l, b.replaces = false) : Lined Publishes l :=
  .of_forall fun b hb later id x he => by
    subst he
    cases h _ hb

theorem publishes_append (hl : Lined Publishes l) (hr : Lined Publishes r) :
    Lined Publishes (l ++ r) :=
  Lined.append (hl.imp fun _ _ _ _ h id x he => List.mem_append_left _ (h id x he)) hr

theorem publishes_state {id : Nat} {x : String} (h : .publishMask id ∈ l)
    (hl : Lined Publishes l) : Lined Publishes (.replaceState id x :: l) :=
  ⟨fun _ _ he => by cases he; exact h, hl⟩

theorem publishes_apiReset (id : Nat) : Lined Publishes (apiReset id) :=
  publishes_append (publishes_of_replaces (by simp [revokeGrants, replaces]))
    (publishes_state (by simp) (publishes_of_replaces (by simp [replaces])))

theorem publishes_request (id : Nat) (q : Request) : Lined Publishes (request id q) := by
  cases q with
  | setState x => exact publishes_of_replaces (by simp [request, setState, replaces])
  | reset => exact publishes_apiReset id

theorem publishes_resetAll (id : Nat) (running : Bool) :
    Lined Publishes (resetAll id running) := by
  have start : ∀ b ∈ (if running then [Instr.start id] else []) ++ [.post id .stateEntry],
      b.replaces = false := by
    cases running <;> simp [replaces]
  have all : resetAll id running = ([.stop id 0, .removeState id] ++ revokeGrants id ++
      [.clearQueue id, .edit id .resetVars]) ++ .replaceState id Instance.defaultState ::
        (.publishMask id :: ((if running then [.start id] else []) ++ [.post id .stateEntry])) := by
    simp [resetAll]
  rw [all]
  refine publishes_append (publishes_of_replaces (by simp [revokeGrants, replaces]))
    (publishes_state List.mem_cons_self (publishes_of_replaces ?_))
  exact List.forall_mem_cons.mpr ⟨rfl, start⟩

theorem publishes_restore (id : Nat) (l : Loading) (d : Document) :
    Lined Publishes (restore id l.request d ++ finishLoad id l) := by
  have tail : ∀ b ∈ (restore id l.request d).tail, b.replaces = false := by
    unfold restore
    cases d.pluginData.isEmpty <;> cases d.running <;> cases l.request.postOnRez <;>
      by_cases l.request.source = .newRez <;> simp [replaces, *]
  have load : ∀ b ∈ finishLoad id l, b.replaces = false :=
    forall_finishLoad (P := (·.replaces = false)) rfl rfl (fun _ _ => rfl) l
  have all : restore id l.request d ++ finishLoad id l =
      .replaceState id d.state :: ((restore id l.request d).tail ++ finishLoad id l) := rfl
  rw [all]
  exact publishes_state (List.mem_append_right _ List.mem_cons_self)
    (publishes_of_replaces (List.forall_mem_append.mpr ⟨tail, load⟩))

end Instr

theorem Machine.publishes_perform (m : Machine) (o : Op) :
    Lined Instr.Publishes (m.perform o).2.1 := by
  cases o with
  | apiReset name =>
    simp only [perform, target?]
    split
    · trivial
    · split
      · trivial
      · exact Instr.publishes_append (Instr.publishes_apiReset _)
          (Instr.publishes_of_replaces (by simp [Instr.replaces]))
  | _ => exact Instr.publishes_of_replaces (replaces_perform (fun _ => nofun))

theorem Machine.publishes_next (m : Machine) (r : Reply) (a : Instr) :
    Lined Instr.Publishes (a.exec m r).next := by
  have leads : ∀ {k : Nat} {f : Instance → Machine × List Instr},
      (∀ i, Lined Instr.Publishes (f i).2) → Lined Instr.Publishes (Instr.leads m r k f).next := by
    intro k f h
    unfold Instr.leads
    split
    · exact h _
    · trivial
  by_cases h : a.leadsToReplace = false
  · exact Instr.publishes_of_replaces (replaces_next m r h)
  · cases a with
    | op o => exact publishes_perform m o
    | takeTurn id ticket n =>
      refine leads fun i => ?_
      unfold takeTurn
      split
      · split
        · trivial
        · simp only
          split
          · unfold switchState
            split
            · exact Instr.publishes_of_replaces (by simp [Instr.replaces])
            · exact Instr.publishes_state (by simp)
                (Instr.publishes_of_replaces (by simp [Instr.replaces]))
          · exact Instr.publishes_of_replaces (by simp [Instr.replaces])
      · trivial
    | applyRequests v o =>
      refine leads fun i => ?_
      split
      · refine Instr.publishes_append ?_ (Instr.publishes_of_replaces (by simp [Instr.replaces]))
        induction v.requests with
        | nil => trivial
        | cons q l ih => exact Instr.publishes_append (Instr.publishes_request v.id q) ih
      · exact Instr.publishes_of_replaces (by simp [Instr.replaces])
    | reset id => exact leads fun i => Instr.publishes_resetAll id _
    | recoverRead id l =>
      refine leads fun i => ?_
      unfold recoverRead
      split
      · exact Instr.publishes_of_replaces Instr.replaces_freshLoad
      · split
        · exact Instr.publishes_of_replaces Instr.replaces_freshLoad
        · exact Instr.publishes_restore id l _
    | _ => exact absurd rfl h

namespace System

variable {S T : System} {h : List Section} {id : Nat}

/-- Whoever is to replace a named state is to publish the mask of the new one afterwards. -/
theorem Life.publishes (H : Life h S) : ∀ t ∈ S.threads, Lined Instr.Publishes t.agenda := by
  refine H.lined (fun a later hb id x he => ?_) fun m r a rest => ?_
  · subst he
    cases hb
  · exact (Machine.publishes_next m r a).imp fun _ _ _ _ h id x he =>
      List.mem_append_left _ (h id x he)

/-- After a replacement of the named state the mask is still to be published. -/
theorem Moves.to_publish {x : String} {rest : List Instr} {reply : Reply} {others : List Thread}
    (M : Moves S (.replaceState id x) rest reply others T) (H : Life h S) :
    .publishMask id ∈ T.pending :=
  M.mem_after.mpr (.inr (List.mem_append_left _ ((H.publishes _ M.mover).1 id x rfl)))

end System

end ScriptHost
