import ScriptHost.Proofs.Engine.Run

/-!
# What sections note

Sections note what is asked of the pool and what the world is told of a script,
log lines and counts (`Note.common`), and most of them nothing else. The call of
a handler and the writing of a document are each noted by one kind of section
(`Section.calls_eq`, `Section.written_eq`).
-/

namespace ScriptHost

/-- Notes of neither a call nor a document, nor what the world does, nor how a handler has ended,
nor of what operations begin and come to. -/
def Note.common : Note → Bool
  | .exec _ _ _ _ _ | .write _ _ | .message _ _ _ _ _ | .delete _ | .span _ _ _ _
  | .count (.executed _) | .began _ | .op _ => false
  | _ => true

namespace Machine

/-- Only common notes have been added. -/
def Common (m m' : Machine) : Prop := ∃ l, m'.trace = l ++ m.trace ∧ ∀ n ∈ l, n.common = true

namespace Common

variable {m n m' : Machine}

theorem refl (m : Machine) : m.Common m := ⟨[], rfl, fun _ h => (List.not_mem_nil h).elim⟩

theorem note (h : m.Common n) (x : Note) (hx : x.common = true) : m.Common (n.note x) := by
  obtain ⟨l, e, common⟩ := h
  exact ⟨x :: l, congrArg (x :: ·) e, List.forall_mem_cons.mpr ⟨hx, common⟩⟩

theorem log (h : m.Common n) (l : Level) (s : String) : m.Common (n.log l s) := h.note _ rfl

theorem modify (h : m.Common n) (k : Nat) (f : Instance → Instance) : m.Common (n.modify k f) := h

theorem ite {c : Prop} [Decidable c] (h : m.Common n) (h' : m.Common m') :
    m.Common (if c then n else m') := by
  split
  · exact h
  · exact h'

theorem requestTurn (h : m.Common n) (k : Nat) : m.Common (n.requestTurn k) := by
  unfold Machine.requestTurn
  split
  · exact h
  · exact .note (.note (x := .dispatch _) h rfl) _ rfl

theorem of_about {r : Reply} {k : Nat} {f : Instance → Machine} (h : ∀ i, m.Common (f i)) :
    m.Common (Instr.about m r k f).machine := by
  unfold Instr.about
  split
  · exact h _
  · exact refl m

theorem of_leads {r : Reply} {k : Nat} {f : Instance → Machine × List Instr}
    (h : ∀ i, m.Common (f i).1) : m.Common (Instr.leads m r k f).machine := by
  unfold Instr.leads
  split
  · exact h _
  · exact refl m

end Common

variable (m : Machine) (i : Instance) (id : Nat)

/-! ## What is done to an instance -/

theorem common_start : m.Common (m.start id i) := by
  unfold start
  split
  · exact .refl m
  · have begun : m.Common (m.modify id (·.setRunning true)) := .refl m
    exact .ite begun (.ite (begun.requestTurn id) (begun.log _ _))

theorem common_beginStop : m.Common (m.beginStop id i).1 := by
  unfold beginStop
  split
  · exact .refl m
  · split
    · exact .refl m
    · next turn _ =>
      have asked : m.Common (m.cancel turn.job) :=
        .ite (.note (.refl m) (.cancel _ _) rfl) (.note (.refl m) (.cancel _ _) rfl)
      simp only
      split <;> exact asked

theorem common_abort (job : Nat) : m.Common (m.abort job) := by
  have asked : m.Common (m.note (.abort job)) := .note (.refl m) _ rfl
  unfold abort
  simp only
  split
  · exact asked
  · split
    · exact asked
    · exact asked.log _ _
    · exact asked

theorem common_forceAbort (turn : Turn) : m.Common (m.forceAbort i turn) := by
  unfold forceAbort
  split
  · exact .note (.log (.refl m) _ _) _ rfl
  · obtain ⟨l, e, common⟩ := (m.log .warn "event did not finish in time, aborting").common_abort
      turn.job
    exact .note ⟨l ++ [_], by rw [e, List.append_assoc]; rfl,
      List.forall_mem_append.mpr ⟨common, List.forall_mem_singleton.mpr rfl⟩⟩ _ rfl

theorem common_endStop (turn : Turn) : m.Common (m.endStop id i turn) := by
  have released : m.Common (m.modify id fun i => i.release.clearSnapshot) := .refl m
  exact .ite (.ite (released.requestTurn id) released) (.refl m)

theorem common_post (e : Event) : m.Common (m.post id i e).1 := by
  unfold post
  split
  · exact .note (x := .count (.posted _)) (.refl m) rfl
  · have queued : ∀ q, m.Common (m.modify id (·.setQueue q)) := fun _ => .refl m
    exact .note (x := .count (.posted _)) (.ite ((queued _).requestTurn id) (queued _)) rfl

theorem common_remove (item : Uuid) : m.Common (m.remove item).1 := by
  have asked : m.Common (m.note (.remove item)) := .note (.refl m) _ rfl
  unfold remove
  simp only
  split
  · exact asked
  · split <;> exact asked

theorem common_edit (e : Edit) : m.Common (m.edit id i e) :=
  .modify (.ite (.log (.refl m) _ _) (.refl m)) id _

theorem common_publishMask : m.Common (m.publishMask id i) :=
  .modify (.ite (.log (.refl m) _ _) (.note (.refl m) _ rfl)) id _

theorem common_settle : m.Common (m.settle id) := by
  unfold settle
  split
  · exact .refl m
  · exact .modify (.ite (.note (.refl m) _ rfl) (.refl m)) id _

/-! ## Turns -/

theorem common_finishTurn (ticket : Nat) : m.Common (m.finishTurn id i ticket) := by
  have cleared : m.Common (m.modify id Instance.clearSnapshot) := .refl m
  exact .ite (.ite (cleared.requestTurn id) cleared) (.log (.refl m) _ _)

theorem common_takeTurn (ticket job : Nat) : m.Common (m.takeTurn id i ticket job).1 := by
  unfold takeTurn
  split
  · split
    · exact .refl m
    · simp only
      split
      · unfold switchState
        split <;> exact .log (.refl m) _ _
      · exact .refl m
  · exact .log (.refl m) _ _

theorem common_act (v : Invocation) (l : List Action) : m.Common (m.act i v l).1 := by
  cases l with
  | nil => exact .refl m
  | cons a l =>
    cases a with
    | takeArgument => simp only [act]; split <;> exact .refl m
    | cancelIfInterrupted => simp only [act]; split <;> exact .refl m
    | showInterrupt | showContext | showCapability => exact .note (.refl m) _ rfl
    | _ => exact .refl m

theorem common_conclude (v : Invocation) (o : Outcome) : m.Common (m.conclude v o).1 := by
  cases o with
  | eventAborted | cancelled => exact .log (.refl m) _ _
  | _ => exact .refl m

theorem common_selfDelete : m.Common (m.selfDelete id i).1 := by
  unfold selfDelete
  simp only [takeDeleteHook]
  split
  · exact .log (.refl m) _ _
  · split <;> exact .log (.refl m) _ _

theorem common_showFault (f : Fault) : m.Common (m.showFault i f).1 := by
  have faulty : m.Common ((m.count .fault).log .error "script runtime error") :=
    .log (.note (x := .count .fault) (.refl m) rfl) _ _
  unfold showFault
  simp only [takeMessageHook]
  split
  · exact faulty.log _ _
  · split <;> exact faulty

theorem common_run (turns ran : Nat) : m.Common (m.run turns ran).1 := by
  unfold run
  split
  · exact .refl m
  · exact .refl m
  · split
    · exact .refl m
    · split <;> exact .refl m

/-! ## Documents and loads -/

theorem common_save {s : Saving} (h : ∀ d, s ≠ .write d) : m.Common (m.save id i s).1 := by
  cases s with
  | write d => exact absurd rfl (h d)
  | verify =>
    simp only [save]
    split
    · exact .note (x := .count (.save true)) (.refl m) rfl
    · exact .log (.note (x := .count (.save false)) (.refl m) rfl) _ _
  | _ => exact .refl m

theorem common_write (item : Uuid) (data : Bytes) :
    (m.note (.write item data.length)).Common (m.write item data).1 := by
  unfold write
  simp only
  split
  · exact .refl _
  · split
    · exact .refl _
    · split
      · exact .ite (.log (.refl _) _ _) (.refl _)
      · exact .refl _

theorem common_load (l : Loading) : m.Common (m.load l).1 := by
  unfold load
  simp only
  split
  · exact .log (.refl m) _ _
  · exact .refl m

theorem common_startFresh (l : Loading) (path : String) : m.Common (m.startFresh id l path).1 := by
  have counted : m.Common (m.count (.recovery path)) := .note (.refl m) _ rfl
  unfold startFresh
  simp only
  split
  · exact counted.log _ _
  · exact counted.log _ _
  · exact counted

theorem common_recoverSize (l : Loading) : m.Common (m.recoverSize id i l).1 := by
  unfold recoverSize
  split
  · exact m.common_startFresh id l _
  · split
    · exact m.common_startFresh id l _
    · exact .refl m
  · exact m.common_startFresh id l _

theorem common_recoverRead (l : Loading) : m.Common (m.recoverRead id i l).1 := by
  unfold recoverRead
  split
  · exact m.common_startFresh id l _
  · split
    · exact m.common_startFresh id l _
    · exact .note (.refl m) _ rfl

/-! ## Operations -/

theorem common_onInstance (o : Op) : m.Common (m.onInstance id i o).1 := by
  cases o <;> exact .refl m

theorem common_onEngine (o : Op) : m.Common (m.onEngine o).1 := by
  cases o with
  | load name request program direct =>
    cases direct with
    | some limits => exact .refl m
    | none =>
      simp only [onEngine, loadReplacing]
      split
      · exact .refl m
      · exact .log (.refl m) _ _
  | remove item => simp only [onEngine, removeScript]; split <;> exact .refl m
  | postItem item e => simp only [onEngine]; split <;> exact .refl m
  | pad item more least => simp only [onEngine, padDocument]; split <;> exact .refl m
  | store query item =>
    cases query with
    | remove => exact m.common_remove item
    | _ => exact .refl m
  | shutdown => exact .log (.refl m) _ _
  | _ => exact .refl m

theorem common_perform (o : Op) : m.Common (m.perform o).1 := by
  unfold perform
  split
  · exact m.common_onEngine o
  · split
    · exact .refl m
    · split
      · exact .refl m
      · exact m.common_onInstance _ _ o

end Machine

/-! ## Sections -/

namespace Instr

/-- Sections that note more than what is common. -/
def notable : Instr → Bool
  | .enter _ | .save _ (.write _) | .deleted _ | .delivered _ _ | .record _ _
  | .count (.executed _) | .noteBegin _ | .noteReply => true
  | _ => false

theorem common_exec {a : Instr} (h : a.notable = false) (m : Machine) (r : Reply) :
    m.Common (a.exec m r).machine := by
  have plain : ∀ x : Note, x.common = true → m.Common (m.note x) := fun _ => .note (.refl m) _
  cases a with
  | enter | deleted | delivered | record | noteBegin | noteReply => cases h
  | count metric => cases metric <;> first | exact plain _ rfl | cases h
  | op o => exact m.common_perform o
  | log => exact plain _ rfl
  | start id => exact .of_about fun i => m.common_start i id
  | stop id ms => exact .of_leads fun i => m.common_beginStop i id
  | stopWait id ms turn =>
    simp only [exec]
    split <;> exact plain _ rfl
  | stopWaited => simp only [exec]; split <;> exact .refl m
  | stopCheck | stateEntryUnlessCurrent | readDetected => exact .of_leads fun _ => .refl m
  | stopAbort id turn => exact .of_about fun i => m.common_forceAbort i turn
  | stopEnd id turn => exact .of_about fun i => m.common_endStop i id turn
  | post id e =>
    simp only [exec]
    split
    · exact m.common_post _ id e
    · exact .refl m
  | edit id e => exact .of_leads fun i => m.common_edit i id e
  | clearPermissions | removePlugins | importData => exact .of_about fun _ => plain _ rfl
  | removeState id =>
    refine .of_about fun i => ?_
    exact .ite (.log (m.common_remove i.item) _ _) (m.common_remove i.item)
  | publishMask id => exact .of_leads fun i => m.common_publishMask i id
  | reset => exact .of_leads fun _ => plain _ rfl
  | shutdownEach l first =>
    cases l with
    | nil => exact .refl m
    | cons => exact .of_leads fun _ => .refl m
  | save id s =>
    have apart : ∀ d, s ≠ .write d := by
      rintro d rfl
      cases h
    simp only [exec]
    split
    · exact m.common_save _ id apart
    · exact .refl m
  | saveEach l first => cases l <;> exact .refl m
  | load l => exact m.common_load l
  | recoverSize id l => exact .of_leads fun i => m.common_recoverSize i id l
  | recoverRead id l => exact .of_leads fun i => m.common_recoverRead i id l
  | register => exact .of_about fun _ => .log (.refl m) _ _
  | postEach l e n => cases l <;> exact .refl m
  | run turns ran => exact m.common_run turns ran
  | takeTurn id ticket job => exact .of_leads fun i => m.common_takeTurn i id ticket job
  | settle id => exact m.common_settle id
  | act v l => exact .of_leads fun i => m.common_act i v l
  | applyRequests v o =>
    refine .of_leads fun i => ?_
    split
    · exact .refl m
    · exact .ite (.refl m) (plain _ rfl)
  | conclude v o => exact m.common_conclude v o
  | selfDelete id => exact .of_leads fun i => m.common_selfDelete i id
  | showFault v f => exact .of_leads fun i => m.common_showFault i f
  | finishTurn id ticket => exact .of_about fun i => m.common_finishTurn i id ticket
  | _ => exact .refl m

end Instr

/-- What a section notes that is not common. -/
def Instr.remarks (m : Machine) : Instr → List Note
  | .enter v => ((m.get? v.id).map fun i => .exec i.item i.state v.event.name
      (v.event.args.map Value.text) (v.detected.map (·.name))).toList
  | .save id (.write d) => ((m.get? id).map fun i => .write i.item d.encode.length).toList
  | .deleted e => if m.has .refuseDelete then [] else [.delete e.id]
  | .delivered text e =>
    if m.has .refuseMessages then []
    else [.message text Int32.maxValue e.position e.name e.id]
  | .record v o => match m.get? v.id with
    | some i => [.span i.item v.event.name v.state o.status, .count (.executed o.status)]
    | none => []
  | .count (.executed status) => [.count (.executed status)]
  | .noteBegin o => [.began o]
  | .noteReply => [.op .nothing]
  | _ => []

theorem Instr.remarks_of_common {a : Instr} (h : a.notable = false) (m : Machine) :
    a.remarks m = [] := by
  unfold notable at h
  unfold remarks
  split at h <;> first | rfl | cases h

namespace Section

variable {s : Section} {m : Machine} {a : Instr} {i : Instance}

/-- What the section notes, but for what is common. -/
def uncommon (s : Section) : List Note := s.notes.filter fun n => !n.common

theorem uncommon_of_trace {l : List Note} (h : (a.exec m .nothing).machine.trace = l ++ m.trace) :
    uncommon ⟨m, a⟩ = (l.filter fun n => !n.common).reverse := by
  rw [uncommon, notes_eq h, List.filter_reverse]

theorem uncommon_of_common (h : m.Common (a.exec m .nothing).machine) : uncommon ⟨m, a⟩ = [] := by
  obtain ⟨l, e, common⟩ := h
  rw [uncommon_of_trace e, List.reverse_eq_nil_iff, List.filter_eq_nil_iff]
  exact fun n hn => by simp [common n hn]

theorem uncommon_of_note {x : Note} (h : (m.note x).Common (a.exec m .nothing).machine)
    (hx : x.common = false) : uncommon ⟨m, a⟩ = [x] := by
  obtain ⟨l, e, common⟩ := h
  have after : l.filter (fun n => !n.common) = [] :=
    List.filter_eq_nil_iff.mpr fun n hn => by simp [common n hn]
  have noted : (a.exec m .nothing).machine.trace = (l ++ [x]) ++ m.trace := by
    rw [e, List.append_assoc]
    rfl
  rw [uncommon_of_trace noted, List.filter_append, after]
  simp [hx]

/-- Handlers are called, documents written, outcomes recorded and the world's doings noted where
they happen, and nowhere else. -/
theorem uncommon_eq (s : Section) : s.uncommon = s.instr.remarks s.machine := by
  obtain ⟨m, a⟩ := s
  cases ha : a.notable with
  | false => rw [Instr.remarks_of_common ha, uncommon_of_common (Instr.common_exec ha m .nothing)]
  | true =>
    cases a with
    | enter v =>
      simp only [Instr.remarks]
      cases hi : m.get? v.id with
      | none =>
        refine uncommon_of_common ?_
        simp only [Instr.exec, Instr.leads, hi]
        exact .refl m
      | some i =>
        refine uncommon_of_note ?_ rfl
        simp only [Instr.exec, Instr.leads, hi, Machine.enter]
        split <;> exact .refl _
    | save id s =>
      cases s with
      | write d =>
        simp only [Instr.remarks]
        cases hi : m.get? id with
        | none =>
          refine uncommon_of_common ?_
          simp only [Instr.exec, hi]
          exact .refl m
        | some i =>
          refine uncommon_of_note ?_ rfl
          have written := m.common_write i.item d.encode
          simp only [Instr.exec, hi, Machine.save]
          exact .ite (written.log _ _) written
      | _ => cases ha
    | deleted | delivered =>
      simp only [Instr.remarks]
      split
      · next refuses =>
        refine uncommon_of_common ?_
        simp only [Instr.exec, refuses, if_true]
        exact .log (.refl m) _ _
      · next accepts =>
        refine uncommon_of_note ?_ rfl
        simp only [Instr.exec, accepts]
        exact .refl _
    | record v o =>
      simp only [Instr.remarks]
      split
      · next i hi =>
        have noted : ((Instr.record v o).exec m .nothing).machine.trace =
            [.count (.duration v.event.name), .count (.executed o.status),
              .span i.item v.event.name v.state o.status] ++ m.trace := by
          simp only [Instr.exec, Instr.about, hi]
          rfl
        exact uncommon_of_trace noted
      · next hi =>
        refine uncommon_of_common ?_
        simp only [Instr.exec, Instr.about, hi]
        exact .refl m
    | count metric => cases metric <;> first | exact uncommon_of_note (.refl _) rfl | cases ha
    | noteBegin | noteReply => exact uncommon_of_note (.refl _) rfl
    | _ => cases ha

/-- Whatever is looked for among the notes of a section, but for common ones, is among these. -/
theorem filter_notes {p : Note → Bool} (hp : ∀ n, n.common = true → p n = false) (s : Section) :
    s.notes.filter p = (s.instr.remarks s.machine).filter p := by
  rw [← uncommon_eq, uncommon, List.filter_filter]
  refine List.filter_congr fun n _ => ?_
  cases hn : n.common with
  | true => simp [hp n hn]
  | false => simp

theorem filterMap_notes {α : Type} {f : Note → Option α} (hf : ∀ n, n.common = true → f n = none)
    (s : Section) : s.notes.filterMap f = (s.instr.remarks s.machine).filterMap f := by
  rw [← uncommon_eq, uncommon, List.filterMap_filter]
  refine congrArg (List.filterMap · s.notes) (funext fun n => ?_)
  cases hn : n.common with
  | true => simp [hf n hn]
  | false => simp

end Section

/-! ## Calls of handlers and documents -/

/-- The named state in which a handler is called. -/
def Note.call? : Note → Option String
  | .exec _ state _ _ _ => some state
  | _ => none

/-- The item whose document is written, and how long it is. -/
def Note.written? : Note → Option (Uuid × Nat)
  | .write item size => some (item, size)
  | _ => none

namespace Section

/-- The named states in which the section calls handlers. -/
def calls (s : Section) : List String := s.notes.filterMap Note.call?

/-- The documents that the section gives to the store, by item and length. -/
def written (s : Section) : List (Uuid × Nat) := s.notes.filterMap Note.written?

theorem calls_eq (s : Section) : s.calls = (s.instr.remarks s.machine).filterMap Note.call? :=
  filterMap_notes (fun n hn => by cases n <;> first | rfl | cases hn) s

theorem written_eq (s : Section) :
    s.written = (s.instr.remarks s.machine).filterMap Note.written? :=
  filterMap_notes (fun n hn => by cases n <;> first | rfl | cases hn) s

variable {m : Machine}

/-- A handler is called in the state that the instance has. -/
theorem calls_enter (v : Invocation) :
    calls ⟨m, .enter v⟩ = ((m.get? v.id).map Instance.state).toList := by
  rw [calls_eq]
  cases hi : m.get? v.id <;> simp [Instr.remarks, hi, Note.call?]

/-- Nothing else calls handlers. -/
theorem calls_eq_nil {s : Section} (h : ∀ v, s.instr ≠ .enter v) : s.calls = [] := by
  obtain ⟨m, a⟩ := s
  rw [calls_eq]
  cases a with
  | enter v => exact absurd rfl (h v)
  | save id s =>
    cases s with
    | write d => cases hi : m.get? id <;> simp [Instr.remarks, hi, Note.call?]
    | _ => rfl
  | deleted | delivered | record => simp only [Instr.remarks]; split <;> rfl
  | count metric => cases metric <;> rfl
  | _ => rfl

/-- A document is given to the store under the item of its instance. -/
theorem written_save {id : Nat} {i : Instance} {d : Document} (hi : m.get? id = some i) :
    written ⟨m, .save id (.write d)⟩ = [(i.item, d.encode.length)] := by
  rw [written_eq]
  simp [Instr.remarks, hi, Note.written?]

end Section

end ScriptHost
