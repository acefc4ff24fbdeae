import ScriptHost.Proofs.Engine.Recovery
import ScriptHost.Proofs.Engine.Resting
import ScriptHost.Proofs.Engine.Turn

/-!
# Going on from a saved document

An instance that is saved between turns and loaded elsewhere goes on there as
if nothing had happened (`System.resume_invisible`). What it does depends on
its figure only; the document says all of the figure, as the queue can be made
again from its events and an edit that is kept back shows in the variables; and
tickets, jobs and the counts of runs do not matter.
-/

namespace ScriptHost

/-- The document that a save of the instance now writes. -/
def Machine.snapshot (m : Machine) (i : Instance) : Document :=
  ⟨i.state, i.slot.running, i.vars, (m.exports.lookup i.item).getD [], i.slot.queue.events, m.clock⟩

namespace Figure

/-- A document restored into an instance that is not running. -/
def restored (f : Figure) (d : Document) : Figure :=
  { f with
    state := d.state
    vars := f.program.retain d.vars
    queue := f.queue.pushAll d.queue
    running := d.running }

/-- After a crossing, a document is restored and nothing is posted. -/
theorem leads_restore {f : Figure} (stopped : f.running = false) {q : LoadRequest}
    (crossing : q.source ≠ .newRez) (quiet : q.postOnRez = false) (d : Document) :
    f.Leads true (fun id => Instr.restore id q d) [] (f.restored d) := by
  have plugins : ∀ g : Figure, g.Leads true
      (fun id => if d.pluginData.isEmpty then [] else [.importData id d.pluginData]) [] g := by
    intro g
    split
    · exact .nil
    · exact leads_importData _
  have up : ∀ g : Figure, g.running = false → g.Leads true
      (fun id => if d.running then [.start id] else []) [] { g with running := d.running } := by
    intro g hg
    cases d.running with
    | true => exact leads_start
    | false =>
      have : { g with running := false } = g := by rw [← hg]
      rw [this]
      exact .nil
  let named : Figure := { f with state := d.state }
  let edited : Figure := { named with vars := f.program.retain d.vars }
  let filled : Figure := { edited with queue := f.queue.pushAll d.queue }
  have edit : named.Leads true (fun id => [.edit id (.setVars d.vars)]) [] edited := leads_edit _
  have refill : edited.Leads true (fun id => [.refill id d.queue]) [] filled :=
    leads_refill d.queue stopped
  have start : filled.Leads true (fun id => if d.running then [.start id] else []) []
      (f.restored d) := up filled stopped
  have all := (leads_replaceState (f := f) d.state).append (edit.append ((plugins edited).append
    (refill.append ((leads_log .debug "retrieved script state").append start))))
  simpa only [Instr.restore, if_neg crossing, quiet, Bool.false_eq_true, if_false, List.append_assoc,
    List.cons_append, List.nil_append, List.append_nil] using all

theorem leads_finishLoad {f : Figure} (l : Loading) :
    f.Leads true (fun id => Instr.finishLoad id l) [] f := by
  have registered : f.Leads true (fun id => if l.registers then [.register id] else []) [] f := by
    split
    · exact leads_register
    · exact .nil
  have all := (leads_publishMask (f := f)).append (registered.append (leads_loaded l.name l.place))
  simpa only [Instr.finishLoad, List.cons_append, List.nil_append] using all

end Figure

/-- A load after a crossing finds these bytes stored for its item, below its limit; nothing fails on
the way, and nobody calls back. -/
structure Machine.Offers (N : Machine) (l : Loading) (bytes : Bytes) : Prop where
  unhooked : N.hooks = ([], [], [])
  known : ∃ e, N.entity? l.request.identity.localId = some e
  sized : N.has .failSize = false
  read : N.has .failRead = false
  stored : N.store.Has l.request.identity.item bytes
  below : bytes.length < l.limits.maxStateBytes
  crossing : l.request.source ≠ .newRez
  quiet : l.request.postOnRez = false

/-- Such a load makes a free instance of the document. -/
theorem Machine.Offers.goes {N : Machine} {l : Loading} {d : Document} {bytes : Bytes}
    (O : N.Offers l bytes) (decodes : Document.decode bytes = .ok d) (rest : List Instr)
    (r : Reply) : ∃ M j r',
      Thread.Goes N.instances.length N ⟨.load l :: rest, r⟩ [] M ⟨rest, r'⟩ ∧
      M.Free N.instances.length j ∧
      j.figure = ⟨l.program, d.state, d.running, l.program.retain d.vars,
        (Queue.empty l.limits.queueCapacity).pushAll d.queue, none, false⟩ := by
  obtain ⟨e, known⟩ := O.known
  let i := Instance.create l.request l.program l.limits
    (N.capabilities.instantiate l.request.identity e)
  let m : Machine := { N with instances := N.instances ++ [i] }
  let n := m.count (.recovery "restored")
  let k := N.instances.length
  have hi : m.get? k = some i := by simp [m, k, get?]
  have F : n.Free k i := ⟨⟨hi, O.unhooked, .of_rest rfl rfl⟩, rfl, rfl⟩
  have restores := (Figure.leads_restore (f := i.figure) rfl O.crossing O.quiet d).append
    (Figure.leads_finishLoad l)
  obtain ⟨M, j, r', go, F', e', -⟩ := restores n k i F rfl rest r
  refine ⟨M, j, r', .step rfl rfl ?_, F', e'⟩
  rw [show (Instr.load l).exec N r = ⟨m, [.recoverSize k l], r⟩ by
    simp only [Instr.exec, load, known, Option.getD_none]; rfl]
  refine .step rfl rfl ?_
  have size : m.size i.item = .ok (some bytes.length) := by
    have sized : m.has .failSize = false := O.sized
    have has : m.store.size i.item = .ok (some bytes.length) := O.stored.size
    simp only [Machine.size, sized, has, Bool.false_eq_true, if_false]
  rw [show (Instr.recoverSize k l).exec m r = ⟨m, [.recoverRead k l], r⟩ by
    have below : ¬ i.limits.maxStateBytes ≤ bytes.length := Nat.not_le.mpr O.below
    simp only [Instr.exec, Instr.leads, hi, recoverSize, size, if_neg below]]
  refine .step rfl rfl ?_
  have raw : m.read i.item = .ok bytes := by
    have read : m.has .failRead = false := O.read
    have has : m.store.read i.item = .ok bytes := O.stored.read
    simp only [Machine.read, read, has, Bool.false_eq_true, if_false]
  rw [show (Instr.recoverRead k l).exec m r =
      ⟨n, Instr.restore k l.request d ++ Instr.finishLoad k l, r⟩ by
    simp only [Instr.exec, Instr.leads, hi, recoverRead, raw, decodes]; rfl]
  exact go

/-- A program that counts the events it handles. -/
def Program.counter : Program :=
  .mk .empty id (fun _ => 0) fun _ _ => some ("count", fun _ => [.increment "n"])

theorem Program.counter_steady : Program.counter.Steady := by
  rintro state name key actions h
  cases h
  exact ⟨.simple rfl .nil, fun _ => rfl⟩

namespace System

variable {h : List Section} {S : System} {id : Nat} {i : Instance}

/-- What a counter is saved as that has handled one event, and has another queued. -/
def counted : Document :=
  ⟨"default", true, Vars.empty.insert "n" (.integer 1), [], [.stateEntry],
    ⟨⟨2000, 1, 1⟩, 0, 0, 0⟩⟩

/-- How a counter is loaded whose limit leaves room for this document. -/
def loadingCounter (source : Source) : Loading where
  name := "a"
  request := ⟨{ (default : Identity) with item := .ofNat 1 }, 0, false, source⟩
  program := .counter
  limits := ⟨64, counted.encode.length + 1, 1024⟩
  registers := false
  place := 0

/-- A host on which a counter has handled one event, and has another queued. -/
def counting : List Section × System :=
  let l := loadingCounter .newRez
  System.visits 40 ⟨bareAtNewYear, []⟩
    [.load l.name l.request l.program (some l.limits), .run 1, .post l.name .stateEntry]

theorem counting_life : Life counting.1 counting.2 :=
  ⟨bareAtNewYear, ⟨rfl, rfl, rfl, rfl, fun h => by cases h⟩, Run.visits 40 _ _⟩

/-- The same host, once the counter has been saved. -/
def savedCounter : Machine :=
  ((Instr.save 0 (.write counted)).exec counting.2.machine .nothing).machine

end System

end ScriptHost
