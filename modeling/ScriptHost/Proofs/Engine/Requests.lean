import ScriptHost.Proofs.Engine.Delivery
import ScriptHost.Proofs.Engine.Turning
import ScriptHost.Proofs.Model.Queue

/-!
# What a handler has asked for

Once a handler has returned, and its turn is still the outstanding one, what it
has asked for is posted like any other event, in the order of its requests. A
post to an instance that is not running is refused, also if it is the turn that
posts and a stop waits for that turn: `requests_posted` says which requests
reach the queue.
-/

namespace ScriptHost

/-- The events that answer a request, `shown` being the executing event that others see. -/
def Request.events (shown : Option String) : Request → List Event
  | .setState state => [.stateExit, .setState state, .stateEntry]
  | .reset => if shown == some "state_entry" then [] else [.stateEntry]

/-- The event that the section posts, accepted or not. -/
def Section.posted (s : Section) : List Event :=
  match s.instr with
  | .post _ e => [e]
  | _ => []

namespace Instr

/-- What a section of an answered request posts, itself or by what it leads to. -/
def posting (shown : Option String) : Instr → List Event
  | .post _ e => [e]
  | .stateEntryUnlessCurrent _ => if shown == some "state_entry" then [] else [.stateEntry]
  | _ => []

/-- Sections that answer requests. -/
def responds (id : Nat) : Instr → Bool
  | .post k e => k == id && !e.isTimer
  | .count _ => false
  | a => a.carriesOut id

theorem responds_request {id : Nat} {q : Request} : ∀ b ∈ request id q, b.responds id = true := by
  cases q <;> simp [request, setState, apiReset, revokeGrants, responds, carriesOut, Event.isTimer,
    Event.stateExit, Event.stateEntry, Event.setState, Event.plain]

theorem not_blocked_of_responds {m : Machine} {id : Nat} {a : Instr} (h : a.responds id = true) :
    a.blocked m = false := by
  cases a <;> first | rfl | cases h

end Instr

/-- The events that some sections of answered requests post, each showing what it may. -/
inductive Posts (ok : Option String → Prop) : List Instr → List Event → Prop where
  | nil : Posts ok [] []
  | cons {a : Instr} {l : List Instr} {es : List Event} (shown : Option String) : ok shown →
      Posts ok l es → Posts ok (a :: l) (a.posting shown ++ es)

namespace Posts

variable {ok ok' : Option String → Prop} {a : Instr} {l : List Instr} {es : List Event} {id : Nat}

theorem mono (h : Posts ok l es) (himp : ∀ c, ok c → ok' c) : Posts ok' l es := by
  induction h with
  | nil => exact .nil
  | cons c hc _ ih => exact .cons c (himp c hc) ih

theorem uncons (h : Posts ok (a :: l) es) :
    ∃ c es', ok c ∧ es = a.posting c ++ es' ∧ Posts ok l es' := by
  cases h with
  | cons c hc h => exact ⟨c, _, hc, rfl, h⟩

/-- Request by request. -/
theorem requests {qs : List Request} (h : Posts ok (qs.flatMap (Instr.request id)) es) :
    ∃ shown : List (Option String), shown.length = qs.length ∧ (∀ c ∈ shown, ok c) ∧
      es = (List.zipWith Request.events shown qs).flatten := by
  induction qs generalizing es with
  | nil => cases h; exact ⟨[], rfl, by simp, rfl⟩
  | cons q qs ih =>
    have one : ∃ c es', ok c ∧ es = q.events c ++ es' ∧
        Posts ok (qs.flatMap (Instr.request id)) es' := by
      cases q with
      | setState s =>
        obtain ⟨-, _, -, rfl, h⟩ := uncons h
        obtain ⟨-, _, -, rfl, h⟩ := uncons h
        obtain ⟨c, es', hc, rfl, rest⟩ := uncons h
        exact ⟨c, es', hc, rfl, rest⟩
      | reset =>
        obtain ⟨-, _, -, rfl, h⟩ := uncons h
        obtain ⟨-, _, -, rfl, h⟩ := uncons h
        obtain ⟨-, _, -, rfl, h⟩ := uncons h
        obtain ⟨-, _, -, rfl, h⟩ := uncons h
        obtain ⟨-, _, -, rfl, h⟩ := uncons h
        obtain ⟨-, _, -, rfl, h⟩ := uncons h
        obtain ⟨c, es', hc, rfl, rest⟩ := uncons h
        exact ⟨c, es', hc, rfl, rest⟩
    obtain ⟨c, es', hc, rfl, rest⟩ := one
    obtain ⟨shown, hl, hok, rfl⟩ := ih rest
    exact ⟨c :: shown, by simp [hl], by simpa using ⟨hc, hok⟩, rfl⟩

end Posts

namespace Machine

variable {m : Machine} {a : Instr} {id : Nat} {i : Instance} {r : Reply}

/-- A section of an answered request posts its answer, or leads to a post of it. -/
theorem posts_exec {ok : Option String → Prop} {l : List Instr} {es : List Event}
    (hi : m.get? id = some i) (ha : a.responds id = true) (shown : ok i.currentEvent)
    (h : Posts ok ((a.exec m r).next ++ l) es) :
    Posts ok (a :: l) (Section.posted ⟨m, a⟩ ++ es) := by
  cases a with
  | post k e =>
    have : ((Instr.post k e).exec m r).next = [] := by
      simp only [Instr.exec]
      split <;> rfl
    rw [this] at h
    exact .cons _ shown h
  | stateEntryUnlessCurrent k =>
    obtain rfl : k = id := by simpa [Instr.responds, Instr.carriesOut] using ha
    simp only [Instr.exec, Instr.leads, hi] at h
    by_cases hc : (i.currentEvent == some "state_entry") = true
    · rw [if_pos hc] at h
      have := Posts.cons (a := .stateEntryUnlessCurrent k) _ shown h
      simpa [Instr.posting, hc, Section.posted] using this
    · rw [if_neg hc] at h
      obtain ⟨-, es', -, rfl, h⟩ := h.uncons
      have := Posts.cons (a := .stateEntryUnlessCurrent k) _ shown h
      simpa [Instr.posting, hc, Section.posted] using this
  | removeState | clearPermissions | removePlugins =>
    simp only [Instr.exec, Instr.next_about] at h
    exact .cons _ shown h
  | replaceState | letGo => exact .cons _ shown h
  | edit k | publishMask k =>
    obtain rfl : k = id := by simpa [Instr.responds, Instr.carriesOut] using ha
    simp only [Instr.exec, Instr.leads, hi] at h
    split at h
    · exact .cons _ shown h
    · obtain ⟨-, es', -, rfl, h⟩ := h.uncons
      exact .cons _ shown h
  | _ => cases ha

theorem responds_next (ha : a.responds id = true) :
    ∀ b ∈ (a.exec m r).next, b.responds id = true := by
  intro b hb
  cases m.leadsTo r a b hb with
  | stateEntry =>
    simpa [Instr.responds, Instr.carriesOut, Event.isTimer, Event.stateEntry, Event.plain] using ha
  | edited | published => exact ha
  | _ => cases ha

/-- A post reaches the queue if the instance runs and there is room. -/
theorem accepted_post {e : Event} (hi : m.get? id = some i) (he : e.isTimer = false) :
    Section.accepted id ⟨m, .post id e⟩ =
      if i.slot.running = true ∧ i.slot.queue.length < i.slot.queue.capacity then [e] else [] := by
  simp [Section.accepted, hi, post_accepted_iff, Queue.push_accepted_iff he]

end Machine

namespace System

/-! ## One thread in a run -/

/-- A run, told by the sections that the thread `k` does in it. -/
inductive Follows (k : Nat) (S : System) : List Section → System → Prop where
  | refl : Follows k S [] S
  | own {l : List Section} {T : System} {m : Machine} {t t' : Thread} {a : Instr} :
      Follows k S l T → T.threads[k]? = some t → t.agenda.head? = some a →
      t.step? T.machine = some (m, t') →
      Follows k S (l ++ [⟨T.machine, a⟩]) ⟨m, T.threads.set k t'⟩
  | other {l h : List Section} {T U : System} : Follows k S l T → T.Step h U →
      U.threads[k]? = T.threads[k]? → Follows k S l U

variable {S T : System} {k : Nat} {own h : List Section}

theorem Follows.run (F : Follows k S own T) : ∃ h, Run S h T := by
  induction F with
  | refl => exact ⟨[], .refl⟩
  | own _ hk ha hs ih =>
    obtain ⟨h, r⟩ := ih
    exact ⟨_, r.snoc (.move hk ha hs)⟩
  | other _ s _ ih =>
    obtain ⟨h, r⟩ := ih
    exact ⟨_, r.snoc s⟩

/-- The thread goes on alone. -/
theorem Follows.alone {t : Thread} (fuel : Nat) (F : Follows k S own T)
    (hk : T.threads[k]? = some t) : Follows k S (own ++ t.sections fuel T.machine)
      ⟨(t.run fuel T.machine).1, T.threads.set k (t.run fuel T.machine).2⟩ := by
  have still : ∀ {own : List Section} {T : System} {t : Thread}, Follows k S own T →
      T.threads[k]? = some t → Follows k S (own ++ []) ⟨T.machine, T.threads.set k t⟩ := by
    intro own T t F hk
    obtain ⟨hlt, rfl⟩ := List.getElem?_eq_some_iff.mp hk
    rwa [List.set_getElem_self, List.append_nil]
  induction fuel generalizing own T t with
  | zero => exact still F hk
  | succ fuel ih =>
    unfold Thread.sections Thread.run
    cases hs : t.step? T.machine with
    | none => cases t.agenda.head? <;> exact still F hk
    | some p =>
      obtain ⟨m', t'⟩ := p
      obtain ⟨a, rest, ha, -⟩ := Thread.step?_eq_some hs
      have head : t.agenda.head? = some a := by rw [ha]; rfl
      have hlt := (List.getElem?_eq_some_iff.mp hk).1
      have next := ih (t := t') (.own F hk head hs) (by simp [hlt])
      rw [List.set_set, List.append_assoc] at next
      simpa only [head, List.cons_append, List.nil_append] using next

/-! ## Answering requests -/

variable {v : Invocation} {o : Outcome} {l rest : List Instr} {r : Reply} {i : Instance}
  {b : Instr}

/-- What others may see as the executing event: that of the turn, as long as it is outstanding. -/
def Shows (v : Invocation) (T : System) (shown : Option String) : Prop :=
  (∃ n, T.machine.core.Stale n v.id v.ticket) ∨ shown = some v.event.name

theorem Life.shows (H : Life h T) (hb : b ∈ T.pending) (hv : b.serves? = some v)
    (hi : T.machine.get? v.id = some i) : Shows v T i.currentEvent := by
  obtain ⟨n, turn, -⟩ := H.coherent.turn_atWork (H.turning.finishes hb hv) rfl
  cases ho : i.owns v.ticket with
  | true => exact .inr (H.turning.shown b hb v hv i hi ho).1
  | false => exact .inl ⟨n, turn, _, Machine.slot_of_get? hi, ho⟩

theorem Shows.step {l : List Section} {U : System} {c : Option String} (h : Shows v T c)
    (C : T.Coherent) (s : T.Step l U) : Shows v U c :=
  h.imp_left fun ⟨n, stale⟩ => ⟨n, C.stale_step s stale⟩

/-- A turn has answered its requests by the sections `later`, with `l` still to be done. -/
structure Answering (v : Invocation) (later : List Section) (l : List Instr) (T : System) :
    Prop where
  left : ∀ b ∈ l, b.responds v.id = true
  posts : ∀ ok, (∀ c, Shows v T c → ok c) → ∀ es, Posts ok l es →
    Posts ok (v.requests.flatMap (Instr.request v.id)) (later.flatMap Section.posted ++ es)
  accepted : ∀ s ∈ later, ∀ k e, s.instr = .post k e → k = v.id ∧
    ∃ i, s.machine.get? v.id = some i ∧ s.accepted v.id =
      if i.slot.running = true ∧ i.slot.queue.length < i.slot.queue.capacity then [e] else []

namespace Answering

variable {later : List Section} {U : System} {a : Instr}

theorem start : Answering v [] (v.requests.flatMap (Instr.request v.id)) T where
  left b hb := by
    obtain ⟨q, -, hb⟩ := List.mem_flatMap.mp hb
    exact Instr.responds_request b hb
  posts _ _ _ h := h
  accepted _ hs := by cases hs

theorem step {h' : List Section} (A : Answering v later l T) (C : T.Coherent) (s : T.Step h' U) :
    Answering v later l U where
  left := A.left
  posts ok hok := A.posts ok fun c hc => hok c (hc.step C s)
  accepted := A.accepted

theorem next (A : Answering v later (a :: l) T) (hi : T.machine.get? v.id = some i)
    (shown : Shows v T i.currentEvent) (r : Reply) :
    Answering v (later ++ [⟨T.machine, a⟩]) ((a.exec T.machine r).next ++ l) T where
  left b hb := by
    rcases List.mem_append.mp hb with hb | hb
    · exact Machine.responds_next (A.left a List.mem_cons_self) b hb
    · exact A.left b (List.mem_cons_of_mem _ hb)
  posts ok hok es h := by
    have := A.posts ok hok _
      (Machine.posts_exec hi (A.left a List.mem_cons_self) (hok _ shown) h)
    simpa using this
  accepted s hs k e he := by
    rcases List.mem_append.mp hs with hs | hs
    · exact A.accepted s hs k e he
    · obtain rfl := List.mem_singleton.mp hs
      obtain rfl : a = .post k e := he
      have ha := A.left _ List.mem_cons_self
      simp only [Instr.responds, Bool.and_eq_true, beq_iff_eq, Bool.not_eq_true'] at ha
      obtain ⟨rfl, ht⟩ := ha
      exact ⟨rfl, i, hi, Machine.accepted_post hi ht⟩

end Answering

/-- A thread that is to apply the requests of its turn answers them one after the other before it
concludes. -/
theorem Follows.answering (F : Follows k S own T) (H : Life h S)
    (hk : S.threads[k]? = some ⟨.applyRequests v o :: rest, r⟩) :
    (own = [] ∧ T.threads[k]? = some ⟨.applyRequests v o :: rest, r⟩) ∨
    ∃ m later, own = ⟨m, .applyRequests v o⟩ :: later ∧
      ∀ i, m.get? v.id = some i → i.owns v.ticket = true →
        (∃ s ∈ later, s.instr = .conclude v o) ∨
        ∃ l r, T.threads[k]? = some ⟨l ++ .conclude v o :: rest, r⟩ ∧
          Answering v later l T := by
  induction F with
  | refl => exact .inl ⟨rfl, hk⟩
  | @other own h' T U F s hU ih =>
    obtain ⟨_, run⟩ := F.run
    rcases ih with ⟨rfl, hT⟩ | ⟨m, later, rfl, ih⟩
    · exact .inl ⟨rfl, hU.trans hT⟩
    · refine .inr ⟨m, later, rfl, fun i hi ho => (ih i hi ho).imp_right ?_⟩
      rintro ⟨l, r, hT, A⟩
      exact ⟨l, r, hU.trans hT, A.step (H.run run).coherent s⟩
  | @own own T m' t t' a F ht ha hs ih =>
    obtain ⟨_, run⟩ := F.run
    have HT := H.run run
    have hlt := (List.getElem?_eq_some_iff.mp ht).1
    obtain ⟨b, tail, hb, -, rfl, rfl⟩ := Thread.step?_eq_some hs
    obtain rfl : b = a := by simpa [hb] using ha
    have goes : ∀ l, (b.exec T.machine t.reply).next ++ tail = l ++ .conclude v o :: rest →
        ∃ r, (T.threads.set k ⟨(b.exec T.machine t.reply).next ++ tail,
          (b.exec T.machine t.reply).reply⟩)[k]? = some ⟨l ++ .conclude v o :: rest, r⟩ :=
      fun l e => ⟨(b.exec T.machine t.reply).reply, by rw [← e]; simp [hlt]⟩
    rcases ih with ⟨rfl, hT⟩ | ⟨m, later, rfl, ih⟩
    · obtain rfl : t = _ := Option.some.inj (ht.symm.trans hT)
      obtain ⟨rfl, rfl⟩ := List.cons.inj hb
      refine .inr ⟨_, [], rfl, fun i hi ho => .inr ?_⟩
      obtain ⟨r, hr⟩ := goes (v.requests.flatMap (Instr.request v.id)) (by
        simp only [Instr.exec, Instr.leads, hi, ho, if_true, List.append_assoc]
        rfl)
      exact ⟨_, r, hr, .start⟩
    · refine .inr ⟨m, later ++ [⟨T.machine, b⟩], rfl, fun i hi ho => ?_⟩
      rcases ih i hi ho with ⟨s, hs, hc⟩ | ⟨l, r, hT, A⟩
      · exact .inl ⟨s, List.mem_append_left _ hs, hc⟩
      · obtain rfl : t = _ := Option.some.inj (ht.symm.trans hT)
        rcases l with - | ⟨x, l⟩
        · obtain ⟨rfl, -⟩ := List.cons.inj hb
          exact .inl ⟨_, List.mem_append_right _ (List.mem_singleton_self _), rfl⟩
        · obtain ⟨rfl, rfl⟩ := List.cons.inj hb
          have pending : .conclude v o ∈ T.pending :=
            mem_pending.mpr ⟨_, List.mem_of_getElem? ht, by simp⟩
          obtain ⟨i, hi⟩ := HT.turning.exists_get? HT.coherent pending rfl
          obtain ⟨r', hr⟩ := goes ((x.exec T.machine r).next ++ l) (List.append_assoc _ _ _).symm
          refine .inr ⟨_, r', hr, ?_⟩
          exact (A.next hi (HT.shows pending rfl hi) r).step HT.coherent (.move ht ha hs)

/-- What becomes of the requests of a handler whose turn is the outstanding one when they are
applied, whatever other threads do meanwhile. The turn never has to wait before it concludes. When
it does, each request has been answered by its events, in the order of the requests, where a reset
that finds `state_entry` executing is answered by none, and what executes is the turn's own event
for as long as the turn is outstanding. Each event reaches the queue if the instance runs when it
is posted and there is room, and is lost otherwise. -/
theorem requests_posted {m : Machine} (H : Life h S)
    (hk : S.threads[k]? = some ⟨.applyRequests v o :: rest, r⟩)
    (F : Follows k S (⟨m, .applyRequests v o⟩ :: own) T) (hi : m.get? v.id = some i)
    (outstanding : i.owns v.ticket = true) (first : ∀ s ∈ own, s.instr ≠ .conclude v o) :
    (∃ a l r, T.threads[k]? = some ⟨a :: l, r⟩ ∧ a.blocked T.machine = false) ∧
    (∀ r, T.threads[k]? = some ⟨.conclude v o :: rest, r⟩ →
      ∃ shown : List (Option String), shown.length = v.requests.length ∧
        own.flatMap Section.posted = (List.zipWith Request.events shown v.requests).flatten ∧
        ∀ i, T.machine.get? v.id = some i → i.owns v.ticket = true →
          ∀ c ∈ shown, c = some v.event.name) ∧
    ∀ s ∈ own, ∀ n e, s.instr = .post n e → n = v.id ∧
      ∃ i, s.machine.get? v.id = some i ∧ s.accepted v.id =
        if i.slot.running = true ∧ i.slot.queue.length < i.slot.queue.capacity then [e] else [] := by
  rcases F.answering H hk with ⟨e, -⟩ | ⟨m', later, e, A⟩
  · cases e
  · obtain ⟨hs, rfl⟩ := List.cons.inj e
    cases hs
    rcases A i hi outstanding with ⟨s, hs, hc⟩ | ⟨l, r, hT, A⟩
    · exact absurd hc (first s hs)
    · refine ⟨?_, fun r' done => ?_, A.accepted⟩
      · rcases l with - | ⟨a, l⟩
        · exact ⟨_, _, r, hT, rfl⟩
        · exact ⟨a, _, r, hT, Instr.not_blocked_of_responds (A.left a List.mem_cons_self)⟩
      · have e : l ++ .conclude v o :: rest = .conclude v o :: rest :=
          congrArg Thread.agenda (Option.some.inj (hT.symm.trans done))
        obtain rfl : l = [] := List.append_left_eq_self.mp e
        obtain ⟨shown, hl, hok, he⟩ := (A.posts _ (fun _ h => h) [] .nil).requests
        refine ⟨shown, hl, by simpa using he, fun i hi ho c hc => ?_⟩
        refine (hok c hc).resolve_left ?_
        rintro ⟨n, -, s, hs, hno⟩
        obtain rfl : i.slot = s := Option.some.inj ((Machine.slot_of_get? hi).symm.trans hs)
        exact Bool.false_ne_true (hno.symm.trans ho)

/-- A host with an instance whose handler asks for another state and for a reset. -/
def asking : List Section × System := System.play 40 ⟨.bare true, []⟩
  [.call (.loadNew "a" 1
    (.answering [("state_entry", [.request (.setState "x"), .request .reset])]))]

/-- The handler has returned, and its requests are to be applied. -/
def returned : List Section × System := System.play 12 asking.2 [.call (.run 1)]

/-- A stop has come meanwhile, and waits for the turn. -/
def waited : List Section × System := System.play 2 returned.2 [.call (.stop "a" 5)]

theorem waited_life : Life (asking.1 ++ returned.1 ++ waited.1) waited.2 :=
  ((Life.play true 40 _).run (Run.play 12 _ _)).run (Run.play 2 _ _)

theorem requests_posted_waited : ∃ own T v i, Follows 1 waited.2
      (⟨waited.2.machine, .applyRequests v .completed⟩ :: own) T ∧
    waited.2.machine.get? v.id = some i ∧ i.owns v.ticket = true ∧ i.slot.running = false ∧
    v.requests = [.setState "x", .reset] ∧
    (∃ shown : List (Option String), shown.length = v.requests.length ∧
      own.flatMap Section.posted = (List.zipWith Request.events shown v.requests).flatten ∧
      ∀ i, T.machine.get? v.id = some i → i.owns v.ticket = true →
        ∀ c ∈ shown, c = some v.event.name) ∧
    ∀ s ∈ own, ∀ n e, s.instr = .post n e → n = v.id ∧
      ∃ i, s.machine.get? v.id = some i ∧ s.accepted v.id =
        if i.slot.running = true ∧ i.slot.queue.length < i.slot.queue.capacity then [e] else [] := by
  obtain ⟨v, rest, r, r', own, i, hk, hown, hq, hi, ho, hrun, hreq, hdone⟩ :
      ∃ v rest r r' own i,
        waited.2.threads[1]? = some ⟨.applyRequests v .completed :: rest, r⟩ ∧
        (Thread.mk (.applyRequests v .completed :: rest) r).sections 13 waited.2.machine =
          ⟨waited.2.machine, .applyRequests v .completed⟩ :: own ∧
        own.all (·.instr.serves?.isNone) = true ∧
        waited.2.machine.get? v.id = some i ∧ i.owns v.ticket = true ∧
        i.slot.running = false ∧ v.requests = [.setState "x", .reset] ∧
        ((Thread.mk (.applyRequests v .completed :: rest) r).run 13 waited.2.machine).2 =
          ⟨.conclude v .completed :: rest, r'⟩ :=
    ⟨_, _, _, _, _, _, rfl, rfl, rfl, rfl, rfl, rfl, rfl, rfl⟩
  have F := Follows.refl.alone 13 hk
  rw [List.nil_append, hown] at F
  have first : ∀ s ∈ own, s.instr ≠ .conclude v .completed := fun s hs hc => by
    have := List.all_eq_true.mp hq s hs
    rw [hc] at this
    cases this
  obtain ⟨-, posted, reach⟩ := requests_posted waited_life hk F hi ho first
  refine ⟨own, _, v, i, F, hi, ho, hrun, hreq, posted r' ?_, reach⟩
  rw [hdone]
  exact List.getElem?_set_self (List.getElem?_eq_some_iff.mp hk).1

end System

end ScriptHost
