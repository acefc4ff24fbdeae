import ScriptHost.Proofs.Engine.Undisturbed

/-!
# What becomes of variables

The variables of an instance are kept three times: by the script itself, as a
snapshot that others read, and in an edit that found the script held. The
sections of a run tell how the script is held (`Hold`) and what each edit and
each end of a handler comes to (`results`). The snapshot is the last of these
results, and what handlers begin with is the snapshot (`edits_settled`).
-/

namespace ScriptHost

/-- How a script is held: by nobody; by a turn that has locked it and has yet to apply what was
kept back; by a turn that has taken hold of it, with an edit made since or with none. -/
inductive Hold where
  | free
  | taking
  | running (edited : Bool)

namespace Hold

/-- An edit is made. -/
def edit : Hold → Hold
  | .running _ => .running true
  | b => b

/-- What was kept back is applied, when a turn takes hold of the script and when its handler has
ended. -/
def settle : Hold → Hold
  | .taking => .running false
  | _ => .free

end Hold

namespace Section

/-- How the script of the instance is held after the section. -/
def hold (id : Nat) (b : Hold) (s : Section) : Hold :=
  match s.instr with
  | .lockScript v => if v.id = id then .taking else b
  | .edit k _ => if k = id then b.edit else b
  | .settle k => if k = id then b.settle else b
  | _ => b

/-- What the variables of the instance come to by the section, if it is an edit, or the end of a
handler that had no edit made while it ran. -/
def result? (id : Nat) (b : Hold) (s : Section) : Option Vars :=
  match s.instr with
  | .edit k e => if k = id then (s.machine.get? id).map (·.preview e) else none
  | .settle k =>
    if k = id then
      match b with
      | .running false => (s.machine.get? id).map (·.live)
      | _ => none
    else none
  | _ => none

end Section

/-- How the script is held after some sections. -/
def holdAfter (id : Nat) (b : Hold) (h : List Section) : Hold := h.foldl (Section.hold id) b

/-- What the variables came to in the course of some sections. -/
def results (id : Nat) : Hold → List Section → List Vars
  | _, [] => []
  | b, s :: h => (s.result? id b).toList ++ results id (s.hold id b) h

section Histories

variable {id : Nat} {b : Hold} {m : Machine} {a : Instr}

theorem holdAfter_append (h l : List Section) :
    holdAfter id b (h ++ l) = holdAfter id (holdAfter id b h) l := List.foldl_append

theorem holdAfter_snoc (h : List Section) (s : Section) :
    holdAfter id b (h ++ [s]) = s.hold id (holdAfter id b h) := holdAfter_append h [s]

theorem results_append (h l : List Section) :
    results id b (h ++ l) = results id b h ++ results id (holdAfter id b h) l := by
  induction h generalizing b with
  | nil => rfl
  | cons s h ih =>
    rw [List.cons_append, results, ih, results, List.append_assoc]
    rfl

theorem results_snoc (h : List Section) (s : Section) :
    results id b (h ++ [s]) = results id b h ++ (s.result? id (holdAfter id b h)).toList := by
  rw [results_append, results, results, List.append_nil]

/-- Sections by which it comes to be held otherwise, or variables come to something. -/
def Instr.marks (id : Nat) : Instr → Bool
  | .lockScript v => v.id == id
  | .edit k _ | .settle k => k == id
  | _ => false

theorem Instr.marks_iff : a.marks id = true ↔ (∃ v, v.id = id ∧ a = .lockScript v) ∨
    (∃ e, a = .edit id e) ∨ a = .settle id := by
  cases a with
  | lockScript v => simp [marks]
  | edit k e => simp [marks]
  | settle k => simp [marks]
  | _ => simp [marks]

theorem Section.unmarked (h : a.marks id = false) :
    Section.hold id b ⟨m, a⟩ = b ∧ Section.result? id b ⟨m, a⟩ = none := by
  have other : ∀ {k : Nat}, (k == id) = false → k ≠ id := fun h => by simpa using h
  cases a with
  | lockScript v => exact ⟨if_neg (other h), rfl⟩
  | edit k e => exact ⟨if_neg (other h), if_neg (other h)⟩
  | settle k => exact ⟨if_neg (other h), if_neg (other h)⟩
  | _ => exact ⟨rfl, rfl⟩

end Histories

namespace Instr

/-- The section belongs to a turn that holds the script of the instance, up to the end of its
handler. -/
def engages (id : Nat) : Instr → Bool
  | .enter v | .act v _ => v.id == id
  | .settle k => k == id
  | _ => false

/-- The instance whose script a section settles. -/
def settles? : Instr → Option Nat
  | .settle id => some id
  | _ => none

variable {a : Instr} {id : Nat}

theorem not_engages_of_outside (h : a.outside = true) : a.engages id = false := by
  cases a <;> first | rfl | cases h

theorem settles?_of_outside (h : a.outside = true) : a.settles? = none := by
  cases a <;> first | rfl | cases h

theorem engages_iff : a.engages id = true ↔
    a = .settle id ∨ ∃ v, v.id = id ∧ (a = .enter v ∨ ∃ l, a = .act v l) := by
  cases a <;> simp [engages]

theorem engages_enter (v : Invocation) : (Instr.enter v).engages v.id = true := by
  simp [engages]

theorem engages_of_conceals (h : a.conceals? = some id) : a.engages id = true := by
  cases a with
  | act | settle => simpa [engages] using Option.some.inj h
  | _ => cases h

/-- Only edits, what was kept back, and handlers change variables, and handlers only the script's
own. -/
theorem vars_alter (i : Instance) (unedited : ∀ e, a ≠ .edit id e) (unsettled : a ≠ .settle id) :
    (a.alter id i).vars = i.vars ∧ (a.alter id i).pendingEdit = i.pendingEdit ∧
      ((∀ v l, a = .act v l → v.id ≠ id) → (a.alter id i).live = i.live) := by
  have A := a.alteration id i
  generalize a.alter id i = j at A ⊢
  cases A with
  | edit e => exact absurd rfl (unedited e)
  | settle => exact absurd rfl unsettled
  | write v x l hv => exact ⟨rfl, rfl, fun idle => absurd hv (idle v _ rfl)⟩
  | _ => exact ⟨rfl, rfl, fun _ => rfl⟩

end Instr

namespace System

variable {S T : System} {a : Instr} {rest : List Instr} {reply : Reply} {others : List Thread}
  {h : List Section} {id : Nat} {i : Instance} {v : Invocation}

/-! ## Who holds the script -/

/-- Whoever is in a handler's run, or lets the script go, has nothing more to settle before. -/
theorem Moves.not_settling (M : Moves S a rest reply others T) (L : S.Locked)
    (ha : a.holds? = some id) : .settle id ∉ elsewhere rest others := by
  intro hs
  obtain ⟨l, hsl, hl, hin⟩ := M.agenda_of_mem hs
  have lined : Lined Instr.Shows l := by
    rcases hin with rfl | ⟨t, ht, rfl⟩
    · exact (L.agendas _ M.mover).2
    · exact L.agendas t ht
  obtain ⟨later, hlater, shows⟩ := lined.of_mem hsl
  obtain ⟨b, hb, hk, -⟩ := shows id rfl
  exact M.held_once L.once ha (List.mem_filterMap.mpr ⟨b, hl b (hlater b hb), hk⟩)

/-- Whoever engages a script has an instance, which knows that a handler holds its script. -/
theorem Locked.held_of_engages (L : S.Locked) (ha : a ∈ S.pending) (he : a.engages id = true) :
    ∃ i, S.machine.get? id = some i ∧ i.holder = some .handler := by
  refine L.held id ?_
  rcases Instr.engages_iff.mp he with rfl | ⟨v, rfl, hv⟩
  · obtain ⟨t, ht, hat⟩ := mem_pending.mp ha
    obtain ⟨later, hl, shows⟩ := (L.agendas t ht).of_mem hat
    obtain ⟨b, hb, hk, -⟩ := shows id rfl
    exact List.mem_filterMap.mpr ⟨b, mem_pending.mpr ⟨t, ht, hl b hb⟩, hk⟩
  · refine List.mem_filterMap.mpr ⟨a, ha, ?_⟩
    rcases hv with rfl | ⟨l, rfl⟩ <;> rfl

/-- Whoever locks a script finds it free. -/
theorem Moves.unheld (M : Moves S (.lockScript v) rest reply others T) (C : S.Coherent) :
    ∃ i, S.machine.get? v.id = some i ∧ i.held = false := by
  obtain ⟨i, hi, -⟩ := Machine.exists_get?
    (List.getElem?_eq_getElem (show v.id < S.machine.core.slots.length from M.fits C))
  exact ⟨i, hi, by simpa only [Instr.blocked, hi] using M.free⟩

theorem Moves.not_engaged (M : Moves S (.lockScript v) rest reply others T) (C : S.Coherent)
    (L : S.Locked) : ∀ a ∈ S.pending, a.engages v.id = false := by
  refine fun a ha => Bool.eq_false_iff.mpr fun he => ?_
  obtain ⟨i, hi, free⟩ := M.unheld C
  obtain ⟨j, hj, locked⟩ := L.held_of_engages ha he
  obtain rfl := Option.some.inj (hi.symm.trans hj)
  exact Bool.false_ne_true (free.symm.trans (Instance.held_of_holder locked))

theorem Life.settles_once (H : Life h S) : (S.pending.filterMap Instr.settles?).Nodup := by
  refine H.induct_moves (P := fun _ S => (S.pending.filterMap Instr.settles?).Nodup) ?_ ?_ ?_
  · exact fun m _ => List.nodup_nil
  · intro h S T J once
    rwa [J.filterMap_pending fun b hb => by cases b <;> first | rfl | cases hb]
  · intro h S T a rest reply others H M once
    refine M.held_nodup once ?_
    have out : ∀ {l : List Instr}, (∀ b ∈ l, b.outside = true) →
        l.filterMap Instr.settles? = [] := fun hl =>
      List.filterMap_eq_nil_iff.mpr fun b hb => Instr.settles?_of_outside (hl b hb)
    have elsewhere : ∀ {k : Nat}, k ∈ (elsewhere rest others).filterMap Instr.settles? →
        .settle k ∈ System.elsewhere rest others := fun hk => by
      obtain ⟨b, hb, hs⟩ := List.mem_filterMap.mp hk
      cases b <;> cases hs
      exact hb
    rcases Machine.next_handles S.machine reply a with ⟨hn, -⟩ | ⟨v, rfl, hn⟩ | ⟨v, ha, hn⟩
    · exact .inl (out hn)
    · refine .inr (.inr ?_)
      rw [hn]
      refine ⟨List.pairwise_singleton _ _, fun k hk he => ?_⟩
      obtain rfl : k = v.id := List.mem_singleton.mp hk
      have := M.not_engaged H.coherent H.locked _ (M.mem_before.mpr (.inr (elsewhere he)))
      simp [Instr.engages] at this
    · have holds : a.holds? = some v.id := by rcases ha with rfl | ⟨l, rfl⟩ <;> rfl
      generalize (a.exec S.machine reply).next = next at hn
      cases hn with
      | onward before _ hb => exact .inl (by rw [List.filterMap_append, out hb]; rfl)
      | @leaves w o hw =>
        refine .inr (.inr ⟨List.pairwise_singleton _ _, fun k hk he => ?_⟩)
        obtain rfl : k = v.id := (List.mem_singleton.mp hk).trans hw
        exact M.not_settling H.locked holds (elsewhere he)

end System

/-- What is pending of a turn that holds the script so. -/
def Hold.Fits (id : Nat) (l : List Instr) : Hold → Prop
  | .free => ∀ a ∈ l, a.engages id = false
  | .taking => .settle id ∈ l ∧ ∃ v, v.id = id ∧ .enter v ∈ l
  | .running _ => (∃ a ∈ l, a.engages id = true) ∧
    (.settle id ∈ l → ∀ v, .enter v ∈ l → v.id ≠ id)

/-- It matters only who engages the script. -/
theorem Hold.Fits.congr {id : Nat} {l l' : List Instr} {b : Hold} (P : b.Fits id l)
    (same : ∀ a : Instr, a.engages id = true → (a ∈ l' ↔ a ∈ l)) : b.Fits id l' := by
  have settle : Instr.settle id ∈ l' ↔ Instr.settle id ∈ l := same _ (by simp [Instr.engages])
  have enter : ∀ {v : Invocation}, v.id = id → (Instr.enter v ∈ l' ↔ Instr.enter v ∈ l) :=
    fun hv => same _ (by simp [Instr.engages, hv])
  cases b with
  | free =>
    exact fun a ha => Bool.eq_false_iff.mpr fun he =>
      Bool.false_ne_true ((P a ((same a he).mp ha)).symm.trans he)
  | taking =>
    obtain ⟨hs, v, hv, he⟩ := P
    exact ⟨settle.mpr hs, v, hv, (enter hv).mpr he⟩
  | running x =>
    obtain ⟨⟨a, ha, he⟩, apart⟩ := P
    exact ⟨⟨a, (same a he).mpr ha, he⟩, fun hs v hv hid =>
      apart (settle.mp hs) v ((enter hid).mp hv) hid⟩

theorem Hold.Fits.edit {id : Nat} {l : List Instr} {b : Hold} (P : b.Fits id l) :
    b.edit.Fits id l := by
  cases b <;> exact P

theorem Handles.not_engages {k id : Nat} {l : List Instr} (h : Handles k l) (hk : k ≠ id) :
    ∀ b ∈ l, b.engages id = false := by
  cases h with
  | onward before hv hb =>
    intro b hmem
    rcases List.mem_append.mp hmem with hmem | hmem
    · exact Instr.not_engages_of_outside (hb b hmem)
    · obtain rfl := List.mem_singleton.mp hmem
      simpa [Instr.engages, hv] using hk
  | leaves hv => simpa [Machine.leave, Instr.engages, hv] using hk

/-- A handler's run enters no handler. -/
theorem Handles.not_enter {k : Nat} {l : List Instr} (h : Handles k l) (v : Invocation) :
    .enter v ∉ l := by
  cases h with
  | onward before _ hb =>
    intro hmem
    rcases List.mem_append.mp hmem with hmem | hmem
    · cases hb _ hmem
    · cases List.mem_singleton.mp hmem
  | leaves => simp [Machine.leave]

namespace System

variable {S T : System} {a : Instr} {rest : List Instr} {reply : Reply} {others : List Thread}
  {h : List Section} {id : Nat} {i : Instance} {v : Invocation} {b : Hold}

/-- How the script is held fits what is pending, whatever section is done. -/
theorem Moves.hold_fits (M : Moves S a rest reply others T) (H : Life h S)
    (P : b.Fits id S.pending) : (Section.hold id b ⟨S.machine, a⟩).Fits id T.pending := by
  have L := H.locked
  -- Sections that neither engage the script nor lead to such leave those who do.
  have still (ha : a.engages id = false)
      (hn : ∀ c ∈ (a.exec S.machine reply).next, c.engages id = false) :
      b.Fits id T.pending := P.congr fun c hc => by
    have away : ∀ {d : Instr}, d.engages id = false → c ≠ d := by
      rintro d hd rfl
      exact Bool.false_ne_true (hd.symm.trans hc)
    rw [M.mem_after, M.mem_before, or_iff_right fun h => away (hn c h) rfl,
      or_iff_right (away ha)]
  rcases Machine.next_handles S.machine reply a with ⟨out, absent⟩ | ⟨v, rfl, hn⟩ | ⟨v, ha, hn⟩
  · have quiet : ∀ c ∈ (a.exec S.machine reply).next, c.engages id = false := fun c hc =>
      Instr.not_engages_of_outside (out c hc)
    by_cases hs : a = .settle id
    · subst hs
      have here : .settle id ∈ S.pending := M.mem_before.mpr (.inl rfl)
      have last : .settle id ∉ elsewhere rest others := fun h =>
        M.held_once H.settles_once rfl (List.mem_filterMap.mpr ⟨_, h, rfl⟩)
      have hold : Section.hold id b ⟨S.machine, .settle id⟩ = b.settle := if_pos rfl
      rw [hold]
      cases b with
      | free => simpa [Instr.engages] using P _ here
      | taking =>
        obtain ⟨-, w, hw, he⟩ := P
        have he' := (M.mem_before.mp he).resolve_left nofun
        refine ⟨⟨_, M.mem_after.mpr (.inr he'), by simp [Instr.engages, hw]⟩, fun hs => ?_⟩
        rcases M.mem_after.mp hs with hs | hs
        · simpa [Instr.engages] using quiet _ hs
        · exact absurd hs last
      | running x =>
        intro c hc
        refine Bool.eq_false_iff.mpr fun he => ?_
        rcases M.mem_after.mp hc with hc | hc
        · exact Bool.false_ne_true ((quiet c hc).symm.trans he)
        · rcases Instr.engages_iff.mp he with rfl | ⟨w, hw, rfl | ⟨l, rfl⟩⟩
          · exact last hc
          · exact P.2 here w (M.mem_before.mpr (.inr hc)) hw
          · exact L.not_acting here (M.mem_before.mpr (.inr hc)) hw
    · have unengaged : a.engages id = false := Bool.eq_false_iff.mpr fun he => by
        obtain ⟨i, hi, -⟩ := L.held_of_engages (M.mem_before.mpr (.inl rfl)) he
        rcases Instr.engages_iff.mp he with rfl | ⟨v, rfl, hv⟩
        · exact hs rfl
        · cases hi.symm.trans (absent v hv)
      by_cases he : ∃ e, a = .edit id e
      · obtain ⟨e, rfl⟩ := he
        have hold : Section.hold id b ⟨S.machine, .edit id e⟩ = b.edit := if_pos rfl
        exact hold ▸ (still rfl quiet).edit
      · have unmarked : a.marks id = false := Bool.eq_false_iff.mpr fun hm => by
          rcases Instr.marks_iff.mp hm with ⟨v, -, rfl⟩ | h | h
          · cases out (.settle v.id) List.mem_cons_self
          · exact he h
          · exact hs h
        exact (Section.unmarked unmarked).1 ▸ still unengaged quiet
  · by_cases hv : v.id = id
    · subst hv
      have hold : Section.hold v.id b ⟨S.machine, .lockScript v⟩ = .taking := if_pos rfl
      rw [hold]
      exact ⟨M.mem_after.mpr (.inl (by simp [hn])), v, rfl, M.mem_after.mpr (.inl (by simp [hn]))⟩
    · have hold : Section.hold id b ⟨S.machine, .lockScript v⟩ = b := if_neg hv
      rw [hold]
      refine still rfl fun c hc => ?_
      rw [hn] at hc
      simp only [List.mem_cons, List.not_mem_nil, or_false] at hc
      rcases hc with rfl | rfl <;> simpa [Instr.engages] using hv
  · have holds : a.holds? = some v.id := by rcases ha with rfl | ⟨l, rfl⟩ <;> rfl
    have unmarked : a.marks id = false := by rcases ha with rfl | ⟨l, rfl⟩ <;> rfl
    rw [(Section.unmarked unmarked).1]
    by_cases hv : v.id = id
    · subst hv
      have engaged : a.engages v.id = true := Instr.engages_iff.mpr (.inr ⟨v, rfl, ha⟩)
      have unsettled := M.not_settling L holds
      cases b with
      | free => exact absurd engaged (Bool.eq_false_iff.mp (P a (M.mem_before.mpr (.inl rfl))))
      | taking =>
        refine absurd ((M.mem_before.mp P.1).resolve_left ?_) unsettled
        rintro rfl
        rcases ha with ha | ⟨l, ha⟩ <;> cases ha
      | running x =>
        obtain ⟨c, hc, hk⟩ := hn.conceals
        refine ⟨⟨c, M.mem_after.mpr (.inl hc), Instr.engages_of_conceals hk⟩, fun _ w hw hid => ?_⟩
        rcases M.mem_after.mp hw with hw | hw
        · exact hn.not_enter w hw
        · exact M.held_once L.once holds
            (List.mem_filterMap.mpr ⟨_, hw, congrArg some hid⟩)
    · refine still ?_ (hn.not_engages hv)
      rcases ha with rfl | ⟨l, rfl⟩ <;> simpa [Instr.engages] using hv

theorem Life.hold_fits (H : Life h S) : (holdAfter id .free h).Fits id S.pending := by
  refine H.induct_moves (P := fun h S => (holdAfter id .free h).Fits id S.pending) ?_ ?_ ?_
  · exact fun m _ a ha => (List.not_mem_nil ha).elim
  · intro h S T J P
    refine P.congr fun c hc => J.mem_pending ?_
    cases c <;> first | rfl | cases hc
  · intro h S T a rest reply others H M P
    rw [holdAfter_snoc]
    exact M.hold_fits H P

/-- A script that no turn has locked is held by no turn. -/
theorem Life.hold_free (H : Life h S) (hi : S.machine.get? id = some i)
    (unlocked : i.holder ≠ some .handler) : holdAfter id .free h = .free := by
  have apart : ∀ c ∈ S.pending, c.engages id = true → False := fun c hc he => by
    obtain ⟨j, hj, locked⟩ := H.locked.held_of_engages hc he
    obtain rfl := Option.some.inj (hi.symm.trans hj)
    exact unlocked locked
  have P : (holdAfter id .free h).Fits id S.pending := H.hold_fits
  cases hb : holdAfter id .free h with
  | free => rfl
  | taking =>
    rw [hb] at P
    exact (apart _ P.1 (by simp [Instr.engages])).elim
  | running x =>
    rw [hb] at P
    obtain ⟨⟨c, hc, he⟩, -⟩ := P
    exact (apart c hc he).elim

/-- A handler at work has taken hold of the script. -/
theorem Moves.hold_running {l : List Action} (M : Moves S (.act v l) rest reply others T)
    (H : Life h S) : ∃ x, holdAfter v.id .free h = .running x := by
  have P : (holdAfter v.id .free h).Fits v.id S.pending := H.hold_fits
  have here : .act v l ∈ S.pending := M.mem_before.mpr (.inl rfl)
  cases hb : holdAfter v.id .free h with
  | free =>
    rw [hb] at P
    simpa [Instr.engages] using P _ here
  | taking =>
    rw [hb] at P
    exact absurd rfl (H.locked.not_acting P.1 here)
  | running x => exact ⟨x, rfl⟩

/-- Before an instance is made, nothing is said of it. -/
theorem Life.unmade (H : Life h S) : S.machine.get? id = none →
    holdAfter id .free h = .free ∧ results id .free h = [] := by
  refine H.induct_moves (P := fun h S => S.machine.get? id = none →
    holdAfter id .free h = .free ∧ results id .free h = []) ?_ ?_ ?_
  · exact fun m _ _ => ⟨rfl, rfl⟩
  · exact fun h S T J ih hn => ih ((J.get? id).symm.trans hn)
  · intro h S T a rest reply others H M ih hn
    have none : S.machine.get? id = none := by
      refine Option.eq_none_iff_forall_ne_some.mpr fun i hi => ?_
      obtain ⟨s, p, hg⟩ := M.get?_after hi
      cases hn.symm.trans hg
    obtain ⟨hold, nothing⟩ := ih none
    rw [holdAfter_snoc, results_snoc, hold, nothing]
    cases a with
    | lockScript v =>
      by_cases hv : v.id = id
      · subst hv
        obtain ⟨i, hi, -⟩ := M.unheld H.coherent
        cases none.symm.trans hi
      · exact ⟨if_neg hv, rfl⟩
    | edit k e => by_cases hk : k = id <;> simp [Section.hold, Section.result?, hk, none, Hold.edit]
    | settle k => by_cases hk : k = id <;> simp [Section.hold, Section.result?, hk, Hold.settle]
    | _ => exact ⟨rfl, rfl⟩

end System

/-! ## The three copies -/

/-- What the copies of the variables have to do with one another while the script is held so. -/
def Hold.Keeps (i : Instance) : Hold → Prop
  | .free | .taking => i.pendingEdit = none → i.live = i.vars
  | .running false => i.pendingEdit = none
  | .running true => i.pendingEdit ≠ none

/-- What is shown of the variables once a script that was held so has been settled. -/
def Hold.leaves (i : Instance) : Hold → Vars
  | .running false => i.live
  | _ => i.vars

namespace Hold.Keeps

variable {b : Hold} {i j : Instance}

theorem congr (K : b.Keeps i) (vars : j.vars = i.vars) (pending : j.pendingEdit = i.pendingEdit)
    (live : (∀ x, b ≠ .running x) → j.live = i.live) : b.Keeps j := by
  match b with
  | .free | .taking =>
    exact fun h => (live nofun).trans ((K (pending.symm.trans h)).trans vars.symm)
  | .running false => exact pending.trans K
  | .running true => exact fun h => K (pending.symm.trans h)

end Hold.Keeps

namespace Instance

variable {i : Instance} {b : Hold}

theorem Sound.apply_eq (sound : i.Sound) (retains : ∀ v, i.program.retain v = v) (e : Edit) :
    i.apply e = i.preview e := by
  cases e with
  | setVars v => exact retains v
  | resetVars => exact sound.initial.symm

/-- An edit shows at once, and is kept back if a turn or a mask has the script. -/
theorem Sound.keeps_edit (sound : i.Sound) (retains : ∀ v, i.program.retain v = v) (e : Edit)
    (unlocked : i.holder ≠ some .handler → b = .free) :
    (i.edit e).vars = i.preview e ∧ b.edit.Keeps (i.edit e) := by
  cases h : i.keepsEdits with
  | true =>
    rw [edit_of_keeps h]
    refine ⟨rfl, ?_⟩
    cases b <;> exact nofun
  | false =>
    rw [edit_of_applies h, unlocked (no_handler_of_applies h)]
    exact ⟨sound.apply_eq retains e, fun _ => rfl⟩

/-- What is shown when the script has been settled is what was shown before, unless a handler has
ended in whose course no edit was made. -/
theorem Sound.keeps_settle (sound : i.Sound) (retains : ∀ v, i.program.retain v = v)
    (K : b.Keeps i) : i.settle.vars = b.leaves i ∧ b.settle.Keeps i.settle := by
  have shown : ∀ e, i.pendingEdit = some e → i.settle.vars = i.vars := fun e he => by
    simp only [settle, he]
    exact (sound.apply_eq retains e).trans (sound.preview e he).symm
  have plain : i.pendingEdit = none → i.settle.vars = i.live := fun h => by simp only [settle, h]
  constructor
  · cases b with
    | free | taking =>
      cases he : i.pendingEdit with
      | none => exact (plain he).trans (K he)
      | some e => exact shown e he
    | running edited =>
      cases edited with
      | false => exact plain K
      | true =>
        obtain ⟨e, he⟩ := Option.ne_none_iff_exists'.mp K
        exact shown e he
  · cases b with
    | taking => rfl
    | _ => exact fun _ => rfl

end Instance

namespace System

variable {S T : System} {a : Instr} {rest : List Instr} {reply : Reply} {others : List Thread}
  {h : List Section} {id : Nat} {i : Instance} {v : Invocation} {b : Hold}

/-- The last of the results is shown, and the other copies go with it. -/
structure Kept (id : Nat) (h : List Section) (i : Instance) : Prop where
  vars : i.vars = (results id .free h).getLastD i.initialVars
  keeps : (holdAfter id .free h).Keeps i

theorem Moves.kept (M : Moves S a rest reply others T) (H : Life h S)
    (hi : S.machine.get? id = some i) (retains : ∀ v, i.program.retain v = v)
    (K : Kept id h i) : Kept id (h ++ [⟨S.machine, a⟩]) (a.alter id i) := by
  obtain ⟨-, -, -, initial⟩ := a.fixed_alter id i
  suffices (a.alter id i).vars = (results id .free h ++
      (Section.result? id (holdAfter id .free h) ⟨S.machine, a⟩).toList).getLastD i.initialVars ∧
      (Section.hold id (holdAfter id .free h) ⟨S.machine, a⟩).Keeps (a.alter id i) from
    ⟨by rw [results_snoc, initial]; exact this.1, by rw [holdAfter_snoc]; exact this.2⟩
  have sound := H.sound hi
  by_cases he : ∃ e, a = .edit id e
  · obtain ⟨e, rfl⟩ := he
    have alter : Instr.alter id i (.edit id e) = i.edit e := if_pos rfl
    obtain ⟨shown, keeps⟩ := sound.keeps_edit retains e (H.hold_free hi)
    simp only [Section.result?, Section.hold, hi, alter, if_true]
    exact ⟨by simpa using shown, keeps⟩
  by_cases hs : a = .settle id
  · subst hs
    have alter : Instr.alter id i (.settle id) = i.settle := if_pos rfl
    obtain ⟨shown, keeps⟩ := sound.keeps_settle retains K.keeps
    simp only [Section.result?, Section.hold, hi, alter, if_true]
    refine ⟨?_, keeps⟩
    rw [shown]
    match holdAfter id .free h with
    | .running false => simp [Hold.leaves]
    | .free | .taking | .running true => simpa [Hold.leaves] using K.vars
  obtain ⟨vars, pending, live⟩ := a.vars_alter i (fun e ha => he ⟨e, ha⟩) hs
  by_cases hl : ∃ v, v.id = id ∧ a = .lockScript v
  · obtain ⟨v, rfl, rfl⟩ := hl
    obtain ⟨j, hj, unheld⟩ := M.unheld H.coherent
    obtain rfl := Option.some.inj (hi.symm.trans hj)
    have free := K.keeps
    rw [H.hold_free hi (by simp [Instance.unheld_iff.mp unheld])] at free
    simp only [Section.result?, Section.hold, if_true]
    refine ⟨by simpa using vars.trans K.vars, ?_⟩
    exact fun h => (live nofun).trans ((free (pending.symm.trans h)).trans vars.symm)
  · have unmarked : a.marks id = false := Bool.eq_false_iff.mpr fun hm => by
      rcases Instr.marks_iff.mp hm with h | h | h
      · exact hl h
      · exact he h
      · exact hs h
    obtain ⟨same, none⟩ := Section.unmarked (b := holdAfter id .free h) (m := S.machine) unmarked
    rw [same, none]
    refine ⟨by simpa using vars.trans K.vars, K.keeps.congr vars pending fun idle => live ?_⟩
    -- A handler writes only while the script is held by it.
    rintro v l rfl rfl
    obtain ⟨x, hx⟩ := M.hold_running H
    exact idle x hx

theorem Life.kept (H : Life h S) (hi : S.machine.get? id = some i)
    (retains : ∀ v, i.program.retain v = v) : Kept id h i := by
  revert i
  refine H.induct_moves (P := fun h S => ∀ {i}, S.machine.get? id = some i →
    (∀ v, i.program.retain v = v) → Kept id h i) ?_ ?_ ?_
  · intro m hm i hi
    simp [Machine.get?, hm.instances] at hi
  · exact fun h S T J ih i hi => ih ((J.get? id).symm.trans hi)
  · intro h S T a rest reply others H M ih i' hi' retains
    cases hi : S.machine.get? id with
    | none =>
      obtain ⟨hold, nothing⟩ := H.unmade hi
      rw [M.machine] at hi'
      obtain ⟨l, caps, rfl, rfl⟩ := Machine.get?_new reply hi hi'
      obtain ⟨same, none⟩ := Section.unmarked (b := holdAfter id .free h) (m := S.machine)
        (show (Instr.load l).marks id = false from rfl)
      constructor
      · rw [results_snoc, nothing, none]
        rfl
      · rw [holdAfter_snoc, same, hold]
        exact fun _ => rfl
    | some i =>
      obtain ⟨s, p, hg⟩ := M.get?_after hi
      obtain rfl := Option.some.inj (hi'.symm.trans hg)
      have program : (a.alter id i).program = i.program := (a.fixed_alter id i).2.2.1
      have K := M.kept H hi (fun v => program ▸ retains v) (ih hi fun v => program ▸ retains v)
      exact ⟨K.vars, K.keeps.congr rfl rfl fun _ => rfl⟩

/-! ## What handlers begin with -/

/-- The turn has locked the script. What is shown of the variables has not changed since, unless
there was an edit. -/
def Locking (h : List Section) (v : Invocation) (i : Instance) : Prop :=
  ∃ before m after j, h = before ++ ⟨m, .lockScript v⟩ :: after ∧ m.get? v.id = some j ∧
    ((∀ s ∈ after, ∀ e, s.instr ≠ .edit v.id e) → i.vars = j.vars)

/-- The turn has locked the script and taken hold of it, and the script's own variables are what
was shown when it did. -/
def TookHold (h : List Section) (v : Invocation) (i : Instance) : Prop :=
  ∃ before m after j, h = before ++ ⟨m, .settle v.id⟩ :: after ∧ m.get? v.id = some j ∧
    Locking before v j ∧ i.live = j.vars

theorem Locking.snoc {j : Instance} {s : Section} (L : Locking h v i)
    (vars : (∀ e, s.instr ≠ .edit v.id e) → j.vars = i.vars) : Locking (h ++ [s]) v j := by
  obtain ⟨before, m, after, k, rfl, hk, same⟩ := L
  refine ⟨before, m, after ++ [s], k, by simp, hk, fun unedited => ?_⟩
  refine (vars (unedited s (by simp))).trans (same fun s hs => unedited s ?_)
  exact List.mem_append_left _ hs

theorem TookHold.snoc {j : Instance} (K : TookHold h v i) (s : Section) (live : j.live = i.live) :
    TookHold (h ++ [s]) v j := by
  obtain ⟨before, m, after, k, rfl, hk, L, same⟩ := K
  exact ⟨before, m, after ++ [s], k, by simp, hk, L, live.trans same⟩

/-- What is true of a turn that is to enter its handler while the script is held so. -/
def Entering (h : List Section) (v : Invocation) (i : Instance) : Hold → Prop
  | .free => False
  | .taking => Locking h v i
  | .running _ => TookHold h v i

theorem Moves.entering (M : Moves S a rest reply others T) (H : Life h S)
    (hv : .enter v ∈ elsewhere rest others) (hi : S.machine.get? v.id = some i)
    (retains : ∀ x, i.program.retain x = x) (E : Entering h v i (holdAfter v.id .free h)) :
    Entering (h ++ [⟨S.machine, a⟩]) v (a.alter v.id i)
      (Section.hold v.id (holdAfter v.id .free h) ⟨S.machine, a⟩) := by
  have here : .enter v ∈ S.pending := M.mem_before.mpr (.inr hv)
  have locked : i.holder = some .handler := by
    obtain ⟨j, hj, locked⟩ := H.locked.held_of_engages here (Instr.engages_enter v)
    exact Option.some.inj (hi.symm.trans hj) ▸ locked
  have K := (H.kept hi retains).keeps
  have P : (holdAfter v.id .free h).Fits v.id S.pending := H.hold_fits
  generalize holdAfter v.id .free h = b at E K P ⊢
  by_cases he : ∃ e, a = .edit v.id e
  · obtain ⟨e, rfl⟩ := he
    have alter : Instr.alter v.id i (.edit v.id e) =
        { i with vars := i.preview e, pendingEdit := some e } :=
      (if_pos rfl).trans (Instance.edit_of_keeps (Instance.keepsEdits_of_handler locked) e)
    rw [alter]
    simp only [Section.hold, if_true]
    cases b with
    | free => exact E
    | taking => exact Locking.snoc E fun unedited => absurd rfl (unedited e)
    | running x => exact TookHold.snoc E _ rfl
  by_cases hs : a = .settle v.id
  · subst hs
    have alter : Instr.alter v.id i (.settle v.id) = i.settle := if_pos rfl
    rw [alter]
    simp only [Section.hold, if_true]
    cases b with
    | free => exact E
    | taking =>
      have shown : i.settle.vars = i.vars := ((H.sound hi).keeps_settle retains K).1
      exact ⟨h, S.machine, [], i, rfl, hi, E, shown⟩
    | running x => exact absurd rfl (P.2 (M.mem_before.mpr (.inl rfl)) v here)
  obtain ⟨vars, -, live⟩ := a.vars_alter i (fun e ha => he ⟨e, ha⟩) hs
  have unmarked : a.marks v.id = false := Bool.eq_false_iff.mpr fun hm => by
    rcases Instr.marks_iff.mp hm with ⟨w, hw, rfl⟩ | h | h
    · obtain ⟨j, hj, unheld⟩ := M.unheld H.coherent
      rw [hw, hi] at hj
      obtain rfl := Option.some.inj hj
      exact Bool.false_ne_true (unheld.symm.trans (Instance.held_of_holder locked))
    · exact he h
    · exact hs h
  rw [(Section.unmarked unmarked).1]
  cases b with
  | free => exact E
  | taking => exact Locking.snoc E fun _ => vars
  | running x =>
    refine TookHold.snoc E _ (live ?_)
    rintro w l rfl hw
    exact M.held_once H.locked.once (congrArg some hw) (List.mem_filterMap.mpr ⟨_, hv, rfl⟩)

/-- Whoever is to enter a handler has locked the script, and has taken hold of it unless that is
still to be done. -/
theorem Life.entering (H : Life h S) : .enter v ∈ S.pending → S.machine.get? v.id = some i →
    (∀ x, i.program.retain x = x) → Entering h v i (holdAfter v.id .free h) := by
  revert i
  refine H.induct_moves (P := fun h S => ∀ {i}, .enter v ∈ S.pending →
    S.machine.get? v.id = some i → (∀ x, i.program.retain x = x) →
    Entering h v i (holdAfter v.id .free h)) ?_ ?_ ?_
  · exact fun m _ i hv => (List.not_mem_nil hv).elim
  · exact fun h S T J ih i hv hi => ih ((J.mem_pending rfl).mp hv) ((J.get? _).symm.trans hi)
  · intro h S T a rest reply others H M ih i' hv hi' retains
    rw [holdAfter_snoc]
    rcases M.mem_after.mp hv with hv | hv
    · rcases (M.leadsTo hv).turnOnly rfl with
        ⟨_, _, _, -, he | ⟨w, he⟩⟩ | ⟨w, l, -, he⟩ | ⟨w, rfl, he⟩ <;> cases he
      obtain ⟨i, hi, -⟩ := M.unheld H.coherent
      obtain ⟨s, p, hg⟩ := M.get?_after hi
      obtain rfl := Option.some.inj (hi'.symm.trans hg)
      simp only [Section.hold, if_true]
      exact ⟨h, S.machine, [], i, rfl, hi, fun _ =>
        (Instr.vars_alter (a := .lockScript v) i (by rintro e ⟨⟩) (by rintro ⟨⟩)).1⟩
    · have here : .enter v ∈ S.pending := M.mem_before.mpr (.inr hv)
      obtain ⟨i, hi, -⟩ := H.locked.held_of_engages here (Instr.engages_enter v)
      obtain ⟨s, p, hg⟩ := M.get?_after hi
      obtain rfl := Option.some.inj (hi'.symm.trans hg)
      have program : (a.alter v.id i).program = i.program := (a.fixed_alter v.id i).2.2.1
      have kept : ∀ x, i.program.retain x = x := fun x => program ▸ retains x
      have E := M.entering H hv hi kept (ih here hi kept)
      generalize Section.hold v.id (holdAfter v.id .free h) ⟨S.machine, a⟩ = b at E ⊢
      cases b <;> exact E

/-- An edit lasts until the next one, or until the end of a handler that has taken hold of the
script since. -/
theorem results_of_edit {m : Machine} {e : Edit} {before after : List Section}
    (hi : m.get? id = some i) (apart : holdAfter id .free before ≠ .taking)
    (last : ∀ s ∈ after, (∀ e, s.instr ≠ .edit id e) ∧ ∀ v, s.instr = .lockScript v → v.id ≠ id) :
    (results id .free (before ++ ⟨m, .edit id e⟩ :: after)).getLast? = some (i.preview e) := by
  have quiet : ∀ b, b = .free ∨ b = .running true → results id b after = [] := by
    induction after with
    | nil => exact fun _ _ => rfl
    | cons s after ih =>
      intro b hb
      have ih := ih fun s hs => last s (List.mem_cons_of_mem _ hs)
      obtain ⟨m, a⟩ := s
      by_cases hs : a = .settle id
      · subst hs
        rcases hb with rfl | rfl <;>
          simpa [results, Section.result?, Section.hold, Hold.settle] using ih .free (.inl rfl)
      · obtain ⟨unedited, unlocked⟩ := last ⟨m, a⟩ List.mem_cons_self
        have unmarked : a.marks id = false := Bool.eq_false_iff.mpr fun hm => by
          rcases Instr.marks_iff.mp hm with ⟨v, hv, rfl⟩ | ⟨e, rfl⟩ | rfl
          · exact unlocked v rfl hv
          · exact unedited e rfl
          · exact hs rfl
        obtain ⟨same, none⟩ := Section.unmarked (b := b) (m := m) unmarked
        rw [results, same, none, ih b hb]
        rfl
  have next : (holdAfter id .free before).edit = .free ∨
      (holdAfter id .free before).edit = .running true := by
    cases hb : holdAfter id .free before with
    | free => exact .inl rfl
    | taking => exact absurd hb apart
    | running x => exact .inr rfl
  have hold : Section.hold id (holdAfter id .free before) ⟨m, .edit id e⟩ =
      (holdAfter id .free before).edit := if_pos rfl
  rw [results_append, results, hold, quiet _ next]
  simp [Section.result?, hi]

/-- An instance has the same program throughout. -/
theorem Life.program_eq {before after : List Section} {s : Section} {j : Instance}
    (H : Life (before ++ s :: after) S) (hj : s.machine.get? id = some j)
    (hi : S.machine.get? id = some i) : j.program = i.program := by
  obtain ⟨m, hm, r⟩ := H
  obtain ⟨U, V, rest, reply, others, -, hs, M, r', rV⟩ := r.split
  obtain ⟨q, p, hg⟩ := M.get?_after (hs ▸ hj)
  obtain ⟨k, hk, -, -, same⟩ := rV.lasting_fixed ⟨m, hm, r'⟩ hg
  obtain rfl := Option.some.inj (hi.symm.trans hk)
  exact (s.instr.fixed_alter id j).2.2.1.symm.trans same.symm

/-- Edits of variables are neither lost nor late, in any life of a host, whatever turns are aborted
or given up, for a program that takes variables as it is given them. What an instance shows is the
last of the results: of each edit what it set the variables to, of each handler that had no edit
made while it ran what it left. When nobody has the script locked, its own variables are what is
shown, once what was kept back is applied. An edit is what is shown, whatever a handler writes that
had the script then, until the next edit or until the script is locked again; only if it comes just
between the locking of the script and the taking hold of it, the turn's handler starts from it. And
every handler is entered with the script's own variables as they were shown when its turn took hold
of the script. -/
theorem edits_settled (H : Life h S) (hi : S.machine.get? id = some i)
    (retains : ∀ v, i.program.retain v = v) :
    (∀ name, (S.machine.onInstance id i (.showVars name)).2.2 =
      .vars ((results id .free h).getLastD i.program.initial)) ∧
    (i.held = false → i.settle.live = i.vars) ∧
    (∀ before m e after, h = before ++ ⟨m, .edit id e⟩ :: after → m.get? id ≠ none →
      holdAfter id .free before ≠ .taking →
      (∀ s ∈ after, (∀ e, s.instr ≠ .edit id e) ∧ ∀ v, s.instr = .lockScript v → v.id ≠ id) →
      i.vars = i.preview e) ∧
    ∀ before m v after, h = before ++ ⟨m, .enter v⟩ :: after → v.id = id →
      ∃ j, m.get? id = some j ∧ TookHold before v j := by
  have K := H.kept hi retains
  have sound := H.sound hi
  refine ⟨fun name => ?_, fun unheld => ?_, ?_, ?_⟩
  · rw [← sound.initial]
    exact congrArg Reply.vars K.vars
  · have shown := (sound.keeps_settle retains K.keeps).1
    rw [H.hold_free hi (by simp [Instance.unheld_iff.mp unheld])] at shown
    exact shown
  · rintro before m e after rfl hj apart last
    obtain ⟨j, hj⟩ := Option.ne_none_iff_exists'.mp hj
    have same := H.program_eq hj hi
    have preview : j.preview e = i.preview e := by
      obtain ⟨U, V, rest, reply, others, HU, rfl, -, -⟩ := H.split
      cases e with
      | setVars v => rfl
      | resetVars =>
        exact (HU.sound hj).initial.trans ((congrArg Program.initial same).trans
          sound.initial.symm)
    rw [K.vars, List.getLastD_eq_getLast?, results_of_edit hj apart last, preview]
    rfl
  · rintro before m v after rfl rfl
    obtain ⟨U, V, rest, reply, others, HU, rfl, M, -⟩ := H.split
    have here : .enter v ∈ U.pending := M.mem_before.mpr (.inl rfl)
    obtain ⟨j, hj, -⟩ := HU.locked.held_of_engages here (Instr.engages_enter v)
    have E := HU.entering here hj fun x => H.program_eq hj hi ▸ retains x
    have P : (holdAfter v.id .free before).Fits v.id U.pending := HU.hold_fits
    generalize holdAfter v.id .free before = b at E P
    refine ⟨j, hj, ?_⟩
    cases b with
    | free => exact E.elim
    | taking =>
      -- Whoever enters has settled.
      exact absurd ((M.mem_before.mp P.1).resolve_left nofun) (M.not_settling HU.locked rfl)
    | running x => exact E

/-- A host in which variables are edited twice while a handler is stuck that writes them before and
after, and then another handler runs. -/
def edited : List Section × System :=
  System.play 40 ⟨.bare true, []⟩
    [.call (.loadNew "a" 1 (.answering
        [("state_entry", [.set "x" (.integer 1), .park false, .set "x" (.integer 2)]),
          ("touch", [.increment "n"])])),
      .call (.run 1), .call (.setVars "a" (.insert .empty "n" (.integer 5))),
      .call (.setVars "a" (.insert .empty "n" (.integer 7))), .call .release, .go 1,
      .call (.post "a" (.plain "touch" [])), .call (.run 1)]

theorem edits_settled_edited : ∃ i, edited.2.machine.get? 0 = some i ∧
    (∀ v, i.program.retain v = v) ∧
    (results 0 .free edited.1).map (·.get? "n") =
      [some (.integer 5), some (.integer 7), some (.integer 8)] ∧
    (results 0 .free edited.1).map (·.get? "x") = [none, none, none] ∧
    (edited.2.machine.onInstance 0 i (.showVars "a")).2.2 =
      .vars ((results 0 .free edited.1).getLastD i.program.initial) ∧
    i.settle.live = i.vars := by
  obtain ⟨i, hi, retains, unheld⟩ : ∃ i, edited.2.machine.get? 0 = some i ∧
      (∀ v, i.program.retain v = v) ∧ i.held = false := ⟨_, rfl, fun _ => rfl, rfl⟩
  obtain ⟨shown, own, -⟩ := edits_settled (Life.play true 40 _) hi retains
  exact ⟨i, hi, retains, rfl, rfl, shown "a", own unheld⟩

end System

end ScriptHost
