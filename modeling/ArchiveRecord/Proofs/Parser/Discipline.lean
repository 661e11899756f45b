/- # Proofs.Parser.Discipline -- what every run keeps

A parse may open a stream, its callbacks may have further arguments parsed, and any
of them may fail. What all runs share is `Disciplined`:

* openings and closings match, however the run ends;
* the fault that ends a run is raised in it, and only closings follow;
* where no callback holds a fault back, the first fault that is raised ends the run.

Each way of putting runs together keeps it -- one after the other, one inside the
opening and the closing of a stream, one behind a failed one whose fault a callback
took -- so the induction over scripts and readings has one line for each of their
cases.
-/
import ArchiveRecord.Parser.Bracket
import ArchiveRecord.Proofs.Parser.Loop

namespace ArchiveRecord.Parser

variable {σ : Type}

/-! ## Callbacks that pass faults on -/

/-- The event raises a fault. -/
def Event.isRaised : Event → Bool
  | .raised _ => true
  | _ => false

/-- **`script.PassesOn`** -- a fault that a nested parse met ends the script at once; and so it is
with the callbacks that the script binds. -/
def Script.PassesOn : Script σ → Prop
  | done => True
  | fail _ => True
  | note _ _ next => next.PassesOn
  | log _ next => next.PassesOn
  | read next => ∀ host, (next host).PassesOn
  | write _ next => next.PassesOn
  | register _ callback next => (∀ value, (callback value).PassesOn) ∧ next.PassesOn
  | reserve _ next => next.PassesOn
  | inspect next => ∀ names, (next names).PassesOn
  | provide _ next => next.PassesOn
  | parse _ next => (∀ fault, next (some fault) = fail fault) ∧ (next none).PassesOn

/-- **`state.PassesOn`** -- every callback that is bound passes faults on. -/
def State.PassesOn (state : State σ) : Prop :=
  ∀ token callback, state.parser.callback? token = some callback →
    ∀ value, (callback value).PassesOn

theorem State.PassesOn.register {state : State σ} {callback : Callback σ} (h : state.PassesOn)
    (hcallback : ∀ value, (callback value).PassesOn) (flag : String) :
    PassesOn { state with parser := state.parser.register flag callback } := by
  intro token bound hbound
  have hassign := callback?_assign state.parser flag (some callback) token
  rw [show (state.parser.register flag callback).callback? token = _ from hassign] at hbound
  split at hbound
  · obtain rfl := Option.some.inj hbound
    exact hcallback
  · exact h token bound hbound

theorem State.PassesOn.reserve {state : State σ} (h : state.PassesOn) (flag : String) :
    PassesOn { state with parser := state.parser.reserve flag } := by
  intro token bound hbound
  have hassign := callback?_assign state.parser flag none token
  rw [show (state.parser.reserve flag).callback? token = _ from hassign] at hbound
  split at hbound
  · cases hbound
  · exact h token bound hbound

/-! ## Where a fault stands among events -/

/-- **`StopsAt fault events`** -- the first fault that is raised is the given one, and behind it the
events only close streams and pass it on. -/
def StopsAt (fault : Fault) (events : List Event) : Prop :=
  ∃ before after, events = before ++ .raised fault :: after
    ∧ (∀ event ∈ before, event.isRaised = false)
    ∧ ∀ event ∈ after, event = .raised fault ∨ ∃ handle, event = .closed handle

variable {fault : Fault} {events front : List Event}

theorem EndsIn.append (h : EndsIn fault events) (front : List Event) :
    EndsIn fault (front ++ events) := by
  obtain ⟨before, handles, rfl⟩ := h
  exact ⟨front ++ before, handles, by rw [List.append_assoc]⟩

theorem EndsIn.closed (h : EndsIn fault events) (handle : String) :
    EndsIn fault (events ++ [.closed handle]) := by
  obtain ⟨before, handles, rfl⟩ := h
  refine ⟨before, handles ++ [handle], ?_⟩
  rw [List.map_append, List.append_assoc, List.cons_append, List.map_singleton]

theorem StopsAt.append (h : StopsAt fault events)
    (hfront : ∀ event ∈ front, event.isRaised = false) : StopsAt fault (front ++ events) := by
  obtain ⟨before, after, rfl, hbefore, hafter⟩ := h
  refine ⟨front ++ before, after, by rw [List.append_assoc], ?_, hafter⟩
  exact List.forall_mem_append.mpr ⟨hfront, hbefore⟩

theorem StopsAt.concat (h : StopsAt fault events) {event : Event}
    (hevent : event = .raised fault ∨ ∃ handle, event = .closed handle) :
    StopsAt fault (events ++ [event]) := by
  obtain ⟨before, after, rfl, hbefore, hafter⟩ := h
  refine ⟨before, after ++ [event], by rw [List.append_assoc, List.cons_append], hbefore, ?_⟩
  exact List.forall_mem_append.mpr ⟨hafter, List.forall_mem_singleton.mpr hevent⟩

/-! ## Disciplined runs -/

/-- **`run.Disciplined passing`** -- what every run keeps; `passing` says that no callback in it
holds a fault back. -/
structure Run.Disciplined (passing : Prop) (run : Run σ) : Prop where
  /-- Openings and closings match. -/
  bracketed : Bracketed run.events
  /-- The fault of a failed run is raised, and only closings follow. -/
  ends : ∀ fault, run.outcome = .failed fault → EndsIn fault run.events
  /-- A run that does not fail raises nothing. -/
  quiet : passing → (∀ fault, run.outcome ≠ .failed fault) →
    ∀ event ∈ run.events, event.isRaised = false
  /-- A failed run stops at the first fault. -/
  stops : passing → ∀ fault, run.outcome = .failed fault → StopsAt fault run.events
  /-- The callbacks that are left bound pass faults on. -/
  keeps : passing → run.state.PassesOn

namespace Run.Disciplined

variable {passing : Prop} {state : State σ} {run first second : Run σ}

theorem mono {other : Prop} (h : run.Disciplined passing) (himp : other → passing) :
    run.Disciplined other where
  bracketed := h.bracketed
  ends := h.ends
  quiet := fun hother => h.quiet (himp hother)
  stops := fun hother => h.stops (himp hother)
  keeps := fun hother => h.keeps (himp hother)

/-- A run in which nothing happens. -/
theorem still (h : passing → state.PassesOn) {outcome : Outcome}
    (houtcome : ∀ fault, outcome ≠ .failed fault) :
    Disciplined passing (⟨[], state, outcome⟩ : Run σ) where
  bracketed := .nil
  ends := fun fault hfault => absurd hfault (houtcome fault)
  quiet := fun _ _ _ hevent => absurd hevent List.not_mem_nil
  stops := fun _ fault hfault => absurd hfault (houtcome fault)
  keeps := h

theorem failed (h : passing → state.PassesOn) (fault : Fault) :
    Disciplined passing (Run.failed state fault) where
  bracketed := .cons rfl .nil
  ends := by
    intro other hother
    obtain rfl : fault = other := by cases hother; rfl
    exact ⟨[], [], rfl⟩
  quiet := fun _ hnot => absurd rfl (hnot fault)
  stops := by
    intro _ other hother
    obtain rfl : fault = other := by cases hother; rfl
    exact ⟨[], [], rfl, by simp, by simp⟩
  keeps := h

/-- Events that neither open, close nor raise may stand in front. -/
theorem after (h : run.Disciplined passing) {events : List Event}
    (hplain : ∀ event ∈ events, event.isBracket = false ∧ event.isRaised = false) :
    (run.after events).Disciplined passing where
  bracketed := by
    show Bracketed (events ++ run.events)
    induction events with
    | nil => exact h.bracketed
    | cons event events ih =>
        obtain ⟨hevent, hmore⟩ := List.forall_mem_cons.mp hplain
        exact .cons hevent.1 (ih hmore)
  ends := fun fault hfault => (h.ends fault hfault).append events
  quiet := by
    intro hpassing hnot
    exact List.forall_mem_append.mpr
      ⟨fun event hevent => (hplain event hevent).2, h.quiet hpassing hnot⟩
  stops := fun hpassing fault hfault =>
    (h.stops hpassing fault hfault).append fun event hevent => (hplain event hevent).2
  keeps := h.keeps

/-- A run may go on behind one that did not fail. -/
theorem follow (h : first.Disciplined passing) (hfirst : first.outcome = .completed)
    (k : second.Disciplined passing) : (second.after first.events).Disciplined passing where
  bracketed := h.bracketed.append k.bracketed
  ends := fun fault hfault => (k.ends fault hfault).append first.events
  quiet := by
    intro hpassing hnot
    have hquiet := h.quiet hpassing (by simp [hfirst])
    exact List.forall_mem_append.mpr ⟨hquiet, k.quiet hpassing hnot⟩
  stops := by
    intro hpassing fault hfault
    have hquiet := h.quiet hpassing (by simp [hfirst])
    exact (k.stops hpassing fault hfault).append hquiet
  keeps := k.keeps

/-- A run may go on behind a failed one, whose fault it takes or passes on. -/
theorem recover (h : first.Disciplined passing) (hfirst : first.outcome = .failed fault)
    (k : second.Disciplined passing) (hpass : passing → second = Run.failed first.state fault) :
    (second.after first.events).Disciplined passing where
  bracketed := h.bracketed.append k.bracketed
  ends := fun fault hfault => (k.ends fault hfault).append first.events
  quiet := by
    intro hpassing hnot
    -- A fault that is passed on fails the whole run.
    rw [hpass hpassing] at hnot
    exact absurd rfl (hnot fault)
  stops := by
    intro hpassing other hother
    rw [hpass hpassing] at hother ⊢
    obtain rfl : fault = other := by cases hother; rfl
    exact (h.stops hpassing fault hfirst).concat (.inl rfl)
  keeps := k.keeps

/-- A run may stand between the opening and the closing of a stream. -/
theorem between (h : run.Disciplined passing) (tracing : Bool) (handle : String) :
    ((run.before [.closed handle]).after (openingEvents tracing handle)).Disciplined passing := by
  have hclosed : (run.before [.closed handle] |>.after [.opened handle]).Disciplined passing :=
    { bracketed := .bracket h.bracketed .nil
      ends := fun fault hfault => ((h.ends fault hfault).closed handle).append [.opened handle]
      quiet := by
        intro hpassing hnot
        have hinner := h.quiet hpassing hnot
        refine List.forall_mem_append.mpr ⟨by simp [Event.isRaised], ?_⟩
        exact List.forall_mem_append.mpr ⟨hinner, by simp [Event.isRaised]⟩
      stops := by
        intro hpassing fault hfault
        have hinner := (h.stops hpassing fault hfault).concat (.inr ⟨handle, rfl⟩)
        exact hinner.append (by simp [Event.isRaised])
      keeps := h.keeps }
  cases tracing with
  | false => exact hclosed
  | true =>
      have htrace : ∀ event ∈ [Event.logged (openingCall handle)],
          event.isBracket = false ∧ event.isRaised = false := by
        simp [Event.isBracket, Event.isRaised]
      exact hclosed.after htrace

end Run.Disciplined

/-! ## Every run is disciplined -/

section Induction

variable {nested : List String → State σ → Run σ}

/-- **What a script does is disciplined**, if the parses in it are. -/
theorem Script.run_disciplined
    (hnested : ∀ arguments state, (nested arguments state).Disciplined state.PassesOn)
    (script : Script σ) (state : State σ) :
    (script.run nested state).Disciplined (script.PassesOn ∧ state.PassesOn) := by
  induction script generalizing state with
  | done => exact .still And.right (by simp)
  | fail fault => exact .failed And.right fault
  | note name value next ih =>
      have hplain : ∀ event ∈ [Event.noted name value],
          event.isBracket = false ∧ event.isRaised = false := by
        simp [Event.isBracket, Event.isRaised]
      exact (ih state).after hplain
  | log call next ih =>
      have hplain : ∀ event ∈ [Event.logged call],
          event.isBracket = false ∧ event.isRaised = false := by
        simp [Event.isBracket, Event.isRaised]
      exact (ih state).after hplain
  | read next ih =>
      refine (ih state.host state).mono ?_
      rintro ⟨hnext, hstate⟩
      exact ⟨hnext state.host, hstate⟩
  | write host next ih => exact ih { state with host }
  | register flag callback next _ ih =>
      refine (ih { state with parser := state.parser.register flag callback }).mono ?_
      rintro ⟨⟨hcallback, hnext⟩, hstate⟩
      exact ⟨hnext, hstate.register hcallback flag⟩
  | reserve flag next ih =>
      refine (ih { state with parser := state.parser.reserve flag }).mono ?_
      rintro ⟨hnext, hstate⟩
      exact ⟨hnext, hstate.reserve flag⟩
  | inspect next ih =>
      refine (ih state.parser.flags state).mono ?_
      rintro ⟨hnext, hstate⟩
      exact ⟨hnext state.parser.flags, hstate⟩
  | provide provider next ih =>
      exact ih { state with parser := state.parser.withProvider provider }
  | parse arguments next ih =>
      have hinner : (nested arguments state).Disciplined
          ((Script.parse arguments next).PassesOn ∧ state.PassesOn) :=
        (hnested arguments state).mono And.right
      rw [Script.run]
      cases houtcome : (nested arguments state).outcome with
      | completed =>
          refine hinner.follow houtcome ((ih none _).mono ?_)
          intro h
          exact ⟨h.1.2, hinner.keeps h⟩
      | failed fault =>
          refine hinner.recover houtcome ((ih (some fault) _).mono ?_) ?_
          · intro h
            rw [h.1.1 fault]
            exact ⟨trivial, hinner.keeps h⟩
          · intro h
            rw [h.1.1 fault, Script.run]
      | unfinished => exact hinner

/-- **A dispatch is disciplined**, whatever is active. -/
theorem dispatch_disciplined
    (hnested : ∀ arguments state, (nested arguments state).Disciplined state.PassesOn)
    (active : Option (Callback σ)) (readings : List Reading) (state : State σ) :
    (dispatch nested active readings state).Disciplined
      (state.PassesOn ∧ ∀ callback, active = some callback → ∀ value, (callback value).PassesOn) := by
  induction readings generalizing active state with
  | nil =>
      rw [dispatch_nil]
      exact .still And.left (by simp)
  | cons reading rest ih =>
      obtain ⟨result, origin⟩ := reading
      cases result with
      | error fault =>
          rw [dispatch_unread]
          exact .failed And.left fault
      | ok token =>
          cases hflag : state.parser.callback? token with
          | some bound =>
              -- The flag becomes active, and a bound callback passes faults on.
              rw [dispatch_flag hflag]
              refine (ih (some bound) state).mono ?_
              rintro ⟨hstate, -⟩
              refine ⟨hstate, fun callback hcallback => ?_⟩
              obtain rfl := Option.some.inj hcallback
              exact hstate token bound hflag
          | none =>
              cases active with
              | none =>
                  rw [dispatch_unexpected hflag]
                  exact .failed And.left _
              | some callback =>
                  rw [dispatch_value hflag]
                  have hcall := (Script.run_disciplined hnested (callback token) state).mono
                    (fun h : state.PassesOn ∧ ∀ other, some callback = some other →
                      ∀ value, (other value).PassesOn => ⟨h.2 callback rfl token, h.1⟩)
                  by_cases houtcome : ((callback token).run nested state).outcome = .completed
                  · rw [Run.andThen_of_completed houtcome]
                    refine hcall.follow houtcome ((ih (some callback) _).mono ?_)
                    intro h
                    exact ⟨hcall.keeps h, h.2⟩
                  · rw [Run.andThen_of_not_completed houtcome]
                    exact hcall

end Induction

end ArchiveRecord.Parser
