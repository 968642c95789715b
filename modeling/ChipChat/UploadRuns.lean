import ChipChat.LabelledSystem
import ChipChat.Service
import Mathlib.Data.List.Nodup

/-!
# Runs of `uploadMessage` calls

A write is issued, then stored or rejected by the backend in its own time, and the
callback of an awaited write runs some time later. A client may stop between any two
steps: callbacks it still had to run are lost, writes it issued still take effect.
The histories `issued`, `settled`, `executed` and `lost` are only ever appended to.
-/

namespace ChipChat.Upload

open LabelledSystem

set_option autoImplicit false

/-- The two `addDocument` calls have a callback, the two `setData` calls have none. -/
def awaited (w : Write) : Bool := decide (w.part = .ownThread ∨ w.part = .partnerThread)

structure State where
  documents : Documents
  sends : List Send
  inFlight : List Write
  callbacks : List (Write × Outcome)
  stopped : List Nat
  issued : List Write
  settled : List (Write × Outcome)
  executed : List (Write × Outcome)
  lost : List (Write × Outcome)

def initial : State := ⟨∅, [], [], [], [], [], [], [], []⟩

inductive Action where
  | uploadMessage (client : Nat) (currentUser : Option String) (message : String) (user : User)
      (date : Timestamp)
  | settle (w : Write) (o : Outcome)
  | callback (w : Write) (o : Outcome)
  | stop (client : Nat)
  deriving DecidableEq

namespace State

def begin (s : State) (w : Write) : State :=
  { s with
    sends := s.sends ++ [w.send]
    inFlight := s.inFlight ++ [w]
    issued := s.issued ++ [w] }

def settle (s : State) (w : Write) (o : Outcome) : State :=
  { s with
    inFlight := s.inFlight.erase w
    settled := s.settled ++ [(w, o)]
    documents := if o = .stored then s.documents.insert w.path w.send.data else s.documents
    callbacks :=
      if awaited w ∧ w.send.client ∉ s.stopped then s.callbacks ++ [(w, o)] else s.callbacks
    lost := if awaited w ∧ w.send.client ∈ s.stopped then s.lost ++ [(w, o)] else s.lost }

/-- The writes a callback issues: only the first one of a call issues any. -/
def continuation (w : Write) (o : Outcome) : List Write :=
  if w.part = .ownThread then Service.uploadMessageCallback w.send o else []

def execute (s : State) (w : Write) (o : Outcome) : State :=
  { s with
    callbacks := s.callbacks.erase (w, o)
    executed := s.executed ++ [(w, o)]
    inFlight := s.inFlight ++ continuation w o
    issued := s.issued ++ continuation w o }

def stop (s : State) (client : Nat) : State :=
  { s with
    stopped := client :: s.stopped
    callbacks := s.callbacks.filter fun e => decide (e.1.send.client ≠ client)
    lost := s.lost ++ s.callbacks.filter fun e => decide (e.1.send.client = client) }

end State

def step (s : State) : Action → Option State
  | .uploadMessage client currentUser message user date =>
      if client ∈ s.stopped then none
      else match Service.uploadMessage s.sends.length client currentUser message user date with
        | none => some s
        | some w => some (s.begin w)
  | .settle w o => if w ∈ s.inFlight then some (s.settle w o) else none
  | .callback w o => if (w, o) ∈ s.callbacks then some (s.execute w o) else none
  | .stop client => some (s.stop client)

def system : System State Action := ⟨initial, step⟩

/-- No write and no callback is outstanding. -/
def Quiescent (s : State) : Prop := s.inFlight = [] ∧ s.callbacks = []

instance (s : State) : Decidable (Quiescent s) := inferInstanceAs (Decidable (_ ∧ _))

/-- The calls whose first callback has run, in the order it did. -/
def continued (s : State) : List Send :=
  (s.executed.filter fun e => decide (e.1.part = .ownThread)).map fun e => e.1.send

/-- `completion` was invoked for the call, with no error or with one. -/
def Reported (s : State) (n : Send) (o : Outcome) : Prop := (⟨n, .partnerThread⟩, o) ∈ s.executed

def SettledAs (s : State) (n : Send) (p : Part) (o : Outcome) : Prop := (⟨n, p⟩, o) ∈ s.settled

instance (s : State) (n : Send) (p : Part) (o : Outcome) : Decidable (SettledAs s n p o) :=
  inferInstanceAs (Decidable (_ ∈ _))

/-- Everything one step can do. -/
inductive Change (s : State) : Action → State → Prop where
  | ignored (client : Nat) (message : String) (user : User) (date : Timestamp) :
      Change s (.uploadMessage client none message user date) s
  | begun (client : Nat) (currentUID message : String) (user : User) (date : Timestamp)
      (hc : client ∉ s.stopped) :
      Change s (.uploadMessage client (some currentUID) message user date)
        (s.begin ⟨⟨s.sends.length, client, currentUID, user, message, date⟩, .ownThread⟩)
  | settled (w : Write) (o : Outcome) (hw : w ∈ s.inFlight) :
      Change s (.settle w o) (s.settle w o)
  | executed (w : Write) (o : Outcome) (hw : (w, o) ∈ s.callbacks) :
      Change s (.callback w o) (s.execute w o)
  | stopped (client : Nat) : Change s (.stop client) (s.stop client)

theorem step_change {s t : State} {a : Action} (h : step s a = some t) : Change s a t := by
  cases a with
  | uploadMessage client currentUser message user date =>
    simp only [step] at h
    split at h
    · simp at h
    · rename_i hc
      cases currentUser with
      | none =>
        simp only [Service.uploadMessage, Option.map_none, Option.some.injEq] at h
        exact h ▸ .ignored client message user date
      | some currentUID =>
        simp only [Service.uploadMessage, Option.map_some, Option.some.injEq] at h
        exact h ▸ .begun client currentUID message user date hc
  | settle w o =>
    simp only [step, Option.ite_none_right_eq_some, Option.some.injEq] at h
    exact h.2 ▸ .settled w o h.1
  | callback w o =>
    simp only [step, Option.ite_none_right_eq_some, Option.some.injEq] at h
    exact h.2 ▸ .executed w o h.1
  | stop client =>
    simp only [step, Option.some.injEq] at h
    exact h ▸ .stopped client

/-- The call an action makes, if it finds somebody signed in. -/
def Action.call : Action → Option (Nat × String × String × User × Timestamp)
  | .uploadMessage client (some currentUID) message user date =>
      some (client, currentUID, message, user, date)
  | _ => none

def callOf (n : Send) : Nat × String × String × User × Timestamp :=
  (n.client, n.currentUID, n.message, n.user, n.date)

theorem sends_step {s t : State} {a : Action} (h : step s a = some t) :
    t.sends.map callOf = s.sends.map callOf ++ a.call.toList := by
  cases step_change h with
  | ignored => simp [Action.call]
  | begun => simp [Action.call, State.begin, callOf]
  | settled => simp [Action.call, State.settle]
  | executed => simp [Action.call, State.execute]
  | stopped => simp [Action.call, State.stop]

/-- `sends` lists the calls of the run, each once and in order. -/
theorem sends_run {s : State} {as : List Action} (h : run system as = some s) :
    s.sends.map callOf = as.filterMap Action.call := by
  induction as using List.reverseRecOn generalizing s with
  | nil =>
    cases h
    rfl
  | append_singleton as a ih =>
    obtain ⟨t, ht, hs⟩ := (run_snoc_iff system s as a).mp h
    rw [sends_step hs, ih ht, List.filterMap_append]
    cases ha : a.call <;> simp [ha]

end ChipChat.Upload
