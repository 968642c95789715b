import ChipChat.RegistrationRuns

/-! Which call of `createUser` wrote which users document: a document holds what was
typed in the call that wrote it last. -/

namespace ChipChat.Registration

open LabelledSystem

set_option autoImplicit false

/-- The call `i` wrote the users document at `path`, and no call has written it since. -/
def WrittenBy (s : State) (path : ResourcePath) (i : Nat) : Prop :=
  WriteLog.lastAt s.written path = some i

/-- What a call writes is made of its own credentials, and a users document holds what the
call wrote that wrote it last. -/
structure WritesKept (s : State) : Prop where
  writing : ∀ (i : Nat) (c : Call), s.calls[i]? = some c → ∀ uid data,
    c.progress = .waiting (.writingUser uid data) →
      ∃ url, data = AuthService.userData c.credentials url uid
  ended : ∀ e ∈ s.written, ∃ c, s.calls[e.2]? = some c ∧ c.progress = .ended (.userWritten none)
  documents : ∀ path data, s.users.lookup path = some data →
    ∃ (i : Nat) (c : Call) (url uid : String), WrittenBy s path i ∧ s.calls[i]? = some c ∧
      path = (AuthService.userReference uid).path ∧
        data = AuthService.userData c.credentials url uid

section Steps
variable {s t : State} {i : Nat} {c : Call} {stage : Stage} {p : Progress}

/-- A step of one call keeps the credentials of all and leaves the calls that have ended. -/
theorem call_set (hc : s.calls[i]? = some c) (hp : c.progress = .waiting stage) {j : Nat}
    {d : Call} (hd : s.calls[j]? = some d) :
    ∃ d', (s.calls.set i (c.follow p))[j]? = some d' ∧ d'.credentials = d.credentials ∧
      ∀ exit, d.progress = .ended exit → d' = d := by
  by_cases hij : i = j
  · subst hij
    obtain rfl := Option.some.inj (hc.symm.trans hd)
    refine ⟨c.follow p, List.getElem?_set_self (List.getElem?_eq_some_iff.mp hc).1, rfl, ?_⟩
    intro exit hexit
    rw [hp] at hexit
    cases hexit
  · exact ⟨d, (List.getElem?_set_ne hij).trans hd, rfl, fun _ _ => rfl⟩

theorem writing_set (h : WritesKept s)
    (own : ∀ uid data, p = .waiting (.writingUser uid data) →
      ∃ url, data = AuthService.userData c.credentials url uid) :
    ∀ (j : Nat) (d : Call), (s.calls.set i (c.follow p))[j]? = some d → ∀ uid data,
      d.progress = .waiting (.writingUser uid data) →
        ∃ url, data = AuthService.userData d.credentials url uid := by
  intro j d hd uid data hw
  rw [List.getElem?_set] at hd
  split at hd
  · split at hd
    · obtain rfl := Option.some.inj hd
      exact own uid data hw
    · cases hd
  · exact h.writing j d hd uid data hw

/-- A step that writes no users document. -/
theorem WritesKept.follow (h : WritesKept s) (hc : s.calls[i]? = some c)
    (hp : c.progress = .waiting stage) (calls : t.calls = s.calls.set i (c.follow p))
    (users : t.users = s.users) (written : t.written = s.written)
    (own : ∀ uid data, p = .waiting (.writingUser uid data) →
      ∃ url, data = AuthService.userData c.credentials url uid) : WritesKept t := by
  constructor
  · rw [calls]
    exact writing_set h own
  · intro e he
    rw [written] at he
    obtain ⟨d, hd, hended⟩ := h.ended e he
    obtain ⟨d', hd', -, hsame⟩ := call_set (p := p) hc hp hd
    rw [hsame _ hended] at hd'
    exact ⟨d, by rw [calls, hd'], hended⟩
  · intro path data hlookup
    rw [users] at hlookup
    obtain ⟨j, d, url, uid, hby, hd, hpath, hdata⟩ := h.documents path data hlookup
    obtain ⟨d', hd', hcredentials, -⟩ := call_set (p := p) hc hp hd
    exact ⟨j, d', url, uid, by rw [WrittenBy, written]; exact hby, by rw [calls, hd'], hpath,
      by rw [hcredentials, hdata]⟩

theorem writesKept_start (h : WritesKept s) (credentials : RegistrationCredentials)
    (filename : String) : WritesKept (s.start credentials filename) := by
  have old : ∀ {j : Nat} {d : Call}, s.calls[j]? = some d →
      (s.start credentials filename).calls[j]? = some d := fun hd => by
    rw [State.start, List.getElem?_append_left (List.getElem?_eq_some_iff.mp hd).1, hd]
  constructor
  · intro j d hd uid data hw
    simp only [State.start, List.getElem?_append] at hd
    split at hd
    · exact h.writing j d hd uid data hw
    · rw [List.getElem?_singleton] at hd
      split at hd
      · obtain rfl := Option.some.inj hd
        simp only [Call.follow, AuthService.createUser] at hw
        split at hw <;> simp at hw
      · cases hd
  · intro e he
    obtain ⟨d, hd, hended⟩ := h.ended e he
    exact ⟨d, old hd, hended⟩
  · intro path data hlookup
    obtain ⟨j, d, url, uid, hby, hd, hpath, hdata⟩ := h.documents path data hlookup
    exact ⟨j, d, url, uid, hby, old hd, hpath, hdata⟩

theorem writesKept_setData (h : WritesKept s) (hc : s.calls[i]? = some c) {uid : String}
    {data : Dictionary} (hp : c.progress = .waiting (.writingUser uid data)) :
    WritesKept (s.setData i c uid data none) := by
  have own : (s.setData i c uid data none).calls[i]? =
      some (c.follow (.ended (.userWritten none))) :=
    List.getElem?_set_self (List.getElem?_eq_some_iff.mp hc).1
  constructor
  · exact writing_set h fun _ _ hw => by cases hw
  · intro e he
    rcases List.mem_append.mp he with he | he
    · obtain ⟨d, hd, hended⟩ := h.ended e he
      obtain ⟨d', hd', -, hsame⟩ := call_set (p := .ended (.userWritten none)) hc hp hd
      rw [hsame _ hended] at hd'
      exact ⟨d, hd', hended⟩
    · rw [List.mem_singleton.mp he]
      exact ⟨_, own, rfl⟩
  · intro path data' hlookup
    by_cases hpath : path = (AuthService.userReference uid).path
    · obtain ⟨url, hdata⟩ := h.writing i c hc uid data hp
      have hnew : (s.setData i c uid data none).users.lookup path = some data := by
        rw [hpath]
        exact AList.lookup_insert _
      obtain rfl := Option.some.inj (hnew.symm.trans hlookup)
      exact ⟨i, _, url, uid, by rw [hpath]; exact WriteLog.lastAt_concat_self _ _ _, own, hpath,
        hdata⟩
    · have hold : s.users.lookup path = some data' := by
        rw [← hlookup]
        exact (AList.lookup_insert_ne hpath).symm
      obtain ⟨j, d, url, uid', hby, hd, hpath', hdata⟩ := h.documents path data' hold
      obtain ⟨d', hd', hcredentials, -⟩ := call_set (p := .ended (.userWritten none)) hc hp hd
      exact ⟨j, d', url, uid', (WriteLog.lastAt_concat_ne _ (Ne.symm hpath)).trans hby, hd', hpath',
        by rw [hcredentials, hdata]⟩

end Steps

theorem writesKept_step {s t : State} {a : Action} (h : WritesKept s) (ht : step s a = some t) :
    WritesKept t := by
  cases step_change ht with
  | started credentials filename hf => exact writesKept_start h credentials filename
  | put i c imageData error hc hp =>
    refine h.follow hc hp rfl rfl rfl ?_
    intro uid data hw
    cases error <;> cases hw
  | downloaded i c url hc hp =>
    refine h.follow hc hp rfl rfl rfl ?_
    intro uid data hw
    cases url <;> cases hw
  | answered i c profileImageURL created result error hc hp hauth =>
    refine h.follow hc hp rfl rfl rfl ?_
    intro uid data hw
    cases error <;> cases result <;> cases hw
    exact ⟨profileImageURL, rfl⟩
  | wrote i c uid data error hc hp =>
    cases error with
    | none => exact writesKept_setData h hc hp
    | some error => exact h.follow hc hp rfl rfl rfl fun _ _ hw => by cases hw

theorem writesKept_run {s : State} {as : List Action} (h : run system as = some s) :
    WritesKept s :=
  invariant (by constructor <;> simp [system, initial])
    (fun s a t hs (ht : step s a = some t) => writesKept_step hs ht) h

end ChipChat.Registration
