import ChipChat.UploadAccounting

/-!
# What the thread collections hold

Between accounts whose uids are single path segments, the documents of a thread
collection are exactly the copies of the calls between its two accounts whose
write Firestore stored. The recent-messages collections share the path space but
none of its documents.
-/

namespace ChipChat.Upload

open LabelledSystem

set_option autoImplicit false

structure IsUID (s : String) : Prop where
  nonempty : s ≠ ""
  noSlash : '/' ∉ s.toList
  notRecent : s ≠ "recent-messages"

theorem isUID_iff (s : String) :
    IsUID s ↔ s ≠ "" ∧ '/' ∉ s.toList ∧ s ≠ "recent-messages" :=
  ⟨fun h => ⟨h.1, h.2, h.3⟩, fun h => ⟨h.1, h.2.1, h.2.2⟩⟩

instance (s : String) : Decidable (IsUID s) := decidable_of_iff' _ (isUID_iff s)

/-- The user decoded from a document that holds only a uid. -/
def account (uid : String) : User := User.ofDictionary [("uid", .string uid)]

/-- Whoever calls and whoever is addressed has an account uid. -/
def Action.BetweenAccounts : Action → Prop
  | .uploadMessage _ currentUser _ user _ => (∀ uid ∈ currentUser, IsUID uid) ∧ IsUID user.uid
  | _ => True

instance : ∀ a : Action, Decidable a.BetweenAccounts
  | .uploadMessage _ currentUser _ user _ =>
      inferInstanceAs (Decidable ((∀ uid ∈ currentUser, IsUID uid) ∧ IsUID user.uid))
  | .settle .. | .callback .. | .stop .. => isTrue trivial

def SendsBetweenAccounts (s : State) : Prop :=
  ∀ n ∈ s.sends, IsUID n.currentUID ∧ IsUID n.user.uid

theorem sendsBetweenAccounts_step {s t : State} {a : Action} (h : SendsBetweenAccounts s)
    (ha : a.BetweenAccounts) (ht : step s a = some t) : SendsBetweenAccounts t := by
  cases step_change ht with
  | ignored | settled | executed | stopped => exact h
  | begun client uid message user date hc =>
    intro n hn
    rcases List.mem_append.mp hn with hn | hn
    · exact h n hn
    · obtain rfl := List.mem_singleton.mp hn
      exact ⟨ha.1 uid rfl, ha.2⟩

theorem sendsBetweenAccounts_run {s : State} {as : List Action} (h : run system as = some s)
    (has : ∀ a ∈ as, a.BetweenAccounts) : SendsBetweenAccounts s :=
  invariant_of_stepsMeet
    (fun s a t hs ha (ht : step s a = some t) => sendsBetweenAccounts_step hs ha ht)
    (fun _ hn => absurd hn List.not_mem_nil) (stepsMeet_of_forall has system.init) h

theorem path_threadCollection {a b : String} (ha : IsUID a) (hb : IsUID b) :
    (threadCollection a b).path = [.name "messages", .name a, .name b] := by
  have hm : pathSegments "messages" = ["messages"] := by decide
  simp [threadCollection, collectionMessages, hm, pathSegments_eq_self ha.1 ha.2,
    pathSegments_eq_self hb.1 hb.2]

theorem path_recentMessages {a : String} (ha : IsUID a) :
    (recentMessages a).path = [.name "messages", .name a, .name "recent-messages"] := by
  have hm : pathSegments "messages" = ["messages"] := by decide
  have hr : pathSegments "recent-messages" = ["recent-messages"] := by decide
  simp [recentMessages, collectionMessages, hm, hr, pathSegments_eq_self ha.1 ha.2]

theorem write_path {w : Write} (hc : IsUID w.send.currentUID) (hu : IsUID w.send.user.uid) :
    w.path = match w.part with
      | .ownThread => [.name "messages", .name w.send.currentUID, .name w.send.user.uid,
          .autoID (2 * w.send.number)]
      | .partnerThread => [.name "messages", .name w.send.user.uid, .name w.send.currentUID,
          .autoID (2 * w.send.number + 1)]
      | .ownRecent => [.name "messages", .name w.send.currentUID, .name "recent-messages",
          .name w.send.user.uid]
      | .partnerRecent => [.name "messages", .name w.send.user.uid, .name "recent-messages",
          .name w.send.currentUID] := by
  obtain ⟨n, p⟩ := w
  cases p <;>
    simp [Write.path, Send.reference, path_threadCollection hc hu, path_threadCollection hu hc,
      path_recentMessages hc, path_recentMessages hu, pathSegments_eq_self hc.1 hc.2,
      pathSegments_eq_self hu.1 hu.2]

/-- The documents that lie in the thread of `a` with `b`. -/
def inThread (a b : String) (path : ResourcePath) : Bool :=
  decide (path ≠ [] ∧ path.dropLast = (threadCollection a b).path)

theorem inThread_write_iff {a b : String} (ha : IsUID a) (hb : IsUID b) {w : Write}
    (hc : IsUID w.send.currentUID) (hu : IsUID w.send.user.uid) :
    inThread a b w.path ↔
      (w.part = .ownThread ∧ w.send.currentUID = a ∧ w.send.user.uid = b) ∨
      (w.part = .partnerThread ∧ w.send.user.uid = a ∧ w.send.currentUID = b) := by
  rw [inThread, write_path hc hu, path_threadCollection ha hb]
  obtain ⟨n, p⟩ := w
  cases p
  · simp
  · simp
  -- a summary lies in the thread only if an account is called "recent-messages"
  · simpa using fun _ h => hb.3 h.symm
  · simpa using fun _ h => hb.3 h.symm

/-- The call is between the two accounts, in either direction. -/
def Between (a b : String) (n : Send) : Prop :=
  (n.currentUID = a ∧ n.user.uid = b) ∨ (n.currentUID = b ∧ n.user.uid = a)

instance (a b : String) (n : Send) : Decidable (Between a b n) :=
  inferInstanceAs (Decidable (_ ∨ _))

theorem between_comm (a b : String) (n : Send) : Between a b n ↔ Between b a n := by
  unfold Between
  exact Or.comm

/-- The write of a call between `a` and another account that goes to `a`'s side. -/
def copyFor (a : String) (n : Send) : Write :=
  ⟨n, if n.currentUID = a then .ownThread else .partnerThread⟩

theorem copyFor_sender {a : String} {n : Send} (h : n.currentUID = a) :
    copyFor a n = ⟨n, .ownThread⟩ := by simp [copyFor, h]

theorem copyFor_recipient {a : String} {n : Send} (h : n.currentUID ≠ a) :
    copyFor a n = ⟨n, .partnerThread⟩ := by simp [copyFor, h]

theorem inThread_iff_copyFor {a b : String} (ha : IsUID a) (hb : IsUID b) (hab : a ≠ b)
    {w : Write} (hc : IsUID w.send.currentUID) (hu : IsUID w.send.user.uid) :
    inThread a b w.path ↔ Between a b w.send ∧ copyFor a w.send = w := by
  rw [inThread_write_iff ha hb hc hu]
  obtain ⟨n, p⟩ := w
  constructor
  · rintro (⟨rfl, hca, hub⟩ | ⟨rfl, hua, hcb⟩)
    · exact ⟨Or.inl ⟨hca, hub⟩, copyFor_sender hca⟩
    · exact ⟨Or.inr ⟨hcb, hua⟩, copyFor_recipient fun h => hab (h.symm.trans hcb)⟩
  · rintro ⟨⟨hca, hub⟩ | ⟨hcb, hua⟩, hw⟩
    · left
      rw [copyFor_sender hca] at hw
      exact ⟨congrArg Write.part hw.symm, hca, hub⟩
    · right
      rw [copyFor_recipient fun h => hab (h.symm.trans hcb)] at hw
      exact ⟨congrArg Write.part hw.symm, hua, hcb⟩

/-- The calls between `a` and `b` whose copy on `a`'s side was stored. -/
def delivered (s : State) (a b : String) : List Send :=
  s.sends.filter fun n => decide (Between a b n ∧ SettledAs s n (copyFor a n).part .stored)

def threadData (s : State) (a b : String) : List Dictionary :=
  (s.documents.inCollection (threadCollection a b)).map Prod.snd

section Contents
variable {s : State} {a b : String}

theorem settled_send (h : Accounting s) {e : Write × Outcome} (he : e ∈ s.settled) :
    e.1.send ∈ s.sends := by
  rcases (mem_issued_iff h e.1).mp (settled_issued h he) with hi | hi
  · exact hi.2
  · exact continued_subset h hi.2

theorem storedInThread_perm (h : Accounting s) (hs : SendsBetweenAccounts s) (ha : IsUID a)
    (hb : IsUID b) (hab : a ≠ b) :
    ((s.settled.filter fun e => decide (e.2 = .stored) && inThread a b e.1.path).map
      Prod.fst).Perm ((delivered s a b).map (copyFor a)) := by
  apply (List.perm_ext_iff_of_nodup ?_ ?_).mpr
  · intro w
    simp only [List.mem_map, List.mem_filter, Bool.and_eq_true, decide_eq_true_eq, delivered]
    constructor
    · rintro ⟨⟨w', o⟩, ⟨he, ho, ht⟩, rfl⟩
      cases ho
      have hacc := hs _ (settled_send h he)
      obtain ⟨hbt, hcopy⟩ := (inThread_iff_copyFor ha hb hab hacc.1 hacc.2).mp ht
      refine ⟨w'.send, ⟨settled_send h he, hbt, ?_⟩, hcopy⟩
      rw [hcopy]
      exact he
    · rintro ⟨n, ⟨hn, hbt, hst⟩, rfl⟩
      have hacc := hs n hn
      exact ⟨(copyFor a n, .stored), ⟨hst, rfl,
        (inThread_iff_copyFor ha hb hab hacc.1 hacc.2).mpr ⟨hbt, rfl⟩⟩, rfl⟩
  · exact (settled_nodup h).sublist (List.filter_sublist.map _)
  · exact ((sends_nodup h).filter _).map fun m n hmn => congrArg Write.send hmn

/-- Identifiers are fresh: no other write has the path of a thread copy. -/
theorem eq_of_path_eq (h : Accounting s) (hs : SendsBetweenAccounts s) {w w' : Write}
    (hw : w.send ∈ s.sends) (hw' : w'.send ∈ s.sends) (ha : awaited w) (heq : w.path = w'.path) :
    w = w' := by
  have hacc := hs _ hw
  have hacc' := hs _ hw'
  rw [write_path hacc.1 hacc.2, write_path hacc'.1 hacc'.2] at heq
  obtain ⟨m, p⟩ := w
  obtain ⟨n, q⟩ := w'
  -- the identifiers of a call's two thread copies differ in parity
  have hpq : p = q ∧ m.number = n.number := by
    cases p <;> cases q <;> simp [awaited] at ha heq ⊢ <;> omega
  obtain ⟨rfl, hn⟩ := hpq
  have hmn : m = n := send_eq_of_number_eq h hw hw' hn
  rw [hmn]

theorem lookup_copy (h : Accounting s) (hs : SendsBetweenAccounts s) {w : Write}
    (hw : w.send ∈ s.sends) (ha : awaited w) :
    s.documents.lookup w.path = if (w, .stored) ∈ s.settled then some w.send.data else none := by
  rw [h.documents, WriteLog.lookup_replay]
  have origin : ∀ d, (w.path, d) ∈ storedEntries s.settled →
      (w, .stored) ∈ s.settled ∧ d = w.send.data := by
    intro d hd
    obtain ⟨⟨w', o⟩, he, heq⟩ := List.mem_map.mp hd
    obtain ⟨he, ho⟩ := List.mem_filter.mp he
    obtain rfl : o = .stored := of_decide_eq_true ho
    obtain ⟨hpath, rfl⟩ := Prod.mk.inj heq
    obtain rfl := eq_of_path_eq h hs hw (settled_send h he) ha hpath.symm
    exact ⟨he, rfl⟩
  cases hl : WriteLog.lastAt (storedEntries s.settled) w.path with
  | some d =>
    obtain ⟨hst, rfl⟩ := origin d (WriteLog.lastAt_mem hl)
    rw [if_pos hst]
  | none =>
    rw [if_neg]
    intro hst
    have hkey : w.path ∈ (storedEntries s.settled).map Prod.fst :=
      List.mem_map.mpr ⟨w.entry, List.mem_map.mpr ⟨(w, .stored),
        List.mem_filter.mpr ⟨hst, rfl⟩, rfl⟩, rfl⟩
    have hsome := (WriteLog.lastAt_isSome_iff _ _).mpr hkey
    rw [hl] at hsome
    exact absurd hsome (by simp)

theorem copyFor_path_nodup (h : Accounting s) (hs : SendsBetweenAccounts s) :
    (((delivered s a b).map (copyFor a)).map Write.path).Nodup := by
  rw [List.map_map]
  apply ((sends_nodup h).filter _).map_on
  intro m hm n hn heq
  have haw : awaited (copyFor a m) := by
    unfold awaited copyFor
    split <;> simp
  have hsame : copyFor a m = copyFor a n :=
    eq_of_path_eq h hs (List.mem_filter.mp hm).1 (List.mem_filter.mp hn).1 haw heq
  exact congrArg Write.send hsame

/-- The thread of `a` with `b` holds one document for each of those calls, and no other. -/
theorem thread_perm (h : Accounting s) (hs : SendsBetweenAccounts s) (ha : IsUID a)
    (hb : IsUID b) (hab : a ≠ b) :
    (s.documents.inCollection (threadCollection a b)).Perm
      ((delivered s a b).map fun n => (copyFor a n).entry) := by
  have hfilter : (storedEntries s.settled).filter (fun e => inThread a b e.1) =
      ((s.settled.filter fun e => decide (e.2 = .stored) && inThread a b e.1.path).map
        Prod.fst).map Write.entry := by
    rw [storedEntries, List.filter_map, List.filter_filter, List.map_map]
    congr 1
    apply List.filter_congr
    intro e _
    rw [Bool.and_comm]
    rfl
  have hlog := storedInThread_perm h hs ha hb hab
  have once : (((storedEntries s.settled).filter fun e => inThread a b e.1).map
      Prod.fst).Nodup := by
    rw [hfilter, List.map_map]
    exact (hlog.map Write.path).nodup_iff.mpr (copyFor_path_nodup h hs)
  have hdocs := WriteLog.pairs_replay_perm (storedEntries s.settled) (inThread a b) once
  rw [← h.documents, hfilter] at hdocs
  refine hdocs.trans ?_
  refine (hlog.map Write.entry).trans ?_
  rw [List.map_map]
  rfl

end Contents

end ChipChat.Upload
