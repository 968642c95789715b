import ChipChat.ConversationRuns

/-!
# One listener and the query it listens to

One account stays signed in and one listener runs. Each change of a snapshot starts
a lookup, whatever its kind, and the row of a partner is the message of the lookup
that completed last; no row is ever taken away.
-/

namespace ChipChat.ConversationList

open LabelledSystem

set_option autoImplicit false

/-- The state in which `u` has signed in and started `fetchConversations`. -/
def opened (u : String) : State :=
  { initial with
    currentUser := some u
    listeners := [⟨recentMessages u, .empty, []⟩] }

theorem run_opened (u : String) :
    run system [.signIn u, .fetchConversations] = some (opened u) := rfl

/-- A document `uploadMessage` writes at `messages/{u}/recent-messages/{documentID}`. -/
def RecentDocument (u : String) (d : QueryDocument) : Prop :=
  ∃ w : Send, d.data = w.data ∧
    (w.currentUID = u ∧ w.user.uid = d.documentID ∨ w.currentUID = d.documentID ∧ w.user.uid = u)

/-- The listener delivers, or a lookup returns the partner's users document. -/
def OneListener (u : String) : Action → Prop
  | .snapshot _ _ result => ∀ d ∈ result.documents, RecentDocument u d
  | .failed _ => True
  | .lookupReturned _ data _ => data ≠ none
  | _ => False

def decode (u : String) (d : QueryDocument) : Message := Message.ofDictionary (some u) 0 d.data

section Decoding
variable {u : String} {d e : QueryDocument}

theorem RecentDocument.decode_eq (h : RecentDocument u d) (now : Timestamp) :
    Message.ofDictionary (some u) now d.data = decode u d := by
  obtain ⟨w, hw, -⟩ := h
  rw [decode, hw, ofDictionary_data, ofDictionary_data]

theorem RecentDocument.chatPartnerID (h : RecentDocument u d) :
    (decode u d).chatPartnerID = d.documentID := by
  obtain ⟨w, hw, ⟨hfrom, hto⟩ | ⟨hfrom, hto⟩⟩ := h
  · simp [decode, hw, ofDictionary_data, Message.chatPartnerID, hfrom, hto]
  · by_cases hself : d.documentID = u
    · simp [decode, hw, ofDictionary_data, Message.chatPartnerID, hfrom, hto, hself]
    · simp [decode, hw, ofDictionary_data, Message.chatPartnerID, hfrom, hself]

theorem RecentDocument.decode_injective (hd : RecentDocument u d) (he : RecentDocument u e)
    (hid : d.documentID = e.documentID) (h : decode u d = decode u e) : d = e := by
  obtain ⟨w, hw, -⟩ := hd
  obtain ⟨v, hv, -⟩ := he
  have hdata : d.data = e.data := by
    simp only [decode, hw, hv, ofDictionary_data, Message.mk.injEq] at h
    rw [hw, hv]
    simp [Send.data_eq, h]
  cases d
  cases e
  simp_all

end Decoding

/-- What is known of the lookups, pending and completed, and of what they were started for. -/
structure Listening (u : String) (s : State) (r : Listener) : Prop where
  account : s.currentUser = some u
  listener : s.listeners = [r]
  documents : ∀ d ∈ r.result.documents, RecentDocument u d
  lookups : ∀ l ∈ s.lookups ++ s.completed, l.listener = 0 ∧
    RecentDocument u l.change.document ∧ l.message = decode u l.change.document
  delivered : ∀ d ∈ r.result.documents, ∃ l ∈ s.lookups ++ s.completed, l.change.document = d
  messages : r.conversations.map Conversation.message = s.completed.map Lookup.message
  dictionary : ∀ partner, s.conversationsDictionary.lookup partner =
    WriteLog.lastAt (filed r.conversations) partner

theorem listening_opened (u : String) :
    Listening u (opened u) ⟨recentMessages u, .empty, []⟩ := by
  constructor <;> simp [opened, initial, QueryResult.empty, filed]

section Steps
variable {u : String} {s : State} {r : Listener}

theorem listening_snapshot (h : Listening u s r) (now : Timestamp) {result : QueryResult}
    (hresult : ∀ d ∈ result.documents, RecentDocument u d) :
    Listening u (s.snapshot 0 r now result) { r with result := result } := by
  have hchange : ∀ change ∈ documentChanges r.result.documents result.documents,
      RecentDocument u change.document := by
    intro change hc
    rcases QueryResult.change_mem hc with hd | hd
    · exact h.documents _ hd
    · exact hresult _ hd
  constructor
  · exact h.account
  · simp [State.snapshot, h.listener]
  · exact hresult
  · intro l hl
    simp only [State.snapshot, List.mem_append, List.mem_map] at hl
    rcases hl with (hl | ⟨change, hc, rfl⟩) | hl
    · exact h.lookups l (List.mem_append_left _ hl)
    · refine ⟨rfl, hchange change hc, ?_⟩
      rw [Service.fetchConversationsChange, h.account]
      exact (hchange change hc).decode_eq now
    · exact h.lookups l (List.mem_append_right _ hl)
  · intro d hd
    simp only [State.snapshot, List.mem_append]
    rcases QueryResult.mem_old_or_changed r.result hd with hold | ⟨change, hc, rfl⟩
    · obtain ⟨l, hl, rfl⟩ := h.delivered d hold
      refine ⟨l, ?_, rfl⟩
      rcases List.mem_append.mp hl with hl | hl
      · exact Or.inl (Or.inl hl)
      · exact Or.inr hl
    · exact ⟨_, Or.inl (Or.inr (List.mem_map.mpr ⟨change, hc, rfl⟩)), rfl⟩
  · exact h.messages
  · exact h.dictionary

theorem listening_found (h : Listening u s r) {j : Nat} {l : Lookup} (hl : s.lookups[j]? = some l)
    (user : User) (rows : List Conversation) :
    Listening u (s.found j l r user rows)
      { r with conversations := Service.fetchConversationsLookup r.conversations l.message user } := by
  have hj : j < s.lookups.length := (List.getElem?_eq_some_iff.mp hl).1
  have hperm : ((s.found j l r user rows).lookups ++ (s.found j l r user rows).completed).Perm
      (s.lookups ++ s.completed) := by
    have hmoved := List.getElem_cons_eraseIdx_perm hj
    rw [(List.getElem?_eq_some_iff.mp hl).2] at hmoved
    have hback : (s.lookups.eraseIdx j ++ (s.completed ++ [l])).Perm
        (l :: s.lookups.eraseIdx j ++ s.completed) := by
      rw [← List.append_assoc]
      exact List.perm_append_singleton l _
    exact hback.trans (hmoved.append_right _)
  have hzero : l.listener = 0 :=
    (h.lookups l (List.mem_append_left _ (List.mem_of_getElem? hl))).1
  constructor
  · exact h.account
  · simp [State.found, h.listener, hzero]
  · exact h.documents
  · intro l' hl'
    exact h.lookups l' (hperm.mem_iff.mp hl')
  · intro d hd
    obtain ⟨l', hl', rfl⟩ := h.delivered d hd
    exact ⟨l', hperm.mem_iff.mpr hl', rfl⟩
  · simp [State.found, Service.fetchConversationsLookup, h.messages]
  · intro partner
    simp only [State.found, lookup_refiled, h.dictionary, Service.fetchConversationsLookup, filed,
      List.map_append, List.map_singleton]
    exact WriteLog.lastAt_concat_or _ _ _

theorem listening_step (h : Listening u s r) {t : State} {a : Action} (ha : OneListener u a)
    (ht : step s a = some t) : ∃ r', Listening u t r' := by
  cases step_change ht with
  | signedIn | signedOut | listened | nobody => exact ha.elim
  | delivered i r' now result hr =>
    rw [h.listener, List.getElem?_singleton] at hr
    split at hr
    · rename_i hi
      obtain rfl := Option.some.inj hr
      subst hi
      exact ⟨_, listening_snapshot h now ha⟩
    · cases hr
  | failed => exact ⟨r, h⟩
  | notFound j l data rows hl hnone =>
    simp only [Service.fetchUserCallback, Option.map_eq_none_iff] at hnone
    exact absurd hnone ha
  | found j l r' data user rows hl hsome hr hanswer =>
    have hzero := (h.lookups l (List.mem_append_left _ (List.mem_of_getElem? hl))).1
    rw [h.listener, hzero] at hr
    obtain rfl := Option.some.inj hr
    exact ⟨_, listening_found h hl user rows⟩

end Steps

theorem listening_run {u : String} {s : State} {as : List Action}
    (hrun : runFrom system (opened u) as = some s) (has : ∀ a ∈ as, OneListener u a) :
    WellFiled s ∧ ∃ r, Listening u s r :=
  invariant_of_stepsMeet (I := fun s => WellFiled s ∧ ∃ r, Listening u s r)
    (fun s a t hs ha (ht : step s a = some t) =>
      ⟨wellFiled_step hs.1 ht, listening_step hs.2.choose_spec ha ht⟩)
    ⟨⟨List.Perm.refl _, by simp [opened, initial], by simp [opened, initial],
      by simp [opened]⟩, _, listening_opened u⟩
    (stepsMeet_of_forall has _) hrun

/-- The document whose lookup completed last for a partner. -/
def lastCompleted (s : State) (partner : String) : Option QueryDocument :=
  WriteLog.lastAt (s.completed.map fun l => (l.change.document.documentID, l.change.document)) partner

section Quiescent
variable {u : String} {s : State} {r : Listener}

theorem lastCompleted_documentID {partner : String} {d : QueryDocument}
    (h : lastCompleted s partner = some d) : d.documentID = partner := by
  obtain ⟨l, -, heq⟩ := List.mem_map.mp (WriteLog.lastAt_mem h)
  cases heq
  rfl

theorem lastCompleted_recent (h : Listening u s r) {partner : String} {d : QueryDocument}
    (hd : lastCompleted s partner = some d) : RecentDocument u d := by
  obtain ⟨l, hl, heq⟩ := List.mem_map.mp (WriteLog.lastAt_mem hd)
  cases heq
  exact (h.lookups l (List.mem_append_right _ hl)).2.1

/-- The row of a partner shows what its last completed lookup was started for. -/
theorem lookup_message (h : Listening u s r) (partner : String) :
    (s.conversationsDictionary.lookup partner).map Conversation.message =
      (lastCompleted s partner).map (decode u) := by
  rw [h.dictionary, lastCompleted, ← WriteLog.lastAt_map_values, ← WriteLog.lastAt_map_values]
  have hfiled : (filed r.conversations).map (fun w => (w.1, w.2.message)) =
      (r.conversations.map Conversation.message).map fun m => (m.chatPartnerID, m) := by
    simp [filed, Function.comp_def]
  rw [hfiled, h.messages]
  congr 1
  simp only [List.map_map]
  apply List.map_congr_left
  intro l hl
  obtain ⟨-, hrecent, hmessage⟩ := h.lookups l (List.mem_append_right _ hl)
  simp [hmessage, hrecent.chatPartnerID]

theorem lastCompleted_isSome (h : Listening u s r) (hquiet : s.lookups = []) {d : QueryDocument}
    (hd : d ∈ r.result.documents) : (lastCompleted s d.documentID).isSome := by
  obtain ⟨l, hl, rfl⟩ := h.delivered d hd
  rw [hquiet, List.nil_append] at hl
  exact (WriteLog.lastAt_isSome_iff _ _).mpr
    (List.mem_map.mpr ⟨_, List.mem_map.mpr ⟨l, hl, rfl⟩, rfl⟩)

/-- Partner and message of each row, read off the dictionary. -/
theorem rows_perm (h : WellFiled s) :
    (s.conversations.map fun c => (c.user.uid, c.message)).Perm
      ((WriteLog.pairs s.conversationsDictionary).map fun e => (e.1, e.2.message)) := by
  refine (h.rows.map fun c => (c.user.uid, c.message)).trans (List.Perm.of_eq ?_)
  rw [values, List.map_map]
  apply List.map_congr_left
  rintro ⟨partner, c⟩ hc
  rw [WriteLog.mem_pairs_iff] at hc
  simp [h.users partner c hc, h.keys partner c hc]

/-- The rows are those of the current documents. -/
def ReflectsQuery (u : String) (s : State) (r : Listener) : Prop :=
  (s.conversations.map fun c => (c.user.uid, c.message)).Perm
    (r.result.documents.map fun d => (d.documentID, decode u d))

theorem reflectsQuery_iff_lookup (hfiled : WellFiled s) :
    ReflectsQuery u s r ↔ ∀ partner m,
      (s.conversationsDictionary.lookup partner).map Conversation.message = some m ↔
        ∃ d ∈ r.result.documents, d.documentID = partner ∧ decode u d = m := by
  have hdocuments : (r.result.documents.map fun d => (d.documentID, decode u d)).Nodup := by
    apply List.Nodup.of_map Prod.fst
    rw [List.map_map]
    exact r.result.distinct
  have hpairs : ((WriteLog.pairs s.conversationsDictionary).map
      fun e => (e.1, e.2.message)).Nodup := by
    apply List.Nodup.of_map Prod.fst
    rw [List.map_map]
    exact WriteLog.pairs_keys_nodup _
  rw [ReflectsQuery, List.Perm.congr_left (rows_perm hfiled),
    List.perm_ext_iff_of_nodup hpairs hdocuments, Prod.forall]
  refine forall_congr' fun partner => forall_congr' fun m => iff_congr ?_ ?_
  · simp only [List.mem_map, Prod.exists, WriteLog.mem_pairs_iff, Prod.mk.injEq,
      Option.map_eq_some_iff]
    constructor
    · rintro ⟨k, c, hc, rfl, rfl⟩
      exact ⟨c, hc, rfl⟩
    · rintro ⟨c, hc, rfl⟩
      exact ⟨partner, c, hc, rfl, rfl⟩
  · simp

theorem reflectsQuery_iff (hfiled : WellFiled s) (h : Listening u s r) (hquiet : s.lookups = []) :
    ReflectsQuery u s r ↔
      ∀ partner d, lastCompleted s partner = some d → d ∈ r.result.documents := by
  simp only [reflectsQuery_iff_lookup hfiled, lookup_message h]
  constructor
  -- the row shows `d`, and only one document of that partner decodes to it
  · intro hrows partner d hd
    obtain ⟨e, he, hid, hsame⟩ := (hrows partner (decode u d)).mp (by rw [hd]; rfl)
    have hed := (h.documents e he).decode_injective (lastCompleted_recent h hd)
      (hid.trans (lastCompleted_documentID hd).symm) hsame
    exact hed ▸ he
  · intro hcurrent partner m
    constructor
    · intro hm
      obtain ⟨d, hd, rfl⟩ := Option.map_eq_some_iff.mp hm
      exact ⟨d, hcurrent partner d hd, lastCompleted_documentID hd, rfl⟩
    · rintro ⟨d, hd, rfl, rfl⟩
      obtain ⟨e, he⟩ := Option.isSome_iff_exists.mp (lastCompleted_isSome h hquiet hd)
      have hed := QueryResult.eq_of_documentID_eq (hcurrent _ e he) hd (lastCompleted_documentID he)
      rw [he, hed]
      rfl

end Quiescent

theorem recentDocument_fromBob : RecentDocument "ann" fromBob :=
  ⟨⟨0, 0, "bob", ⟨"", "", "", "ann", ""⟩, "hi", 1000⟩, rfl, Or.inr ⟨rfl, rfl⟩⟩

def bobArrives : List Action :=
  [.snapshot 0 0 withBob,
   .lookupReturned 0 (some bobsDocument) [bobsRow]]

/-- Bob's message was echoed locally and its write is rejected. -/
def bobWithdrawn : List Action :=
  bobArrives ++ [.snapshot 0 0 .empty, .lookupReturned 0 (some bobsDocument) [bobsRow]]

theorem oneListener_bobArrives : ∀ a ∈ bobArrives, OneListener "ann" a := by
  intro a ha
  rcases List.mem_cons.mp ha with rfl | ha
  · intro d hd
    rw [List.mem_singleton.mp hd]
    exact recentDocument_fromBob
  · rw [List.mem_singleton.mp ha]
    simp [OneListener]

theorem oneListener_bobWithdrawn : ∀ a ∈ bobWithdrawn, OneListener "ann" a := by
  intro a ha
  rcases List.mem_append.mp ha with ha | ha
  · exact oneListener_bobArrives a ha
  · simp only [List.mem_cons, List.not_mem_nil, or_false] at ha
    rcases ha with rfl | rfl <;> simp [OneListener, QueryResult.empty]

def afterArrival : State := (runFrom system (opened "ann") bobArrives).get (by decide)
def afterWithdrawal : State := (runFrom system (opened "ann") bobWithdrawn).get (by decide)

theorem not_reflectsQuery :
    ¬ ∀ u as s r, runFrom system (opened u) as = some s → (∀ a ∈ as, OneListener u a) →
      s.lookups = [] → s.listeners[0]? = some r → ReflectsQuery u s r := by
  intro h
  have hgone := h "ann" bobWithdrawn afterWithdrawal ⟨recentMessages "ann", .empty,
    [bobsRow, bobsRow]⟩ (Option.some_get _).symm oneListener_bobWithdrawn rfl rfl
  exact absurd hgone (by unfold ReflectsQuery; decide)

theorem conversation_list {u : String} {s : State} {as : List Action}
    (hrun : runFrom system (opened u) as = some s) (has : ∀ a ∈ as, OneListener u a)
    (hquiet : s.lookups = []) {r : Listener} (hr : s.listeners[0]? = some r) :
    ReflectsQuery u s r ↔
      ∀ partner d, lastCompleted s partner = some d → d ∈ r.result.documents := by
  obtain ⟨hfiled, r', hlistening⟩ := listening_run hrun has
  rw [hlistening.listener] at hr
  obtain rfl := Option.some.inj hr
  exact reflectsQuery_iff hfiled hlistening hquiet

theorem conversation_list_bob :
    ReflectsQuery "ann" afterArrival
      ⟨recentMessages "ann", ⟨[fromBob], by decide, by decide, by decide⟩, [bobsRow]⟩ := by
  refine (conversation_list (s := afterArrival) (Option.some_get _).symm oneListener_bobArrives
    rfl rfl).mpr ?_
  intro partner d hd
  obtain ⟨l, hl, heq⟩ := List.mem_map.mp (WriteLog.lastAt_mem hd)
  cases heq
  have hdone : afterArrival.completed = [⟨0, ⟨.added, fromBob⟩,
      Message.ofDictionary (some "ann") 0 fromBob.data, some "ann"⟩] := by decide
  rw [hdone] at hl
  rw [List.mem_singleton.mp hl]
  exact List.mem_singleton.mpr rfl

end ChipChat.ConversationList
