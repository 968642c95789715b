import ChipChat.UserList

/-! The profile that `fetchUser` reads is the one that was registered under the uid. -/

namespace ChipChat.Registration

open LabelledSystem

set_option autoImplicit false

theorem ofDictionary_userData (credentials : RegistrationCredentials) (url uid : String) :
    User.ofDictionary (AuthService.userData credentials url uid) =
      ⟨credentials.email, credentials.fullname, credentials.username, uid, url⟩ := by
  simp [User.ofDictionary, AuthService.userData, Dictionary.asString, List.lookup_cons]

/-- The call `c` has created the account `a` and written its users document. -/
structure Wrote (s : State) (c : Call) (a : Account) : Prop where
  account : a ∈ s.accounts
  call : s.calls[a.creator]? = some c
  ended : c.progress = .ended (.userWritten none)

theorem Wrote.document {s : State} (h : Consistent s) {c : Call} {a : Account} (hw : Wrote s c a) :
    ∃ url, s.users.lookup (AuthService.userReference a.uid).path =
      some (AuthService.userData c.credentials url a.uid) :=
  (h.calls a.creator c hw.call).written a hw.account rfl hw.ended

/-- Every users document is one that a call has written. -/
theorem wrote_of_document {s : State} (h : Consistent s) {path : ResourcePath} {data : Dictionary}
    (hdata : s.users.lookup path = some data) :
    ∃ c a url, Wrote s c a ∧ path = (AuthService.userReference a.uid).path ∧
      data = AuthService.userData c.credentials url a.uid := by
  obtain ⟨a, ha, rfl, -⟩ := users_document h hdata
  obtain ⟨c, hcall⟩ : ∃ c, s.calls[a.creator]? = some c :=
    ⟨_, List.getElem?_eq_getElem (h.creators a ha)⟩
  have hended : c.progress = .ended (.userWritten none) := by
    by_contra hne
    have hnone := (h.calls a.creator c hcall).unwritten a ha rfl hne
    rw [hdata] at hnone
    cases hnone
  have hwrote : Wrote s c a := ⟨ha, hcall, hended⟩
  obtain ⟨url, hurl⟩ := hwrote.document h
  exact ⟨c, a, url, hwrote, rfl, Option.some.inj (hdata.symm.trans hurl)⟩

section Snapshot
variable {documents : Documents} {collection : CollectionReference}
  {snapshot : List (ResourcePath × Dictionary)}
  (h : snapshot.Perm (documents.inCollection collection))
include h

theorem lookup_of_snapshot : ∀ e ∈ snapshot, documents.lookup e.1 = some e.2 := by
  intro e he
  have hmem := List.mem_filter.mp (h.mem_iff.mp he)
  exact (WriteLog.mem_pairs_iff documents e.1 e.2).mp hmem.1

theorem snapshot_paths_nodup : (snapshot.map Prod.fst).Nodup := by
  rw [(h.map Prod.fst).nodup_iff]
  exact (WriteLog.pairs_keys_nodup documents).sublist (List.filter_sublist.map Prod.fst)

end Snapshot

/-- In every state of any calls of `createUser`, `fetchUser` completes for a uid exactly when a
call has created its account and written its document, and the user it completes with has
the fields that this call was given. -/
theorem registered_profile {s : State} {as : List Action} (hrun : run system as = some s)
    (hplain : ∀ x ∈ as, x.PlainUID) {uid : String} (huid : uid ≠ "" ∧ '/' ∉ uid.toList) :
    (∀ user, Service.fetchUserCallback (s.users.lookup (Service.fetchUserReference uid).path) =
        some user →
      ∃ c a, Wrote s c a ∧ a.uid = uid ∧ user.uid = uid ∧ user.email = c.credentials.email ∧
        user.fullname = c.credentials.fullname ∧ user.username = c.credentials.username) ∧
    ∀ c a, Wrote s c a → a.uid = uid →
      ∃ user, Service.fetchUserCallback (s.users.lookup (Service.fetchUserReference uid).path) =
        some user := by
  have h := consistent_run hrun hplain
  constructor
  · intro user huser
    obtain ⟨data, hdata, rfl⟩ := Option.map_eq_some_iff.mp huser
    obtain ⟨c, a, url, hwrote, hpath, rfl⟩ := wrote_of_document h hdata
    have hsame : a.uid = uid :=
      (uid_eq_of_path_eq huid (h.plain a hwrote.account) hpath).symm
    rw [ofDictionary_userData]
    exact ⟨c, a, hwrote, hsame, hsame, rfl, rfl, rfl⟩
  · rintro c a hwrote rfl
    obtain ⟨url, hurl⟩ := hwrote.document h
    exact ⟨_, congrArg (Option.map User.ofDictionary) hurl⟩

theorem registered_profile_bob :
    ∃ user, Service.fetchUserCallback
      (bothRegistered.users.lookup (Service.fetchUserReference "u2").path) = some user :=
  (registered_profile (s := bothRegistered) (Option.some_get _).symm
    (by decide : ∀ x ∈ annAndBob, x.PlainUID)
    (by decide : "u2" ≠ "" ∧ '/' ∉ "u2".toList)).2
    ⟨{ annCredentials with email := "bob@mail", username := "bob" }, "g",
      .ended (.userWritten none), [none]⟩ ⟨1, "bob@mail", "u2"⟩
    ⟨by decide, by decide, rfl⟩ rfl

end ChipChat.Registration
