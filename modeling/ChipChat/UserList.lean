import ChipChat.RegistrationOutcomes

/-!
# The other users

`fetchUsers` removes the first user with the uid of the current account. No other
users document decodes to that uid, since each carries the identifier it is stored
under, so that removing one is removing all.
-/

namespace ChipChat.Registration

open LabelledSystem

set_option autoImplicit false

theorem eraseP_eq_filter {α : Type*} {p : α → Bool} {l : List α}
    (once : l.Pairwise fun a b => ¬ (p a ∧ p b)) : l.eraseP p = l.filter fun a => !p a := by
  induction l with
  | nil => rfl
  | cons a l ih =>
    obtain ⟨hfirst, hrest⟩ := List.pairwise_cons.mp once
    by_cases ha : p a
    · have hother : ∀ b ∈ l, !p b := fun b hb => by simpa [ha] using hfirst b hb
      rw [List.eraseP_cons_of_pos ha, List.filter_cons_of_neg (by simp [ha])]
      exact (List.filter_eq_self.mpr hother).symm
    · rw [List.eraseP_cons_of_neg ha, List.filter_cons_of_pos (by simp [ha]), ih hrest]

theorem fetchUsersCallback_eq_eraseP (currentUser : Option String) (documents : List Dictionary) :
    Service.fetchUsersCallback currentUser (some documents) =
      some ((documents.map User.ofDictionary).eraseP fun user =>
        decide (some user.uid = currentUser)) := by
  rw [List.eraseP_eq_eraseIdx]
  simp only [Service.fetchUsersCallback, Option.map_some]
  congr 1
  split <;> rename_i h <;> simp [h]

/-- Every users document is one that a call of `createUser` wrote, for an account of its own. -/
theorem users_document {s : State} (h : Consistent s) {path : ResourcePath} {data : Dictionary}
    (hdata : s.users.lookup path = some data) :
    ∃ a ∈ s.accounts, path = (AuthService.userReference a.uid).path ∧
      ∃ credentials url, data = AuthService.userData credentials url a.uid := by
  obtain ⟨a, ha, rfl⟩ := h.users path (by rw [hdata]; rfl)
  have hlt := h.creators a ha
  have hcall := h.calls a.creator _ (List.getElem?_eq_getElem hlt)
  refine ⟨a, ha, rfl, ?_⟩
  by_cases hend : s.calls[a.creator].progress = .ended (.userWritten none)
  · obtain ⟨url, hurl⟩ := hcall.written a ha rfl hend
    exact ⟨_, url, Option.some.inj (hdata.symm.trans hurl)⟩
  · have hnone := hcall.unwritten a ha rfl hend
    rw [hdata] at hnone
    cases hnone

theorem uid_userData (credentials : RegistrationCredentials) (url uid : String) :
    (User.ofDictionary (AuthService.userData credentials url uid)).uid = uid := by
  simp [User.ofDictionary, AuthService.userData, Dictionary.asString, List.lookup_cons]

/-- A users document decodes to the uid of exactly the account it is stored for. -/
theorem uid_eq_iff {s : State} (h : Consistent s) {path : ResourcePath} {data : Dictionary}
    (hdata : s.users.lookup path = some data) {u : String} (hu : u ≠ "" ∧ '/' ∉ u.toList) :
    (User.ofDictionary data).uid = u ↔ path = (AuthService.userReference u).path := by
  obtain ⟨a, ha, rfl, credentials, url, rfl⟩ := users_document h hdata
  rw [uid_userData]
  constructor
  · rintro rfl
    rfl
  · exact uid_eq_of_path_eq (h.plain a ha) hu

section Snapshot
variable {s : State} (h : Consistent s) {snapshot : List (ResourcePath × Dictionary)}
  (hdocuments : ∀ e ∈ snapshot, s.users.lookup e.1 = some e.2)
  (hpaths : (snapshot.map Prod.fst).Nodup) {u : String} (hu : u ≠ "" ∧ '/' ∉ u.toList)
include h hdocuments hpaths hu

theorem fetchUsersCallback_snapshot :
    Service.fetchUsersCallback (some u) (some (snapshot.map Prod.snd)) =
      some ((snapshot.filter fun e => decide (e.1 ≠ (AuthService.userReference u).path)).map
        fun e => User.ofDictionary e.2) := by
  have huid : ∀ e ∈ snapshot, (User.ofDictionary e.2).uid = u ↔
      e.1 = (AuthService.userReference u).path :=
    fun e he => uid_eq_iff h (hdocuments e he) hu
  have honce : ((snapshot.map Prod.snd).map User.ofDictionary).Pairwise fun v w =>
      ¬ (decide (some v.uid = some u) ∧ decide (some w.uid = some u)) := by
    rw [List.pairwise_map, List.pairwise_map]
    refine (List.pairwise_map.mp hpaths).imp_of_mem ?_
    intro d e hd he hne hboth
    simp only [Option.some.injEq, decide_eq_true_eq] at hboth
    exact hne (((huid d hd).mp hboth.1).trans ((huid e he).mp hboth.2).symm)
  rw [fetchUsersCallback_eq_eraseP, eraseP_eq_filter honce, List.map_map, List.filter_map]
  congr 2
  apply List.filter_congr
  intro e he
  simp [huid e he]

/-- The user who is signed in is not among the users handed over. -/
theorem fetchUsersCallback_other {users : List User}
    (husers : Service.fetchUsersCallback (some u) (some (snapshot.map Prod.snd)) = some users) :
    ∀ user ∈ users, user.uid ≠ u := by
  intro user huser huid
  obtain rfl := Option.some.inj
    ((fetchUsersCallback_snapshot h hdocuments hpaths hu).symm.trans husers)
  obtain ⟨e, he, rfl⟩ := List.mem_map.mp huser
  obtain ⟨hmem, hother⟩ := List.mem_filter.mp he
  have hpath := (uid_eq_iff h (hdocuments e hmem) hu).mp huid
  simp [hpath] at hother

end Snapshot

theorem user_list {s : State} {as : List Action} (hrun : run system as = some s)
    (hplain : ∀ x ∈ as, x.PlainUID) {u : String} (hu : u ≠ "" ∧ '/' ∉ u.toList)
    {snapshot : List (ResourcePath × Dictionary)}
    (hsnapshot : snapshot.Perm (s.users.inCollection collectionUsers)) :
    Service.fetchUsersCallback (some u) (some (snapshot.map Prod.snd)) =
        some ((snapshot.filter fun e => decide (e.1 ≠ (AuthService.userReference u).path)).map
          fun e => User.ofDictionary e.2) ∧
      (snapshot.map Prod.fst).Nodup ∧
      ∀ users, Service.fetchUsersCallback (some u) (some (snapshot.map Prod.snd)) = some users →
        ∀ user ∈ users, user.uid ≠ u := by
  have h := consistent_run hrun hplain
  have hdocuments : ∀ e ∈ snapshot, s.users.lookup e.1 = some e.2 := by
    intro e he
    have hmem := List.mem_filter.mp (hsnapshot.mem_iff.mp he)
    exact (WriteLog.mem_pairs_iff s.users e.1 e.2).mp hmem.1
  have hpaths : (snapshot.map Prod.fst).Nodup := by
    rw [(hsnapshot.map Prod.fst).nodup_iff]
    exact (WriteLog.pairs_keys_nodup s.users).sublist (List.filter_sublist.map Prod.fst)
  refine ⟨fetchUsersCallback_snapshot h hdocuments hpaths hu, hpaths, ?_⟩
  intro users husers
  exact fetchUsersCallback_other h hdocuments hpaths hu husers

/-- Ann's call succeeds, then Bob's. -/
def annAndBob : List Action :=
  [.createUser annCredentials "f", .putData 0 none, .downloadURL 0 (some "url"),
   .createAccount 0 (some "u1") (some "u1") none, .setData 0 none,
   .createUser { annCredentials with email := "bob@mail", username := "bob" } "g",
   .putData 1 none, .downloadURL 1 (some "url"), .createAccount 1 (some "u2") (some "u2") none,
   .setData 1 none]

def bothRegistered : State := (run system annAndBob).get (by decide)

theorem user_list_ann :
    ∃ users, Service.fetchUsersCallback (some "u1")
        (some ((bothRegistered.users.inCollection collectionUsers).map Prod.snd)) = some users ∧
      ∀ user ∈ users, user.uid ≠ "u1" := by
  obtain ⟨hlist, -, hother⟩ := user_list (s := bothRegistered) (Option.some_get _).symm
    (by decide : ∀ x ∈ annAndBob, x.PlainUID) (u := "u1") (by decide) (List.Perm.refl _)
  exact ⟨_, hlist, hother _ hlist⟩

end ChipChat.Registration
