import ChipChat.RegistrationRuns

/-!
# What a call of `createUser` has left behind at each point

The image, the account and the users document of a call are determined by how far
the call has come, whatever the other calls do.
-/

namespace ChipChat.Registration

open LabelledSystem

set_option autoImplicit false

/-- The image of the call has been uploaded. -/
def uploaded : Progress → Bool
  | .waiting (.puttingData _) => false
  | .ended .notEncoded => false
  | .ended (.uploadFailed _) => false
  | _ => true

/-- The account of the call has been created and reported. -/
def registered : Progress → Bool
  | .waiting (.writingUser _ _) => true
  | .ended (.userWritten _) => true
  | _ => false

/-- Auth has answered, so that the call may have an account. -/
def attempted : Progress → Bool
  | .waiting (.writingUser _ _) => true
  | .ended (.accountRefused _) => true
  | .ended .noResult => true
  | .ended (.userWritten _) => true
  | _ => false

def reportsAt : Progress → List (Option BackendError)
  | .waiting _ => []
  | .ended exit => exit.report.toList

structure CallInv (s : State) (i : Nat) (c : Call) : Prop where
  reports : c.reports = reportsAt c.progress
  image : AuthService.profileImagePath c.filename ∈ s.images.map Prod.fst ↔ uploaded c.progress
  account : registered c.progress → ∃ a ∈ s.accounts, a.creator = i
  attempt : (∃ a ∈ s.accounts, a.creator = i) → attempted c.progress
  email : ∀ a ∈ s.accounts, a.creator = i → a.email = c.credentials.email
  writing : ∀ uid data, c.progress = .waiting (.writingUser uid data) →
    ⟨i, c.credentials.email, uid⟩ ∈ s.accounts ∧
      ∃ url, data = AuthService.userData c.credentials url uid
  written : ∀ a ∈ s.accounts, a.creator = i → c.progress = .ended (.userWritten none) →
    ∃ url, s.users.lookup (AuthService.userReference a.uid).path =
      some (AuthService.userData c.credentials url a.uid)
  unwritten : ∀ a ∈ s.accounts, a.creator = i → c.progress ≠ .ended (.userWritten none) →
    s.users.lookup (AuthService.userReference a.uid).path = none

/-- A call is unaffected by steps that touch neither its image nor its account. -/
theorem CallInv.frame {s t : State} {i : Nat} {c : Call} (h : CallInv s i c)
    (images : AuthService.profileImagePath c.filename ∈ t.images.map Prod.fst ↔
      AuthService.profileImagePath c.filename ∈ s.images.map Prod.fst)
    (accounts : ∀ a : Account, a.creator = i → (a ∈ t.accounts ↔ a ∈ s.accounts))
    (users : ∀ a ∈ s.accounts, a.creator = i →
      t.users.lookup (AuthService.userReference a.uid).path =
        s.users.lookup (AuthService.userReference a.uid).path) : CallInv t i c := by
  constructor
  · exact h.reports
  · exact images.trans h.image
  · intro hreg
    obtain ⟨a, ha, hi⟩ := h.account hreg
    exact ⟨a, (accounts a hi).mpr ha, hi⟩
  · rintro ⟨a, ha, hi⟩
    exact h.attempt ⟨a, (accounts a hi).mp ha, hi⟩
  · intro a ha hi
    exact h.email a ((accounts a hi).mp ha) hi
  · intro uid data hp
    exact ⟨(accounts _ rfl).mpr (h.writing uid data hp).1, (h.writing uid data hp).2⟩
  · intro a ha hi hp
    have ha := (accounts a hi).mp ha
    rw [users a ha hi]
    exact h.written a ha hi hp
  · intro a ha hi hp
    have ha := (accounts a hi).mp ha
    rw [users a ha hi]
    exact h.unwritten a ha hi hp

theorem CallInv.no_account {s : State} {i : Nat} {c : Call} (h : CallInv s i c)
    (hatt : attempted c.progress = false) : ∀ a ∈ s.accounts, a.creator ≠ i := by
  intro a ha hi
  have hattempted := h.attempt ⟨a, ha, hi⟩
  rw [hatt] at hattempted
  cases hattempted

/-- Without an account only the reports and the image are to be checked. -/
theorem CallInv.of_unregistered {s : State} {i : Nat} {c : Call}
    (reports : c.reports = reportsAt c.progress)
    (image : AuthService.profileImagePath c.filename ∈ s.images.map Prod.fst ↔ uploaded c.progress)
    (none : ∀ a ∈ s.accounts, a.creator ≠ i) (hreg : registered c.progress = false) :
    CallInv s i c := by
  constructor
  · exact reports
  · exact image
  · intro h
    rw [hreg] at h
    cases h
  · rintro ⟨a, ha, hi⟩
    exact absurd hi (none a ha)
  · exact fun a ha hi => absurd hi (none a ha)
  · intro uid data hw
    rw [hw] at hreg
    cases hreg
  · exact fun a ha hi => absurd hi (none a ha)
  · exact fun a ha hi => absurd hi (none a ha)

structure Consistent (s : State) : Prop where
  calls : ∀ i c, s.calls[i]? = some c → CallInv s i c
  filenames : (s.calls.map Call.filename).Nodup
  uids : (s.accounts.map Account.uid).Nodup
  single : (s.accounts.map Account.creator).Nodup
  creators : ∀ a ∈ s.accounts, a.creator < s.calls.length
  plain : ∀ a ∈ s.accounts, a.uid ≠ "" ∧ '/' ∉ a.uid.toList
  images : ∀ p ∈ s.images.map Prod.fst, ∃ c ∈ s.calls, p = AuthService.profileImagePath c.filename
  users : ∀ path, (s.users.lookup path).isSome →
    ∃ a ∈ s.accounts, path = (AuthService.userReference a.uid).path

/-- The uids Auth gives contain no slash. -/
def Action.PlainUID : Action → Prop
  | .createAccount _ created _ _ => ∀ uid ∈ created, '/' ∉ uid.toList
  | _ => True

instance : ∀ a : Action, Decidable a.PlainUID
  | .createAccount _ created _ _ => inferInstanceAs (Decidable (∀ uid ∈ created, '/' ∉ uid.toList))
  | .createUser .. | .putData .. | .downloadURL .. | .setData .. => isTrue trivial

theorem profileImagePath_injective {f g : String}
    (h : AuthService.profileImagePath f = AuthService.profileImagePath g) : f = g := by
  have hl := congrArg String.toList h
  simp only [AuthService.profileImagePath, String.toList_append] at hl
  exact String.toList_injective (List.append_cancel_left hl)

theorem path_userReference {uid : String} (h : uid ≠ "" ∧ '/' ∉ uid.toList) :
    (AuthService.userReference uid).path = [.name "users", .name uid] := by
  have hu : pathSegments "users" = ["users"] := by decide
  simp [AuthService.userReference, collectionUsers, hu, pathSegments_eq_self h.1 h.2]

theorem uid_eq_of_path_eq {u v : String} (hu : u ≠ "" ∧ '/' ∉ u.toList)
    (hv : v ≠ "" ∧ '/' ∉ v.toList)
    (h : (AuthService.userReference u).path = (AuthService.userReference v).path) : u = v := by
  rw [path_userReference hu, path_userReference hv] at h
  simpa using h

theorem filename_injective {s : State} (h : Consistent s) {i j : Nat} {c d : Call}
    (hc : s.calls[i]? = some c) (hd : s.calls[j]? = some d) (hne : i ≠ j) :
    AuthService.profileImagePath c.filename ≠ AuthService.profileImagePath d.filename := by
  intro heq
  have hf := profileImagePath_injective heq
  have hi : (s.calls.map Call.filename)[i]? = some c.filename := by simp [hc]
  have hj : (s.calls.map Call.filename)[j]? = some c.filename := by simp [hd, hf]
  have hlt : i < (s.calls.map Call.filename).length := (List.getElem?_eq_some_iff.mp hi).1
  exact hne ((List.getElem?_inj hlt h.filenames).mp (hi.trans hj.symm))

theorem consistent_init : Consistent initial := by
  constructor <;> simp [initial]

/-- A step of call `i` keeps consistency if it keeps it for that call and frames the others. -/
theorem Consistent.follow {s t : State} {i : Nat} {c : Call} {p : Progress} (h : Consistent s)
    (hc : s.calls[i]? = some c) (calls : t.calls = s.calls.set i (c.follow p))
    (own : CallInv t i (c.follow p))
    (others : ∀ j d, j ≠ i → s.calls[j]? = some d → CallInv t j d)
    (uids : (t.accounts.map Account.uid).Nodup)
    (single : (t.accounts.map Account.creator).Nodup)
    (creators : ∀ a ∈ t.accounts, a.creator < s.calls.length)
    (plain : ∀ a ∈ t.accounts, a.uid ≠ "" ∧ '/' ∉ a.uid.toList)
    (images : ∀ q ∈ t.images.map Prod.fst,
      ∃ d ∈ s.calls, q = AuthService.profileImagePath d.filename)
    (users : ∀ path, (t.users.lookup path).isSome →
      ∃ a ∈ t.accounts, path = (AuthService.userReference a.uid).path) : Consistent t := by
  have hi : i < s.calls.length := (List.getElem?_eq_some_iff.mp hc).1
  have hnames : t.calls.map Call.filename = s.calls.map Call.filename := by
    apply List.ext_getElem?
    intro j
    rw [List.getElem?_map, List.getElem?_map, calls, List.getElem?_set]
    split
    · rename_i hij
      rw [← hij, hc]
      rfl
    · rfl
  constructor
  · intro j d hd
    rw [calls, List.getElem?_set] at hd
    split at hd
    · rename_i hij
      subst hij
      obtain rfl := Option.some.inj hd
      exact own
    · rename_i hij
      exact others j d (Ne.symm hij) hd
  · rw [hnames]
    exact h.filenames
  · exact uids
  · exact single
  · rw [calls, List.length_set]
    exact creators
  · exact plain
  · intro q hq
    obtain ⟨d, hd, rfl⟩ := images q hq
    have hm : d.filename ∈ t.calls.map Call.filename := by
      rw [hnames]
      exact List.mem_map.mpr ⟨d, hd, rfl⟩
    obtain ⟨d', hd', heq⟩ := List.mem_map.mp hm
    exact ⟨d', hd', by rw [heq]⟩
  · exact users

theorem createUser_start (credentials : RegistrationCredentials) :
    uploaded (AuthService.createUser credentials) = false ∧
      registered (AuthService.createUser credentials) = false := by
  unfold AuthService.createUser
  split <;> simp [uploaded, registered]

theorem consistent_start {s : State} (h : Consistent s) (credentials : RegistrationCredentials)
    {filename : String} (hf : filename ∉ s.calls.map Call.filename) :
    Consistent (s.start credentials filename) := by
  have hpath : AuthService.profileImagePath filename ∉ s.images.map Prod.fst := by
    intro hm
    obtain ⟨c, hc, heq⟩ := h.images _ hm
    exact hf (List.mem_map.mpr ⟨c, hc, (profileImagePath_injective heq).symm⟩)
  obtain ⟨hup, hreg⟩ := createUser_start credentials
  constructor
  · intro i c hc
    simp only [State.start, List.getElem?_append] at hc
    split at hc
    · exact (h.calls i c hc).frame Iff.rfl (fun _ _ => Iff.rfl) fun _ _ _ => rfl
    · rename_i hi
      rw [List.getElem?_singleton] at hc
      split at hc
      · obtain rfl := Option.some.inj hc
        apply CallInv.of_unregistered
        · cases AuthService.createUser credentials <;> simp [Call.follow, reportsAt]
        · simpa [Call.follow, hup, State.start] using hpath
        · intro a ha heq
          exact hi (heq ▸ h.creators a ha)
        · exact hreg
      · cases hc
  · simp only [State.start, List.map_append, List.map_cons, List.map_nil, Call.follow]
    exact List.nodup_append.mpr ⟨h.filenames, by simp, by
      intro x hx y hy hxy
      rw [List.mem_singleton.mp hy] at hxy
      exact hf (hxy ▸ hx)⟩
  · exact h.uids
  · exact h.single
  · intro a ha
    simp only [State.start, List.length_append, List.length_singleton]
    exact Nat.lt_succ_of_lt (h.creators a ha)
  · exact h.plain
  · intro q hq
    obtain ⟨c, hc, heq⟩ := h.images q hq
    exact ⟨c, List.mem_append_left _ hc, heq⟩
  · exact h.users

section Steps
variable {s : State} {i : Nat} {c : Call}

theorem reports_follow (h : CallInv s i c) {stage : Stage} (hp : c.progress = .waiting stage)
    (p : Progress) : (c.follow p).reports = reportsAt p := by
  have hr := h.reports
  rw [hp] at hr
  cases p <;> simp [Call.follow, hr, reportsAt]

theorem consistent_putData (h : Consistent s) (hc : s.calls[i]? = some c)
    {imageData : List UInt8} (hp : c.progress = .waiting (.puttingData imageData))
    (error : Option BackendError) : Consistent (s.putData i c imageData error) := by
  have own := h.calls i c hc
  have hnot : AuthService.profileImagePath c.filename ∉ s.images.map Prod.fst := by
    rw [own.image, hp]
    simp [uploaded]
  have himages : ∀ q, q ∈ (s.putData i c imageData error).images.map Prod.fst ↔
      q ∈ s.images.map Prod.fst ∨ (error = none ∧ q = AuthService.profileImagePath c.filename) := by
    intro q
    by_cases he : error = none <;> simp [State.putData, he]
  apply h.follow hc rfl
  · apply CallInv.of_unregistered
    · exact reports_follow own hp _
    · rw [himages]
      cases error with
      | none => simp [Call.follow, AuthService.putDataCallback, uploaded]
      | some e => simpa [Call.follow, AuthService.putDataCallback, uploaded] using hnot
    · exact own.no_account (by rw [hp]; rfl)
    · cases error <;> rfl
  · intro j d hji hd
    refine (h.calls j d hd).frame ?_ (fun _ _ => Iff.rfl) fun _ _ _ => rfl
    rw [himages]
    constructor
    · rintro (hm | ⟨_, heq⟩)
      · exact hm
      · exact absurd heq (filename_injective h hd hc hji)
    · exact Or.inl
  · exact h.uids
  · exact h.single
  · exact h.creators
  · exact h.plain
  · intro q hq
    rcases (himages q).mp hq with hm | ⟨_, rfl⟩
    · exact h.images q hm
    · exact ⟨c, List.mem_of_getElem? hc, rfl⟩
  · exact h.users

/-- Nothing is stored or created while a call waits after its upload. -/
theorem consistent_follow (h : Consistent s) (hc : s.calls[i]? = some c) {stage : Stage}
    (hp : c.progress = .waiting stage) (hup : uploaded c.progress = true)
    (hatt : attempted c.progress = false) {p : Progress} (hup' : uploaded p = true)
    (hreg : registered p = false) : Consistent (s.follow i c p) := by
  have own := h.calls i c hc
  apply h.follow hc rfl
  · apply CallInv.of_unregistered
    · exact reports_follow own hp p
    · exact iff_of_true (own.image.mpr hup) hup'
    · exact own.no_account hatt
    · exact hreg
  · intro j d _ hd
    exact (h.calls j d hd).frame Iff.rfl (fun _ _ => Iff.rfl) fun _ _ _ => rfl
  · exact h.uids
  · exact h.single
  · exact h.creators
  · exact h.plain
  · exact h.images
  · exact h.users

theorem consistent_downloadURL (h : Consistent s) (hc : s.calls[i]? = some c)
    (hp : c.progress = .waiting .fetchingURL) (url : Option String) :
    Consistent (s.downloadURL i c url) := by
  apply consistent_follow h hc hp
  · rw [hp]
    rfl
  · rw [hp]
    rfl
  · cases url <;> rfl
  · cases url <;> rfl

/-- Whatever Auth answers, the image stays and the call may now have an account. -/
theorem createAccountCallback_progress (credentials : RegistrationCredentials)
    (profileImageURL : String) (result : Option String) (error : Option BackendError) :
    uploaded (AuthService.createAccountCallback credentials profileImageURL result error) ∧
      attempted (AuthService.createAccountCallback credentials profileImageURL result error) := by
  cases error <;> cases result <;> exact ⟨rfl, rfl⟩

section Created
variable {profileImageURL uid : String} {result : Option String} {error : Option BackendError}

theorem accounts_created :
    (s.createAccount i c profileImageURL (some uid) result error).accounts =
      s.accounts ++ [⟨i, c.credentials.email, uid⟩] := rfl

/-- A new uid names no users document yet. -/
theorem unwritten_of_fresh (h : Consistent s) (huid : uid ≠ "" ∧ '/' ∉ uid.toList)
    (hfresh : uid ∉ s.accounts.map Account.uid) :
    s.users.lookup (AuthService.userReference uid).path = none := by
  by_contra hsome
  obtain ⟨a, ha, heq⟩ := h.users _ (Option.isSome_iff_ne_none.mpr hsome)
  have hsame := uid_eq_of_path_eq huid (h.plain a ha) heq
  exact hfresh (List.mem_map.mpr ⟨a, ha, hsame.symm⟩)

theorem callInv_created (own : CallInv s i c)
    (hp : c.progress = .waiting (.creatingAccount profileImageURL))
    (hreported : ∀ uid' ∈ result, uid = uid')
    (hunwritten : s.users.lookup (AuthService.userReference uid).path = none) :
    CallInv (s.createAccount i c profileImageURL (some uid) result error) i
      (c.follow
        (AuthService.createAccountCallback c.credentials profileImageURL result error)) := by
  have hno := own.no_account (by rw [hp]; rfl)
  obtain ⟨hup, hatt⟩ :=
    createAccountCallback_progress c.credentials profileImageURL result error
  have new : ∀ a ∈ s.accounts ++ [(⟨i, c.credentials.email, uid⟩ : Account)], a.creator = i →
      a = ⟨i, c.credentials.email, uid⟩ := by
    intro a ha hai
    rcases List.mem_append.mp ha with ha | ha
    · exact absurd hai (hno a ha)
    · exact List.mem_singleton.mp ha
  have last : (⟨i, c.credentials.email, uid⟩ : Account) ∈
      s.accounts ++ [⟨i, c.credentials.email, uid⟩] :=
    List.mem_append_right _ (List.mem_singleton.mpr rfl)
  constructor
  · exact reports_follow own hp _
  · exact iff_of_true (own.image.mpr (by rw [hp]; rfl)) hup
  · exact fun _ => ⟨_, last, rfl⟩
  · exact fun _ => hatt
  · rw [accounts_created]
    intro a ha hai
    rw [new a ha hai]
    rfl
  · intro uid' data hw
    cases error with
    | some e => simp [Call.follow, AuthService.createAccountCallback] at hw
    | none =>
      cases result with
      | none => simp [Call.follow, AuthService.createAccountCallback] at hw
      | some uid'' =>
        simp only [Call.follow, AuthService.createAccountCallback, Progress.waiting.injEq,
          Stage.writingUser.injEq] at hw
        obtain ⟨rfl, rfl⟩ := hw
        obtain rfl := hreported uid'' rfl
        exact ⟨last, profileImageURL, rfl⟩
  · intro a ha hai hw
    cases error <;> cases result <;> simp [Call.follow, AuthService.createAccountCallback] at hw
  · rw [accounts_created]
    intro a ha hai _
    rw [new a ha hai]
    exact hunwritten

theorem consistent_created (h : Consistent s) (hc : s.calls[i]? = some c)
    (hp : c.progress = .waiting (.creatingAccount profileImageURL))
    (hreported : ∀ uid' ∈ result, uid = uid') (huid : uid ≠ "" ∧ '/' ∉ uid.toList)
    (hfresh : uid ∉ s.accounts.map Account.uid) :
    Consistent (s.createAccount i c profileImageURL (some uid) result error) := by
  have own := h.calls i c hc
  have hno := own.no_account (by rw [hp]; rfl)
  apply h.follow hc rfl
  · exact callInv_created own hp hreported (unwritten_of_fresh h huid hfresh)
  · intro j d hji hd
    refine (h.calls j d hd).frame Iff.rfl ?_ fun _ _ _ => rfl
    rw [accounts_created]
    intro a hj
    constructor
    · intro ha
      rcases List.mem_append.mp ha with ha | ha
      · exact ha
      · rw [List.mem_singleton.mp ha] at hj
        exact absurd hj.symm hji
    · exact List.mem_append_left _
  · rw [accounts_created, List.map_append]
    exact List.nodup_append.mpr ⟨h.uids, by simp, by
      intro x hx y hy hxy
      have hxu : x = uid := hxy.trans (List.mem_singleton.mp hy)
      exact hfresh (hxu ▸ hx)⟩
  · rw [accounts_created, List.map_append]
    refine List.nodup_append.mpr ⟨h.single, by simp, ?_⟩
    intro x hx y hy hxy
    obtain ⟨a, ha, rfl⟩ := List.mem_map.mp hx
    rw [List.mem_singleton.mp hy] at hxy
    exact hno a ha hxy
  · rw [accounts_created]
    intro a ha
    rcases List.mem_append.mp ha with ha | ha
    · exact h.creators a ha
    · rw [List.mem_singleton.mp ha]
      exact (List.getElem?_eq_some_iff.mp hc).1
  · rw [accounts_created]
    intro a ha
    rcases List.mem_append.mp ha with ha | ha
    · exact h.plain a ha
    · rw [List.mem_singleton.mp ha]
      exact huid
  · exact h.images
  · rw [accounts_created]
    intro path hpath
    obtain ⟨a, ha, heq⟩ := h.users path hpath
    exact ⟨a, List.mem_append_left _ ha, heq⟩

end Created

theorem consistent_createAccount (h : Consistent s) (hc : s.calls[i]? = some c)
    {profileImageURL : String} (hp : c.progress = .waiting (.creatingAccount profileImageURL))
    {created result : Option String} {error : Option BackendError}
    (hauth : AuthAnswer s.accounts c.credentials.email created result error)
    (hplain : ∀ uid ∈ created, '/' ∉ uid.toList) :
    Consistent (s.createAccount i c profileImageURL created result error) := by
  cases created with
  -- without an account the call ends at one guard or the other, and nothing else changes
  | none =>
    have hresult : result = none := by
      by_contra hne
      obtain ⟨uid, huid⟩ := Option.ne_none_iff_exists'.mp hne
      exact absurd (hauth.reported uid huid) (by simp)
    subst hresult
    have hsame : s.createAccount i c profileImageURL none none error = s.follow i c
        (AuthService.createAccountCallback c.credentials profileImageURL none error) := by
      simp [State.createAccount, State.follow]
    rw [hsame]
    apply consistent_follow h hc hp
    · rw [hp]
      rfl
    · rw [hp]
      rfl
    · exact (createAccountCallback_progress c.credentials profileImageURL none error).1
    · cases error <;> rfl
  | some uid =>
    obtain ⟨hne, hfresh, -⟩ := hauth.fresh uid rfl
    have hreported : ∀ uid' ∈ result, uid = uid' := fun uid' huid' =>
      Option.some.inj (hauth.reported uid' huid')
    exact consistent_created h hc hp hreported ⟨hne, hplain uid rfl⟩ hfresh

theorem consistent_setData (h : Consistent s) (hc : s.calls[i]? = some c) {uid : String}
    {data : Dictionary} (hp : c.progress = .waiting (.writingUser uid data))
    (error : Option BackendError) : Consistent (s.setData i c uid data error) := by
  have own := h.calls i c hc
  obtain ⟨hmem, url, hdata⟩ := own.writing uid data hp
  have huploaded : AuthService.profileImagePath c.filename ∈ s.images.map Prod.fst := by
    rw [own.image, hp]
    simp [uploaded]
  have only : ∀ a ∈ s.accounts, a.creator = i → a = ⟨i, c.credentials.email, uid⟩ :=
    fun a ha hai => List.inj_on_of_nodup_map h.single ha hmem hai
  have hother : ∀ a ∈ s.accounts, a.creator ≠ i →
      (AuthService.userReference a.uid).path ≠ (AuthService.userReference uid).path := by
    intro a ha hai heq
    have huid := uid_eq_of_path_eq (h.plain a ha) (h.plain _ hmem) heq
    have hsame := List.inj_on_of_nodup_map h.uids ha hmem huid
    exact hai (congrArg Account.creator hsame)
  have hlookup : ∀ a ∈ s.accounts, a.creator ≠ i →
      (s.setData i c uid data error).users.lookup (AuthService.userReference a.uid).path =
        s.users.lookup (AuthService.userReference a.uid).path := by
    intro a ha hai
    simp only [State.setData]
    split
    · exact AList.lookup_insert_ne (hother a ha hai)
    · rfl
  apply h.follow hc rfl
  · constructor
    · exact reports_follow own hp _
    · exact iff_of_true huploaded rfl
    · exact fun _ => ⟨_, hmem, rfl⟩
    · exact fun _ => rfl
    · exact own.email
    · intro uid' data' hw
      simp [Call.follow, AuthService.setDataCallback] at hw
    · intro a ha hai hw
      simp only [Call.follow, AuthService.setDataCallback, Progress.ended.injEq,
        Exit.userWritten.injEq] at hw
      subst hw
      rw [only a ha hai]
      exact ⟨url, by simp [State.setData, Call.follow, hdata]⟩
    · intro a ha hai hw
      have herror : error ≠ none := by
        rintro rfl
        exact hw rfl
      simp only [State.setData, if_neg herror]
      exact own.unwritten a ha hai (by simp [hp])
  · intro j d hji hd
    refine (h.calls j d hd).frame Iff.rfl (fun _ _ => Iff.rfl) ?_
    exact fun a ha haj => hlookup a ha (haj ▸ hji)
  · exact h.uids
  · exact h.single
  · exact h.creators
  · exact h.plain
  · exact h.images
  · intro path hpath
    simp only [State.setData] at hpath
    split at hpath
    · by_cases heq : path = (AuthService.userReference uid).path
      · exact ⟨_, hmem, heq⟩
      · rw [AList.lookup_insert_ne heq] at hpath
        exact h.users path hpath
    · exact h.users path hpath

end Steps

theorem consistent_step {s t : State} {a : Action} (h : Consistent s) (ha : a.PlainUID)
    (ht : step s a = some t) : Consistent t := by
  cases step_change ht with
  | started credentials filename hf => exact consistent_start h credentials hf
  | put i c imageData error hc hp => exact consistent_putData h hc hp error
  | downloaded i c url hc hp => exact consistent_downloadURL h hc hp url
  | answered i c profileImageURL created result error hc hp hauth =>
    exact consistent_createAccount h hc hp hauth ha
  | wrote i c uid data error hc hp => exact consistent_setData h hc hp error

theorem consistent_run {s : State} {as : List Action} (h : run system as = some s)
    (has : ∀ a ∈ as, a.PlainUID) : Consistent s :=
  invariant_of_stepsMeet (fun s a t hs ha (ht : step s a = some t) => consistent_step hs ha ht)
    consistent_init (stepsMeet_of_forall has system.init) h

end ChipChat.Registration
