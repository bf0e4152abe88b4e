/-
  The resources of a user, as `userResource` GET answers them.

  The handler runs two generated queries: `UserResourceGet` takes the distinct resource ids that the
  user's roles are granted, and `ResourceGet` the rows of the application under those ids. `Owns` is
  the relation they are meant to compute: a user row of the application, a membership of it, a grant
  of the application to that role, and the resource row itself. For every database the rows are
  exactly those, each once (`userResources_spec`).

  The body is another matter. Without a granted id the handler sends a slice it makes, which
  is written as `[]`; otherwise it sends the one `query` appends to, which is nil until the first
  row. `listsOwned_iff`: the body is the list of the rows exactly when the user owns some resource
  or is granted no id at all. A user whose grants all name resources that are not there (or of
  another application) is answered `null`.
-/
import Doodle.Rbac.Access
import Doodle.Rbac.Answers

namespace Doodle.Rbac

open Doodle.Lib Doodle.Go Doodle.Util

/-- The text has neither a quote nor a backslash. -/
def PlainText (s : String) : Prop := ∀ c ∈ s.toList, c ≠ quote ∧ c ≠ backslash

theorem escape_of_plain {cs : List Char} (h : ∀ c ∈ cs, c ≠ quote ∧ c ≠ backslash) :
    escape cs = cs := by
  induction cs with
  | nil => rfl
  | cons c cs ih =>
    rw [List.forall_mem_cons] at h
    unfold escape at ih ⊢
    rw [List.flatMap_cons, if_neg (not_or.mpr h.1), ih h.2]
    rfl

/-- A plain text between two quotes stands for itself. -/
theorem readLiteral_of_plain {s : String} (h : PlainText s) : readLiteral s = some s := by
  have hread := readChars_escape s.toList
  rw [escape_of_plain h] at hread
  simp [readLiteral, hread]

/-! ## The relation -/

section Collated

variable [Collating]

/-- A user row of the application with the email, as the database compares it, a membership of it in
    some role, and a grant of the application of the id to that role. -/
def Db.Granted (db : Db) (appID : Int) (email : String) (resID : Int) : Prop :=
  ∃ u ∈ db.user.rows, weight u.email = weight email ∧ u.appID = appID ∧
    ∃ ru ∈ db.roleUser.rows, ru.userID = u.id ∧
      ∃ rr ∈ db.roleResource.rows, rr.appID = appID ∧ rr.roleID = ru.roleID ∧ rr.resourceID = resID

/-- A resource row of the application that is granted to the user. -/
def Db.Owns (db : Db) (appID : Int) (email : String) (s : Resource) : Prop :=
  s ∈ db.resource.rows ∧ s.appID = appID ∧ db.Granted appID email s.id

theorem Db.granted_iff_reaches (db : Db) (appID : Int) (email : String) (resID : Int) :
    db.Granted appID email resID ↔ db.Reaches appID (weight email) resID := by
  constructor
  · rintro ⟨u, hu, hemail, rfl, ru, hru, huser, rr, hrr, happ, hrole, rfl⟩
    exact ⟨u.id, ru.roleID, ru.appID, ⟨u, hu, rfl, by simp [hemail]⟩,
      ⟨ru.id, ru, hru, rfl, by simp [huser]⟩,
      rr.id, rr, hrr, rfl, by simp [happ, hrole]⟩
  · rintro ⟨uid, roleID, app, ⟨u, hu, rfl, hukey⟩, ⟨m, ru, hru, -, hrukey⟩, n, rr, hrr, -, hrrkey⟩
    simp only [Prod.mk.injEq] at hukey hrukey hrrkey
    obtain ⟨-, rfl, huser⟩ := hrukey
    exact ⟨u, hu, hukey.2, hukey.1, ru, hru, huser, rr, hrr, hrrkey⟩

/-! ## The rows -/

section Rows

variable {my : Mysql} (hup : ∀ s, my.down (.select s) = none) (appID : Int) (db : Db)

include hup

/-- `ResourceGet` returns the rows of the application under the ids, each once. -/
theorem resourceGet_spec {ids : List Int} (hne : ids ≠ []) :
    ∃ rows, resourceGet my appID ids db = .ok rows ∧ rows.Nodup ∧
      ∀ r, r ∈ rows ↔
        ∃ s, r = .resource s ∧ s ∈ db.resource.rows ∧ s.appID = appID ∧ s.id ∈ ids := by
  have hparse : Select.parse ⟨.resourcesIn appID ids, "", "", 0, 0⟩ =
      .ok (.resourcesIn appID ids) := by
    cases ids with
    | nil => exact absurd rfl hne
    | cons id ids => rfl
  have hselect := select_of_parse (hup _) hparse db
  have hnodup : db.resource.rows.Nodup := List.Nodup.of_map _ db.resource.nodup_id
  refine ⟨_, by simp only [resourceGet, query, hselect]; rfl, ?_, fun r => ?_⟩
  · refine (my.arrange_perm _ _).nodup_iff.mpr ?_
    exact (hnodup.filter _).map fun s s' h => Row.resource.inj h
  · refine ((my.arrange_perm _ _).mem_iff).trans ?_
    simp only [List.mem_map, List.mem_filter, Bool.and_eq_true, decide_eq_true_eq,
      List.contains_iff_mem]
    constructor
    · rintro ⟨s, ⟨hs, happ, hid⟩, rfl⟩
      exact ⟨s, rfl, hs, happ, hid⟩
    · rintro ⟨s, rfl, hs, happ, hid⟩
      exact ⟨s, ⟨hs, happ, hid⟩, rfl⟩

/-- The ids of `UserResourceGet` are those that are granted. -/
theorem userResourceGet_spec {email : String} (hplain : PlainText email) :
    ∃ ids, userResourceGet my appID email db = .ok ids ∧
      ∀ resID, resID ∈ ids ↔ db.Granted appID email resID := by
  obtain ⟨ids, hget, hids⟩ :=
    mem_userResourceGet my appID email email db (hup _) (readLiteral_of_plain hplain)
  exact ⟨ids, hget, fun resID => (hids resID).trans (db.granted_iff_reaches _ _ _).symm⟩

/-- The two queries compose membership and grant, whatever the tables hold. -/
theorem userResources_spec {email : String} (hplain : PlainText email) :
    ∃ rows, Client.userResources my appID email db = .ok rows ∧ rows.Nodup ∧
      ∀ r, r ∈ rows ↔ ∃ s, r = .resource s ∧ db.Owns appID email s := by
  obtain ⟨ids, hget, hids⟩ := userResourceGet_spec hup appID db hplain
  unfold Client.userResources
  rw [hget]
  by_cases hne : ids = []
  · refine ⟨[], if_pos hne, List.nodup_nil, fun r => iff_of_false List.not_mem_nil ?_⟩
    rintro ⟨s, -, -, -, hgranted⟩
    have hmem := (hids s.id).mpr hgranted
    rw [hne] at hmem
    cases hmem
  · obtain ⟨rows, hrows, hnodup, hmem⟩ := resourceGet_spec hup appID db hne
    refine ⟨rows, (if_neg hne).trans hrows, hnodup, fun r => (hmem r).trans ?_⟩
    simp only [Db.Owns, hids]

end Rows

/-! ## The body -/

section Body

variable (C : Crypto) (my : Mysql) (q : Request)

/-- Whether the slice that is sent was left nil until its first row: the handler makes one when no
    id is granted, and otherwise sends the one `ResourceGet` declares. -/
def userResourceNil (db : Db) : Bool :=
  match parseToken C q.token with
  | .ok appID =>
    match userResourceGet my appID (q.urlGet "email") db with
    | .ok ids => !ids.isEmpty
    | .error _ => false
  | _ => false

/-- What `userResource` GET writes. -/
def userResourceBody (errText : Fault → String) (db : Db) : Res String Json :=
  Client.body (userResourceNil C my q db) errText (userResourceGET C my q db).1

/-- The body is a list of exactly the rows the user owns, each once. -/
def ListsOwned (errText : Fault → String) (appID : Int) (db : Db) : Prop :=
  ∃ rows : List Row, userResourceBody C my q errText db = .ok (.arr (rows.map Client.rowJson)) ∧
    rows.Nodup ∧ ∀ r, r ∈ rows ↔ ∃ s, r = .resource s ∧ db.Owns appID (q.urlGet "email") s

variable {C my q}

/-- The handler sends the rows of the two queries. -/
theorem userResourceGET_of_rows {appID : Int} {db : Db} {rows : List Row}
    (htoken : parseToken C q.token = .ok appID)
    (hrows : Client.userResources my appID (q.urlGet "email") db = .ok rows) :
    (userResourceGET C my q db).1 = .raw rows := by
  unfold Client.userResources at hrows
  simp only [userResourceGET, withToken, htoken, reading]
  cases hget : userResourceGet my appID (q.urlGet "email") db with
  | error f =>
    rw [hget] at hrows
    cases hrows
  | ok ids =>
    rw [hget] at hrows
    simp only [answer]
    by_cases hne : ids = []
    · simp only [if_pos hne, Except.ok.injEq] at hrows ⊢
      rw [hrows]
    · simp only [if_neg hne] at hrows ⊢
      rw [hrows]

/-- For every database, every token of the application and every email without a quote or a
    backslash: the body lists exactly the resources of the user unless the user is granted ids, none
    of which is a resource of the application. -/
theorem listsOwned_iff (hup : ∀ s, my.down (.select s) = none) {appID : Int}
    (htoken : parseToken C q.token = .ok appID) (hplain : PlainText (q.urlGet "email"))
    (errText : Fault → String) (db : Db) :
    ListsOwned C my q errText appID db ↔
      ((∃ resID, db.Granted appID (q.urlGet "email") resID) →
        ∃ s, db.Owns appID (q.urlGet "email") s) := by
  obtain ⟨ids, hget, hids⟩ := userResourceGet_spec hup appID db hplain
  obtain ⟨rows, hrows, hnodup, hmem⟩ := userResources_spec hup appID db hplain
  have hbody : userResourceBody C my q errText db =
      .ok (Json.sliceJson (!ids.isEmpty) Client.rowJson rows) := by
    simp only [userResourceBody, userResourceNil, userResourceGET_of_rows htoken hrows, htoken,
      hget, Client.body]
  constructor
  · rintro ⟨rows', hbody', -, hmem'⟩ ⟨resID, hgranted⟩
    cases rows' with
    | nil =>
      -- the slice is nil and no row is appended, so `null` is written
      have hnone : rows = [] := by
        refine List.eq_nil_iff_forall_not_mem.mpr fun r hr => ?_
        exact List.not_mem_nil ((hmem' r).mpr ((hmem r).mp hr))
      have hsome : ids.isEmpty = false := by
        rw [List.isEmpty_eq_false_iff]
        exact List.ne_nil_of_mem ((hids resID).mpr hgranted)
      rw [hbody, hnone, hsome] at hbody'
      cases hbody'
    | cons r rows' =>
      obtain ⟨s, -, hs⟩ := (hmem' r).mp List.mem_cons_self
      exact ⟨s, hs⟩
  · intro h
    refine ⟨rows, ?_, hnodup, hmem⟩
    rw [hbody, Json.sliceJson, if_neg]
    rw [Bool.and_eq_true, List.isEmpty_iff, Bool.not_eq_true', List.isEmpty_eq_false_iff]
    rintro ⟨hnone, hsome⟩
    obtain ⟨resID, hresID⟩ := List.exists_mem_of_ne_nil ids hsome
    obtain ⟨s, hs⟩ := h ⟨resID, (hids resID).mp hresID⟩
    have hs' := (hmem _).mpr ⟨s, rfl, hs⟩
    rw [hnone] at hs'
    cases hs'

end Body

/-- Application 1 has resource 1 and the user `a` in role 1, which is granted `resID`. -/
def grantDb (resID : Int) : Db where
  role := default
  resource := (default : Table resourceSchema).upsert (resourceEntry "" 1 "pay" "payments")
  user := (default : Table userSchema).upsert (userEntry "" 1 "a" "a")
  roleUser := (default : Table roleUserSchema).upsert (roleUserEntry "" 1 1 1)
  roleResource := (default : Table roleResourceSchema).upsert (roleResourceEntry "" 1 1 resID)

theorem granted_grantDb (resID : Int) : (grantDb resID).Granted 1 "a" resID :=
  ⟨_, List.mem_singleton.mpr rfl, rfl, rfl, _, List.mem_singleton.mpr rfl, rfl, _,
    List.mem_singleton.mpr rfl, rfl, rfl, rfl⟩

end Collated

/-- The query of `a`, with a token of application 1. -/
def userResourceRequest (C : Crypto) : Request := ⟨⟨none, []⟩, [("email", "a")], tokenOf C [0x02]⟩

theorem parseToken_userResourceRequest (C : Crypto) :
    parseToken C (userResourceRequest C).token = .ok 1 :=
  (parseToken_ok_iff _ _ _).mpr (tokenID_tokenOf C [0x02] (by decide) (by decide))

theorem plainText_a : PlainText "a" := by
  intro c hc
  obtain rfl := List.mem_singleton.mp hc
  decide

section Examples

attribute [local instance] asciiCi

theorem listsOwned_iff_grantDb :
    ListsOwned default (Mysql.steady default) (userResourceRequest default) (fun _ => "") 1
      (grantDb 1) :=
  (listsOwned_iff (fun _ => rfl) (parseToken_userResourceRequest default) plainText_a _ _).mpr
    fun _ => ⟨_, List.mem_singleton.mpr rfl, rfl, granted_grantDb 1⟩

/-- Resource 7 is granted to a role of `a` and is not there: the body is `null`. -/
theorem dangling_grant_not_listed :
    ¬ ∃ (C : Crypto) (errText : Fault → String),
      ListsOwned C (Mysql.steady default) (userResourceRequest C) errText 1 (grantDb 7) := by
  rintro ⟨C, errText, rows, hbody, -⟩
  have hids : userResourceGet (Mysql.steady default) 1 "a" (grantDb 7) = .ok [7] := by
    decide +kernel
  have hrows : Client.userResources (Mysql.steady default) 1 "a" (grantDb 7) = .ok [] := by
    decide +kernel
  have hget := userResourceGET_of_rows (parseToken_userResourceRequest C) hrows
  have hurl : (userResourceRequest C).urlGet "email" = "a" := rfl
  simp only [userResourceBody, userResourceNil, hget, parseToken_userResourceRequest, hurl, hids,
    Client.body, Json.sliceJson] at hbody
  cases hbody

end Examples

end Doodle.Rbac
