/-
  The rights of a session: `userinfo` with the lists of its resources and roles, the texts that go
  into the filters, and `loadInfo` of `manager/session.go`, which every request of a live session
  runs again on the same object.

  What `userdb` answers in one `loadInfo`, from its caches or from the rbac server, is a `UserDB`.
  `setResource` and `setRoles` write the texts for a list that is not empty, and leave them alone
  for an empty one.

  * `idsKey_eq`: the loop over the ids makes the comma separated list.
  * `current_loadInfo_iff`: when the texts are those of the lists after one `loadInfo`.
  * `current_iff`: and after each one of a sequence.
-/
import Doodle.Go.Strings
import Doodle.Lib.Runs

namespace Doodle.Manager.Session

open Doodle.Go Doodle.Lib

/-! ## The model -/

/-- `userinfo`, the fields that `loadInfo` reads and writes. -/
structure UserInfo where
  email : String
  isAdmin : Bool
  res : List Int
  resKey : String
  roles : List Int
  rolesKey : String
  deriving DecidableEq, Repr

/-- What `userdb` answers during one `loadInfo`. -/
structure UserDB where
  loadResource : String → Except String (List Int)
  loadRoles : String → Except String (List Int)
  isAdmin : String → Bool

/-- The buffer of `setResource` and `setRoles`: each id with a comma, and the last comma cut off. -/
def idsKey (ids : List Int) : String :=
  let buf := ids.foldl (fun buf id => buf ++ toString id ++ ",") ""
  sliceTo buf (buf.length - 1)

namespace UserInfo

def setResource (u : UserInfo) (res : List Int) : UserInfo :=
  if res.length = 0 then { u with res := res } else { u with res := res, resKey := idsKey res }

def setRoles (u : UserInfo) (roles : List Int) : UserInfo :=
  if roles.length = 0 then { u with roles := roles }
  else { u with roles := roles, rolesKey := idsKey roles }

def loadInfo (u : UserInfo) (db : UserDB) : Except String Unit × UserInfo :=
  match db.loadResource u.email with
  | .error e => (.error e, u)
  | .ok res =>
    let u := u.setResource res
    match db.loadRoles u.email with
    | .error e => (.error e, u)
    | .ok roles =>
      let u := u.setRoles roles
      (.ok (), { u with isAdmin := db.isAdmin u.email })

end UserInfo

/-- The condition of `service.GET` with the list `key`. -/
def resourceIn (key : String) : String := " service.resource_id in (" ++ key ++ ")"

/-- `where` of `service.GET`. -/
def UserInfo.serviceWhere (u : UserInfo) : String := if u.isAdmin then "" else resourceIn u.resKey

/-- The statement of `cluster.DELETE` with the list `key`. -/
def deleteClusterIn (id : Int) (key : String) : String :=
  "delete from cluster where id = " ++ toString id ++ " and role_id in (" ++ key ++ ")"

/-- `sql` of `cluster.DELETE`. -/
def UserInfo.clusterDelete (u : UserInfo) (id : Int) : String := deleteClusterIn id u.rolesKey

/-! ## The text of a list -/

/-- The ids in decimal, with commas between them; empty for no ids. -/
def commaList (ids : List Int) : String := join (ids.map toString) ','

theorem toList_foldl_ids (ids : List Int) : ∀ buf : String,
    (ids.foldl (fun buf id => buf ++ toString id ++ ",") buf).toList =
      buf.toList ++ (ids.map fun id => (toString id).toList).flatMap (· ++ [',']) := by
  induction ids with
  | nil => intro buf; simp
  | cons id ids ih =>
    intro buf
    rw [List.foldl_cons, ih]
    simp

/-- Parts with a separator after each, but for the last one. -/
theorem dropLast_flatMap_sep {α : Type} (c : α) (l : List (List α)) :
    (l.flatMap (· ++ [c])).dropLast = [c].intercalate l := by
  induction l with
  | nil => rfl
  | cons x l ih =>
    cases l with
    | nil => simp [List.intercalate]
    | cons y l =>
      have hne : (y :: l).flatMap (· ++ [c]) ≠ [] := by simp
      rw [List.flatMap_cons, List.dropLast_append_of_ne_nil hne, ih]
      simp [List.intercalate]

theorem idsKey_eq (ids : List Int) : idsKey ids = commaList ids := by
  have hbuf := toList_foldl_ids ids ""
  unfold idsKey commaList join sliceTo
  simp only
  rw [← String.length_toList, hbuf, String.toList_empty, List.nil_append, ← List.dropLast_eq_take,
    dropLast_flatMap_sep, List.map_map]
  rfl

/-! ## Live sessions -/

/-- The texts are those of the lists, and so the filters name the ids the user has. -/
structure Current (u : UserInfo) : Prop where
  resKey : u.resKey = commaList u.res
  rolesKey : u.rolesKey = commaList u.roles
  service : u.isAdmin = false → u.serviceWhere = resourceIn (commaList u.res)
  cluster : ∀ id, u.clusterDelete id = deleteClusterIn id (commaList u.roles)

theorem current_iff_keys (u : UserInfo) :
    Current u ↔ u.resKey = commaList u.res ∧ u.rolesKey = commaList u.roles := by
  constructor
  · intro h
    exact ⟨h.resKey, h.rolesKey⟩
  · rintro ⟨hres, hroles⟩
    refine ⟨hres, hroles, fun hadmin => ?_, fun id => ?_⟩
    · simp [UserInfo.serviceWhere, hadmin, hres]
    · rw [UserInfo.clusterDelete, hroles]

/-- What a list and its text have to be before a load that brings `loaded`: an empty list needs
    an empty text, and a load that fails needs a text that fits already. -/
def Ready (ids : List Int) (key : String) : Option (List Int) → Prop
  | none => key = commaList ids
  | some [] => key = ""
  | some (_ :: _) => True

/-- The resources a `loadInfo` sets. -/
def UserDB.res? (db : UserDB) (email : String) : Option (List Int) :=
  (db.loadResource email).toOption

/-- The roles a `loadInfo` sets: it does not come to them when there are no resources. -/
def UserDB.roles? (db : UserDB) (email : String) : Option (List Int) :=
  (db.res? email).bind fun _ => (db.loadRoles email).toOption

/-- The session is ready for what a `loadInfo` brings. -/
def Settled (u : UserInfo) (db : UserDB) : Prop :=
  Ready u.res u.resKey (db.res? u.email) ∧ Ready u.roles u.rolesKey (db.roles? u.email)

theorem setResource_fits (u : UserInfo) (res : List Int) :
    (u.setResource res).resKey = commaList (u.setResource res).res ↔
      Ready u.res u.resKey (some res) := by
  cases res with
  | nil => exact Iff.rfl
  | cons id res => simp [UserInfo.setResource, Ready, idsKey_eq]

theorem setRoles_fits (u : UserInfo) (roles : List Int) :
    (u.setRoles roles).rolesKey = commaList (u.setRoles roles).roles ↔
      Ready u.roles u.rolesKey (some roles) := by
  cases roles with
  | nil => exact Iff.rfl
  | cons id roles => simp [UserInfo.setRoles, Ready, idsKey_eq]

/-- `setResource` leaves the roles and the email alone, `setRoles` the resources. -/
theorem setResource_frame (u : UserInfo) (res : List Int) :
    (u.setResource res).roles = u.roles ∧ (u.setResource res).rolesKey = u.rolesKey ∧
      (u.setResource res).email = u.email := by
  unfold UserInfo.setResource
  split <;> exact ⟨rfl, rfl, rfl⟩

theorem setRoles_frame (u : UserInfo) (roles : List Int) :
    (u.setRoles roles).res = u.res ∧ (u.setRoles roles).resKey = u.resKey := by
  unfold UserInfo.setRoles
  split <;> exact ⟨rfl, rfl⟩

theorem current_loadInfo_iff (u : UserInfo) (db : UserDB) :
    Current (u.loadInfo db).2 ↔ Settled u db := by
  rw [current_iff_keys]
  unfold Settled UserDB.roles? UserDB.res? UserInfo.loadInfo
  cases hres : db.loadResource u.email with
  | error e => exact Iff.rfl
  | ok res =>
    obtain ⟨hroles, hkey, hemail⟩ := setResource_frame u res
    simp only [hemail, Except.toOption, Option.bind_some]
    cases hr : db.loadRoles u.email with
    | error e =>
      simp only [setResource_fits, hroles, hkey]
      exact Iff.rfl
    | ok roles =>
      obtain ⟨hr1, hr2⟩ := setRoles_frame (u.setResource res) roles
      simp only [hr1, hr2, setResource_fits, setRoles_fits, hroles, hkey]

/-- The session after the calls of `loadInfo` of a sequence of requests. -/
def loadAll (u : UserInfo) (dbs : List UserDB) : UserInfo :=
  dbs.foldl (fun u db => (u.loadInfo db).2) u

/-- After each `loadInfo` of a sequence the texts are those of the lists exactly when each one
    finds the session ready for what it brings. -/
theorem current_iff (u : UserInfo) (dbs : List UserDB) :
    (∀ n, 0 < n → n ≤ dbs.length → Current (loadAll u (dbs.take n))) ↔
      EachStep (fun u db => (u.loadInfo db).2) Settled u dbs :=
  eachStep_iff current_loadInfo_iff dbs u

/-- A user with one resource and one role, who then loses both. -/
def revoked : List UserDB :=
  [⟨fun _ => .ok [7], fun _ => .ok [3], fun _ => false⟩,
    ⟨fun _ => .ok [], fun _ => .ok [], fun _ => false⟩]

/-- The filter still names resource 7. -/
theorem revoked_key_kept : ¬ ∀ n, 0 < n → n ≤ revoked.length →
    Current (loadAll ⟨"a@b.c", false, [], "", [], ""⟩ (revoked.take n)) := by
  intro h
  have hkey := (h 2 (by decide) (by decide)).resKey
  revert hkey
  decide

end Doodle.Manager.Session
