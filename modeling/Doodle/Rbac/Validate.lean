/-
  `RelationValidate` of `rbac/relation.go`, the check of one resource, against the list of
  `UserResourceGet`.

  Both go from the user's row over its roles to the grants of the application, whatever application
  a membership is of. `UserResourceGet` takes the user's row of the application, of which there is
  at most one. `RelationValidate` takes the row with the email: of any application if there is only
  one, and if there are several the statement fails.

  `checks_agree_iff`: for every database, application, resource and email without a quote the two
  agree exactly when each user row with the email whose roles reach the resource is of the
  application if and only if it is the only row with the email. An email is one that the database
  does not tell from it.
-/
import Doodle.Rbac.UserResources

namespace Doodle.Rbac

open Doodle.Lib

/-! ## The check -/

section Collated

variable [Collating]

/-- `role_id in (select role_id from role_user where user_id = …)`, where the user may be NULL. -/
def Db.isRoleOfUser (db : Db) (userID : Option Int) (roleID : Int) : Bool :=
  db.roleUser.rows.any fun ru => ru.roleID = roleID && userID = some ru.userID

/-- `select id from user where email='%s'` -/
def Db.usersOf (db : Db) (email : String) : List User :=
  db.user.rows.filter fun u => weight u.email = weight email

/-- `validate` of the statement of `RelationValidate`: whether there is a row. A literal that is
    left open does not parse; what a text with a quote in it does is `stray`. -/
def validateRelation (stray : Except Fault Bool) (appID resID : Int) (email : String) (db : Db) :
    Except Fault Bool :=
  match readLiteral email with
  | none => if quote ∈ email.toList then stray else .error .malformed
  | some email =>
    (scalar ((db.usersOf email).map (·.id))).map fun userID =>
      db.roleResource.rows.any fun rr =>
        rr.appID = appID && rr.resourceID = resID && db.isRoleOfUser userID rr.roleID

/-- The error of `RelationValidate`. -/
inductive ValidateErr where
  | fault (f : Fault)
  | notExist

def relationValidate (stray : Except Fault Bool) (appID resID : Int) (email : String) (db : Db) :
    Except ValidateErr Unit :=
  match validateRelation stray appID resID email db with
  | .error f => .error (.fault f)
  | .ok true => .ok ()
  | .ok false => .error .notExist

/-! ## What it checks -/

/-- A role of the user is granted the resource by the application. -/
def Db.RolesReach (db : Db) (u : User) (appID resID : Int) : Prop :=
  ∃ ru ∈ db.roleUser.rows, ru.userID = u.id ∧
    ∃ rr ∈ db.roleResource.rows, rr.appID = appID ∧ rr.roleID = ru.roleID ∧ rr.resourceID = resID

/-- The user is the only one with the email. -/
def Db.Sole (db : Db) (email : String) (u : User) : Prop :=
  ∀ u' ∈ db.user.rows, weight u'.email = weight email → u' = u

theorem granted_iff_rolesReach (db : Db) (appID : Int) (email : String) (resID : Int) :
    db.Granted appID email resID ↔
      ∃ u ∈ db.user.rows, weight u.email = weight email ∧ u.appID = appID ∧
        db.RolesReach u appID resID :=
  Iff.rfl

/-- The subquery finds a user exactly when there is one row with the email. -/
theorem scalar_users (db : Db) (email : String) :
    (∃ u ∈ db.user.rows, weight u.email = weight email ∧ db.Sole email u ∧
        scalar ((db.usersOf email).map (·.id)) = .ok (some u.id)) ∨
      (¬ ∃ u ∈ db.user.rows, weight u.email = weight email ∧ db.Sole email u) ∧
        (scalar ((db.usersOf email).map (·.id)) = .ok none ∨
          ∃ f, scalar ((db.usersOf email).map (·.id)) = .error f) := by
  have hmem : ∀ u, u ∈ db.usersOf email ↔ u ∈ db.user.rows ∧ weight u.email = weight email := by
    intro u
    simp [Db.usersOf]
  have hnodup : (db.usersOf email).Nodup := (List.Nodup.of_map _ db.user.nodup_id).filter _
  generalize db.usersOf email = found at hmem hnodup
  match found, hmem, hnodup with
  | [], hmem, _ =>
    refine Or.inr ⟨?_, Or.inl rfl⟩
    rintro ⟨u, hu, he, -⟩
    exact absurd ((hmem u).mpr ⟨hu, he⟩) List.not_mem_nil
  | [u], hmem, _ =>
    obtain ⟨hu, he⟩ := (hmem u).mp List.mem_cons_self
    refine Or.inl ⟨u, hu, he, fun u' hu' he' => ?_, rfl⟩
    exact List.mem_singleton.mp ((hmem u').mpr ⟨hu', he'⟩)
  | u :: w :: rest, hmem, hnodup =>
    refine Or.inr ⟨?_, Or.inr ⟨.subquery, rfl⟩⟩
    rintro ⟨v, -, -, hsole⟩
    obtain ⟨hu, hue⟩ := (hmem u).mp List.mem_cons_self
    obtain ⟨hw, hwe⟩ := (hmem w).mp (List.mem_cons_of_mem _ List.mem_cons_self)
    have huw : u = w := (hsole u hu hue).trans (hsole w hw hwe).symm
    exact (List.nodup_cons.mp hnodup).1 (huw ▸ List.mem_cons_self)

theorem rolesReach_iff (db : Db) (u : User) (appID resID : Int) :
    (db.roleResource.rows.any fun rr =>
      rr.appID = appID && rr.resourceID = resID && db.isRoleOfUser (some u.id) rr.roleID) = true ↔
      db.RolesReach u appID resID := by
  simp only [List.any_eq_true, Bool.and_eq_true, decide_eq_true_eq, Db.isRoleOfUser,
    Option.some.injEq]
  constructor
  · rintro ⟨rr, hrr, ⟨happ, hres⟩, ru, hru, hrole, huser⟩
    exact ⟨ru, hru, huser.symm, rr, hrr, happ, hrole.symm, hres⟩
  · rintro ⟨ru, hru, huser, rr, hrr, happ, hrole, hres⟩
    exact ⟨rr, hrr, ⟨happ, hres⟩, ru, hru, hrole.symm, huser.symm⟩

/-- `RelationValidate` returns nil for the one user with the email. -/
theorem relationValidate_ok_iff (stray : Except Fault Bool) (appID resID : Int) {email v : String}
    (hread : readLiteral email = some v) (db : Db) :
    relationValidate stray appID resID email db = .ok () ↔
      ∃ u ∈ db.user.rows, weight u.email = weight v ∧ db.Sole v u ∧
        db.RolesReach u appID resID := by
  unfold relationValidate validateRelation
  rw [hread]
  dsimp only
  rcases scalar_users db v with ⟨u, hu, he, hsole, hscalar⟩ | ⟨hnone, hscalar | ⟨f, hscalar⟩⟩
  · rw [hscalar, Except.map]
    have hreach := rolesReach_iff db u appID resID
    constructor
    · intro h
      refine ⟨u, hu, he, hsole, hreach.mp ?_⟩
      split at h
      · cases h
      · next heq => exact Except.ok.inj heq
      · cases h
    · rintro ⟨u', hu', he', -, hr⟩
      obtain rfl := hsole u' hu' he'
      rw [hreach.mpr hr]
  · rw [hscalar, Except.map]
    have hno : (db.roleResource.rows.any fun rr =>
        rr.appID = appID && rr.resourceID = resID && db.isRoleOfUser none rr.roleID) = false := by
      simp [Db.isRoleOfUser]
    rw [hno]
    refine iff_of_false (fun h => by cases h) fun ⟨u, hu, he, hsole, _⟩ => ?_
    exact hnone ⟨u, hu, he, hsole⟩
  · rw [hscalar, Except.map]
    refine iff_of_false (fun h => by cases h) fun ⟨u, hu, he, hsole, _⟩ => ?_
    exact hnone ⟨u, hu, he, hsole⟩

/-! ## Agreement -/

/-- A literal that is left open does not parse. -/
def Mysql.RejectsOpen (my : Mysql) : Prop :=
  ∀ appID email db, quote ∉ email.toList → readLiteral email = none →
    ∃ f, my.straySelect (resourceIDsSelect appID email) db = .error f

/-- The check of the resource and the list of resources agree. -/
def ChecksAgree (my : Mysql) (stray : Except Fault Bool) (appID resID : Int) (email : String)
    (db : Db) : Prop :=
  relationValidate stray appID resID email db = .ok () ↔ Accesses my appID email resID db

/-- Each user row with the email whose roles reach the resource is of the application exactly when
    it is the only one with the email. -/
def Db.OneApp (db : Db) (appID resID : Int) (email : String) : Prop :=
  ∀ u ∈ db.user.rows, weight u.email = weight email → db.RolesReach u appID resID →
    (u.appID = appID ↔ db.Sole email u)

theorem oneApp_iff (db : Db) (appID resID : Int) (email : String) :
    ((∃ u ∈ db.user.rows, weight u.email = weight email ∧ db.Sole email u ∧
        db.RolesReach u appID resID) ↔ db.Granted appID email resID) ↔
      db.OneApp appID resID email := by
  rw [granted_iff_rolesReach]
  constructor
  · rintro h u hu he hreach
    constructor
    · intro happ
      obtain ⟨w, hw, hwe, hsole, -⟩ := h.mpr ⟨u, hu, he, happ, hreach⟩
      obtain rfl := hsole u hu he
      exact hsole
    · intro hsole
      obtain ⟨w, hw, hwe, happ, -⟩ := h.mp ⟨u, hu, he, hsole, hreach⟩
      obtain rfl := hsole w hw hwe
      exact happ
  · intro h
    constructor
    · rintro ⟨u, hu, he, hsole, hreach⟩
      exact ⟨u, hu, he, (h u hu he hreach).mpr hsole, hreach⟩
    · rintro ⟨u, hu, he, happ, hreach⟩
      exact ⟨u, hu, he, (h u hu he hreach).mp happ, hreach⟩

/-- A text that cannot be read is an error for both. -/
theorem not_accesses_of_open {my : Mysql} (hup : ∀ s, my.down (.select s) = none)
    (hopen : my.RejectsOpen) (appID resID : Int) {email : String} (hquote : quote ∉ email.toList)
    (hread : readLiteral email = none) (db : Db) : ¬ Accesses my appID email resID db := by
  rintro ⟨ids, hget, -⟩
  obtain ⟨f, hf⟩ := hopen appID email db hquote hread
  have hparse : (resourceIDsSelect appID email).parse = .error .injected := by
    simp only [resourceIDsSelect, Select.parse, Query.parse, literal, hread]
    rfl
  have hselect : select my (resourceIDsSelect appID email) db = .error f := by
    simp only [select, hup, hparse, hf]
  unfold userResourceGet queryAll at hget
  rw [← resourceIDsSelect, hselect] at hget
  cases hget

/-- For every database, application, resource and email without a quote: the two checks agree
    exactly when the user rows that reach the resource are of the one application. -/
theorem checks_agree_iff (my : Mysql) (hup : ∀ s, my.down (.select s) = none)
    (hopen : my.RejectsOpen) (stray : Except Fault Bool) (appID resID : Int) (email : String)
    (hquote : quote ∉ email.toList) (db : Db) :
    ChecksAgree my stray appID resID email db ↔
      ∀ v, readLiteral email = some v → db.OneApp appID resID v := by
  unfold ChecksAgree
  cases hread : readLiteral email with
  | none =>
    have hcheck : relationValidate stray appID resID email db = .error (.fault .malformed) := by
      simp only [relationValidate, validateRelation, hread, if_neg hquote]
    rw [hcheck]
    refine iff_of_true (iff_of_false (fun h => by cases h) ?_) fun v h => by cases h
    exact not_accesses_of_open hup hopen appID resID hquote hread db
  | some v =>
    have haccess : Accesses my appID email resID db ↔ db.Granted appID v resID := by
      rw [accesses_iff my appID email v resID db hread, db.granted_iff_reaches]
      exact and_iff_right (hup _)
    rw [relationValidate_ok_iff stray appID resID hread db, haccess, oneApp_iff]
    exact ⟨fun h _ hv => Option.some.inj hv ▸ h, fun h => h v rfl⟩

/-- A MySQL that answers, and rejects what does not parse. -/
def strict : Mysql :=
  { Mysql.steady default with straySelect := fun _ _ => .error .malformed }

theorem strict_rejectsOpen : strict.RejectsOpen := fun _ _ _ _ _ => ⟨_, rfl⟩

end Collated

section Examples

attribute [local instance] asciiCi

/-- A person of application 1 in role 3, which is granted resource 7, and one of application 2 in
    role 4, which is granted it too. -/
def twoPersons : Db where
  role := default
  resource := default
  user := ((Table.empty _).upsert (userEntry "" 1 "a" "A@b.c")).upsert (userEntry "" 2 "d" "d@b.c")
  roleUser := ((Table.empty _).upsert (roleUserEntry "" 1 3 1)).upsert (roleUserEntry "" 2 4 2)
  roleResource :=
    ((Table.empty _).upsert (roleResourceEntry "" 1 3 7)).upsert (roleResourceEntry "" 1 4 7)

/-- The person of application 1, whose email is stored with a capital, has the resource for both. -/
theorem checks_agree_iff_twoPersons : twoPersons.Granted 1 "a@b.c" 7 ∧
    ChecksAgree strict (.ok false) 1 7 "a@b.c" twoPersons := by
  refine ⟨⟨⟨1, 1, "a", "A@b.c", "", ""⟩, by decide, by decide, rfl, ⟨1, 1, 3, 1, "", ""⟩, by decide,
    rfl, ⟨1, 1, 3, 7, "", ""⟩, by decide, rfl, rfl, rfl⟩, ?_⟩
  refine (checks_agree_iff strict (fun _ => rfl) strict_rejectsOpen (.ok false) 1 7 "a@b.c"
    (by decide) twoPersons).mpr fun v hv u hu he _ => ?_
  obtain rfl : "a@b.c" = v := Option.some.inj ((by decide : readLiteral "a@b.c" = _).symm.trans hv)
  -- only the first row has the email
  have hfirst : ∀ u ∈ twoPersons.user.rows, weight u.email = weight "a@b.c" →
      u = ⟨1, 1, "a", "A@b.c", "", ""⟩ := by decide
  obtain rfl := hfirst u hu he
  exact iff_of_true rfl hfirst

/-- One person in two applications: a role of the first is granted the resource 7. -/
def twoApps : Db where
  role := default
  resource := default
  user := ((Table.empty _).upsert (userEntry "" 1 "a" "a@b.c")).upsert (userEntry "" 2 "a" "a@b.c")
  roleUser := (Table.empty _).upsert (roleUserEntry "" 1 3 1)
  roleResource := (Table.empty _).upsert (roleResourceEntry "" 1 3 7)

/-- The list has the resource, and the check fails: the subquery finds two users. -/
theorem second_app_breaks_check : quote ∉ "a@b.c".toList ∧
    ¬ ChecksAgree strict (.ok false) 1 7 "a@b.c" twoApps := by
  have hquote : quote ∉ "a@b.c".toList := by decide
  refine ⟨hquote, fun h => ?_⟩
  have hread : readLiteral "a@b.c" = some "a@b.c" := by decide
  obtain ⟨u, hu, he, hsole, -⟩ := (relationValidate_ok_iff (.ok false) 1 7 hread twoApps).mp
    (h.mpr ((accesses_iff strict 1 "a@b.c" "a@b.c" 7 twoApps hread).mpr
      ⟨rfl, (twoApps.granted_iff_reaches 1 "a@b.c" 7).mp (by
        refine ⟨⟨1, 1, "a", "a@b.c", "", ""⟩, by decide, rfl, rfl, ⟨1, 1, 3, 1, "", ""⟩, by decide,
          rfl, ⟨1, 1, 3, 7, "", ""⟩, by decide, rfl, rfl, rfl⟩)⟩))
  have h1 := hsole ⟨1, 1, "a", "a@b.c", "", ""⟩ (by decide) rfl
  have h2 := hsole ⟨2, 2, "a", "a@b.c", "", ""⟩ (by decide) rfl
  have hid := congrArg User.id (h1.trans h2.symm)
  exact absurd hid (by decide)

end Examples

end Doodle.Rbac
