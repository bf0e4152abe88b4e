/-
  Requests to one handler object, one after another.

  `Isolated o h q`: whatever requests the object has served before, the request `q` to its method
  `h` is answered, and acts on the database and on the rbac server, as on a manager just started,
  for every server behind the manager and every answer of the session.

  `isolated_iff`: for each of the eighteen methods that decode into their receiver this holds
  exactly when the integer fields the method goes on to use all parse (`Endpoint.Determined`).
  The reason is in `DecodeRequestValue`: a string field is always overwritten, an integer field
  that does not parse keeps what the last request left there. Both directions compare the program
  of the method at two receivers: equal programs cannot be told apart, and programs with
  different calls are told apart by the server that writes down its calls.
-/
import Doodle.Manager.Objects

namespace Doodle.Manager

open Doodle.Lib Doodle.Util Doodle.Crab

/-! ## Histories of an object -/

/-- A request to an object: its method, what the session answers, and the form. -/
abbrev Visit := Method × Except String User × Request

/-- The receiver after one more request. -/
def Object.step (o : Object) (s : o.S) (v : Visit) : o.S :=
  match o.methods v.1 with
  | none => s
  | some h => (o.serve h v.2.1 v.2.2 s).1

/-- The receiver after a history, oldest request first. -/
def Object.after (o : Object) (history : List Visit) : o.S := history.foldl o.step o.zero

/-- The answer to `q` and its effect do not depend on the requests served before. -/
def Isolated (o : Object) (h : Handler o.S) (q : Request) : Prop :=
  ∀ (history : List Visit) (user : Except String User) (W : Type)
    (serve : (c : Call) → W → Answer c × W) (w : W),
    Prog.run serve (o.serve h user q (o.after history)).2 w =
      Prog.run serve (o.serve h user q o.zero).2 w

/-- The receiver after decoding a form that parses. -/
def Object.decoded (o : Object) (q : Request) (s : o.S) : o.S :=
  o.fields.foldl (fun s f => f.put q s) s

/-- The fields of an object have no `valid` tags. -/
def Object.Plain (o : Object) : Prop := ∀ f ∈ o.fields, f.Plain

theorem Object.serve_eq (o : Object) (ho : o.Plain) (h : Handler o.S) (user : Except String User)
    (q : Request) (hq : q.formErr = none) (s : o.S) {u : User} (hu : h.user user = .ok u) :
    o.serve h user q s =
      (h.settle u (o.decoded q s), h.act u (h.settle u (o.decoded q s))) := by
  simp only [Object.serve, hu, decodeRequestValue, hq, decodeFields_plain q o.fields ho]
  rfl

/-- A request whose form does not parse is answered the same from every receiver. -/
theorem isolated_of_formErr (o : Object) (h : Handler o.S) (q : Request) (e : String)
    (hq : q.formErr = some e) : Isolated o h q := by
  intro history user W serve w
  simp only [Object.serve, decodeRequestValue, hq]
  cases h.user user <;> rfl

/-- A method whose program is the same from every receiver is isolated. -/
theorem isolated_of_act_eq (o : Object) (ho : o.Plain) (h : Handler o.S) (q : Request)
    (hact : ∀ u s, h.act u (h.settle u (o.decoded q s)) =
      h.act u (h.settle u (o.decoded q o.zero))) : Isolated o h q := by
  intro history user W serve w
  cases hq : q.formErr with
  | some e => exact isolated_of_formErr o h q e hq history user W serve w
  | none =>
    cases hu : h.user user with
    | error e => simp only [Object.serve, hu]
    | ok u => rw [o.serve_eq ho h user q hq _ hu, o.serve_eq ho h user q hq _ hu, hact]

/-- A method that makes different calls after some history is not isolated. -/
theorem log_eq_of_isolated (o : Object) (ho : o.Plain) (h : Handler o.S) (q : Request)
    (hq : q.formErr = none) (hi : Isolated o h q) (history : List Visit) {user : Except String User}
    {u : User} (hu : h.user user = .ok u) :
    (h.act u (h.settle u (o.decoded q (o.after history)))).log Call.sample =
      (h.act u (h.settle u (o.decoded q o.zero))).log Call.sample := by
  have hrun := hi history user _ (Prog.record Call.sample) []
  rw [o.serve_eq ho h user q hq _ hu, o.serve_eq ho h user q hq _ hu] at hrun
  have hlog := congrArg Prod.snd hrun
  simpa only [Prog.run_record, List.append_nil, List.reverse_inj] using hlog

/-! ## The endpoints -/

/-- The methods that decode into their receiver. -/
inductive Endpoint where
  | interfaceGET | interfaceDELETE
  | rolePOST | rolePUT | roleDELETE
  | roleUserGET | roleUserPOST | roleUserPUT | roleUserDELETE
  | resourceGET | resourcePOST
  | resourceRoleDELETE
  | appInfosGET | appInfoGET | serviceInfoGET
  | statsSumGET | statsTopGET | statsErrorsGET
  deriving DecidableEq, Repr

@[reducible] def Endpoint.object : Endpoint → Object
  | .interfaceGET | .interfaceDELETE => interfaceAction
  | .rolePOST | .rolePUT | .roleDELETE => role
  | .roleUserGET | .roleUserPOST | .roleUserPUT | .roleUserDELETE => roleUser
  | .resourceGET | .resourcePOST => resource
  | .resourceRoleDELETE => resourceRole
  | .appInfosGET => appInfos
  | .appInfoGET => appInfo
  | .serviceInfoGET => serviceInfo
  | .statsSumGET => statsSumAction
  | .statsTopGET => statsTopApplication
  | .statsErrorsGET => statsErrors

@[reducible] def Endpoint.handler : (e : Endpoint) → Handler e.object.S
  | .interfaceGET => InterfaceAction.get
  | .interfaceDELETE => InterfaceAction.delete
  | .rolePOST => Role.post
  | .rolePUT => Role.put
  | .roleDELETE => Role.delete
  | .roleUserGET => RoleUser.get
  | .roleUserPOST => RoleUser.post
  | .roleUserPUT => RoleUser.put
  | .roleUserDELETE => RoleUser.delete
  | .resourceGET => Resource.get
  | .resourcePOST => Resource.post
  | .resourceRoleDELETE => ResourceRole.delete
  | .appInfosGET => AppInfos.get
  | .appInfoGET => appInfoGet
  | .serviceInfoGET => serviceInfoGet
  | .statsSumGET => statsSumGet
  | .statsTopGET => statsTopGet
  | .statsErrorsGET => StatsErrors.get

/-- The key's value parses as an integer. -/
def Parses (q : Request) (key : String) : Prop := (q.int? key).isSome

/-- The page of a listing: the limit parses, and the offset too unless the limit is not
    positive. -/
def PageParses (q : Request) : Prop :=
  ∃ n, q.int? "limit" = some n ∧ (Parses q "offset" ∨ n ≤ 0)

/-- The integer fields the method goes on to use all parse. -/
def Endpoint.Used (q : Request) : Endpoint → Prop
  | .interfaceGET =>
    Parses q "pid" ∧ PageParses q ∧ (Parses q "state" ∨ q.formValue "search" ≠ "")
  | .interfaceDELETE | .appInfoGET | .serviceInfoGET => Parses q "id"
  | .rolePOST => True
  | .rolePUT | .roleDELETE => Parses q "role_id"
  | .roleUserPUT => Parses q "user_id"
  | .roleUserGET | .roleUserPOST | .roleUserDELETE => Parses q "role_id"
  | .resourceGET => Parses q "resourceID"
  | .resourcePOST | .resourceRoleDELETE => Parses q "resourceID" ∧ Parses q "roleID"
  | .statsSumGET | .statsTopGET => Parses q "interfaceID"
  | .appInfosGET | .statsErrorsGET => Parses q "interfaceID" ∧ PageParses q

/-- The form does not parse at all, or every integer field that is used does. -/
def Endpoint.Determined (e : Endpoint) (q : Request) : Prop := q.formErr.isSome ∨ e.Used q

/-! ## What decoding leaves in each receiver -/

theorem interfaceAction_decoded (q : Request) (s : InterfaceAction) :
    interfaceAction.decoded q s =
      { id := (q.int? "id").getD s.id
        state := (q.int? "state").getD s.state
        serviceID := (q.int? "pid").getD s.serviceID
        sort := q.formValue "sort"
        order := q.formValue "order"
        page := (q.int? "offset").getD s.page
        size := (q.int? "limit").getD s.size
        search := q.formValue "search" } := rfl

theorem resource_decoded (q : Request) (s : Resource) :
    resource.decoded q s =
      { resourceID := (q.int? "resourceID").getD s.resourceID
        roleID := (q.int? "roleID").getD s.roleID } := rfl

theorem resourceRole_decoded (q : Request) (s : ResourceRole) :
    resourceRole.decoded q s =
      { id := (q.int? "id").getD s.id
        resourceID := (q.int? "resourceID").getD s.resourceID
        roleID := (q.int? "roleID").getD s.roleID } := rfl

/-! ## The history that fills every integer field -/

/-- A form with a value for every integer key. -/
def loadedForm : Request :=
  ⟨none, [("id", "10"), ("state", "1"), ("pid", "10"), ("offset", "10"), ("limit", "10"),
    ("role_id", "10"), ("user_id", "10"), ("resourceID", "10"), ("roleID", "10"),
    ("interfaceID", "10")]⟩

def admin : User := ⟨"", "", true, []⟩

/-- The receiver after one request with that form. -/
def Object.loaded (o : Object) (m : Method) : o.S := o.after [(m, .ok admin, loadedForm)]

/-- The user the method sees when an administrator calls. -/
def Handler.caller {S : Type} (h : Handler S) : User := if h.session then admin else noUser

theorem Handler.user_admin {S : Type} (h : Handler S) : h.user (.ok admin) = .ok h.caller := by
  unfold Handler.user Handler.caller
  cases h.session <;> rfl

/-- The calls of a method from a receiver. -/
def Object.calls (o : Object) (h : Handler o.S) (q : Request) (s : o.S) : List Call :=
  (h.act h.caller (h.settle h.caller (o.decoded q s))).log Call.sample

/-- The two halves of the main theorem for one method: `used` makes its program independent of
    the receiver, and its calls from the filled receiver give `used` back. -/
theorem isolated_iff_of (o : Object) (ho : o.Plain) (h : Handler o.S) (m : Method) (q : Request)
    (used : Prop)
    (hsuff : used → ∀ u s, h.act u (h.settle u (o.decoded q s)) =
      h.act u (h.settle u (o.decoded q o.zero)))
    (hnec : o.calls h q (o.loaded m) = o.calls h q o.zero → used) :
    Isolated o h q ↔ q.formErr.isSome ∨ used := by
  constructor
  · intro hi
    cases hq : q.formErr with
    | some e => exact Or.inl rfl
    | none => exact Or.inr (hnec (log_eq_of_isolated o ho h q hq hi _ h.user_admin))
  · rintro (he | hu)
    · obtain ⟨e, he⟩ := Option.isSome_iff_exists.mp he
      exact isolated_of_formErr o h q e he
    · exact isolated_of_act_eq o ho h q (hsuff hu)

/-- The same for a method that uses one integer field. -/
theorem isolated_iff_of_id (o : Object) (ho : o.Plain) (h : Handler o.S) (m : Method) (q : Request)
    (key : String) (f : User → Int → Prog Answer Resp) (field : o.S → Int)
    (hact : ∀ u s, h.act u (h.settle u (o.decoded q s)) = f u ((q.int? key).getD (field s)))
    (hzero : field o.zero = 0) (hloaded : field (o.loaded m) = 10)
    (hne : (f h.caller 10).log Call.sample ≠ (f h.caller 0).log Call.sample) :
    Isolated o h q ↔ q.formErr.isSome ∨ Parses q key := by
  refine isolated_iff_of o ho h m q _ (fun hp u s => ?_) (fun hc => ?_)
  · obtain ⟨n, hn⟩ := Option.isSome_iff_exists.mp hp
    simp only [hact, hn, Option.getD_some]
  · by_contra hp
    have hnone : q.int? key = none := Option.not_isSome_iff_eq_none.mp hp
    simp only [Object.calls, hact, hnone, Option.getD_none, hzero, hloaded] at hc
    exact hne hc

/-! ## The fields have no `valid` tags -/

theorem interfaceAction_plain : interfaceAction.Plain :=
  show ∀ f ∈ InterfaceAction.fields, f.Plain by simp [InterfaceAction.fields, Util.Field.Plain]

theorem role_plain : role.Plain :=
  show ∀ f ∈ Role.fields, f.Plain by simp [Role.fields, Util.Field.Plain]

theorem roleUser_plain : roleUser.Plain :=
  show ∀ f ∈ RoleUser.fields, f.Plain by simp [RoleUser.fields, Util.Field.Plain]

theorem resource_plain : resource.Plain :=
  show ∀ f ∈ Resource.fields, f.Plain by simp [Resource.fields, Util.Field.Plain]

theorem resourceRole_plain : resourceRole.Plain :=
  show ∀ f ∈ ResourceRole.fields, f.Plain by simp [ResourceRole.fields, Util.Field.Plain]

theorem appInfos_plain : appInfos.Plain :=
  show ∀ f ∈ AppInfos.fields, f.Plain by simp [AppInfos.fields, Util.Field.Plain]

theorem statsErrors_plain : statsErrors.Plain :=
  show ∀ f ∈ StatsErrors.fields, f.Plain by simp [StatsErrors.fields, Util.Field.Plain]

theorem oneID_plain (key : String) : ∀ f ∈ OneID.fields key, f.Plain := by
  simp [OneID.fields, Util.Field.Plain]

/-! ## Methods with one integer field -/

/-- Methods whose first calls differ make different calls. -/
theorem log_onErr_ne {c c' : Call} (hc : c ≠ c') (bad bad' : String → Resp)
    (good : c.Data → Prog Answer Resp) (good' : c'.Data → Prog Answer Resp) :
    (onErr (ask c) bad good).log Call.sample ≠ (onErr (ask c') bad' good').log Call.sample :=
  fun h => hc (List.cons.inj h).1

/-- `role.PUT` does not use what it takes from the session. -/
theorem Role.put_own (u : User) (r : Role) : Role.put.act u (r.own u) = Role.put.act u r := by
  unfold Role.own
  split <;> rfl

/-- `roleUser.GET` does not use the sort column it settles. -/
theorem RoleUser.get_sortColumn (u : User) (r : RoleUser) :
    RoleUser.get.act u r.sortColumn = RoleUser.get.act u r := by
  unfold RoleUser.sortColumn
  split_ifs <;> rfl

theorem interfaceDELETE_iff (q : Request) :
    Isolated interfaceAction InterfaceAction.delete q ↔ q.formErr.isSome ∨ Parses q "id" :=
  isolated_iff_of_id interfaceAction interfaceAction_plain _ .DELETE q "id"
    (fun u n => InterfaceAction.delete.act u { id := n }) (·.id) (fun _ _ => rfl) rfl rfl
    (by decide)

theorem rolePUT_iff (q : Request) :
    Isolated role Role.put q ↔ q.formErr.isSome ∨ Parses q "role_id" :=
  isolated_iff_of_id role role_plain _ .DELETE q "role_id"
    (fun u n => Role.put.act u { role.decoded q {} with roleID := n }) (·.roleID)
    (fun u s => Role.put_own u (role.decoded q s)) rfl rfl (log_onErr_ne (by simp) _ _ _ _)

theorem roleDELETE_iff (q : Request) :
    Isolated role Role.delete q ↔ q.formErr.isSome ∨ Parses q "role_id" :=
  isolated_iff_of_id role role_plain _ .DELETE q "role_id"
    (fun u n => Role.delete.act u { roleID := n }) (·.roleID) (fun _ _ => rfl) rfl rfl
    (log_onErr_ne (by simp) _ _ _ _)

theorem roleUserGET_iff (q : Request) :
    Isolated roleUser RoleUser.get q ↔ q.formErr.isSome ∨ Parses q "role_id" :=
  isolated_iff_of_id roleUser roleUser_plain _ .PUT q "role_id"
    (fun u n => RoleUser.get.act u { roleID := n }) (·.roleID)
    (fun u s => RoleUser.get_sortColumn u (roleUser.decoded q s)) rfl rfl
    (log_onErr_ne (by simp) _ _ _ _)

theorem roleUserPOST_iff (q : Request) :
    Isolated roleUser RoleUser.post q ↔ q.formErr.isSome ∨ Parses q "role_id" :=
  isolated_iff_of_id roleUser roleUser_plain _ .PUT q "role_id"
    (fun u n => RoleUser.post.act u { roleUser.decoded q {} with roleID := n }) (·.roleID)
    (fun _ _ => rfl) rfl rfl (log_onErr_ne (by simp) _ _ _ _)

theorem roleUserPUT_iff (q : Request) :
    Isolated roleUser RoleUser.put q ↔ q.formErr.isSome ∨ Parses q "user_id" :=
  isolated_iff_of_id roleUser roleUser_plain _ .PUT q "user_id"
    (fun u n => RoleUser.put.act u { roleUser.decoded q {} with userID := n }) (·.userID)
    (fun _ _ => rfl) rfl rfl (log_onErr_ne (by simp) _ _ _ _)

theorem roleUserDELETE_iff (q : Request) :
    Isolated roleUser RoleUser.delete q ↔ q.formErr.isSome ∨ Parses q "role_id" :=
  isolated_iff_of_id roleUser roleUser_plain _ .PUT q "role_id"
    (fun u n => RoleUser.delete.act u { roleUser.decoded q {} with roleID := n }) (·.roleID)
    (fun _ _ => rfl) rfl rfl (log_onErr_ne (by simp) _ _ _ _)

theorem resourceGET_iff (q : Request) :
    Isolated resource Resource.get q ↔ q.formErr.isSome ∨ Parses q "resourceID" :=
  isolated_iff_of_id resource resource_plain _ .POST q "resourceID"
    (fun u n => Resource.get.act u { resourceID := n }) (·.resourceID) (fun _ _ => rfl) rfl rfl
    (by decide)

theorem appInfoGET_iff (q : Request) :
    Isolated appInfo appInfoGet q ↔ q.formErr.isSome ∨ Parses q "id" :=
  isolated_iff_of_id appInfo (oneID_plain "id") _ .GET q "id"
    (fun u n => appInfoGet.act u { id := n }) (·.id) (fun _ _ => rfl) rfl rfl (by decide)

theorem serviceInfo_query_ne :
    (serviceInfoStmt 10).sqlQuery (serviceColumns.map .column) ≠
      (serviceInfoStmt 0).sqlQuery (serviceColumns.map .column) := by
  simp only [Stmt.sqlQuery, Stmt.sqlColumn_columns]
  intro h
  have hcond : (serviceInfoStmt 10).sqlCondition = (serviceInfoStmt 0).sqlCondition :=
    (String.append_right_inj _).mp h
  exact absurd hcond (by decide)

theorem serviceInfoGET_iff (q : Request) :
    Isolated serviceInfo serviceInfoGet q ↔ q.formErr.isSome ∨ Parses q "id" :=
  isolated_iff_of_id serviceInfo (oneID_plain "id") _ .GET q "id"
    (fun u n => serviceInfoGet.act u { id := n }) (·.id) (fun _ _ => rfl) rfl rfl
    (fun h => by
      have hq := (List.cons.inj (List.cons.inj h).2).1
      exact serviceInfo_query_ne (Call.query.inj hq).1)

theorem statsSumGET_iff (q : Request) :
    Isolated statsSumAction statsSumGet q ↔ q.formErr.isSome ∨ Parses q "interfaceID" :=
  isolated_iff_of_id statsSumAction (oneID_plain "interfaceID") _ .GET q "interfaceID"
    (fun u n => statsSumGet.act u { id := n }) (·.id) (fun _ _ => rfl) rfl rfl (by decide)

theorem statsTopGET_iff (q : Request) :
    Isolated statsTopApplication statsTopGet q ↔ q.formErr.isSome ∨ Parses q "interfaceID" :=
  isolated_iff_of_id statsTopApplication (oneID_plain "interfaceID") _ .GET q "interfaceID"
    (fun u n => statsTopGet.act u { id := n }) (·.id) (fun _ _ => rfl) rfl rfl
    (by decide +kernel)

/-! ## Methods with none or several -/

theorem rolePOST_iff (q : Request) :
    Isolated role Role.post q ↔ q.formErr.isSome ∨ True :=
  isolated_iff_of role role_plain _ .DELETE q _
    (fun _ u s => by cases hu : u.isAdmin <;> simp [Role.post, Role.own, hu] <;> rfl)
    (fun _ => trivial)

/-- A key that does not parse leaves the filled receiver's value in place of zero. -/
theorem parses_of_getD {q : Request} {key : String}
    (h : (q.int? key).getD 10 = (q.int? key).getD 0) : Parses q key := by
  unfold Parses
  cases hk : q.int? key with
  | some n => rfl
  | none => simp [hk] at h

theorem resourcePOST_iff (q : Request) :
    Isolated resource Resource.post q ↔
      q.formErr.isSome ∨ (Parses q "resourceID" ∧ Parses q "roleID") := by
  refine isolated_iff_of resource resource_plain _ .POST q _ (fun hp u s => ?_) (fun hc => ?_)
  · obtain ⟨n, hn⟩ := Option.isSome_iff_exists.mp hp.1
    obtain ⟨m, hm⟩ := Option.isSome_iff_exists.mp hp.2
    simp only [Resource.post, resource_decoded, hn, hm, Option.getD_some]
  · have hcall : Call.rbac (.postRoleResource ((q.int? "roleID").getD 10)
        ((q.int? "resourceID").getD 10)) = Call.rbac (.postRoleResource ((q.int? "roleID").getD 0)
        ((q.int? "resourceID").getD 0)) := (List.cons.inj hc).1
    simp only [Call.rbac.injEq, RbacCall.postRoleResource.injEq] at hcall
    exact ⟨parses_of_getD hcall.2, parses_of_getD hcall.1⟩

theorem resourceRoleDELETE_iff (q : Request) :
    Isolated resourceRole ResourceRole.delete q ↔
      q.formErr.isSome ∨ (Parses q "resourceID" ∧ Parses q "roleID") := by
  refine isolated_iff_of resourceRole resourceRole_plain _ .DELETE q _ (fun hp u s => ?_)
    (fun hc => ?_)
  · obtain ⟨n, hn⟩ := Option.isSome_iff_exists.mp hp.1
    obtain ⟨m, hm⟩ := Option.isSome_iff_exists.mp hp.2
    simp only [ResourceRole.delete, resourceRole_decoded, hn, hm, Option.getD_some]
  · have hcall : Call.rbac (.deleteResourceRole ((q.int? "resourceID").getD 10)
        ((q.int? "roleID").getD 10)) = Call.rbac (.deleteResourceRole
        ((q.int? "resourceID").getD 0) ((q.int? "roleID").getD 0)) := (List.cons.inj hc).1
    simp only [Call.rbac.injEq, RbacCall.deleteResourceRole.injEq] at hcall
    exact ⟨parses_of_getD hcall.1, parses_of_getD hcall.2⟩

/-! ## Listings -/

/-- Whether a limit text tells the filled receiver's page from the empty one's. -/
theorem pageParses_of_text {q : Request} (text : Int → Int → String)
    (hpos : ∀ offset, text offset 10 ≠ text 0 0)
    (hoff : ∀ limit, 0 < limit → text 10 limit ≠ text 0 limit)
    (h : text ((q.int? "offset").getD 10) ((q.int? "limit").getD 10) =
      text ((q.int? "offset").getD 0) ((q.int? "limit").getD 0))
    (hzero : ∀ offset, text offset 0 = text 0 0) : PageParses q := by
  cases hl : q.int? "limit" with
  | none =>
    rw [hl, Option.getD_none, Option.getD_none, hzero] at h
    exact absurd h (hpos _)
  | some n =>
    refine ⟨n, hl, ?_⟩
    cases ho : q.int? "offset" with
    | some m => exact Or.inl (by simp [Parses, ho])
    | none =>
      right
      by_contra hn
      rw [hl, ho, Option.getD_some, Option.getD_none, Option.getD_some, Option.getD_none] at h
      exact hoff n (by omega) h

/-- With the page parsed, a limit text does not depend on the receiver. -/
theorem text_eq_of_pageParses {q : Request} (text : Int → Int → String)
    (hneg : ∀ offset offset' limit, limit ≤ 0 → text offset limit = text offset' limit)
    (h : PageParses q) (page size page' size' : Int) :
    text ((q.int? "offset").getD page) ((q.int? "limit").getD size) =
      text ((q.int? "offset").getD page') ((q.int? "limit").getD size') := by
  obtain ⟨n, hn, ho | ho⟩ := h
  · obtain ⟨m, hm⟩ := Option.isSome_iff_exists.mp ho
    simp only [hn, hm, Option.getD_some]
  · simp only [hn, Option.getD_some]
    exact hneg _ _ n ho

theorem queryLimit_neg (offset offset' limit : Int) (h : limit ≤ 0) :
    queryLimit offset limit = queryLimit offset' limit := by
  simp only [queryLimit, if_neg (Int.not_lt.mpr h), gt_iff_lt]

theorem queryLimit_pos (offset : Int) : queryLimit offset 10 ≠ queryLimit 0 0 := by
  simp [queryLimit]

theorem queryLimit_offset (limit : Int) (h : 0 < limit) :
    queryLimit 10 limit ≠ queryLimit 0 limit := by
  simp only [queryLimit, gt_iff_lt, h, if_true]
  intro he
  exact absurd ((String.append_left_inj _).mp he) (by decide)

theorem limitText_neg (offset offset' limit : Int) (h : limit ≤ 0) :
    Stmt.limitText offset limit = Stmt.limitText offset' limit := by
  simp only [Stmt.limitText, if_neg (Int.not_lt.mpr h), gt_iff_lt]

theorem limitText_pos (offset : Int) : Stmt.limitText offset 10 ≠ Stmt.limitText 0 0 := by
  simp [Stmt.limitText]

theorem limitText_offset (limit : Int) (h : 0 < limit) :
    Stmt.limitText 10 limit ≠ Stmt.limitText 0 limit := by
  simp only [Stmt.limitText, gt_iff_lt, h, if_true]
  intro he
  exact absurd ((String.append_left_inj _).mp he) (by decide)

/-- The statements of `query` tell its limit and its condition. -/
theorem query_texts {fields : List Column} {table cond cond' sort order : String}
    {offset offset' count count' : Int}
    (hs : querySelect fields table cond sort order offset count =
      querySelect fields table cond' sort order offset' count')
    (hc : cond = cond') : queryLimit offset count = queryLimit offset' count' := by
  subst hc
  exact (String.append_right_inj _).mp hs

/-- `query` depends on its limit by its text and by the count alone. -/
theorem query_congr (fields : List Column) (table cond sort order : String)
    {offset offset' count : Int} (h : queryLimit offset count = queryLimit offset' count) :
    query fields table cond sort order offset count =
      query fields table cond sort order offset' count := by
  have hs : querySelect fields table cond sort order offset count =
      querySelect fields table cond sort order offset' count := by
    simp only [querySelect, h]
  unfold query
  rw [hs]

theorem log_query (fields : List Column) (table cond sort order : String) (offset count : Int)
    (bad : String → Resp) (good : Int × List Row → Prog Answer Resp) :
    (onErr (query fields table cond sort order offset count) bad good).log Call.sample =
      .connect :: .query (querySelect fields table cond sort order offset count) [] ::
        .query (queryCount table cond) [] :: (good (0, [[.int 0]])).log Call.sample := by
  unfold query
  generalize querySelect fields table cond sort order offset count = select
  generalize queryCount table cond = total
  rfl

theorem queryCount_of_cond {table cond : String} (h : cond ≠ "") :
    queryCount table cond = "select count(*) from " ++ table ++ (" where " ++ cond) := by
  unfold queryCount
  rw [if_pos h]

theorem queryCount_inj {table cond cond' : String} (h : cond ≠ "") (h' : cond' ≠ "")
    (he : queryCount table cond = queryCount table cond') : cond = cond' := by
  rw [queryCount_of_cond h, queryCount_of_cond h'] at he
  have hwhere := (String.append_right_inj _).mp he
  exact (String.append_right_inj _).mp hwhere

/-- The two halves for a listing by `query` whose condition `cond` is made of one id. -/
theorem isolated_iff_of_query (o : Object) (ho : o.Plain) (h : Handler o.S) (m : Method)
    (q : Request) (fields : List Column) (table sort order : String) (cond : Int → String)
    (bad : String → Resp) (good : Int × List Row → Prog Answer Resp) (id page size : o.S → Int)
    (hact : ∀ u s, h.act u (h.settle u (o.decoded q s)) =
      onErr (query fields table (cond ((q.int? "interfaceID").getD (id s))) sort order
        ((q.int? "offset").getD (page s)) ((q.int? "limit").getD (size s))) bad good)
    (hzero : id o.zero = 0 ∧ page o.zero = 0 ∧ size o.zero = 0)
    (hloaded : id (o.loaded m) = 10 ∧ page (o.loaded m) = 10 ∧ size (o.loaded m) = 10)
    (hcond : ∀ n, cond n ≠ "") (hne : cond 10 ≠ cond 0) :
    Isolated o h q ↔ q.formErr.isSome ∨ (Parses q "interfaceID" ∧ PageParses q) := by
  obtain ⟨hz1, hz2, hz3⟩ := hzero
  obtain ⟨hl1, hl2, hl3⟩ := hloaded
  refine isolated_iff_of o ho h m q _ (fun hp u s => ?_) (fun hc => ?_)
  · obtain ⟨n, hn⟩ := Option.isSome_iff_exists.mp hp.1
    have hlim := text_eq_of_pageParses queryLimit queryLimit_neg hp.2 (page s) (size s)
      (page o.zero) (size o.zero)
    obtain ⟨k, hk, -⟩ := hp.2
    simp only [hk, Option.getD_some] at hlim
    simp only [hact, hn, hk, Option.getD_some, query_congr fields table _ sort order hlim]
  · simp only [Object.calls, hact, log_query, hz1, hz2, hz3, hl1, hl2, hl3, List.cons.injEq,
      Call.query.injEq, and_true, true_and] at hc
    obtain ⟨hsel, hcount⟩ := hc
    have hsame := queryCount_inj (hcond _) (hcond _) hcount
    refine ⟨?_, pageParses_of_text queryLimit queryLimit_pos queryLimit_offset
      (query_texts hsel hsame) fun _ => rfl⟩
    unfold Parses
    cases hk : q.int? "interfaceID" with
    | some n => rfl
    | none =>
      rw [hk] at hsame
      exact absurd hsame hne

theorem appInfosGET_iff (q : Request) :
    Isolated appInfos AppInfos.get q ↔
      q.formErr.isSome ∨ (Parses q "interfaceID" ∧ PageParses q) := by
  have hcond : ∀ n, ({ appInfos.decoded q {} with id := n } : AppInfos).cond ≠ "" := fun n => by
    simp [AppInfos.cond]
  refine isolated_iff_of_query appInfos appInfos_plain _ .GET q applicationColumns "application"
    (q.formValue "sort") (q.formValue "order")
    (fun n => AppInfos.cond { appInfos.decoded q {} with id := n }) .printf _
    (·.id) (·.page) (·.size) (fun _ _ => rfl) ⟨rfl, rfl, rfl⟩ ⟨rfl, rfl, rfl⟩ hcond ?_
  intro h
  simp only [AppInfos.cond] at h
  have hid := (String.append_right_inj _).mp ((String.append_left_inj _).mp h)
  exact absurd hid (by decide)

theorem statsErrorsGET_iff (q : Request) :
    Isolated statsErrors StatsErrors.get q ↔
      q.formErr.isSome ∨ (Parses q "interfaceID" ∧ PageParses q) := by
  refine isolated_iff_of_query statsErrors statsErrors_plain _ .GET q statsErrorColumns
    "stats_error,application,interface,service" (q.formValue "sort") (q.formValue "order")
    (fun n => StatsErrors.cond { id := n }) (.status 400) _
    (·.id) (·.page) (·.size) (fun _ _ => rfl) ⟨rfl, rfl, rfl⟩ ⟨rfl, rfl, rfl⟩ (fun n => ?_) ?_
  · unfold StatsErrors.cond
    split <;> simp
  · decide

/-! ## The listing of `interfaceAction` -/

/-- The list's text is the text without a page, and then the page: the order it sets is never
    written, because the sort column is never set. -/
theorem listStmt_query (i : InterfaceAction) :
    i.listStmt.sqlQuery interfaceFields =
      i.countStmt.sqlQuery interfaceFields ++ Stmt.limitText i.page i.size := by
  have hsort : i.countStmt.sort = "" := by
    unfold InterfaceAction.countStmt
    split_ifs <;> rfl
  have hplain : ({ i.countStmt with order := "", offset := 0, limit := 0 } : Stmt) =
      i.countStmt := by
    unfold InterfaceAction.countStmt
    split_ifs <;> rfl
  have hlist : ∃ order, i.listStmt =
      { i.countStmt with order := order, offset := i.page, limit := i.size } := by
    unfold InterfaceAction.listStmt
    split_ifs
    · exact ⟨_, rfl⟩
    · exact ⟨i.countStmt.order, rfl⟩
  obtain ⟨order, ho⟩ := hlist
  rw [ho, Stmt.sqlQuery_page _ hsort, hplain]

/-- `interfaceAction.GET` depends on its receiver by the service and the two statements alone. -/
theorem interfaceGet_congr (u : User) {i i' : InterfaceAction} (hid : i.serviceID = i'.serviceID)
    (hcount : i.countStmt = i'.countStmt)
    (hpage : Stmt.limitText i.page i.size = Stmt.limitText i'.page i'.size) :
    InterfaceAction.get.act u i = InterfaceAction.get.act u i' := by
  have hlist : ormQuery i.listStmt interfaceFields = ormQuery i'.listStmt interfaceFields :=
    congrArg ormRows (by rw [listStmt_query, listStmt_query, hcount, hpage])
  simp only [InterfaceAction.get, hid, hcount, hlist]

theorem log_getServiceResourceID (id : Int) (bad : String → Resp) (good : Int → Prog Answer Resp) :
    (onErr (getServiceResourceID id) bad good).log Call.sample =
      .connect :: .query ("select resource_id from service where id=" ++ toString id) [] ::
        (good 0).log Call.sample := rfl

theorem log_ormCount (s : Stmt) (bad : String → Resp) (good : Int → Prog Answer Resp) :
    (onErr (ormCount s) bad good).log Call.sample =
      .query s.sqlCount [] :: (good 0).log Call.sample := by
  unfold ormCount
  generalize s.sqlCount = sql
  rfl

theorem log_ormQuery (s : Stmt) (fields : List OrmField) (bad : String → Resp)
    (good : List Row → Prog Answer Resp) :
    (onErr (ormQuery s fields) bad good).log Call.sample =
      .query (s.sqlQuery fields) [] :: (good [[.int 0]]).log Call.sample := by
  unfold ormQuery
  generalize s.sqlQuery fields = sql
  rfl

theorem log_interfaceGet (i : InterfaceAction) :
    (InterfaceAction.get.act admin i).log Call.sample =
      [.connect, .query ("select resource_id from service where id=" ++ toString i.serviceID) [],
        .connect, .query i.countStmt.sqlCount [],
        .query (i.listStmt.sqlQuery interfaceFields) []] := by
  have hconnect : ∀ good : Unit → Prog Answer Resp,
      (onErr (ask .connect) .printf good).log Call.sample = .connect :: (good ()).log Call.sample :=
    fun _ => rfl
  simp only [InterfaceAction.get, log_getServiceResourceID, User.assert, admin, if_true, hconnect,
    log_ormCount, log_ormQuery, Prog.log_done]

theorem countStmt_search {i : InterfaceAction} (h : i.search ≠ "") :
    i.countStmt = (Stmt.new "interface").setWhere (searchCond i.search) := by
  simp only [InterfaceAction.countStmt, if_pos h]
  split_ifs <;> rfl

theorem countStmt_congr {i i' : InterfaceAction} (hid : i.serviceID = i'.serviceID)
    (hsearch : i.search = i'.search) (h : i.state = i'.state ∨ i.search ≠ "") :
    i.countStmt = i'.countStmt := by
  rcases h with hstate | hs
  · simp only [InterfaceAction.countStmt, hid, hsearch, hstate]
  · rw [countStmt_search hs, countStmt_search (hsearch ▸ hs), hsearch]

/-- Without a search the count tells whether the state was asked for. -/
theorem sqlCount_state_ne {i i' : InterfaceAction} (hs : i.search = "") (hs' : i'.search = "")
    (h : i.state = 1) (h' : i'.state = 0) : i.countStmt.sqlCount ≠ i'.countStmt.sqlCount := by
  have hi : i.countStmt = (Stmt.new "interface").setWhere "state=1" := by
    simp [InterfaceAction.countStmt, hs, h, Stmt.setWhere]
  have hi' : i'.countStmt =
      (Stmt.new "interface").setWhere ("service_id=" ++ toString i'.serviceID) := by
    simp [InterfaceAction.countStmt, hs', h']
  intro he
  rw [hi, hi', Stmt.sqlCount_setWhere _ (by decide), Stmt.sqlCount_setWhere _ (by simp)] at he
  have hwhere := (String.append_right_inj _).mp he
  have hcond := (String.append_right_inj _).mp hwhere
  -- the second letters differ
  have hletter := congrArg (fun t => t.toList.drop 1 |>.head?) hcond
  simp only [String.toList_append] at hletter
  exact absurd hletter (by simp)

theorem interfaceGET_iff (q : Request) :
    Isolated interfaceAction InterfaceAction.get q ↔ q.formErr.isSome ∨
      (Parses q "pid" ∧ PageParses q ∧ (Parses q "state" ∨ q.formValue "search" ≠ "")) := by
  refine isolated_iff_of interfaceAction interfaceAction_plain _ .DELETE q _ (fun hp u s => ?_)
    (fun hc => ?_)
  · obtain ⟨hpid, hpage, hstate⟩ := hp
    obtain ⟨n, hn⟩ := Option.isSome_iff_exists.mp hpid
    have hid : (interfaceAction.decoded q s).serviceID =
        (interfaceAction.decoded q {}).serviceID := by
      simp only [interfaceAction_decoded, hn, Option.getD_some]
    refine interfaceGet_congr u hid (countStmt_congr hid rfl ?_)
      (text_eq_of_pageParses Stmt.limitText limitText_neg hpage _ _ _ _)
    refine hstate.imp (fun hst => ?_) id
    obtain ⟨k, hk⟩ := Option.isSome_iff_exists.mp hst
    show (q.int? "state").getD _ = (q.int? "state").getD _
    rw [hk, Option.getD_some, Option.getD_some]
  · have hlog : (InterfaceAction.get.act admin (interfaceAction.decoded q
        { id := 10, state := 1, serviceID := 10, page := 10, size := 10 })).log Call.sample =
        (InterfaceAction.get.act admin (interfaceAction.decoded q {})).log Call.sample := hc
    simp only [log_interfaceGet, List.cons.injEq, Call.query.injEq, and_true, true_and] at hlog
    obtain ⟨hres, hcount, hlist⟩ := hlog
    have hpid : Parses q "pid" := by
      unfold Parses
      cases hk : q.int? "pid" with
      | some n => rfl
      | none =>
        rw [interfaceAction_decoded, interfaceAction_decoded, hk] at hres
        have hid : toString (10 : Int) = toString (0 : Int) := (String.append_right_inj _).mp hres
        exact absurd hid (by decide)
    obtain ⟨n, hn⟩ := Option.isSome_iff_exists.mp hpid
    have hstate : Parses q "state" ∨ q.formValue "search" ≠ "" := by
      by_contra hno
      obtain ⟨hst, hse⟩ := not_or.mp hno
      have hk : q.int? "state" = none := Option.not_isSome_iff_eq_none.mp hst
      refine sqlCount_state_ne (Decidable.not_not.mp hse) (Decidable.not_not.mp hse) ?_ ?_ hcount
      · rw [interfaceAction_decoded, hk, Option.getD_none]
      · rw [interfaceAction_decoded, hk, Option.getD_none]
    refine ⟨hpid, ?_, hstate⟩
    have hsame : (interfaceAction.decoded q
        { id := 10, state := 1, serviceID := 10, page := 10, size := 10 }).countStmt =
        (interfaceAction.decoded q {}).countStmt := by
      refine countStmt_congr ?_ rfl (hstate.imp (fun hst => ?_) id)
      · simp only [interfaceAction_decoded, hn, Option.getD_some]
      · obtain ⟨k, hk⟩ := Option.isSome_iff_exists.mp hst
        simp only [interfaceAction_decoded, hk, Option.getD_some]
    rw [listStmt_query, listStmt_query, hsame] at hlist
    exact pageParses_of_text Stmt.limitText limitText_pos limitText_offset
      ((String.append_right_inj _).mp hlist) fun _ => rfl

/-! ## All endpoints -/

/-- A request is isolated from the requests before it exactly when its form does not parse or
    every integer field its method uses does. -/
theorem isolated_iff (e : Endpoint) (q : Request) :
    Isolated e.object e.handler q ↔ e.Determined q := by
  cases e with
  | interfaceGET => exact interfaceGET_iff q
  | interfaceDELETE => exact interfaceDELETE_iff q
  | rolePOST => exact rolePOST_iff q
  | rolePUT => exact rolePUT_iff q
  | roleDELETE => exact roleDELETE_iff q
  | roleUserGET => exact roleUserGET_iff q
  | roleUserPOST => exact roleUserPOST_iff q
  | roleUserPUT => exact roleUserPUT_iff q
  | roleUserDELETE => exact roleUserDELETE_iff q
  | resourceGET => exact resourceGET_iff q
  | resourcePOST => exact resourcePOST_iff q
  | resourceRoleDELETE => exact resourceRoleDELETE_iff q
  | appInfosGET => exact appInfosGET_iff q
  | appInfoGET => exact appInfoGET_iff q
  | serviceInfoGET => exact serviceInfoGET_iff q
  | statsSumGET => exact statsSumGET_iff q
  | statsTopGET => exact statsTopGET_iff q
  | statsErrorsGET => exact statsErrorsGET_iff q

/-- A database with the ids of its interface rows: it deletes by id, and answers the rest with
    samples. -/
def interfaceTable (c : Call) (ids : List Int) : Answer c × List Int :=
  (c.sample, ids.filter fun id => c ≠ .exec ("delete from interface where id=" ++ toString id))

/-- After a listing request that carries id 5, a delete request without an id deletes
    interface 5. -/
theorem interfaceDELETE_repeats : ¬ Isolated interfaceAction InterfaceAction.delete ⟨none, []⟩ := by
  intro h
  have hrun := h [(.GET, .ok noUser, ⟨none, [("id", "5")]⟩)] (.ok noUser) (List Int)
    interfaceTable [5, 6]
  have hrows := congrArg Prod.snd hrun
  exact absurd hrows (by decide)

end Doodle.Manager
