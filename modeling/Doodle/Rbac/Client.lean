/-
  The client of `util/rbac`: the requests its methods send, and what the rbac server decodes of them.

  A method splices its arguments into the query of the URL, or encodes them as a form in the body.
  Only `post` sets a Content-Type, so the body of a PUT is not read. `getHandler` is the table of
  `ServerInit`, and `decode` what a handler takes from a request before it does anything else
  (`read_eq_of_decode`, `write_eq_of_decode`).

  `agrees_iff`: a request arrives at a handler that decodes the method's own arguments exactly when
  the spliced texts are safe, and the method is not one of three: `DeleteUser` has no handler,
  `DeleteRole` sends its id under another key, and `PutRole` sends nothing that is read.
-/
import Doodle.Go.Query
import Doodle.Rbac.Server

namespace Doodle.Rbac.Client

open Doodle.Go Doodle.Util

/-! ## Requests -/

inductive Method where
  | get | post | put | delete
  deriving DecidableEq

/-- A request of the client: the pairs spliced into its query, and its body. -/
structure Sent where
  method : Method
  path : String
  query : List (String × String)
  contentType : String
  body : List Char

def formType : String := "application/x-www-form-urlencoded"

def get (path : String) (query : List (String × String)) : Sent := ⟨.get, path, query, "", []⟩

def post (path : String) (query : List (String × String)) (body : List Char) : Sent :=
  ⟨.post, path, query, formType, body⟩

/-- No Content-Type. -/
def put (path : String) (query : List (String × String)) (body : List Char) : Sent :=
  ⟨.put, path, query, "", body⟩

def delete (path : String) (query : List (String × String)) : Sent := ⟨.delete, path, query, "", []⟩

/-- `Request.ParseForm`: the body of a POST or PUT whose Content-Type says that it is a form, then
    the query. -/
def parseForm (m : Method) (contentType : String) (body query : List Char) : Util.Request :=
  let form : Values :=
    if (m = .post ∨ m = .put) ∧ contentType = formType then parseQuery body else ⟨false, []⟩
  let url := parseQuery query
  ⟨if form.err || url.err then some "invalid URL escape" else none, form.pairs ++ url.pairs⟩

/-- The request as the server gets it; `none` when none arrives. -/
def Sent.arrive (taken : List Char → Bool) (token : String) (s : Sent) : Option Rbac.Request :=
  (received taken (rawQuery s.query)).map fun query =>
    ⟨parseForm s.method s.contentType s.body query, (parseQuery query).pairs, token⟩

/-! ## The methods of `Client` -/

/-- A string argument, one character per byte. -/
structure Text where
  val : String
  isBytes : IsBytes val

/-- The methods and their arguments. -/
inductive Call where
  | getUserResources (email : Text)
  | getUserResourceIDs (email : Text)
  | getUser (email : Text)
  | postResource (name comments : Text)
  | putRole (roleID : Int64) (name comments : Text)
  | postRole (name comments user email : Text)
  | postRoleResource (roleID resID : Int64)
  | deleteResourceRole (resID roleID : Int64)
  | deleteResource (resID : Int64)
  | deleteRoleUser (roleID : Int64) (email : Text)
  | deleteRole (id : Int64) (name : Text)
  | getResourceRoles (resID : Int64)
  | getResource (resID : Int64)
  | getResourceRolesUnrelated (resID : Int64) (email : Text)
  | getRole (roleID : Int64)
  | getRoleUsers (roleID : Int64)
  | getUserRoles (email : Text)
  | postRoleUser (roleID : Int64) (user email : Text)
  | postUser (user email : Text)
  | putUser (userID : Int64) (user email : Text)
  | deleteUser (userID : Int64)

/-- `%d` and `%v` of an int64. -/
def decimal (n : Int64) : String := n.toInt.repr

def Call.sent : Call → Sent
  | .getUserResources email => get "/rbac/user/resource/" [("email", email.val)]
  | .getUserResourceIDs email => get "/rbac/user/resource/" [("email", email.val)]
  | .getUser email => get "/rbac/user/info/" [("email", email.val)]
  | .postResource name comments =>
    post "/rbac/resource/" [] (encode [("Name", name.val), ("Comments", comments.val)])
  | .putRole roleID name comments =>
    put "/rbac/role/" [] (encode [("role_id", decimal roleID), ("name", name.val),
      ("comments", comments.val)])
  | .postRole name comments user email =>
    post "/rbac/role/" [] (encode [("name", name.val), ("comments", comments.val),
      ("user", user.val), ("email", email.val)])
  | .postRoleResource roleID resID =>
    post "/rbac/role/resource/" [("role_id", decimal roleID), ("resource_id", decimal resID)] []
  | .deleteResourceRole resID roleID =>
    delete "/rbac/role/resource/" [("role_id", decimal roleID), ("resource_id", decimal resID)]
  | .deleteResource resID => delete "/rbac/resource/" [("id", decimal resID)]
  | .deleteRoleUser roleID email =>
    delete "/rbac/role/user/" [("role_id", decimal roleID), ("email", email.val)]
  | .deleteRole id name => delete "/rbac/role/" [("id", decimal id), ("name", name.val)]
  | .getResourceRoles resID =>
    get "/rbac/role/resource/" [("resource_id", decimal resID), ("api", "1")]
  | .getResource resID => get "/rbac/resource/" [("id", decimal resID)]
  | .getResourceRolesUnrelated resID email =>
    get "/rbac/resource/role/unrelated/" [("resource_id", decimal resID), ("email", email.val)]
  | .getRole roleID => get "/rbac/role/" [("role_id", decimal roleID)]
  | .getRoleUsers roleID => get "/rbac/role/user/" [("role_id", decimal roleID)]
  | .getUserRoles email => get "/rbac/user/role/" [("email", email.val)]
  | .postRoleUser roleID user email =>
    post "/rbac/role/user/"
      [("role_id", decimal roleID), ("name", user.val), ("email", email.val)] []
  | .postUser user email => post "/rbac/user/" [("name", user.val), ("email", email.val)] []
  | .putUser userID user email =>
    put "/rbac/user/" [("user_id", decimal userID), ("name", user.val), ("email", email.val)] []
  | .deleteUser userID => delete "/rbac/user/" [("user_id", decimal userID)]

/-! ## What the server makes of a request -/

/-- The handlers `ServerInit` registers. -/
inductive Endpoint where
  | read (e : ReadEndpoint)
  | write (e : WriteEndpoint)
  | userInfoGET
  | appGET
  | appPOST
  deriving DecidableEq

/-- The handler of a method and a path; every path is matched as a whole. -/
def getHandler : Method → String → Option Endpoint
  | .get, "/rbac/user/" => some (.read .userGET)
  | .post, "/rbac/user/" => some (.write .userPOST)
  | .put, "/rbac/user/" => some (.write .userPUT)
  | .get, "/rbac/user/info/" => some .userInfoGET
  | .get, "/rbac/user/role/" => some (.read .userRoleGET)
  | .get, "/rbac/role/user/" => some (.read .roleUserGET)
  | .post, "/rbac/role/user/" => some (.write .roleUserPOST)
  | .delete, "/rbac/role/user/" => some (.write .roleUserDELETE)
  | .get, "/rbac/role/resource/" => some (.read .roleResourceGET)
  | .post, "/rbac/role/resource/" => some (.write .roleResourcePOST)
  | .delete, "/rbac/role/resource/" => some (.write .roleResourceDELETE)
  | .get, "/rbac/resource/role/unrelated/" => some (.read .unrelatedGET)
  | .get, "/rbac/role/" => some (.read .roleGET)
  | .post, "/rbac/role/" => some (.write .rolePOST)
  | .put, "/rbac/role/" => some (.write .rolePUT)
  | .delete, "/rbac/role/" => some (.write .roleDELETE)
  | .get, "/rbac/app/" => some .appGET
  | .post, "/rbac/app/" => some .appPOST
  | .get, "/rbac/resource/" => some (.read .resourceGET)
  | .post, "/rbac/resource/" => some (.write .resourcePOST)
  | .delete, "/rbac/resource/" => some (.write .resourceDELETE)
  | .get, "/rbac/user/resource/" => some (.read .userResourceGET)
  | _, _ => none

/-- The variables a handler decodes, in the order of its struct. No handler decodes `userDELETE`,
    which is what `DeleteUser` asks for. -/
inductive Vars where
  | userGET (page : Page)
  | roleGET (query : Int) (id : String) (page : Page)
  | resourceGET (id query : Int) (page : Page)
  | roleUserGET (query : Int) (email : String) (roleID : Int) (page : Page)
  | roleResourceGET (api resourceID roleID : Int) (page : Page)
  | userRoleGET (query : Int) (email : String) (page : Page)
  | userResourceGET (email : String)
  | unrelatedGET (query resourceID : Int) (email : String) (page : Page)
  | userPUT (id : Int) (name email : String)
  | userPOST (name email : String)
  | rolePOST (name user email comments : String)
  | rolePUT (id : Int) (name comments : String)
  | roleDELETE (id : Int) (name : String)
  | roleUserPOST (name email : String) (roleID : Int)
  | roleUserDELETE (email : String) (roleID : Int)
  | roleResourcePOST (roleID resourceID : Int)
  | roleResourceDELETE (resourceID roleID : Int)
  | resourcePOST (name comments : String)
  | resourceDELETE (id : Int)
  | userInfoGET (email : String)
  | appGET (appID : Int) (email : String) (page : Page)
  | appPOST (name email comments : String)
  | userDELETE (id : Int)

/-- The variables of a form, when it parsed. -/
def ofForm (q : Rbac.Request) (vars : Vars) : Option Vars :=
  if q.form.formErr = none then some vars else none

/-- What a handler decodes; `none` when it answers with an error instead. Two handlers read the
    URL's query themselves and never see an error of the form. -/
def decode (q : Rbac.Request) : Endpoint → Option Vars
  | .read .userGET => ofForm q (.userGET q.page)
  | .read .roleGET => ofForm q (.roleGET (q.int "query") (q.text "role_id") q.page)
  | .read .resourceGET => ofForm q (.resourceGET (q.int "id") (q.int "query") q.page)
  | .read .roleUserGET =>
    ofForm q (.roleUserGET (q.int "query") (q.text "email") (q.int "role_id") q.page)
  | .read .roleResourceGET =>
    ofForm q (.roleResourceGET (q.int "api") (q.int "resource_id") (q.int "role_id") q.page)
  | .read .userRoleGET => ofForm q (.userRoleGET (q.int "query") (q.text "email") q.page)
  | .read .userResourceGET => some (.userResourceGET (q.urlGet "email"))
  | .read .unrelatedGET =>
    ofForm q (.unrelatedGET (q.int "query") (q.int "resource_id") (q.text "email") q.page)
  | .write .userPUT => ofForm q (.userPUT (q.int "user_id") (q.text "name") (q.text "email"))
  | .write .userPOST => ofForm q (.userPOST (q.text "name") (q.text "email"))
  | .write .rolePOST =>
    ofForm q (.rolePOST (q.text "name") (q.text "user") (q.text "email") (q.text "comments"))
  | .write .rolePUT => ofForm q (.rolePUT (q.int "role_id") (q.text "name") (q.text "comments"))
  | .write .roleDELETE => ofForm q (.roleDELETE (q.int "role_id") (q.text "name"))
  | .write .roleUserPOST =>
    ofForm q (.roleUserPOST (q.text "name") (q.text "email") (q.int "role_id"))
  | .write .roleUserDELETE => ofForm q (.roleUserDELETE (q.text "email") (q.int "role_id"))
  | .write .roleResourcePOST => ofForm q (.roleResourcePOST (q.int "role_id") (q.int "resource_id"))
  | .write .roleResourceDELETE =>
    ofForm q (.roleResourceDELETE (q.int "resource_id") (q.int "role_id"))
  | .write .resourcePOST => ofForm q (.resourcePOST (q.text "Name") (q.text "Comments"))
  | .write .resourceDELETE => (parseInt (q.urlGet "id")).map .resourceDELETE
  | .userInfoGET => ofForm q (.userInfoGET (q.text "email"))
  | .appGET => ofForm q (.appGET (q.int "app_id") (q.text "email") q.page)
  | .appPOST => ofForm q (.appPOST (q.text "name") (q.text "email") (q.text "comments"))

theorem ofForm_eq_some {q : Rbac.Request} {v v' : Vars} :
    ofForm q v = some v' ↔ q.form.formErr = none ∧ v = v' := by
  unfold ofForm
  split
  · next h => simp [h]
  · next h => simp [h]

/-- Forms that decode to the same variables. -/
theorem ofForm_inj {q q' : Rbac.Request} {v v' w : Vars} (h : ofForm q v = some w)
    (h' : ofForm q' v' = some w) : q.form.formErr = none ∧ q'.form.formErr = none ∧ v = v' := by
  obtain ⟨herr, rfl⟩ := ofForm_eq_some.mp h
  obtain ⟨herr', rfl⟩ := ofForm_eq_some.mp h'
  exact ⟨herr, herr', rfl⟩

section Handlers

variable [Lib.Collating] (C : Crypto) (my : Mysql) {q q' : Rbac.Request} {v : Vars}

/-- A handler that reads does the same with requests of one token that it decodes alike. -/
theorem read_eq_of_decode (e : ReadEndpoint) (h : decode q (.read e) = some v)
    (h' : decode q' (.read e) = some v) (ht : q.token = q'.token) :
    e.handler C my q = e.handler C my q' := by
  cases e with
  | userResourceGET =>
    have hv := Option.some.inj (h.trans h'.symm)
    simp only [Vars.userResourceGET.injEq] at hv
    simp only [ReadEndpoint.handler, userResourceGET, withToken, ht, hv]
  | _ =>
    obtain ⟨herr, herr', hv⟩ := ofForm_inj h h'
    injection hv
    simp only [ReadEndpoint.handler, userGET, roleGET, resourceGET, roleUserGET, roleResourceGET,
      userRoleGET, unrelatedGET, withForm, withToken, *]

/-- A handler that writes does the same with requests of one token that it decodes alike. -/
theorem write_eq_of_decode (e : WriteEndpoint) (h : decode q (.write e) = some v)
    (h' : decode q' (.write e) = some v) (ht : q.token = q'.token) :
    e.handler C my q = e.handler C my q' := by
  cases e with
  | resourceDELETE =>
    obtain ⟨id, hid, hv⟩ := Option.map_eq_some_iff.mp h
    obtain ⟨id', hid', hv'⟩ := Option.map_eq_some_iff.mp h'
    obtain rfl : id = id' := by
      injection hv.trans hv'.symm
    simp only [WriteEndpoint.handler, resourceDELETE, withToken, ht, hid, hid']
  | _ =>
    obtain ⟨herr, herr', hv⟩ := ofForm_inj h h'
    injection hv
    simp only [WriteEndpoint.handler, userPUT, userPOST, rolePOST, rolePUT, roleDELETE,
      roleUserPOST, roleUserDELETE, roleResourcePOST, roleResourceDELETE, resourcePOST, withForm,
      withToken, *]

end Handlers

/-! ## Agreement -/

/-- The page of a request that asks for none. -/
def noPage : Page := ⟨"", "", 0, 0⟩

/-- The arguments of a method as the variables they are meant for; nothing else is asked for, except
    the bare rows of `getResourceRoles`. -/
def Call.vars : Call → Vars
  | .getUserResources email => .userResourceGET email.val
  | .getUserResourceIDs email => .userResourceGET email.val
  | .getUser email => .userInfoGET email.val
  | .postResource name comments => .resourcePOST name.val comments.val
  | .putRole roleID name comments => .rolePUT roleID.toInt name.val comments.val
  | .postRole name comments user email => .rolePOST name.val user.val email.val comments.val
  | .postRoleResource roleID resID => .roleResourcePOST roleID.toInt resID.toInt
  | .deleteResourceRole resID roleID => .roleResourceDELETE resID.toInt roleID.toInt
  | .deleteResource resID => .resourceDELETE resID.toInt
  | .deleteRoleUser roleID email => .roleUserDELETE email.val roleID.toInt
  | .deleteRole id name => .roleDELETE id.toInt name.val
  | .getResourceRoles resID => .roleResourceGET 1 resID.toInt 0 noPage
  | .getResource resID => .resourceGET resID.toInt 0 noPage
  | .getResourceRolesUnrelated resID email => .unrelatedGET 0 resID.toInt email.val noPage
  | .getRole roleID => .roleGET 0 (decimal roleID) noPage
  | .getRoleUsers roleID => .roleUserGET 0 "" roleID.toInt noPage
  | .getUserRoles email => .userRoleGET 0 email.val noPage
  | .postRoleUser roleID user email => .roleUserPOST user.val email.val roleID.toInt
  | .postUser user email => .userPOST user.val email.val
  | .putUser userID user email => .userPUT userID.toInt user.val email.val
  | .deleteUser userID => .userDELETE userID.toInt

/-- The request reaches a registered handler, which decodes the arguments of the method. -/
def Agrees (taken : List Char → Bool) (token : String) (c : Call) : Prop :=
  ∃ q e, c.sent.arrive taken token = some q ∧ getHandler c.sent.method c.sent.path = some e ∧
    decode q e = some c.vars

/-! ## Requests that arrive -/

/-- The request the server gets, if it gets one. -/
def Sent.request (token : String) (s : Sent) : Rbac.Request :=
  ⟨parseForm s.method s.contentType s.body ((rawQuery s.query).takeWhile (!endsTarget ·)),
    (parsed s.query).pairs, token⟩

section Arrive

variable {taken : List Char → Bool} {token : String} {s : Sent} {q : Rbac.Request}

theorem eq_request_of_arrive (h : s.arrive taken token = some q) : q = s.request token := by
  unfold Sent.arrive received at h
  split at h
  · exact (Option.some.inj h).symm
  · cases h

theorem arrive_of_safe (hkeys : ∀ kv ∈ s.query, PlainKey kv.1) (hsafe : ∀ kv ∈ s.query, Safe kv.2) :
    s.arrive taken token = some (s.request token) := by
  rw [Sent.arrive, received_of_safe taken hkeys hsafe]
  rfl

/-- Without a body the form is the query. -/
theorem request_eq (hbody : s.body = []) : s.request token =
    ⟨⟨if (parsed s.query).err then some "invalid URL escape" else none, (parsed s.query).pairs⟩,
      (parsed s.query).pairs, token⟩ := by
  unfold Sent.request parseForm
  rw [hbody, parseQuery_nil, ite_self]
  rfl

theorem request_of_safe (hbody : s.body = []) (hkeys : ∀ kv ∈ s.query, PlainKey kv.1)
    (hsafe : ∀ kv ∈ s.query, Safe kv.2) :
    s.request token = ⟨⟨none, s.query⟩, s.query, token⟩ := by
  rw [request_eq hbody, parseQuery_of_safe hkeys hsafe]
  rfl

/-- A query whose texts the form gives back has safe texts. -/
theorem safe_of_form (hbody : s.body = []) (hkeys : ∀ kv ∈ s.query, PlainKey kv.1)
    (hnodup : (s.query.map Prod.fst).Nodup) (herr : (s.request token).form.formErr = none)
    (hvals : ∀ kv ∈ s.query, Safe kv.2 ∨ (s.request token).text kv.1 = kv.2) :
    ∀ kv ∈ s.query, Safe kv.2 := by
  rw [request_eq hbody] at herr hvals
  refine safe_of_values hkeys hnodup ?_ hvals
  cases hp : (parsed s.query).err with
  | false => rfl
  | true =>
    rw [hp] at herr
    cases herr

end Arrive

/-! ## Each method -/

@[simp] theorem parseInt_decimal (n : Int64) : parseInt (decimal n) = some n.toInt :=
  parseInt_repr n.le_toInt n.toInt_lt

theorem safe_decimal (n : Int64) : Safe (decimal n) := safe_repr n.toInt

section Read

variable (ps url : List (String × String)) (err : Option String) (token key : String)

@[simp] theorem text_mk : Rbac.Request.text ⟨⟨err, ps⟩, url, token⟩ key = getFirst ps key := rfl

@[simp] theorem int_mk :
    Rbac.Request.int ⟨⟨err, ps⟩, url, token⟩ key = (parseInt (getFirst ps key)).getD 0 := rfl

@[simp] theorem urlGet_mk : Rbac.Request.urlGet ⟨⟨err, ps⟩, url, token⟩ key = getFirst url key := rfl

@[simp] theorem getFirst_nil : getFirst [] key = "" := rfl

@[simp] theorem getFirst_cons (k v : String) :
    getFirst ((k, v) :: ps) key = if k = key then v else getFirst ps key := by
  by_cases h : k = key
  · simp [getFirst, h]
  · simp [getFirst, h]

@[simp] theorem parseInt_empty : parseInt "" = none := by decide

@[simp] theorem parseInt_one : parseInt "1" = some 1 := by decide

end Read

/-- The keys of every query stand for themselves and are distinct. -/
theorem query_keys (c : Call) : (∀ k ∈ c.sent.query.map Prod.fst, PlainKey k) ∧
    (c.sent.query.map Prod.fst).Nodup := by
  cases c <;> simp only [Call.sent, get, post, put, delete, List.map_cons, List.map_nil] <;> decide

theorem plainKey_of_mem {c : Call} : ∀ kv ∈ c.sent.query, PlainKey kv.1 :=
  fun _ hkv => (query_keys c).1 _ (List.mem_map_of_mem hkv)

section Methods

variable {taken : List Char → Bool} {token : String} {c : Call} {e : Endpoint}

/-- A method that sends a query of safe texts agrees when the handler decodes the pairs right. -/
theorem agrees_of_safe (hbody : c.sent.body = [])
    (he : getHandler c.sent.method c.sent.path = some e)
    (hgood : decode ⟨⟨none, c.sent.query⟩, c.sent.query, token⟩ e = some c.vars)
    (hsafe : ∀ kv ∈ c.sent.query, Safe kv.2) : Agrees taken token c :=
  ⟨_, e, arrive_of_safe plainKey_of_mem hsafe, he,
    request_of_safe hbody plainKey_of_mem hsafe ▸ hgood⟩

/-- A method that sends a query agrees exactly when its texts are safe, if the handler reads the
    form, decodes the pairs right and gives the texts back. -/
theorem agrees_iff_safe {v : Rbac.Request → Vars} (hbody : c.sent.body = [])
    (he : getHandler c.sent.method c.sent.path = some e)
    (hform : ∀ q, decode q e = ofForm q (v q))
    (hgood : v ⟨⟨none, c.sent.query⟩, c.sent.query, token⟩ = c.vars)
    (hback : ∀ q, v q = c.vars → ∀ kv ∈ c.sent.query, Safe kv.2 ∨ q.text kv.1 = kv.2) :
    Agrees taken token c ↔ ∀ kv ∈ c.sent.query, Safe kv.2 := by
  refine ⟨?_, agrees_of_safe hbody he ((hform _).trans (ofForm_eq_some.mpr ⟨rfl, hgood⟩))⟩
  rintro ⟨q, e', harr, he', hdec⟩
  obtain rfl := eq_request_of_arrive harr
  obtain rfl := Option.some.inj (he.symm.trans he')
  obtain ⟨herr, hvars⟩ := ofForm_eq_some.mp ((hform _).symm.trans hdec)
  exact safe_of_form hbody plainKey_of_mem (query_keys c).2 herr (hback _ hvars)

end Methods

/-- The condition under which a method's request arrives as it is meant. -/
def Call.Fits : Call → Prop
  | .getUserResources email => Safe email.val
  | .getUserResourceIDs email => Safe email.val
  | .getUser email => Safe email.val
  | .getUserRoles email => Safe email.val
  | .deleteRoleUser _ email => Safe email.val
  | .getResourceRolesUnrelated _ email => Safe email.val
  | .postRoleUser _ user email => Safe user.val ∧ Safe email.val
  | .putUser _ user email => Safe user.val ∧ Safe email.val
  | .postUser user email => Safe user.val ∧ Safe email.val
  | .deleteRole id name => id = 0 ∧ Safe name.val
  | .putRole roleID name comments => roleID = 0 ∧ name.val = "" ∧ comments.val = ""
  | .deleteUser _ => False
  | _ => True

section Cases

variable {taken : List Char → Bool} {token : String}

/-- The handler reads the URL's query, whatever the form comes to. -/
theorem agrees_getUserResources (email : Text) :
    Agrees taken token (.getUserResources email) ↔ Safe email.val := by
  constructor
  · rintro ⟨q, e, harr, he, hdec⟩
    obtain rfl := eq_request_of_arrive harr
    obtain rfl : .read .userResourceGET = e := Option.some.inj he
    have hemail := Option.some.inj hdec
    rw [request_eq rfl] at hemail
    simp only [urlGet_mk, Call.vars, Vars.userResourceGET.injEq] at hemail
    exact safe_of_getFirst (by decide) hemail
  · intro h
    refine agrees_of_safe (e := .read .userResourceGET) rfl rfl ?_ ?_
    · simp [Call.sent, get, Call.vars, decode]
    · simpa [Call.sent, get] using h

/-- The id is sent as `id` and read as `role_id`. -/
theorem agrees_deleteRole (id : Int64) (name : Text) :
    Agrees taken token (.deleteRole id name) ↔ id = 0 ∧ Safe name.val := by
  have hread : Safe name.val → ∀ token, (Call.deleteRole id name).sent.request token =
      ⟨⟨none, [("id", decimal id), ("name", name.val)]⟩, [("id", decimal id), ("name", name.val)],
        token⟩ := fun h _ => request_of_safe rfl plainKey_of_mem
    (by simpa [Call.sent, delete, safe_decimal] using h)
  constructor
  · rintro ⟨q, e, harr, he, hdec⟩
    obtain rfl := eq_request_of_arrive harr
    obtain rfl : .write .roleDELETE = e := Option.some.inj he
    obtain ⟨herr, hvars⟩ := ofForm_eq_some.mp hdec
    simp only [Call.vars, Vars.roleDELETE.injEq] at hvars
    have hsafe : Safe name.val := by
      refine safe_of_form (s := (Call.deleteRole id name).sent) rfl plainKey_of_mem
        (query_keys _).2 herr ?_ ("name", name.val) (by simp [Call.sent, delete])
      simp [Call.sent, delete, safe_decimal] at hvars ⊢
      exact Or.inr hvars.2
    rw [hread hsafe] at hvars
    simp at hvars
    exact ⟨Int64.toInt_inj.mp hvars.symm, hsafe⟩
  · rintro ⟨rfl, h⟩
    refine agrees_of_safe (e := .write .roleDELETE) rfl rfl ?_ ?_
    · simp [Call.sent, delete, Call.vars, decode, ofForm]
    · simpa [Call.sent, delete, safe_decimal] using h

/-- The body of a PUT without a Content-Type is not read. -/
theorem request_put (path : String) (body : List Char) :
    (put path [] body).request token = ⟨⟨none, []⟩, [], token⟩ := by
  have htype : "" ≠ formType := by decide
  simp only [Sent.request, parseForm, put, htype, and_false, if_false]
  rfl

theorem agrees_putRole (roleID : Int64) (name comments : Text) :
    Agrees taken token (.putRole roleID name comments) ↔
      roleID = 0 ∧ name.val = "" ∧ comments.val = "" := by
  constructor
  · rintro ⟨q, e, harr, he, hdec⟩
    obtain rfl := eq_request_of_arrive harr
    obtain rfl : .write .rolePUT = e := Option.some.inj he
    rw [Call.sent, request_put] at hdec
    obtain ⟨-, hvars⟩ := ofForm_eq_some.mp hdec
    simp only [int_mk, text_mk, getFirst_nil, parseInt_empty, Option.getD_none, Call.vars,
      Vars.rolePUT.injEq] at hvars
    exact ⟨Int64.toInt_inj.mp hvars.1.symm, hvars.2.1.symm, hvars.2.2.symm⟩
  · rintro ⟨rfl, hname, hcomments⟩
    refine ⟨_, .write .rolePUT, arrive_of_safe (fun _ h => by cases h) (fun _ h => by cases h), rfl,
      ?_⟩
    rw [Call.sent, request_put]
    simp [decode, ofForm, Call.vars, hname, hcomments]

/-- A form in the body of a POST arrives, whatever the texts are. -/
theorem request_post (path : String) {ps : List (String × String)}
    (h : ∀ kv ∈ ps, IsBytes kv.1 ∧ IsBytes kv.2) : (post path [] (encode ps)).request token =
      ⟨⟨none, (parseQuery (encode ps)).pairs⟩, [], token⟩ := by
  simp [Sent.request, parseForm, post, parseQuery_encode h, rawQuery, parsed]

theorem agrees_postResource (name comments : Text) :
    Agrees taken token (.postResource name comments) := by
  have hbytes : ∀ kv ∈ [("Name", name.val), ("Comments", comments.val)],
      IsBytes kv.1 ∧ IsBytes kv.2 := by
    simp only [List.forall_mem_cons, name.isBytes, comments.isBytes, and_true]
    decide
  have hget := @getFirst_encode _ hbytes (by simp)
  refine ⟨_, .write .resourcePOST, arrive_of_safe (fun _ h => by cases h) (fun _ h => by cases h),
    rfl, ?_⟩
  rw [Call.sent, request_post _ hbytes]
  simp [decode, ofForm, Call.vars, hget]

theorem agrees_postRole (name comments user email : Text) :
    Agrees taken token (.postRole name comments user email) := by
  have hbytes : ∀ kv ∈ [("name", name.val), ("comments", comments.val), ("user", user.val),
      ("email", email.val)], IsBytes kv.1 ∧ IsBytes kv.2 := by
    simp only [List.forall_mem_cons, name.isBytes, comments.isBytes, user.isBytes, email.isBytes,
      and_true]
    decide
  have hget := @getFirst_encode _ hbytes (by simp)
  refine ⟨_, .write .rolePOST, arrive_of_safe (fun _ h => by cases h) (fun _ h => by cases h),
    rfl, ?_⟩
  rw [Call.sent, request_post _ hbytes]
  simp [decode, ofForm, Call.vars, hget]

end Cases

/-- The request of a method reaches a handler that decodes its arguments exactly when it fits. -/
theorem agrees_iff (taken : List Char → Bool) (token : String) (c : Call) :
    Agrees taken token c ↔ c.Fits := by
  cases c with
  | getUserResources email => exact agrees_getUserResources email
  | getUserResourceIDs email => exact agrees_getUserResources email
  | getUser email =>
    rw [agrees_iff_safe (e := .userInfoGET) rfl rfl fun _ => rfl]
    · simp [Call.sent, get, Call.Fits]
    · simp [Call.sent, get, Call.vars]
    · intro q hv
      simp only [Call.vars, Vars.userInfoGET.injEq] at hv
      simp [Call.sent, get, hv]
  | getUserRoles email =>
    rw [agrees_iff_safe (e := .read .userRoleGET) rfl rfl fun _ => rfl]
    · simp [Call.sent, get, Call.Fits]
    · simp [Call.sent, get, Call.vars, Rbac.Request.page, noPage]
    · intro q hv
      simp only [Call.vars, Vars.userRoleGET.injEq] at hv
      simp [Call.sent, get, hv.2.1]
  | deleteRoleUser roleID email =>
    rw [agrees_iff_safe (e := .write .roleUserDELETE) rfl rfl fun _ => rfl]
    · simp [Call.sent, delete, Call.Fits, safe_decimal]
    · simp [Call.sent, delete, Call.vars]
    · intro q hv
      simp only [Call.vars, Vars.roleUserDELETE.injEq] at hv
      simp [Call.sent, delete, safe_decimal, hv.1]
  | getResourceRolesUnrelated resID email =>
    rw [agrees_iff_safe (e := .read .unrelatedGET) rfl rfl fun _ => rfl]
    · simp [Call.sent, get, Call.Fits, safe_decimal]
    · simp [Call.sent, get, Call.vars, Rbac.Request.page, noPage]
    · intro q hv
      simp only [Call.vars, Vars.unrelatedGET.injEq] at hv
      simp [Call.sent, get, safe_decimal, hv.2.2.1]
  | postRoleUser roleID user email =>
    rw [agrees_iff_safe (e := .write .roleUserPOST) rfl rfl fun _ => rfl]
    · simp [Call.sent, post, Call.Fits, safe_decimal]
    · simp [Call.sent, post, Call.vars]
    · intro q hv
      simp only [Call.vars, Vars.roleUserPOST.injEq] at hv
      simp [Call.sent, post, safe_decimal, hv.1, hv.2.1]
  | putUser userID user email =>
    rw [agrees_iff_safe (e := .write .userPUT) rfl rfl fun _ => rfl]
    · simp [Call.sent, put, Call.Fits, safe_decimal]
    · simp [Call.sent, put, Call.vars]
    · intro q hv
      simp only [Call.vars, Vars.userPUT.injEq] at hv
      simp [Call.sent, put, safe_decimal, hv.2.1, hv.2.2]
  | postUser user email =>
    rw [agrees_iff_safe (e := .write .userPOST) rfl rfl fun _ => rfl]
    · simp [Call.sent, post, Call.Fits]
    · simp [Call.sent, post, Call.vars]
    · intro q hv
      simp only [Call.vars, Vars.userPOST.injEq] at hv
      simp [Call.sent, post, hv.1, hv.2]
  | deleteRole id name => exact agrees_deleteRole id name
  | putRole roleID name comments => exact agrees_putRole roleID name comments
  | deleteUser userID =>
    refine iff_of_false ?_ id
    rintro ⟨q, e, -, he, -⟩
    cases he
  | postResource name comments => exact iff_of_true (agrees_postResource name comments) trivial
  | postRole name comments user email =>
    exact iff_of_true (agrees_postRole name comments user email) trivial
  | postRoleResource roleID resID =>
    refine iff_of_true (agrees_of_safe (e := .write .roleResourcePOST) rfl rfl ?_ ?_) trivial
    · simp [Call.sent, post, Call.vars, decode, ofForm]
    · simp [Call.sent, post, safe_decimal]
  | deleteResourceRole resID roleID =>
    refine iff_of_true (agrees_of_safe (e := .write .roleResourceDELETE) rfl rfl ?_ ?_) trivial
    · simp [Call.sent, delete, Call.vars, decode, ofForm]
    · simp [Call.sent, delete, safe_decimal]
  | deleteResource resID =>
    refine iff_of_true (agrees_of_safe (e := .write .resourceDELETE) rfl rfl ?_ ?_) trivial
    · simp [Call.sent, delete, Call.vars, decode]
    · simp [Call.sent, delete, safe_decimal]
  | getResourceRoles resID =>
    refine iff_of_true (agrees_of_safe (e := .read .roleResourceGET) rfl rfl ?_ ?_) trivial
    · simp [Call.sent, get, Call.vars, decode, ofForm, Rbac.Request.page, noPage]
    · have hone : Safe "1" := by decide
      simp [Call.sent, get, safe_decimal, hone]
  | getResource resID =>
    refine iff_of_true (agrees_of_safe (e := .read .resourceGET) rfl rfl ?_ ?_) trivial
    · simp [Call.sent, get, Call.vars, decode, ofForm, Rbac.Request.page, noPage]
    · simp [Call.sent, get, safe_decimal]
  | getRole roleID =>
    refine iff_of_true (agrees_of_safe (e := .read .roleGET) rfl rfl ?_ ?_) trivial
    · simp [Call.sent, get, Call.vars, decode, ofForm, Rbac.Request.page, noPage]
    · simp [Call.sent, get, safe_decimal]
  | getRoleUsers roleID =>
    refine iff_of_true (agrees_of_safe (e := .read .roleUserGET) rfl rfl ?_ ?_) trivial
    · simp [Call.sent, get, Call.vars, decode, ofForm, Rbac.Request.page, noPage]
    · simp [Call.sent, get, safe_decimal]

/-- The id of the role to delete does not arrive. -/
theorem role_id_lost : ¬ ∃ taken token, Agrees taken token (.deleteRole 7 ⟨"", by decide⟩) := by
  rintro ⟨taken, token, h⟩
  exact absurd ((agrees_deleteRole 7 _).mp h).1 (by decide)

end Doodle.Rbac.Client
