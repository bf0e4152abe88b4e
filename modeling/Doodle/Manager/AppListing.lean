/-
  `app.GET` of `manager/app.go`: the listing of applications, and what it shows of their tokens.

  The handler selects the rows of `application` with all their columns, `token` among them. Before
  the rows are written as JSON a loop sets the token of each to the empty string, but the loop
  variable is a copy of the element, and the slice is written as it was selected
  (`clearTokens_eq`).

  Two tables are the same but for their tokens when their rows are equal with the tokens taken
  off. `hides_iff`: the answer to a request is the same for all such tables exactly when it is
  settled without a row of the table, or its page is empty. No text of the where clause reads the
  token (`readWhere_congr`), so an empty page stays empty; a row on the page is shown with its
  token, and another token gives another answer.

  How MySQL compares texts, the order of the rows and which statements it refuses are left open. So
  is its answer to a text that is not the statement the source meant: a search text, an email or a
  sort column can hold more than a value.
-/
import Doodle.Go.Json
import Doodle.Manager.Resources

namespace Doodle.Manager.AppListing

open Doodle.Lib Doodle.Go
open Relations (AppRow appSchema Fault)

/-! ## The request -/

/-- The struct of `app` GET. -/
structure Vars where
  name : String := ""
  email : String := ""
  sort : String := ""
  order : String := ""
  page : Int := 0
  size : Int := 0

def Vars.fields : List (Util.Field Vars) :=
  [⟨"name", "", .str fun t v => { v with name := t }⟩,
   ⟨"email", "", .str fun t v => { v with email := t }⟩,
   ⟨"sort", "", .str fun t v => { v with sort := t }⟩,
   ⟨"order", "", .str fun t v => { v with order := t }⟩,
   ⟨"offset", "", .int (·.page) fun n v => { v with page := n }⟩,
   ⟨"limit", "", .int (·.size) fun n v => { v with size := n }⟩]

/-! ## The where clause -/

/-- A condition of the where clause. -/
inductive Cond where
  | owner (email : String)
  | name (text : String)
  | email (text : String)

def Cond.text : Cond → String
  | owner e => "application.email='" ++ e ++ "'"
  | name t => " application.name like '%" ++ t ++ "%'"
  | email t => " application.email like '%" ++ t ++ "%'"

theorem append_ne {s : String} (h : s ≠ "") (t : String) : s ++ t ≠ "" :=
  fun he => h (String.append_eq_empty_iff.mp he).1

theorem Cond.text_ne (c : Cond) : c.text ≠ "" := by
  cases c with
  | owner e => exact append_ne (append_ne (by decide) e) _
  | name t => exact append_ne (append_ne (by decide) t) _
  | email t => exact append_ne (append_ne (by decide) t) _

/-- `where`, as it is put together. -/
def whereText (u : User) (v : Vars) : String :=
  let w := if u.isAdmin then "" else (Cond.owner u.email).text
  let w := if v.name ≠ "" then andThen w ++ (Cond.name v.name).text else w
  if v.email ≠ "" then andThen w ++ (Cond.email v.email).text else w

/-- The conditions of `where`. -/
def conds (u : User) (v : Vars) : List Cond :=
  (if u.isAdmin then [] else [.owner u.email]) ++ (if v.name ≠ "" then [.name v.name] else []) ++
    if v.email ≠ "" then [.email v.email] else []

theorem whereText_eq (u : User) (v : Vars) :
    whereText u v = " and ".intercalate ((conds u v).map Cond.text) := by
  have hand : ∀ s : String, s ≠ "" → andThen s = s ++ " and " := fun s hs => if_pos hs
  have hnil : andThen "" = "" := rfl
  unfold whereText conds
  by_cases ha : u.isAdmin = true <;> by_cases hn : v.name = "" <;> by_cases he : v.email = "" <;>
    simp only [ha, hn, he, ne_eq, not_true_eq_false, not_false_eq_true, if_true, if_false,
      Bool.false_eq_true, hnil, hand _ (Cond.text_ne _),
      hand _ (append_ne (append_ne (Cond.text_ne _) _) _), String.empty_append] <;>
    rfl

/-! ## The database -/

/-- What is left open of MySQL. -/
structure Mysql where
  /-- connecting, or the statement, is answered with an error -/
  refuses : String → Option String
  /-- the comparison with `=` -/
  same : String → String → Bool
  /-- the pattern and the text it is compared with -/
  like : String → String → Bool
  /-- the rows of a select in the order they come -/
  arrange : (sort order : String) → List AppRow → List AppRow
  arrange_perm : ∀ sort order rows, (arrange sort order rows).Perm rows
  /-- the answer to texts that are not the select and the count the source meant -/
  stray : (select count : String) → List AppRow → Except String (Int × List AppRow)

section Query

variable (M : Mysql)

/-- The rows a condition is true of, when its text reads. -/
def Cond.read : Cond → Except Rbac.Fault (AppRow → Bool)
  | owner e => (Rbac.literal e).map fun value r => M.same r.email value
  | name t => (Rbac.literal ("%" ++ t ++ "%")).map fun pattern r => M.like pattern r.name
  | email t => (Rbac.literal ("%" ++ t ++ "%")).map fun pattern r => M.like pattern r.email

def readWhere : List Cond → Except Rbac.Fault (AppRow → Bool)
  | [] => .ok fun _ => true
  | c :: cs => do
    let p ← c.read M
    let ps ← readWhere cs
    pure fun r => p r && ps r

/-- The fields of `meta.Application`, as the columns of `query`. -/
def columns : List Crab.Column :=
  [⟨"ID", ""⟩, ⟨"Name", ""⟩, ⟨"User", ""⟩, ⟨"Email", ""⟩, ⟨"Token", ""⟩, ⟨"Comment", ""⟩,
   ⟨"Ctime", ""⟩, ⟨"Mtime", ""⟩]

def selectText (u : User) (v : Vars) : String :=
  querySelect columns "application" (whereText u v) v.sort v.order v.page v.size

def countText (u : User) (v : Vars) : String := queryCount "application" (whereText u v)

/-- What `query` comes to before a row is read. -/
inductive Plan where
  | refused (e : String)
  | stray
  | rows (p : AppRow → Bool) (w : Window)

def plan (u : User) (v : Vars) : Plan :=
  match M.refuses (selectText u v) with
  | some e => .refused e
  | none =>
    if Rbac.plainSort v.sort v.order then
      match readWhere M (conds u v) with
      | .error _ => .stray
      | .ok p =>
        match Resources.queryWindow v.page v.size with
        | none => .refused Fault.malformed.message
        | some w => .rows p w
    else .stray

/-- The rows of the page. -/
def listed (v : Vars) (p : AppRow → Bool) (w : Window) (rows : List AppRow) : List AppRow :=
  w.page (M.arrange v.sort v.order (rows.filter p))

/-- `query("application", where, …, &apps)`: the total and the rows. A count that is refused leaves
    the total at the limit that was passed. -/
def query (u : User) (v : Vars) (rows : List AppRow) : Except String (Int × List AppRow) :=
  match plan M u v with
  | .refused e => .error e
  | .stray => M.stray (selectText u v) (countText u v) rows
  | .rows p w =>
    let total : Int :=
      if (M.refuses (countText u v)).isSome then v.size else (rows.filter p).length
    .ok (total, listed M v p w rows)

/-! ## The handler -/

/-- The variables of the loop over the tokens: the slice and the loop variable. -/
structure Loop where
  apps : List AppRow
  sa : AppRow

/-- `for _, sa := range apps { sa.Token = "" }`, the round of index `i`: the element is copied into
    `sa`, and the token of `sa` is set. -/
def Loop.round (s : Loop) (i : Nat) : Loop :=
  match s.apps[i]? with
  | some sa => { s with sa := { sa with token := "" } }
  | none => s

def zeroApp : AppRow := ⟨0, "", "", "", "", "", "", ""⟩

/-- The slice after the loop. -/
def clearTokens (apps : List AppRow) : List AppRow :=
  ((List.range apps.length).foldl Loop.round ⟨apps, zeroApp⟩).apps

/-- The JSON of `meta.Application`, which has no json tag. -/
def members : List (Json.Member AppRow) :=
  [.int "ID" (·.id) fun n r => { r with id := n },
   .str "Name" (·.name) fun t r => { r with name := t },
   .str "User" (·.user) fun t r => { r with user := t },
   .str "Email" (·.email) fun t r => { r with email := t },
   .str "Token" (·.token) fun t r => { r with token := t },
   .str "Comment" (·.comment) fun t r => { r with comment := t },
   .str "Ctime" (·.ctime) fun t r => { r with ctime := t },
   .str "Mtime" (·.mtime) fun t r => { r with mtime := t }]

/-- The JSON of the total and the rows. -/
def result (total : Int) (rows : List AppRow) : Json :=
  .obj [("total", .num total), ("rows", .arr (rows.map (Json.writeStruct members)))]

/-- What the handler writes. -/
inductive Reply where
  | resp (r : Resp)
  | json (v : Json)

/-- The handler from the answer of `query` on. -/
def answer : Except String (Int × List AppRow) → Reply
  | .error e => .resp (.printf e)
  | .ok (total, apps) =>
    if apps.isEmpty then .json (result 0 []) else .json (result total (clearTokens apps))

/-- `app.GET`. -/
def get [Collating] (user : Except String User) (q : Util.Request) (t : Table appSchema) : Reply :=
  match user with
  | .error e => .resp (.status 400 e)
  | .ok u =>
    match Util.decodeRequestValue Vars.fields (fun _ => none) q {} with
    | (some e, _) => .resp (.printf e)
    | (none, v) => answer (query M u v t.rows)

end Query

/-! ## The loop -/

theorem Loop.apps_round (s : Loop) (i : Nat) : (s.round i).apps = s.apps := by
  unfold round
  split <;> rfl

theorem Loop.apps_foldl (is : List Nat) (s : Loop) : (is.foldl round s).apps = s.apps := by
  induction is generalizing s with
  | nil => rfl
  | cons i is ih => rw [List.foldl_cons, ih, s.apps_round]

/-- The loop leaves the slice as it is. -/
theorem clearTokens_eq (apps : List AppRow) : clearTokens apps = apps :=
  Loop.apps_foldl _ _

/-! ## What an answer shows -/

theorem writeStruct_members_inj : Function.Injective (Json.writeStruct members) := by
  intro r r' h
  have hm : (members.map fun m => (m.name, m.json r)) = members.map fun m => (m.name, m.json r') :=
    Json.obj.inj h
  simp only [members, List.map_cons, List.map_nil, Json.Member.json, List.cons.injEq,
    Prod.mk.injEq, Json.num.injEq, Json.str.injEq, and_true, true_and] at hm
  obtain ⟨hid, hname, huser, hemail, htoken, hcomment, hctime, hmtime⟩ := hm
  cases r
  cases r'
  simp_all

theorem result_inj {total total' : Int} {rows rows' : List AppRow}
    (h : result total rows = result total' rows') : rows = rows' := by
  simp only [result, Json.obj.injEq, List.cons.injEq, Prod.mk.injEq, Json.arr.injEq, true_and,
    and_true] at h
  exact List.map_injective_iff.mpr writeStruct_members_inj h.2

/-- The rows of an answer are all it is given. -/
theorem answer_inj {total total' : Int} {apps apps' : List AppRow}
    (h : answer (.ok (total, apps)) = answer (.ok (total', apps'))) : apps = apps' := by
  simp only [answer, clearTokens_eq] at h
  cases apps with
  | nil =>
    cases apps' with
    | nil => rfl
    | cons a l => exact result_inj (Reply.json.inj h)
  | cons a l =>
    cases apps' with
    | nil => exact result_inj (Reply.json.inj h)
    | cons a' l' => exact result_inj (Reply.json.inj h)

/-! ## Tables that differ in tokens -/

def withoutToken (r : AppRow) : AppRow := { r with token := "" }

theorem Cond.read_congr {M : Mysql} {c : Cond} {p : AppRow → Bool} (hp : c.read M = .ok p)
    {r r' : AppRow} (hname : r.name = r'.name) (hemail : r.email = r'.email) : p r = p r' := by
  cases c with
  | owner e =>
    obtain ⟨value, -, rfl⟩ := except_map_ok hp
    simp only [hemail]
  | name t =>
    obtain ⟨pattern, -, rfl⟩ := except_map_ok hp
    simp only [hname]
  | email t =>
    obtain ⟨pattern, -, rfl⟩ := except_map_ok hp
    simp only [hemail]

/-- The where clause reads the name and the email of a row. -/
theorem readWhere_congr {M : Mysql} {cs : List Cond} {p : AppRow → Bool}
    (hp : readWhere M cs = .ok p) {r r' : AppRow} (hname : r.name = r'.name)
    (hemail : r.email = r'.email) : p r = p r' := by
  induction cs generalizing p with
  | nil => cases hp; rfl
  | cons c cs ih =>
    obtain ⟨p₁, hp₁, hrest⟩ := except_bind_ok hp
    obtain ⟨ps, hps, heq⟩ := except_bind_ok hrest
    obtain rfl := Except.ok.inj heq
    simp only [Cond.read_congr hp₁ hname hemail, ih hps]

theorem readWhere_of_plan {M : Mysql} {u : User} {v : Vars} {p : AppRow → Bool} {w : Window}
    (h : plan M u v = .rows p w) : readWhere M (conds u v) = .ok p := by
  unfold plan at h
  split at h
  · cases h
  · split at h
    · split at h
      · cases h
      · next p' hp' =>
        split at h
        · cases h
        · cases h
          exact hp'
    · cases h

section SameRows

variable {M : Mysql} {u : User} {v : Vars} {p : AppRow → Bool} {w : Window}

theorem listed_eq_nil_iff (rows : List AppRow) :
    listed M v p w rows = [] ↔ w.page (rows.filter p) = [] :=
  w.page_eq_nil_of_perm (M.arrange_perm _ _ _)

theorem mem_rows_of_listed {rows : List AppRow} {r : AppRow} (h : r ∈ listed M v p w rows) :
    r ∈ rows := by
  have hmem : r ∈ M.arrange v.sort v.order (rows.filter p) := (w.page_sublist _).subset h
  exact List.mem_of_mem_filter ((M.arrange_perm _ _ _).mem_iff.mp hmem)

/-- A page without rows is answered alike for every table. -/
theorem answer_of_page_nil (hplan : plan M u v = .rows p w) {rows : List AppRow}
    (h : w.page (rows.filter p) = []) : answer (query M u v rows) = .json (result 0 []) := by
  have hlisted : listed M v p w rows = [] := (listed_eq_nil_iff rows).mpr h
  simp only [query, hplan, hlisted]
  rfl

def renewed (r : AppRow) : AppRow := { r with token := r.token ++ "0" }

theorem renewed_ne (r : AppRow) : renewed r ≠ r := by
  intro h
  have hlen := congrArg (fun r : AppRow => r.token.length) h
  simp [renewed] at hlen

variable [Collating] {t t' : Table appSchema}

/-- The rows are the same but for their tokens. -/
def SameButTokens (t t' : Table appSchema) : Prop :=
  t.rows.map withoutToken = t'.rows.map withoutToken

theorem length_filter_of_same (hplan : plan M u v = .rows p w) (h : SameButTokens t t') :
    (t'.rows.filter p).length = (t.rows.filter p).length := by
  have hp : p ∘ withoutToken = p :=
    funext fun r => readWhere_congr (readWhere_of_plan hplan) rfl rfl
  have hmap : ∀ rows : List AppRow,
      (rows.filter p).length = ((rows.map withoutToken).filter p).length := by
    intro rows
    rw [List.filter_map, hp, List.length_map]
  rw [hmap, hmap t.rows, h]

/-! ## Another token for every row -/

/-- The table with another token in every row. -/
def renew (t : Table appSchema) : Table appSchema where
  rows := t.rows.map renewed
  next := t.next
  id_lt := by
    intro r hr
    obtain ⟨r₀, hr₀, rfl⟩ := List.mem_map.mp hr
    exact t.id_lt r₀ hr₀
  sorted := List.pairwise_map.mpr t.sorted
  nodup_key := by
    rw [List.map_map]
    exact t.nodup_key

theorem same_renew (t : Table appSchema) : SameButTokens t (renew t) := by
  show t.rows.map withoutToken = (t.rows.map renewed).map withoutToken
  rw [List.map_map]
  rfl

/-- No row is in both tables: the ids are the same, and an id has one row. -/
theorem not_mem_renew {t : Table appSchema} {r : AppRow} (h : r ∈ t.rows) :
    r ∉ (renew t).rows := by
  intro h'
  obtain ⟨r₀, hr₀, heq⟩ := List.mem_map.mp h'
  have hid : r₀.id = r.id := by rw [← heq]; rfl
  have hr : r₀ = r := t.eq_of_id hr₀ h hid
  exact renewed_ne r (hr ▸ heq)

/-! ## When the tokens are hidden -/

/-- The answer does not depend on the tokens. -/
def Hides (M : Mysql) (user : Except String User) (q : Util.Request) (t : Table appSchema) : Prop :=
  ∀ t', SameButTokens t t' → get M user q t' = get M user q t

/-- The answer is settled before a row is read, or no row is on the page, or the texts are not the
    statements of the source and what MySQL makes of them does not show the tokens. -/
def Quiet (M : Mysql) (user : Except String User) (q : Util.Request) (t : Table appSchema) : Prop :=
  match user with
  | .error _ => True
  | .ok u =>
    match Util.decodeRequestValue Vars.fields (fun _ => none) q {} with
    | (some _, _) => True
    | (none, v) =>
      match plan M u v with
      | .refused _ => True
      | .stray => ∀ t', SameButTokens t t' →
        answer (M.stray (selectText u v) (countText u v) t'.rows) =
          answer (M.stray (selectText u v) (countText u v) t.rows)
      | .rows p w => w.page (t.rows.filter p) = []

/-- A row on the page is told apart from itself with another token. -/
theorem answer_renew_ne (hplan : plan M u v = .rows p w) {t : Table appSchema}
    (h : w.page (t.rows.filter p) ≠ []) :
    answer (query M u v (renew t).rows) ≠ answer (query M u v t.rows) := by
  intro heq
  simp only [query, hplan] at heq
  have hrows : listed M v p w (renew t).rows = listed M v p w t.rows := answer_inj heq
  have hne : listed M v p w t.rows ≠ [] := fun hnil => h ((listed_eq_nil_iff _).mp hnil)
  obtain ⟨r, hr⟩ := List.exists_mem_of_ne_nil _ hne
  exact not_mem_renew (mem_rows_of_listed hr) (mem_rows_of_listed (hrows ▸ hr))

theorem quiet_of_hides {M : Mysql} {user : Except String User} {q : Util.Request}
    {t : Table appSchema} (h : Hides M user q t) : Quiet M user q t := by
  unfold Hides get at h
  unfold Quiet
  cases user with
  | error e => trivial
  | ok u =>
    cases hd : Util.decodeRequestValue Vars.fields (fun _ => none) q {} with
    | mk e v =>
      simp only [hd] at h
      cases e with
      | some e => trivial
      | none =>
        simp only at h ⊢
        cases hplan : plan M u v with
        | refused e => trivial
        | stray =>
          intro t' ht'
          have hsame := h t' ht'
          simpa only [query, hplan] using hsame
        | rows p w =>
          by_contra hne
          exact answer_renew_ne hplan hne (h (renew t) (same_renew t))

theorem hides_of_quiet {M : Mysql} {user : Except String User} {q : Util.Request}
    {t : Table appSchema} (h : Quiet M user q t) : Hides M user q t := by
  intro t' hsame
  unfold Quiet at h
  unfold get
  cases user with
  | error e => rfl
  | ok u =>
    cases hd : Util.decodeRequestValue Vars.fields (fun _ => none) q {} with
    | mk e v =>
      simp only [hd] at h ⊢
      cases e with
      | some e => rfl
      | none =>
        simp only at h ⊢
        cases hplan : plan M u v with
        | refused e => simp only [query, hplan]
        | stray =>
          simp only [hplan] at h
          simpa only [query, hplan] using h t' hsame
        | rows p w =>
          simp only [hplan] at h
          have hlen := length_filter_of_same hplan hsame
          rw [answer_of_page_nil hplan h,
            answer_of_page_nil hplan ((w.page_eq_nil_of_length hlen).mpr h)]

/-- The listing hides the tokens exactly when it shows no row. -/
theorem hides_iff (M : Mysql) (user : Except String User) (q : Util.Request)
    (t : Table appSchema) : Hides M user q t ↔ Quiet M user q t :=
  ⟨quiet_of_hides, hides_of_quiet⟩

end SameRows

/-- A MySQL that takes every statement and keeps the order of the table. -/
def steady : Mysql where
  refuses _ := none
  same s t := s == t
  like _ _ := true
  arrange _ _ rows := rows
  arrange_perm _ _ _ := List.Perm.refl _
  stray _ _ _ := .error ""

section Examples

attribute [local instance] asciiCi

def oneApp : Table appSchema where
  rows := [⟨1, "shop", "a@b", "ann", "", "c2VjcmV0", "", ""⟩]
  next := 2
  id_lt := by decide
  sorted := by decide
  nodup_key := by decide

/-- Any user who lists their own application reads its token. -/
theorem listing_shows_token : ¬ Hides steady (.ok ⟨"a@b", "ann", false, []⟩) ⟨none, []⟩ oneApp := by
  intro h
  exact List.cons_ne_nil _ _ (quiet_of_hides h)

end Examples

end Doodle.Manager.AppListing
