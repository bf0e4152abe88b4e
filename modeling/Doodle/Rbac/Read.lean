/-
  What a read of one application shows of the others.

  `readIsolated_iff`: the responses of a reading endpoint depend on the rows of the application
  only, and a request whose token does not decode gets no row, exactly when the form does not
  parse or the request is one of the few that `ReadSafe` lists. The joins name the application
  only for `role_user` and `role_resource`, `user/resource` looks at memberships of every
  application, `resource/role/unrelated` names none, and `user` compares the application id with
  the user id. What is left are the queries on one table that name the application, and pages
  that are rejected or empty for every database.

  The queries with a page have one shape, `listing`: a page of rows and a total, and an answer
  made from the two. The rules for `listing` say when it is isolated and when it leaks.
-/
import Doodle.Rbac.Frame

namespace Doodle.Rbac

open Doodle.Lib Doodle.Util Doodle.Go

/-! ## Pages -/

theorem parse_of {p : Page} {qy : Query String} {w : Query Int} (hq : qy.parse = .ok w)
    (hp : plainSort p.sort p.order = true) :
    (p.of qy).parse = if p.limit > 0 ∧ p.offset < 0 then .error .malformed else .ok w := by
  simp only [Page.of, Select.parse, hq, hp]
  rfl

theorem parse_of_injected {p : Page} {qy : Query String}
    (h : qy.parse = .error .injected ∨ (∃ w, qy.parse = .ok w) ∧ plainSort p.sort p.order = false) :
    (p.of qy).parse = .error .injected := by
  rcases h with h | ⟨⟨w, h⟩, hp⟩
  · simp only [Page.of, Select.parse, h]
  · simp only [Page.of, Select.parse, h, hp, if_true]

theorem page_of (p : Page) (qy : Query String) (rows : List Row) : (p.of qy).page rows =
    if p.limit > 0 then (rows.drop p.offset.toNat).take p.limit.toNat else rows := rfl

variable [Collating]

/-! ## Two runs -/

/-- The response does not depend on the rows of other applications. -/
def Isolates (appID : Int) (read : Mysql → Db → Resp) : Prop :=
  ∀ my (db db' : Db), db.Agree (· = appID) db' → read my db = read my db'

theorem select_congr {my : Mysql} {s : Select} {db db' : Db}
    (hs : s.parse ≠ .error .injected) (hrows : ∀ w, s.parse = .ok w → w.rows db = w.rows db') :
    select my s db = select my s db' := by
  unfold select
  cases my.down (.select s) with
  | some e => rfl
  | none =>
    cases h : s.parse with
    | ok w => simp only [hrows w h]
    | error f =>
      cases f with
      | injected => exact absurd h hs
      | _ => rfl

/-! ## Listings -/

/-- A page of a query, answered with `good`. -/
def listing (p : Page) (qy : Query String) (code : Int) (good : Int × List Row → Resp)
    (my : Mysql) (db : Db) : Resp :=
  answer (query my (p.of qy) db) code good

/-- The answer shows the rows it is given, and is never an error of MySQL. -/
structure Shows (good : Int × List Row → Resp) : Prop where
  rows : ∀ total rows, total ≠ 0 → rows ≠ [] → (good (total, rows)).rows = rows
  none : ∀ total, (good (total, [])).rows = []
  fault : ∀ x code f, good x ≠ .status code (.fault f)

section Listing

variable {p : Page} {qy : Query String} {w : Query Int} {code : Int}
  {good : Int × List Row → Resp} {appID : Int}

/-- A page that is rejected is answered alike for every database. -/
theorem listing_of_rejected (hq : qy.parse = .ok w) (hp : plainSort p.sort p.order = true)
    (hrej : p.limit > 0 ∧ p.offset < 0) (my : Mysql) :
    ∃ f, ∀ db, listing p qy code good my db = .status code (.fault f) := by
  have hs : (p.of qy).parse = .error .malformed := by rw [parse_of hq hp, if_pos hrej]
  cases hd : my.down (.select (p.of qy)) with
  | some e => exact ⟨.down e, fun db => by simp only [listing, query, select, hd]; rfl⟩
  | none => exact ⟨.malformed, fun db => by simp only [listing, query, select, hd, hs]; rfl⟩

theorem isolates_of_rejected (hq : qy.parse = .ok w) (hp : plainSort p.sort p.order = true)
    (hrej : p.limit > 0 ∧ p.offset < 0) : Isolates appID (listing p qy code good) := by
  intro my db db' _
  obtain ⟨f, hf⟩ : ∃ f, ∀ db, listing p qy code good my db = .status code (.fault f) :=
    listing_of_rejected hq hp hrej my
  rw [hf, hf]

/-- The rows are rows of the application. -/
theorem isolates_of_rows (hq : qy.parse = .ok w) (hp : plainSort p.sort p.order = true)
    (hrows : ∀ db db', Db.Agree (· = appID) db db' → w.rows db = w.rows db') :
    Isolates appID (listing p qy code good) := by
  intro my db db' hagree
  have hr := hrows db db' hagree
  have hselect : select my (p.of qy) db = select my (p.of qy) db' := by
    refine select_congr ?_ fun w' hw' => ?_
    · rw [parse_of hq hp]
      split <;> exact fun h => by cases h
    · rw [parse_of hq hp] at hw'
      split at hw' <;> cases hw'
      exact hr
  have htotal : total my (p.of qy) db = total my (p.of qy) db' := by
    have hcount : count my qy db = count my qy db' := by
      simp only [count, hq, hr]
    simp only [total, Page.of, hcount]
  simp only [listing, query, hselect, htotal]

/-- At most one row is found, and the page starts behind it. -/
theorem isolates_of_behind (hq : qy.parse = .ok w) (hp : plainSort p.sort p.order = true)
    (hlimit : p.limit > 0) (hoffset : p.offset ≠ 0)
    (hrows : ∀ db, ∃ rows, w.rows db = .ok rows ∧ rows.length ≤ 1)
    (hgood : ∀ t t', good (t, []) = good (t', [])) : Isolates appID (listing p qy code good) := by
  by_cases hneg : p.offset < 0
  · exact isolates_of_rejected hq hp ⟨hlimit, hneg⟩
  have hs : (p.of qy).parse = .ok w := by rw [parse_of hq hp, if_neg fun h => hneg h.2]
  intro my db db' _
  cases hd : my.down (.select (p.of qy)) with
  | some e =>
    simp only [listing, query, select_down hd]
    rfl
  | none =>
    have hnil : ∀ db, select my (p.of qy) db = .ok [] := by
      intro db
      obtain ⟨rows, hr, hlen⟩ := hrows db
      have hle : (my.arrange (p.of qy) rows).length ≤ p.offset.toNat := by
        rw [(my.arrange_perm _ rows).length_eq]
        omega
      have hpage : (p.of qy).page (my.arrange (p.of qy) rows) = [] := by
        rw [page_of, if_pos hlimit, List.drop_eq_nil_of_le hle, List.take_nil]
      rw [select_of_parse hd hs, hr]
      exact congrArg Except.ok hpage
    simp only [listing, query, hnil]
    exact hgood _ _

/-- A MySQL that answers a stray select by looking at the roles. -/
def peeping : Mysql :=
  { Mysql.steady default with
    straySelect := fun _ db => if db.role.rows.isEmpty then .ok [] else .error .subquery }

/-- One role of another application. -/
def otherRole (appID : Int) : Db :=
  { (default : Db) with
    role := (default : Table roleSchema).upsert (roleEntry "" (appID + 1) "" 0 "") }

theorem agree_otherRole (appID : Int) : Db.Agree (· = appID) default (otherRole appID) := by
  unfold otherRole
  refine { Db.Agree.refl (· = appID) default with role := fun r hr => ?_ }
  refine iff_of_false List.not_mem_nil fun hmem => ?_
  obtain rfl : r = ⟨1, appID + 1, "", 0, "", "", ""⟩ := List.mem_singleton.mp hmem
  have happ : appID + 1 = appID := hr
  omega

/-- A select that goes astray can show anything. -/
theorem leaks_of_injected (hinj : (p.of qy).parse = .error .injected) (hshows : Shows good) :
    ¬ Isolates appID (listing p qy code good) := by
  intro h
  have heq := h peeping _ _ (agree_otherRole appID)
  have hnone : select peeping (p.of qy) default = .ok [] := by
    simp only [select, hinj]
    rfl
  have herr : select peeping (p.of qy) (otherRole appID) = .error .subquery := by
    simp only [select, hinj]
    rfl
  simp only [listing, query, hnone, herr] at heq
  exact hshows.fault _ _ _ heq

/-- What a steady MySQL lists. -/
theorem listing_steady (hq : qy.parse = .ok w) (hp : plainSort p.sort p.order = true)
    (hacc : ¬ (p.limit > 0 ∧ p.offset < 0)) {db : Db} {rows : List Row}
    (hrows : w.rows db = .ok rows) :
    listing p qy code good (.steady default) db = good (rows.length, (p.of qy).page rows) := by
  have hs : (p.of qy).parse = .ok w := by rw [parse_of hq hp, if_neg hacc]
  have hselect : select (.steady default) (p.of qy) db = _ := select_of_parse rfl hs db
  rw [hrows] at hselect
  have htotal : total (.steady default) (p.of qy) db = rows.length := by
    simp only [total, count, Page.of, hq, hrows]
    rfl
  simp only [listing, query, hselect, htotal]
  rfl

/-- A page that does not start behind the last row shows a row. -/
theorem listing_shows (hq : qy.parse = .ok w) (hp : plainSort p.sort p.order = true)
    (hacc : ¬ (p.limit > 0 ∧ p.offset < 0)) (hshows : Shows good) {db : Db} {rows : List Row}
    (hrows : w.rows db = .ok rows) (hne : rows ≠ [])
    (hlen : p.limit > 0 → p.offset.toNat < rows.length) :
    (listing p qy code good (.steady default) db).rows ≠ [] := by
  have hpage : (p.of qy).page rows ≠ [] := by
    rw [page_of]
    split
    · rename_i hl
      have := hlen hl
      rw [← List.length_pos_iff_ne_nil, List.length_take, List.length_drop]
      omega
    · exact hne
  have hpos : (rows.length : Int) ≠ 0 := by
    have := List.length_pos_iff_ne_nil.mpr hne
    omega
  rw [listing_steady hq hp hacc hrows, hshows.rows _ _ hpos hpage]
  exact hpage

/-- Rows that only one of two databases has. -/
theorem leaks_of_rows (hq : qy.parse = .ok w) (hp : plainSort p.sort p.order = true)
    (hacc : ¬ (p.limit > 0 ∧ p.offset < 0)) (hshows : Shows good) (db db' : Db)
    (hagree : db.Agree (· = appID) db') {rows : List Row} (hrows : w.rows db = .ok rows)
    (hne : rows ≠ []) (hlen : p.limit > 0 → p.offset.toNat < rows.length)
    (hnil : w.rows db' = .ok []) : ¬ Isolates appID (listing p qy code good) := by
  intro h
  have hshow : (listing p qy code good (.steady default) db).rows ≠ [] :=
    listing_shows hq hp hacc hshows hrows hne hlen
  refine hshow ?_
  have hpagenil : (p.of qy).page [] = [] := by
    rw [page_of]
    split <;> simp
  rw [h (.steady default) db db' hagree, listing_steady hq hp hacc hnil, hpagenil]
  exact hshows.none _

end Listing

end Doodle.Rbac
