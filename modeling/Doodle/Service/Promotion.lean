/-
  Go's promotion rule and `merge` of `service/document.go`: a field of the outer struct hides a
  field of the same name in an embedded one, but `merge` assigns the embedded field to the key,
  whatever stands there.

  Two entries are `Like` when they stand for the same: one key, one field, and the same maps below.

  * `never_promoted`: what is replaced after a promotion could have been replaced without it first.
  * `promotes_iff`: the result is one and the same and no field takes the place of a different one,
    in every order of the ranges, exactly when two entries of one map that bring one key to it bring
    like fields under it.
-/
import Doodle.Service.Flatten

namespace Doodle.Service.Document

open Relation

/-! ## The property -/

/-- The entries stand for the same. -/
def Like (x y : String × Field) : Prop := Same [x] [y]

/-- The range may come to a promotion after which an entry `new` of the embedded struct stands where
    a different one `old` stood. -/
def Task.Replaces : Task → Prop
  | .clear todo fm _ => ∃ k ∈ todo, ∃ f, fm.lookup k = some f ∧ f.anonymous = true ∧
      ∃ old ∈ fm, ∃ new ∈ f.child.getD [], old.1 ≠ k ∧ old.1 = new.1 ∧
        new ∈ promoted fm k f ∧ ¬ Like old new
  | _ => False

/-- No computation of `merge` puts a field in the place of a different one. -/
def Never (fm : FieldMap) : Prop := ∀ x, ReflTransGen Next (.merge fm) x → ¬ x.Replaces

/-- In every order of the ranges `merge` leaves the same, and an outer field is never replaced by a
    promoted one that differs. -/
structure Promotes (fm : FieldMap) : Prop where
  same : ∀ fm₁ fm₂, Merge fm fm₁ → Merge fm fm₂ → Same fm₁ fm₂
  kept : Never fm

/-! ## Entries that stand for the same -/

section Like

variable {x y z : String × Field}

theorem Like.symm (h : Like x y) : Like y x := Same.symm h

theorem Like.trans (h : Like x y) (h' : Like y z) : Like x z := Same.trans h h'

/-- An entry of a map has its like in every map that is the same. -/
theorem like_of_same {fm fm' : FieldMap} (h : Same fm fm') : ∀ e ∈ fm, ∃ e' ∈ fm',
    bare e = bare e' ∧ Same (e.2.child.getD []) (e'.2.child.getD []) := by
  induction h with
  | nil => exact fun e he => absurd he List.not_mem_nil
  | cons e _ ih =>
    refine List.forall_mem_cons.mpr ⟨⟨e, List.mem_cons_self, rfl, .refl _⟩, fun x hx => ?_⟩
    obtain ⟨x', hx', h⟩ := ih x hx
    exact ⟨x', List.mem_cons_of_mem _ hx', h⟩
  | child k f hc _ _ ih =>
    refine List.forall_mem_cons.mpr ⟨⟨_, List.mem_cons_self, ?_, ?_⟩, fun x hx => ?_⟩
    · obtain ⟨_, _, _, _, _, _⟩ := f
      rfl
    · simpa only [child_withChild, Option.getD_some] using hc
    · obtain ⟨x', hx', h⟩ := ih x hx
      exact ⟨x', List.mem_cons_of_mem _ hx', h⟩
  | swap e e' fm => exact fun x hx => ⟨x, (List.Perm.swap e' e fm).subset hx, rfl, .refl _⟩
  | trans _ _ ih₁ ih₂ =>
    intro x hx
    obtain ⟨x', hx', hbare, hc⟩ := ih₁ x hx
    obtain ⟨x'', hx'', hbare', hc'⟩ := ih₂ x' hx'
    exact ⟨x'', hx'', hbare.trans hbare', hc.trans hc'⟩

theorem Like.bare (h : Like x y) : Document.bare x = Document.bare y := by
  obtain ⟨y', hy', hbare, -⟩ := like_of_same h x List.mem_cons_self
  exact List.mem_singleton.mp hy' ▸ hbare

theorem Like.key (h : Like x y) : x.1 = y.1 := key_of_bare h.bare

theorem Like.child (h : Like x y) : Same (x.2.child.getD []) (y.2.child.getD []) := by
  obtain ⟨y', hy', -, hc⟩ := like_of_same h x List.mem_cons_self
  exact List.mem_singleton.mp hy' ▸ hc

theorem anonymous_of_bare (h : Document.bare x = Document.bare y) :
    x.2.anonymous = y.2.anonymous := by
  obtain ⟨_, _, _, _, _, _, _⟩ := x
  obtain ⟨_, _, _, _, _, _, _⟩ := y
  simp only [Document.bare, Field.bare, Prod.mk.injEq, Field.mk.injEq] at h
  exact h.2.2.2.2.2.1

theorem Same.like {fm fm' : FieldMap} (h : Same fm fm') {e : String × Field} (he : e ∈ fm) :
    ∃ e' ∈ fm', Like e e' := by
  obtain ⟨e', he', hbare, hc⟩ := like_of_same h e he
  exact ⟨e', he', same_of_bare hbare hc⟩

/-- Like entries bring like ones. -/
theorem Brings.like {e e' : String × Field} (hx : Brings e x) (h : Like e e') :
    ∃ x', Brings e' x' ∧ Like x x' := by
  induction hx generalizing e' with
  | own e => exact ⟨e', .own e', h⟩
  | inner ha he _ ih =>
    obtain ⟨e₁', he₁', hlike⟩ := h.child.like he
    obtain ⟨x', hx', hlike'⟩ := ih hlike
    exact ⟨x', .inner (anonymous_of_bare h.bare ▸ ha) he₁' hx', hlike'⟩

theorem Shows.like {p : List (String × Field)} (hp : Shows Document.bare x p) (h : Like x y) :
    Shows Document.bare y p := by
  induction hp generalizing y with
  | own ha =>
    rw [h.bare]
    exact .own (anonymous_of_bare h.bare ▸ ha)
  | inner ha he _ ih =>
    obtain ⟨e', he', hlike⟩ := h.child.like he
    rw [h.bare]
    exact .inner (anonymous_of_bare h.bare ▸ ha) he' (ih hlike)
  | embedded ha he _ ih =>
    obtain ⟨e', he', hlike⟩ := h.child.like he
    exact .embedded (anonymous_of_bare h.bare ▸ ha) he' (ih hlike)

theorem Like.alike (h : Like x y) : Alike Document.bare Document.bare x y :=
  ⟨h.bare, fun _ => ⟨fun hp => hp.like h, fun hp => hp.like h.symm⟩⟩

/-- The maps below the entry are clean. -/
def Tidy (x : String × Field) : Prop := x.2.Clean ∧ ∀ c, x.2.child = some c → IsMap c

theorem Tidy.child (h : Tidy x) : IsMap (x.2.child.getD []) ∧ CleanAll (x.2.child.getD []) := by
  cases hc : x.2.child with
  | none => exact ⟨.intro List.nodup_nil fun _ he => absurd he List.not_mem_nil, trivial⟩
  | some c => exact ⟨h.2 c hc, clean_iff.mp h.1 c hc⟩

theorem Brings.tidy (hx : Brings x y) (h : Tidy x) : Tidy y := by
  induction hx with
  | own _ => exact h
  | inner _ he _ ih =>
    obtain ⟨c, hc, he⟩ := mem_child.mp he
    exact ih ⟨(cleanAll_iff.mp (clean_iff.mp h.1 c hc) _ he).2, fun d hd => (h.2 c hc).child he hd⟩

theorem Alike.like (h : Alike Document.bare Document.bare x y) (hx : Tidy x) (hy : Tidy y) :
    Like x y := by
  have hanon := anonymous_of_bare h.tag
  refine same_of_bare h.tag (same_of_shows hx.child.1 hx.child.2 hy.child.1 hy.child.2 fun p => ?_)
  cases ha : x.2.anonymous with
  | true => rw [← shows_anonymous ha, ← shows_anonymous (hanon ▸ ha), h.shows p]
  | false =>
    have hp := h.shows (Document.bare x :: p)
    rw [shows_named ha, shows_named (hanon ▸ ha), h.tag] at hp
    simp only [List.cons.injEq, true_and, exists_eq_left'] at hp
    by_cases hnil : p = []
    · subst hnil
      exact iff_of_false not_showsAll_nil not_showsAll_nil
    · simpa only [hnil, false_or] using hp

theorem size_of_same {fm fm' : FieldMap} (h : Same fm fm') : size fm = size fm' := by
  induction h with
  | nil => rfl
  | cons e _ ih => rw [size, size, ih]
  | child k f _ _ ihc ih =>
    rw [size, size, ih, size_eq, size_eq, child_withChild, child_withChild, Option.getD_some,
      Option.getD_some, ihc]
  | swap e e' fm => simp only [size, Nat.add_left_comm]
  | trans _ _ ih₁ ih₂ => exact ih₁.trans ih₂

theorem Like.size (h : Like x y) : x.2.size = y.2.size := by
  simpa only [Document.size, Nat.add_zero] using size_of_same h

theorem size_lt_of_mem (h : x ∈ y.2.child.getD []) : x.2.size < y.2.size := by
  obtain ⟨pre, post, hsplit⟩ := List.append_of_mem h
  rw [size_eq y.2, hsplit, size_append, Document.size]
  omega

theorem apart_of_same {fm fm' : FieldMap} (h : Same fm fm') (ha : Apart Like fm') :
    Apart Like fm := by
  induction ha generalizing fm with
  | intro hhere _ ih =>
    refine .intro (fun e he e' he' hne x y hx hy hxy => ?_) fun e he c hc => ?_
    · obtain ⟨e₁, he₁, hl₁⟩ := h.like he
      obtain ⟨e₂, he₂, hl₂⟩ := h.like he'
      obtain ⟨x', hx', hlx⟩ := hx.like hl₁
      obtain ⟨y', hy', hly⟩ := hy.like hl₂
      have hlike := hhere e₁ he₁ e₂ he₂ (hl₁.key ▸ hl₂.key ▸ hne) x' y' hx' hy'
        (hlx.key ▸ hly.key ▸ hxy)
      exact hlx.trans (hlike.trans hly.symm)
    · obtain ⟨e₁, he₁, hl₁⟩ := h.like he
      have hsame := hl₁.child
      rw [hc, Option.getD_some] at hsame
      cases hc₁ : e₁.2.child with
      | none =>
        rw [hc₁] at hsame
        refine .intro (fun x hx => ?_) fun x hx => ?_ <;>
          exact absurd (hsame.like hx) fun ⟨_, hx, _⟩ => List.not_mem_nil hx
      | some c₁ =>
        rw [hc₁, Option.getD_some] at hsame
        exact ih e₁ he₁ c₁ hc₁ hsame

end Like

/-! ## Maps whose entries are like where they meet -/

/-- The maps of a task are maps whose entries are like where they meet. -/
def Task.Apart : Task → Prop
  | .clear _ fm _ => IsMap fm ∧ Document.Apart Like fm
  | .merge fm => IsMap fm ∧ Document.Apart Like fm
  | .mergeAll fm => ∀ e ∈ fm, ∀ c, e.2.child = some c → IsMap c ∧ Document.Apart Like c

theorem Apart.alike {fm : FieldMap} (h : Apart Like fm) : Apart (Alike bare bare) fm :=
  h.imp fun _ hl e he e' he' hne x y hx hy hxy => (hl e he e' he' hne x y hx hy hxy).alike

theorem apart_clear {todo : List String} {fm fm' : FieldMap} {ok ok' : Bool}
    (h : Clear todo fm ok fm' ok') (ha : Apart Like fm) : Apart Like fm' := by
  induction h with
  | done _ => exact ha
  | keep _ _ _ _ ih => exact ih ha
  | promote _ hl hanon _ _ _ ih => exact ih (apart_promoted ha hl hanon)

/-- The maps below the entries are merged, so what is alike is like. -/
theorem apart_mergeAll {fm fm' : FieldMap} (h : MergeAll fm fm') (hm : IsMap fm)
    (ha : Apart Like fm) : Apart Like fm' := by
  have hclean := (mergeAll_clean h fun e he c hc => hm.child he hc).clean
  have hmerged := mergeAll_yields steady_bare h (fun e he c hc => hm.child he hc)
    fun e he c hc => ha.alike.child he hc
  refine .intro (fun e he e' he' hne x y hx hy hxy => ?_) fun e he c hc =>
    apart_of_clean (clean_iff.mp (hclean e he).1 c hc)
  exact (hmerged.levels ha.alike.here e he e' he' hne x y hx hy hxy).like (hx.tidy (hclean e he))
    (hy.tidy (hclean e' he'))

theorem apart_next {x y : Task} (h : Next x y) (ha : x.Apart) : y.Apart := by
  cases h with
  | keep _ _ _ => exact ha
  | promote _ hl hanon _ _ => exact ⟨isMap_promoted ha.1 hl, apart_promoted ha.2 hl hanon⟩
  | range => exact ha
  | children hclear =>
    exact fun e he c hc =>
      ⟨(isMap_clear hclear ha.1).child he hc, (apart_clear hclear ha.2).child he hc⟩
  | again hclear hall =>
    have hm := isMap_clear hclear ha.1
    exact ⟨(mergeAll_clean hall fun e he c hc => hm.child he hc).isMap hm.here,
      apart_mergeAll hall hm (apart_clear hclear ha.2)⟩
  | child hc => exact ha _ List.mem_cons_self _ hc
  | rest => exact fun e he => ha e (List.mem_cons_of_mem _ he)

theorem apart_reach {x y : Task} (h : ReflTransGen Next x y) (ha : x.Apart) : y.Apart := by
  induction h with
  | refl => exact ha
  | tail _ hstep ih => exact apart_next hstep ih

theorem not_replaces_of_apart {x : Task} (h : x.Apart) : ¬ x.Replaces := by
  cases x with
  | clear todo fm ok =>
    rintro ⟨k, -, f, hl, hanon, old, hold, new, hnew, hne, hkey, -, hdiff⟩
    exact hdiff (h.2.here old hold _ (mem_of_lookup hl) hne old new (.own old)
      (.inner hanon hnew (.own new)) hkey)
  | merge fm => exact id
  | mergeAll fm => exact id

theorem Apart.promotes {fm : FieldMap} (hm : IsMap fm) (h : Apart Like fm) : Promotes fm where
  same fm₁ fm₂ h₁ h₂ := by
    obtain ⟨hm₁, hc₁⟩ := merge_clean h₁ hm
    obtain ⟨hm₂, hc₂⟩ := merge_clean h₂ hm
    refine same_of_shows hm₁ hc₁ hm₂ hc₂ fun p => ?_
    rw [(merge_yields steady_bare h₁ hm h.alike).shows p,
      (merge_yields steady_bare h₂ hm h.alike).shows p]
  kept _ hx := not_replaces_of_apart (apart_reach hx ⟨hm, h⟩)

/-! ## A promotion done first -/

theorem clear_true {todo : List String} {fm fm' : FieldMap} {ok ok' : Bool}
    (h : Clear todo fm ok fm' ok') : Clear todo fm true fm' true := by
  induction h with
  | done hnone => exact .done hnone
  | keep hk hl ha _ ih => exact .keep hk hl ha ih
  | promote hk hl ha hn hnew _ ih => exact .promote hk hl ha hn hnew ih

theorem keys_putAll {m : FieldMap} (hn : (keys m).Nodup) (fm : FieldMap) :
    keys (putAll m fm) = keys fm ++ (keys m).filter (· ∉ keys fm) := by
  induction m generalizing fm with
  | nil => exact (List.append_nil _).symm
  | cons e m ih =>
    obtain ⟨hnot, hrest⟩ := List.nodup_cons.mp hn
    rw [putAll_cons, ih hrest]
    by_cases hk : e.1 ∈ keys fm
    · rw [keys_put_of_mem hk]
      simp [keys, show e.1 ∈ List.map Prod.fst fm from hk]
    · rw [put_of_not_mem hk]
      have hfilter : (keys m).filter (· ∉ keys (fm ++ [(e.1, e.2)])) =
          (keys m).filter (· ∉ keys fm) := by
        refine List.filter_congr fun key hkey => ?_
        have hne : key ≠ e.1 := fun heq => hnot (heq ▸ hkey)
        refine decide_eq_decide.mpr (not_congr ?_)
        simp [keys, hne]
      rw [hfilter]
      simp [keys, show e.1 ∉ List.map Prod.fst fm from hk]

theorem lookup_eq_none {fm : FieldMap} {key : String} (h : key ∉ keys fm) :
    fm.lookup key = none := by
  cases hl : fm.lookup key with
  | none => rfl
  | some f => exact absurd (List.mem_map_of_mem (mem_of_lookup hl)) h

section Promote

variable {fm : FieldMap} {k : String} {f : Field}

/-- The first range may begin with the promotion and visit all new keys too. -/
theorem next_promoted (hm : IsMap fm) (hl : fm.lookup k = some f) : ∃ new : List String,
    new.Nodup ∧ (∀ key ∈ new, key ∈ keys (f.child.getD []) ∧ (del k fm).lookup key = none) ∧
      (keys fm).erase k ++ new = keys (promoted fm k f) := by
  have hnodup := nodup_child hm (mem_of_lookup hl)
  refine ⟨(keys (f.child.getD [])).filter (· ∉ keys (del k fm)), hnodup.filter _,
    fun key hkey => ?_, ?_⟩
  · obtain ⟨hkey, hnot⟩ := List.mem_filter.mp hkey
    exact ⟨hkey, lookup_eq_none (of_decide_eq_true hnot)⟩
  · have hdel : keys (del k fm) = (keys fm).erase k := by
      rw [hm.here.erase_eq_filter, keys, keys, del, List.filter_map]
      exact congrArg _ (List.filter_congr fun e _ => by by_cases h : e.1 = k <;> simp [h])
    rw [promoted, keys_putAll hnodup, hdel]

/-- What `merge` comes to on the promoted map, it comes to on the map itself, where the range that
    promotes has its flag set. -/
theorem reach_promoted (hm : IsMap fm) (hl : fm.lookup k = some f) (ha : f.anonymous = true)
    {x : Task} (h : ReflTransGen Next (.merge (promoted fm k f)) x) :
    x = .merge (promoted fm k f) ∨
      (∃ todo g ok, x = .clear todo g ok ∧
        ReflTransGen Next (.merge fm) (.clear todo g true)) ∨
      ReflTransGen Next (.merge fm) x := by
  have hk : k ∈ keys fm := List.mem_map_of_mem (mem_of_lookup hl)
  obtain ⟨new, hnodup, hnew, hkeys⟩ := next_promoted hm hl
  have hrange : ∀ {fm₁ ok}, Clear (keys (promoted fm k f)) (promoted fm k f) false fm₁ ok →
      Clear (keys fm) fm false fm₁ true := by
    intro fm₁ ok hclear
    refine .promote hk hl ha hnodup hnew ?_
    rw [hkeys]
    exact clear_true hclear
  induction h with
  | refl => exact .inl rfl
  | tail _ hstep ih =>
    rcases ih with rfl | ⟨todo, g, ok, rfl, hreach⟩ | hreach
    · cases hstep with
      | range =>
        have hfirst : Next (.clear (keys fm) fm false)
            (.clear (keys (promoted fm k f)) (promoted fm k f) true) := by
          rw [← hkeys]
          exact .promote hk hl ha hnodup hnew
        exact .inr (.inl ⟨_, _, _, rfl, .tail (.single .range) hfirst⟩)
      | children hclear => exact .inr (.inr (.single (.children (hrange hclear))))
      | again hclear hall => exact .inr (.inr (.single (.again (hrange hclear) hall)))
    · cases hstep with
      | keep hk' hl' ha' => exact .inr (.inl ⟨_, _, _, rfl, hreach.tail (.keep hk' hl' ha')⟩)
      | promote hk' hl' ha' hn' hnew' =>
        exact .inr (.inl ⟨_, _, _, rfl, hreach.tail (.promote hk' hl' ha' hn' hnew')⟩)
    · exact .inr (.inr (hreach.tail hstep))

theorem never_promoted (h : Never fm) (hm : IsMap fm) (hl : fm.lookup k = some f)
    (ha : f.anonymous = true) : Never (promoted fm k f) := by
  intro x hx hreplaces
  rcases reach_promoted hm hl ha hx with rfl | ⟨todo, g, ok, rfl, hreach⟩ | hreach
  · exact hreplaces
  · exact h _ hreach hreplaces
  · exact h _ hreach hreplaces

end Promote

/-! ## Maps in which nothing is replaced -/

/-- Without anonymous entries a range changes nothing. -/
theorem clear_of_named {todo : List String} {fm fm' : FieldMap} {ok ok' : Bool}
    (h : Clear todo fm ok fm' ok') (hnamed : ∀ e ∈ fm, e.2.anonymous = false) : fm' = fm := by
  induction h with
  | done _ => rfl
  | keep _ _ _ _ ih => exact ih hnamed
  | promote _ hl ha _ _ _ _ =>
    have := hnamed _ (mem_of_lookup hl)
    rw [ha] at this
    cases this

theorem reach_mergeAll {fm : FieldMap} {e : String × Field} (he : e ∈ fm) :
    ∃ rest, ReflTransGen Next (.mergeAll fm) (.mergeAll (e :: rest)) := by
  induction fm with
  | nil => cases he
  | cons e' fm ih =>
    rcases List.mem_cons.mp he with rfl | he
    · exact ⟨fm, .refl⟩
    · obtain ⟨rest, hreach⟩ := ih he
      exact ⟨rest, .head .rest hreach⟩

/-- Without anonymous entries `merge` comes to the maps of all children. -/
theorem never_child {fm : FieldMap} (h : Never fm) (hnamed : ∀ e ∈ fm, e.2.anonymous = false)
    {e : String × Field} (he : e ∈ fm) {c : FieldMap} (hc : e.2.child = some c) : Never c := by
  intro x hx
  obtain ⟨fm', ok, hclear⟩ := returns (.clear (keys fm) fm false)
  obtain rfl := clear_of_named hclear hnamed
  obtain ⟨rest, hreach⟩ := reach_mergeAll he
  exact h x (.head (.children hclear) ((hreach.tail (.child hc)).trans hx))

/-- A map in which nothing is replaced, and whose promotions are known to be apart. -/
structure Settled (fm : FieldMap) : Prop where
  isMap : IsMap fm
  like : ∀ e ∈ fm, e.2.anonymous = true → ∀ old ∈ fm, ∀ new ∈ e.2.child.getD [],
    old.1 ≠ e.1 → old.1 = new.1 → Like old new
  promoted : ∀ e ∈ fm, e.2.anonymous = true → Apart Like (promoted fm e.1 e.2)

namespace Settled

variable {fm : FieldMap} (h : Settled fm) {e e' x y : String × Field}

include h

theorem mem_promoted (he : e ∈ fm) {e₁ : String × Field} (he₁ : e₁ ∈ e.2.child.getD []) :
    e₁ ∈ Document.promoted fm e.1 e.2 :=
  mem_putAll_of_mem (nodup_child h.isMap he) he₁

/-- What is below an entry is like what another entry brings, or the other has its like below the
    first, and that is where it is from. -/
theorem like_inner (he : e ∈ fm) (he' : e' ∈ fm) (hne : e.1 ≠ e'.1) (ha : e.2.anonymous = true)
    {e₁ : String × Field} (he₁ : e₁ ∈ e.2.child.getD []) (hx : Brings e₁ x) (hy : Brings e' y)
    (hxy : x.1 = y.1) :
    Like x y ∨ ∃ e'' ∈ e.2.child.getD [], Like e' e'' ∧ Brings e'' x := by
  have hlevels := (h.promoted e he ha).here
  by_cases hin : e'.1 ∈ keys (e.2.child.getD [])
  · obtain ⟨e'', he'', hkey⟩ := List.mem_map.mp hin
    have hlike := h.like e he ha e' he' e'' he'' (Ne.symm hne) hkey.symm
    by_cases hsame : e₁.1 = e''.1
    · have heq := List.inj_on_of_nodup_map (nodup_child h.isMap he) he₁ he'' hsame
      exact .inr ⟨e'', he'', hlike, heq ▸ hx⟩
    · obtain ⟨y', hy', hlikey⟩ := hy.like hlike
      have hlikex := hlevels e₁ (h.mem_promoted he he₁) e'' (h.mem_promoted he he'') hsame x y'
        hx hy' (hxy.trans hlikey.key)
      exact .inl (hlikex.trans hlikey.symm)
  · have hne₁ : e₁.1 ≠ e'.1 := fun heq => hin (heq ▸ List.mem_map_of_mem he₁)
    exact .inl (hlevels e₁ (h.mem_promoted he he₁) e'
      (mem_promoted_of_not_mem he' (Ne.symm hne) hin) hne₁ x y hx hy hxy)

/-- When the like of an entry is below another, the like of the other is not below it. -/
theorem like_of_below (he : e ∈ fm) (he' : e' ∈ fm) (hne : e.1 ≠ e'.1) {e'' : String × Field}
    (he'' : e'' ∈ e.2.child.getD []) (hlike : Like e' e'') (ha' : e'.2.anonymous = true)
    {e₁ : String × Field} (he₁ : e₁ ∈ e'.2.child.getD []) (hx : Brings e₁ x) (hy : Brings e y)
    (hxy : x.1 = y.1) : Like x y := by
  refine (h.like_inner he' he (Ne.symm hne) ha' he₁ hx hy hxy).resolve_right ?_
  rintro ⟨e₃, he₃, hlike₃, -⟩
  have h₁ := size_lt_of_mem he''
  have h₂ := size_lt_of_mem he₃
  have h₃ := hlike.size
  have h₄ := hlike₃.size
  omega

theorem like_of_inner (he : e ∈ fm) (he' : e' ∈ fm) (hne : e.1 ≠ e'.1) (ha : e.2.anonymous = true)
    {e₁ : String × Field} (he₁ : e₁ ∈ e.2.child.getD []) (hx : Brings e₁ x) (hy : Brings e' y)
    (hxy : x.1 = y.1) : Like x y := by
  rcases h.like_inner he he' hne ha he₁ hx hy hxy with hlike | ⟨e'', he'', hlike, hx⟩
  · exact hlike
  · have hanon := anonymous_of_bare hlike.bare
    cases hy with
    | inner ha' he₂ hy =>
      exact (h.like_of_below he he' hne he'' hlike ha' he₂ hy (.inner ha he'' hx) hxy.symm).symm
    | own _ =>
      cases hx with
      | own _ => exact hlike.symm
      | inner ha'' he₂ hx =>
        -- the other entry has the like of what is brought below itself
        obtain ⟨e₃, he₃, hlike₃⟩ := hlike.symm.child.like he₂
        obtain ⟨x', hx', hlikex⟩ := hx.like hlike₃
        have hbelow := h.like_of_below he he' hne he'' hlike (hanon ▸ ha'') he₃ hx'
          (.inner ha he'' (.own e'')) (hlikex.key ▸ hxy.trans hlike.key)
        exact hlikex.trans (hbelow.trans hlike.symm)

theorem levels : Levels Like fm := by
  intro e he e' he' hne x y hx hy hxy
  cases hx with
  | inner ha he₁ hx => exact h.like_of_inner he he' hne ha he₁ hx hy hxy
  | own _ =>
    cases hy with
    | own _ => exact absurd hxy hne
    | inner ha he₁ hy =>
      exact (h.like_of_inner he' he (Ne.symm hne) ha he₁ hy (.own e) hxy.symm).symm

/-- With an anonymous entry the maps below all entries are apart. -/
theorem apart_child {a : String × Field} (ha : a ∈ fm) (hanon : a.2.anonymous = true) (he : e ∈ fm)
    {c : FieldMap} (hc : e.2.child = some c) : Apart Like c := by
  have hapart := h.promoted a ha hanon
  by_cases hk : e.1 = a.1
  · obtain rfl := List.inj_on_of_nodup_map h.isMap.here he ha hk
    have hmem : ∀ e₁ ∈ c, e₁ ∈ Document.promoted fm e.1 e.2 := fun e₁ he₁ =>
      h.mem_promoted he (mem_child.mpr ⟨c, hc, he₁⟩)
    exact .intro (fun e₁ he₁ e₂ he₂ => hapart.here e₁ (hmem e₁ he₁) e₂ (hmem e₂ he₂))
      fun e₁ he₁ c' hc' => hapart.child (hmem e₁ he₁) hc'
  · by_cases hin : e.1 ∈ keys (a.2.child.getD [])
    · obtain ⟨e', he', hkey⟩ := List.mem_map.mp hin
      have hsame := (h.like a ha hanon e he e' he' hk hkey.symm).child
      rw [hc, Option.getD_some] at hsame
      refine apart_of_same hsame ?_
      cases hc' : e'.2.child with
      | none => exact apart_of_clean trivial
      | some c' => exact hapart.child (h.mem_promoted ha he') hc'
    · exact hapart.child (mem_promoted_of_not_mem he hk hin) hc

end Settled

theorem apart_of_never {fm : FieldMap} (hm : IsMap fm) (h : Never fm) : Apart Like fm := by
  induction hn : size fm using Nat.strongRecOn generalizing fm with
  | ind n ih =>
    subst hn
    have hsettled : Settled fm := by
      refine ⟨hm, fun e he ha old hold new hnew hne hkey => ?_, fun e he ha => ?_⟩
      · by_contra hdiff
        exact h _ (.single .range) ⟨e.1, List.mem_map_of_mem he, e.2, lookup_of_mem hm.here he, ha,
          old, hold, new, hnew, hne, hkey, mem_putAll_of_mem (nodup_child hm he) hnew, hdiff⟩
      · have hl := lookup_of_mem hm.here he
        exact ih _ (size_promoted hl) (isMap_promoted hm hl) (never_promoted h hm hl ha) rfl
    refine .intro hsettled.levels fun e he c hc => ?_
    by_cases hsome : ∃ a ∈ fm, a.2.anonymous = true
    · obtain ⟨a, ha, hanon⟩ := hsome
      exact hsettled.apart_child ha hanon he hc
    · have hnamed : ∀ e ∈ fm, e.2.anonymous = false := fun e he =>
        Bool.eq_false_iff.mpr fun ha => hsome ⟨e, he, ha⟩
      exact ih _ (size_child_lt he hc) (hm.child he hc) (never_child h hnamed he hc) rfl

/-- The result is the same in every order and no field is replaced by a different one, exactly when
    fields that two entries of one map bring under one key are like. -/
theorem promotes_iff (t : FieldTree) : Promotes t.map ↔ Apart Like t.map :=
  ⟨fun h => apart_of_never t.isMap h.kept, Apart.promotes t.isMap⟩

/-! ## An outer field that is lost -/

/-- `ID` of an embedded struct. -/
def innerID : Field := .mk "ID" "string" false "" false none

/-- `struct { ID int; Base }` with `type Base struct { ID string }`. -/
def clashTree : FieldTree where
  map := [("ID", .mk "ID" "int" false "" false none),
    ("Base", .mk "Base" "main.Base" false "" true (some [("ID", innerID)]))]
  isMap := by
    refine .intro (by decide) fun e he c hc => ?_
    rcases List.mem_cons.mp he with rfl | he
    · cases hc
    · obtain rfl := List.mem_singleton.mp he
      obtain rfl := Option.some.inj hc
      refine .intro (List.nodup_singleton _) fun e' he' c' hc' => ?_
      obtain rfl := List.mem_singleton.mp he'
      cases hc'

/-- The embedded `ID` takes the place of the outer one, and is all that is left. -/
theorem outer_field_lost :
    ¬ Promotes clashTree.map ∧ Merge clashTree.map [("ID", innerID)] := by
  constructor
  · intro h
    refine h.kept _ (.single .range) ⟨"Base", by decide, _, rfl, rfl, _, List.mem_cons_self, _,
      List.mem_singleton.mpr rfl, by decide, rfl, List.mem_singleton.mpr rfl, fun hlike => ?_⟩
    exact absurd hlike.bare (by simp [bare, Field.bare, innerID])
  · have hfirst : Clear ["ID", "Base"] clashTree.map false [("ID", innerID)] true := by
      refine .promote (k := "Base") (by decide) rfl rfl List.nodup_nil (by simp) ?_
      exact .keep (k := "ID") (by decide) rfl rfl (.done (by simp))
    have hsecond : Clear ["ID"] [("ID", innerID)] false [("ID", innerID)] false :=
      .keep (k := "ID") (by decide) rfl rfl (.done (by simp))
    exact .again hfirst (.leaf rfl .nil) (.stop hsecond (.leaf rfl .nil))

end Doodle.Service.Document
