/-
  Substitution of a fixed text, as `sed` does it: the first occurrence (`substFirst`), or all
  occurrences from left to right without overlap (`substAll`), and cutting a text after the last
  occurrence of a symbol (`afterLast`), over any type of symbols.

  A text is `BorderFree` when no proper part of it is at once its beginning and its end. Occurrences
  of such a text do not overlap, so where it is first found does not depend on what follows
  (`substFirst_append`, `substAll_append`), and what commutes with it is a power of it
  (`eq_power_of_commute`). `substFirst_concat_iff`: taking the first occurrence out of `x ++ pat`
  leaves `x` exactly when `pat` occurs in `x` as a run at the end only.
-/
import Mathlib.Data.List.DropRight
import Mathlib.Data.List.Infix
import Mathlib.Tactic.Common

namespace Doodle.Lib

variable {α : Type} [DecidableEq α]

/-- The first occurrence of `pat` becomes `rep`. -/
def substFirst (pat rep : List α) : List α → List α
  | [] => if pat = [] then rep else []
  | c :: cs =>
    if pat <+: c :: cs then rep ++ (c :: cs).drop pat.length else c :: substFirst pat rep cs

/-- `substAll` with the first `n` symbols dropped. -/
def substAllFrom (pat rep : List α) : Nat → List α → List α
  | _, [] => []
  | n + 1, _ :: cs => substAllFrom pat rep n cs
  | 0, c :: cs =>
    if pat <+: c :: cs then rep ++ substAllFrom pat rep (pat.length - 1) cs
    else c :: substAllFrom pat rep 0 cs

/-- Every occurrence of a text that is not empty becomes `rep`. -/
def substAll (pat rep l : List α) : List α := substAllFrom pat rep 0 l

/-- What follows the last `c`; all of it when there is none. -/
def afterLast (c : α) (l : List α) : List α := l.rtakeWhile (· ≠ c)

/-- No proper part is both a beginning and an end. -/
def BorderFree (pat : List α) : Prop := ∀ v, v <+: pat → v <:+ pat → v = [] ∨ v = pat

omit [DecidableEq α] in
theorem borderFree_of_inits {pat : List α}
    (h : ∀ v ∈ pat.inits, v <:+ pat → v = [] ∨ v = pat) : BorderFree pat :=
  fun v hp hs => h v ((List.mem_inits v pat).mpr hp) hs

omit [DecidableEq α] in
theorem borderFree_singleton (c : α) : BorderFree [c] := by
  intro v hp _
  rcases v with _ | ⟨d, v⟩
  · exact Or.inl rfl
  · right
    obtain ⟨rfl, hv⟩ := List.cons_prefix_cons.mp hp
    rw [List.prefix_nil.mp hv]

/-! ## Occurrences -/

section Occurrences

variable {pat : List α}

omit [DecidableEq α] in
/-- Before an occurrence of a text without borders, the text can only begin inside what precedes
    it. -/
theorem infix_of_prefix_append (hb : BorderFree pat) {a b : List α} (ha : a ≠ [])
    (h : pat <+: a ++ pat ++ b) : pat <+: a := by
  rw [List.append_assoc] at h
  rcases Nat.le_total pat.length a.length with hle | hle
  · exact List.prefix_of_prefix_length_le h (List.prefix_append a _) hle
  · obtain ⟨v, rfl⟩ := List.prefix_of_prefix_length_le (List.prefix_append a _) h hle
    have hv : v <+: (a ++ v) ++ b := (List.prefix_append_right_inj a).mp h
    have hpre : v <+: a ++ v :=
      List.prefix_of_prefix_length_le hv (List.prefix_append _ b) (by simp)
    rcases hb v hpre (List.suffix_append a v) with rfl | hva
    · rw [List.append_nil]
    · have hlen := congrArg List.length hva
      rw [List.length_append] at hlen
      exact absurd (List.length_eq_zero_iff.mp (by omega)) ha

omit [DecidableEq α] in
/-- A text that occurs has a first occurrence. -/
theorem exists_first (hne : pat ≠ []) {l : List α} (h : pat <:+: l) :
    ∃ a b, l = a ++ pat ++ b ∧ ¬ pat <:+: a := by
  induction l with
  | nil => exact absurd (List.infix_nil.mp h) hne
  | cons c l ih =>
    by_cases hp : pat <+: c :: l
    · obtain ⟨b, hb⟩ := hp
      exact ⟨[], b, hb.symm, fun h => hne (List.infix_nil.mp h)⟩
    · obtain ⟨a, b, rfl, ha⟩ := ih ((List.infix_cons_iff.mp h).resolve_left hp)
      refine ⟨c :: a, b, rfl, fun hc => ?_⟩
      rcases List.infix_cons_iff.mp hc with hc | hc
      · refine hp (hc.trans ?_)
        rw [List.append_assoc]
        exact List.prefix_append (c :: a) (pat ++ b)
      · exact ha hc

theorem substFirst_of_absent (hne : pat ≠ []) (rep : List α) {l : List α}
    (h : ¬ pat <:+: l) : substFirst pat rep l = l := by
  induction l with
  | nil => simp [substFirst, hne]
  | cons c l ih =>
    obtain ⟨hp, hl⟩ := not_or.mp (mt List.infix_cons_iff.mpr h)
    rw [substFirst, if_neg hp, ih hl]

/-- The first occurrence is replaced. -/
theorem substFirst_append (hne : pat ≠ []) (hb : BorderFree pat) (rep : List α) {a : List α}
    (ha : ¬ pat <:+: a) (b : List α) : substFirst pat rep (a ++ pat ++ b) = a ++ rep ++ b := by
  induction a with
  | nil =>
    obtain ⟨c, pat', rfl⟩ := List.exists_cons_of_ne_nil hne
    have hp : c :: pat' <+: c :: (pat' ++ b) := List.prefix_append (c :: pat') b
    show substFirst (c :: pat') rep (c :: (pat' ++ b)) = rep ++ b
    rw [substFirst, if_pos hp, ← List.cons_append, List.drop_left]
  | cons c a ih =>
    obtain ⟨hp, htail⟩ := not_or.mp (mt List.infix_cons_iff.mpr ha)
    have hno : ¬ pat <+: c :: (a ++ pat ++ b) := fun h =>
      hp (infix_of_prefix_append hb (List.cons_ne_nil c a) h)
    show substFirst pat rep (c :: (a ++ pat ++ b)) = c :: (a ++ rep ++ b)
    rw [substFirst, if_neg hno, ih htail]

theorem substAllFrom_eq (rep : List α) (l : List α) :
    ∀ n, substAllFrom pat rep n l = substAllFrom pat rep 0 (l.drop n) := by
  induction l with
  | nil =>
    intro n
    rw [List.drop_nil]
    cases n <;> rfl
  | cons c l ih =>
    intro n
    cases n with
    | zero => rfl
    | succ n => exact ih n

theorem substAll_of_absent (rep : List α) {l : List α} (h : ¬ pat <:+: l) :
    substAll pat rep l = l := by
  unfold substAll
  induction l with
  | nil => rfl
  | cons c l ih =>
    obtain ⟨hp, hl⟩ := not_or.mp (mt List.infix_cons_iff.mpr h)
    rw [substAllFrom, if_neg hp, ih hl]

/-- After the first occurrence it goes on behind it. -/
theorem substAll_append (hne : pat ≠ []) (hb : BorderFree pat) (rep : List α) {a : List α}
    (ha : ¬ pat <:+: a) (b : List α) :
    substAll pat rep (a ++ pat ++ b) = a ++ rep ++ substAll pat rep b := by
  unfold substAll
  induction a with
  | nil =>
    obtain ⟨c, pat', rfl⟩ := List.exists_cons_of_ne_nil hne
    have hp : c :: pat' <+: c :: (pat' ++ b) := List.prefix_append (c :: pat') b
    show substAllFrom (c :: pat') rep 0 (c :: (pat' ++ b)) = rep ++ _
    rw [substAllFrom, if_pos hp, substAllFrom_eq, List.length_cons, Nat.add_sub_cancel,
      List.drop_left]
  | cons c a ih =>
    obtain ⟨hp, htail⟩ := not_or.mp (mt List.infix_cons_iff.mpr ha)
    have hno : ¬ pat <+: c :: (a ++ pat ++ b) := fun h =>
      hp (infix_of_prefix_append hb (List.cons_ne_nil c a) h)
    show substAllFrom pat rep 0 (c :: (a ++ pat ++ b)) = c :: (a ++ rep ++ _)
    rw [substAllFrom, if_neg hno, ih htail]

/-- What follows the last occurrence stays as it is. -/
theorem exists_substAll (hne : pat ≠ []) (hb : BorderFree pat) (rep : List α) (n : Nat) :
    ∀ l : List α, l.length ≤ n → pat <:+: l →
      ∃ t s, substAll pat rep l = t ++ rep ++ s ∧ s <:+ l ∧ s.length + pat.length ≤ l.length := by
  induction n with
  | zero =>
    intro l hl h
    obtain rfl := List.length_eq_zero_iff.mp (Nat.le_zero.mp hl)
    exact absurd (List.infix_nil.mp h) hne
  | succ n ih =>
    intro l hl h
    obtain ⟨a, b, rfl, ha⟩ := exists_first hne h
    have hpos := List.length_pos_iff.mpr hne
    have hsuffix : b <:+ a ++ pat ++ b := List.suffix_append _ b
    simp only [List.length_append] at hl
    rw [substAll_append hne hb rep ha]
    by_cases hp : pat <:+: b
    · obtain ⟨t, s, hs, hsb, hlen⟩ := ih b (by omega) hp
      refine ⟨a ++ rep ++ t, s, ?_, hsb.trans hsuffix, ?_⟩
      · rw [hs]
        simp only [List.append_assoc]
      · simp only [List.length_append]
        omega
    · refine ⟨a, b, ?_, hsuffix, ?_⟩
      · rw [substAll_of_absent rep hp]
      · simp only [List.length_append]
        omega

end Occurrences

/-! ## Powers -/

/-- `pat` written `k` times. -/
def power (pat : List α) (k : Nat) : List α := (List.replicate k pat).flatten

section Powers

variable {pat : List α}

omit [DecidableEq α]

theorem power_succ (k : Nat) : power pat (k + 1) = pat ++ power pat k := by
  simp [power, List.replicate_succ]

theorem power_append (k : Nat) : power pat k ++ pat = pat ++ power pat k := by
  induction k with
  | zero => simp [power]
  | succ k ih => rw [power_succ, List.append_assoc, ih]

theorem eq_power_of_commute (hne : pat ≠ []) (hb : BorderFree pat) (n : Nat) :
    ∀ b : List α, b.length ≤ n → pat ++ b = b ++ pat → ∃ k, b = power pat k := by
  induction n with
  | zero =>
    intro b hl _
    exact ⟨0, List.length_eq_zero_iff.mp (by omega)⟩
  | succ n ih =>
    intro b hl h
    have hpos := List.length_pos_iff.mpr hne
    have hpre : b <+: pat ++ b := h ▸ List.prefix_append b pat
    rcases Nat.lt_or_ge b.length pat.length with hlt | hge
    · have hbp : b <+: pat :=
        List.prefix_of_prefix_length_le hpre (List.prefix_append pat b) (by omega)
      have hbs : b <:+ pat := by
        refine List.suffix_of_suffix_length_le (List.suffix_append pat b) ?_ (by omega)
        rw [h]
        exact List.suffix_append b pat
      rcases hb b hbp hbs with rfl | rfl
      · exact ⟨0, rfl⟩
      · omega
    · obtain ⟨b', rfl⟩ := List.prefix_of_prefix_length_le (List.prefix_append pat b) hpre hge
      rw [List.append_assoc, List.append_cancel_left_eq] at h
      rw [List.length_append] at hl
      obtain ⟨k, rfl⟩ := ih b' (by omega) h
      exact ⟨k + 1, power_succ k |>.symm⟩

end Powers

/-- The first occurrence taken out of `x ++ pat` is the last one, or it does not matter which. -/
theorem substFirst_concat_iff {pat : List α} (hne : pat ≠ []) (hb : BorderFree pat) (x : List α) :
    substFirst pat [] (x ++ pat) = x ↔ ∃ a k, x = a ++ power pat k ∧ ¬ pat <:+: a := by
  constructor
  · intro h
    by_cases hp : pat <:+: x
    · obtain ⟨a, b, rfl, ha⟩ := exists_first hne hp
      rw [List.append_assoc (a ++ pat), substFirst_append hne hb [] ha, List.append_nil,
        List.append_assoc a pat b, List.append_cancel_left_eq] at h
      obtain ⟨k, rfl⟩ := eq_power_of_commute hne hb _ b (le_refl _) h.symm
      exact ⟨a, k + 1, by rw [power_succ, List.append_assoc], ha⟩
    · exact ⟨x, 0, by simp [power], hp⟩
  · rintro ⟨a, k, rfl, ha⟩
    rw [List.append_assoc, power_append, ← List.append_assoc, substFirst_append hne hb [] ha,
      List.append_nil]

/-! ## What a substitution keeps -/

section Keeps

variable {pat : List α}

/-- An occurrence does not reach over a symbol that the text does not have. -/
theorem substFirst_append_cons (hne : pat ≠ []) (hb : BorderFree pat) (rep : List α) {c : α}
    (hc : c ∉ pat) (u v : List α) :
    substFirst pat rep (u ++ c :: v) =
      if pat <:+: u then substFirst pat rep u ++ c :: v else u ++ c :: substFirst pat rep v := by
  split
  · next h =>
    obtain ⟨a, b, rfl, ha⟩ := exists_first hne h
    rw [List.append_assoc (a ++ pat), substFirst_append hne hb rep ha,
      substFirst_append hne hb rep ha, List.append_assoc (a ++ rep)]
  · next h =>
    have hbefore : ∀ w : List α, pat <+: w ++ c :: v → pat <+: w := by
      intro w hw
      rcases Nat.le_total pat.length w.length with hle | hle
      · exact List.prefix_of_prefix_length_le hw (List.prefix_append w _) hle
      · obtain ⟨t, rfl⟩ := List.prefix_of_prefix_length_le (List.prefix_append w _) hw hle
        rcases t with _ | ⟨d, t⟩
        · rw [List.append_nil]
        · obtain ⟨rfl, -⟩ := List.cons_prefix_cons.mp ((List.prefix_append_right_inj w).mp hw)
          exact absurd (List.mem_append_right w List.mem_cons_self) hc
    induction u with
    | nil =>
      have hno : ¬ pat <+: c :: v := fun hp => hne (List.prefix_nil.mp (hbefore [] hp))
      rw [List.nil_append, List.nil_append, substFirst, if_neg hno]
    | cons d u ih =>
      obtain ⟨hp, hu⟩ := not_or.mp (mt List.infix_cons_iff.mpr h)
      have hno : ¬ pat <+: d :: (u ++ c :: v) := fun h => hp (hbefore (d :: u) h)
      rw [List.cons_append, List.cons_append, substFirst, if_neg hno, ih hu]

theorem length_substFirst (hne : pat ≠ []) (hb : BorderFree pat) (rep : List α) {l : List α}
    (h : pat <:+: l) : (substFirst pat rep l).length + pat.length = l.length + rep.length := by
  obtain ⟨a, b, rfl, ha⟩ := exists_first hne h
  rw [substFirst_append hne hb rep ha]
  simp only [List.length_append]
  omega

/-- A text of the same length changes nothing in the length. -/
theorem length_substFirst_same (hne : pat ≠ []) (hb : BorderFree pat) (rep : List α)
    (hlen : rep.length = pat.length) (l : List α) :
    (substFirst pat rep l).length = l.length := by
  by_cases h : pat <:+: l
  · have := length_substFirst hne hb rep h
    omega
  · rw [substFirst_of_absent hne rep h]

theorem mem_substFirst (hne : pat ≠ []) (hb : BorderFree pat) {rep l : List α} {x : α}
    (h : x ∈ substFirst pat rep l) : x ∈ rep ∨ x ∈ l := by
  by_cases hp : pat <:+: l
  · obtain ⟨a, b, rfl, ha⟩ := exists_first hne hp
    rw [substFirst_append hne hb rep ha] at h
    simp only [List.mem_append] at h ⊢
    tauto
  · rw [substFirst_of_absent hne rep hp] at h
    exact Or.inr h

end Keeps

/-! ## Single symbols -/

theorem substFirst_singleton {c : α} (rep : List α) {a : List α} (h : c ∉ a) (b : List α) :
    substFirst [c] rep (a ++ c :: b) = a ++ rep ++ b := by
  have hno : ¬ [c] <:+: a := fun hi => h (hi.mem (List.mem_singleton_self c))
  have := substFirst_append (List.cons_ne_nil c []) (borderFree_singleton c) rep hno b
  rwa [List.append_assoc] at this

omit [DecidableEq α] in
/-- A text is cut at the first `c` in one way only. -/
theorem append_cons_inj_of_not_mem {c : α} {a a' b b' : List α} (h : c ∉ a) (h' : c ∉ a') :
    a ++ c :: b = a' ++ c :: b' ↔ a = a' ∧ b = b' := by
  constructor
  · intro heq
    induction a generalizing a' with
    | nil =>
      rcases a' with _ | ⟨d, a'⟩
      · exact ⟨rfl, (List.cons.inj heq).2⟩
      · obtain ⟨rfl, -⟩ := List.cons.inj heq
        exact absurd List.mem_cons_self h'
    | cons d a ih =>
      rcases a' with _ | ⟨e, a'⟩
      · obtain ⟨rfl, -⟩ := List.cons.inj heq
        exact absurd List.mem_cons_self h
      · obtain ⟨rfl, htail⟩ := List.cons.inj heq
        obtain ⟨rfl, hb⟩ := ih (mt (List.mem_cons_of_mem _) h)
          (mt (List.mem_cons_of_mem _) h') htail
        exact ⟨rfl, hb⟩
  · rintro ⟨rfl, rfl⟩
    rfl

theorem afterLast_append {c : α} (x : List α) {y : List α} (h : c ∉ y) :
    afterLast c (x ++ c :: y) = y := by
  unfold afterLast List.rtakeWhile
  have hall : ∀ d ∈ y.reverse, decide (d ≠ c) = true := by
    intro d hd
    exact decide_eq_true fun hdc => h (hdc ▸ List.mem_reverse.mp hd)
  rw [List.reverse_append, List.reverse_cons, List.append_assoc,
    List.takeWhile_append_of_pos hall]
  simp

end Doodle.Lib
