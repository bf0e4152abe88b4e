/-
  Lists of entries between parentheses, as they are read from a text.

  A list is read from behind its opening parenthesis: entries separated by commas, up to the
  parenthesis that closes it. A comma or a parenthesis inside quotes, or inside parentheses of the
  entry's own, belongs to the entry. Inside quotes the quote itself is doubled, or escaped.

  An entry is `closed` when reading it by itself ends outside quotes and parentheses.

  * `entries_commas`: closed entries, joined by commas, are read as they were written.
  * `entries_commas_inv`: when what is read is right for every element of a list, and nothing else
    that could be read would be right, then it is what was written, and it is closed.
-/
import Mathlib.Tactic.Common

namespace Doodle.Lib.Entries

/-! ## Reading one entry -/

inductive Quote where
  | single
  | double
  | back
  deriving DecidableEq

def Quote.char : Quote → Char
  | single => Char.ofNat 39
  | double => Char.ofNat 34
  | back => Char.ofNat 96

def Quote.ofChar (c : Char) : Option Quote :=
  if c = single.char then some single
  else if c = double.char then some double
  else if c = back.char then some back
  else none

/-- A backslash escapes, except between backquotes. -/
def Quote.escapes (q : Quote) (c : Char) : Bool := q ≠ back && c = Char.ofNat 92

/-- Outside quotes, inside them, after an escape, or after a quote that ends them unless it is
    doubled. -/
inductive Mode where
  | plain
  | lit (q : Quote)
  | esc (q : Quote)
  | shut (q : Quote)

structure State where
  mode : Mode
  depth : Nat

def State.start : State := ⟨.plain, 0⟩

/-- A character outside quotes; `none` where the entry ends. -/
def outside (depth : Nat) (c : Char) : Option State :=
  match Quote.ofChar c with
  | some q => some ⟨.lit q, depth⟩
  | none =>
    if c = '(' then some ⟨.plain, depth + 1⟩
    else if c = ')' then if depth = 0 then none else some ⟨.plain, depth - 1⟩
    else if c = ',' ∧ depth = 0 then none
    else some ⟨.plain, depth⟩

def State.step (s : State) (c : Char) : Option State :=
  match s.mode with
  | .plain => outside s.depth c
  | .lit q =>
    if q.escapes c then some ⟨.esc q, s.depth⟩
    else if c = q.char then some ⟨.shut q, s.depth⟩
    else some ⟨.lit q, s.depth⟩
  | .esc q => some ⟨.lit q, s.depth⟩
  | .shut q => if c = q.char then some ⟨.lit q, s.depth⟩ else outside s.depth c

/-- The state after some characters, none of which ends the entry. -/
def run : State → List Char → Option State
  | s, [] => some s
  | s, c :: cs => (s.step c).bind fun s' => run s' cs

theorem run_append (s : State) (cs ds : List Char) :
    run s (cs ++ ds) = (run s cs).bind fun s' => run s' ds := by
  induction cs generalizing s with
  | nil => rfl
  | cons c cs ih =>
    rw [List.cons_append, run, run]
    cases s.step c with
    | none => rfl
    | some s' => exact ih s'

/-- The entry at the front of a text, and the text from its end on. -/
def entry : State → List Char → Option (List Char × List Char)
  | _, [] => none
  | s, c :: cs =>
    match s.step c with
    | none => some ([], c :: cs)
    | some s' => (entry s' cs).map fun r => (c :: r.1, r.2)

/-- Outside quotes and parentheses. -/
def State.ended (s : State) : Bool :=
  s.depth = 0 && match s.mode with
    | .plain | .shut _ => true
    | _ => false

/-- Read by itself, the entry ends outside quotes and parentheses. -/
def closed (e : List Char) : Bool := ((run .start e).map State.ended).getD false

theorem closed_eq_true {e : List Char} :
    closed e = true ↔ ∃ s, run .start e = some s ∧ s.ended = true := by
  unfold closed
  cases run .start e <;> simp

/-- A comma or a parenthesis. -/
def Delim (c : Char) : Prop := c = ',' ∨ c = ')'

theorem outside_eq_none_iff (depth : Nat) (c : Char) :
    outside depth c = none ↔ depth = 0 ∧ Delim c := by
  unfold outside Delim
  constructor
  · intro h
    split at h
    · cases h
    · split_ifs at h with h1 h2 h3 h4
      · exact ⟨h3, .inr h2⟩
      · exact ⟨h4.2, .inl h4.1⟩
  · rintro ⟨rfl, rfl | rfl⟩
    · rfl
    · rfl

theorem Delim.ne_char {c : Char} (h : Delim c) (q : Quote) : c ≠ q.char := by
  rcases h with rfl | rfl <;> cases q <;> decide

/-- An entry ends at a comma or a parenthesis outside quotes and parentheses. -/
theorem step_eq_none_iff (s : State) (c : Char) :
    s.step c = none ↔ s.ended = true ∧ Delim c := by
  obtain ⟨mode, depth⟩ := s
  cases mode with
  | plain => simp [State.step, State.ended, outside_eq_none_iff]
  | lit q =>
    refine iff_of_false ?_ (by simp [State.ended])
    simp only [State.step]
    split_ifs <;> simp
  | esc q => exact iff_of_false (by simp [State.step]) (by simp [State.ended])
  | shut q =>
    simp only [State.step, State.ended, Bool.and_true, decide_eq_true_eq]
    split_ifs with h
    · exact iff_of_false (by simp) fun hc => hc.2.ne_char q h
    · exact outside_eq_none_iff depth c

theorem entry_eq_some_iff {cs e rest : List Char} : ∀ {s : State},
    entry s cs = some (e, rest) ↔
      ∃ s' d rest', run s e = some s' ∧ s'.step d = none ∧ rest = d :: rest' ∧ cs = e ++ rest := by
  induction cs generalizing e with
  | nil =>
    intro s
    refine iff_of_false (by simp [entry]) ?_
    rintro ⟨s', d, rest', -, -, rfl, hcs⟩
    simp at hcs
  | cons c cs ih =>
    intro s
    cases hstep : s.step c with
    | none =>
      simp only [entry, hstep, Option.some.injEq, Prod.mk.injEq]
      constructor
      · rintro ⟨rfl, rfl⟩
        exact ⟨s, c, cs, rfl, hstep, rfl, rfl⟩
      · rintro ⟨s', d, rest', hrun, -, rfl, hcs⟩
        cases e with
        | nil => exact ⟨rfl, hcs⟩
        | cons c' e =>
          obtain ⟨rfl, -⟩ := List.cons.inj hcs
          simp [run, hstep] at hrun
    | some s₁ =>
      simp only [entry, hstep, Option.map_eq_some_iff, Prod.mk.injEq]
      constructor
      · rintro ⟨⟨e', rest'⟩, he, rfl, rfl⟩
        obtain ⟨s', d, r, hrun, hend, rfl, rfl⟩ := ih.mp he
        exact ⟨s', d, r, by simp [run, hstep, hrun], hend, rfl, rfl⟩
      · rintro ⟨s', d, r, hrun, hend, rfl, hcs⟩
        cases e with
        | nil =>
          obtain ⟨rfl, -⟩ := List.cons.inj hcs
          cases hrun
          rw [hstep] at hend
          cases hend
        | cons c' e =>
          obtain ⟨rfl, rfl⟩ := List.cons.inj hcs
          simp only [run, hstep, Option.bind_some] at hrun
          exact ⟨(e, d :: r), ih.mpr ⟨s', d, r, hrun, hend, rfl, rfl⟩, rfl, rfl⟩

/-- An entry is read exactly when it is closed and a comma or a parenthesis follows it. -/
theorem entry_start_iff {cs e rest : List Char} :
    entry .start cs = some (e, rest) ↔
      closed e = true ∧ ∃ d rest', Delim d ∧ rest = d :: rest' ∧ cs = e ++ rest := by
  rw [entry_eq_some_iff, closed_eq_true]
  constructor
  · rintro ⟨s, d, rest', hrun, hend, hrest, hcs⟩
    rw [step_eq_none_iff] at hend
    exact ⟨⟨s, hrun, hend.1⟩, d, rest', hend.2, hrest, hcs⟩
  · rintro ⟨⟨s, hrun, hend⟩, d, rest', hd, hrest, hcs⟩
    exact ⟨s, d, rest', hrun, (step_eq_none_iff s d).mpr ⟨hend, hd⟩, hrest, hcs⟩

/-- Two closed entries at the front of one text are the same. -/
theorem closed_unique {e e' rest rest' : List Char} {d d' : Char} (he : closed e = true)
    (he' : closed e' = true) (hd : Delim d) (hd' : Delim d')
    (h : e ++ d :: rest = e' ++ d' :: rest') : e = e' := by
  have h1 : entry .start (e ++ d :: rest) = some (e, d :: rest) :=
    entry_start_iff.mpr ⟨he, d, rest, hd, rfl, rfl⟩
  have h2 : entry .start (e ++ d :: rest) = some (e', d' :: rest') :=
    entry_start_iff.mpr ⟨he', d', rest', hd', rfl, h⟩
  rw [h1] at h2
  exact congrArg Prod.fst (Option.some.inj h2)

/-- A character that means nothing to the reader. -/
def ordinary (c : Char) : Bool :=
  (Quote.ofChar c).isNone && c ≠ '(' && c ≠ ')' && c ≠ ','

theorem run_of_ordinary {e : List Char} (h : ∀ c ∈ e, ordinary c = true) :
    run .start e = some .start := by
  induction e with
  | nil => rfl
  | cons c e ih =>
    rw [List.forall_mem_cons] at h
    have hstep : State.start.step c = some .start := by
      have hc := h.1
      simp only [ordinary, Bool.and_eq_true, Option.isNone_iff_eq_none, decide_eq_true_eq] at hc
      obtain ⟨⟨⟨hq, hopen⟩, hclose⟩, hcomma⟩ := hc
      simp [State.start, State.step, outside, hq, hopen, hclose, hcomma]
    rw [run, hstep, Option.bind_some]
    exact ih h.2

theorem closed_of_ordinary {e : List Char} (h : ∀ c ∈ e, ordinary c = true) : closed e = true :=
  closed_eq_true.mpr ⟨_, run_of_ordinary h, rfl⟩

/-! ## Reading a list -/

/-- One blank after a comma. -/
def afterComma : List Char → List Char
  | ' ' :: cs => cs
  | cs => cs

theorem length_afterComma (cs : List Char) : (afterComma cs).length ≤ cs.length := by
  unfold afterComma
  split
  · exact Nat.le_succ _
  · exact Nat.le_refl _

/-- The entries of a list, and the text behind its closing parenthesis. -/
def entries (cs : List Char) : Option (List (List Char) × List Char) :=
  match _hentry : entry .start cs with
  | some (e, d :: rest) =>
    if d = ',' then (entries (afterComma rest)).map fun r => (e :: r.1, r.2)
    else some ([e], rest)
  | _ => none
termination_by cs.length
decreasing_by
  obtain ⟨-, d', rest', -, -, rfl⟩ := entry_start_iff.mp _hentry
  have := length_afterComma rest
  simp only [List.length_append, List.length_cons]
  omega

theorem entries_comma {e : List Char} (he : closed e = true) (rest : List Char) :
    entries (e ++ ',' :: rest) =
      (entries (afterComma rest)).map fun r => (e :: r.1, r.2) := by
  have hentry : entry .start (e ++ ',' :: rest) = some (e, ',' :: rest) :=
    entry_start_iff.mpr ⟨he, ',', rest, .inl rfl, rfl, rfl⟩
  rw [entries]
  split
  · next e' d rest' h =>
    rw [hentry] at h
    cases h
    rw [if_pos rfl]
  · next h => exact absurd hentry (h e ',' rest)

theorem entries_paren {e : List Char} (he : closed e = true) (rest : List Char) :
    entries (e ++ ')' :: rest) = some ([e], rest) := by
  have hentry : entry .start (e ++ ')' :: rest) = some (e, ')' :: rest) :=
    entry_start_iff.mpr ⟨he, ')', rest, .inr rfl, rfl, rfl⟩
  rw [entries]
  split
  · next e' d rest' h =>
    rw [hentry] at h
    cases h
    rw [if_neg (by decide)]
  · next h => exact absurd hentry (h e ')' rest)

/-- What a list that is read looks like. -/
theorem entries_inv {cs r : List Char} {es : List (List Char)} (h : entries cs = some (es, r)) :
    ∃ e, closed e = true ∧
      ((∃ rest es', cs = e ++ ',' :: rest ∧ entries (afterComma rest) = some (es', r) ∧
          es = e :: es') ∨
        cs = e ++ ')' :: r ∧ es = [e]) := by
  rw [entries] at h
  split at h
  · next e d rest hentry =>
    obtain ⟨he, d', rest', hd, hrest, rfl⟩ := entry_start_iff.mp hentry
    obtain ⟨rfl, rfl⟩ := List.cons.inj hrest
    refine ⟨e, he, ?_⟩
    split at h
    · next hcomma =>
      obtain ⟨⟨es', r'⟩, hes, hr⟩ := Option.map_eq_some_iff.mp h
      cases hr
      exact .inl ⟨rest, es', by rw [hcomma], hes, rfl⟩
    · next hcomma =>
      cases h
      rw [hd.resolve_left hcomma]
      exact .inr ⟨rfl, rfl⟩
  · cases h

/-- Entries joined by commas. -/
def commas : List (List Char) → List Char
  | [] => []
  | [e] => e
  | e :: e' :: es => e ++ [',', ' '] ++ commas (e' :: es)

theorem entries_commas {es : List (List Char)} (hne : es ≠ []) (hclosed : ∀ e ∈ es, closed e = true)
    (rest : List Char) : entries (commas es ++ ')' :: rest) = some (es, rest) := by
  induction es with
  | nil => exact absurd rfl hne
  | cons e es ih =>
    rw [List.forall_mem_cons] at hclosed
    cases es with
    | nil => exact entries_paren hclosed.1 rest
    | cons e' es =>
      have htail := ih (List.cons_ne_nil _ _) hclosed.2
      have hshape : commas (e :: e' :: es) ++ ')' :: rest =
          e ++ ',' :: (' ' :: (commas (e' :: es) ++ ')' :: rest)) := by
        simp [commas]
      rw [hshape, entries_comma hclosed.1, afterComma, htail]
      rfl

/-- Elements `as` with texts `t`, and what may be read for them. -/
theorem entries_commas_inv {α : Type} {t : α → List Char} {R : α → List Char → Prop}
    (honly : ∀ a e d d' rest rest', closed e = true → Delim d → Delim d' →
      e ++ d' :: rest' = t a ++ d :: rest → R a e → e = t a) {rest : List Char} :
    ∀ {as : List α} {es : List (List Char)} {r : List Char}, as ≠ [] →
      entries (commas (as.map t) ++ ')' :: rest) = some (es, r) → List.Forall₂ R as es →
      r = rest ∧ es = as.map t ∧ ∀ a ∈ as, closed (t a) = true := by
  intro as
  induction as with
  | nil => intro es r hne; exact absurd rfl hne
  | cons a as ih =>
    intro es r _ hes hR
    obtain ⟨e, he, hcases⟩ := entries_inv hes
    cases as with
    | nil =>
      rcases hcases with ⟨rest', es', hcs, -, rfl⟩ | ⟨hcs, rfl⟩
      · have hRa := (List.forall₂_cons.mp hR).1
        have heq := honly a e ')' ',' rest rest' he (.inr rfl) (.inl rfl) hcs.symm hRa
        rw [heq] at hcs
        have := List.append_cancel_left hcs
        simp at this
      · have hRa := (List.forall₂_cons.mp hR).1
        have heq := honly a e ')' ')' rest r he (.inr rfl) (.inr rfl) hcs.symm hRa
        rw [heq] at hcs he ⊢
        have hrest := List.append_cancel_left hcs
        exact ⟨(List.cons.inj hrest).2.symm, rfl, by simpa using he⟩
    | cons a' as =>
      have hshape : commas ((a :: a' :: as).map t) ++ ')' :: rest =
          t a ++ ',' :: (' ' :: (commas ((a' :: as).map t) ++ ')' :: rest)) := by
        simp [commas]
      rw [hshape] at hcases
      rcases hcases with ⟨rest', es', hcs, htail, rfl⟩ | ⟨hcs, rfl⟩
      · obtain ⟨hRa, hRs⟩ := List.forall₂_cons.mp hR
        have heq := honly a e ',' ',' _ rest' he (.inl rfl) (.inl rfl) hcs.symm hRa
        rw [heq] at hcs he
        obtain rfl := (List.cons.inj (List.append_cancel_left hcs)).2.symm
        obtain ⟨hr, hes', hclosed⟩ := ih (List.cons_ne_nil _ _) htail hRs
        exact ⟨hr, by rw [heq, hes']; rfl, List.forall_mem_cons.mpr ⟨he, hclosed⟩⟩
      · have hRs := (List.forall₂_cons.mp hR).2
        cases hRs

end Doodle.Lib.Entries
