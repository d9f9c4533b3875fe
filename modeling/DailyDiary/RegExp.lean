/-
Regular expressions with look-ahead, matched by backtracking.

An expression is matched against a list of symbols from its front, and `rests`
returns what may be left over: one suffix for each way of matching a prefix. A
full match is a way that leaves nothing. The suffixes of a repetition are
computed with the length of the input as fuel, which is enough because a round
that consumes nothing adds no new suffix and is cut off.

A look-ahead consumes nothing: it leaves its input as it is when its body
matches some prefix of it, and fails otherwise.

`Consumes` is what an expression means, without a matcher, and `mem_rests` is that
backtracking finds every way to match and no other. The last section reads the
meaning of repeated classes and of the abbreviations off it.
-/
import Mathlib.Data.List.Basic

set_option autoImplicit false

namespace RegExp

/-- Regular expressions over the symbols `α`. -/
inductive Expr (α : Type) where
  /-- the empty word -/
  | empty
  /-- one symbol of a class -/
  | set (p : α → Bool)
  | seq (r s : Expr α)
  | star (r : Expr α)
  /-- zero-width positive look-ahead -/
  | ahead (r : Expr α)

variable {α : Type}

/-- The suffixes a repetition of `f` may leave, in at most `n` rounds that each
consume something. -/
def starRests (f : List α → List (List α)) : ℕ → List α → List (List α)
  | 0, s => [s]
  | n + 1, s =>
    s :: ((f s).filter fun t => t.length < s.length).flatMap (starRests f n)

/-- What may be left of `s` after matching a prefix of it. -/
def rests : Expr α → List α → List (List α)
  | .empty, s => [s]
  | .set _, [] => []
  | .set p, a :: s => if p a then [s] else []
  | .seq r t, s => (rests r s).flatMap (rests t)
  | .star r, s => starRests (rests r) s.length s
  | .ahead r, s => if (rests r s).isEmpty then [] else [s]

/-- The expression matches the whole of `s`. -/
def isMatch (r : Expr α) (s : List α) : Bool :=
  (rests r s).any List.isEmpty

/-! ## The usual abbreviations -/

/-- `r{n}` -/
def times (r : Expr α) : ℕ → Expr α
  | 0 => .empty
  | n + 1 => .seq r (times r n)

/-- `r{n,}` -/
def atLeast (n : ℕ) (r : Expr α) : Expr α :=
  .seq (times r n) (.star r)

/-- `r+` -/
def plus (r : Expr α) : Expr α :=
  atLeast 1 r

/-- One given symbol. -/
def lit [DecidableEq α] (a : α) : Expr α :=
  .set fun b => b = a

/-- A concatenation of several. -/
def seqs : List (Expr α) → Expr α
  | [] => .empty
  | r :: rs => .seq r (seqs rs)

/-! ## Meaning -/

/-- `r` matches a prefix of `s` and leaves `t`. -/
inductive Consumes : Expr α → List α → List α → Prop where
  | empty (s : List α) : Consumes .empty s s
  | set {p : α → Bool} {a : α} (ha : p a = true) (s : List α) : Consumes (.set p) (a :: s) s
  | seq {q r : Expr α} {s t u : List α} (hq : Consumes q s t) (hr : Consumes r t u) :
      Consumes (.seq q r) s u
  | done (r : Expr α) (s : List α) : Consumes (.star r) s s
  | again {r : Expr α} {s t u : List α} (hr : Consumes r s t) (hs : Consumes (.star r) t u) :
      Consumes (.star r) s u
  | ahead {r : Expr α} {s t : List α} (hr : Consumes r s t) : Consumes (.ahead r) s s

theorem Consumes.suffix {r : Expr α} {s t : List α} (h : Consumes r s t) : t <:+ s := by
  induction h with
  | empty s => exact List.suffix_rfl
  | set ha s => exact List.suffix_cons _ s
  | seq hq hr ihq ihr => exact ihr.trans ihq
  | done r s => exact List.suffix_rfl
  | again hr hs ihr ihs => exact ihs.trans ihr
  | ahead hr ih => exact List.suffix_rfl

/-- The matcher of a repetition finds only what rounds of its body leave. -/
theorem consumes_of_mem_starRests {r : Expr α}
    (hr : ∀ s t, t ∈ rests r s → Consumes r s t) {n : ℕ} {s t : List α}
    (h : t ∈ starRests (rests r) n s) : Consumes (.star r) s t := by
  induction n generalizing s with
  | zero =>
    obtain rfl := List.mem_singleton.mp h
    exact .done r t
  | succ n ih =>
    rcases List.mem_cons.mp h with rfl | h
    · exact .done r t
    · obtain ⟨u, hu, ht⟩ := List.mem_flatMap.mp h
      exact .again (hr s u (List.mem_filter.mp hu).1) (ih ht)

/-- With as much fuel as there are symbols it finds all of it: a round that
consumes something has more fuel left than it needs, and one that consumes
nothing can be left out. -/
theorem mem_starRests {r : Expr α} (hr : ∀ s t, Consumes r s t → t ∈ rests r s) {n : ℕ}
    {s t : List α} (h : Consumes (.star r) s t) (hn : s.length ≤ n) :
    t ∈ starRests (rests r) n s := by
  generalize hstar : Expr.star r = q at h
  induction h generalizing n with
  | empty s => cases hstar
  | set ha s => cases hstar
  | seq hq hr ihq ihr => cases hstar
  | ahead hr ih => cases hstar
  | done r s =>
    cases n with
    | zero => exact List.mem_singleton_self s
    | succ n => exact List.mem_cons_self
  | @again r' s t u hround hrest ihround ihrest =>
    obtain rfl := Expr.star.inj hstar
    by_cases hlt : t.length < s.length
    · cases n with
      | zero => omega
      | succ n =>
        refine List.mem_cons_of_mem s (List.mem_flatMap.mpr ⟨t, ?_, ihrest (by omega) rfl⟩)
        exact List.mem_filter.mpr ⟨hr s t hround, decide_eq_true hlt⟩
    · have hsame : t = s := hround.suffix.eq_of_length_le (Nat.le_of_not_lt hlt)
      subst hsame
      exact ihrest hn rfl

/-- **The matcher is right**: what it may leave is what the expression may leave. -/
theorem mem_rests {r : Expr α} {s t : List α} : t ∈ rests r s ↔ Consumes r s t := by
  induction r generalizing s t with
  | empty =>
    constructor
    · intro h
      obtain rfl := List.mem_singleton.mp h
      exact .empty t
    · rintro ⟨⟩
      exact List.mem_singleton_self s
  | set p =>
    constructor
    · intro h
      cases s with
      | nil => cases h
      | cons a s =>
        rw [rests] at h
        split at h
        · next ha =>
          obtain rfl := List.mem_singleton.mp h
          exact .set ha t
        · cases h
    · rintro ⟨⟩
      next ha =>
      rw [rests, if_pos ha]
      exact List.mem_singleton_self t
  | seq q r ihq ihr =>
    rw [rests, List.mem_flatMap]
    constructor
    · rintro ⟨u, hu, ht⟩
      exact .seq (ihq.mp hu) (ihr.mp ht)
    · rintro ⟨⟩
      next u hq hr => exact ⟨u, ihq.mpr hq, ihr.mpr hr⟩
  | star r ih =>
    constructor
    · exact consumes_of_mem_starRests fun _ _ => ih.mp
    · intro h
      exact mem_starRests (fun _ _ => ih.mpr) h (Nat.le_refl _)
  | ahead r ih =>
    rw [rests]
    constructor
    · intro h
      split at h
      · cases h
      · next hne =>
        obtain rfl := List.mem_singleton.mp h
        obtain ⟨u, hu⟩ := List.exists_mem_of_ne_nil _ (by simpa using hne)
        exact .ahead (ih.mp hu)
    · rintro ⟨⟩
      next u hr =>
      have hne : rests r s ≠ [] := List.ne_nil_of_mem (ih.mpr hr)
      rw [if_neg (by simpa using hne)]
      exact List.mem_singleton_self s

theorem isMatch_iff {r : Expr α} {s : List α} : isMatch r s = true ↔ Consumes r s [] := by
  rw [← mem_rests, isMatch, List.any_eq_true]
  constructor
  · rintro ⟨t, ht, hnil⟩
    rwa [List.isEmpty_iff.mp hnil] at ht
  · exact fun h => ⟨[], h, rfl⟩

/-! ## Classes, repeated -/

theorem consumes_seq {q r : Expr α} {s u : List α} :
    Consumes (.seq q r) s u ↔ ∃ t, Consumes q s t ∧ Consumes r t u := by
  constructor
  · rintro ⟨⟩
    next t hq hr => exact ⟨t, hq, hr⟩
  · rintro ⟨t, hq, hr⟩
    exact .seq hq hr

theorem consumes_ahead {r : Expr α} {s t : List α} :
    Consumes (.ahead r) s t ↔ t = s ∧ ∃ u, Consumes r s u := by
  constructor
  · rintro ⟨⟩
    next u hr => exact ⟨rfl, u, hr⟩
  · rintro ⟨rfl, u, hr⟩
    exact .ahead hr

theorem consumes_set {p : α → Bool} {s t : List α} :
    Consumes (.set p) s t ↔ ∃ a, s = a :: t ∧ p a = true := by
  constructor
  · rintro ⟨⟩
    next a ha => exact ⟨a, rfl, ha⟩
  · rintro ⟨a, rfl, ha⟩
    exact .set ha t

theorem consumes_lit [DecidableEq α] {a : α} {s t : List α} :
    Consumes (lit a) s t ↔ s = a :: t := by
  rw [lit, consumes_set]
  constructor
  · rintro ⟨b, rfl, hb⟩
    rw [of_decide_eq_true hb]
  · rintro rfl
    exact ⟨a, rfl, decide_eq_true rfl⟩

/-- A class of characters under a star consumes any prefix, possibly empty, whose characters
are all in the class. -/
theorem consumes_star_set {p : α → Bool} {s t : List α} :
    Consumes (.star (.set p)) s t ↔ ∃ u, s = u ++ t ∧ ∀ a ∈ u, p a = true := by
  constructor
  · intro h
    generalize hr : Expr.star (.set p) = r at h
    induction h with
    | empty s => cases hr
    | set ha s => cases hr
    | seq hq hr' ihq ihr => cases hr
    | ahead hr' ih => cases hr
    | done r s => exact ⟨[], rfl, by simp⟩
    | again hround hrest ihround ihrest =>
      obtain rfl := Expr.star.inj hr
      obtain ⟨a, rfl, ha⟩ := consumes_set.mp hround
      obtain ⟨u, rfl, hu⟩ := ihrest rfl
      exact ⟨a :: u, rfl, List.forall_mem_cons.mpr ⟨ha, hu⟩⟩
  · rintro ⟨u, rfl, hu⟩
    induction u with
    | nil => exact .done _ t
    | cons a u ih =>
      obtain ⟨ha, hu⟩ := List.forall_mem_cons.mp hu
      exact .again (.set ha (u ++ t)) (ih hu)

/-- A class of characters repeated n times consumes a prefix of length n whose characters
are all in the class. -/
theorem consumes_times_set {p : α → Bool} {n : ℕ} {s t : List α} :
    Consumes (times (.set p) n) s t ↔
      ∃ u, s = u ++ t ∧ u.length = n ∧ ∀ a ∈ u, p a = true := by
  induction n generalizing s with
  | zero =>
    constructor
    · rintro ⟨⟩
      exact ⟨[], rfl, rfl, by simp⟩
    · rintro ⟨u, rfl, hlen, -⟩
      obtain rfl := List.length_eq_zero_iff.mp hlen
      exact .empty t
  | succ n ih =>
    rw [times, consumes_seq]
    constructor
    · rintro ⟨s', hset, htimes⟩
      obtain ⟨a, rfl, ha⟩ := consumes_set.mp hset
      obtain ⟨u, rfl, hlen, hu⟩ := ih.mp htimes
      exact ⟨a :: u, rfl, by simp [hlen], List.forall_mem_cons.mpr ⟨ha, hu⟩⟩
    · rintro ⟨u, rfl, hlen, hu⟩
      obtain ⟨a, u, rfl⟩ := List.exists_cons_of_length_eq_add_one hlen
      obtain ⟨ha, hu⟩ := List.forall_mem_cons.mp hu
      exact ⟨u ++ t, .set ha _, ih.mpr ⟨u, rfl, by simpa using hlen, hu⟩⟩

theorem consumes_atLeast_set {p : α → Bool} {n : ℕ} {s t : List α} :
    Consumes (atLeast n (.set p)) s t ↔
      ∃ u, s = u ++ t ∧ n ≤ u.length ∧ ∀ a ∈ u, p a = true := by
  rw [atLeast, consumes_seq]
  constructor
  · rintro ⟨s', htimes, hstar⟩
    obtain ⟨u, rfl, hlen, hu⟩ := consumes_times_set.mp htimes
    obtain ⟨v, rfl, hv⟩ := consumes_star_set.mp hstar
    exact ⟨u ++ v, by simp, by simp [hlen], List.forall_mem_append.mpr ⟨hu, hv⟩⟩
  · rintro ⟨u, rfl, hlen, hu⟩
    refine ⟨u.drop n ++ t, consumes_times_set.mpr ⟨u.take n, ?_, by simp [hlen], ?_⟩,
      consumes_star_set.mpr ⟨u.drop n, rfl, ?_⟩⟩
    · rw [← List.append_assoc, List.take_append_drop]
    · exact fun a ha => hu a (List.mem_of_mem_take ha)
    · exact fun a ha => hu a (List.mem_of_mem_drop ha)

theorem consumes_seqs_cons {r : Expr α} {rs : List (Expr α)} {s u : List α} :
    Consumes (seqs (r :: rs)) s u ↔ ∃ t, Consumes r s t ∧ Consumes (seqs rs) t u :=
  consumes_seq

theorem consumes_seqs_nil {s u : List α} : Consumes (seqs ([] : List (Expr α))) s u ↔ s = u := by
  constructor
  · rintro ⟨⟩
    rfl
  · rintro rfl
    exact .empty s

end RegExp
