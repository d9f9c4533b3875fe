/-
What the two validators of the registration accept, without a matcher.

`isValidEmail` is decided by the last dot: the host class contains the dot and all
letters, so the expression leaves open where the host ends, but a top-level domain
contains no dot (`email_grammar`). `isValidPassword` intersects three look-aheads,
each of which a line terminator would stop, with a match of the whole string that
admits none; what is left is a condition on the characters in any order
(`password_policy`).
-/
import Mathlib.Data.List.DropRight
import Mathlib.Data.List.Perm.Basic
import DailyDiary.Validation

set_option autoImplicit false

namespace DailyDiary

open RegExp

/-! ## Addresses -/

/-- An address, taken apart. -/
structure Email where
  localPart : List Char
  host : List Char
  topLevel : List Char
  localPart_ne : localPart ≠ []
  localPart_class : ∀ c ∈ localPart, isLocalPart c = true
  host_ne : host ≠ []
  host_class : ∀ c ∈ host, isHostPart c = true
  two_le : 2 ≤ topLevel.length
  topLevel_class : ∀ c ∈ topLevel, isLetter c = true

namespace Email

/-- What follows the `@`. -/
def domain (e : Email) : List Char :=
  e.host ++ '.' :: e.topLevel

def text (e : Email) : List Char :=
  e.localPart ++ '@' :: e.domain

end Email

/-- The expression matches the texts of addresses. -/
theorem isValidEmail_iff {s : String} :
    isValidEmail s = true ↔ ∃ e : Email, e.text = s.toList := by
  simp only [isValidEmail, isMatch_iff, emailRegEx, plus, consumes_seqs_cons, consumes_seqs_nil,
    consumes_atLeast_set, consumes_lit]
  constructor
  · rintro ⟨-, ⟨l, hs, hl, hlclass⟩, -, rfl, -, ⟨h, rfl, hh, hhclass⟩, -, rfl,
      -, ⟨t, rfl, ht, htclass⟩, rfl⟩
    refine ⟨⟨l, h, t, ?_, hlclass, ?_, hhclass, ht, htclass⟩, ?_⟩
    · exact List.ne_nil_of_length_pos hl
    · exact List.ne_nil_of_length_pos hh
    · rw [hs]
      simp [Email.text, Email.domain]
  · rintro ⟨e, he⟩
    refine ⟨'@' :: e.domain, ⟨e.localPart, he.symm, ?_, e.localPart_class⟩, e.domain, rfl,
      '.' :: e.topLevel, ⟨e.host, rfl, ?_, e.host_class⟩, e.topLevel, rfl,
      [], ⟨e.topLevel, by simp, e.two_le, e.topLevel_class⟩, rfl⟩
    · exact List.length_pos_of_ne_nil e.localPart_ne
    · exact List.length_pos_of_ne_nil e.host_ne

/-! ## The last dot -/

def beforeAt (s : List Char) : List Char :=
  s.takeWhile (· ≠ '@')

def afterAt (s : List Char) : List Char :=
  (s.dropWhile (· ≠ '@')).tail

def beforeLastDot (s : List Char) : List Char :=
  (s.rdropWhile (· ≠ '.')).dropLast

def afterLastDot (s : List Char) : List Char :=
  s.rtakeWhile (· ≠ '.')

/-- The decision by the only `@` and the last dot behind it. -/
structure DecidedByLastDot (s : List Char) : Prop where
  at_once : s.count '@' = 1
  localPart_ne : beforeAt s ≠ []
  localPart_class : ∀ c ∈ beforeAt s, isLocalPart c = true
  domain_class : ∀ c ∈ afterAt s, isHostPart c = true
  dot : '.' ∈ afterAt s
  host_ne : beforeLastDot (afterAt s) ≠ []
  two_le : 2 ≤ (afterLastDot (afterAt s)).length
  topLevel_class : ∀ c ∈ afterLastDot (afterAt s), isLetter c = true

theorem isHostPart_of_isLetter {c : Char} (h : isLetter c = true) : isHostPart c = true := by
  simp only [isLetter, isHostPart, isAlphanumeric, Bool.or_eq_true] at h ⊢
  tauto

theorem split_at {a b : List Char} (ha : '@' ∉ a) :
    beforeAt (a ++ '@' :: b) = a ∧ afterAt (a ++ '@' :: b) = b := by
  have hne : ∀ c ∈ a, decide (c ≠ '@') = true := by
    intro c hc
    exact decide_eq_true fun h => ha (h ▸ hc)
  constructor
  · rw [beforeAt, List.takeWhile_append_of_pos hne]
    simp
  · rw [afterAt, List.dropWhile_append_of_pos hne]
    simp

theorem split_lastDot {a b : List Char} (hb : '.' ∉ b) :
    beforeLastDot (a ++ '.' :: b) = a ∧ afterLastDot (a ++ '.' :: b) = b := by
  have hne : ∀ c ∈ b.reverse, decide (c ≠ '.') = true := by
    intro c hc
    exact decide_eq_true fun h => hb (h ▸ List.mem_reverse.mp hc)
  constructor
  · rw [beforeLastDot, List.rdropWhile, List.reverse_append, List.reverse_cons,
      List.append_assoc, List.dropWhile_append_of_pos hne]
    simp
  · rw [afterLastDot, List.rtakeWhile, List.reverse_append, List.reverse_cons,
      List.append_assoc, List.takeWhile_append_of_pos hne]
    simp

namespace Email

variable (e : Email)

theorem not_mem_localPart : '@' ∉ e.localPart := by
  intro h
  exact absurd (e.localPart_class _ h) (by decide)

theorem domain_class : ∀ c ∈ e.domain, isHostPart c = true := by
  intro c hc
  rcases List.mem_append.mp hc with hc | hc
  · exact e.host_class c hc
  · rcases List.mem_cons.mp hc with rfl | hc
    · decide
    · exact isHostPart_of_isLetter (e.topLevel_class c hc)

theorem not_mem_domain : '@' ∉ e.domain := by
  intro h
  exact absurd (e.domain_class _ h) (by decide)

theorem not_mem_topLevel : '.' ∉ e.topLevel := by
  intro h
  exact absurd (e.topLevel_class _ h) (by decide)

theorem beforeAt_text : beforeAt e.text = e.localPart :=
  (split_at e.not_mem_localPart).1

theorem afterAt_text : afterAt e.text = e.domain :=
  (split_at e.not_mem_localPart).2

theorem beforeLastDot_domain : beforeLastDot e.domain = e.host :=
  (split_lastDot e.not_mem_topLevel).1

theorem afterLastDot_domain : afterLastDot e.domain = e.topLevel :=
  (split_lastDot e.not_mem_topLevel).2

/-- The parts of an address are those the decision looks at. -/
theorem decidedByLastDot : DecidedByLastDot e.text where
  at_once := by
    rw [text, List.count_append, List.count_cons_self,
      List.count_eq_zero_of_not_mem e.not_mem_localPart,
      List.count_eq_zero_of_not_mem e.not_mem_domain]
  localPart_ne := e.beforeAt_text ▸ e.localPart_ne
  localPart_class := e.beforeAt_text ▸ e.localPart_class
  domain_class := e.afterAt_text ▸ e.domain_class
  dot := by
    rw [afterAt_text, domain]
    simp
  host_ne := by
    rw [afterAt_text, beforeLastDot_domain]
    exact e.host_ne
  two_le := by
    rw [afterAt_text, afterLastDot_domain]
    exact e.two_le
  topLevel_class := by
    rw [afterAt_text, afterLastDot_domain]
    exact e.topLevel_class

/-- So an address is determined by its text. -/
theorem text_injective : Function.Injective text := by
  intro e e' h
  have hdomain : e.domain = e'.domain := by
    rw [← e.afterAt_text, ← e'.afterAt_text, h]
  have hlocal : e.localPart = e'.localPart := by
    rw [← e.beforeAt_text, ← e'.beforeAt_text, h]
  have hhost : e.host = e'.host := by
    rw [← e.beforeLastDot_domain, ← e'.beforeLastDot_domain, hdomain]
  have htop : e.topLevel = e'.topLevel := by
    rw [← e.afterLastDot_domain, ← e'.afterLastDot_domain, hdomain]
  cases e
  cases e'
  congr

end Email

/-- A list is cut at the last occurrence of one of its members. -/
theorem exists_last {α : Type} {a : α} {s : List α} (h : a ∈ s) :
    ∃ l r, s = l ++ a :: r ∧ a ∉ r := by
  obtain ⟨l, r, hs, hl⟩ := List.eq_append_cons_of_mem (List.mem_reverse.mpr h)
  refine ⟨r.reverse, l.reverse, ?_, ?_⟩
  · rw [← List.reverse_reverse s, hs]
    simp
  · simpa using hl

/-- What passes the decision is the text of an address. -/
theorem DecidedByLastDot.exists_email {s : List Char} (h : DecidedByLastDot s) :
    ∃ e : Email, e.text = s := by
  have hat : '@' ∈ s := List.count_pos_iff.mp (by rw [h.at_once]; exact Nat.one_pos)
  obtain ⟨l, d, rfl, hl⟩ := List.eq_append_cons_of_mem hat
  obtain ⟨hbefore, hafter⟩ := split_at (b := d) hl
  obtain ⟨-, hlne, hlclass, hdclass, hdot, hhne, htwo, hletter⟩ := h
  rw [hbefore] at hlne hlclass
  rw [hafter] at hdclass hdot hhne htwo hletter
  -- the host takes everything up to the last dot, the dots in it included
  obtain ⟨host, top, rfl, htop⟩ := exists_last hdot
  rw [(split_lastDot htop).1] at hhne
  rw [(split_lastDot htop).2] at htwo hletter
  have hhclass : ∀ c ∈ host, isHostPart c = true :=
    fun c hc => hdclass c (List.mem_append_left _ hc)
  exact ⟨⟨l, host, top, hlne, hlclass, hhne, hhclass, htwo, hletter⟩, rfl⟩

/-! ## The characters of an address -/

/-- A character one sees: ASCII, and no white space. -/
def isGraphic (c : Char) : Bool := range '!' '~' c

theorem range_mono {lo lo' hi hi' c : Char} (hlo : lo ≤ lo') (hhi : hi' ≤ hi)
    (h : range lo' hi' c = true) : range lo hi c = true := by
  simp only [range, Bool.and_eq_true, decide_eq_true_eq] at h ⊢
  exact ⟨Char.le_trans hlo h.1, Char.le_trans h.2 hhi⟩

theorem isGraphic_of_isAlphanumeric {c : Char} (h : isAlphanumeric c = true) :
    isGraphic c = true := by
  simp only [isAlphanumeric, Bool.or_eq_true] at h
  rcases h with (h | h) | h
  · exact range_mono (by decide) (by decide) h
  · exact range_mono (by decide) (by decide) h
  · exact range_mono (by decide) (by decide) h

theorem isGraphic_of_isLocalPart {c : Char} (h : isLocalPart c = true) : isGraphic c = true := by
  simp only [isLocalPart, Bool.or_eq_true, decide_eq_true_eq] at h
  rcases h with h | h
  · exact isGraphic_of_isAlphanumeric h
  · have hall : ['.', '_', '%', '+', '-'].all isGraphic = true := by decide
    exact List.all_eq_true.mp hall c h

theorem isGraphic_of_isHostPart {c : Char} (h : isHostPart c = true) : isGraphic c = true := by
  simp only [isHostPart, Bool.or_eq_true, decide_eq_true_eq] at h
  rcases h with h | h
  · exact isGraphic_of_isAlphanumeric h
  · have hall : ['.', '-'].all isGraphic = true := by decide
    exact List.all_eq_true.mp hall c h

theorem Email.text_class (e : Email) : ∀ c ∈ e.text, isGraphic c = true := by
  intro c hc
  rcases List.mem_append.mp hc with hc | hc
  · exact isGraphic_of_isLocalPart (e.localPart_class c hc)
  · rcases List.mem_cons.mp hc with rfl | hc
    · decide
    · exact isGraphic_of_isHostPart (e.domain_class c hc)

/-- A graphic character is plain ASCII: neither a space nor one of the line terminators that
end a dot, so the expressions read it as an ordinary character. -/
theorem not_special_of_isGraphic {c : Char} (h : isGraphic c = true) :
    c.toNat < 128 ∧ c.isWhitespace = false ∧ isLineTerminator c = false := by
  -- it differs from every character that is not graphic
  have hne : ∀ x, isGraphic x = false → c ≠ x := by
    rintro x hx rfl
    rw [h] at hx
    cases hx
  simp only [isGraphic, range, Bool.and_eq_true, decide_eq_true_eq] at h
  obtain ⟨hlo, hhi⟩ := h
  refine ⟨?_, ?_, ?_⟩
  · have hle : c.toNat ≤ 126 := hhi
    omega
  · simp [Char.isWhitespace, hne ' ' (by decide), hne '\t' (by decide), hne '\r' (by decide),
      hne '\n' (by decide)]
  · have hrange : range '\n' '\r' c = false := by
      rw [range, Bool.and_eq_false_iff, decide_eq_false_iff_not, decide_eq_false_iff_not]
      exact Or.inr fun hle => absurd (Char.le_trans hlo hle) (by decide)
    simp [isLineTerminator, hrange, hne '\u0085' (by decide), hne '\u2028' (by decide),
      hne '\u2029' (by decide)]

/-- **The e-mail validator, decided by the last dot.** It accepts exactly the texts
that pass the decision; such a text is one of an address in one way, and all its
characters are ASCII and none is white space or a line terminator. -/
theorem email_grammar (s : String) :
    (isValidEmail s = true ↔ DecidedByLastDot s.toList) ∧
      (isValidEmail s = true ↔ ∃! e : Email, e.text = s.toList) ∧
      (isValidEmail s = true → ∀ c ∈ s.toList,
        c.toNat < 128 ∧ c.isWhitespace = false ∧ isLineTerminator c = false) := by
  refine ⟨⟨?_, ?_⟩, ⟨?_, ?_⟩, ?_⟩
  · intro h
    obtain ⟨e, he⟩ := isValidEmail_iff.mp h
    exact he ▸ e.decidedByLastDot
  · intro h
    exact isValidEmail_iff.mpr h.exists_email
  · intro h
    obtain ⟨e, he⟩ := isValidEmail_iff.mp h
    exact ⟨e, he, fun e' he' => Email.text_injective (he'.trans he.symm)⟩
  · rintro ⟨e, he, -⟩
    exact isValidEmail_iff.mpr ⟨e, he⟩
  · intro h c hc
    obtain ⟨e, he⟩ := isValidEmail_iff.mp h
    exact not_special_of_isGraphic (e.text_class c (he ▸ hc))

theorem email_grammar_dots : isValidEmail "a.b@c-d.e.org" = true ∧
    ∀ c ∈ "a.b@c-d.e.org".toList,
      c.toNat < 128 ∧ c.isWhitespace = false ∧ isLineTerminator c = false :=
  ⟨by decide, (email_grammar "a.b@c-d.e.org").2.2 (by decide)⟩

/-! ## Passwords -/

/-- What a password has to be. -/
structure PasswordPolicy (s : List Char) : Prop where
  oneLine : ∀ c ∈ s, isLineTerminator c = false
  eight_le : 8 ≤ s.length
  upper : ∃ c ∈ s, isUpper c = true
  digit : ∃ c ∈ s, isDigit c = true
  lower : ∃ c ∈ s, isLower c = true

/-- On a string of one line the look-ahead finds its class anywhere. -/
theorem consumes_somewhereAhead {p : Char → Bool} {s t : List Char}
    (hs : ∀ c ∈ s, isLineTerminator c = false) :
    Consumes (somewhereAhead p) s t ↔ t = s ∧ ∃ c ∈ s, p c = true := by
  simp only [somewhereAhead, dot, consumes_ahead, consumes_seq, consumes_star_set, consumes_set]
  refine and_congr_right fun _ => ⟨?_, ?_⟩
  · rintro ⟨u, -, ⟨v, rfl, -⟩, c, rfl, hc⟩
    exact ⟨c, by simp, hc⟩
  · rintro ⟨c, hmem, hc⟩
    obtain ⟨v, u, rfl⟩ := List.append_of_mem hmem
    refine ⟨u, c :: u, ⟨v, rfl, ?_⟩, c, rfl, hc⟩
    intro a ha
    rw [hs a (List.mem_append_left _ ha)]
    rfl

/-- The expression of the source accepts just the strings of the policy. Three lookaheads
ask for one kind of character each, the dots behind them for the length. -/
theorem isValidPassword_iff {s : String} :
    isValidPassword (some s) = true ↔ PasswordPolicy s.toList := by
  simp only [isValidPassword, isMatch_iff, passwordRegEx, consumes_seqs_cons, consumes_seqs_nil]
  constructor
  · rintro ⟨s₁, hupper, s₂, hdigit, s₃, hlower, -, hdots, rfl⟩
    -- the look-aheads consume nothing, so the last part matches the whole string
    obtain ⟨rfl, -⟩ := consumes_ahead.mp hlower
    obtain ⟨rfl, -⟩ := consumes_ahead.mp hdigit
    obtain ⟨rfl, -⟩ := consumes_ahead.mp hupper
    obtain ⟨u, hs, hlen, hu⟩ := consumes_atLeast_set.mp hdots
    rw [List.append_nil] at hs
    subst hs
    have hone : ∀ c ∈ s.toList, isLineTerminator c = false := fun c hc => by simpa using hu c hc
    exact ⟨hone, hlen, ((consumes_somewhereAhead hone).mp hupper).2,
      ((consumes_somewhereAhead hone).mp hdigit).2, ((consumes_somewhereAhead hone).mp hlower).2⟩
  · intro h
    refine ⟨s.toList, (consumes_somewhereAhead h.oneLine).mpr ⟨rfl, h.upper⟩,
      s.toList, (consumes_somewhereAhead h.oneLine).mpr ⟨rfl, h.digit⟩,
      s.toList, (consumes_somewhereAhead h.oneLine).mpr ⟨rfl, h.lower⟩,
      [], consumes_atLeast_set.mpr ⟨s.toList, by simp, h.eight_le, ?_⟩, rfl⟩
    intro c hc
    rw [h.oneLine c hc]
    rfl

/-- The policy looks at the characters only, not at their order. -/
theorem PasswordPolicy.perm {s t : List Char} (h : PasswordPolicy s) (hst : s.Perm t) :
    PasswordPolicy t where
  oneLine := fun c hc => h.oneLine c (hst.mem_iff.mpr hc)
  eight_le := hst.length_eq ▸ h.eight_le
  upper := h.upper.imp fun _ hc => ⟨hst.mem_iff.mp hc.1, hc.2⟩
  digit := h.digit.imp fun _ hc => ⟨hst.mem_iff.mp hc.1, hc.2⟩
  lower := h.lower.imp fun _ hc => ⟨hst.mem_iff.mp hc.1, hc.2⟩

theorem PasswordPolicy.mono {s t : List Char} (h : PasswordPolicy s) (hst : s.Sublist t)
    (ht : ∀ c ∈ t, isLineTerminator c = false) : PasswordPolicy t where
  oneLine := ht
  eight_le := h.eight_le.trans hst.length_le
  upper := h.upper.imp fun _ hc => ⟨hst.mem hc.1, hc.2⟩
  digit := h.digit.imp fun _ hc => ⟨hst.mem hc.1, hc.2⟩
  lower := h.lower.imp fun _ hc => ⟨hst.mem hc.1, hc.2⟩

/-- **The password validator enforces its policy**: one line of at least eight
characters with an upper-case letter, a digit and a lower-case letter anywhere. So
the order of the characters does not matter, and characters may be inserted
anywhere that are no line terminators. -/
theorem password_policy :
    (∀ s : String, isValidPassword (some s) = true ↔ PasswordPolicy s.toList) ∧
      (∀ s t : String, s.toList.Perm t.toList →
        isValidPassword (some s) = isValidPassword (some t)) ∧
      ∀ a b c : String, isValidPassword (some (a ++ c)) = true →
        (∀ x ∈ b.toList, isLineTerminator x = false) →
        isValidPassword (some (a ++ b ++ c)) = true := by
  refine ⟨fun s => isValidPassword_iff, ?_, ?_⟩
  · intro s t hst
    refine Bool.eq_iff_iff.mpr ?_
    rw [isValidPassword_iff, isValidPassword_iff]
    exact ⟨fun h => h.perm hst, fun h => h.perm hst.symm⟩
  · intro a b c hac hb
    rw [isValidPassword_iff] at hac ⊢
    simp only [String.toList_append] at hac ⊢
    refine hac.mono ?_ ?_
    · exact (List.sublist_append_left _ _).append_right _
    · intro x hx
      rcases List.mem_append.mp hx with hx | hx
      · rcases List.mem_append.mp hx with hx | hx
        · exact hac.oneLine x (List.mem_append_left _ hx)
        · exact hb x hx
      · exact hac.oneLine x (List.mem_append_right _ hx)

theorem password_policy_inserted : isValidPassword (some ("Abcd" ++ " ü\t" ++ "efg1")) = true :=
  password_policy.2.2 "Abcd" " ü\t" "efg1" (by decide) (by simp [isLineTerminator, range])

end DailyDiary
